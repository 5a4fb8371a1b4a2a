import PbEntityDb.Library.Runs
import PbEntityDb.Zdb.ConnectionPool

/-!
The threads that share a connection pool.

A step is what a thread does while it has the lock of the pool, or what it does to
a connection that it holds. `ConnectionPool_returnConnection` is two steps: it
clears the connection before it takes the lock.

A stop frees the connections, also one that a thread holds. The source then goes on
with freed memory, and its address may be that of the next connection; the runs that
speak of the source are the `Guarded` ones, in which nobody stops the pool under a
holder. What the invariants say of the other runs, they say of the numbers.

* `held_mem`: a thread's connection is in the pool.
* `exclusive`: **no two threads hold the same connection, the connections that are not
  available are the held ones, and an available one is clean**.
* `getConnection_reachable`: whom `ConnectionPool_getConnection` serves.
-/

namespace PbEntityDb.Zdb

open Roster Function

/-! ### The machine -/

/-- Where a thread is. -/
inductive Client where
  | idle
  | holds (con : ℕ)
  /-- in `ConnectionPool_returnConnection`, in front of its lock -/
  | cleared (con : ℕ)
  deriving DecidableEq, Repr

/-- The connection in the hands of a thread. -/
def Client.con : Client → Option ℕ
  | idle => none
  | holds con | cleared con => some con

/-- The settings of a pool. `ConnectionPool_setInitialConnections` does not look at the
maximal number, so that the initial one may be larger. -/
structure Config where
  initialConnections : ℕ
  maxConnections : ℕ
  connectionTimeout : ℤ
  timeout_pos : 0 < connectionTimeout

/-- A pool that was not started yet. -/
def Config.pool (c : Config) : ConnectionPool where
  initialConnections := c.initialConnections
  maxConnections := c.maxConnections
  connectionTimeout := c.connectionTimeout

/-- The pool and its threads. -/
structure State (T : Type) where
  pool : ConnectionPool
  client : T → Client

/-- What happens in a step. -/
inductive Act (T : Type) where
  | get (t : T) (now : ℤ) (connect : Answer)
  | use (t : T) (u : Use)
  | clear (t : T) (a : Answer)
  | giveBack (t : T) (now : ℤ)
  | reap (now : ℤ) (ping : ℕ → Bool)
  | start (now : ℤ) (connect : ℕ → Answer)
  | stop

variable {T : Type} [DecidableEq T]

/-- The steps of the threads. What a thread does to its connection is a step only as long
as the connection is in the pool, and not freed. -/
inductive Step : State T → Act T → State T → Prop
  | got {s : State T} {t : T} {now : ℤ} {connect : Answer} {con : ℕ} {pool : ConnectionPool} :
      s.client t = .idle → s.pool.getConnection now connect = (some con, pool) →
      Step s (.get t now connect) ⟨pool, update s.client t (.holds con)⟩
  | busy {s : State T} {t : T} {now : ℤ} {connect : Answer} {pool : ConnectionPool} :
      s.client t = .idle → s.pool.getConnection now connect = (none, pool) →
      Step s (.get t now connect) { s with pool := pool }
  | use {s : State T} {t : T} {con : ℕ} {u : Use} :
      s.client t = .holds con → con ∈ s.pool.ids →
      Step s (.use t u) { s with pool := s.pool.modify con fun c => (c.use u).2 }
  | clear {s : State T} {t : T} {con : ℕ} {a : Answer} :
      s.client t = .holds con → con ∈ s.pool.ids →
      Step s (.clear t a) ⟨s.pool.clearReturned con a, update s.client t (.cleared con)⟩
  | giveBack {s : State T} {t : T} {con : ℕ} {now : ℤ} :
      s.client t = .cleared con → con ∈ s.pool.ids →
      Step s (.giveBack t now) ⟨s.pool.setReturned con now, update s.client t .idle⟩
  | reap {s : State T} {now : ℤ} {ping : ℕ → Bool} :
      Step s (.reap now ping) { s with pool := (s.pool.reapConnections now ping).2 }
  | start {s : State T} {now : ℤ} {connect : ℕ → Answer} :
      Step s (.start now connect) { s with pool := (s.pool.start now connect).2 }
  | stop {s : State T} : Step s .stop { s with pool := s.pool.stop }

/-- The machine, from a pool that was not started yet. -/
def clients (T : Type) [DecidableEq T] (c : Config) : Runs.Machine (State T) (Act T) where
  start := ⟨c.pool, fun _ => .idle⟩
  step := Step

variable {c : Config} {s s' : State T} {a : Act T}

/-! ### The numbers -/

/-- No step brings a number back. -/
lemma Step.later (h : Step s a s') (hP : s.pool.Numbered) : s.pool.Later s'.pool := by
  cases h with
  | got _ hget =>
      rcases ConnectionPool.getConnection_eq_some hP hget with ⟨_, _, _, _, rfl⟩ | ⟨_, _, _, rfl⟩
      · exact ConnectionPool.later_modify fun _ => rfl
      · exact ConnectionPool.later_pushHeld _
  | busy _ hget =>
      rw [ConnectionPool.getConnection_eq_none hget]
      exact .of_sublist rfl rfl rfl (List.Sublist.refl _)
  | use => exact ConnectionPool.later_modify fun _ => Connection.use_id _
  | clear => exact ConnectionPool.later_modify fun _ => Connection.giveBack_id _
  | giveBack => exact ConnectionPool.later_modify fun _ => rfl
  | reap => exact ConnectionPool.later_reap _ _
  | start => exact ConnectionPool.later_start _ _
  | stop => exact ConnectionPool.later_stop

lemma numbered (h : (clients T c).Reachable s) : s.pool.Numbered :=
  h.invariant ⟨List.nodup_nil, fun _ hid => absurd hid List.not_mem_nil⟩
    fun _ _ _ _ hP hstep => (Step.later hstep hP).numbered hP

/-! ### Who holds what -/

/-- The connection that a thread holds. -/
def State.hold (s : State T) (t : T) : Option ℕ := (s.client t).con

omit [DecidableEq T] in
@[simp]
lemma hold_mk (pool : ConnectionPool) : State.hold { s with pool := pool } = s.hold := rfl

lemma hold_update (pool : ConnectionPool) (t : T) (x : Client) :
    State.hold ⟨pool, update s.client t x⟩ = update s.hold t x.con := by
  funext t'
  rcases eq_or_ne t' t with rfl | hne
  · simp [State.hold]
  · simp [State.hold, hne]

/-- The connections that are not available are the ones that threads hold, each of
them by one thread. -/
structure State.Exclusive (s : State T) : Prop where
  fresh : ∀ t id, s.hold t = some id → id < s.pool.nextId
  unique : ∀ t t' id, s.hold t = some id → s.hold t' = some id → t = t'
  held : ∀ c ∈ s.pool.pool, c.isAvailable = false ↔ ∃ t, s.hold t = some c.id

namespace State.Exclusive

/-- A thread takes, keeps or gives up a connection that nobody else holds. -/
lemma unique_update (h : s.Exclusive) {t : T} {con : ℕ} {x : Option ℕ}
    (hfree : ∀ t' ≠ t, s.hold t' ≠ some con) (hx : ∀ id, x = some id → id = con) (t₁ t₂ : T)
    (id : ℕ) (h₁ : update s.hold t x t₁ = some id) (h₂ : update s.hold t x t₂ = some id) :
    t₁ = t₂ := by
  rw [update_apply] at h₁ h₂
  split_ifs at h₁ h₂ with e₁ e₂ e₂
  · rw [e₁, e₂]
  · exact absurd (hx id h₁ ▸ h₂) (hfree t₂ e₂)
  · exact absurd (hx id h₂ ▸ h₁) (hfree t₁ e₁)
  · exact h.unique t₁ t₂ id h₁ h₂

/-- Who holds another connection is the same. -/
lemma hold_update_iff {t : T} {x : Option ℕ} {id : ℕ} (ht : s.hold t ≠ some id)
    (hx : x ≠ some id) : (∃ t', update s.hold t x t' = some id) ↔ ∃ t', s.hold t' = some id := by
  refine exists_congr fun t' => ?_
  rw [update_apply]
  split_ifs with e
  · rw [e]
    exact iff_of_false hx ht
  · rfl

/-- A thread changes the connection `con`, which nobody else holds. -/
lemma modify (h : s.Exclusive) {t : T} {con : ℕ} {f : Connection → Connection} {x : Client}
    (hf : ∀ c, (f c).id = c.id) (hlt : con < s.pool.nextId)
    (hfree : ∀ t' ≠ t, s.hold t' ≠ some con) (ht : ∀ id, s.hold t = some id → id = con)
    (hx : ∀ id, x.con = some id → id = con)
    (havail : ∀ c ∈ s.pool.pool, c.id = con → ((f c).isAvailable = false ↔ x.con = some con)) :
    State.Exclusive ⟨s.pool.modify con f, update s.client t x⟩ where
  fresh t' id hid := by
    rw [hold_update, update_apply] at hid
    split_ifs at hid
    · exact hx id hid ▸ hlt
    · exact h.fresh t' id hid
  unique := by
    rw [hold_update]
    exact h.unique_update hfree hx
  held c' hc' := by
    rw [hold_update]
    rcases of_mem_alter hc' with ⟨c, hc, hid, rfl⟩ | ⟨hc, hid⟩
    · rw [hf, hid, havail c hc hid]
      refine ⟨fun hcon => ⟨t, by rwa [update_self]⟩, fun ⟨t', ht'⟩ => ?_⟩
      rw [update_apply] at ht'
      split_ifs at ht' with e
      · exact ht'
      · exact absurd ht' (hfree t' e)
    · rw [h.held c' hc, hold_update_iff (fun e => hid (ht _ e)) fun e => hid (hx _ e)]

/-- A thread changes the connection that it holds. -/
lemma modify_held (h : s.Exclusive) {t : T} {con : ℕ} {f : Connection → Connection} {x : Client}
    (hf : ∀ c, (f c).id = c.id) (ht : s.hold t = some con) (hx : ∀ id, x.con = some id → id = con)
    (havail : ∀ c, c.isAvailable = false → ((f c).isAvailable = false ↔ x.con = some con)) :
    State.Exclusive ⟨s.pool.modify con f, update s.client t x⟩ := by
  refine h.modify hf (h.fresh t con ht) (fun t' hne ht' => hne (h.unique t' t con ht' ht))
    (fun id hid => Option.some.inj (hid.symm.trans ht)) hx fun c hc hid => ?_
  exact havail c ((h.held c hc).mpr ⟨t, hid ▸ ht⟩)

/-- A thread gets a new connection. -/
lemma pushHeld (h : s.Exclusive) (hP : s.pool.Numbered) {t : T} (now : ℤ)
    (ht : s.hold t = none) :
    State.Exclusive ⟨s.pool.pushHeld now, update s.client t (.holds s.pool.nextId)⟩ where
  fresh t' id hid := by
    rw [hold_update, update_apply] at hid
    split_ifs at hid
    · obtain rfl : s.pool.nextId = id := Option.some.inj hid
      exact Nat.lt_succ_self _
    · exact (h.fresh t' id hid).trans (Nat.lt_succ_self _)
  unique := by
    rw [hold_update]
    exact h.unique_update (fun t' _ e => (h.fresh t' _ e).ne rfl) fun id e =>
      (Option.some.inj e).symm
  held c' hc' := by
    rw [hold_update]
    rcases List.mem_append.mp hc' with hc' | hc'
    · have hid : c'.id ≠ s.pool.nextId := (hP.fresh _ (List.mem_map_of_mem hc')).ne
      have ht' : s.hold t ≠ some c'.id := by simp [ht]
      rw [h.held c' hc']
      exact (hold_update_iff ht' fun e => hid (Option.some.inj e).symm).symm
    · obtain rfl := List.mem_singleton.mp hc'
      exact iff_of_true rfl ⟨t, by rw [update_self]; rfl⟩

omit [DecidableEq T] in
/-- A step that no thread notices: the connections that stay are as they were, and
the new ones are available and have new numbers. -/
lemma goOn (h : s.Exclusive) {pool : ConnectionPool} (hnext : s.pool.nextId ≤ pool.nextId)
    (hpool : ∀ c ∈ pool.pool, c ∈ s.pool.pool ∨ c.isAvailable = true ∧ s.pool.nextId ≤ c.id) :
    State.Exclusive { s with pool := pool } where
  fresh t id hid := (h.fresh t id hid).trans_le hnext
  unique := h.unique
  held c hc := by
    rcases hpool c hc with hc | ⟨havail, hid⟩
    · exact h.held c hc
    · refine iff_of_false (by simp [havail]) fun ⟨t, ht⟩ => ?_
      exact absurd (h.fresh t c.id ht) (Nat.not_lt.mpr hid)

/-- **One holder each**, step by step. -/
lemma step (h : s.Exclusive) (hP : s.pool.Numbered) (hstep : Step s a s') : s'.Exclusive := by
  have hle := (hstep.later hP).le
  cases hstep with
  | @got t now connect con pool hidle hget =>
      have ht : s.hold t = none := by rw [State.hold, hidle]; rfl
      rcases ConnectionPool.getConnection_eq_some hP hget with
        ⟨c, hc, rfl, hcon, rfl⟩ | ⟨rfl, _, _, rfl⟩
      · have hfree : ∀ t', s.hold t' ≠ some c.id := fun t' ht' => by
          have := (h.held c hc).mpr ⟨t', ht'⟩
          rw [hcon] at this
          cases this
        refine h.modify (fun _ => rfl) (hP.fresh _ (List.mem_map_of_mem hc)) (fun t' _ => hfree t')
          (fun id hid => ?_) (fun id hid => (Option.some.inj hid).symm) fun _ _ _ =>
            iff_of_true rfl rfl
        rw [ht] at hid
        cases hid
      · exact h.pushHeld hP now ht
  | @busy t now connect pool hidle hget =>
      rw [ConnectionPool.getConnection_eq_none hget]
      exact h
  | @use t con u ht _ =>
      have hhold : s.hold t = some con := by rw [State.hold, ht]; rfl
      have := h.modify_held (t := t) (x := s.client t) (f := fun c => (c.use u).2)
        (fun _ => Connection.use_id u) hhold
        (fun id hid => Option.some.inj (hid.symm.trans hhold)) fun c hc => by
          rw [Connection.use_isAvailable]
          exact iff_of_true hc hhold
      rwa [update_eq_self] at this
  | @clear t con a ht _ =>
      have hhold : s.hold t = some con := by rw [State.hold, ht]; rfl
      refine h.modify_held (fun _ => Connection.giveBack_id a) hhold
        (fun id hid => (Option.some.inj hid).symm) fun c hc => ?_
      rw [Connection.giveBack_isAvailable]
      exact iff_of_true hc rfl
  | @giveBack t con now ht _ =>
      have hhold : s.hold t = some con := by rw [State.hold, ht]; rfl
      refine h.modify_held (fun _ => rfl) hhold (fun id hid => ?_) fun c _ => ?_
      · cases hid
      · exact iff_of_false (fun e => by cases e) fun e => by cases e
  | reap =>
      exact h.goOn hle fun c hc => .inl ((ConnectionPool.reap_sublist _ _).subset hc)
  | start =>
      refine h.goOn hle fun c hc => (ConnectionPool.of_mem_start hc).imp_right ?_
      rintro ⟨id, hid, rfl⟩
      exact ⟨rfl, hid⟩
  | stop => exact h.goOn hle fun c hc => .inl (ConnectionPool.stop_sublist.subset hc)

end State.Exclusive

lemma exclusive_of_reachable (h : (clients T c).Reachable s) : s.Exclusive :=
  h.invariant
    ⟨fun _ _ e => (by cases e), fun _ _ _ e => (by cases e),
      fun _ hc => absurd hc List.not_mem_nil⟩
    fun _ _ _ hreach hinv hstep => hinv.step (numbered hreach) hstep

/-! ### What is left over -/

/-- The available connections are clean, and the ones that are about to be available. -/
structure State.Tidy (s : State T) : Prop where
  synced : ∀ c ∈ s.pool.pool, c.Synced
  clean : ∀ c ∈ s.pool.pool, c.isAvailable = true ∨ (∃ t, s.client t = .cleared c.id) → c.Clean

namespace State.Tidy

lemma modify (h : s.Tidy) {t : T} {con : ℕ} {f : Connection → Connection} {x : Client}
    (hf : ∀ c, (f c).id = c.id) (hsynced : ∀ c : Connection, c.Synced → (f c).Synced)
    (hx : ∀ id, x = .cleared id → id = con)
    (hclean : ∀ c ∈ s.pool.pool, c.id = con →
      (f c).isAvailable = true ∨ (∃ t', update s.client t x t' = .cleared con) → (f c).Clean) :
    State.Tidy ⟨s.pool.modify con f, update s.client t x⟩ where
  synced c' hc' := by
    rcases of_mem_alter hc' with ⟨c, hc, -, rfl⟩ | ⟨hc, -⟩
    · exact hsynced c (h.synced c hc)
    · exact h.synced c' hc
  clean c' hc' hwhen := by
    rcases of_mem_alter hc' with ⟨c, hc, hid, rfl⟩ | ⟨hc, hid⟩
    · rw [hf, hid] at hwhen
      exact hclean c hc hid hwhen
    · refine h.clean c' hc (hwhen.imp_right ?_)
      rintro ⟨t', ht'⟩
      change update s.client t x t' = _ at ht'
      rw [update_apply] at ht'
      split_ifs at ht'
      · exact absurd (hx _ ht') hid
      · exact ⟨t', ht'⟩

omit [DecidableEq T] in
/-- A step that no thread notices. -/
lemma goOn (h : s.Tidy) {pool : ConnectionPool}
    (hpool : ∀ c ∈ pool.pool, c ∈ s.pool.pool ∨ ∃ id now, c = .new id now) :
    State.Tidy { s with pool := pool } where
  synced c hc := by
    rcases hpool c hc with hc | ⟨id, now, rfl⟩
    · exact h.synced c hc
    · exact Connection.synced_new id now
  clean c hc hwhen := by
    rcases hpool c hc with hc | ⟨id, now, rfl⟩
    · exact h.clean c hc hwhen
    · exact Connection.clean_new id now

/-- **Nothing is left over**, step by step. -/
lemma step (h : s.Tidy) (hP : s.pool.Numbered) (he : s.Exclusive) (hstep : Step s a s') :
    s'.Tidy := by
  cases hstep with
  | @got t now connect con pool hidle hget =>
      rcases ConnectionPool.getConnection_eq_some hP hget with
        ⟨c, hc, rfl, hcon, rfl⟩ | ⟨rfl, _, _, rfl⟩
      · refine h.modify (fun _ => rfl) (fun c hc => hc.setAvailable now false)
          (fun id e => by cases e) fun c' hc' hid _ => ?_
        have hfree : c'.isAvailable = true := by
          rw [← Bool.not_eq_false, he.held c' hc', hid, ← he.held c hc, hcon]
          exact Bool.noConfusion
        exact (h.clean c' hc' (.inl hfree)).setAvailable now false
      · constructor
        · intro c hc
          rcases List.mem_append.mp hc with hc | hc
          · exact h.synced c hc
          · rw [List.mem_singleton.mp hc]
            exact (Connection.synced_new _ _).setAvailable _ _
        · intro c hc hwhen
          rcases List.mem_append.mp hc with hc | hc
          · refine h.clean c hc (hwhen.imp_right fun ⟨t', ht'⟩ => ?_)
            change update s.client t _ t' = _ at ht'
            rw [update_apply] at ht'
            split_ifs at ht'
            exact ⟨t', ht'⟩
          · rw [List.mem_singleton.mp hc]
            exact (Connection.clean_new _ _).setAvailable _ _
  | @busy t now connect pool hidle hget =>
      rw [ConnectionPool.getConnection_eq_none hget]
      exact h
  | @use t con u ht _ =>
      have hhold : s.hold t = some con := by rw [State.hold, ht]; rfl
      have key : State.Tidy ⟨s.pool.modify con fun c => (c.use u).2,
          update s.client t (s.client t)⟩ := by
        refine h.modify (fun _ => Connection.use_id u) (fun c hc => hc.use u)
          (fun id e => by rw [ht] at e; cases e) fun c hc hid hwhen => ?_
        rcases hwhen with hwhen | ⟨t', ht'⟩
        · rw [Connection.use_isAvailable, (he.held c hc).mpr ⟨t, hid ▸ hhold⟩] at hwhen
          cases hwhen
        · rw [update_eq_self] at ht'
          have heq : t' = t := he.unique t' t con (by rw [State.hold, ht']; rfl) hhold
          rw [heq, ht] at ht'
          cases ht'
      rwa [update_eq_self] at key
  | @clear t con a ht _ =>
      refine h.modify (fun _ => Connection.giveBack_id a) (fun c hc => hc.giveBack a)
        (fun id e => (Client.cleared.inj e).symm) fun c _ _ _ => Connection.clean_giveBack a
  | @giveBack t con now ht _ =>
      refine h.modify (fun _ => rfl) (fun c hc => hc.setAvailable now true)
        (fun id e => by cases e) fun c hc hid _ => ?_
      exact (h.clean c hc (.inr ⟨t, hid ▸ ht⟩)).setAvailable now true
  | reap => exact h.goOn fun c hc => .inl ((ConnectionPool.reap_sublist _ _).subset hc)
  | start =>
      refine h.goOn fun c hc => (ConnectionPool.of_mem_start hc).imp_right ?_
      rintro ⟨id, -, rfl⟩
      exact ⟨id, _, rfl⟩
  | stop => exact h.goOn fun c hc => .inl (ConnectionPool.stop_sublist.subset hc)

end State.Tidy

lemma tidy (h : (clients T c).Reachable s) : s.Tidy :=
  h.invariant ⟨fun _ hc => absurd hc List.not_mem_nil, fun _ hc => absurd hc List.not_mem_nil⟩
    fun _ _ _ hreach hinv hstep =>
      hinv.step (numbered hreach) (exclusive_of_reachable hreach) hstep

/-- A pool of one connection. -/
def single : Config where
  initialConnections := 1
  maxConnections := 1
  connectionTimeout := 30
  timeout_pos := by decide

/-- The pool of one connection behind its start. -/
def single.started : State Bool where
  pool := { single.pool with filled := true, pool := [.new 0 0], nextId := 1 }
  client := fun _ => .idle

/-- One of two threads has got the connection. -/
def single.taken : State Bool where
  pool :=
    { single.pool with
      filled := true
      pool   := [(Connection.new 0 0).setAvailable 1 false]
      nextId := 1 }
  client := update (fun _ => .idle) true (.holds 0)

lemma single.start_step : Step (clients Bool single).start (.start 0 fun _ => .ok ()) started :=
  .start

lemma single.get_step : Step started (.get true 1 (.ok ())) taken := .got rfl rfl

/-- The run of a thread that gets the connection keeps to a rule that allows its steps. -/
lemma single.run {ok : State Bool → Act Bool → Prop}
    (hstart : ok (clients Bool single).start (.start 0 fun _ => .ok ()))
    (hget : ok single.started (.get true 1 (.ok ()))) :
    (clients Bool single).Run ok (clients Bool single).start single.taken :=
  Runs.Machine.Run.nil _ |>.snoc _ hstart single.start_step |>.snoc _ hget single.get_step

/-! ### Nobody stops the pool under a holder -/

/-- The pool is stopped only when no thread holds a connection. -/
def Guarded : State T → Act T → Prop
  | s, .stop => ∀ t, s.hold t = none
  | _, _ => True

/-- **A thread finds its connection in the pool.** -/
theorem held_mem (h : (clients T c).Run Guarded (clients T c).start s) :
    ∀ t id, s.hold t = some id → id ∈ s.pool.ids := by
  refine h.invariant (.nil _) (fun _ _ e => (by cases e)) fun s a s' hrun hinv hok hstep => ?_
  have hreach : (clients T c).Reachable s := .of_run hrun
  -- a thread that keeps its connection, in a pool that keeps the numbers
  have hkeep : ∀ {t : T} {x : Client} {pool : ConnectionPool}, pool.ids = s.pool.ids →
      (∀ id, x.con = some id → id ∈ s.pool.ids) →
      ∀ t' id, update s.hold t x.con t' = some id → id ∈ pool.ids := by
    intro t x pool hids hx t' id hid
    rw [hids]
    rw [update_apply] at hid
    split_ifs at hid
    · exact hx id hid
    · exact hinv t' id hid
  cases hstep with
  | @got t now connect con pool hidle hget =>
      rw [hold_update]
      rcases ConnectionPool.getConnection_eq_some (numbered hreach) hget with
        ⟨con, hcon, rfl, -, rfl⟩ | ⟨rfl, -, -, rfl⟩
      · refine hkeep (ConnectionPool.ids_modify fun _ => rfl) fun id hid => ?_
        obtain rfl := Option.some.inj hid
        exact List.mem_map_of_mem hcon
      · intro t' id hid
        have hids : (s.pool.pushHeld now).ids = s.pool.ids ++ [s.pool.nextId] := by
          simp [ConnectionPool.ids, ConnectionPool.pushHeld, Connection.new,
            Connection.setAvailable]
        rw [hids]
        rw [update_apply] at hid
        split_ifs at hid
        · obtain rfl := Option.some.inj hid
          exact List.mem_append_right _ (List.mem_singleton_self _)
        · exact List.mem_append_left _ (hinv t' id hid)
  | busy _ hget =>
      rw [ConnectionPool.getConnection_eq_none hget]
      exact hinv
  | use =>
      intro t' id hid
      rw [ConnectionPool.ids_modify fun _ => Connection.use_id _]
      exact hinv t' id hid
  | @clear t con a ht _ =>
      rw [hold_update]
      refine hkeep (ConnectionPool.ids_modify fun _ => Connection.giveBack_id _) fun id hid => ?_
      refine hinv t id ?_
      rw [State.hold, ht]
      exact hid
  | giveBack =>
      rw [hold_update]
      exact hkeep (ConnectionPool.ids_modify fun _ => rfl) fun id hid => (by cases hid)
  | reap =>
      intro t id hid
      obtain ⟨con, hcon, rfl⟩ := List.mem_map.mp (hinv t id hid)
      have hno := ((exclusive_of_reachable hreach).held con hcon).mpr ⟨t, hid⟩
      exact List.mem_map_of_mem (ConnectionPool.mem_reap _ _ hcon hno)
  | start => exact fun t id hid => ConnectionPool.ids_subset_start _ _ (hinv t id hid)
  | stop =>
      intro t id hid
      have hnone := hok t
      rw [hold_mk, hnone] at hid
      cases hid

theorem held_mem_taken : 0 ∈ single.taken.pool.ids :=
  held_mem (single.run trivial trivial) true 0 rfl

/-- **The pool is shared as it should be.** No two threads hold the same connection,
a connection of the pool is available if and only if no thread holds it, and then
nothing is left over from the threads that held it before. -/
theorem exclusive (h : (clients T c).Run Guarded (clients T c).start s) :
    (∀ t t' id, s.hold t = some id → s.hold t' = some id → t = t') ∧
      ∀ con ∈ s.pool.pool,
        (con.isAvailable = false ↔ ∃ t, s.hold t = some con.id) ∧
          (con.isAvailable = true → con.Clean ∧ con.Synced) := by
  have hreach : (clients T c).Reachable s := .of_run h
  refine ⟨(exclusive_of_reachable hreach).unique, fun con hcon => ⟨?_, fun havail => ⟨?_, ?_⟩⟩⟩
  · exact (exclusive_of_reachable hreach).held con hcon
  · exact (tidy hreach).clean con hcon (.inl havail)
  · exact (tidy hreach).synced con hcon

theorem exclusive_taken : ∃ t, single.taken.hold t = some 0 :=
  ((exclusive (single.run trivial trivial)).2 _ (List.mem_singleton_self _)).1.mp rfl

/-- **Whom `ConnectionPool_getConnection` serves.** It has no connection to hand out
if and only if threads hold all of them and it can make no new one; what it hands out
nobody held, and the thread finds it in the pool, clean. -/
theorem getConnection_reachable (h : (clients T c).Run Guarded (clients T c).start s) (now : ℤ)
    (connect : Answer) :
    ((s.pool.getConnection now connect).1 = none ↔
        (∀ con ∈ s.pool.pool, ∃ t, s.hold t = some con.id) ∧
          (s.pool.maxConnections ≤ s.pool.pool.length ∨ ∃ e, connect = .error e)) ∧
      ∀ id, (s.pool.getConnection now connect).1 = some id →
        (∀ t, s.hold t ≠ some id) ∧
          ∃ con ∈ (s.pool.getConnection now connect).2.pool, con.id = id ∧ con.Clean := by
  have hreach : (clients T c).Reachable s := .of_run h
  have he := exclusive_of_reachable hreach
  constructor
  · rw [ConnectionPool.getConnection_fst_eq_none]
    refine and_congr_left fun _ => forall₂_congr fun con hcon => he.held con hcon
  · intro id hid
    have hget : s.pool.getConnection now connect
        = (some id, (s.pool.getConnection now connect).2) := Prod.ext hid rfl
    rcases ConnectionPool.getConnection_eq_some (numbered hreach) hget with
      ⟨con, hcon, rfl, havail, hpool⟩ | ⟨rfl, _, _, hpool⟩
    · refine ⟨fun t ht => ?_, con.setAvailable now false, ?_, rfl, ?_⟩
      · have := (he.held con hcon).mpr ⟨t, ht⟩
        rw [havail] at this
        cases this
      · rw [hpool]
        exact mem_alter_self hcon rfl
      · exact ((tidy hreach).clean con hcon (.inl havail)).setAvailable now false
    · refine ⟨fun t ht => (he.fresh t _ ht).ne rfl,
        (Connection.new s.pool.nextId now).setAvailable now false, ?_, rfl, ?_⟩
      · rw [hpool]
        exact List.mem_append_right _ (List.mem_singleton_self _)
      · exact (Connection.clean_new _ _).setAvailable _ _

theorem getConnection_taken : (single.taken.pool.getConnection 2 (.ok ())).1 = none :=
  (getConnection_reachable (single.run trivial trivial) 2 (.ok ())).1.mpr
    ⟨fun con hcon => ⟨true, by rw [List.mem_singleton.mp hcon]; rfl⟩, .inl (Nat.le_refl 1)⟩

end PbEntityDb.Zdb
