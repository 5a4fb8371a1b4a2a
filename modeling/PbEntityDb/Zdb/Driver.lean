import PbEntityDb.Zdb.Rules

/-!
The pool of `ZdbDriver`, and the one thread that uses it.

Each stub has a driver of its own and creates its statements one after the other,
so that one thread asks the pool, and it holds nothing when it does.

* `openPool` is what `ZdbDriver::Open` does with the pool; `openPool_eq` says when it
  succeeds.
* `open_first`: **each `ZdbStatement::Open` gets the first connection of the pool at
  its first attempt**; if the pool was opened with no connections, each of its
  attempts fails.
-/

namespace PbEntityDb.Zdb

open Roster Function

/-- `ZdbDriver::Open`, behind `URL_new`: what is thrown makes it return false. -/
def openPool (poolsize now : ℤ) (connect : ℕ → Answer) : Except Text ConnectionPool := do
  let P ← ConnectionPool.new.setInitialConnections poolsize
  let P ← P.setMaxConnections poolsize
  let P ← P.setConnectionTimeout (60 * 60 * 24)
  let (r, P) := P.start now connect
  r.map fun _ => P

/-- The settings of a driver with a pool of size `n`. -/
def driverConfig (n : ℕ) : Config where
  initialConnections := n
  maxConnections := n
  connectionTimeout := 60 * 60 * 24
  timeout_pos := by decide

/-- The settings pass the assertions, unless the size is negative. -/
lemma openPool_eq (n : ℕ) (now : ℤ) (connect : ℕ → Answer) :
    openPool n now connect
      = ((driverConfig n).pool.start now connect).1.map fun _ =>
          ((driverConfig n).pool.start now connect).2 := by
  have hinitial : ConnectionPool.new.setInitialConnections n
      = .ok { ConnectionPool.new with initialConnections := n } := by
    rw [ConnectionPool.setInitialConnections, if_pos (Int.natCast_nonneg n), Int.toNat_natCast]
  have hmax : ConnectionPool.setMaxConnections
      { ConnectionPool.new with initialConnections := n } n
      = .ok { ConnectionPool.new with initialConnections := n, maxConnections := n } := by
    rw [ConnectionPool.setMaxConnections, if_pos le_rfl, Int.toNat_natCast]
  rw [openPool, hinitial]
  simp only [bind, Except.bind, hmax]
  rfl

lemma openPool_neg {poolsize : ℤ} (h : poolsize < 0) (now : ℤ) (connect : ℕ → Answer) :
    openPool poolsize now connect = .error "connections >= 0".toList := by
  rw [openPool, ConnectionPool.setInitialConnections, if_neg (by omega)]
  rfl

/-- **What an opened pool has**: as many connections as could be made in a row, up to
its size, and one of them at least if there should be any. -/
lemma openPool_ok {poolsize now : ℤ} {connect : ℕ → Answer} {P : ConnectionPool}
    (h : openPool poolsize now connect = .ok P) :
    ∃ n : ℕ, poolsize = n ∧ ∃ k ≤ n, (0 < n → 0 < k) ∧ (∀ j < k, connect j = .ok ()) ∧
      P = ((driverConfig n).pool.start now connect).2 ∧ P.filled = true ∧
      P.ids = List.range k := by
  rcases lt_or_ge poolsize 0 with hneg | hnonneg
  · rw [openPool_neg hneg] at h
    cases h
  · obtain ⟨n, rfl⟩ := Int.eq_ofNat_of_zero_le hnonneg
    have hfilled : (driverConfig n).pool.filled = false := rfl
    rw [openPool_eq] at h
    rcases ConnectionPool.start_cases now connect hfilled with
      ⟨e, -, -, hstart⟩ | ⟨k, hk, hpos, hok, -, hstart⟩
    · rw [hstart] at h
      cases h
    · rw [hstart] at h
      obtain rfl := Except.ok.inj h
      refine ⟨n, rfl, k, hk, hpos, hok, by rw [hstart], rfl, ?_⟩
      show ((driverConfig n).pool.grow now k).ids = List.range k
      rw [ConnectionPool.ids_grow]
      simp [driverConfig, Config.pool, ConnectionPool.ids]

/-- A thread that gets, uses and gives back connections, in a pool that is neither
started nor stopped nor reaped meanwhile. -/
def Serving {T : Type} : State T → Act T → Prop
  | _, .get .. | _, .use .. | _, .clear .. | _, .giveBack .. => True
  | _, .reap .. | _, .start .. | _, .stop => False

/-- A thread that is alone gets the first connection. -/
lemma getConnection_alone {s : State Unit} (he : s.Exclusive) (hidle : s.client () = .idle)
    {con : Connection} {rest : List Connection} (hpool : s.pool.pool = con :: rest) (now : ℤ)
    (connect : Answer) :
    s.pool.getConnection now connect
      = (some con.id, { s.pool with pool := con.setAvailable now false :: rest }) := by
  have havail : ∀ c ∈ s.pool.pool, c.isAvailable = true := by
    intro c hc
    rw [← Bool.not_eq_false, he.held c hc]
    rintro ⟨t, ht⟩
    rw [State.hold, show t = () from rfl, hidle] at ht
    cases ht
  have hcon := havail con (by simp [hpool])
  rcases s.pool.getConnection_cases now connect with
    ⟨front, c, back, hsplit, -, hfront, hget⟩ | ⟨hall, -⟩ | ⟨hall, -⟩
  · cases front with
    | nil =>
        obtain ⟨rfl, rfl⟩ := List.cons.inj (hpool.symm.trans hsplit)
        exact hget
    | cons x front =>
        have hx := hfront x List.mem_cons_self
        cases (havail x (by simp [hsplit])).symm.trans hx
  · cases hcon.symm.trans (hall con (by simp [hpool]))
  · cases hcon.symm.trans (hall con (by simp [hpool]))

/-- The pool as the driver opened it, up to what threads do to the connections. -/
structure Opened (n k : ℕ) (P : ConnectionPool) : Prop where
  ids : P.ids = List.range k
  pos : 0 < n → 0 < k
  maxConnections : P.maxConnections = n
  le : k ≤ n

/-- A thread that is alone finds the pool as it was opened. -/
lemma Opened.getConnection {n k : ℕ} {s : State Unit} (h : Opened n k s.pool) (he : s.Exclusive)
    (hidle : s.client () = .idle) (now : ℤ) (connect : Answer) :
    (s.pool.getConnection now connect).1 = (if 0 < n then some 0 else none) ∧
      Opened n k (s.pool.getConnection now connect).2 := by
  cases hpool : s.pool.pool with
  | nil =>
      have hk : k = 0 := by
        have := h.ids
        rw [ConnectionPool.ids, hpool] at this
        exact List.range_eq_nil.mp this.symm
      have hn : n = 0 := by
        rcases Nat.eq_zero_or_pos n with hn | hn
        · exact hn
        · exact absurd (h.pos hn) (by omega)
      have hnone : (s.pool.getConnection now connect).1 = none := by
        rw [ConnectionPool.getConnection_fst_eq_none, hpool, h.maxConnections, hn]
        exact ⟨fun _ hc => absurd hc List.not_mem_nil, .inl (Nat.zero_le _)⟩
      have hsame : (s.pool.getConnection now connect).2 = s.pool :=
        ConnectionPool.getConnection_eq_none (Prod.ext hnone rfl)
      rw [hnone, hsame, hn]
      exact ⟨rfl, hn ▸ h⟩
  | cons con rest =>
      have hids := h.ids
      rw [ConnectionPool.ids, hpool, List.map_cons] at hids
      cases k with
      | zero => cases hids
      | succ k =>
          have hcon : con.id = 0 := by
            rw [List.range_succ_eq_map] at hids
            exact (List.cons.inj hids).1
          rw [getConnection_alone he hidle hpool, if_pos (Nat.lt_of_lt_of_le (Nat.succ_pos k) h.le)]
          exact ⟨congrArg some hcon, hids, h.pos, h.maxConnections, h.le⟩

lemma Opened.modify {n k : ℕ} {P : ConnectionPool} (h : Opened n k P) {con : ℕ}
    {f : Connection → Connection} (hf : ∀ c, (f c).id = c.id) : Opened n k (P.modify con f) :=
  ⟨(ConnectionPool.ids_modify hf).trans h.ids, h.pos, h.maxConnections, h.le⟩

/-- What a thread does that is alone leaves the pool as it was opened. -/
lemma Opened.step {n k : ℕ} {s s' : State Unit} {a : Act Unit} (h : Opened n k s.pool)
    (he : s.Exclusive) (hok : Serving s a) (hstep : Step s a s') : Opened n k s'.pool := by
  cases hstep with
  | @got t now connect con pool hidle hget =>
      have := (h.getConnection he hidle now connect).2
      rwa [hget] at this
  | @busy t now connect pool hidle hget =>
      have := (h.getConnection he hidle now connect).2
      rwa [hget] at this
  | use => exact h.modify fun _ => Connection.use_id _
  | clear => exact h.modify fun _ => Connection.giveBack_id _
  | giveBack => exact h.modify fun _ => rfl
  | reap | start | stop => exact absurd hok not_false

/-- **Each statement gets the first connection at once**, if the driver has any, and
it finds as many connections in the pool as the driver opened. -/
theorem open_first {poolsize now₀ : ℤ} {connect₀ : ℕ → Answer} {P : ConnectionPool}
    (hopen : openPool poolsize now₀ connect₀ = .ok P) {s : State Unit}
    (hrun : (clients Unit (driverConfig poolsize.toNat)).Run Serving ⟨P, fun _ => .idle⟩ s)
    (hidle : s.client () = .idle) (now : ℤ) (connect : Answer) :
    s.pool.ids = P.ids ∧
      (s.pool.getConnection now connect).1 = if 0 < poolsize then some 0 else none := by
  obtain ⟨n, rfl, k, hk, hpos, -, hP, -, hids⟩ := openPool_ok hopen
  rw [Int.toNat_natCast] at hrun
  have hstart : (clients Unit (driverConfig n)).Reachable ⟨P, fun _ => .idle⟩ := by
    rw [hP]
    exact Runs.Machine.Reachable.start.snoc (.start now₀ connect₀) .start
  have hmax : P.maxConnections = n := by
    rw [hP]
    exact (ConnectionPool.later_start now₀ connect₀).maxConnections
  have hopened : Opened n k s.pool := by
    clear hidle
    induction hrun with
    | refl => exact ⟨hids, hpos, hmax, hk⟩
    | tail hfront hlast ih =>
        obtain ⟨a, hok, hstep⟩ := hlast
        exact ih.step (exclusive_of_reachable (hstart.run hfront)) hok hstep
  have hget := hopened.getConnection (exclusive_of_reachable (hstart.run hrun)) hidle now connect
  refine ⟨hopened.ids.trans hids.symm, hget.1.trans ?_⟩
  simp only [Nat.cast_pos]

theorem open_first_one :
    ((ConnectionPool.getConnection
      ((driverConfig 1).pool.start 0 fun _ => .ok ()).2 7 (.error [])).1) = some 0 :=
  (@open_first 1 0 (fun _ => .ok ()) _ rfl _ (.nil _) rfl 7 (.error [])).2

end PbEntityDb.Zdb
