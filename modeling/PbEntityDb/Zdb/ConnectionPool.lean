import PbEntityDb.Library.Roster
import PbEntityDb.Zdb.Connection

/-!
The connection pool of libzdb: `ConnectionPool.c`.

The vector of connections is a list, and a connection is known by its `id`; the
numbers go on in the order of creation. The clock and what `mysql_real_connect` and
`mysql_ping` answer are arguments.

* `start_spec`: how far `ConnectionPool_start` fills the pool, and when it throws.
* `getConnection_fst_eq_none`, `getConnection_cases`: what `ConnectionPool_getConnection` hands
  out.
* `reap_spec`: which connections `ConnectionPool_reapConnections` closes: **only
  available ones, from the front, and the initial number of available ones stays.**
-/

namespace PbEntityDb.Zdb

open Roster

/-- `ConnectionPool_S`, without its lock and its reaper thread. -/
structure ConnectionPool where
  filled : Bool := false
  pool : List Connection := []
  /-- `SQL_DEFAULT_MAX_CONNECTIONS` -/
  maxConnections : ℕ := 20
  stopped : Bool := false
  /-- `SQL_DEFAULT_CONNECTION_TIMEOUT` -/
  connectionTimeout : ℤ := 30
  /-- `SQL_DEFAULT_INIT_CONNECTIONS` -/
  initialConnections : ℕ := 5
  /-- the number of the next connection -/
  nextId : ℕ := 0
  deriving DecidableEq, Repr

namespace ConnectionPool

variable (P : ConnectionPool)

/-! ### The functions -/

/-- `ConnectionPool_new`. -/
def new : ConnectionPool := {}

/-- `Connection_new` and `Vector_push`. -/
def push (now : ℤ) : ConnectionPool :=
  { P with pool := P.pool ++ [.new P.nextId now], nextId := P.nextId + 1 }

/-- `Connection_new`, `Connection_setAvailable` and `Vector_push`. -/
def pushHeld (now : ℤ) : ConnectionPool :=
  { P with
    pool   := P.pool ++ [(Connection.new P.nextId now).setAvailable now false]
    nextId := P.nextId + 1 }

/-- `_drainPool`. -/
def drainPool : ConnectionPool := { P with pool := [] }

/-- The loop of `_fillPool` from its round `i` on, with so many rounds left. -/
def fillFrom (now : ℤ) (connect : ℕ → Answer) (i : ℕ) :
    ℕ → ConnectionPool → Answer × ConnectionPool
  | 0, P => (.ok (), P)
  | n + 1, P =>
      match connect i with
      | .ok _ => fillFrom now connect (i + 1) n (P.push now)
      | .error e => (if i > 0 then .ok () else .error e, P)

/-- `_fillPool`; where the source returns false, `error` is what it has in `P->error`. -/
def fillPool (now : ℤ) (connect : ℕ → Answer) : Answer × ConnectionPool :=
  fillFrom now connect 0 P.initialConnections P

/-- `_getActive`. -/
def getActive : ℕ := P.pool.countP fun con => !con.isAvailable

/-- The connections that `_reapConnections` may close. -/
def expired (timedout : ℤ) (ping : ℕ → Bool) (con : Connection) : Bool :=
  con.isAvailable && (con.lastAccessedTime < timedout || !ping con.id)

/-- The loop of `_reapConnections`, with `n` connections closed so far. Behind
`Vector_remove` the next connection stands where the closed one was. -/
def reapFrom (timedout : ℤ) (ping : ℕ → Bool) (x : ℤ) :
    ℤ → List Connection → ℤ × List Connection
  | n, [] => (n, [])
  | n, con :: rest =>
      if n < x then
        if expired timedout ping con then reapFrom timedout ping x (n + 1) rest
        else
          let (m, kept) := reapFrom timedout ping x n rest
          (m, con :: kept)
      else (n, con :: rest)

/-- `_reapConnections`. -/
def reapConnections (now : ℤ) (ping : ℕ → Bool) : ℤ × ConnectionPool :=
  let x : ℤ := P.pool.length - P.getActive - P.initialConnections
  let (n, pool) := reapFrom (now - P.connectionTimeout) ping x 0 P.pool
  (n, { P with pool := pool })

/-- `ConnectionPool_setInitialConnections`, with its `Assertion_assert`. -/
def setInitialConnections (connections : ℤ) : Except Text ConnectionPool :=
  if connections ≥ 0 then .ok { P with initialConnections := connections.toNat }
  else .error "connections >= 0".toList

/-- `ConnectionPool_setMaxConnections`. -/
def setMaxConnections (maxConnections : ℤ) : Except Text ConnectionPool :=
  if (P.initialConnections : ℤ) ≤ maxConnections then
    .ok { P with maxConnections := maxConnections.toNat }
  else .error "P->initialConnections <= maxConnections".toList

/-- `ConnectionPool_setConnectionTimeout`. -/
def setConnectionTimeout (connectionTimeout : ℤ) : Except Text ConnectionPool :=
  if connectionTimeout > 0 then .ok { P with connectionTimeout := connectionTimeout }
  else .error "connectionTimeout > 0".toList

/-- `ConnectionPool_start`. -/
def start (now : ℤ) (connect : ℕ → Answer) : Answer × ConnectionPool :=
  let P := { P with stopped := false }
  if P.filled then (.ok (), P)
  else
    match P.fillPool now connect with
    | (.ok _, P) => (.ok (), { P with filled := true })
    | (.error e, P) => (.error ("Failed to start connection pool -- ".toList ++ e), P)

/-- `ConnectionPool_stop`. -/
def stop : ConnectionPool :=
  let P := { P with stopped := true }
  if P.filled then { P.drainPool with filled := false } else P

/-- `ConnectionPool_getConnection`: the first connection that is available, else a
new one. -/
def getConnection (now : ℤ) (connect : Answer) : Option ℕ × ConnectionPool :=
  match alterFirst (·.isAvailable) (·.setAvailable now false) P.pool with
  | some (con, pool) => (some con.id, { P with pool := pool })
  | none =>
      if P.pool.length < P.maxConnections then
        match connect with
        | .ok _ => (some P.nextId, P.pushHeld now)
        | .error _ => (none, P)
      else (none, P)

/-- The pool behind a change of the connection that is called `con`. -/
def modify (con : ℕ) (f : Connection → Connection) : ConnectionPool :=
  { P with pool := alter Connection.id con f P.pool }

/-- `ConnectionPool_returnConnection` in front of its lock. -/
def clearReturned (con : ℕ) (a : Answer) : ConnectionPool := P.modify con (·.giveBack a)

/-- `ConnectionPool_returnConnection` under its lock. -/
def setReturned (con : ℕ) (now : ℤ) : ConnectionPool := P.modify con (·.setAvailable now true)

/-! ### The numbers of the connections -/

/-- The numbers of the connections. -/
def ids : List ℕ := P.pool.map Connection.id

variable {P}

@[simp]
lemma ids_modify {con : ℕ} {f : Connection → Connection} (hf : ∀ c, (f c).id = c.id) :
    (P.modify con f).ids = P.ids := map_key_alter hf

/-- Every connection has a number of its own, below the next one. -/
structure Numbered (P : ConnectionPool) : Prop where
  nodup : P.ids.Nodup
  fresh : ∀ id ∈ P.ids, id < P.nextId

/-- `P'` comes behind `P`: the limits are the same, and the new connections have
new numbers. -/
structure Later (P P' : ConnectionPool) : Prop where
  initialConnections : P'.initialConnections = P.initialConnections
  maxConnections : P'.maxConnections = P.maxConnections
  numbers : ∃ k, P'.nextId = P.nextId + k ∧
    P'.ids.Sublist (P.ids ++ (List.range k).map (P.nextId + ·))

namespace Later

variable {P' : ConnectionPool}

/-- No new connections. -/
lemma of_sublist (hinitial : P'.initialConnections = P.initialConnections)
    (hmax : P'.maxConnections = P.maxConnections) (hnext : P'.nextId = P.nextId)
    (hids : P'.ids.Sublist P.ids) : P.Later P' where
  initialConnections := hinitial
  maxConnections := hmax
  numbers := ⟨0, hnext, by simpa using hids⟩

lemma le (h : P.Later P') : P.nextId ≤ P'.nextId := by
  obtain ⟨k, hk, -⟩ := h.numbers
  omega

lemma numbered (h : P.Later P') (hP : P.Numbered) : P'.Numbered := by
  obtain ⟨k, hk, hids⟩ := h.numbers
  have hnew : ∀ id ∈ (List.range k).map (P.nextId + ·), P.nextId ≤ id ∧ id < P.nextId + k := by
    intro id hid
    obtain ⟨j, hj, rfl⟩ := List.mem_map.mp hid
    have := List.mem_range.mp hj
    omega
  constructor
  · refine hids.nodup (List.Nodup.append hP.nodup ?_ fun id hold hid => ?_)
    · exact List.nodup_range.map fun i j hij => Nat.add_left_cancel hij
    · exact absurd (hP.fresh id hold) (Nat.not_lt.mpr (hnew id hid).1)
  · intro id hid
    rw [hk]
    rcases List.mem_append.mp (hids.subset hid) with hid | hid
    · have := hP.fresh id hid
      omega
    · exact (hnew id hid).2

end Later

lemma later_modify {con : ℕ} {f : Connection → Connection} (hf : ∀ c, (f c).id = c.id) :
    P.Later (P.modify con f) := .of_sublist rfl rfl rfl (by rw [ids_modify hf])

/-! ### Filling the pool -/

/-- The pool with `k` new connections. -/
def grow (P : ConnectionPool) (now : ℤ) (k : ℕ) : ConnectionPool :=
  { P with
    pool   := P.pool ++ (List.range k).map fun j => .new (P.nextId + j) now
    nextId := P.nextId + k }

@[simp]
lemma grow_zero (now : ℤ) : P.grow now 0 = P := by simp [grow]

lemma grow_push (now : ℤ) (k : ℕ) : (P.push now).grow now k = P.grow now (k + 1) := by
  have hids : (fun j => Connection.new (P.nextId + 1 + j) now)
      = (fun j => Connection.new (P.nextId + j) now) ∘ Nat.succ := by
    funext j
    simp only [Function.comp_apply, Nat.succ_eq_add_one, Nat.add_assoc, Nat.add_comm 1]
  simp only [grow, push, List.range_succ_eq_map, List.map_cons, List.map_map, ← hids,
    List.append_assoc, List.cons_append, List.nil_append, Nat.add_zero]
  rw [Nat.add_assoc, Nat.add_comm 1]

/-- The loop goes on to the first attempt that fails. -/
lemma fillFrom_spec (now : ℤ) (connect : ℕ → Answer) (n : ℕ) :
    ∀ (i : ℕ) (P : ConnectionPool), ∃ k ≤ n,
      (fillFrom now connect i n P).2 = P.grow now k ∧ (∀ j < k, connect (i + j) = .ok ()) ∧
      (k = n ∧ (fillFrom now connect i n P).1 = .ok () ∨
        k < n ∧ ∃ e, connect (i + k) = .error e ∧
          (fillFrom now connect i n P).1 = if i + k > 0 then .ok () else .error e) := by
  induction n with
  | zero => exact fun i P => ⟨0, le_rfl, by simp [fillFrom], by simp, .inl ⟨rfl, rfl⟩⟩
  | succ n ih =>
      intro i P
      cases hconnect : connect i with
      | error e =>
          refine ⟨0, Nat.zero_le _, by simp [fillFrom, hconnect], by simp, .inr ⟨by simp, e, ?_⟩⟩
          simp [fillFrom, hconnect]
      | ok =>
          obtain ⟨k, hk, hgrow, hok, hend⟩ := ih (i + 1) (P.push now)
          refine ⟨k + 1, by omega, ?_, fun j hj => ?_, ?_⟩
          · rw [fillFrom, hconnect, ← grow_push]
            exact hgrow
          · cases j with
            | zero => exact hconnect
            | succ j =>
                have := hok j (by omega)
                rwa [Nat.add_assoc, Nat.add_comm 1] at this
          · rw [fillFrom, hconnect]
            rcases hend with ⟨hkn, hfst⟩ | ⟨hkn, e, he, hfst⟩
            · exact .inl ⟨by omega, hfst⟩
            · refine .inr ⟨by omega, e, ?_, ?_⟩
              · rwa [Nat.add_assoc, Nat.add_comm 1] at he
              · rw [Nat.add_assoc, Nat.add_comm 1 k] at hfst
                exact hfst

/-- What `ConnectionPool_start` can do with a pool that is not filled. It throws if the
first connection fails, and the pool is as before; else the pool gets the connections up
to the first that fails. -/
lemma start_cases (now : ℤ) (connect : ℕ → Answer) (h : P.filled = false) :
    (∃ e, 0 < P.initialConnections ∧ connect 0 = .error e ∧
      P.start now connect
        = (.error ("Failed to start connection pool -- ".toList ++ e),
            { P with stopped := false })) ∨
    ∃ k ≤ P.initialConnections, (0 < P.initialConnections → 0 < k) ∧
      (∀ j < k, connect j = .ok ()) ∧ (k < P.initialConnections → ∃ e, connect k = .error e) ∧
      P.start now connect = (.ok (), { P.grow now k with stopped := false, filled := true }) := by
  set P₀ : ConnectionPool := { P with stopped := false } with hP₀
  have hstart : P.start now connect
      = match P₀.fillPool now connect with
        | (.ok _, P) => (.ok (), { P with filled := true })
        | (.error e, P) => (.error ("Failed to start connection pool -- ".toList ++ e), P) := by
    rw [start]
    exact if_neg (by simp [h])
  obtain ⟨k, hk, hgrow, hok, hend⟩ := fillFrom_spec now connect P₀.initialConnections 0 P₀
  have hfill : P₀.fillPool now connect
      = ((P₀.fillPool now connect).1, P₀.grow now k) := Prod.ext rfl hgrow
  have hgood : (P₀.fillPool now connect).1 = .ok () →
      P.start now connect = (.ok (), { P.grow now k with stopped := false, filled := true }) :=
    fun hfst => by rw [hstart, hfill, hfst]; rfl
  simp only [Nat.zero_add] at hok hend
  rcases hend with ⟨hkn, hfst⟩ | ⟨hkn, e, he, hfst⟩
  · refine .inr ⟨k, hk, fun hpos => ?_, hok, fun hlt => ?_, hgood hfst⟩
    · rw [hkn]
      exact hpos
    · exact absurd hlt (by rw [hkn]; exact lt_irrefl _)
  · rcases Nat.eq_zero_or_pos k with rfl | hpos
    · refine .inl ⟨e, hkn, he, ?_⟩
      have hfst' : (P₀.fillPool now connect).1 = .error e := hfst
      rw [hstart, hfill, hfst', grow_zero]
    · refine .inr ⟨k, hk, fun _ => hpos, hok, fun _ => ⟨e, he⟩, hgood ?_⟩
      rw [fillPool, hfst, if_pos hpos]

lemma start_of_filled (now : ℤ) (connect : ℕ → Answer) (h : P.filled = true) :
    P.start now connect = (.ok (), { P with stopped := false }) := by
  rw [start]
  exact if_pos h

lemma ids_grow (now : ℤ) (k : ℕ) :
    (P.grow now k).ids = P.ids ++ (List.range k).map (P.nextId + ·) := by
  simp only [ids, grow, List.map_append, List.map_map]
  rfl

/-- **How far a pool is filled**: it gets the connections up to the first that fails, and
the start throws only if there should be one and there is none. Then the pool can be
started again. -/
theorem start_spec (now : ℤ) (connect : ℕ → Answer) (h : P.filled = false) :
    ∃ k ≤ P.initialConnections, (∀ j < k, connect j = .ok ()) ∧
      (k < P.initialConnections → ∃ e, connect k = .error e) ∧
      (P.start now connect).2.ids = P.ids ++ (List.range k).map (P.nextId + ·) ∧
      ((P.start now connect).2.filled = true ↔ (P.start now connect).1 = .ok ()) ∧
      ((P.start now connect).1 = .ok () ↔ k = 0 → P.initialConnections = 0) := by
  rcases start_cases now connect h with ⟨e, hpos, he, hstart⟩ | ⟨k, hk, hpos, hok, hend, hstart⟩
  · rw [hstart]
    refine ⟨0, Nat.zero_le _, by simp, fun _ => ⟨e, he⟩, by simp [ids], ?_, ?_⟩
    · simp [h]
    · simpa using hpos.ne'
  · rw [hstart]
    refine ⟨k, hk, hok, hend, ids_grow now k, by simp, ?_⟩
    refine iff_of_true rfl fun hzero => ?_
    by_contra hne
    exact absurd (hpos (Nat.pos_of_ne_zero hne)) (by omega)

theorem start_spec_new :
    ∃ k ≤ 5, (∀ j < k, (if j < 3 then .ok () else .error [] : Answer) = .ok ()) ∧
      (k < 5 → ∃ e, (if k < 3 then .ok () else .error [] : Answer) = .error e) ∧
      (new.start 0 fun j => if j < 3 then .ok () else .error []).2.ids
        = (List.range k).map (0 + ·) ∧
      ((new.start 0 fun j => if j < 3 then .ok () else .error []).2.filled = true ↔
        (new.start 0 fun j => if j < 3 then .ok () else .error []).1 = .ok ()) ∧
      ((new.start 0 fun j => if j < 3 then .ok () else .error []).1 = .ok () ↔ k = 0 → 5 = 0) :=
  start_spec 0 (fun j => if j < 3 then .ok () else .error []) (P := new) rfl

lemma later_start (now : ℤ) (connect : ℕ → Answer) : P.Later (P.start now connect).2 := by
  cases hfilled : P.filled with
  | true =>
      rw [start_of_filled now connect hfilled]
      exact .of_sublist rfl rfl rfl (List.Sublist.refl _)
  | false =>
      rcases start_cases now connect hfilled with ⟨e, -, -, hstart⟩ | ⟨k, -, -, -, -, hstart⟩
      · rw [hstart]
        exact .of_sublist rfl rfl rfl (List.Sublist.refl _)
      · rw [hstart]
        refine ⟨rfl, rfl, k, rfl, ?_⟩
        rw [← ids_grow now k]
        exact List.Sublist.refl _

/-- Behind a start there are the connections from before and new ones. -/
lemma of_mem_start {now : ℤ} {connect : ℕ → Answer} {con : Connection}
    (h : con ∈ (P.start now connect).2.pool) :
    con ∈ P.pool ∨ ∃ id ≥ P.nextId, con = .new id now := by
  cases hfilled : P.filled with
  | true =>
      rw [start_of_filled now connect hfilled] at h
      exact .inl h
  | false =>
      rcases start_cases now connect hfilled with ⟨e, -, -, hstart⟩ | ⟨k, -, -, -, -, hstart⟩
      · rw [hstart] at h
        exact .inl h
      · rw [hstart] at h
        rcases List.mem_append.mp h with h | h
        · exact .inl h
        · obtain ⟨j, -, rfl⟩ := List.mem_map.mp h
          exact .inr ⟨_, Nat.le_add_right _ _, rfl⟩

/-- A start takes no connection away. -/
lemma ids_subset_start (now : ℤ) (connect : ℕ → Answer) :
    P.ids ⊆ (P.start now connect).2.ids := by
  cases hfilled : P.filled with
  | true =>
      rw [start_of_filled now connect hfilled]
      exact List.Subset.refl _
  | false =>
      rcases start_cases now connect hfilled with ⟨e, -, -, hstart⟩ | ⟨k, -, -, -, -, hstart⟩
      · rw [hstart]
        exact List.Subset.refl _
      · rw [hstart]
        show P.ids ⊆ (P.grow now k).ids
        rw [ids_grow]
        exact List.subset_append_left _ _

lemma stop_sublist : P.stop.pool.Sublist P.pool := by
  simp only [stop]
  split_ifs
  · exact List.nil_sublist _
  · exact List.Sublist.refl _

lemma later_stop : P.Later P.stop := by
  simp only [stop]
  split_ifs
  · exact .of_sublist rfl rfl rfl (List.nil_sublist _)
  · exact .of_sublist rfl rfl rfl (List.Sublist.refl _)

/-! ### Handing out -/

/-- What `ConnectionPool_getConnection` can do. -/
lemma getConnection_cases (P : ConnectionPool) (now : ℤ) (connect : Answer) :
    (∃ front con back, P.pool = front ++ con :: back ∧ con.isAvailable = true ∧
      (∀ c ∈ front, c.isAvailable = false) ∧
      P.getConnection now connect
        = (some con.id, { P with pool := front ++ con.setAvailable now false :: back })) ∨
    ((∀ c ∈ P.pool, c.isAvailable = false) ∧ P.pool.length < P.maxConnections ∧
      connect = .ok () ∧ P.getConnection now connect = (some P.nextId, P.pushHeld now)) ∨
    ((∀ c ∈ P.pool, c.isAvailable = false) ∧
      (P.maxConnections ≤ P.pool.length ∨ ∃ e, connect = .error e) ∧
      P.getConnection now connect = (none, P)) := by
  simp only [getConnection]
  cases hfirst : alterFirst (·.isAvailable) (·.setAvailable now false) P.pool with
  | some r =>
      obtain ⟨con, pool⟩ := r
      obtain ⟨front, back, hpool, rfl, hcon, hfront⟩ := alterFirst_eq_some hfirst
      exact .inl ⟨front, con, back, hpool, hcon, hfront, rfl⟩
  | none =>
      have hall := alterFirst_eq_none.mp hfirst
      rcases Nat.lt_or_ge P.pool.length P.maxConnections with hlt | hge
      · cases connect with
        | ok => exact .inr (.inl ⟨hall, hlt, rfl, if_pos hlt⟩)
        | error e => exact .inr (.inr ⟨hall, .inr ⟨e, rfl⟩, if_pos hlt⟩)
      · exact .inr (.inr ⟨hall, .inl hge, if_neg (Nat.not_lt.mpr hge)⟩)

/-- The pool has no connection to hand out. -/
lemma getConnection_fst_eq_none (now : ℤ) (connect : Answer) :
    (P.getConnection now connect).1 = none ↔
      (∀ c ∈ P.pool, c.isAvailable = false) ∧
        (P.maxConnections ≤ P.pool.length ∨ ∃ e, connect = .error e) := by
  rcases P.getConnection_cases now connect with
    ⟨front, con, back, hpool, hcon, -, hget⟩ | ⟨-, hlt, rfl, hget⟩ | ⟨hall, hno, hget⟩
  · rw [hget]
    refine iff_of_false (Option.some_ne_none _) fun ⟨hall, _⟩ => ?_
    have := hall con (by simp [hpool])
    rw [hcon] at this
    cases this
  · rw [hget]
    refine iff_of_false (Option.some_ne_none _) fun ⟨_, hno⟩ => ?_
    rcases hno with hle | ⟨e, he⟩
    · exact absurd hlt (Nat.not_lt.mpr hle)
    · cases he
  · rw [hget]
    exact iff_of_true rfl ⟨hall, hno⟩

/-- What a connection that is handed out is: one that was available, or a new one. -/
lemma getConnection_eq_some (hP : P.Numbered) {now : ℤ} {connect : Answer} {con : ℕ}
    {P' : ConnectionPool} (h : P.getConnection now connect = (some con, P')) :
    (∃ c ∈ P.pool, c.id = con ∧ c.isAvailable = true ∧
      P' = P.modify con (·.setAvailable now false)) ∨
    (con = P.nextId ∧ P.pool.length < P.maxConnections ∧
      (∀ c ∈ P.pool, c.isAvailable = false) ∧ P' = P.pushHeld now) := by
  rcases P.getConnection_cases now connect with
    ⟨front, c, back, hpool, hc, -, hget⟩ | ⟨hall, hlt, -, hget⟩ | ⟨-, -, hget⟩
  · obtain ⟨hcon, rfl⟩ := Prod.mk.inj (hget.symm.trans h)
    obtain rfl := Option.some.inj hcon
    refine .inl ⟨c, by simp [hpool], rfl, hc, ?_⟩
    have hnodup : ((front ++ c :: back).map Connection.id).Nodup := hpool ▸ hP.nodup
    rw [modify, hpool, alter_append_cons hnodup]
  · obtain ⟨hcon, rfl⟩ := Prod.mk.inj (hget.symm.trans h)
    exact .inr ⟨(Option.some.inj hcon).symm, hlt, hall, rfl⟩
  · cases (Prod.mk.inj (hget.symm.trans h)).1

lemma later_pushHeld (now : ℤ) : P.Later (P.pushHeld now) :=
  ⟨rfl, rfl, 1, rfl, by simp [ids, pushHeld, Connection.new, Connection.setAvailable]⟩

lemma getConnection_eq_none {now : ℤ} {connect : Answer} {P' : ConnectionPool}
    (h : P.getConnection now connect = (none, P')) : P' = P := by
  rcases P.getConnection_cases now connect with
    ⟨_, _, _, _, _, _, hget⟩ | ⟨_, _, _, hget⟩ | ⟨_, _, hget⟩
  · cases (Prod.mk.inj (hget.symm.trans h)).1
  · cases (Prod.mk.inj (hget.symm.trans h)).1
  · exact (Prod.mk.inj (h.symm.trans hget)).2

/-! ### The reaper -/

/-- The loop removes the first connections that it may close. -/
lemma reapFrom_eq (timedout : ℤ) (ping : ℕ → Bool) (x : ℤ) (xs : List Connection) (n : ℤ) :
    reapFrom timedout ping x n xs
      = (n + (min (x - n).toNat (xs.countP (expired timedout ping)) : ℕ),
          dropFirst (expired timedout ping) (x - n).toNat xs) := by
  induction xs generalizing n with
  | nil => simp [reapFrom]
  | cons con rest ih =>
      rw [reapFrom]
      split_ifs with hlt hexp
      · have hn : (x - n).toNat = (x - (n + 1)).toNat + 1 := by omega
        rw [ih, hn, dropFirst, if_pos hexp, List.countP_cons_of_pos hexp]
        refine Prod.ext ?_ rfl
        simp only [Nat.succ_min_succ]
        push_cast
        ring
      · have hn : (x - n).toNat = (x - n).toNat - 1 + 1 := by omega
        rw [ih, List.countP_cons_of_neg hexp]
        refine Prod.ext rfl ?_
        conv_rhs => rw [hn, dropFirst, if_neg hexp, ← hn]
      · have hn : (x - n).toNat = 0 := by omega
        simp [hn, dropFirst]

/-- The number of connections that are available. -/
def available (P : ConnectionPool) : ℕ := P.pool.countP fun con => con.isAvailable

lemma available_add_getActive (P : ConnectionPool) : P.available + P.getActive = P.pool.length := by
  rw [available, getActive, List.length_eq_countP_add_countP fun con => con.isAvailable]
  simp only [Bool.not_eq_true, Bool.decide_eq_false]

/-- `_reapConnections` closes no more than there are available connections beyond the
initial number. -/
lemma reapConnections_eq (P : ConnectionPool) (now : ℤ) (ping : ℕ → Bool) :
    P.reapConnections now ping
      = (((min (P.available - P.initialConnections)
            (P.pool.countP (expired (now - P.connectionTimeout) ping)) : ℕ) : ℤ),
          { P with
            pool := dropFirst (expired (now - P.connectionTimeout) ping)
              (P.available - P.initialConnections) P.pool }) := by
  have hx : (P.pool.length - P.getActive - P.initialConnections - 0 : ℤ).toNat
      = P.available - P.initialConnections := by
    have := P.available_add_getActive
    omega
  rw [reapConnections, reapFrom_eq, hx]
  simp only [Int.zero_add]

/-- A connection that a thread holds stays. -/
lemma mem_reap (now : ℤ) (ping : ℕ → Bool) {con : Connection} (hcon : con ∈ P.pool)
    (hno : con.isAvailable = false) : con ∈ (P.reapConnections now ping).2.pool := by
  rw [reapConnections_eq]
  exact mem_dropFirst_of_not hcon (by simp [expired, hno]) _

lemma reap_sublist (now : ℤ) (ping : ℕ → Bool) :
    (P.reapConnections now ping).2.pool.Sublist P.pool := by
  rw [reapConnections_eq]
  exact dropFirst_sublist _ _

lemma later_reap (now : ℤ) (ping : ℕ → Bool) : P.Later (P.reapConnections now ping).2 := by
  refine .of_sublist ?_ ?_ ?_ ((reap_sublist now ping).map Connection.id)
  all_goals rw [reapConnections_eq]

/-- **Which connections are closed.** No more than there are available ones beyond
the initial number, the first of them that are idle for too long or do not answer;
what a thread holds stays, and all of them stay in their order. -/
theorem reap_spec (P : ConnectionPool) (now : ℤ) (ping : ℕ → Bool) :
    ∃ front back, P.pool = front ++ back ∧
      (P.reapConnections now ping).2
        = { P with
            pool := front.filter (fun c => !expired (now - P.connectionTimeout) ping c) ++ back } ∧
      (P.reapConnections now ping).1
        = front.countP (expired (now - P.connectionTimeout) ping) ∧
      (back = [] ∨ front.countP (expired (now - P.connectionTimeout) ping)
        = P.available - P.initialConnections) ∧
      min P.initialConnections P.available ≤ (P.reapConnections now ping).2.available := by
  rw [reapConnections_eq]
  set old := expired (now - P.connectionTimeout) ping
  set n := P.available - P.initialConnections with hn
  obtain ⟨front, back, hpool, hdrop, hback, hle⟩ := dropFirst_split (p := old) n P.pool
  refine ⟨front, back, hpool, by rw [hdrop], ?_, hback, ?_⟩
  · rw [hpool, List.countP_append]
    rcases hback with rfl | hback
    · rw [List.countP_nil, Nat.add_zero, Nat.min_eq_right hle]
    · rw [← hback, Nat.min_eq_left (Nat.le_add_right _ _)]
  · have := countP_le_dropFirst (p := old) (fun con => con.isAvailable) n P.pool
    simp only [available] at hn ⊢
    omega

end ConnectionPool

end PbEntityDb.Zdb
