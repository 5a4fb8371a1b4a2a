import PbEntityDb.Zdb.Clients

/-!
How many connections there can be in a pool.

* `size_le`: at most the maximal and the initial number together.
* `size_le_max`: at most the maximal number, if the initial one is no larger and no
  thread asks a pool that is not filled.
* `size_reached`: the first bound is reached.
-/

namespace PbEntityDb.Zdb

open Roster Function

variable {T : Type} [DecidableEq T] {c : Config} {s s' : State T} {a : Act T}

/-- Threads ask a pool only when it is filled. -/
def Asked : State T → Act T → Prop
  | s, .get .. => s.pool.filled = true
  | _, _ => True

/-- At most `m` connections in a pool that is not filled. -/
structure State.Bounded (c : Config) (m : ℕ) (s : State T) : Prop where
  initialConnections : s.pool.initialConnections = c.initialConnections
  maxConnections : s.pool.maxConnections = c.maxConnections
  unfilled : s.pool.filled = false → s.pool.pool.length ≤ m
  length_le : s.pool.pool.length ≤ max (m + c.initialConnections) c.maxConnections

namespace State.Bounded

variable {m : ℕ}

omit [DecidableEq T] in
/-- A step that adds no connection. -/
lemma goOn (h : s.Bounded c m) (hlater : s.pool.Later s'.pool)
    (hlength : s'.pool.pool.length ≤ s.pool.pool.length)
    (hfilled : s'.pool.filled = s.pool.filled ∨ s'.pool.pool = []) : s'.Bounded c m where
  initialConnections := hlater.initialConnections.trans h.initialConnections
  maxConnections := hlater.maxConnections.trans h.maxConnections
  unfilled hno := by
    rcases hfilled with heq | hnil
    · exact hlength.trans (h.unfilled (heq ▸ hno))
    · simp [hnil]
  length_le := hlength.trans h.length_le

lemma step (h : s.Bounded c m) (hP : s.pool.Numbered) (hstep : Step s a s')
    (hask : Asked s a ∨ m = c.maxConnections) : s'.Bounded c m := by
  have hlater := hstep.later hP
  cases hstep with
  | @got t now connect con pool hidle hget =>
      rcases ConnectionPool.getConnection_eq_some hP hget with ⟨_, _, _, _, rfl⟩ | ⟨_, hlt, _, rfl⟩
      · exact h.goOn hlater (length_alter).le (.inl rfl)
      · have hlength : (s.pool.pushHeld now).pool.length = s.pool.pool.length + 1 := by
          simp [ConnectionPool.pushHeld]
        rw [h.maxConnections] at hlt
        refine ⟨h.initialConnections, h.maxConnections, fun hno => ?_, ?_⟩
        · rcases hask with hask | rfl
          · have hyes : s.pool.filled = true := hask
            cases hyes.symm.trans hno
          · rw [hlength]
            exact hlt
        · rw [hlength]
          exact le_max_of_le_right hlt
  | busy _ hget =>
      rw [ConnectionPool.getConnection_eq_none hget]
      exact h
  | use => exact h.goOn hlater (length_alter).le (.inl rfl)
  | clear => exact h.goOn hlater (length_alter).le (.inl rfl)
  | giveBack => exact h.goOn hlater (length_alter).le (.inl rfl)
  | reap =>
      refine h.goOn hlater (ConnectionPool.reap_sublist _ _).length_le (.inl ?_)
      rfl
  | @start now connect =>
      cases hfilled : s.pool.filled with
      | true =>
          have hstart := ConnectionPool.start_of_filled now connect hfilled
          refine h.goOn hlater ?_ (.inl ?_) <;> rw [hstart]
      | false =>
          have hm := h.unfilled hfilled
          rcases ConnectionPool.start_cases now connect hfilled with
            ⟨e, -, -, hstart⟩ | ⟨k, hk, -, -, -, hstart⟩
          · refine h.goOn hlater ?_ (.inl ?_) <;> rw [hstart]
          · refine ⟨hlater.1.trans h.1, hlater.2.trans h.2, fun hno => ?_, ?_⟩
            · rw [hstart] at hno
              cases hno
            · rw [h.initialConnections] at hk
              have hlength : (s.pool.start now connect).2.pool.length = s.pool.pool.length + k := by
                rw [hstart]
                simp [ConnectionPool.grow]
              rw [hlength]
              exact le_max_of_le_left (Nat.add_le_add hm hk)
  | stop =>
      refine h.goOn hlater ConnectionPool.stop_sublist.length_le ?_
      simp only [ConnectionPool.stop]
      split_ifs with hfilled
      · exact .inr rfl
      · exact .inl rfl

end State.Bounded

lemma bounded_start (m : ℕ) : (clients T c).start.Bounded c m :=
  ⟨rfl, rfl, fun _ => Nat.zero_le _, Nat.zero_le _⟩

/-- **How many connections there can be.** -/
theorem size_le (h : (clients T c).Reachable s) :
    s.pool.pool.length ≤ c.maxConnections + c.initialConnections := by
  have hb : s.Bounded c c.maxConnections := h.invariant (bounded_start _)
    fun _ _ _ hreach hinv hstep => hinv.step (numbered hreach) hstep (.inr rfl)
  have := hb.length_le
  omega

/-- **The limit of the pool holds in runs in which no thread asks a pool that is not
filled**, before the start or behind a stop, if a start does not go beyond it. -/
theorem size_le_max (hle : c.initialConnections ≤ c.maxConnections)
    (h : (clients T c).Run (fun s a => Guarded s a ∧ Asked s a) (clients T c).start s) :
    s.pool.pool.length ≤ c.maxConnections := by
  have hb : s.Bounded c 0 := h.invariant (.nil _) (bounded_start _)
    fun _ _ _ hrun hinv hok hstep => hinv.step (numbered (.of_run hrun)) hstep (.inl hok.2)
  have := hb.length_le
  omega

theorem size_le_max_taken : single.taken.pool.pool.length ≤ 1 :=
  size_le_max le_rfl (single.run ⟨trivial, trivial⟩ ⟨trivial, rfl⟩)

/-- A pool that is not filled makes connections up to its limit. -/
lemma unfilled_reached (c : Config) (k : ℕ) (hk : k ≤ c.maxConnections) :
    ∃ s, (clients ℕ c).Reachable s ∧ s.Bounded c c.maxConnections ∧ s.pool.filled = false ∧
      s.pool.pool.length = k ∧ (∀ con ∈ s.pool.pool, con.isAvailable = false) ∧
      ∀ t ≥ k, s.client t = .idle := by
  induction k with
  | zero =>
      exact ⟨(clients ℕ c).start, .start, bounded_start _, rfl, rfl,
        fun _ hcon => absurd hcon List.not_mem_nil, fun _ _ => rfl⟩
  | succ k ih =>
      obtain ⟨s, hs, hb, hfilled, hlength, hall, hidle⟩ := ih (Nat.le_of_succ_le hk)
      have hlt : s.pool.pool.length < s.pool.maxConnections := by
        rw [hlength, hb.maxConnections]
        exact hk
      have hget : s.pool.getConnection 0 (.ok ()) = (some s.pool.nextId, s.pool.pushHeld 0) := by
        rcases s.pool.getConnection_cases 0 (.ok ()) with
          ⟨front, con, back, hpool, hcon, -, -⟩ | ⟨-, -, -, hget⟩ | ⟨-, hno, -⟩
        · have := hall con (by simp [hpool])
          cases this.symm.trans hcon
        · exact hget
        · rcases hno with hle | ⟨e, he⟩
          · omega
          · cases he
      have hstep := Step.got (hidle k le_rfl) hget
      refine ⟨_, hs.snoc _ hstep, hb.step (numbered hs) hstep (.inr rfl), hfilled, ?_, ?_, ?_⟩
      · simp [ConnectionPool.pushHeld, hlength]
      · intro con hcon
        rcases List.mem_append.mp hcon with hcon | hcon
        · exact hall con hcon
        · rw [List.mem_singleton.mp hcon]
          rfl
      · intro t ht
        have hne : t ≠ k := by omega
        exact (update_of_ne hne _ _).trans (hidle t (by omega))

/-- The bound is reached: a start fills the pool without a look at what is in it. -/
theorem size_reached (c : Config) :
    ∃ s, (clients ℕ c).Reachable s ∧
      s.pool.pool.length = c.maxConnections + c.initialConnections := by
  obtain ⟨s, hs, hb, hfilled, hlength, -, -⟩ := unfilled_reached c c.maxConnections le_rfl
  have hstarted := hs.snoc (.start 0 fun _ => .ok ()) .start
  refine ⟨_, hstarted, ?_⟩
  rcases ConnectionPool.start_cases 0 (fun _ => .ok ()) hfilled with
    ⟨e, -, he, -⟩ | ⟨k, hk, -, -, hend, hstart⟩
  · cases he
  · have hkn : k = s.pool.initialConnections := by
      rcases hk.lt_or_eq with hlt | heq
      · obtain ⟨e, he⟩ := hend hlt
        cases he
      · exact heq
    rw [hb.initialConnections] at hkn
    simp only [hstart]
    simp [ConnectionPool.grow, hlength, hkn]

end PbEntityDb.Zdb
