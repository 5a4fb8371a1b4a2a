import Mathlib.Tactic

/-!
A queue that hands each item to one taker, first in first out for each putter.

The queue keeps what each putter has put and nobody has taken, together with
the logs of all puts and takes. `fiber w` is the part of a log that belongs to
`w`.

* `Queue.Fifo` is what `put` and `take` keep: what a putter has put is what was
  taken of it, in this order, followed by what is still queued.
* `Queue.nodup_taken`: if the items put have different keys, no key is
  taken twice.
* `Queue.taken_order`: of two items of one putter, the one put first is taken
  first; `Queue.fiber_order` says so of what one taker gets.
* `nodup_of_fibers` carries this over to any other log that lists for each
  taker only some of what it took.
-/

namespace HandOff

open scoped List

variable {P W α β κ : Type}

/-- Everyone whose log has the key is the same. -/
lemma owner_unique {log : List (W × κ)} (hnodup : (log.map Prod.snd).Nodup) {w w' : W} {k : κ}
    (h : (w, k) ∈ log) (h' : (w', k) ∈ log) : w = w' :=
  congrArg Prod.fst (List.inj_on_of_nodup_map hnodup h h' rfl)

section Fibers

variable [DecidableEq W]

/-- The entries of `w` in a log. -/
def fiber (w : W) (log : List (W × α)) : List α :=
  log.filterMap fun x => if x.1 = w then some x.2 else none

@[simp]
lemma fiber_nil (w : W) : fiber w ([] : List (W × α)) = [] := rfl

@[simp]
lemma fiber_append (w : W) (l l' : List (W × α)) : fiber w (l ++ l') = fiber w l ++ fiber w l' :=
  List.filterMap_append

lemma fiber_single (w v : W) (a : α) : fiber w [(v, a)] = if v = w then [a] else [] := by
  by_cases h : v = w <;> simp [fiber, h]

@[simp]
lemma fiber_single_self (w : W) (a : α) : fiber w [(w, a)] = [a] := by simp [fiber_single]

lemma fiber_single_of_ne {w v : W} (h : v ≠ w) (a : α) : fiber w [(v, a)] = [] := by
  simp [fiber_single, h]

@[simp]
lemma mem_fiber {w : W} {a : α} {log : List (W × α)} : a ∈ fiber w log ↔ (w, a) ∈ log := by
  simp [fiber, List.mem_filterMap]

/-- The entries of `w`, still with their owner. -/
lemma filter_eq_map_fiber (w : W) (log : List (W × α)) :
    log.filter (·.1 = w) = (fiber w log).map (w, ·) := by
  induction log with
  | nil => rfl
  | cons x log ih =>
      obtain ⟨v, a⟩ := x
      by_cases h : v = w
      · subst h
        simpa [fiber] using ih
      · simpa [fiber, h] using ih

lemma fiber_map (w : W) (f : α → β) (log : List (W × α)) :
    fiber w (log.map fun x => (x.1, f x.2)) = (fiber w log).map f := by
  induction log with
  | nil => rfl
  | cons x log ih =>
      obtain ⟨v, a⟩ := x
      by_cases h : v = w <;> simpa [fiber, h] using ih

/-- The entries of one owner are some of all entries. -/
lemma fiber_sublist (w : W) (log : List (W × α)) : fiber w log <+ log.map Prod.snd := by
  induction log with
  | nil => exact List.Sublist.refl _
  | cons x log ih =>
      obtain ⟨v, a⟩ := x
      by_cases h : v = w
      · simpa [fiber, h] using ih
      · simpa [fiber, h] using ih.cons a

lemma fiber_mono {l l' : List (W × α)} (h : l <+ l') (w : W) : fiber w l <+ fiber w l' :=
  h.filterMap _

/-- A log that lists for everyone only some of what another log lists. -/
lemma subperm_of_fibers {l l' : List (W × α)} (h : ∀ w, fiber w l <+ fiber w l') : l <+~ l' := by
  classical
  rw [List.subperm_ext_iff]
  rintro ⟨w, a⟩ -
  have hcount : ∀ log : List (W × α), List.count (w, a) log = List.count (w, a)
      (log.filter (·.1 = w)) := fun log => (List.count_filter (by simp)).symm
  rw [hcount l, hcount l', filter_eq_map_fiber, filter_eq_map_fiber]
  exact ((h w).map _).count_le _

/-- **What is in one log once is in a smaller log at most once.** -/
theorem nodup_of_fibers {l l' : List (W × κ)} (h : ∀ w, fiber w l <+ fiber w l')
    (hnodup : (l'.map Prod.snd).Nodup) : (l.map Prod.snd).Nodup := by
  obtain ⟨l'', hperm, hsub⟩ := subperm_of_fibers h
  exact (hperm.map _).nodup_iff.mp (hnodup.sublist (hsub.map _))

lemma nodup_fiber {log : List (W × κ)} (hnodup : (log.map Prod.snd).Nodup) (w : W) :
    (fiber w log).Nodup := by
  have hfilter : (((fiber w log).map (w, ·)).map Prod.snd).Nodup := by
    rw [← filter_eq_map_fiber]
    exact hnodup.sublist (List.filter_sublist.map _)
  simpa [Function.comp_def] using hfilter

end Fibers

/-! ### The order of two entries -/

lemma not_swapped {l : List κ} (hnodup : l.Nodup) {a b : κ} (h : [a, b] <+ l) : ¬ [b, a] <+ l := by
  intro h'
  induction l with
  | nil => simp at h
  | cons x l ih =>
      obtain ⟨hx, hl⟩ := List.nodup_cons.mp hnodup
      have hmem : ∀ {c d : κ}, [c, d] <+ l → c ∈ l ∧ d ∈ l := fun hcd =>
        ⟨hcd.subset (by simp), hcd.subset (by simp)⟩
      rcases List.sublist_cons_iff.mp h with hab | ⟨r, hr, hr'⟩
      · rcases List.sublist_cons_iff.mp h' with hba | ⟨r', hr, -⟩
        · exact ih hl hab hba
        · obtain ⟨rfl, -⟩ := List.cons.inj hr
          exact hx (hmem hab).2
      · obtain ⟨rfl, rfl⟩ := List.cons.inj hr
        rcases List.sublist_cons_iff.mp h' with hba | ⟨r', hr, -⟩
        · exact hx (hmem hba).2
        · obtain ⟨rfl, -⟩ := List.cons.inj hr
          exact hx (List.singleton_sublist.mp hr')

lemma pair_sublist_iff {l : List κ} {a b : κ} :
    [a, b] <+ l ↔ ∃ l₁ l₂, l = l₁ ++ l₂ ∧ a ∈ l₁ ∧ b ∈ l₂ := by
  simp only [List.cons_sublist_iff (a := a), List.singleton_sublist]

/-- Of two entries in order, the second one does not come without the first. -/
lemma pair_sublist_of_append {l r : List κ} (hnodup : (l ++ r).Nodup) {a b : κ}
    (h : [a, b] <+ l ++ r) (hb : b ∈ l) : [a, b] <+ l := by
  obtain ⟨l₁, l₂, heq, h₁, h₂⟩ := List.sublist_append_iff.mp h
  have hdisj : ∀ x ∈ l, x ∉ r := fun x hx hx' => List.disjoint_of_nodup_append hnodup hx hx'
  cases l₂ with
  | nil => simpa [heq] using h₁
  | cons y ys =>
      have hlast : b ∈ y :: ys := by
        have hget : (l₁ ++ y :: ys).getLast? = some b := by rw [← heq]; rfl
        rw [List.getLast?_append_of_ne_nil _ (List.cons_ne_nil y ys)] at hget
        exact List.mem_of_getLast? hget
      exact absurd (h₂.subset hlast) (hdisj b hb)

/-! ### The queue -/

/-- What each putter has in the queue, and the logs of all puts and takes. -/
structure Queue (P W α : Type) where
  queued : P → List α
  accepted : List (P × α)
  taken : List (W × P × α)

namespace Queue

/-- Nothing was put yet. -/
def empty : Queue P W α := ⟨fun _ => [], [], []⟩

variable [DecidableEq P] (q : Queue P W α)

/-- The putter `p` appends `x`. -/
def put (p : P) (x : α) : Queue P W α where
  queued := Function.update q.queued p (q.queued p ++ [x])
  accepted := q.accepted ++ [(p, x)]
  taken := q.taken

/-- The taker `w` gets `x`, the first item of `p`, and leaves the rest. -/
def take (w : W) (p : P) (x : α) (rest : List α) : Queue P W α where
  queued := Function.update q.queued p rest
  accepted := q.accepted
  taken := q.taken ++ [(w, p, x)]

@[simp] lemma put_accepted (p : P) (x : α) : (q.put p x).accepted = q.accepted ++ [(p, x)] := rfl

@[simp] lemma put_taken (p : P) (x : α) : (q.put p x).taken = q.taken := rfl

@[simp] lemma take_accepted (w : W) (p : P) (x : α) (rest : List α) :
    (q.take w p x rest).accepted = q.accepted := rfl

@[simp] lemma take_taken (w : W) (p : P) (x : α) (rest : List α) :
    (q.take w p x rest).taken = q.taken ++ [(w, p, x)] := rfl

variable {q}

/-- What a putter has put is what was taken of it followed by what is queued. -/
def Fifo (q : Queue P W α) : Prop :=
  ∀ p, fiber p q.accepted = fiber p (q.taken.map Prod.snd) ++ q.queued p

lemma fifo_empty : (empty : Queue P W α).Fifo := fun _ => rfl

lemma Fifo.put (h : q.Fifo) (p : P) (x : α) : (q.put p x).Fifo := by
  intro p'
  rcases eq_or_ne p p' with rfl | hp
  · simp [Queue.put, h p]
  · simp [Queue.put, h p', fiber_single_of_ne hp, hp.symm]

lemma Fifo.take (h : q.Fifo) {w : W} {p : P} {x : α} {rest : List α}
    (hhead : q.queued p = x :: rest) : (q.take w p x rest).Fifo := by
  intro p'
  rcases eq_or_ne p p' with rfl | hp
  · simp [Queue.take, h p, hhead]
  · simp [Queue.take, h p', fiber_single_of_ne hp, hp.symm]

/-- An accepted item is still queued or was taken. -/
lemma Fifo.mem_accepted (h : q.Fifo) {p : P} {x : α} :
    (p, x) ∈ q.accepted ↔ (∃ w, (w, p, x) ∈ q.taken) ∨ x ∈ q.queued p := by
  rw [← mem_fiber, h p, List.mem_append, mem_fiber]
  simp

section Keys

variable (key : α → κ)

/-- The items that were put have different keys. -/
def Distinct (q : Queue P W α) : Prop := (q.accepted.map fun x => key x.2).Nodup

variable {key}

lemma nodup_fiber_accepted (hkeys : q.Distinct key) (p : P) :
    ((fiber p q.accepted).map key).Nodup := by
  have hall : ((q.accepted.map fun x => (x.1, key x.2)).map Prod.snd).Nodup := by
    simpa [Function.comp_def, Distinct] using hkeys
  simpa [fiber_map] using nodup_fiber hall p

/-- **No key is taken twice.** -/
theorem nodup_taken (h : q.Fifo) (hkeys : q.Distinct key) :
    (q.taken.map fun x => key x.2.2).Nodup := by
  have hsub : ∀ p, fiber p ((q.taken.map Prod.snd).map fun x => (x.1, key x.2))
      <+ fiber p (q.accepted.map fun x => (x.1, key x.2)) := fun p => by
    rw [fiber_map, fiber_map, h p, List.map_append]
    exact List.sublist_append_left _ _
  simpa [Function.comp_def] using
    nodup_of_fibers hsub (by simpa [Function.comp_def, Distinct] using hkeys)

/-- What was taken is no longer queued. -/
lemma not_queued_of_taken (h : q.Fifo) (hkeys : q.Distinct key) {w : W} {p p' : P} {x y : α}
    (htaken : (w, p, x) ∈ q.taken) (hqueued : y ∈ q.queued p') : key x ≠ key y := by
  intro heq
  have hx : (p, x) ∈ q.accepted := h.mem_accepted.mpr (.inl ⟨w, htaken⟩)
  have hy : (p', y) ∈ q.accepted := h.mem_accepted.mpr (.inr hqueued)
  obtain ⟨rfl, rfl⟩ := Prod.mk.inj (List.inj_on_of_nodup_map hkeys hx hy heq)
  have hnodup := nodup_fiber_accepted hkeys p
  rw [h p, List.map_append] at hnodup
  have hfiber : x ∈ fiber p (q.taken.map Prod.snd) :=
    mem_fiber.mpr (List.mem_map.mpr ⟨_, htaken, rfl⟩)
  exact List.disjoint_of_nodup_append hnodup (List.mem_map_of_mem hfiber)
    (List.mem_map_of_mem hqueued)

/-- **What a putter put first is taken first.** -/
theorem taken_order (h : q.Fifo) (hkeys : q.Distinct key) {p : P} {x y : α}
    (horder : [x, y] <+ fiber p q.accepted) {w : W} (hy : (w, p, y) ∈ q.taken) :
    [x, y] <+ fiber p (q.taken.map Prod.snd) := by
  have hnodup : (fiber p q.accepted).Nodup := (nodup_fiber_accepted hkeys p).of_map
  rw [h p] at horder hnodup
  exact pair_sublist_of_append hnodup horder
    (mem_fiber.mpr (List.mem_map.mpr ⟨_, hy, rfl⟩))

/-- Two items of one putter come in the same order to the taker that gets both. -/
lemma fiber_order (h : q.Fifo) (hkeys : q.Distinct key) [DecidableEq W] {p : P} {w : W} {x y : α}
    (horder : [x, y] <+ fiber p (q.taken.map Prod.snd)) (hx : (w, p, x) ∈ q.taken)
    (hy : (w, p, y) ∈ q.taken) : [x, y] <+ (fiber w q.taken).map Prod.snd := by
  have hsame : ∀ {w' z}, (w', p, z) ∈ q.taken → (w, p, z) ∈ q.taken → w' = w := fun hz hz' =>
    congrArg Prod.fst (List.inj_on_of_nodup_map (nodup_taken h hkeys) hz hz' rfl)
  obtain ⟨l₁, l₂, heq, hx₁, hy₂⟩ := pair_sublist_iff.mp horder
  rw [fiber, List.filterMap_map, List.filterMap_eq_append_iff] at heq
  obtain ⟨t₁, t₂, heq, rfl, rfl⟩ := heq
  have hmem : ∀ {t : List (W × P × α)} {z : α}, t ⊆ q.taken → (w, p, z) ∈ q.taken →
      z ∈ t.filterMap ((fun x => if x.1 = p then some x.2 else none) ∘ Prod.snd) →
      z ∈ (fiber w t).map Prod.snd := fun {t z} hsub hz hzt => by
    obtain ⟨⟨w', p', z'⟩, hmem, hsome⟩ := List.mem_filterMap.mp hzt
    obtain ⟨rfl, rfl⟩ : p' = p ∧ z' = z := by simpa using hsome
    obtain rfl := hsame (hsub hmem) hz
    exact List.mem_map.mpr ⟨_, mem_fiber.mpr hmem, rfl⟩
  refine pair_sublist_iff.mpr ⟨(fiber w t₁).map Prod.snd, (fiber w t₂).map Prod.snd, ?_, ?_, ?_⟩
  · rw [heq, fiber_append, List.map_append]
  · exact hmem (by simp [heq]) hx hx₁
  · exact hmem (by simp [heq]) hy hy₂

end Keys

end Queue

end HandOff
