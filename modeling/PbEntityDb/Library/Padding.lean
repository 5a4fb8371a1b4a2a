import Mathlib.Tactic

/-!
Lists between two paddings, which repeat one symbol.

* `padded_injective`: where the symbol is not in the list, the paddings can be told
  from it.
* `commute_replicate`: which lists can be padded on either side.
-/

namespace Padding

variable {α : Type} {x : α}

section Between

variable [DecidableEq α]

lemma takeWhile_padded {l : List α} (hne : l ≠ []) (hl : x ∉ l) (n : ℕ) (behind : List α) :
    (List.replicate n x ++ (l ++ behind)).takeWhile (· = x) = List.replicate n x := by
  have hpad : ∀ a ∈ List.replicate n x, decide (a = x) = true := by
    intro a ha
    rw [List.eq_of_mem_replicate ha, decide_eq_true_eq]
  rw [List.takeWhile_append_of_pos hpad]
  cases l with
  | nil => exact absurd rfl hne
  | cons c l =>
      have hc : decide (c = x) = false := by
        rw [decide_eq_false_iff_not]
        rintro rfl
        exact hl List.mem_cons_self
      rw [List.cons_append, List.takeWhile_cons_of_neg (by simp [hc]), List.append_nil]

/-- **The paddings are determined**, and what is between them. -/
theorem padded_injective {l l' : List α} (hne : l ≠ []) (hne' : l' ≠ []) (hl : x ∉ l)
    (hl' : x ∉ l') {n m n' m' : ℕ}
    (h : List.replicate n x ++ (l ++ List.replicate m x)
      = List.replicate n' x ++ (l' ++ List.replicate m' x)) :
    n = n' ∧ l = l' ∧ m = m' := by
  have hbefore : n = n' := by
    have htake := congrArg (List.takeWhile (· = x)) h
    rw [takeWhile_padded hne hl, takeWhile_padded hne' hl'] at htake
    simpa using congrArg List.length htake
  subst hbefore
  have hrest := List.append_cancel_left h
  -- the padding behind is in front of the reversed list
  have hreverse : List.replicate m x ++ (l.reverse ++ [])
      = List.replicate m' x ++ (l'.reverse ++ []) := by
    simpa using congrArg List.reverse hrest
  have hbehind : m = m' := by
    have htake := congrArg (List.takeWhile (· = x)) hreverse
    rw [takeWhile_padded (by simpa using hne) (by simpa using hl),
      takeWhile_padded (by simpa using hne') (by simpa using hl')] at htake
    simpa using congrArg List.length htake
  subst hbehind
  exact ⟨rfl, List.append_cancel_right hrest, rfl⟩

end Between

/-- **Which lists can be padded on either side.** -/
theorem commute_replicate (n : ℕ) (l : List α) :
    l ++ List.replicate n x = List.replicate n x ++ l ↔ n = 0 ∨ ∀ c ∈ l, c = x := by
  constructor
  · intro h
    cases n with
    | zero => exact .inl rfl
    | succ n =>
        refine .inr ?_
        induction l with
        | nil => simp
        | cons c l ih =>
            rw [List.replicate_succ, List.cons_append, List.cons_append, List.cons.injEq] at h
            obtain ⟨hc, h⟩ := h
            have hshift : List.replicate n x ++ c :: l = List.replicate (n + 1) x ++ l := by
              rw [hc, List.replicate_succ', List.append_assoc, List.singleton_append]
            rw [hshift] at h
            exact List.forall_mem_cons.mpr ⟨hc, ih h⟩
  · rintro (rfl | h)
    · simp
    · rw [List.eq_replicate_of_mem h, List.replicate_append_replicate,
        List.replicate_append_replicate, Nat.add_comm]

end Padding
