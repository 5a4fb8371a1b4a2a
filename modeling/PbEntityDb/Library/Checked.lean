import Mathlib.Tactic

/-!
Computations that are stopped from outside.

`Checked P x y` says that `x` is the computation `y` with a number of points at
which it may be stopped: it does what `y` does if `P` holds, and otherwise it
ends in an error. `Checked.bind` composes two of them, and `Checked.ok_iff` says
when there is a result.
-/

/-- `x` does what `y` does if `P` holds, and ends in an error otherwise. -/
structure Checked {ε α : Type} (P : Prop) (x y : Except ε α) : Prop where
  eq : P → x = y
  stopped : ¬ P → ∃ e, x = .error e

namespace Checked

variable {ε α β : Type} {P Q : Prop} {x y : Except ε α}

lemma refl (x : Except ε α) : Checked True x x := ⟨fun _ => rfl, fun h => absurd trivial h⟩

/-- There is an error in any case. -/
lemma error (e : ε) : Checked P (.error e : Except ε α) (.error e) :=
  ⟨fun _ => rfl, fun _ => ⟨e, rfl⟩⟩

/-- One point at which the computation is stopped. -/
lemma stop (b : Bool) (e : ε) :
    Checked (b = false) (if b then .error e else x) x := by
  cases b with
  | false => exact ⟨fun _ => rfl, fun h => absurd rfl h⟩
  | true => exact ⟨fun h => absurd h (by simp), fun _ => ⟨e, rfl⟩⟩

lemma congr (h : Checked P x y) (hPQ : P ↔ Q) : Checked Q x y :=
  ⟨fun hQ => h.eq (hPQ.mpr hQ), fun hQ => h.stopped fun hP => hQ (hPQ.mp hP)⟩

/-- **One computation behind another.** -/
theorem bind {f g : α → Except ε β} (h : Checked P x y)
    (hnext : ∀ a, y = .ok a → Checked Q (f a) (g a)) :
    Checked (P ∧ Q) (x.bind f) (y.bind g) := by
  constructor
  · rintro ⟨hP, hQ⟩
    rw [h.eq hP]
    cases hy : y with
    | error e => rfl
    | ok a => exact (hnext a hy).eq hQ
  · intro hPQ
    by_cases hP : P
    · rw [h.eq hP]
      cases hy : y with
      | error e => exact ⟨e, rfl⟩
      | ok a => exact (hnext a hy).stopped fun hQ => hPQ ⟨hP, hQ⟩
    · obtain ⟨e, he⟩ := h.stopped hP
      exact ⟨e, by rw [he]; rfl⟩

lemma ok_iff (h : Checked P x y) {a : α} : x = .ok a ↔ P ∧ y = .ok a := by
  by_cases hP : P
  · rw [h.eq hP, and_iff_right hP]
  · obtain ⟨e, he⟩ := h.stopped hP
    rw [he]
    constructor
    · intro hx
      cases hx
    · exact fun hx => absurd hx.1 hP

end Checked
