import Mathlib.Tactic

/-!
Computations that do not end in a given error.

`Avoids bad P x` says that `x` ends in another error than `bad`, or in a result with the
property `P`. `Avoids.bind` composes two of them.
-/

/-- `x` does not end in `bad`, and its result has the property `P`. -/
structure Avoids {ε α : Type} (bad : ε) (P : α → Prop) (x : Except ε α) : Prop where
  result : ∀ a, x = .ok a → P a
  avoids : x ≠ .error bad

namespace Avoids

variable {ε α β : Type} {bad : ε} {P : α → Prop} {Q : β → Prop} {x : Except ε α}

lemma ok {a : α} (h : P a) : Avoids bad P (.ok a) where
  result _ ha := Except.ok.inj ha ▸ h
  avoids := by simp

lemma error {e : ε} (h : e ≠ bad) : Avoids bad P (.error e : Except ε α) where
  result _ ha := by cases ha
  avoids he := h (Except.error.inj he)

/-- A computation that has a result. -/
lemma of_ok (h : ∃ a, x = .ok a ∧ P a) : Avoids bad P x := by
  obtain ⟨a, rfl, ha⟩ := h
  exact ok ha

/-- **One computation behind another.** -/
theorem bind {f : α → Except ε β} (h : Avoids bad P x) (hnext : ∀ a, P a → Avoids bad Q (f a)) :
    Avoids bad Q (x.bind f) := by
  cases x with
  | error e => exact error fun he => h.avoids (congrArg Except.error he)
  | ok a => exact hnext a (h.result a rfl)

end Avoids
