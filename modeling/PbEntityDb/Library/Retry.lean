import Mathlib.Tactic

/-!
Actions that are tried again until they are answered.

An attempt may fail before it has reached the state, it may take effect and
have its answer lost, or it is answered. `loop_eq`: if a second execution
changes nothing any more, a loop of attempts that ends has done what one
execution does.
-/

namespace Retry

variable {S : Type}

/-- What becomes of one attempt. -/
inductive Outcome where
  /-- it fails without any effect -/
  | refused
  /-- it takes effect, but is reported as failed -/
  | lost
  /-- it takes effect and is reported as done -/
  | answered
  deriving DecidableEq, Repr

/-- One attempt: whether it was answered, and the state behind it. An action that
is not possible in a state is refused there. -/
def attempt (act : S → Option S) : Outcome → S → Bool × S
  | .refused, s => (false, s)
  | .lost, s => (false, (act s).getD s)
  | .answered, s =>
      match act s with
      | some s' => (true, s')
      | none => (false, s)

/-- Attempts until one is answered, `none` while the loop goes on. -/
def loop (act : S → Option S) : List Outcome → S → Option S
  | [], _ => none
  | o :: outcomes, s =>
      match attempt act o s with
      | (true, s') => some s'
      | (false, s') => loop act outcomes s'

/-- Behind an execution in the state a second one changes nothing. -/
def Settles (act : S → Option S) (s : S) : Prop :=
  ∀ s' s'', act s = some s' → act s' = some s'' → s'' = s'

variable {act : S → Option S} {s : S}

/-- An attempt leaves a state with or without the effect as one of these. -/
lemma attempt_settled (hsettles : Settles act s) {t : S} (ht : t = s ∨ act s = some t)
    (o : Outcome) :
    ((attempt act o t).2 = s ∨ act s = some (attempt act o t).2)
      ∧ ((attempt act o t).1 = true → act s = some (attempt act o t).2) := by
  -- whatever takes effect leaves the state behind the first execution
  have heffect : ∀ t', act t = some t' → act s = some t' := by
    intro t' h
    rcases ht with rfl | ht
    · exact h
    · rwa [hsettles t t' ht h]
  cases o with
  | refused => exact ⟨ht, fun h => by cases h⟩
  | lost =>
      refine ⟨?_, fun h => by cases h⟩
      cases h : act t with
      | none => simpa [attempt, h] using ht
      | some t' =>
          right
          simpa [attempt, h] using heffect t' h
  | answered =>
      cases h : act t with
      | none => simpa [attempt, h] using ht
      | some t' =>
          have hdone := heffect t' h
          simp [attempt, h, hdone]

/-- **A loop that ends has done what one execution does.** -/
theorem loop_eq (hsettles : Settles act s) {outcomes : List Outcome} {s' : S}
    (h : loop act outcomes s = some s') : act s = some s' := by
  have hrun : ∀ (outcomes : List Outcome) (t : S), t = s ∨ act s = some t →
      loop act outcomes t = some s' → act s = some s' := by
    intro outcomes
    induction outcomes with
    | nil => intro t _ h; cases h
    | cons o outcomes ih =>
        intro t ht h
        obtain ⟨hnext, hdone⟩ := attempt_settled hsettles ht o
        rw [loop] at h
        rcases hattempt : attempt act o t with ⟨answered, t'⟩
        rw [hattempt] at h hnext hdone
        cases answered with
        | false => exact ih t' hnext h
        | true =>
            obtain rfl := Option.some.inj h
            exact hdone rfl
  exact hrun outcomes s (.inl rfl) h

end Retry
