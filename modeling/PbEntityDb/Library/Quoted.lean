import Mathlib.Tactic

/-!
Reading a text with quoted names.

A quote character opens a name and the next one closes it; everything outside
of names is read character by character. `lex` gives the tokens, `lexState`
the state in which a text leaves the reader.

* `lex_append` reads a concatenation piece by piece, `lex_plain` and
  `lex_quoted` the two kinds of pieces.
* `lex_take`: what is left of a text that was cut off reads as a
  prefix of its tokens.
-/

namespace Quoted

variable {α : Type} [DecidableEq α]

/-- A quoted name, or a character outside of names. -/
inductive Token (α : Type) where
  | name (cs : List α)
  | sym (c : α)
  deriving DecidableEq, Repr

/-- The tokens of a text, `some acc` being the part read so far of a name that
is still open. A name that never ends is no token. -/
def lex (q : α) : Option (List α) → List α → List (Token α)
  | _, [] => []
  | none, c :: cs => if c = q then lex q (some []) cs else .sym c :: lex q none cs
  | some acc, c :: cs => if c = q then .name acc :: lex q none cs else lex q (some (acc ++ [c])) cs

/-- The state in which a text leaves the reader. -/
def lexState (q : α) : Option (List α) → List α → Option (List α)
  | s, [] => s
  | none, c :: cs => if c = q then lexState q (some []) cs else lexState q none cs
  | some acc, c :: cs => if c = q then lexState q none cs else lexState q (some (acc ++ [c])) cs

lemma lex_append (q : α) (s : Option (List α)) (cs ds : List α) :
    lex q s (cs ++ ds) = lex q s cs ++ lex q (lexState q s cs) ds := by
  induction cs generalizing s with
  | nil => cases s <;> simp [lex, lexState]
  | cons c cs ih =>
      cases s with
      | none =>
          by_cases h : c = q
          · simp [lex, lexState, h, ih]
          · simp [lex, lexState, h, ih]
      | some acc =>
          by_cases h : c = q
          · simp [lex, lexState, h, ih]
          · simp [lex, lexState, h, ih]

lemma lexState_append (q : α) (s : Option (List α)) (cs ds : List α) :
    lexState q s (cs ++ ds) = lexState q (lexState q s cs) ds := by
  induction cs generalizing s with
  | nil => cases s <;> simp [lexState]
  | cons c cs ih => cases s <;> by_cases h : c = q <;> simp [lexState, h, ih]

/-- A text without quotes is read character by character. -/
lemma lex_plain (q : α) {cs : List α} (h : q ∉ cs) : lex q none cs = cs.map .sym := by
  induction cs with
  | nil => rfl
  | cons c cs ih =>
      have hc : c ≠ q := fun e => h (by simp [e])
      have hcs : q ∉ cs := fun e => h (by simp [e])
      simp [lex, hc, ih hcs]

lemma lexState_plain (q : α) {cs : List α} (h : q ∉ cs) : lexState q none cs = none := by
  induction cs with
  | nil => rfl
  | cons c cs ih =>
      have hc : c ≠ q := fun e => h (by simp [e])
      have hcs : q ∉ cs := fun e => h (by simp [e])
      simp [lexState, hc, ih hcs]

/-- An open name takes in every character up to its closing quote. -/
lemma lex_open (q : α) {cs : List α} (h : q ∉ cs) (acc : List α) :
    lex q (some acc) (cs ++ [q]) = [.name (acc ++ cs)]
      ∧ lexState q (some acc) (cs ++ [q]) = none := by
  induction cs generalizing acc with
  | nil => simp [lex, lexState]
  | cons c cs ih =>
      have hc : c ≠ q := fun e => h (by simp [e])
      have hcs : q ∉ cs := fun e => h (by simp [e])
      simpa [lex, lexState, hc] using ih hcs (acc ++ [c])

/-- A name between its quotes is one token. -/
lemma lex_quoted (q : α) {cs : List α} (h : q ∉ cs) :
    lex q none (q :: (cs ++ [q])) = [.name cs] := by
  simpa [lex] using (lex_open q h []).1

lemma lexState_quoted (q : α) {cs : List α} (h : q ∉ cs) :
    lexState q none (q :: (cs ++ [q])) = none := by
  simpa [lexState] using (lex_open q h []).2

/-- **Cutting a text off cuts its tokens off.** -/
theorem lex_take (q : α) (s : Option (List α)) (cs : List α) (n : ℕ) :
    lex q s (cs.take n) <+: lex q s cs := by
  refine ⟨lex q (lexState q s (cs.take n)) (cs.drop n), ?_⟩
  rw [← lex_append, List.take_append_drop]

end Quoted
