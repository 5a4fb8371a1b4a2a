import PbEntityDb.Library.Buffer

/-!
Reading what the loops of `Buffer` write.

* `expect` reads a given piece, `readSep` at least one item with separators
  between neighbours, `readList` also no item at all.
* `readSep_sepBy` and `readList_sepBy`: a separated list is read back, as long
  as each item is and no separator follows the list.
* `readSep_initial` and `readList_initial`: of a text that was cut off the first
  items are read.
-/

namespace Reader

open Buffer

variable {α β : Type} [DecidableEq β]

/-- Reads `piece` and returns what follows it. -/
def expect (piece ts : List β) : Option (List β) := ts.dropPrefix? piece

/-- Reads one item or more, `fuel` of them at most; a separator has to be
followed by another item. -/
def readSep (sep : List β) (item : List β → Option (α × List β)) :
    ℕ → List β → Option (List α × List β)
  | 0, _ => none
  | fuel + 1, ts => do
      let (x, ts) ← item ts
      match expect sep ts with
      | none => some ([x], ts)
      | some ts => do
          let (xs, ts) ← readSep sep item fuel ts
          some (x :: xs, ts)

/-- Reads any number of items. -/
def readList (sep : List β) (item : List β → Option (α × List β)) (ts : List β) :
    Option (List α × List β) :=
  if (item ts).isNone then some ([], ts) else readSep sep item ts.length ts

lemma expect_append (piece ts : List β) : expect piece (piece ++ ts) = some ts :=
  List.dropPrefix?_append_of_beq ts (beq_self_eq_true piece)

lemma expect_cons_of_ne {a b : β} (h : b ≠ a) (piece ts : List β) :
    expect (a :: piece) (b :: ts) = none := by
  simp [expect, List.dropPrefix?, h]

section Separated

variable {sep : List β} {item : List β → Option (α × List β)} {print : α → List β}

/-- **A separated list is read back.** -/
theorem readSep_sepBy (hitem : ∀ x ts, item (print x ++ ts) = some (x, ts)) {rest : List β}
    (hrest : expect sep rest = none) (xs : List α) (hne : xs ≠ []) {fuel : ℕ}
    (hfuel : xs.length ≤ fuel) :
    readSep sep item fuel (sepBy sep print false xs ++ rest) = some (xs, rest) := by
  induction xs generalizing fuel with
  | nil => exact absurd rfl hne
  | cons x xs ih =>
      obtain ⟨fuel, rfl⟩ : ∃ n, fuel = n + 1 :=
        ⟨fuel - 1, by simp only [List.length_cons] at hfuel; omega⟩
      rw [sepBy_cons, if_neg (by simp), List.nil_append, List.append_assoc, readSep, hitem]
      cases xs with
      | nil => simp [hrest]
      | cons y ys =>
          -- what follows the item is the separator and the list of the others
          have hnext : sepBy sep print true (y :: ys) ++ rest
              = sep ++ (sepBy sep print false (y :: ys) ++ rest) := by
            simp [sepBy_cons]
          have hread := ih (by simp) (Nat.le_of_succ_le_succ hfuel)
          simp [hnext, expect_append, hread]

/-- The length of the text is fuel enough. -/
lemma readSep_length (hprint : ∀ x, print x ≠ [])
    (hitem : ∀ x ts, item (print x ++ ts) = some (x, ts)) {rest : List β}
    (hrest : expect sep rest = none) (xs : List α) (hne : xs ≠ []) :
    readSep sep item (sepBy sep print false xs ++ rest).length (sepBy sep print false xs ++ rest)
      = some (xs, rest) := by
  refine readSep_sepBy hitem hrest xs hne ?_
  have := length_le_sepBy sep hprint false xs
  rw [List.length_append]
  omega

/-- A separated list is read back also without any item. -/
theorem readList_sepBy (hprint : ∀ x, print x ≠ [])
    (hitem : ∀ x ts, item (print x ++ ts) = some (x, ts)) {rest : List β}
    (hrest : expect sep rest = none) (hend : item rest = none) (xs : List α) :
    readList sep item (sepBy sep print false xs ++ rest) = some (xs, rest) := by
  cases xs with
  | nil => simp [readList, hend]
  | cons x xs =>
      have hsome : (item (sepBy sep print false (x :: xs) ++ rest)).isNone = false := by
        rw [sepBy_cons, if_neg (by simp), List.nil_append, List.append_assoc, hitem]
        rfl
      rw [readList, hsome, if_neg (by simp)]
      exact readSep_length hprint hitem hrest _ (by simp)

/-! ### Texts that were cut off -/

lemma expect_eq_some {piece us us' : List β} :
    expect piece us = some us' ↔ us = piece ++ us' := by
  rw [expect, List.dropPrefix?_eq_some_iff]
  constructor
  · rintro ⟨piece', rfl, h⟩
    rw [eq_of_beq h]
  · rintro rfl
    exact ⟨piece, rfl, beq_self_eq_true piece⟩

lemma expect_initial {piece us us' rest : List β} (h : expect piece us = some us')
    (hus : us <+: piece ++ rest) : us' <+: rest := by
  rw [expect_eq_some.mp h] at hus
  exact List.prefix_append_right_inj piece |>.mp hus

/-- What is not read of a text is not read of its beginning either. -/
lemma expect_none_of_initial {piece us ts : List β} (h : expect piece ts = none)
    (hus : us <+: ts) : expect piece us = none := by
  obtain ⟨rest, rfl⟩ := hus
  cases hread : expect piece us with
  | none => rfl
  | some us' =>
      rw [expect_eq_some.mp hread, List.append_assoc, expect_append] at h
      cases h

/-- **Of a separated list that was cut off the first items are read.** -/
theorem readSep_initial
    (hitem : ∀ x ts us y us', us <+: print x ++ ts → item us = some (y, us') → y = x ∧ us' <+: ts)
    {rest : List β} (hrest : expect sep rest = none) {xs : List α} (hne : xs ≠ []) {fuel : ℕ}
    {us us' : List β} {ys : List α} (hus : us <+: sepBy sep print false xs ++ rest)
    (hread : readSep sep item fuel us = some (ys, us')) :
    ∃ zs, xs = ys ++ zs ∧ us' <+: sepBy sep print true zs ++ rest := by
  induction xs generalizing fuel us ys with
  | nil => exact absurd rfl hne
  | cons x xs ih =>
      cases fuel with
      | zero => cases hread
      | succ fuel =>
          rw [sepBy_cons, if_neg (by simp), List.nil_append, List.append_assoc] at hus
          rw [readSep] at hread
          obtain ⟨⟨y, us₁⟩, hy, hread⟩ := Option.bind_eq_some_iff.mp hread
          obtain ⟨rfl, hus₁⟩ := hitem x _ us y us₁ hus hy
          cases hsep : expect sep us₁ with
          | none =>
              simp only [hsep, Option.some.injEq, Prod.mk.injEq] at hread
              obtain ⟨rfl, rfl⟩ := hread
              exact ⟨xs, rfl, hus₁⟩
          | some us₂ =>
              simp only [hsep] at hread
              obtain ⟨⟨ys', us₃⟩, hys, hread⟩ := Option.bind_eq_some_iff.mp hread
              simp only [Option.some.injEq, Prod.mk.injEq] at hread
              obtain ⟨rfl, rfl⟩ := hread
              cases xs with
              | nil =>
                  -- no separator follows the list
                  rw [expect_none_of_initial hrest hus₁] at hsep
                  cases hsep
              | cons x' xs =>
                  have hus₂ : us₂ <+: sepBy sep print false (x' :: xs) ++ rest := by
                    refine expect_initial hsep ?_
                    simpa [sepBy_cons] using hus₁
                  obtain ⟨zs, hzs, hus'⟩ := ih (by simp) hus₂ hys
                  exact ⟨zs, by rw [hzs, List.cons_append], hus'⟩

/-- The same for a list that may be empty; then nothing has been read. -/
theorem readList_initial
    (hitem : ∀ x ts us y us', us <+: print x ++ ts → item us = some (y, us') → y = x ∧ us' <+: ts)
    {rest : List β} (hrest : expect sep rest = none) (hend : ∀ us, us <+: rest → item us = none)
    {xs : List α} {us us' : List β} {ys : List α} (hus : us <+: sepBy sep print false xs ++ rest)
    (hread : readList sep item us = some (ys, us')) :
    ys = [] ∧ us' = us ∨ ∃ zs, xs = ys ++ zs ∧ us' <+: sepBy sep print true zs ++ rest := by
  rw [readList] at hread
  cases hsome : item us with
  | none =>
      rw [hsome, Option.isNone_none, if_pos rfl, Option.some.injEq, Prod.mk.injEq] at hread
      exact .inl ⟨hread.1.symm, hread.2.symm⟩
  | some p =>
      rw [hsome, Option.isNone_some, if_neg (by simp)] at hread
      refine .inr (readSep_initial hitem hrest ?_ hus hread)
      rintro rfl
      rw [hend us hus] at hsome
      cases hsome

end Separated

end Reader
