import PbEntityDb.Format.Layout

/-!
Conversions behind one another.

The blocks that were added go back to `PRINT_S_DEFAULT` without the reset of the general
exit, so their flags are still set in the next conversion.

* `firstGeneral` is the conversion that gets them, `Unaffected` says when they change
  nothing of it.
* `concatenation_iff`: two formats behind one another print their two texts exactly if
  the flags that the first one leaves do not affect the second one.
* `minus_left`: a minus that `%-d` leaves, in a `%5d`.
* `reset_iff`: the formats behind which every format prints its own text.
-/

namespace PbEntityDb.Format

/-! ### The flags that are left -/

/-- The first conversion that gets to the general exit, and the flags of the blocks in
front of it. -/
def firstGeneral : List Item → Option (List FlagChar × Conversion)
  | [] => none
  | .literal _ _ :: items => firstGeneral items
  | .three own _ :: items => (firstGeneral items).map fun r => (own ++ r.1, r.2)
  | .conversion c :: items =>
      if c.fast.isNone then some ([], c)
      else (firstGeneral items).map fun r => (c.flags ++ r.1, r.2)

/-- A conversion prints the same with two settings of the flags. -/
def Conversion.Same (abi : Abi) (flags flags' : Flags) (c : Conversion) : Prop :=
  ∀ r ∈ (c.width.read (flags.setAll c.flags)).toOption,
    ∀ r' ∈ (c.width.read (flags'.setAll c.flags)).toOption, ∀ precision ∈ c.precision.read.toOption,
      c.operand.Same abi c.modifier r.1 precision r.2 r'.2

instance (abi : Abi) (flags flags' : Flags) (c : Conversion) :
    Decidable (c.Same abi flags flags') :=
  Option.decidableForallMem _

/-- Flags that are set in front of a format change nothing of it. -/
def Unaffected (abi : Abi) (flags : Flags) (items : List Item) : Prop :=
  ∀ r ∈ firstGeneral items, r.2.Same abi (flags.setAll r.1) (Flags.none.setAll r.1)

instance (abi : Abi) (flags : Flags) (items : List Item) :
    Decidable (Unaffected abi flags items) :=
  Option.decidableForallMem _

/-- The flags that no format sets are the same. -/
def Flags.Like (flags flags' : Flags) : Prop :=
  flags.up = flags'.up ∧ flags.unsigned = flags'.unsigned

section Flags

variable {flags flags' : Flags}

lemma Flags.setAll_append (l l' : List FlagChar) :
    flags.setAll (l ++ l') = (flags.setAll l).setAll l' :=
  List.foldl_append

lemma Flags.like_setAll (flags : Flags) (l : List FlagChar) : (flags.setAll l).Like flags := by
  induction l generalizing flags with
  | nil => exact ⟨rfl, rfl⟩
  | cons c l ih =>
      have hset : (flags.set c).Like flags := by
        cases c <;> exact ⟨rfl, rfl⟩
      have hrest := ih (flags.set c)
      exact ⟨hrest.1.trans hset.1, hrest.2.trans hset.2⟩

lemma Flags.Like.setAll (h : flags.Like flags') (l : List FlagChar) :
    (flags.setAll l).Like (flags'.setAll l) := by
  have hleft := flags.like_setAll l
  have hright := flags'.like_setAll l
  exact ⟨hleft.1.trans (h.1.trans hright.1.symm), hleft.2.trans (h.2.trans hright.2.symm)⟩

/-- Only `'+'`, `'-'` and so on are left behind a format. -/
lemma like_leaves (h : flags.Like .none) (items : List Item) : (leaves flags items).Like .none := by
  induction items generalizing flags with
  | nil => exact h
  | cons item items ih =>
      have hset : ∀ l, (flags.setAll l).Like .none := fun l =>
        ⟨(flags.like_setAll l).1.trans h.1, (flags.like_setAll l).2.trans h.2⟩
      refine ih ?_
      cases item with
      | literal c plain => exact h
      | three own w => exact hset own
      | conversion c =>
          rw [Item.leaves, Conversion.leaves]
          cases c.fast with
          | none => exact ⟨rfl, rfl⟩
          | some q => exact hset c.flags

/-- The flags behind a width. -/
def Flags.orMinus (flags : Flags) (negative : Bool) : Flags :=
  { flags with minus := flags.minus || negative }

lemma Flags.orMinus_false (flags : Flags) : flags.orMinus false = flags := by
  rw [orMinus, Bool.or_false]

lemma Flags.orMinus_true (flags : Flags) : flags.orMinus true = { flags with minus := true } := by
  rw [orMinus, Bool.or_true]

/-- A width is read with any flags. -/
lemma Width.read_eq (w : Width) : ∃ x : Except Stop (ℤ × Bool), ∀ flags : Flags,
    w.read flags = x.map fun r => (r.1, flags.orMinus r.2) := by
  cases w with
  | none => exact ⟨.ok (0, false), fun flags => by rw [Except.map, flags.orMinus_false]; rfl⟩
  | number first digits =>
      refine ⟨(Format.number 0 (first.succ :: digits)).map fun n => (n, false), fun flags => ?_⟩
      rw [Width.read]
      cases Format.number 0 (first.succ :: digits) with
      | error stop => rfl
      | ok n =>
          rw [Except.map, Except.map, Except.map, flags.orMinus_false]
  | star w =>
      by_cases hmin : (w.setWidth 32).toInt = -2 ^ 31
      · refine ⟨.error (.undefined .negation), fun flags => ?_⟩
        simp only [Width.read, if_pos hmin]
        rfl
      · by_cases hneg : (w.setWidth 32).toInt < 0
        · refine ⟨.ok (-(w.setWidth 32).toInt, true), fun flags => ?_⟩
          simp only [Width.read, if_neg hmin, if_pos hneg, Except.map, flags.orMinus_true]
        · refine ⟨.ok ((w.setWidth 32).toInt, false), fun flags => ?_⟩
          simp only [Width.read, if_neg hmin, if_neg hneg, Except.map, flags.orMinus_false]

/-- When a conversion prints the same with other flags. -/
lemma general_iff {abi : Abi} {c : Conversion} {t : Text} (hlike : flags.Like flags')
    (h : c.general abi flags' = .ok t) :
    c.general abi flags = .ok t ↔ c.Same abi flags flags' := by
  obtain ⟨x, hx⟩ := c.width.read_eq
  have hset := hlike.setAll c.flags
  rw [Conversion.general, hx] at h
  rw [Conversion.general, Conversion.Same, hx, hx]
  cases x with
  | error stop => cases h
  | ok r =>
      obtain ⟨width, minus⟩ := r
      cases hprecision : c.precision.read with
      | error stop =>
          rw [hprecision] at h
          cases h
      | ok precision =>
          rw [hprecision] at h
          cases h
          have htext := @Operand.text_iff abi c.modifier width precision
            ((flags.setAll c.flags).orMinus minus) ((flags'.setAll c.flags).orMinus minus)
            hset.1 hset.2 c.operand
          simp only [Except.map, Except.toOption, Option.mem_some_iff, forall_eq']
          refine Iff.trans ?_ htext
          change Except.ok _ = Except.ok _ ↔ _
          rw [Except.ok.injEq]

end Flags

/-! ### Two formats -/

section Concatenation

variable {abi : Abi}

/-- **The items print the same** with other flags if the first general conversion does. -/
theorem texts_iff {flags flags' : Flags} {items : List Item} {t : Text}
    (hlike : flags.Like flags') (h : texts abi flags' items = .ok t) :
    texts abi flags items = .ok t
      ↔ ∀ r ∈ firstGeneral items, r.2.Same abi (flags.setAll r.1) (flags'.setAll r.1) := by
  induction items generalizing flags flags' t with
  | nil => exact iff_of_true h (by simp [firstGeneral])
  | cons item items ih =>
      obtain ⟨u, hu, h⟩ := bind_ok h
      obtain ⟨u', hu', h⟩ := bind_ok h
      cases h
      -- an item that prints the same in any case
      have hsame : item.text abi flags = .ok u → (texts abi flags (item :: items) = .ok (u ++ u')
          ↔ texts abi (item.leaves flags) items = .ok u') := by
        intro hitem
        rw [texts, hitem]
        change (texts abi (item.leaves flags) items).bind _ = _ ↔ _
        cases texts abi (item.leaves flags) items with
        | error stop => constructor <;> intro hfalse <;> cases hfalse
        | ok v =>
            change Except.ok (u ++ v) = _ ↔ _
            rw [Except.ok.injEq, Except.ok.injEq, List.append_cancel_left_eq]
      -- a block passes the flags on, with its own
      have hblock : ∀ own : List FlagChar, item.text abi flags = .ok u →
          item.leaves flags = flags.setAll own → item.leaves flags' = flags'.setAll own →
          (firstGeneral (item :: items) = (firstGeneral items).map fun r => (own ++ r.1, r.2)) →
          (texts abi flags (item :: items) = .ok (u ++ u') ↔ ∀ r ∈ firstGeneral (item :: items),
            r.2.Same abi (flags.setAll r.1) (flags'.setAll r.1)) := by
        intro own hitem hleaves hleaves' hfirst
        rw [hleaves'] at hu'
        rw [hsame hitem, hleaves, ih (hlike.setAll own) hu', hfirst]
        cases firstGeneral items with
        | none => simp
        | some r => simp [Flags.setAll_append]
      cases item with
      | literal c plain => exact (hsame hu).trans (ih hlike hu')
      | three own w => exact hblock own hu rfl rfl rfl
      | conversion c =>
          cases hfast : c.fast with
          | some q =>
              have htext : c.text abi flags = c.text abi flags' := by
                rw [Conversion.text, Conversion.text, hfast]
                rfl
              refine hblock c.flags (htext.trans hu) ?_ ?_ ?_
              · rw [Item.leaves, Conversion.leaves, hfast]
                rfl
              · rw [Item.leaves, Conversion.leaves, hfast]
                rfl
              · rw [firstGeneral, hfast, if_neg (by simp)]
          | none =>
              have hgeneral : ∀ flags,
                  (Item.conversion c).text abi flags = c.general abi flags := by
                intro flags
                rw [Item.text, Conversion.text, hfast]
                rfl
              have hreset : ∀ flags, (Item.conversion c).leaves flags = .none := by
                intro flags
                rw [Item.leaves, Conversion.leaves, hfast]
                rfl
              rw [hgeneral] at hu
              rw [hreset] at hu'
              have hfirst : firstGeneral (.conversion c :: items) = some ([], c) := by
                rw [firstGeneral, hfast, Option.isNone_none, if_pos rfl]
              have hiff : texts abi flags (.conversion c :: items) = .ok (u ++ u')
                  ↔ c.general abi flags = .ok u := by
                rw [texts, hgeneral, hreset, hu']
                cases c.general abi flags with
                | error stop => constructor <;> intro hfalse <;> cases hfalse
                | ok v =>
                    change Except.ok (v ++ u') = _ ↔ _
                    rw [Except.ok.injEq, Except.ok.injEq, List.append_cancel_right_eq]
              rw [hiff, general_iff hlike hu, hfirst]
              simp [Flags.setAll]

end Concatenation

/-- A format behind another one. -/
def CString.append (s t : CString) : CString where
  chars := s.chars ++ t.chars
  nul_free := by
    rw [List.mem_append, not_or]
    exact ⟨s.nul_free, t.nul_free⟩

lemma formatOf_append (items items' : List Item) :
    formatOf (items ++ items') = (formatOf items).append (formatOf items') := by
  simp only [formatOf, CString.append, List.flatMap_append]

lemma argsOf_append (items items' : List Item) :
    argsOf (items ++ items') = argsOf items ++ argsOf items' :=
  List.flatMap_append

/-- **Two formats behind one another** print their two texts exactly if the flags that
the first one leaves do not affect the second one. -/
theorem concatenation_iff (abi : Abi) (f f' : List Item) {t t' : Text}
    (h : Prints abi (formatOf f) (argsOf f) t) (h' : Prints abi (formatOf f') (argsOf f') t') :
    Prints abi ((formatOf f).append (formatOf f')) (argsOf f ++ argsOf f') (t ++ t')
      ↔ Unaffected abi (leaves .none f) f' := by
  rw [prints_iff] at h h'
  rw [← formatOf_append, ← argsOf_append, prints_iff, texts_append f f' h]
  exact texts_iff (like_leaves ⟨rfl, rfl⟩ f) h'

/-- `%.1d` of a number with four digits. -/
def fourDigits : List Item :=
  [.conversion ⟨[], .none, .number [1], .none, .integer .d 1000⟩]

/-- `%8x` of a number with one digit. -/
def eightWide : List Item :=
  [.conversion ⟨[], .number 7 [], .none, .none, .integer .x 1⟩]

/-- Every flag is seen in one of the two. -/
lemma eq_none_of_unaffected {abi : Abi} {flags : Flags} (hlike : flags.Like .none)
    (hdigits : Unaffected abi flags fourDigits) (hwide : Unaffected abi flags eightWide) :
    flags = .none := by
  obtain ⟨minus, plus, space, num, zero, quote, up, unsigned⟩ := flags
  obtain ⟨rfl, rfl⟩ := hlike
  revert minus plus space num zero quote
  cases abi <;> decide +kernel

/-- **Behind which formats every format prints its own text**: those that leave no flag. -/
theorem reset_iff (abi : Abi) (f : List Item) {t : Text}
    (h : Prints abi (formatOf f) (argsOf f) t) :
    (∀ f' t', Prints abi (formatOf f') (argsOf f') t' →
        Prints abi ((formatOf f).append (formatOf f')) (argsOf f ++ argsOf f') (t ++ t'))
      ↔ leaves .none f = .none := by
  constructor
  · intro hall
    have htext := (prints_iff f t).mp h
    have hunaffected : ∀ f' t', texts abi .none f' = .ok t' →
        Unaffected abi (leaves .none f) f' := by
      intro f' t' h'
      have hboth := hall f' t' ((prints_iff f' t').mpr h')
      rw [← formatOf_append, ← argsOf_append, prints_iff, texts_append f f' htext] at hboth
      exact (texts_iff (like_leaves ⟨rfl, rfl⟩ f) h').mp hboth
    have hdigits : texts abi .none fourDigits = .ok ['1', '0', '0', '0'] := by
      cases abi <;> decide +kernel
    have hwide : texts abi .none eightWide = .ok [' ', ' ', ' ', ' ', ' ', ' ', ' ', '1'] := by
      cases abi <;> decide +kernel
    exact eq_none_of_unaffected (like_leaves ⟨rfl, rfl⟩ f) (hunaffected _ _ hdigits)
      (hunaffected _ _ hwide)
  · intro hleaves f' t' h'
    rw [← formatOf_append, ← argsOf_append, prints_iff,
      texts_append f f' ((prints_iff f t).mp h), hleaves]
    exact (prints_iff f' t').mp h'

/-- `%-d`, with an argument. -/
def minusFirst : List Item :=
  [.conversion ⟨[.minus], .none, .none, .none, .integer .d 1⟩]

/-- `%5d`, with an argument. -/
def fiveWide : List Item :=
  [.conversion ⟨[], .number 4 [], .none, .none, .integer .d 2⟩]

/-- **A minus that is left** by `%-d` pads the text of `%5d` on the right. -/
theorem minus_left :
    Prints .lp64 (formatOf minusFirst) (argsOf minusFirst) ['1']
      ∧ Prints .lp64 (formatOf fiveWide) (argsOf fiveWide) [' ', ' ', ' ', ' ', '2']
      ∧ ¬ Prints .lp64 ((formatOf minusFirst).append (formatOf fiveWide))
        (argsOf minusFirst ++ argsOf fiveWide) ['1', ' ', ' ', ' ', ' ', '2'] := by
  rw [← formatOf_append, ← argsOf_append, prints_iff, prints_iff, prints_iff]
  decide +kernel

/-- `%x`, with an argument. -/
def hexadecimal : List Item :=
  [.conversion ⟨[], .none, .none, .none, .integer .x 255⟩]

/-- Without a width, nothing is padded. -/
theorem minus_left_hexadecimal :
    Prints .lp64 ((formatOf minusFirst).append (formatOf hexadecimal))
      (argsOf minusFirst ++ argsOf hexadecimal) ['1', 'f', 'f'] := by
  have hminus : Prints .lp64 (formatOf minusFirst) (argsOf minusFirst) ['1'] := by
    rw [prints_iff]
    decide +kernel
  have hhex : Prints .lp64 (formatOf hexadecimal) (argsOf hexadecimal) ['f', 'f'] := by
    rw [prints_iff]
    decide +kernel
  exact (concatenation_iff .lp64 minusFirst hexadecimal hminus hhex).mpr (by decide +kernel)

end PbEntityDb.Format
