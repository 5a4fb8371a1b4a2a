import PbEntityDb.Format.Items
import PbEntityDb.Library.Padding

/-!
What flags change of a general conversion.

* `fmtintLayout` is what `fmtint` arranges around the digits: spaces, a sign, a prefix,
  zeros and separators. Two texts of one number are equal only if their layouts are
  (`fmtintText_iff`), where a space for a sign is a space in front (`Layout.normal`).
* `Operand.Same` says, of the flags, the width, the precision and the argument, when two
  settings of the flags print the same (`Operand.text_iff`).
-/

namespace PbEntityDb.Format

open Padding

/-! ### The layout of an integer -/

/-- What is arranged around the digits. -/
structure Layout where
  before : ℕ
  sign : Text
  hexmark : Text
  zeros : ℕ
  separators : ℕ
  behind : ℕ
  deriving DecidableEq, Repr

/-- A space for a sign is one of the spaces in front. -/
def Layout.normal (l : Layout) : Layout :=
  if l.sign = [' '] then { l with before := l.before + 1, sign := [] } else l

/-- The number that `fmtint` prints. -/
def magnitude (value : BitVec 64) (flags : Flags) : ℕ :=
  if flags.unsigned then value.toNat else value.toInt.natAbs

/-- Its digits. -/
def digitsOf (value : BitVec 64) (base : ℕ) (flags : Flags) : Text :=
  (convert base flags.up maxConvertLength (magnitude value flags)).reverse

/-- The layout of `fmtint`. -/
def fmtintLayout (value : BitVec 64) (base : ℕ) (width precision : ℤ) (flags : Flags) : Layout :=
  let uvalue := magnitude value flags
  let sign : Text :=
    if flags.unsigned then []
    else if value.toInt < 0 then ['-']
    else if flags.plus then ['+']
    else if flags.space then [' ']
    else []
  let pos := (convert base flags.up maxConvertLength uvalue).length
  let noprecision := precision = -1
  let precision := if flags.num ∧ uvalue ≠ 0 ∧ base = 8 ∧ precision ≤ pos then (pos : ℤ) + 1
    else precision
  let hexmark : Text :=
    if flags.num ∧ uvalue ≠ 0 ∧ base = 16 then ['0', if flags.up then 'X' else 'x'] else []
  let separators := if flags.quote then getnumsep pos else 0
  let zpadlen := (precision - pos - separators).toNat
  let spadlen := (width - separators - max precision pos - sign.length - hexmark.length).toNat
  if flags.minus then ⟨0, sign, hexmark, zpadlen, separators, spadlen⟩
  else if flags.zero ∧ noprecision then ⟨0, sign, hexmark, zpadlen + spadlen, separators, 0⟩
  else ⟨spadlen, sign, hexmark, zpadlen, separators, 0⟩

/-- What is not a space in a text with a layout. -/
def Layout.core (l : Layout) (digits : Text) : Text :=
  l.sign ++ (l.hexmark ++ (List.replicate l.zeros '0' ++ digitsText l.separators digits))

/-- The text with a layout. -/
def Layout.text (l : Layout) (digits : Text) : Text :=
  List.replicate l.before ' ' ++ (l.core digits ++ List.replicate l.behind ' ')

/-- **`fmtint` prints its layout.** -/
lemma fmtintText_eq (value : BitVec 64) (base : ℕ) (width precision : ℤ) (flags : Flags) :
    fmtintText value base width precision flags
      = (fmtintLayout value base width precision flags).text (digitsOf value base flags) := by
  rw [fmtintText, fmtintLayout, digitsOf, magnitude]
  dsimp only
  cases flags.minus with
  | true => simp only [if_true, Layout.text, Layout.core, List.append_assoc]
  | false =>
      simp only [Bool.false_eq_true, if_false]
      split
      · simp only [Layout.text, Layout.core, List.append_assoc]
      · simp only [Layout.text, Layout.core, List.append_assoc]

lemma Layout.normal_text (l : Layout) (digits : Text) : l.normal.text digits = l.text digits := by
  rw [Layout.normal]
  split
  · rename_i hsign
    rw [Layout.text, Layout.text, Layout.core, Layout.core, hsign, List.replicate_succ',
      List.append_assoc]
    rfl
  · rfl

/-! ### Texts determine layouts -/

/-- The characters of digits. -/
def digitChars : Text := "0123456789ABCDEFabcdef".toList

lemma convertDigit_mem (caps : Bool) (d : ℕ) : convertDigit caps d ∈ digitChars := by
  rw [convertDigit]
  by_cases hd : d < 16
  · interval_cases d <;> cases caps <;> decide
  · cases caps with
    | true =>
        rw [if_pos rfl, List.getD_eq_getElem?_getD, List.getElem?_eq_none (by simpa using hd)]
        decide
    | false =>
        rw [if_neg (by simp), List.getD_eq_getElem?_getD,
          List.getElem?_eq_none (by simpa using hd)]
        decide

lemma mem_convert {base : ℕ} {caps : Bool} {size n : ℕ} {c : Char}
    (h : c ∈ convert base caps size n) : c ∈ digitChars := by
  induction size generalizing n with
  | zero => cases h
  | succ size ih =>
      rw [convert, List.mem_cons] at h
      rcases h with rfl | h
      · exact convertDigit_mem caps _
      · split at h
        · exact ih h
        · cases h

lemma mem_digitsText {s : ℕ} {t : Text} {c : Char} (h : c ∈ digitsText s t) :
    c ∈ t ∨ c = ',' ∧ 0 < s := by
  induction t with
  | nil => cases h
  | cons d t ih =>
      rw [digitsText, List.mem_cons, List.mem_append] at h
      rcases h with rfl | h | h
      · exact .inl List.mem_cons_self
      · split at h
        · rename_i hcomma
          exact .inr ⟨List.mem_singleton.mp h, hcomma.1⟩
        · cases h
      · exact (ih h).imp_left (List.mem_cons_of_mem d)

lemma comma_mem {s : ℕ} (hs : 0 < s) {t : Text} (ht : 4 ≤ t.length) : ',' ∈ digitsText s t := by
  induction t with
  | nil => simp at ht
  | cons d t ih =>
      rw [List.length_cons] at ht
      rw [digitsText]
      by_cases hgroup : t.length % 3 = 0
      · rw [if_pos ⟨hs, by omega, hgroup⟩]
        simp
      · have hlen : 4 ≤ t.length := by omega
        exact List.mem_cons_of_mem d (List.mem_append_right _ (ih hlen))

lemma digitsText_ne_nil (s : ℕ) {t : Text} (h : t ≠ []) : digitsText s t ≠ [] := by
  cases t with
  | nil => exact absurd rfl h
  | cons d t => simp [digitsText]

/-- A layout that `fmtint` can have for a number of digits. -/
structure Layout.Possible (caps : Bool) (pos : ℕ) (l : Layout) : Prop where
  sign : l.sign = [] ∨ l.sign = ['-'] ∨ l.sign = ['+']
  hexmark : l.hexmark = [] ∨ l.hexmark = ['0', if caps then 'X' else 'x']
  separators : l.separators = 0 ∨ l.separators = getnumsep pos

namespace Layout

variable {caps : Bool} {digits : Text} {l l' : Layout}

lemma space_notMem_core (hdigits : ∀ c ∈ digits, c ∈ digitChars)
    (h : Possible caps digits.length l) : ' ' ∉ l.core digits := by
  intro hmem
  rw [core, List.mem_append, List.mem_append, List.mem_append] at hmem
  rcases hmem with hmem | hmem | hmem | hmem
  · rcases h.sign with hsign | hsign | hsign
    all_goals
      rw [hsign] at hmem
      simp at hmem
  · rcases h.hexmark with hmark | hmark
    all_goals
      rw [hmark] at hmem
      cases caps <;> simp at hmem
  · cases List.eq_of_mem_replicate hmem
  · rcases mem_digitsText hmem with hmem | ⟨hcomma, -⟩
    · exact absurd (hdigits _ hmem) (by decide)
    · cases hcomma

/-- A character that is no digit, in the rest of a text behind its sign or prefix. -/
lemma mem_rest {c : Char} (hdigits : ∀ c ∈ digits, c ∈ digitChars) (hc : c ∉ digitChars)
    (hcomma : c ≠ ',') : c ∉ List.replicate l.zeros '0' ++ digitsText l.separators digits := by
  intro hmem
  rw [List.mem_append] at hmem
  rcases hmem with hmem | hmem
  · rw [List.eq_of_mem_replicate hmem] at hc
    exact hc (by decide)
  · rcases mem_digitsText hmem with hmem | ⟨heq, -⟩
    · exact hc (hdigits _ hmem)
    · exact hcomma heq

lemma mem_core_iff {c : Char} (hdigits : ∀ c ∈ digits, c ∈ digitChars)
    (h : Possible caps digits.length l) (hc : c = '+' ∨ c = '-') :
    c ∈ l.core digits ↔ c ∈ l.sign := by
  have hrest : c ∉ List.replicate l.zeros '0' ++ digitsText l.separators digits := by
    rcases hc with rfl | rfl
    · exact mem_rest hdigits (by decide) (by decide)
    · exact mem_rest hdigits (by decide) (by decide)
  have hmark : c ∉ l.hexmark := by
    rcases h.hexmark with hmark | hmark
    all_goals
      rw [hmark]
      rcases hc with rfl | rfl
      all_goals cases caps <;> simp
  rw [core, List.mem_append, List.mem_append, or_iff_left (not_or.mpr ⟨hmark, hrest⟩)]

lemma comma_iff (hdigits : ∀ c ∈ digits, c ∈ digitChars) (h : Possible caps digits.length l) :
    ',' ∈ List.replicate l.zeros '0' ++ digitsText l.separators digits ↔ 0 < l.separators := by
  constructor
  · intro hmem
    rcases List.mem_append.mp hmem with hmem | hmem
    · cases List.eq_of_mem_replicate hmem
    · rcases mem_digitsText hmem with hmem | ⟨-, hpos⟩
      · exact absurd (hdigits _ hmem) (by decide)
      · exact hpos
  · intro hpos
    refine List.mem_append_right _ (comma_mem hpos ?_)
    rcases h.separators with hzero | hsep
    · omega
    · rw [hsep, getnumsep] at hpos
      split at hpos <;> omega

/-- **Equal texts have equal layouts.** -/
theorem text_injective (hne : digits ≠ []) (hdigits : ∀ c ∈ digits, c ∈ digitChars)
    (h : Possible caps digits.length l) (h' : Possible caps digits.length l')
    (heq : l.text digits = l'.text digits) : l = l' := by
  have hcore : ∀ l : Layout, l.core digits ≠ [] := by
    intro l hnil
    simp only [core, List.append_eq_nil_iff] at hnil
    exact digitsText_ne_nil _ hne hnil.2.2.2
  obtain ⟨hbefore, heq, hbehind⟩ := padded_injective (hcore l) (hcore l')
    (space_notMem_core hdigits h) (space_notMem_core hdigits h') heq
  -- the sign
  have hsign : l.sign = l'.sign := by
    have hplus := mem_core_iff hdigits h (.inl rfl)
    have hplus' := mem_core_iff hdigits h' (.inl rfl)
    have hminus := mem_core_iff hdigits h (.inr rfl)
    have hminus' := mem_core_iff hdigits h' (.inr rfl)
    rw [heq] at hplus hminus
    have hsame := hplus.symm.trans hplus'
    have hsame' := hminus.symm.trans hminus'
    rcases h.sign with hs | hs | hs
    all_goals
      rcases h'.sign with hs' | hs' | hs'
      all_goals
        rw [hs, hs'] at hsame hsame' ⊢
        try simp at hsame hsame'
  rw [core, core, hsign] at heq
  have heq := List.append_cancel_left heq
  -- the prefix
  have hmark : l.hexmark = l'.hexmark := by
    have hmem : ∀ l : Layout, (if caps then 'X' else 'x') ∈ l.hexmark
        ++ (List.replicate l.zeros '0' ++ digitsText l.separators digits)
          ↔ (if caps then 'X' else 'x') ∈ l.hexmark := by
      intro l
      have hrest : (if caps then 'X' else 'x')
          ∉ List.replicate l.zeros '0' ++ digitsText l.separators digits := by
        cases caps
        · exact mem_rest hdigits (by decide) (by decide)
        · exact mem_rest hdigits (by decide) (by decide)
      rw [List.mem_append, or_iff_left hrest]
    have hsame := hmem l
    rw [heq, hmem l'] at hsame
    rcases h.hexmark with hp | hp
    all_goals
      rcases h'.hexmark with hp' | hp'
      all_goals
        rw [hp, hp'] at hsame ⊢
        try simp at hsame
  rw [hmark] at heq
  have heq := List.append_cancel_left heq
  -- the separators
  have hseparators : l.separators = l'.separators := by
    have hiff : 0 < l.separators ↔ 0 < l'.separators := by
      rw [← comma_iff hdigits h, ← comma_iff hdigits h', heq]
    rcases h.separators with hzero | hsep
    · omega
    · rcases h'.separators with hzero' | hsep'
      · omega
      · rw [hsep, hsep']
  rw [hseparators] at heq
  have hzeros : l.zeros = l'.zeros := by
    simpa using congrArg List.length heq
  cases l
  cases l'
  simp_all

end Layout

/-! ### Integers -/

section Integers

variable {value : BitVec 64} {base : ℕ} {width precision : ℤ} {flags flags' : Flags}

lemma digitsOf_mem {c : Char} (h : c ∈ digitsOf value base flags) : c ∈ digitChars :=
  mem_convert (List.mem_reverse.mp h)

lemma digitsOf_ne_nil : digitsOf value base flags ≠ [] := by
  rw [digitsOf, maxConvertLength, convert]
  simp

lemma layout_possible :
    (fmtintLayout value base width precision flags).normal.Possible flags.up
      (digitsOf value base flags).length := by
  -- the three ways to pad have these in common
  have hsign : (fmtintLayout value base width precision flags).sign
      ∈ [[], ['-'], ['+'], [' ']] := by
    rw [fmtintLayout]
    split_ifs <;> simp
  have hmark : (fmtintLayout value base width precision flags).hexmark
      ∈ [[], ['0', if flags.up then 'X' else 'x']] := by
    rw [fmtintLayout]
    split_ifs <;> simp
  have hseparators : (fmtintLayout value base width precision flags).separators
      ∈ [0, getnumsep (digitsOf value base flags).length] := by
    rw [fmtintLayout, digitsOf, List.length_reverse]
    split_ifs <;> simp
  rw [Layout.normal]
  split
  · exact ⟨.inl rfl, by simpa using hmark, by simpa using hseparators⟩
  · rename_i hblank
    exact ⟨by simpa [hblank] using hsign, by simpa using hmark, by simpa using hseparators⟩

/-- **When `fmtint` prints the same** with other flags. -/
theorem fmtintText_iff (hup : flags.up = flags'.up) (hunsigned : flags.unsigned = flags'.unsigned) :
    fmtintText value base width precision flags = fmtintText value base width precision flags'
      ↔ (fmtintLayout value base width precision flags).normal
        = (fmtintLayout value base width precision flags').normal := by
  have hdigits : digitsOf value base flags = digitsOf value base flags' := by
    rw [digitsOf, digitsOf, magnitude, magnitude, hup, hunsigned]
  have hpossible := @layout_possible value base width precision flags
  rw [hup, hdigits] at hpossible
  rw [fmtintText_eq, fmtintText_eq, ← Layout.normal_text,
    ← Layout.normal_text _ (digitsOf _ _ flags'), hdigits]
  refine ⟨fun h => ?_, fun h => by rw [h]⟩
  exact Layout.text_injective digitsOf_ne_nil (fun _ => digitsOf_mem) hpossible layout_possible h

end Integers

/-! ### Strings -/

/-- The characters of a string that are printed. -/
def shown (value : Option CString) (precision : ℤ) : Text :=
  let value := value.elim "(null)".toList CString.chars
  if precision = -1 then value else value.take precision.toNat

/-- **When `fmtstr` prints the same** with other flags. -/
theorem fmtstrText_iff (value : Option CString) (width precision : ℤ) (flags flags' : Flags) :
    fmtstrText value width precision flags = fmtstrText value width precision flags'
      ↔ flags.minus = flags'.minus ∨ width ≤ (shown value precision).length
        ∨ ∀ c ∈ shown value precision, c = ' ' := by
  have htext : ∀ flags : Flags, fmtstrText value width precision flags
      = if flags.minus then shown value precision
          ++ List.replicate (width - (shown value precision).length).toNat ' '
        else List.replicate (width - (shown value precision).length).toNat ' '
          ++ shown value precision := fun _ => rfl
  have hpad : (width - (shown value precision).length).toNat = 0
      ↔ width ≤ (shown value precision).length := by omega
  rw [htext, htext, ← hpad]
  cases flags.minus with
  | true =>
      cases flags'.minus with
      | true => simp
      | false => simpa using commute_replicate _ _
  | false =>
      cases flags'.minus with
      | true => simpa using eq_comm.trans (commute_replicate _ _)
      | false => simp

/-! ### Conversions -/

/-- When two settings of the flags print the same of an argument. -/
def Operand.Same (abi : Abi) (m : Modifier) (width precision : ℤ) (flags flags' : Flags) :
    Operand → Prop
  | integer k w =>
      (fmtintLayout (m.value abi k.signed w) k.base width precision (k.flags flags)).normal
        = (fmtintLayout (m.value abi k.signed w) k.base width precision (k.flags flags')).normal
  | string s => flags.minus = flags'.minus ∨ width ≤ (shown s precision).length
      ∨ ∀ c ∈ shown s precision, c = ' '
  | _ => True

instance (abi : Abi) (m : Modifier) (width precision : ℤ) (flags flags' : Flags) (o : Operand) :
    Decidable (o.Same abi m width precision flags flags') :=
  match o with
  | .integer _ _ => inferInstanceAs (Decidable (_ = _))
  | .string _ => inferInstanceAs (Decidable (_ ∨ _ ∨ _))
  | .char _ => isTrue trivial
  | .percent => isTrue trivial

lemma Operand.text_iff {abi : Abi} {m : Modifier} {width precision : ℤ} {flags flags' : Flags}
    (hup : flags.up = flags'.up) (hunsigned : flags.unsigned = flags'.unsigned) (o : Operand) :
    o.text abi m width precision flags = o.text abi m width precision flags'
      ↔ o.Same abi m width precision flags flags' := by
  cases o with
  | integer k w =>
      refine fmtintText_iff ?_ ?_
      · rw [IntKind.flags, IntKind.flags]
        split
        · exact hup
        · dsimp only
          rw [hup]
      · rw [IntKind.flags, IntKind.flags]
        split
        · exact hunsigned
        · rfl
  | char w => exact iff_of_true rfl trivial
  | string s => exact fmtstrText_iff s width precision flags flags'
  | percent => exact iff_of_true rfl trivial

end PbEntityDb.Format
