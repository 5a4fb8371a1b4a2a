import PbEntityDb.Format.Turns
import PbEntityDb.Library.Numerals

/-!
The integer conversions that were added, against `fmtint`.

* `decimal` is the text of a natural number. `convert` and the table of three digits
  both give it (`convert_eq`, `scratchLoop_eq`).
* `fastInteger_text`, `fastInteger_zero` and `fastInteger_min` are the three ends of a
  block.
* `fast_iff`: for which values a block prints what `fmtint` prints, and leaves the text
  behind the conversion as it is.
* `modifier_printed`: a zero for `%ld`, behind which the `d` is printed.
-/

namespace PbEntityDb.Format

open Numerals

/-! ### Decimals -/

/-- The text of a natural number. -/
def decimal (n : ℕ) : Text := (numeral 10 n).map Nat.digitChar

/-- The text of an integer. -/
def intText (v : ℤ) : Text := (if v < 0 then ['-'] else []) ++ decimal v.natAbs

lemma decimal_of_ne_zero {n : ℕ} (h : n ≠ 0) :
    decimal n = ((Nat.digits 10 n).reverse).map Nat.digitChar := by
  rw [decimal, numeral, if_neg h]

lemma convertDigit_eq {d : ℕ} (h : d < 10) : convertDigit false d = Nat.digitChar d := by
  interval_cases d <;> rfl

/-- **`convert`** gives the digits in reverse order, in a buffer that is long enough. -/
lemma convert_eq {base : ℕ} (hb : 1 < base) (caps : Bool) {size n : ℕ} (h : n < base ^ (size + 1)) :
    (convert base caps (size + 1) n).reverse = (numeral base n).map (convertDigit caps) := by
  induction size generalizing n with
  | zero =>
      have hdiv : n / base = 0 := by
        rw [zero_add, pow_one] at h
        exact Nat.div_eq_of_lt h
      have hmod : n % base = n := Nat.mod_eq_of_lt (by simpa using h)
      rw [convert, hdiv, if_neg (by simp), hmod, numeral]
      split
      · rename_i hzero
        rw [hzero]
        rfl
      · rename_i hne
        rw [Nat.digits_of_lt base n hne (by simpa using h)]
        rfl
  | succ size ih =>
      rw [convert]
      by_cases hdiv : n / base = 0
      · have hlt : n < base := (Nat.div_eq_zero_iff.mp hdiv).resolve_left (by omega)
        rw [if_neg (not_not.mpr hdiv), Nat.mod_eq_of_lt hlt, numeral]
        split
        · rename_i hzero
          rw [hzero]
          rfl
        · rename_i hne
          rw [Nat.digits_of_lt base n hne hlt]
          rfl
      · have hlt : n / base < base ^ (size + 1) :=
          Nat.div_lt_of_lt_mul (by rwa [mul_comm, ← pow_succ])
        have hne : n ≠ 0 := by
          rintro rfl
          simp at hdiv
        rw [if_pos hdiv, List.reverse_cons, ih hlt, numeral, numeral, if_neg hdiv, if_neg hne,
          Nat.digits_def' hb (Nat.pos_of_ne_zero hne), List.reverse_cons, List.map_append]
        rfl

/-- `convert` for a number with 64 bits, in the base of the decimals. -/
lemma convert_decimal {n : ℕ} (h : n < 2 ^ 64) :
    (convert 10 false maxConvertLength n).reverse = decimal n := by
  have hlt : n < 10 ^ maxConvertLength := h.trans (by norm_num [maxConvertLength])
  rw [maxConvertLength, convert_eq (by omega) false hlt, decimal]
  refine List.map_congr_left fun d hd => convertDigit_eq ?_
  rw [numeral] at hd
  split at hd
  · rw [List.mem_singleton.mp hd]
    omega
  · exact Nat.digits_lt_base (by omega) (List.mem_reverse.mp hd)

/-- An entry of the table. -/
lemma atoiTab_eq {i : ℕ} (h : i < 1000) :
    atoiTab i = .ok ((padded 10 3 i).map Nat.digitChar) := by
  rw [atoiTab, if_pos ⟨by omega, by omega⟩, Int.toNat_natCast]
  have hpadded : padded 10 3 i = [i / 10 / 10 % 10, i / 10 % 10, i % 10] := rfl
  have hfirst : i / 10 / 10 % 10 = i / 100 := by omega
  rw [hpadded, hfirst]
  rfl

/-- **The loop over the table** writes the digits in groups of three. -/
lemma scratchLoop_eq {room n : ℕ} (hn : n ≠ 0) (h : n < 1000 ^ room) (s : Text) :
    scratchLoop room n s = .ok ((grouped 10 3 n).map Nat.digitChar ++ s) := by
  induction room generalizing n s with
  | zero =>
      rw [pow_zero] at h
      omega
  | succ room ih =>
      have hdiv : ((n : ℤ)).tdiv 1000 = ((n / 1000 : ℕ) : ℤ) := by
        rw [Int.tdiv_eq_ediv_of_nonneg (by omega)]
        rfl
      have hentry : (n : ℤ) - 1000 * ((n / 1000 : ℕ) : ℤ) = ((n % 1000 : ℕ) : ℤ) := by omega
      have hgroup : grouped 10 3 n = grouped 10 3 (n / 1000) ++ padded 10 3 (n % 1000) := by
        rw [grouped, Nat.digits_def' (by norm_num) (Nat.pos_of_ne_zero hn), List.reverse_cons,
          List.map_append, List.flatten_append]
        simp [grouped]
      rw [scratchLoop, hdiv, hentry, atoiTab_eq (by omega)]
      simp only [bind, Except.bind]
      by_cases hlt : n / 1000 = 0
      · rw [if_neg (by omega), hgroup, hlt]
        simp [grouped]
      · have hnext : n / 1000 < 1000 ^ room :=
          Nat.div_lt_of_lt_mul (by rwa [mul_comm, ← pow_succ])
        rw [if_pos (by omega), ih hlt hnext, hgroup, List.map_append, List.append_assoc]

/-- The digits in `scratch_buffer` without the leading zeros. -/
lemma dropWhile_scratch {n : ℕ} (hn : n ≠ 0) :
    ((grouped 10 3 n).map Nat.digitChar).dropWhile (· = '0') = decimal n := by
  have hcomp : ((fun c : Char => decide (c = '0')) ∘ Nat.digitChar) = fun d => decide (d = 0) := by
    funext d
    simp
  rw [List.dropWhile_map, hcomp, dropWhile_grouped (by omega) (by omega), decimal_of_ne_zero hn]

lemma decimal_ne_nil (n : ℕ) : decimal n ≠ [] := by
  by_cases hn : n = 0
  · subst hn
    decide
  · rw [decimal_of_ne_zero hn]
    simp [Nat.digits_eq_nil_iff_eq_zero, hn]

lemma length_decimal_pos (n : ℕ) : 0 < (decimal n).length :=
  List.length_pos_iff.mpr (decimal_ne_nil n)

/-! ### Values -/

section Values

variable (abi : Abi) (signed : Bool) (type : CType) (w : BitVec 64)

lemma bits_eq : abi.bits type = 32 ∨ abi.bits type = 64 := by
  cases abi <;> cases type <;> simp [Abi.bits]

/-- The value is the minimum of its type, which is signed. -/
def IsMinimum : Prop := argValue abi signed type w = -2 ^ (abi.bits type - 1)

instance : Decidable (IsMinimum abi signed type w) :=
  inferInstanceAs (Decidable (_ = _))

variable {abi signed type w}

lemma argValue_unsigned_nonneg : 0 ≤ argValue abi false type w := Int.natCast_nonneg _

lemma natAbs_argValue_lt : (argValue abi signed type w).natAbs < 2 ^ 64 := by
  rcases bits_eq abi type with hbits | hbits
  all_goals
    rw [argValue, hbits]
    split
    · have hlow := BitVec.le_toInt (w.setWidth (abi.bits type))
      have hhigh := @BitVec.toInt_lt _ (w.setWidth (abi.bits type))
      rw [hbits] at hlow hhigh
      omega
    · have hhigh := (w.setWidth (abi.bits type)).isLt
      rw [hbits] at hhigh
      omega

/-- The negation of any other value. -/
lemma negated_eq (h : ¬ IsMinimum abi true type w) :
    negated abi type w = -argValue abi true type w := by
  rw [negated, argValue, if_pos rfl, BitVec.toInt_neg_of_ne_intMin]
  intro hmin
  refine h ?_
  rw [IsMinimum, argValue, if_pos rfl, hmin]
  rcases bits_eq abi type with hbits | hbits
  all_goals
    rw [hbits]
    decide

/-- The negation of the minimum. -/
lemma negated_min (h : IsMinimum abi true type w) :
    negated abi type w = -2 ^ (abi.bits type - 1) := by
  rw [IsMinimum, argValue, if_pos rfl] at h
  rw [negated]
  rcases bits_eq abi type with hbits | hbits
  all_goals
    rw [hbits] at h ⊢
    rw [BitVec.toInt_neg, h]
    decide

/-- The minimum leads out of the table. -/
lemma scratchLoop_min (h : IsMinimum abi true type w) (s : Text) :
    scratchLoop scratchRoom (negated abi type w) s = .error .table := by
  rw [negated_min h]
  rcases bits_eq abi type with hbits | hbits
  all_goals
    rw [hbits]
    rfl

/-- Any other value leads to its digits. -/
lemma scratchLoop_value (hzero : argValue abi signed type w ≠ 0)
    (hmin : ¬ IsMinimum abi signed type w) :
    scratchLoop scratchRoom (if argValue abi signed type w < 0 then negated abi type w
      else argValue abi signed type w) []
        = .ok ((grouped 10 3 (argValue abi signed type w).natAbs).map Nat.digitChar) := by
  have habs : (if argValue abi signed type w < 0 then negated abi type w
      else argValue abi signed type w) = ((argValue abi signed type w).natAbs : ℤ) := by
    split
    · rename_i hneg
      cases signed with
      | false => exact absurd hneg (not_lt.mpr argValue_unsigned_nonneg)
      | true =>
          rw [negated_eq hmin]
          omega
    · omega
  have hlt : (argValue abi signed type w).natAbs < 1000 ^ scratchRoom :=
    natAbs_argValue_lt.trans (by norm_num [scratchRoom])
  rw [habs, scratchLoop_eq (by omega) hlt, List.append_nil]

end Values

/-! ### The blocks -/

section Blocks

variable {abi : Abi} {signed : Bool} {type : CType} {w : BitVec 64} {args : List Arg}
  {behindCh after text rest : Text} {p : Printer}

/-- **A block prints its value**, unless it is zero or the minimum. -/
lemma fastInteger_text (hout : p.out = .holding text rest) (hargs : p.args = .word type w :: args)
    (hzero : argValue abi signed type w ≠ 0) (hmin : ¬ IsMinimum abi signed type w)
    (hroom : (intText (argValue abi signed type w)).length < rest.length) :
    fastInteger abi signed type behindCh after p
      = .ok (.next { p with
        out := .holding (text ++ intText (argValue abi signed type w))
          (rest.drop (intText (argValue abi signed type w)).length)
        args := args, state := .default, format := after }) := by
  have hscratch := scratchLoop_value hzero hmin
  have hstrip := dropWhile_scratch (n := (argValue abi signed type w).natAbs) (by omega)
  have hpos := length_decimal_pos (argValue abi signed type w).natAbs
  rw [intText] at hroom ⊢
  rw [fastInteger, hargs, vaWord, if_pos rfl]
  simp only [bind, Except.bind, hout, Output.size_holding, Output.len_holding, hscratch]
  by_cases hneg : argValue abi signed type w < 0
  · simp only [hneg, if_true, List.length_append, List.length_singleton] at hroom ⊢
    rw [if_neg (by omega), if_neg hzero, Output.minus, if_pos trivial,
      Output.put_holding text '-' (by omega)]
    dsimp only
    rw [Output.digits_holding _ _ (by rw [hstrip, List.length_tail]; omega), hstrip,
      Output.append_tail]
    simp [Nat.add_comm]
  · simp only [hneg, if_false, List.nil_append] at hroom ⊢
    rw [if_neg (by omega), if_neg hzero, Output.minus, if_neg not_false]
    dsimp only
    rw [Output.digits_holding _ _ (by rw [hstrip]; omega), hstrip]

/-- **For zero** a block goes on behind `ch`. -/
lemma fastInteger_zero (hout : p.out = .holding text rest) (hargs : p.args = .word type w :: args)
    (hzero : argValue abi signed type w = 0) (hroom : 1 < rest.length) :
    fastInteger abi signed type behindCh after p
      = .ok (.next { p with
        out := .holding (text ++ ['0']) rest.tail
        args := args, state := .default, format := behindCh }) := by
  rw [fastInteger, hargs, vaWord, if_pos rfl]
  simp only [bind, Except.bind, hout, Output.size_holding, Output.len_holding, hzero]
  rw [if_neg (by omega), if_pos trivial, Output.put_holding text '0' (by omega)]

/-- **For the minimum** a block leaves the table. -/
lemma fastInteger_min (hout : p.out = .holding text rest) (hargs : p.args = .word type w :: args)
    (hmin : IsMinimum abi true type w) (hroom : 1 < rest.length) :
    fastInteger abi true type behindCh after p = .error .table := by
  have hneg : argValue abi true type w < 0 := by
    rw [hmin]
    rcases bits_eq abi type with hbits | hbits
    all_goals
      rw [hbits]
      decide
  rw [fastInteger, hargs, vaWord, if_pos rfl]
  simp only [bind, Except.bind, hout, Output.size_holding, Output.len_holding, hneg, if_true,
    scratchLoop_min hmin]
  rw [if_neg (by omega), if_neg hneg.ne, Output.minus, if_pos trivial,
    Output.put_holding text '-' (by omega)]

end Blocks

/-! ### The conversions and `fmtint` -/

/-- The conversions between `optimize begin` and `optimize end` that print integers. -/
inductive FastConversion where
  | d | i | u | ld | li | lu | lld | lli | llu
  deriving DecidableEq, Repr

namespace FastConversion

/-- The characters behind the percent sign. -/
def chars : FastConversion → Text
  | d => ['d']
  | i => ['i']
  | u => ['u']
  | ld => ['l', 'd']
  | li => ['l', 'i']
  | lu => ['l', 'u']
  | lld => ['l', 'l', 'd']
  | lli => ['l', 'l', 'i']
  | llu => ['l', 'l', 'u']

/-- The type of the argument is signed. -/
def signed : FastConversion → Bool
  | u | lu | llu => false
  | _ => true

/-- The type of the argument. -/
def type : FastConversion → CType
  | d | i | u => .int
  | ld | li | lu => .long
  | lld | lli | llu => .llong

/-- The value of the argument as an `INTMAX_T`, which `fmtint` is given. -/
def intmax (abi : Abi) (k : FastConversion) (w : BitVec 64) : BitVec 64 :=
  let value := w.setWidth (abi.bits k.type)
  if k.signed then value.signExtend 64 else value.setWidth 64

/-- The flags that `fmtint` is given. -/
def flags (k : FastConversion) : Flags := { Flags.none with unsigned := !k.signed }

/-- What `fmtint` prints of an argument in base 10, without width, precision and
flags. -/
def plainText (abi : Abi) (k : FastConversion) (w : BitVec 64) : Text :=
  fmtintText (k.intmax abi w) 10 0 (-1) k.flags

/-- The general conversion reads the same value. -/
lemma intmax_eq (abi : Abi) (k : FastConversion) (w : BitVec 64) (args : List Arg) :
    ∃ m : Modifier, m.type = k.type
      ∧ readValue abi k.signed m (.word k.type w :: args) = .ok (k.intmax abi w, args) := by
  cases k
  case d | i | u => exact ⟨.none, rfl, rfl⟩
  case ld | li | lu => exact ⟨.long, rfl, rfl⟩
  case lld | lli | llu => exact ⟨.llong, rfl, rfl⟩

/-- A character of a conversion is printed when it is left over. -/
lemma leftover_plain (k : FastConversion) : ∀ c ∈ k.chars.tail, c ≠ '%' ∧ c ≠ '\x00' := by
  cases k <;> simp [chars]

end FastConversion

lemma digitsText_zero (t : Text) : digitsText 0 t = t := by
  induction t with
  | nil => rfl
  | cons c t ih =>
      rw [digitsText, if_neg (by omega), ih]
      rfl

/-- **`fmtint` prints the value.** -/
lemma plainText_eq (abi : Abi) (k : FastConversion) (w : BitVec 64) :
    k.plainText abi w = intText (argValue abi k.signed k.type w) := by
  have hbits : abi.bits k.type ≤ 64 := by
    rcases bits_eq abi k.type with h | h <;> omega
  have hlt := @natAbs_argValue_lt abi k.signed k.type w
  have hpos : ∀ n, max (-1 : ℤ) ((convert 10 false maxConvertLength n).length : ℤ)
      = (convert 10 false maxConvertLength n).length := fun n => by omega
  rw [FastConversion.plainText, fmtintText, FastConversion.intmax, FastConversion.flags, intText]
  rw [argValue] at hlt ⊢
  cases hsigned : k.signed with
  | true =>
      simp only [hsigned, if_true] at hlt ⊢
      simp only [Flags.none, Bool.not_true, Bool.false_eq_true, if_false, false_and,
        BitVec.toInt_signExtend_of_le hbits, digitsText_zero, convert_decimal hlt, hpos,
        List.length_nil, Nat.cast_zero]
      split
      · simp
      · simp
  | false =>
      simp only [hsigned, Bool.false_eq_true, if_false] at hlt ⊢
      rw [Int.natAbs_natCast] at hlt ⊢
      simp only [Flags.none, Bool.not_false, if_true, Bool.false_eq_true, if_false, false_and,
        BitVec.toNat_setWidth_of_le hbits, digitsText_zero, convert_decimal hlt, hpos,
        List.length_nil, Nat.cast_zero]
      rw [if_neg (by omega)]
      simp

/-! ### Whole calls -/

/-- The loop behind the percent sign of a conversion. -/
def flagsAt (out : Output) (format : Text) (args : List Arg) (flags : Flags) : Printer :=
  { between out format args flags with state := .flags }

lemma run_percent (abi : Abi) (out : Output) (f : Text) (args : List Arg) (flags : Flags) :
    run abi (between out ('%' :: f) args flags) = run abi (flagsAt out f args flags) :=
  run_next rfl

/-- **The block of a conversion** is the one for its type. -/
lemma step_fast (abi : Abi) (k : FastConversion) (out : Output) (f : Text) (args : List Arg)
    (flags : Flags) :
    step abi (flagsAt out (k.chars ++ f) args flags)
      = fastInteger abi k.signed k.type (k.chars.tail ++ f) f
          (flagsAt out (k.chars ++ f) args flags) := by
  cases k <;> rfl

section Fast

variable {abi : Abi} {k : FastConversion} {w : BitVec 64} (text f : Text) {rest : Text}
  (args : List Arg) (flags : Flags)

lemma run_fast_text (hzero : argValue abi k.signed k.type w ≠ 0)
    (hmin : ¬ IsMinimum abi k.signed k.type w)
    (hroom : (intText (argValue abi k.signed k.type w)).length < rest.length) :
    run abi (flagsAt (.holding text rest) (k.chars ++ f) (.word k.type w :: args) flags)
      = run abi (ready (text ++ intText (argValue abi k.signed k.type w))
        (rest.drop (intText (argValue abi k.signed k.type w)).length) f args flags) := by
  exact run_next ((step_fast ..).trans (fastInteger_text rfl rfl hzero hmin hroom))

lemma run_fast_zero (hzero : argValue abi k.signed k.type w = 0) (hroom : 1 < rest.length) :
    run abi (flagsAt (.holding text rest) (k.chars ++ f) (.word k.type w :: args) flags)
      = run abi (ready (text ++ ['0']) rest.tail (k.chars.tail ++ f) args flags) := by
  exact run_next ((step_fast ..).trans (fastInteger_zero rfl rfl hzero hroom))

lemma run_fast_min (hmin : IsMinimum abi k.signed k.type w) (hroom : 1 < rest.length) :
    run abi (flagsAt (.holding text rest) (k.chars ++ f) (.word k.type w :: args) flags)
      = .error .table := by
  have hstep := step_fast abi k (.holding text rest) f (.word k.type w :: args) flags
  cases hsigned : k.signed with
  | false =>
      -- no unsigned value is negative
      rw [hsigned] at hmin
      have hnonneg := @argValue_unsigned_nonneg abi k.type w
      rw [hmin] at hnonneg
      rcases bits_eq abi k.type with hbits | hbits
      all_goals
        rw [hbits] at hnonneg
        exact absurd hnonneg (by decide)
  | true =>
      rw [hsigned] at hmin hstep
      exact run_error (hstep.trans (fastInteger_min rfl rfl hmin hroom))

end Fast

/-- A conversion between two texts. -/
def fastFormat (before : Literal) (k : FastConversion) (after : Literal) : CString where
  chars := before.chars ++ '%' :: (k.chars ++ after.chars)
  nul_free := by
    have hbefore : '\x00' ∉ before.chars := fun h => (before.plain _ h).2 rfl
    have hafter : '\x00' ∉ after.chars := fun h => (after.plain _ h).2 rfl
    cases k <;> simp [FastConversion.chars, hbefore, hafter]

section Conversion

variable {abi : Abi} {k : FastConversion} {w : BitVec 64} (before after : Literal)

/-- The loop in front of the block. -/
lemma run_fastFormat (args : List Arg) {buf : Text} (h : before.chars.length < buf.length) :
    run abi (ready [] buf (fastFormat before k after).chars args .none)
      = run abi (flagsAt (.holding before.chars (buf.drop before.chars.length))
          (k.chars ++ after.chars) args .none) := by
  rw [fastFormat, run_literal before [] _ .none h, run_percent, List.nil_append]

/-- **An ordinary value** is printed, and the text behind it. -/
lemma prints_value (hzero : argValue abi k.signed k.type w ≠ 0)
    (hmin : ¬ IsMinimum abi k.signed k.type w) :
    Prints abi (fastFormat before k after) [.word k.type w]
      (before.chars ++ intText (argValue abi k.signed k.type w) ++ after.chars) := by
  refine prints_of_run fun buf hbuf => ?_
  set t := intText (argValue abi k.signed k.type w) with ht
  simp only [List.length_append] at hbuf
  have hrun : run abi (ready [] buf (fastFormat before k after).chars [.word k.type w] .none)
      = run abi (ready (before.chars ++ t ++ after.chars)
        (((buf.drop before.chars.length).drop t.length).drop after.chars.length) [] [] .none) := by
    rw [run_fastFormat before after _ (by omega),
      run_fast_text _ _ _ _ hzero hmin (by rw [List.length_drop, ← ht]; omega), ← ht,
      ← run_literal after _ [] _ (by simp only [List.length_drop]; omega), List.append_nil]
  refine ⟨_, [], .none, ?_, hrun⟩
  simp only [List.length_drop]
  omega

/-- **For zero** the rest of the conversion is printed behind it. -/
lemma prints_zero (hzero : argValue abi k.signed k.type w = 0) :
    Prints abi (fastFormat before k after) [.word k.type w]
      (before.chars ++ ['0'] ++ k.chars.tail ++ after.chars) := by
  refine prints_of_run fun buf hbuf => ?_
  have hleft := k.leftover_plain
  generalize hmodifier : k.chars.tail = modifier at hbuf hleft ⊢
  simp only [List.length_append, List.length_singleton] at hbuf
  have hrun : run abi (ready [] buf (fastFormat before k after).chars [.word k.type w] .none)
      = run abi (ready (before.chars ++ ['0'] ++ modifier ++ after.chars)
        (((buf.drop before.chars.length).tail.drop modifier.length).drop after.chars.length) [] []
          .none) := by
    rw [run_fastFormat before after _ (by omega),
      run_fast_zero _ _ _ _ hzero (by rw [List.length_drop]; omega), hmodifier,
      run_literal ⟨modifier, hleft⟩ _ _ _
        (by simp only [List.length_tail, List.length_drop]; omega),
      ← run_literal after _ [] _ (by simp only [List.length_tail, List.length_drop]; omega),
      List.append_nil]
  refine ⟨_, [], .none, ?_, hrun⟩
  simp only [List.length_drop, List.length_tail]
  omega

/-- **For the minimum** the call is undefined. -/
lemma not_prints_min (hmin : IsMinimum abi k.signed k.type w) (t : Text) :
    ¬ Prints abi (fastFormat before k after) [.word k.type w] t := by
  refine not_prints_of_run (n := before.chars.length + 1) (fun buf hbuf => .inl ⟨.table, ?_⟩) t
  rw [run_fastFormat before after _ (by omega),
    run_fast_min _ _ _ _ hmin (by rw [List.length_drop]; omega)]

end Conversion

/-- **The blocks agree with `fmtint`**, and consume exactly their conversion, if the value
is not the minimum of a signed type, and not a zero behind the modifiers `l` and `ll`. -/
theorem fast_iff (abi : Abi) (k : FastConversion) (w : BitVec 64) (before after : Literal) :
    Prints abi (fastFormat before k after) [.word k.type w]
        (before.chars ++ k.plainText abi w ++ after.chars)
      ↔ ¬ IsMinimum abi k.signed k.type w
        ∧ (argValue abi k.signed k.type w = 0 → k.type = .int) := by
  rw [plainText_eq]
  constructor
  · intro hprints
    refine ⟨fun hmin => not_prints_min before after hmin _ hprints, fun hzero => ?_⟩
    have hsame := congrArg List.length (hprints.unique (prints_zero before after hzero))
    rw [hzero] at hsame
    have hdigit : intText 0 = ['0'] := rfl
    have hleft : k.chars.tail.length = 0 := by
      simp only [hdigit, List.length_append] at hsame
      omega
    cases k
    case d | i | u => rfl
    all_goals cases hleft
  · rintro ⟨hmin, htype⟩
    by_cases hzero : argValue abi k.signed k.type w = 0
    · have hprints := prints_zero before after hzero
      have hleft : k.chars.tail = [] := by
        have hint := htype hzero
        cases k
        case d | i | u => rfl
        all_goals cases hint
      rw [hleft, List.append_nil] at hprints
      rw [hzero]
      exact hprints
    · exact prints_value before after hzero hmin

/-- **A zero for `%ld`**: the `d` is printed behind it. -/
theorem modifier_printed : ¬ Prints .lp64 (fastFormat ⟨[], by simp⟩ .ld ⟨[], by simp⟩)
    [.word .long 0] (FastConversion.ld.plainText .lp64 0) := by
  intro hprints
  have hzero : argValue .lp64 FastConversion.ld.signed FastConversion.ld.type 0 = 0 := rfl
  have hsame := hprints.unique (prints_zero ⟨[], by simp⟩ ⟨[], by simp⟩ hzero)
  have hplain : FastConversion.ld.plainText .lp64 0 = ['0'] := rfl
  rw [hplain] at hsame
  cases hsame

end PbEntityDb.Format
