import PbEntityDb.Format.Integers

/-!
Conversions with flags, a width, a precision and a length modifier.

* `Conversion.fast` is the block that a conversion ends in behind its flags, if there is
  one. All others get to the general exit.
* `run_flags`, `run_width`, `run_precision`, `run_modifier` and `run_operand` follow the
  states of the loop; `run_general` is a whole conversion, in any buffer.
* `run_fast` and `run_fast_stopped` are the blocks, in a buffer that is large enough.
-/

namespace PbEntityDb.Format

/-! ### The parts of a conversion -/

/-- A flag in a format. -/
inductive FlagChar where
  | minus | plus | space | num | zero | quote
  deriving DecidableEq, Repr

/-- The character of a flag. -/
def FlagChar.char : FlagChar → Char
  | minus => '-'
  | plus => '+'
  | space => ' '
  | num => '#'
  | zero => '0'
  | quote => '\''

/-- `flags` with one flag more. -/
def Flags.set (flags : Flags) : FlagChar → Flags
  | .minus => { flags with minus := true }
  | .plus => { flags with plus := true }
  | .space => { flags with space := true }
  | .num => { flags with num := true }
  | .zero => { flags with zero := true }
  | .quote => { flags with quote := true }

/-- `flags` behind the flags of a conversion. -/
def Flags.setAll (flags : Flags) (l : List FlagChar) : Flags := l.foldl Flags.set flags

/-- A digit in a format. -/
def digit (d : Fin 10) : Char := Nat.digitChar d

/-- A width. The first digit of a number is not zero, which is a flag. -/
inductive Width where
  | none
  | number (first : Fin 9) (digits : List (Fin 10))
  | star (w : BitVec 64)
  deriving DecidableEq, Repr

/-- A precision. -/
inductive Precision where
  | none
  | number (digits : List (Fin 10))
  | star (w : BitVec 64)
  deriving DecidableEq, Repr

/-- The integer conversions. -/
inductive IntKind where
  | d | i | u | o | x | upperX
  deriving DecidableEq, Repr

/-- The conversion itself, with its argument. -/
inductive Operand where
  | integer (k : IntKind) (w : BitVec 64)
  | char (w : BitVec 64)
  | string (s : Option CString)
  | percent
  deriving DecidableEq, Repr

/-- A conversion with its arguments. -/
structure Conversion where
  flags : List FlagChar
  width : Width
  precision : Precision
  modifier : Modifier
  operand : Operand
  deriving DecidableEq, Repr

/-! ### The format and the arguments -/

def Width.chars : Width → Text
  | none => []
  | number first digits => (first.succ :: digits).map digit
  | star _ => ['*']

def Width.args : Width → List Arg
  | star w => [.word .int w]
  | _ => []

def Precision.chars : Precision → Text
  | none => []
  | number digits => '.' :: digits.map digit
  | star _ => ['.', '*']

def Precision.args : Precision → List Arg
  | star w => [.word .int w]
  | _ => []

def Modifier.chars : Modifier → Text
  | none => []
  | char => ['h', 'h']
  | short => ['h']
  | long => ['l']
  | llong => ['l', 'l']
  | ldouble => ['L']
  | size => ['z']
  | ptrdiff => ['t']
  | intmax => ['j']

/-- The last character of a conversion. -/
def Operand.letter : Operand → Char
  | integer .d _ => 'd'
  | integer .i _ => 'i'
  | integer .u _ => 'u'
  | integer .o _ => 'o'
  | integer .x _ => 'x'
  | integer .upperX _ => 'X'
  | char _ => 'c'
  | string _ => 's'
  | percent => '%'

def Operand.args (m : Modifier) : Operand → List Arg
  | integer _ w => [.word m.type w]
  | char w => [.word .int w]
  | string s => [.string s]
  | percent => []

/-- The conversion behind its flags. -/
def Conversion.tail (c : Conversion) : Text :=
  c.width.chars ++ (c.precision.chars ++ (c.modifier.chars ++ [c.operand.letter]))

/-- The arguments of a conversion. -/
def Conversion.args (c : Conversion) : List Arg :=
  c.width.args ++ (c.precision.args ++ c.operand.args c.modifier)

/-! ### What is read in front of a conversion -/

/-- What ends the loop inside a conversion. -/
inductive Stop where
  | overflow
  | undefined (e : Undefined)
  deriving DecidableEq, Repr

/-- How the loop ends. -/
def Stop.result (out : Output) : Stop → Except Undefined (Bool × Output)
  | overflow => .ok (true, out)
  | undefined e => .error e

/-- The loop goes on with what was read. -/
def andThen {α : Type} (out : Output) (x : Except Stop α)
    (next : α → Except Undefined (Bool × Output)) : Except Undefined (Bool × Output) :=
  match x with
  | .error stop => stop.result out
  | .ok a => next a

/-- A number in the format. -/
def number : ℤ → List (Fin 10) → Except Stop ℤ
  | n, [] => .ok n
  | n, d :: digits =>
      match extend n (digit d) with
      | none => .error .overflow
      | some n => number n digits

/-- The width that is read, and the flags, to which a negative argument adds the minus. -/
def Width.read (flags : Flags) : Width → Except Stop (ℤ × Flags)
  | none => .ok (0, flags)
  | number first digits => (Format.number 0 (first.succ :: digits)).map fun n => (n, flags)
  | star w =>
      let width := (w.setWidth 32).toInt
      if width = -2 ^ 31 then .error (.undefined .negation)
      else if width < 0 then .ok (-width, { flags with minus := true })
      else .ok (width, flags)

/-- The precision that is read. -/
def Precision.read : Precision → Except Stop ℤ
  | none => .ok (-1)
  | number digits => Format.number 0 digits
  | star w => .ok (if (w.setWidth 32).toInt < 0 then -1 else (w.setWidth 32).toInt)

/-! ### What is printed -/

/-- The value of an integer conversion. -/
def Modifier.value (abi : Abi) (m : Modifier) (signed : Bool) (w : BitVec 64) : BitVec 64 :=
  let value := w.setWidth (m.bits abi)
  if signed then value.signExtend 64 else value.setWidth 64

def IntKind.signed : IntKind → Bool
  | d | i => true
  | _ => false

def IntKind.base : IntKind → ℕ
  | o => 8
  | x | upperX => 16
  | _ => 10

/-- The flags that `fmtint` is given. -/
def IntKind.flags (k : IntKind) (flags : Flags) : Flags :=
  if k.signed then flags
  else { flags with up := flags.up || decide (k = upperX), unsigned := true }

/-- What the general conversions print. -/
def Operand.text (abi : Abi) (m : Modifier) (width precision : ℤ) (flags : Flags) :
    Operand → Text
  | integer k w => fmtintText (m.value abi k.signed w) k.base width precision (k.flags flags)
  | char w => [Char.ofNat (w.toNat % 256)]
  | string s => fmtstrText s width precision flags
  | percent => ['%']

/-- What a conversion prints at the general exit. -/
def Conversion.general (abi : Abi) (flags : Flags) (c : Conversion) : Except Stop Text := do
  let (width, flags) ← c.width.read (flags.setAll c.flags)
  let precision ← c.precision.read
  .ok (c.operand.text abi c.modifier width precision flags)

/-! ### The states between the percent sign and the exit -/

section States

variable {abi : Abi} {out : Output} {args : List Arg} {flags : Flags} {f : Text}

/-- A turn that prints. -/
lemma run_bind {p : Printer} {x : Except Undefined Output} {next : Output → Printer}
    (h : step abi p = x.bind fun out => .ok (.next (next out))) :
    run abi p = x.bind fun out => run abi (next out) := by
  cases x with
  | error e => exact run_error h
  | ok out => exact run_next h

lemma isDigit_digit (d : Fin 10) : (digit d).isDigit = true := by
  revert d
  decide

lemma run_flags (l : List FlagChar) :
    run abi (flagsAt out (l.map FlagChar.char ++ f) args flags)
      = run abi (flagsAt out f args (flags.setAll l)) := by
  induction l generalizing flags with
  | nil => rfl
  | cons c l ih =>
      have hstep : step abi (flagsAt out ((c :: l).map FlagChar.char ++ f) args flags)
          = .ok (.next (flagsAt out (l.map FlagChar.char ++ f) args (flags.set c))) := by
        cases c <;> rfl
      rw [run_next hstep, ih]
      rfl

/-- The digits of a width. -/
lemma run_width_number {next : Char} (hdigit : next.isDigit = false) (hstar : next ≠ '*')
    (digits : List (Fin 10)) (n : ℤ) :
    run abi ⟨out, .width, digits.map digit ++ next :: f, args, 0, .none, flags, n, -1⟩
      = andThen out (number n digits) fun n =>
          run abi ⟨out, .dot, next :: f, args, 0, .none, flags, n, -1⟩ := by
  induction digits generalizing n with
  | nil =>
      refine run_next ?_
      rw [step]
      change stepWidth next f _ = _
      rw [stepWidth, if_neg (by simp [hdigit]), if_neg hstar]
      rfl
  | cons d digits ih =>
      have hstep : step abi ⟨out, .width, (d :: digits).map digit ++ next :: f, args, 0, .none,
          flags, n, -1⟩ = stepWidth (digit d) (digits.map digit ++ next :: f) ⟨out, .width,
            (d :: digits).map digit ++ next :: f, args, 0, .none, flags, n, -1⟩ := rfl
      rw [stepWidth, if_pos (isDigit_digit d)] at hstep
      rw [number]
      cases hextend : extend n (digit d) with
      | none =>
          simp only [hextend] at hstep
          exact run_over hstep
      | some n' =>
          simp only [hextend] at hstep
          rw [run_next hstep, ih]

/-- **The width.** -/
lemma run_width {next : Char} (hdigit : next.isDigit = false) (hstar : next ≠ '*') (w : Width) :
    run abi ⟨out, .width, w.chars ++ next :: f, w.args ++ args, 0, .none, flags, 0, -1⟩
      = andThen out (w.read flags) fun r =>
          run abi ⟨out, .dot, next :: f, args, 0, .none, r.2, r.1, -1⟩ := by
  cases w with
  | none => exact run_width_number hdigit hstar [] 0
  | number first digits =>
      refine (run_width_number hdigit hstar (first.succ :: digits) 0).trans ?_
      rw [Width.read]
      cases number 0 (first.succ :: digits) <;> rfl
  | star w =>
      have hstep : step abi ⟨out, .width, '*' :: next :: f, .word .int w :: args, 0, .none, flags,
          0, -1⟩ = stepWidth '*' (next :: f) ⟨out, .width, '*' :: next :: f,
            .word .int w :: args, 0, .none, flags, 0, -1⟩ := rfl
      rw [stepWidth, if_neg (by decide), if_pos rfl] at hstep
      simp only [vaWord, if_true, bind, Except.bind] at hstep
      change run abi ⟨out, .width, '*' :: next :: f, .word .int w :: args, 0, .none, flags, 0, -1⟩
        = _
      rw [Width.read]
      by_cases hmin : (w.setWidth 32).toInt = -2 ^ 31
      · rw [if_pos hmin] at hstep
        simp only [hmin, if_true]
        exact run_error hstep
      · rw [if_neg hmin] at hstep
        simp only [if_neg hmin]
        by_cases hneg : (w.setWidth 32).toInt < 0
        · rw [if_pos hneg] at hstep
          rw [if_pos hneg]
          exact run_next hstep
        · rw [if_neg hneg] at hstep
          rw [if_neg hneg]
          exact run_next hstep

lemma extend_nonneg {n n' : ℤ} {ch : Char} (hn : 0 ≤ n) (hch : ch.isDigit = true)
    (h : extend n ch = some n') : 0 ≤ n' := by
  have hlow : 48 ≤ ch.toNat := by
    rw [Char.isDigit, Bool.and_eq_true, decide_eq_true_eq] at hch
    exact hch.1
  have hzero : ('0' : Char).toNat = 48 := rfl
  rw [extend] at h
  split at h
  · cases h
  · cases h
    omega

/-- The digits of a precision, which begins with the first of them. -/
lemma run_precision_number {next : Char} (hdigit : next.isDigit = false) (hstar : next ≠ '*')
    (digits : List (Fin 10)) {width precision n : ℤ}
    (hn : (if precision = -1 then 0 else precision) = n) (hpos : 0 ≤ n) :
    run abi ⟨out, .precision, digits.map digit ++ next :: f, args, 0, .none, flags, width,
        precision⟩
      = andThen out (number n digits) fun n =>
          run abi ⟨out, .mod, next :: f, args, 0, .none, flags, width, n⟩ := by
  induction digits generalizing precision n with
  | nil =>
      refine run_next ?_
      change stepPrecision next f _ = _
      rw [stepPrecision, if_neg (by simp [hdigit]), if_neg hstar, hn]
      rfl
  | cons d digits ih =>
      have hstep : step abi ⟨out, .precision, (d :: digits).map digit ++ next :: f, args, 0,
          .none, flags, width, precision⟩ = stepPrecision (digit d)
            (digits.map digit ++ next :: f) ⟨out, .precision, (d :: digits).map digit ++ next :: f,
              args, 0, .none, flags, width, precision⟩ := rfl
      rw [stepPrecision, if_pos (isDigit_digit d), hn] at hstep
      rw [number]
      cases hextend : extend n (digit d) with
      | none =>
          simp only [hextend] at hstep
          exact run_over hstep
      | some n' =>
          have hpos' := extend_nonneg hpos (isDigit_digit d) hextend
          simp only [hextend] at hstep
          rw [run_next hstep, ih (if_neg (by omega)) hpos']

/-- **The precision.** -/
lemma run_precision {next : Char} (hdigit : next.isDigit = false) (hstar : next ≠ '*')
    (hdot : next ≠ '.') (p : Precision) {width : ℤ} :
    run abi ⟨out, .dot, p.chars ++ next :: f, p.args ++ args, 0, .none, flags, width, -1⟩
      = andThen out p.read fun n =>
          run abi ⟨out, .mod, next :: f, args, 0, .none, flags, width, n⟩ := by
  cases p with
  | none =>
      refine run_next ?_
      change Except.ok (stepDot next f _) = _
      rw [stepDot, if_neg hdot]
      rfl
  | number digits =>
      have hstep : step abi ⟨out, .dot, '.' :: (digits.map digit ++ next :: f), args, 0, .none,
          flags, width, -1⟩ = .ok (.next ⟨out, .precision, digits.map digit ++ next :: f, args, 0,
            .none, flags, width, -1⟩) := rfl
      exact (run_next hstep).trans (run_precision_number hdigit hstar digits rfl le_rfl)
  | star w =>
      have hdotstep : step abi ⟨out, .dot, '.' :: '*' :: next :: f, .word .int w :: args, 0, .none,
          flags, width, -1⟩ = .ok (.next ⟨out, .precision, '*' :: next :: f, .word .int w :: args,
            0, .none, flags, width, -1⟩) := rfl
      exact (run_next hdotstep).trans (run_next rfl)

/-- **The length modifier.** -/
lemma run_modifier (m : Modifier) (o : Operand) {width precision : ℤ} :
    run abi ⟨out, .mod, m.chars ++ o.letter :: f, args, 0, .none, flags, width, precision⟩
      = run abi ⟨out, .conv, o.letter :: f, args, 0, m, flags, width, precision⟩ := by
  refine run_next ?_
  cases o with
  | integer k w =>
      cases k
      all_goals
        cases m <;> rfl
  | char w => cases m <;> rfl
  | string s => cases m <;> rfl
  | percent => cases m <;> rfl

lemma outchars_singleton (ch : Char) : out.outchars [ch] = out.outchar ch := by
  change (out.outchar ch).bind Except.ok = out.outchar ch
  cases out.outchar ch <;> rfl

/-- **The exit.** -/
lemma run_operand (m : Modifier) (o : Operand) {width precision : ℤ} :
    run abi ⟨out, .conv, o.letter :: f, o.args m ++ args, 0, m, flags, width, precision⟩
      = (out.outchars (o.text abi m width precision flags)).bind fun out =>
          run abi (between out f args .none) := by
  refine run_bind ?_
  cases o with
  | integer k w =>
      have hvalue : ∀ signed, readValue abi signed m (.word m.type w :: args)
          = .ok (m.value abi signed w, args) := by
        intro signed
        rw [readValue, vaWord, if_pos rfl]
        rfl
      cases k
      case d | i =>
        change (readValue abi true m (.word m.type w :: args)).bind _ = _
        rw [hvalue]
        rfl
      all_goals
        change (readValue abi false m (.word m.type w :: args)).bind _ = _
        rw [hvalue]
        rfl
  | char w =>
      rw [Operand.text, outchars_singleton]
      rfl
  | string s => rfl
  | percent =>
      rw [Operand.text, outchars_singleton]
      rfl

end States

/-! ### The blocks -/

/-- A conversion between `optimize begin` and `optimize end`, with its argument. -/
inductive Fast where
  | integer (k : FastConversion) (w : BitVec 64)
  | char (w : BitVec 64)
  | string (s : Option CString)
  | three (w : BitVec 64)
  deriving DecidableEq, Repr

namespace Fast

/-- The characters of a block. -/
def chars : Fast → Text
  | integer k _ => k.chars
  | char _ => ['c']
  | string _ => ['s']
  | three _ => ['N']

def args : Fast → List Arg
  | integer k w => [.word k.type w]
  | char w => [.word .int w]
  | string s => [.string s]
  | three w => [.word .int w]

/-- What a block prints in a large buffer. A zero is followed by the rest of its
conversion. -/
def text (abi : Abi) : Fast → Except Stop Text
  | integer k w =>
      if IsMinimum abi k.signed k.type w then .error (.undefined .table)
      else if argValue abi k.signed k.type w = 0 then .ok ('0' :: k.chars.tail)
      else .ok (intText (argValue abi k.signed k.type w))
  | char w => .ok [Char.ofNat (w.toNat % 256)]
  | string none => .error (.undefined .nullPointer)
  | string (some v) => .ok v.chars
  | three w => (atoiTab ((w.toNat % 2 ^ 30 : ℕ) : ℤ)).mapError .undefined

end Fast

/-- The block that a conversion ends in, if there is one. -/
def Conversion.fast (c : Conversion) : Option Fast :=
  match c.width, c.precision, c.modifier, c.operand with
  | .none, .none, .none, .integer .d w => some (.integer .d w)
  | .none, .none, .none, .integer .i w => some (.integer .i w)
  | .none, .none, .none, .integer .u w => some (.integer .u w)
  | .none, .none, .long, .integer .d w => some (.integer .ld w)
  | .none, .none, .long, .integer .i w => some (.integer .li w)
  | .none, .none, .long, .integer .u w => some (.integer .lu w)
  | .none, .none, .llong, .integer .d w => some (.integer .lld w)
  | .none, .none, .llong, .integer .i w => some (.integer .lli w)
  | .none, .none, .llong, .integer .u w => some (.integer .llu w)
  | .none, .none, .none, .char w => some (.char w)
  | .none, .none, .none, .string s => some (.string s)
  | _, _, _, _ => none

section Blocks

variable {abi : Abi} {out : Output} {args : List Arg} {flags : Flags} {f : Text}

/-- A conversion that ends in a block has nothing else behind its flags. -/
lemma Conversion.of_fast {c : Conversion} {q : Fast} (h : c.fast = some q) :
    c.tail = q.chars ∧ c.args = q.args := by
  rw [Conversion.fast] at h
  rw [Conversion.tail, Conversion.args]
  split at h
  iterate 11
    · rename_i hwidth hprecision hmodifier hoperand
      cases h
      rw [hwidth, hprecision, hmodifier, hoperand]
      exact ⟨rfl, rfl⟩
  · cases h

/-- A conversion without a block gets to the next state. -/
lemma step_general {c : Conversion} (h : c.fast = none) :
    step abi (flagsAt out (c.tail ++ f) args flags)
      = .ok (.next ⟨out, .width, c.tail ++ f, args, 0, .none, flags, 0, -1⟩) := by
  obtain ⟨cflags, width, precision, modifier, operand⟩ := c
  cases width with
  | number first digits =>
      fin_cases first <;> rfl
  | star w => rfl
  | none =>
      cases precision with
      | number digits => rfl
      | star w => rfl
      | none =>
          cases operand with
          | integer k w =>
              cases modifier
              all_goals
                cases k
                all_goals first | rfl | cases h
          | char w =>
              cases modifier
              all_goals first | rfl | cases h
          | string s =>
              cases modifier
              all_goals first | rfl | cases h
          | percent =>
              cases modifier <;> rfl

lemma Operand.letter_mem (o : Operand) : o.letter ∈ "diuoxXcs%".toList := by
  cases o with
  | integer k w => cases k <;> simp [letter]
  | char w => simp [letter]
  | string s => simp [letter]
  | percent => simp [letter]

/-- What begins behind a precision is not part of it. -/
lemma modifier_begins (m : Modifier) (o : Operand) :
    ∃ next behind, m.chars ++ o.letter :: f = next :: behind ∧ next.isDigit = false
      ∧ next ≠ '*' ∧ next ≠ '.' := by
  cases m
  case none =>
    have hletters : ∀ c ∈ "diuoxXcs%".toList, c.isDigit = false ∧ c ≠ '*' ∧ c ≠ '.' := by
      simp [Char.isDigit]
    exact ⟨o.letter, f, rfl, hletters _ o.letter_mem⟩
  all_goals exact ⟨_, _, rfl, by decide⟩

/-- What begins behind a width is not part of it. -/
lemma precision_begins (p : Precision) (m : Modifier) (o : Operand) :
    ∃ next behind, p.chars ++ (m.chars ++ o.letter :: f) = next :: behind ∧ next.isDigit = false
      ∧ next ≠ '*' := by
  cases p with
  | none =>
      obtain ⟨next, behind, heq, hdigit, hstar, -⟩ := @modifier_begins f m o
      exact ⟨next, behind, heq, hdigit, hstar⟩
  | number digits => exact ⟨'.', _, rfl, by decide⟩
  | star w => exact ⟨'.', _, rfl, by decide⟩

/-- **A conversion at the general exit**, in any buffer. -/
theorem run_general {c : Conversion} (h : c.fast = none) :
    run abi (flagsAt out (c.flags.map FlagChar.char ++ (c.tail ++ f)) (c.args ++ args) flags)
      = andThen out (c.general abi flags) fun t =>
          (out.outchars t).bind fun out => run abi (between out f args .none) := by
  have htail : c.tail ++ f
      = c.width.chars ++ (c.precision.chars ++ (c.modifier.chars ++ c.operand.letter :: f)) := by
    simp only [Conversion.tail, List.append_assoc, List.singleton_append]
  have hargs : c.args ++ args
      = c.width.args ++ (c.precision.args ++ (c.operand.args c.modifier ++ args)) := by
    simp only [Conversion.args, List.append_assoc]
  rw [run_flags, run_next (step_general h), htail, hargs]
  obtain ⟨next, behind, hnext, hdigit, hstar⟩ :=
    @precision_begins f c.precision c.modifier c.operand
  rw [hnext, run_width hdigit hstar, ← hnext, Conversion.general]
  cases c.width.read (flags.setAll c.flags) with
  | error stop => rfl
  | ok r =>
      obtain ⟨next', behind', hnext', hdigit', hstar', hdot⟩ :=
        @modifier_begins f c.modifier c.operand
      change run abi ⟨out, .dot, _, _, 0, .none, r.2, r.1, -1⟩ = _
      rw [hnext', run_precision hdigit' hstar' hdot, ← hnext']
      change _ = andThen out ((c.precision.read).bind _) _
      cases c.precision.read with
      | error stop => rfl
      | ok n =>
          change run abi ⟨out, .mod, _, _, 0, .none, r.2, r.1, n⟩ = _
          rw [run_modifier, run_operand]
          rfl

lemma run_fastChar (w : BitVec 64) :
    run abi (flagsAt out ('c' :: f) (.word .int w :: args) flags)
      = (out.fastChar (Char.ofNat (w.toNat % 256))).bind fun out =>
          run abi (between out f args flags) :=
  run_bind rfl

lemma run_fastString (v : CString) :
    run abi (flagsAt out ('s' :: f) (.string (some v) :: args) flags)
      = (out.fastString v.chars).bind fun out => run abi (between out f args flags) :=
  run_bind rfl

lemma run_fastNumber (w : BitVec 64) :
    run abi (flagsAt out ('N' :: f) (.word .int w :: args) flags)
      = (out.fastNumber ((w.toNat % 2 ^ 30 : ℕ) : ℤ)).bind fun out =>
          run abi (between out f args flags) :=
  run_bind rfl

end Blocks

section Room

variable {abi : Abi} {args : List Arg} {flags : Flags} (text f : Text) {rest : Text}

lemma length_atoiTab {i : ℤ} {t : Text} (h : atoiTab i = .ok t) : t.length = 3 := by
  rw [atoiTab] at h
  split at h
  · cases h
    rfl
  · cases h

/-- **A block prints its text**, in a buffer that is large enough. -/
theorem run_fast {q : Fast} {t : Text} (h : q.text abi = .ok t) (hroom : t.length < rest.length) :
    run abi (flagsAt (.holding text rest) (q.chars ++ f) (q.args ++ args) flags)
      = run abi (ready (text ++ t) (rest.drop t.length) f args flags) := by
  cases q with
  | integer k w =>
      rw [Fast.text] at h
      split at h
      · cases h
      · rename_i hmin
        split at h
        · rename_i hzero
          cases h
          rw [List.length_cons] at hroom
          have hleft : k.chars.tail.length < rest.tail.length := by
            simp only [List.length_tail] at hroom ⊢
            omega
          refine (run_fast_zero text f args flags hzero (by omega)).trans ?_
          rw [run_literal ⟨k.chars.tail, k.leftover_plain⟩ _ _ flags hleft]
          simp only [ready, Output.append_tail]
        · rename_i hzero
          cases h
          exact run_fast_text text f args flags hzero hmin hroom
  | char w =>
      cases h
      have hlen : (Output.holding text rest).len + 1 < (Output.holding text rest).size := by
        rw [Output.len_holding, Output.size_holding]
        rw [List.length_singleton] at hroom
        omega
      refine (run_fastChar w).trans ?_
      rw [Output.fastChar, if_pos hlen, Output.put_holding text _ (by omega), List.length_singleton,
        List.drop_one]
      rfl
  | string s =>
      cases s with
      | none => cases h
      | some v =>
          cases h
          refine (run_fastString v).trans ?_
          rw [Output.fastString_holding _ _ hroom]
          rfl
  | three w =>
      rw [Fast.text] at h
      cases htable : atoiTab ((w.toNat % 2 ^ 30 : ℕ) : ℤ) with
      | error e =>
          rw [htable] at h
          cases h
      | ok entry =>
          rw [htable] at h
          cases h
          have hlength := length_atoiTab htable
          have hlen : (Output.holding text rest).len + 3 < (Output.holding text rest).size := by
            rw [Output.len_holding, Output.size_holding]
            omega
          refine (run_fastNumber w).trans ?_
          rw [Output.fastNumber, if_pos hlen, htable]
          change ((Output.holding text rest).copy t).bind _ = _
          rw [Output.copy_holding _ _ hroom.le]
          rfl

/-- **A block without a text** is undefined. -/
theorem run_fast_stopped {q : Fast} {stop : Stop} (h : q.text abi = .error stop)
    (hroom : 3 < rest.length) :
    run abi (flagsAt (.holding text rest) (q.chars ++ f) (q.args ++ args) flags)
      = stop.result (.holding text rest) := by
  cases q with
  | integer k w =>
      rw [Fast.text] at h
      split at h
      · rename_i hmin
        cases h
        exact run_fast_min text f args flags hmin (by omega)
      · split at h
        · cases h
        · cases h
  | char w => cases h
  | string s =>
      cases s with
      | none =>
          cases h
          exact run_error rfl
      | some v => cases h
  | three w =>
      rw [Fast.text] at h
      cases htable : atoiTab ((w.toNat % 2 ^ 30 : ℕ) : ℤ) with
      | error e =>
          rw [htable] at h
          cases h
          have hlen : (Output.holding text rest).len + 3 < (Output.holding text rest).size := by
            rw [Output.len_holding, Output.size_holding]
            omega
          refine (run_fastNumber w).trans ?_
          rw [Output.fastNumber, if_pos hlen, htable]
          rfl
      | ok entry =>
          rw [htable] at h
          cases h

end Room

/-! ### A whole conversion -/

namespace Conversion

/-- A conversion in a format. -/
def chars (c : Conversion) : Text := '%' :: (c.flags.map FlagChar.char ++ c.tail)

/-- What a conversion prints in a large buffer, with the flags that are still set. -/
def text (abi : Abi) (flags : Flags) (c : Conversion) : Except Stop Text :=
  c.fast.elim (c.general abi flags) (Fast.text abi)

/-- The flags behind a conversion: only the general exit takes them back. -/
def leaves (flags : Flags) (c : Conversion) : Flags :=
  c.fast.elim .none fun _ => flags.setAll c.flags

end Conversion

section Whole

variable {abi : Abi} {c : Conversion} {args : List Arg} {flags : Flags} (text f : Text)
  {rest : Text}

lemma run_chars {out : Output} :
    run abi (between out (c.chars ++ f) (c.args ++ args) flags)
      = run abi (flagsAt out (c.flags.map FlagChar.char ++ (c.tail ++ f)) (c.args ++ args)
          flags) := by
  rw [Conversion.chars, List.cons_append, run_percent, List.append_assoc]

/-- **A conversion prints its text.** -/
theorem run_conversion {t : Text} (h : c.text abi flags = .ok t) (hroom : t.length < rest.length) :
    run abi (ready text rest (c.chars ++ f) (c.args ++ args) flags)
      = run abi (ready (text ++ t) (rest.drop t.length) f args (c.leaves flags)) := by
  rw [Conversion.text] at h
  rw [run_chars, Conversion.leaves]
  cases hfast : c.fast with
  | none =>
      rw [hfast] at h
      have hgeneral : c.general abi flags = .ok t := h
      rw [run_general hfast, hgeneral]
      change (Output.outchars _ t).bind _ = _
      rw [Output.outchars_holding t text hroom]
      rfl
  | some q =>
      obtain ⟨htail, hargs⟩ := Conversion.of_fast hfast
      rw [hfast] at h
      rw [run_flags, htail, hargs]
      exact run_fast text f h hroom

/-- A conversion without a text ends the loop. -/
theorem run_conversion_stopped {stop : Stop} (h : c.text abi flags = .error stop)
    (hroom : 3 < rest.length) :
    run abi (ready text rest (c.chars ++ f) (c.args ++ args) flags)
      = stop.result (.holding text rest) := by
  rw [Conversion.text] at h
  rw [run_chars]
  cases hfast : c.fast with
  | none =>
      rw [hfast] at h
      have hgeneral : c.general abi flags = .error stop := h
      rw [run_general hfast, hgeneral]
      rfl
  | some q =>
      obtain ⟨htail, hargs⟩ := Conversion.of_fast hfast
      rw [hfast] at h
      rw [run_flags, htail, hargs]
      exact run_fast_stopped text f h hroom

end Whole

end PbEntityDb.Format
