import PbEntityDb.Basic

/-!
The formatter `o_vsnprintf`.

* `Output` is the buffer with `len`; `Output.outchar` is `OUTCHAR`, `Output.put` a store
  that advances `len`. Both check the index of the store.
* `fmtstr` and `fmtint` with `convert` are the functions behind the general conversions,
  `fastInteger` is what the blocks that were added for integers have in common.
* `step` is one turn of the loop over the format, `run` the loop, `vsnprintf` the
  function. `Printer.measure` bounds the number of turns.
* The types are those of a machine with 64 bits; `long` has 32 of them in one of the
  models. The counters of type `int` do not wrap. Floating point conversions and `%n`
  are not followed.
-/

namespace PbEntityDb.Format

/-- What ends the formatter otherwise than by its `return`. -/
inductive Undefined where
  /-- a store outside the buffer -/
  | store
  /-- an access outside `atoi_tab` or `scratch_buffer` -/
  | table
  /-- an argument that is not there, or of another type -/
  | argument
  /-- a null pointer where a string is read -/
  | nullPointer
  /-- the negation of the minimum of `int` -/
  | negation
  /-- a conversion that is not followed -/
  | other
  deriving DecidableEq, Repr

/-! ### Arguments -/

/-- A C string. -/
structure CString where
  chars : Text
  nul_free : '\x00' ∉ chars
  deriving DecidableEq, Repr

/-- The types of integer arguments, signed or unsigned. -/
inductive CType where
  | int | long | llong | size | intmax | ptrdiff
  deriving DecidableEq, Repr

/-- The models of a machine with 64 bits. -/
inductive Abi where
  | lp64 | llp64
  deriving DecidableEq, Repr

/-- The width of a type. -/
def Abi.bits : Abi → CType → ℕ
  | _, .int => 32
  | .llp64, .long => 32
  | .lp64, .long => 64
  | _, _ => 64

/-- An argument. A word holds its value in the low bits. -/
inductive Arg where
  | word (type : CType) (w : BitVec 64)
  | string (s : Option CString)
  | pointer (w : BitVec 64)
  deriving DecidableEq, Repr

/-- `va_arg` of an integer type. -/
def vaWord (type : CType) : List Arg → Except Undefined (BitVec 64 × List Arg)
  | .word t w :: args => if t = type then .ok (w, args) else .error .argument
  | _ => .error .argument

/-- `va_arg(args, char *)`. -/
def vaString : List Arg → Except Undefined (Option CString × List Arg)
  | .string s :: args => .ok (s, args)
  | _ => .error .argument

/-- `va_arg(args, void *)`. -/
def vaPointer : List Arg → Except Undefined (BitVec 64 × List Arg)
  | .pointer w :: args => .ok (w, args)
  | _ => .error .argument

/-! ### The buffer -/

/-- The buffer, whose length is `size`, and `len`. -/
structure Output where
  buf : Text
  len : ℕ
  deriving DecidableEq, Repr

namespace Output

/-- `size`. -/
def size (out : Output) : ℕ := out.buf.length

/-- `out[i] = ch`. -/
def store (out : Output) (i : ℕ) (ch : Char) : Except Undefined Output :=
  if i < out.size then .ok ⟨out.buf.set i ch, out.len⟩ else .error .store

/-- `len++`. -/
def advance (out : Output) : Output := ⟨out.buf, out.len + 1⟩

/-- `out[len++] = ch`. -/
def put (out : Output) (ch : Char) : Except Undefined Output :=
  (out.store out.len ch).map advance

/-- `OUTCHAR`. -/
def outchar (out : Output) (ch : Char) : Except Undefined Output :=
  (if out.len + 1 < out.size then out.store out.len ch else .ok out).map advance

/-- `OUTCHAR` for one character after the other. -/
def outchars : Output → Text → Except Undefined Output
  | out, [] => .ok out
  | out, ch :: t => do
      let out ← out.outchar ch
      out.outchars t

/-- `fast_memcpy` behind the text, and the addition to `len`. -/
def copy : Output → Text → Except Undefined Output
  | out, [] => .ok out
  | out, ch :: t => do
      let out ← out.put ch
      out.copy t

end Output

/-! ### The general conversions -/

/-- The bits of `flags`. -/
structure Flags where
  minus : Bool
  plus : Bool
  space : Bool
  num : Bool
  zero : Bool
  quote : Bool
  up : Bool
  unsigned : Bool
  deriving DecidableEq, Repr

/-- No flag. -/
def Flags.none : Flags := ⟨false, false, false, false, false, false, false, false⟩

/-- What `fmtstr` prints. -/
def fmtstrText (value : Option CString) (width precision : ℤ) (flags : Flags) : Text :=
  let value := value.elim "(null)".toList CString.chars
  -- the characters in front of the NUL, and no more than the precision
  let shown := if precision = -1 then value else value.take precision.toNat
  let padlen := (width - shown.length).toNat
  if flags.minus then shown ++ List.replicate padlen ' ' else List.replicate padlen ' ' ++ shown

/-- `fmtstr`. -/
def fmtstr (out : Output) (value : Option CString) (width precision : ℤ) (flags : Flags) :
    Except Undefined Output :=
  out.outchars (fmtstrText value width precision flags)

/-- A digit of `convert`. -/
def convertDigit (caps : Bool) (d : ℕ) : Char :=
  (if caps then "0123456789ABCDEF".toList else "0123456789abcdef".toList).getD d '0'

/-- `convert`: the digits in reverse order, in a buffer of a size. -/
def convert (base : ℕ) (caps : Bool) : ℕ → ℕ → Text
  | 0, _ => []
  | size + 1, value =>
      convertDigit caps (value % base)
        :: if value / base ≠ 0 then convert base caps size (value / base) else []

/-- `MAX_CONVERT_LENGTH`. -/
def maxConvertLength : ℕ := 43

/-- `getnumsep`. -/
def getnumsep (digits : ℕ) : ℕ := (digits - if digits % 3 = 0 then 1 else 0) / 3

/-- The loop over the digits in `fmtint`: `pos` counts those that are left, and
`printsep` follows each group of three. -/
def digitsText (separators : ℕ) : Text → Text
  | [] => []
  | digit :: rest =>
      digit :: ((if 0 < separators ∧ 0 < rest.length ∧ rest.length % 3 = 0 then [','] else [])
        ++ digitsText separators rest)

/-- What `fmtint` prints. -/
def fmtintText (value : BitVec 64) (base : ℕ) (width precision : ℤ) (flags : Flags) : Text :=
  let uvalue := if flags.unsigned then value.toNat else value.toInt.natAbs
  let sign : Text :=
    if flags.unsigned then []
    else if value.toInt < 0 then ['-']
    else if flags.plus then ['+']
    else if flags.space then [' ']
    else []
  let iconvert := convert base flags.up maxConvertLength uvalue
  let pos := iconvert.length
  let noprecision := precision = -1
  let precision := if flags.num ∧ uvalue ≠ 0 ∧ base = 8 ∧ precision ≤ pos then (pos : ℤ) + 1
    else precision
  let hexprefix : Text :=
    if flags.num ∧ uvalue ≠ 0 ∧ base = 16 then ['0', if flags.up then 'X' else 'x'] else []
  let separators := if flags.quote then getnumsep pos else 0
  let zpadlen := (precision - pos - separators).toNat
  let spadlen := (width - separators - max precision pos - sign.length - hexprefix.length).toNat
  let (before, zpadlen, behind) :=
    if flags.minus then (0, zpadlen, spadlen)
    else if flags.zero ∧ noprecision then (0, zpadlen + spadlen, 0)
    else (spadlen, zpadlen, 0)
  List.replicate before ' ' ++ sign ++ hexprefix ++ List.replicate zpadlen '0'
    ++ digitsText separators iconvert.reverse ++ List.replicate behind ' '

/-- `fmtint`. -/
def fmtint (out : Output) (value : BitVec 64) (base : ℕ) (width precision : ℤ) (flags : Flags) :
    Except Undefined Output :=
  out.outchars (fmtintText value base width precision flags)

/-! ### The state of the loop -/

/-- `PRINT_S_*`. -/
inductive PrintState where
  | default | flags | width | dot | precision | mod | conv
  deriving DecidableEq, Repr

/-- `PRINT_C_*`, the values of `cflags`. -/
inductive Modifier where
  | none | char | short | long | llong | ldouble | size | ptrdiff | intmax
  deriving DecidableEq, Repr

/-- The variables of the loop. `format` begins with `ch`, and is empty when `ch` is the
NUL. -/
structure Printer where
  out : Output
  state : PrintState
  format : Text
  args : List Arg
  base : ℕ
  cflags : Modifier
  flags : Flags
  width : ℤ
  precision : ℤ
  deriving DecidableEq, Repr

/-- What a turn of the loop leads to: another one, or the label `over`. -/
inductive Turn where
  | next (p : Printer)
  | over (overflow : Bool) (p : Printer)
  deriving DecidableEq, Repr

/-! ### The conversions that were added -/

/-- An entry of `atoi_tab`: the three digits of a number. -/
def atoiTab (i : ℤ) : Except Undefined Text :=
  if 0 ≤ i ∧ i < 1000 then
    .ok [Nat.digitChar (i.toNat / 100), Nat.digitChar (i.toNat / 10 % 10),
      Nat.digitChar (i.toNat % 10)]
  else .error .table

/-- The loop that writes into `scratch_buffer` from its end on, which has room for a
number of entries; `s` is what stands there. -/
def scratchLoop : ℕ → ℤ → Text → Except Undefined Text
  | 0, _, _ => .error .table
  | room + 1, v1, s => do
      let v2 := v1.tdiv 1000
      let entry ← atoiTab (v1 - 1000 * v2)
      if 0 < v2 then scratchLoop room v2 (entry ++ s) else .ok (entry ++ s)

/-- The entries that `scratch_buffer` has room for. -/
def scratchRoom : ℕ := 10

/-- The value of an argument. -/
def argValue (abi : Abi) (signed : Bool) (type : CType) (w : BitVec 64) : ℤ :=
  if signed then (w.setWidth (abi.bits type)).toInt else (w.setWidth (abi.bits type)).toNat

/-- What `v1` is behind `v1 = -v1`. -/
def negated (abi : Abi) (type : CType) (w : BitVec 64) : ℤ :=
  (-(w.setWidth (abi.bits type))).toInt

/-- The minus sign of a block. -/
def Output.minus (out : Output) (negative : Prop) [Decidable negative] : Except Undefined Output :=
  if negative then out.put '-' else .ok out

/-- The digits of a block, without the leading zeros in `scratch_buffer`. -/
def Output.digits (out : Output) (scratch : Text) : Except Undefined Output :=
  let s := scratch.dropWhile (· = '0')
  let n := if out.len + s.length < out.size then s.length else out.size - out.len
  out.copy (s.take n)

/-- The six blocks for integers. `behindCh` is the format behind `ch`, to which the branch
for zero goes on, and `after` the format behind the conversion. -/
def fastInteger (abi : Abi) (signed : Bool) (type : CType) (behindCh after : Text) (p : Printer) :
    Except Undefined Turn := do
  let (w, args) ← vaWord type p.args
  let v1 := argValue abi signed type w
  if p.out.size ≤ p.out.len + 1 then .ok (.over false { p with args := args })
  else if v1 = 0 then
    let out ← p.out.put '0'
    .ok (.next { p with out := out, args := args, state := .default, format := behindCh })
  else
    let out ← p.out.minus (v1 < 0)
    let scratch ← scratchLoop scratchRoom (if v1 < 0 then negated abi type w else v1) []
    let out ← out.digits scratch
    .ok (.next { p with out := out, args := args, state := .default, format := after })

/-- The block for characters. -/
def Output.fastChar (out : Output) (v : Char) : Except Undefined Output :=
  if out.len + 1 < out.size then out.put v else .ok out

/-- The loop of the block for strings. -/
def Output.fastString : Output → Text → Except Undefined Output
  | out, [] => .ok out
  | out, ch :: v =>
      if out.len + 1 < out.size then do
        let out ← out.put ch
        out.fastString v
      else .ok out

/-- The block for numbers of three digits. -/
def Output.fastNumber (out : Output) (v1 : ℤ) : Except Undefined Output :=
  if out.len + 3 < out.size then (atoiTab v1).bind out.copy else .ok out

/-- The state `PRINT_S_FLAGS`. -/
def stepFlags (abi : Abi) (ch : Char) (format : Text) (p : Printer) : Except Undefined Turn :=
  match ch with
  | '-' => .ok (.next { p with flags := { p.flags with minus := true }, format := format })
  | '+' => .ok (.next { p with flags := { p.flags with plus := true }, format := format })
  | ' ' => .ok (.next { p with flags := { p.flags with space := true }, format := format })
  | '#' => .ok (.next { p with flags := { p.flags with num := true }, format := format })
  | '0' => .ok (.next { p with flags := { p.flags with zero := true }, format := format })
  | '\'' => .ok (.next { p with flags := { p.flags with quote := true }, format := format })
  -- optimize begin
  | 'c' => do
      let (w, args) ← vaWord .int p.args
      let out ← p.out.fastChar (Char.ofNat (w.toNat % 256))
      .ok (.next { p with out := out, args := args, state := .default, format := format })
  | 's' => do
      let (s, args) ← vaString p.args
      match s with
      | none => .error .nullPointer
      | some v =>
          let out ← p.out.fastString v.chars
          .ok (.next { p with out := out, args := args, state := .default, format := format })
  | 'd' => fastInteger abi true .int format format p
  | 'i' => fastInteger abi true .int format format p
  | 'u' => fastInteger abi false .int format format p
  | 'l' =>
      match format with
      | 'd' :: after => fastInteger abi true .long format after p
      | 'i' :: after => fastInteger abi true .long format after p
      | 'u' :: after => fastInteger abi false .long format after p
      | 'l' :: 'd' :: after => fastInteger abi true .llong format after p
      | 'l' :: 'i' :: after => fastInteger abi true .llong format after p
      | 'l' :: 'u' :: after => fastInteger abi false .llong format after p
      | _ => .ok (.next { p with state := .width })
  | 'N' => do
      let (w, args) ← vaWord .int p.args
      -- `v1 << 2` is an `unsigned int`
      let out ← p.out.fastNumber (w.toNat % 2 ^ 30)
      .ok (.next { p with out := out, args := args, state := .default, format := format })
  -- optimize end
  | _ => .ok (.next { p with state := .width })

/-! ### The other states -/

/-- `INT_MAX`. -/
def intMax : ℤ := 2 ^ 31 - 1

/-- The digit that a number in the format is extended by, unless it gets too large. -/
def extend (n : ℤ) (ch : Char) : Option ℤ :=
  let d : ℤ := ch.toNat - '0'.toNat
  if (intMax - d) / 10 < n then none else some (10 * n + d)

/-- The state `PRINT_S_WIDTH`. -/
def stepWidth (ch : Char) (format : Text) (p : Printer) : Except Undefined Turn :=
  if ch.isDigit then
    match extend p.width ch with
    | none => .ok (.over true p)
    | some width => .ok (.next { p with width := width, format := format })
  else if ch = '*' then do
    let (w, args) ← vaWord .int p.args
    let width := (w.setWidth 32).toInt
    if width = -2 ^ 31 then .error .negation
    else if width < 0 then
      let flags := { p.flags with minus := true }
      .ok (.next
        { p with args := args, width := -width, flags := flags, format := format, state := .dot })
    else .ok (.next { p with args := args, width := width, format := format, state := .dot })
  else .ok (.next { p with state := .dot })

/-- The state `PRINT_S_DOT`. -/
def stepDot (ch : Char) (format : Text) (p : Printer) : Turn :=
  if ch = '.' then .next { p with state := .precision, format := format }
  else .next { p with state := .mod }

/-- The state `PRINT_S_PRECISION`. -/
def stepPrecision (ch : Char) (format : Text) (p : Printer) : Except Undefined Turn :=
  let precision := if p.precision = -1 then 0 else p.precision
  if ch.isDigit then
    match extend precision ch with
    | none => .ok (.over true p)
    | some precision => .ok (.next { p with precision := precision, format := format })
  else if ch = '*' then do
    let (w, args) ← vaWord .int p.args
    let precision := (w.setWidth 32).toInt
    let precision := if precision < 0 then -1 else precision
    .ok (.next
      { p with args := args, precision := precision, format := format, state := .mod })
  else .ok (.next { p with precision := precision, state := .mod })

/-- The state `PRINT_S_MOD`. -/
def stepMod (ch : Char) (format : Text) (p : Printer) : Turn :=
  match ch with
  | 'h' =>
      match format with
      | 'h' :: format => .next { p with cflags := .char, format := format, state := .conv }
      | _ => .next { p with cflags := .short, format := format, state := .conv }
  | 'l' =>
      match format with
      | 'l' :: format => .next { p with cflags := .llong, format := format, state := .conv }
      | _ => .next { p with cflags := .long, format := format, state := .conv }
  | 'L' => .next { p with cflags := .ldouble, format := format, state := .conv }
  | 'j' => .next { p with cflags := .intmax, format := format, state := .conv }
  | 't' => .next { p with cflags := .ptrdiff, format := format, state := .conv }
  | 'z' => .next { p with cflags := .size, format := format, state := .conv }
  | _ => .next { p with state := .conv }

/-- The type of the argument of an integer conversion. -/
def Modifier.type : Modifier → CType
  | .long => .long
  | .llong => .llong
  | .size => .size
  | .ptrdiff => .ptrdiff
  | .intmax => .intmax
  | _ => .int

/-- The width that its value is cut to. -/
def Modifier.bits (abi : Abi) : Modifier → ℕ
  | .char => 8
  | .short => 16
  | m => abi.bits m.type

/-- `value`, an `INTMAX_T`. -/
def readValue (abi : Abi) (signed : Bool) (cflags : Modifier) (args : List Arg) :
    Except Undefined (BitVec 64 × List Arg) := do
  let (w, args) ← vaWord cflags.type args
  let value := w.setWidth (cflags.bits abi)
  .ok (if signed then value.signExtend 64 else value.setWidth 64, args)

/-- The exit of `PRINT_S_CONV`. -/
def exitConv (format : Text) (args : List Arg) (out : Output) : Turn :=
  .next ⟨out, .default, format, args, 0, .none, .none, 0, -1⟩

/-- The conversions of unsigned integers. -/
def convUnsigned (abi : Abi) (base : ℕ) (up : Bool) (format : Text) (p : Printer) :
    Except Undefined Turn := do
  let base := if p.base = 0 then base else p.base
  let flags := { p.flags with up := p.flags.up || up, unsigned := true }
  let (value, args) ← readValue abi false p.cflags p.args
  let out ← fmtint p.out value base p.width p.precision flags
  .ok (exitConv format args out)

/-- The conversion of a pointer. -/
def fmtPointer (out : Output) (w : BitVec 64) (width precision : ℤ) (flags : Flags) :
    Except Undefined Output :=
  if w = 0 then fmtstr out (some ⟨"(nil)".toList, by decide⟩) width (-1) flags
  else fmtint out w 16 width precision { flags with num := true, unsigned := true }

/-- The state `PRINT_S_CONV`. -/
def stepConv (abi : Abi) (ch : Char) (format : Text) (p : Printer) : Except Undefined Turn :=
  match ch with
  | 'd' => do
      let (value, args) ← readValue abi true p.cflags p.args
      let out ← fmtint p.out value 10 p.width p.precision p.flags
      .ok (exitConv format args out)
  | 'i' => do
      let (value, args) ← readValue abi true p.cflags p.args
      let out ← fmtint p.out value 10 p.width p.precision p.flags
      .ok (exitConv format args out)
  | 'X' => convUnsigned abi 16 true format { p with base := 16 }
  | 'x' => convUnsigned abi 16 false format { p with base := 16 }
  | 'o' => convUnsigned abi 8 false format p
  | 'u' => convUnsigned abi 10 false format p
  | 'c' => do
      let (w, args) ← vaWord .int p.args
      let out ← p.out.outchar (Char.ofNat (w.toNat % 256))
      .ok (exitConv format args out)
  | 's' => do
      let (s, args) ← vaString p.args
      let out ← fmtstr p.out s p.width p.precision p.flags
      .ok (exitConv format args out)
  | 'p' => do
      let (w, args) ← vaPointer p.args
      let out ← fmtPointer p.out w p.width p.precision p.flags
      .ok (exitConv format args out)
  | '%' => do
      let out ← p.out.outchar ch
      .ok (exitConv format p.args out)
  | 'n' => .error .other
  | ch =>
      if "AFafEeGg".toList.contains ch then .error .other
      else .ok (exitConv format p.args p.out)

/-- A turn of the loop. -/
def step (abi : Abi) (p : Printer) : Except Undefined Turn :=
  match p.format with
  | [] => .ok (.over false p)
  | ch :: format =>
      match p.state with
      | .default =>
          if ch = '%' then .ok (.next { p with state := .flags, format := format })
          else do
            let out ← p.out.outchar ch
            .ok (.next { p with out := out, format := format })
      | .flags => stepFlags abi ch format p
      | .width => stepWidth ch format p
      | .dot => .ok (stepDot ch format p)
      | .precision => stepPrecision ch format p
      | .mod => .ok (stepMod ch format p)
      | .conv => stepConv abi ch format p

/-! ### The number of turns -/

/-- How many turns a state can make before a character is consumed. -/
def PrintState.rank : PrintState → ℕ
  | .default => 0
  | .conv => 1
  | .mod => 2
  | .precision => 3
  | .dot => 4
  | .width => 5
  | .flags => 6

/-- A bound for the turns that are left. -/
def Printer.measure (p : Printer) : ℕ := 7 * p.format.length + p.state.rank

lemma PrintState.rank_le (s : PrintState) : s.rank ≤ 6 := by
  cases s <;> decide

/-- A turn that consumes `ch`, or goes on to a later state. -/
def Advances (ch : Char) (format : Text) (state : PrintState) (p' : Printer) : Prop :=
  p'.format.length ≤ format.length
    ∨ p'.format.length ≤ (ch :: format).length ∧ p'.state.rank < state.rank

section Measure

variable {abi : Abi} {ch : Char} {format : Text} {p p' : Printer}

lemma fastInteger_format {signed : Bool} {type : CType} {behindCh after : Text}
    (h : fastInteger abi signed type behindCh after p = .ok (.next p')) :
    p'.format = behindCh ∨ p'.format = after := by
  obtain ⟨⟨w, args⟩, -, h⟩ := bind_ok h
  dsimp only at h
  split at h
  · cases h
  · split at h
    · obtain ⟨out, -, h⟩ := bind_ok h
      cases h
      exact .inl rfl
    · obtain ⟨out, -, h⟩ := bind_ok h
      obtain ⟨s, -, h⟩ := bind_ok h
      obtain ⟨out', -, h⟩ := bind_ok h
      cases h
      exact .inr rfl

lemma stepFlags_advances (hformat : p.format = ch :: format)
    (h : stepFlags abi ch format p = .ok (.next p')) : Advances ch format .flags p' := by
  have hinteger : ∀ {signed : Bool} {type : CType} {after : Text}, after.length ≤ format.length →
      fastInteger abi signed type format after p = .ok (.next p') →
      Advances ch format .flags p' := by
    intro signed type after hle h
    rcases fastInteger_format h with heq | heq
    · exact .inl (by rw [heq])
    · exact .inl (by rw [heq]; exact hle)
  have hwidth : Advances ch format .flags { p with state := .width } :=
    .inr ⟨by rw [hformat], by change 5 < 6; omega⟩
  rw [stepFlags.eq_def] at h
  split at h
  -- the flags
  iterate 6
    · cases h
      exact .inl le_rfl
  · obtain ⟨⟨w, args⟩, -, h⟩ := bind_ok h
    obtain ⟨out, -, h⟩ := bind_ok h
    cases h
    exact .inl le_rfl
  · obtain ⟨⟨s, args⟩, -, h⟩ := bind_ok h
    cases s with
    | none => cases h
    | some v =>
        obtain ⟨out, -, h⟩ := bind_ok h
        cases h
        exact .inl le_rfl
  iterate 3
    · exact hinteger le_rfl h
  · split at h
    iterate 3
      · exact hinteger (by simp) h
    iterate 3
      · exact hinteger (by simp only [List.length_cons]; omega) h
    · cases h
      exact hwidth
  · obtain ⟨⟨w, args⟩, -, h⟩ := bind_ok h
    obtain ⟨out, -, h⟩ := bind_ok h
    cases h
    exact .inl le_rfl
  · cases h
    exact hwidth

lemma stepWidth_advances (hformat : p.format = ch :: format)
    (h : stepWidth ch format p = .ok (.next p')) : Advances ch format .width p' := by
  rw [stepWidth] at h
  split at h
  · split at h
    · cases h
    · cases h
      exact .inl le_rfl
  · split at h
    · obtain ⟨⟨w, args⟩, -, h⟩ := bind_ok h
      dsimp only at h
      split at h
      · cases h
      · split at h
        · cases h
          exact .inl le_rfl
        · cases h
          exact .inl le_rfl
    · cases h
      exact .inr ⟨by rw [hformat], by change 4 < 5; omega⟩

lemma stepDot_advances (hformat : p.format = ch :: format)
    (h : stepDot ch format p = .next p') : Advances ch format .dot p' := by
  rw [stepDot] at h
  split at h
  · cases h
    exact .inl le_rfl
  · cases h
    exact .inr ⟨by rw [hformat], by change 2 < 4; omega⟩

lemma stepPrecision_advances (hformat : p.format = ch :: format)
    (h : stepPrecision ch format p = .ok (.next p')) : Advances ch format .precision p' := by
  rw [stepPrecision] at h
  dsimp only at h
  split at h
  · split at h
    · cases h
    · cases h
      exact .inl le_rfl
  · split at h
    · obtain ⟨⟨w, args⟩, -, h⟩ := bind_ok h
      cases h
      exact .inl le_rfl
    · cases h
      exact .inr ⟨by rw [hformat], by change 2 < 3; omega⟩

lemma stepMod_advances (hformat : p.format = ch :: format)
    (h : stepMod ch format p = .next p') : Advances ch format .mod p' := by
  rw [stepMod.eq_def] at h
  split at h
  iterate 2
    · split at h
      · cases h
        exact .inl (by simp)
      · cases h
        exact .inl le_rfl
  iterate 4
    · cases h
      exact .inl le_rfl
  · cases h
    exact .inr ⟨by rw [hformat], by change 1 < 2; omega⟩

lemma convUnsigned_format {base : ℕ} {up : Bool}
    (h : convUnsigned abi base up format p = .ok (.next p')) : p'.format = format := by
  obtain ⟨⟨value, args⟩, -, h⟩ := bind_ok h
  obtain ⟨out, -, h⟩ := bind_ok h
  cases h
  rfl

lemma stepConv_format (h : stepConv abi ch format p = .ok (.next p')) : p'.format = format := by
  rw [stepConv.eq_def] at h
  split at h
  iterate 2
    · obtain ⟨⟨value, args⟩, -, h⟩ := bind_ok h
      obtain ⟨out, -, h⟩ := bind_ok h
      cases h
      rfl
  iterate 4
    · exact convUnsigned_format h
  iterate 3
    · obtain ⟨⟨value, args⟩, -, h⟩ := bind_ok h
      obtain ⟨out, -, h⟩ := bind_ok h
      cases h
      rfl
  · obtain ⟨out, -, h⟩ := bind_ok h
    cases h
    rfl
  · cases h
  · split at h
    · cases h
    · cases h
      rfl

/-- **Every turn advances**, so the loop ends. -/
lemma step_measure (h : step abi p = .ok (.next p')) : p'.measure < p.measure := by
  have hadvances : ∀ {ch : Char} {format : Text}, p.format = ch :: format →
      Advances ch format p.state p' → p'.measure < p.measure := by
    intro ch format hformat hadv
    have hrank := p'.state.rank_le
    rw [Printer.measure, Printer.measure, hformat]
    rcases hadv with hle | ⟨hle, hlt⟩
    · rw [List.length_cons]
      omega
    · omega
  rw [step] at h
  split at h
  · cases h
  · rename_i ch format hformat
    refine hadvances hformat ?_
    cases hstate : p.state with
    | default =>
        simp only [hstate] at h
        split at h
        · cases h
          exact .inl le_rfl
        · obtain ⟨out, -, h⟩ := bind_ok h
          cases h
          exact .inl le_rfl
    | flags =>
        simp only [hstate] at h
        exact stepFlags_advances hformat h
    | width =>
        simp only [hstate] at h
        exact stepWidth_advances hformat h
    | dot =>
        simp only [hstate] at h
        exact stepDot_advances hformat (Except.ok.inj h)
    | precision =>
        simp only [hstate] at h
        exact stepPrecision_advances hformat h
    | mod =>
        simp only [hstate] at h
        exact stepMod_advances hformat (Except.ok.inj h)
    | conv =>
        simp only [hstate] at h
        exact .inl (by rw [stepConv_format h])

end Measure

/-! ### The function -/

/-- The loop. -/
def run (abi : Abi) (p : Printer) : Except Undefined (Bool × Output) :=
  match _h : step abi p with
  | .error e => .error e
  | .ok (.over overflow p) => .ok (overflow, p.out)
  | .ok (.next p') => run abi p'
  termination_by p.measure
  decreasing_by exact step_measure ‹_›

/-- What a call leaves: the buffer, `len` and `overflow`. -/
structure Result where
  buf : Text
  len : ℕ
  overflow : Bool
  deriving DecidableEq, Repr

/-- The value that a call returns. -/
def Result.ret (r : Result) : ℤ := if r.overflow ∨ intMax ≤ r.len then -1 else r.len

/-- The variables before the loop. -/
def Printer.start (buf : Text) (format : Text) (args : List Arg) : Printer where
  out := ⟨buf, 0⟩
  state := .default
  format := format
  args := args
  base := 0
  cflags := .none
  flags := .none
  width := 0
  precision := -1

/-- The label `over`. -/
def atOver (overflow : Bool) (out : Output) : Except Undefined Result :=
  (out.store (if out.len < out.size then out.len else out.size - 1) '\x00').map
    fun out => ⟨out.buf, out.len, overflow⟩

/-- `o_vsnprintf` for a buffer, which is not the null pointer. -/
def vsnprintf (abi : Abi) (buf : Text) (format : CString) (args : List Arg) :
    Except Undefined Result :=
  if buf.length = 0 then .ok ⟨buf, 0, false⟩
  else do
    let (overflow, out) ← run abi (.start buf format.chars args)
    atOver overflow out

end PbEntityDb.Format
