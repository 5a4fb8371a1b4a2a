import Mathlib.Tactic

/-!
Texts, names and the ways in which a call can leave defined behaviour.

* `Text`: a C string, as the list of its `char`s; where the values of the bytes
  matter, `CBytes` is one as the list of its bytes.
* `Name`: the name of a field, column or table. The statement builders write it
  between backquotes without escaping it, hand the text on as a C string and
  pass that string to libzdb as a format, so a `Name` has no backquote, no NUL
  and no percent sign.
* `Fault`: what the C++ code does instead of returning.
-/

namespace PbEntityDb

/-- A C string: the list of its `char`s, the terminator left out. -/
abbrev Text := List Char

/-- A byte of a C string. -/
abbrev Byte := BitVec 8

/-- The byte of an ASCII character. -/
def byte (c : Char) : Byte := BitVec.ofNat 8 c.toNat

/-- The bytes of an ASCII text. -/
def ascii (s : String) : List Byte := s.toList.map byte

/-- The bytes of a C string in front of its NUL. -/
@[ext]
structure CBytes where
  bytes : List Byte
  nul_free : 0 ∉ bytes
  deriving DecidableEq, Repr

/-- The backquote, which opens and closes a name in a statement. -/
def backquote : Char := '\x60'

/-- A character that a name may consist of. -/
def nameChar (c : Char) : Bool := c ≠ backquote && c ≠ '\x00' && c ≠ '%'

/-- The name of a field, a column or a table. -/
structure Name where
  chars : Text
  plain : ∀ c ∈ chars, nameChar c = true
  deriving DecidableEq, Repr

namespace Name

lemma ext_chars {a b : Name} (h : a.chars = b.chars) : a = b := by
  cases a; cases b; simpa using h

lemma chars_injective : Function.Injective Name.chars := fun _ _ h => ext_chars h

lemma backquote_notMem (a : Name) : backquote ∉ a.chars := fun h => by
  have := a.plain backquote h
  simp [nameChar] at this

end Name

/-- The ways out of defined behaviour. -/
inductive Fault where
  /-- a store outside a fixed array -/
  | bufferOverflow
  /-- a reflection accessor of another C++ type than the field's, `GOOGLE_LOG(FATAL)` -/
  | typeMismatch
  /-- a parameter index beyond the placeholders, the forced crash of `checkAndSetParameterIndex` -/
  | parameterIndex
  /-- a `PreparedStatement_set*` call on a statement that was not prepared -/
  | nullStatement
  /-- a column index outside the result set, an exception nobody catches -/
  | columnIndex
  /-- an `SQLException` of libzdb outside every `TRY`, which ends in `ABORT` -/
  | sqlException
  /-- a recursion that ran out of stack -/
  | stackOverflow
  deriving DecidableEq, Repr

/-- A bind that returned. -/
lemma bind_ok {ε α β : Type} {x : Except ε α} {f : α → Except ε β} {b : β}
    (h : x.bind f = .ok b) : ∃ a, x = .ok a ∧ f a = .ok b := by
  cases x with
  | error e => cases h
  | ok a => exact ⟨a, rfl, h⟩

end PbEntityDb
