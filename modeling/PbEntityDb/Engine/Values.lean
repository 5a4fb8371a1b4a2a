import PbEntityDb.Engine.Bind
import PbEntityDb.Zdb.Datetime

/-!
Fields and parameters as values.

* A `SqlValue` is what a field of a message and a parameter of a statement may have in
  common. `Leaf.fieldValue` is the value of a field, whatever becomes of it, and
  `BoundValue.value` that of a parameter as the database reads it.
* `Leaf.signedValue` is the value that `AddOneInputParam` gives the database for a
  field: libzdb has signed numbers only, and its times are DATETIMEs
  (`value_boundValue`).
* The characters of a string are not those of the field at `Exec`: the parameter
  refers to a temporary that is gone by then. `BoundValue.Holds` leaves it out, and
  `ZdbStatement.sent` is what reaches the database.
-/

namespace PbEntityDb

/-- A value, apart from its representation. -/
inductive SqlValue where
  | number (n : ℤ)
  | real (x : Double)
  /-- in seconds since the beginning of 1970 -/
  | time (t : ℤ)
  | text (s : Text)
  | bytes (s : Text)
  deriving DecidableEq, Repr

/-! ### Fields -/

namespace Leaf

/-- The value of a field. A `sfixed64` is a time. -/
def fieldValue (l : Leaf) : Option SqlValue :=
  match l.value with
  | .int32 v => some (.number v.toInt)
  | .int64 v => some (if l.field.type = .sfixed64 then .time v.toInt else .number v.toInt)
  | .uint32 v => some (.number v.toNat)
  | .uint64 v => some (.number v.toNat)
  | .double v => some (.real v)
  | .float v => some (.real v)
  | .bool b => some (.number (if b then 1 else 0))
  | .enum number => some (.number number.toInt)
  | .string s => some (if l.field.type = .bytes then .bytes s else .text s)
  | .group _ => none

/-- The value of a field as a signed number or a DATETIME: an unsigned number is the signed one
with the same bits, and a time has to lie in a year of a DATETIME. -/
def signedValue (l : Leaf) : Option SqlValue :=
  match l.value with
  | .uint32 v => some (.number v.toInt)
  | .uint64 v => some (.number v.toInt)
  | .int64 v =>
      if l.field.type = .sfixed64 then
        if StoredYear (localYear v.toInt) then some (.time v.toInt) else none
      else some (.number v.toInt)
  | _ => l.fieldValue

end Leaf

/-! ### Parameters -/

namespace BoundValue

/-- The value that the database reads in a parameter. -/
def value : BoundValue → Option SqlValue
  | int v => some (.number v.toInt)
  | llong v => some (.number v.toInt)
  | double v => some (.real v)
  | timestamp t => (MysqlTime.setTimestamp t).instant.map .time
  | string s => some (.text s)
  | blob s => some (.bytes s)

/-- The argument of `PreparedStatement_setString`. -/
def isString : BoundValue → Bool
  | string _ => true
  | _ => false

/-- The parameter has a value, and still has it at `Exec`. -/
def Holds (v : BoundValue) (x : SqlValue) : Prop := v.isString = false ∧ v.value = some x

/-- What is sent at `Exec` for a parameter, if `released` stands where its string was. -/
def sentFrom (released : Text) : BoundValue → BoundValue
  | string s => .string (released.take s.length)
  | v => v

lemma sentFrom_of_not_isString {v : BoundValue} (h : v.isString = false) (released : Text) :
    v.sentFrom released = v := by
  cases v with
  | string s => cases h
  | _ => rfl

end BoundValue

/-- **What `AddOneInputParam` makes of a field** that is no string: its value, as a signed
number or a DATETIME. -/
theorem value_boundValue {l : Leaf} {v : BoundValue} (h : l.boundValue = some v)
    (htype : l.field.type ≠ .string) : v.value = l.signedValue := by
  obtain ⟨⟨name, type, presence, oneof, defaultValue, htyped, hscalar⟩, hasBit, value, typed⟩ := l
  cases type <;> cases value <;>
    -- only values of the representation of the type are left, and types with a case
    first
      | (exfalso; simp [Scalar.cppType, FieldType.cppType] at typed; done)
      | (exfalso; cases h; done)
      | (exfalso; exact htype rfl)
      | skip
  all_goals cases h
  case sfixed64.int64 t =>
    simp only [BoundValue.value, instant_setTimestamp, Leaf.signedValue, if_true]
    split_ifs <;> rfl
  case bool.bool b => cases b <;> rfl
  all_goals rfl

/-- The parameters of the `string` fields are strings, and no others. -/
lemma isString_boundValue {l : Leaf} {v : BoundValue} (h : l.boundValue = some v) :
    v.isString = true ↔ l.field.type = .string := by
  obtain ⟨⟨name, type, presence, oneof, defaultValue, htyped, hscalar⟩, hasBit, value, typed⟩ := l
  cases type <;> cases value <;> cases h <;> simp [BoundValue.isString]

/-- No other field is bound as a string. -/
lemma isString_eq_false {l : Leaf} {v : BoundValue} (h : l.boundValue = some v)
    (htype : l.field.type ≠ .string) : v.isString = false := by
  rw [← Bool.not_eq_true, isString_boundValue h]
  exact htype

/-- A field that is bound holds its value if it is no string and the value is one of a signed
number or a DATETIME. -/
lemma holds_boundValue {l : Leaf} {v : BoundValue} (h : l.boundValue = some v) (x : SqlValue) :
    v.Holds x ↔ l.field.type ≠ .string ∧ l.signedValue = some x := by
  rw [BoundValue.Holds, ← Bool.not_eq_true, isString_boundValue h]
  exact and_congr_right fun htype => by rw [value_boundValue h htype]

/-! ### What is sent -/

/-- The values of a list of parameters, each string from its released storage. -/
def sentValues (heap : ℕ → Text) (vs : List BoundValue) : List BoundValue :=
  vs.mapIdx fun i v => v.sentFrom (heap i)

@[simp] lemma length_sentValues (heap : ℕ → Text) (vs : List BoundValue) :
    (sentValues heap vs).length = vs.length := List.length_mapIdx

/-- What is no string is sent as it was bound. -/
lemma mem_zip_sentValues {α : Type} {xs : List α} {vs : List BoundValue} {x : α} {v : BoundValue}
    (h : (x, v) ∈ xs.zip vs) (hv : v.isString = false) (heap : ℕ → Text) :
    (x, v) ∈ xs.zip (sentValues heap vs) := by
  obtain ⟨i, hi, heq⟩ := List.mem_iff_getElem.mp h
  rw [List.getElem_zip, Prod.mk.injEq] at heq
  have hi' : i < (xs.zip (sentValues heap vs)).length := by
    simpa using hi
  refine List.mem_iff_getElem.mpr ⟨i, hi', ?_⟩
  rw [List.getElem_zip, Prod.mk.injEq]
  refine ⟨heq.1, ?_⟩
  simp only [sentValues, List.getElem_mapIdx, heq.2]
  exact BoundValue.sentFrom_of_not_isString hv _

namespace ZdbStatement

/-- A statement as the database gets it at `Exec`; `heap i` is what stands where the string of
slot `i` was. -/
def sent (heap : ℕ → Text) (s : ZdbStatement) : ZdbStatement :=
  { s with
    stmt := s.stmt.map fun p =>
      ⟨p.slots.mapIdx fun i slot => slot.map (BoundValue.sentFrom (heap i))⟩ }

lemma sent_holding (heap : ℕ → Text) (sql : Text) (n : ℕ) (vs : List BoundValue) :
    (holding sql n vs).sent heap = holding sql n (sentValues heap vs) := by
  have hslots : (filled n vs).mapIdx (fun i slot => slot.map (BoundValue.sentFrom (heap i)))
      = filled n (sentValues heap vs) := by
    rw [filled, filled, length_sentValues, List.mapIdx_append]
    congr 1
    · refine List.ext_getElem (by simp) fun i hi hi' => ?_
      simp [sentValues]
    · refine List.ext_getElem (by simp) fun i hi hi' => ?_
      simp
  simp only [sent, holding, Option.map_some, hslots, length_sentValues]

end ZdbStatement

end PbEntityDb
