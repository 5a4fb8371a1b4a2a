import PbEntityDb.Basic

/-!
The fields of protobuf messages as reflection sees them.

* `FieldType` is `FieldDescriptor::Type`, `CppType` the representation a field
  of that type has in memory, `FieldType.cppType` the table
  `kTypeToCppTypeMap` between them.
* `Scalar` is a value together with its representation. The reflection getters
  abort the process on a representation other than their own.
* `Leaf` is a singular field that is no message, with its value; the value has
  the representation that the field's type asks for. `Leaf.hasField` is
  `Reflection::HasField`: a presence bit where the field tracks presence, and
  otherwise a value other than zero.
-/

namespace PbEntityDb

/-- `google::protobuf::FieldDescriptor::Type`. -/
inductive FieldType where
  | double | float | int64 | uint64 | int32 | fixed64 | fixed32 | bool | string
  | group | message | bytes | uint32 | enum | sfixed32 | sfixed64 | sint32 | sint64
  deriving DecidableEq, Repr

/-- `google::protobuf::FieldDescriptor::CppType`. -/
inductive CppType where
  | int32 | int64 | uint32 | uint64 | double | float | bool | enum | string | message
  deriving DecidableEq, Repr

/-- `FieldDescriptor::kTypeToCppTypeMap`. -/
def FieldType.cppType : FieldType → CppType
  | .double => .double
  | .float => .float
  | .int64 => .int64
  | .uint64 => .uint64
  | .int32 => .int32
  | .fixed64 => .uint64
  | .fixed32 => .uint32
  | .bool => .bool
  | .string => .string
  | .group => .message
  | .message => .message
  | .bytes => .string
  | .uint32 => .uint32
  | .enum => .enum
  | .sfixed32 => .int32
  | .sfixed64 => .int64
  | .sint32 => .int32
  | .sint64 => .int64

/-- A floating point number: its bits, on which nothing is computed. -/
abbrev Double := BitVec 64

/-- The value of a singular field. The content of a group is kept as its string,
the engine never looks into it; a `float` is kept as the double it converts to. -/
inductive Scalar where
  | int32 (v : BitVec 32)
  | int64 (v : BitVec 64)
  | uint32 (v : BitVec 32)
  | uint64 (v : BitVec 64)
  | double (v : Double)
  | float (v : Double)
  | bool (b : Bool)
  | enum (number : BitVec 32)
  | string (s : Text)
  | group (content : Text)
  deriving DecidableEq, Repr

namespace Scalar

/-- The representation of a value. -/
def cppType : Scalar → CppType
  | int32 _ => .int32
  | int64 _ => .int64
  | uint32 _ => .uint32
  | uint64 _ => .uint64
  | double _ => .double
  | float _ => .float
  | bool _ => .bool
  | enum _ => .enum
  | string _ => .string
  | group _ => .message

/-- The comparison with zero in `GeneratedMessageReflection::HasBit`; a floating
point number is zero also with its sign bit set. -/
def isZero : Scalar → Bool
  | int32 v => v = 0
  | int64 v => v = 0
  | uint32 v => v = 0
  | uint64 v => v = 0
  | double v => v <<< 1 = 0
  | float v => v <<< 1 = 0
  | bool b => !b
  | enum n => n = 0
  | string s => s.isEmpty
  | group _ => false

/-! ### The reflection getters -/

/-- `Reflection::GetInt32`. -/
def getInt32 : Scalar → Except Fault (BitVec 32)
  | int32 v => .ok v
  | _ => .error .typeMismatch

/-- `Reflection::GetInt64`. -/
def getInt64 : Scalar → Except Fault (BitVec 64)
  | int64 v => .ok v
  | _ => .error .typeMismatch

/-- `Reflection::GetUInt32`. -/
def getUInt32 : Scalar → Except Fault (BitVec 32)
  | uint32 v => .ok v
  | _ => .error .typeMismatch

/-- `Reflection::GetUInt64`. -/
def getUInt64 : Scalar → Except Fault (BitVec 64)
  | uint64 v => .ok v
  | _ => .error .typeMismatch

/-- `Reflection::GetDouble`. -/
def getDouble : Scalar → Except Fault Double
  | double v => .ok v
  | _ => .error .typeMismatch

/-- `Reflection::GetFloat`. -/
def getFloat : Scalar → Except Fault Double
  | float v => .ok v
  | _ => .error .typeMismatch

/-- `Reflection::GetBool`. -/
def getBool : Scalar → Except Fault Bool
  | bool b => .ok b
  | _ => .error .typeMismatch

/-- `Reflection::GetEnum`, the number of the value it returns. -/
def getEnum : Scalar → Except Fault (BitVec 32)
  | enum n => .ok n
  | _ => .error .typeMismatch

/-- `Reflection::GetStringReference`. -/
def getStringReference : Scalar → Except Fault Text
  | string s => .ok s
  | _ => .error .typeMismatch

end Scalar

/-- The descriptor of a singular field that is no message. -/
structure FieldDescriptor where
  name : Name
  type : FieldType
  /-- the field tracks its presence in a bit of its own -/
  presence : Bool
  /-- the oneof the field is a member of -/
  oneof : Option ℕ
  /-- the value of the field in an empty message -/
  defaultValue : Scalar
  typed : defaultValue.cppType = type.cppType
  scalar : type ≠ .message
  deriving DecidableEq, Repr

/-- A singular field that is no message, with what a message stores for it. -/
structure Leaf where
  field : FieldDescriptor
  hasBit : Bool
  value : Scalar
  typed : value.cppType = field.type.cppType
  deriving DecidableEq, Repr

namespace Leaf

/-- The name of the field. -/
def name (l : Leaf) : Name := l.field.name

/-- `Reflection::HasField`. -/
def hasField (l : Leaf) : Bool :=
  if l.field.presence then l.hasBit else !l.value.isZero

end Leaf

/-- The descriptor of a message field, singular or repeated. -/
structure MessageField where
  name : Name
  /-- the oneof the field is a member of -/
  oneof : Option ℕ
  /-- the name of the message type -/
  messageType : Text
  deriving DecidableEq, Repr

end PbEntityDb
