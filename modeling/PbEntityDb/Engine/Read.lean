import PbEntityDb.Engine.Bind
import PbEntityDb.Library.Binary32
import PbEntityDb.Proto.Descriptor
import PbEntityDb.Zdb.Datetime

/-!
Reading a result set into a record: `ParseEntityResult`.

* `Native` is a column of the current row in the buffer of libzdb, in the
  binary form of its type. An accessor of another type finds something in that
  buffer as well; what it is, is left open (`Stray`). The size of a blob is
  taken to be as wide as the `int` it is handed over through.
* `readValue` is the type switch that `AddFirstReturnRecord` and
  `AddReturnRecord` share, the first with a column found by its name, the
  second with a column found by its index.
* `addFirstReturnRecord` and `addReturnRecord` are the two walks over the type
  of the record, with the room of the stack as fuel.
-/

namespace PbEntityDb

/-- A column of the current row. -/
inductive Native where
  | null
  /-- `MYSQL_TYPE_LONG` -/
  | long (v : BitVec 32)
  /-- `MYSQL_TYPE_LONGLONG` -/
  | longlong (v : BitVec 64)
  /-- `MYSQL_TYPE_DOUBLE` -/
  | double (v : Double)
  /-- `MYSQL_TYPE_FLOAT` -/
  | float (v : BitVec 32)
  /-- `MYSQL_TYPE_DATETIME` and `MYSQL_TYPE_TIMESTAMP`, with the time that
  `MysqlResultSet_getTimestamp` makes of its components -/
  | datetime (t : BitVec 64)
  /-- `MYSQL_TYPE_STRING` and its kind -/
  | text (s : Text)
  /-- `MYSQL_TYPE_BLOB` and its kind -/
  | blob (s : Text)
  /-- any other type -/
  | other (buffer : Text)
  deriving DecidableEq, Repr

/-- A DATETIME column with these components. -/
def MysqlTime.native (tmVal : MysqlTime) : Option Native := tmVal.getTimestamp.map .datetime

/-- A column with its name. -/
structure Column where
  name : Text
  cell : Native
  deriving DecidableEq, Repr

/-- What the accessors find in the buffer of a column of another type. -/
structure Stray where
  int : Native → BitVec 32
  llong : Native → BitVec 64
  double : Native → Double
  float : Native → Double
  time : Native → BitVec 64
  bytes : Native → Text

/-! ### The accessors of libzdb -/

section Accessors

variable (stray : Stray)

/-- `ResultSet_getInt`. -/
def getInt : Native → BitVec 32
  | .null => 0
  | .long v => v
  | c => stray.int c

/-- `ResultSet_getLLong`. -/
def getLLong : Native → BitVec 64
  | .null => 0
  | .longlong v => v
  | c => stray.llong c

/-- `ResultSet_getDouble`. -/
def getDouble : Native → Double
  | .null => 0
  | .double v => v
  | c => stray.double c

/-- `ResultSet_getFloat`, as a double: the four bytes at the beginning of the buffer, in a
DOUBLE the low half of the number. -/
def getFloat : Native → Double
  | .null => 0
  | .float v => Binary32.widen v
  | .double v => Binary32.widen (Binary32.lowHalf v)
  | c => stray.float c

/-- `ResultSet_getTimestamp`. -/
def getTimestamp : Native → BitVec 64
  | .null => 0
  | .datetime t => t
  | c => stray.time c

/-- `ResultSet_getBlob`, `none` for the null pointer. -/
def getBlob : Native → Option Text
  | .null => none
  | .text s => some s
  | .blob s => some s
  | c => some (stray.bytes c)

/-- `ResultSet_getString`, read as a C string. -/
def getString (c : Native) : Option Text := (getBlob stray c).map cString

end Accessors

/-- `_getIndex`: the index of the first column of a name; indices start at one. -/
def getIndex (row : List Column) (name : Text) : Option ℕ :=
  (row.findIdx? fun c => c.name = name).map (· + 1)

/-- The column of an index. -/
def cellAt (row : List Column) (nField : ℕ) : Except Fault Native :=
  if nField = 0 then .error .columnIndex
  else match row[nField - 1]? with
    | none => .error .columnIndex
    | some c => .ok c.cell

/-- The first column of a name. -/
def cellNamed (row : List Column) (name : Text) : Option Native :=
  (row.find? fun c => c.name = name).map Column.cell

/-! ### The type switch -/

/-- `INT32_MIN`. -/
def int32Min : BitVec 32 := 0x80000000

/-- `INT64_MIN`. -/
def int64Min : BitVec 64 := 0x8000000000000000

/-- `DBL_MIN`. -/
def dblMin : Double := 0x0010000000000000

/-- `FLT_MIN`, as a double. -/
def fltMin : Double := 0x3810000000000000

/-- The type switch of `AddFirstReturnRecord` and `AddReturnRecord`: the value
given to the setter, or `none` for a type without a case. Without a column the
variable keeps what it was initialised with. -/
def readValue (stray : Stray) (d : FieldDescriptor) (found : Option Native) : Option Scalar :=
  match d.type with
  | .sfixed64 => some (.int64 (found.elim int64Min (getTimestamp stray)))
  | .fixed64 | .int64 => some (.int64 (found.elim int64Min (getLLong stray)))
  | .uint64 => some (.uint64 (found.elim int64Min (getLLong stray)))
  | .fixed32 | .int32 => some (.int32 (found.elim int32Min (getInt stray)))
  | .uint32 => some (.uint32 (found.elim int32Min (getInt stray)))
  | .string => some (.string ((found.bind (getString stray)).getD []))
  | .bytes => some (.string ((found.bind (getBlob stray)).getD []))
  | .double => some (.double (found.elim dblMin (getDouble stray)))
  | .float => some (.float (found.elim fltMin (getFloat stray)))
  | .bool => some (.bool (found.elim int32Min (getInt stray) ≠ 0))
  | .enum | .group | .message | .sfixed32 | .sint32 | .sint64 => none

/-- The type has a case in the switch. -/
def FieldDescriptor.isRead (d : FieldDescriptor) : Bool :=
  match d.type with
  | .enum | .group | .message | .sfixed32 | .sint32 | .sint64 => false
  | _ => true

/-- The check of the setters: the value has the C++ type of the field. -/
def setter (d : FieldDescriptor) (v : Scalar) : Except Fault Field :=
  if h : v.cppType = d.type.cppType then .ok (.leaf ⟨d, true, v, h⟩) else .error .typeMismatch

/-! ### The walks -/

/-- `arrIndex` and `nIndex`. -/
structure ReadState where
  arrIndex : List ℕ
  nIndex : ℕ
  deriving DecidableEq, Repr

/-- The size of `arrIndex`. -/
def arrIndexSize : ℕ := 256

/-- `arrIndex[nIndex++] = nFieldIndex`. -/
def storeIndex (st : ReadState) (nFieldIndex : ℕ) : Except Fault ReadState :=
  if st.nIndex < arrIndexSize then
    .ok ⟨st.arrIndex.set st.nIndex nFieldIndex, st.nIndex + 1⟩
  else .error .bufferOverflow

/-- `Reflection::MutableMessage` for the field with index `i`: the message that
is there already, or a new one. -/
def mutableMessage (pool : Pool) (i : ℕ) (f : MessageField) (record : Message) : Message :=
  match record[i]? with
  | some (.message _ sub) => sub
  | _ => emptyMessage pool f.messageType

section Walks

variable (pool : Pool) (stray : Stray) (row : List Column)

/-- The loop of `AddFirstReturnRecord` over the fields of a type; `sub` is the
function itself, for the message fields. -/
def firstLoop (sub : Text → Message → ReadState → Except Fault (Message × ReadState)) :
    List FieldDecl → ℕ → Message → ℕ → ReadState → Except Fault (Message × ReadState)
  | [], _, record, _, st => .ok (record, st)
  | .leaf d :: ds, i, record, nFieldIndex, st =>
      match readValue stray d (cellNamed row d.name.chars) with
      | none => do
          let st ← storeIndex st nFieldIndex
          firstLoop sub ds (i + 1) record nFieldIndex st
      | some v => do
          -- a column that is not there leaves the index of the field before
          let nFieldIndex := (getIndex row d.name.chars).getD nFieldIndex
          let f ← setter d v
          let st ← storeIndex st nFieldIndex
          firstLoop sub ds (i + 1) (setAt i f record) nFieldIndex st
  | .message f :: ds, i, record, nFieldIndex, st => do
      let (pSub, st) ← sub f.messageType (mutableMessage pool i f record) st
      let st ← storeIndex st nFieldIndex
      firstLoop sub ds (i + 1) (setAt i (.message f pSub) record) nFieldIndex st
  | .repeated _ :: ds, i, record, nFieldIndex, st =>
      firstLoop sub ds (i + 1) record nFieldIndex st
  | .repeatedMessage _ :: ds, i, record, nFieldIndex, st =>
      firstLoop sub ds (i + 1) record nFieldIndex st

/-- `Protobuf2DbEngine::AddFirstReturnRecord`, with room for `stack` calls. -/
def addFirstReturnRecord : ℕ → Text → Message → ReadState → Except Fault (Message × ReadState)
  | 0, _, _, _ => .error .stackOverflow
  | stack + 1, messageType, oneRecord, st =>
      firstLoop pool stray row (addFirstReturnRecord stack) (pool messageType) 0 oneRecord 0 st

/-- The loop of `AddReturnRecord`. -/
def returnLoop (sub : Text → Message → ReadState → Except Fault (Message × ReadState)) :
    List FieldDecl → ℕ → Message → ReadState → Except Fault (Message × ReadState)
  | [], _, record, st => .ok (record, st)
  | .leaf d :: ds, i, record, st =>
      if d.isRead then
        match st.arrIndex[st.nIndex]? with
        | none => .error .bufferOverflow
        | some nField => do
            let cell ← cellAt row nField
            match readValue stray d (some cell) with
            | none => returnLoop sub ds (i + 1) record ⟨st.arrIndex, st.nIndex + 1⟩
            | some v => do
                let f ← setter d v
                returnLoop sub ds (i + 1) (setAt i f record) ⟨st.arrIndex, st.nIndex + 1⟩
      else returnLoop sub ds (i + 1) record ⟨st.arrIndex, st.nIndex + 1⟩
  | .message f :: ds, i, record, st => do
      let (pSub, st) ← sub f.messageType (mutableMessage pool i f record) st
      returnLoop sub ds (i + 1) (setAt i (.message f pSub) record) ⟨st.arrIndex, st.nIndex + 1⟩
  | .repeated _ :: ds, i, record, st => returnLoop sub ds (i + 1) record st
  | .repeatedMessage _ :: ds, i, record, st => returnLoop sub ds (i + 1) record st

/-- `Protobuf2DbEngine::AddReturnRecord`, with room for `stack` calls. -/
def addReturnRecord : ℕ → Text → Message → ReadState → Except Fault (Message × ReadState)
  | 0, _, _, _ => .error .stackOverflow
  | stack + 1, messageType, oneRecord, st =>
      returnLoop pool stray row (addReturnRecord stack) (pool messageType) 0 oneRecord st

end Walks

/-- The rows behind the first one, read into the same record. -/
def moreRecords (pool : Pool) (stray : Stray) (stack : ℕ) (messageType : Text) (arrIndex : List ℕ) :
    Message → List (List Column) → Except Fault (List Message)
  | _, [] => .ok []
  | record, row :: rows => do
      let (record, _) ← addReturnRecord pool stray row stack messageType record ⟨arrIndex, 0⟩
      let vResult ← moreRecords pool stray stack messageType arrIndex record rows
      .ok (record :: vResult)

/-- `Protobuf2DbEngine::ParseEntityResult`: the records it pushes. -/
def parseEntityResult (pool : Pool) (stray : Stray) (stack : ℕ) (messageType : Text)
    (record : Message) : List (List Column) → Except Fault (List Message)
  | [] => .ok []
  | row :: rows => do
      let (record, st) ← addFirstReturnRecord pool stray row stack messageType record
        ⟨List.replicate arrIndexSize 0, 0⟩
      let vResult ← moreRecords pool stray stack messageType st.arrIndex record rows
      .ok (record :: vResult)

/-! ### The switch and the setters -/

/-- The types with a case are those that give a value. -/
lemma readValue_isSome (stray : Stray) (d : FieldDescriptor) (found : Option Native) :
    (readValue stray d found).isSome = d.isRead := by
  obtain ⟨name, type, presence, oneof, defaultValue, htyped, hscalar⟩ := d
  cases type <;> rfl

/-- The descriptors of the types whose setter is that of the other signedness. -/
def FieldDescriptor.isFixed (d : FieldDescriptor) : Bool :=
  match d.type with
  | .fixed64 | .fixed32 => true
  | _ => false

lemma FieldDescriptor.not_isFixed {d : FieldDescriptor} (h : d.isRead = false) :
    d.isFixed = false := by
  obtain ⟨name, type, presence, oneof, defaultValue, htyped, hscalar⟩ := d
  cases type <;> first | rfl | cases h

/-- A value that was read passes the check of its setter, except for the two
fixed types. -/
lemma setter_readValue {stray : Stray} {d : FieldDescriptor} {found : Option Native} {v : Scalar}
    (h : readValue stray d found = some v) :
    (d.isFixed = true → setter d v = .error .typeMismatch)
      ∧ (d.isFixed = false → ∃ hv, setter d v = .ok (.leaf ⟨d, true, v, hv⟩)) := by
  obtain ⟨name, type, presence, oneof, defaultValue, htyped, hscalar⟩ := d
  cases type <;> cases h <;>
    simp [setter, FieldDescriptor.isFixed, Scalar.cppType, FieldType.cppType]

end PbEntityDb
