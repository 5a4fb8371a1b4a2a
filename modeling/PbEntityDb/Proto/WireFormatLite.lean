import PbEntityDb.Library.Binary32
import PbEntityDb.Proto.CodedStream
import PbEntityDb.Proto.Field

/-!
Tags and values of the wire format, `WireFormatLite`.

* A tag is a field number with a `WireType` in its low bits: `makeTag`,
  `getTagFieldNumber`, `getTagWireType`.
* `writeNoTag` writes a value of a field type that is no message and `readPrimitive` reads
  one; a `Value` has the representation that its type asks for.
* `readPrimitive_write`: **what is written of a value is read back**, for each type.
* `size_eq`: the bytes of a value are counted without writing it.
-/

namespace PbEntityDb

namespace WireFormat

open Coded

/-! ### Tags -/

/-- `WireFormatLite::WireType`. -/
inductive WireType where
  | varint | fixed64 | lengthDelimited | startGroup | endGroup | fixed32
  deriving DecidableEq, Repr

/-- The number of a wire type. -/
def WireType.code : WireType → ℕ
  | .varint => 0
  | .fixed64 => 1
  | .lengthDelimited => 2
  | .startGroup => 3
  | .endGroup => 4
  | .fixed32 => 5

/-- `WireFormatLite::kWireTypeForFieldType`. -/
def wireTypeForFieldType : FieldType → WireType
  | .double => .fixed64
  | .float => .fixed32
  | .int64 => .varint
  | .uint64 => .varint
  | .int32 => .varint
  | .fixed64 => .fixed64
  | .fixed32 => .fixed32
  | .bool => .varint
  | .string => .lengthDelimited
  | .group => .startGroup
  | .message => .lengthDelimited
  | .bytes => .lengthDelimited
  | .uint32 => .varint
  | .enum => .varint
  | .sfixed32 => .fixed32
  | .sfixed64 => .fixed64
  | .sint32 => .varint
  | .sint64 => .varint

/-- `WireFormatLite::MakeTag`. -/
def makeTag (number : ℕ) (type : WireType) : BitVec 32 :=
  BitVec.ofNat 32 number <<< 3 ||| BitVec.ofNat 32 type.code

/-- `WireFormatLite::GetTagWireType`, the number. -/
def getTagWireType (tag : BitVec 32) : ℕ := (tag &&& 7).toNat

/-- `WireFormatLite::GetTagFieldNumber`. -/
def getTagFieldNumber (tag : BitVec 32) : ℕ := (tag >>> 3).toNat

/-- `WireFormatLite::WriteTag`. -/
def writeTag (number : ℕ) (type : WireType) : List Byte := writeVarint32 (makeTag number type)

/-- `WireFormatLite::TagSize` for a type that is no group. -/
def tagSize (number : ℕ) : ℕ := varintSize (BitVec.ofNat 32 number <<< 3).toNat

/-- The number of a field: protoc gives out those of 29 bits. -/
structure FieldNumber where
  val : ℕ
  pos : 0 < val
  lt : val < 2 ^ 29
  deriving DecidableEq, Repr

lemma WireType.code_lt (t : WireType) : t.code < 8 := by cases t <;> decide

lemma WireType.code_injective : Function.Injective WireType.code := by
  intro a b h
  cases a <;> cases b <;> first | rfl | cases h

lemma toNat_makeTag {n : ℕ} (h : n < 2 ^ 29) (t : WireType) :
    (makeTag n t).toNat = 8 * n + t.code := by
  have hcode := t.code_lt
  have hn : n < 2 ^ 32 := by omega
  rw [makeTag, BitVec.toNat_or, BitVec.toNat_shiftLeft, BitVec.toNat_ofNat, BitVec.toNat_ofNat,
    Nat.mod_eq_of_lt hn, Nat.mod_eq_of_lt (by omega : t.code < 2 ^ 32), Nat.shiftLeft_eq,
    Nat.mod_eq_of_lt (by omega), Nat.mul_comm]
  exact (Nat.two_pow_add_eq_or_of_lt (i := 3) (by omega) n).symm

lemma getTagWireType_eq (tag : BitVec 32) : getTagWireType tag = tag.toNat % 8 := by
  rw [getTagWireType, BitVec.toNat_and]
  exact Nat.and_two_pow_sub_one_eq_mod tag.toNat 3

lemma getTagFieldNumber_eq (tag : BitVec 32) : getTagFieldNumber tag = tag.toNat / 8 := by
  rw [getTagFieldNumber, BitVec.toNat_ushiftRight, Nat.shiftRight_eq_div_pow]

lemma getTagFieldNumber_lt (tag : BitVec 32) : getTagFieldNumber tag < 2 ^ 29 := by
  have := tag.isLt
  rw [getTagFieldNumber_eq]
  omega

@[simp]
lemma getTagWireType_makeTag {n : ℕ} (h : n < 2 ^ 29) (t : WireType) :
    getTagWireType (makeTag n t) = t.code := by
  have := t.code_lt
  rw [getTagWireType_eq, toNat_makeTag h]
  omega

@[simp]
lemma getTagFieldNumber_makeTag {n : ℕ} (h : n < 2 ^ 29) (t : WireType) :
    getTagFieldNumber (makeTag n t) = n := by
  have := t.code_lt
  rw [getTagFieldNumber_eq, toNat_makeTag h]
  omega

/-- A tag is made of its parts. -/
lemma makeTag_parts {tag : BitVec 32} {t : WireType} (h : getTagWireType tag = t.code) :
    makeTag (getTagFieldNumber tag) t = tag := by
  refine BitVec.eq_of_toNat_eq ?_
  rw [getTagWireType_eq] at h
  rw [toNat_makeTag (getTagFieldNumber_lt tag), getTagFieldNumber_eq, ← h]
  omega

/-- **A tag that is written is read**, where a field may begin. -/
lemma readTag_writeTag (n : FieldNumber) (t : WireType) (rest : List Byte) :
    readTag (writeTag n.val t ++ rest) = .tag (makeTag n.val t) rest := by
  have htag := toNat_makeTag n.lt t
  have hpos := n.pos
  have hread : readTag (writeVarint (makeTag n.val t).toNat ++ rest)
      = .tag (BitVec.ofNat 32 (makeTag n.val t).toNat) rest :=
    readTag_write (by omega) (BitVec.isLt _) rest
  rw [writeTag, writeVarint32, hread, BitVec.ofNat_toNat, BitVec.setWidth_eq]

/-- A tag has the size that is counted for its number. -/
lemma tagSize_eq (n : FieldNumber) (t : WireType) : tagSize n.val = (writeTag n.val t).length := by
  have hlt := n.lt
  have hcode := t.code_lt
  have hshift : (BitVec.ofNat 32 n.val <<< 3).toNat = 8 * n.val := by
    rw [BitVec.toNat_shiftLeft, BitVec.toNat_ofNat, Nat.shiftLeft_eq]
    omega
  rw [tagSize, hshift, varintSize_eq (by omega), writeTag, writeVarint32, toNat_makeTag hlt,
    writeVarint, writeVarint, Varint.length_encode (by omega), Varint.length_encode (by omega)]
  -- the low bits of a tag never fill a byte of their own
  have hpos := n.pos
  have hlog : ∀ c < 8, Nat.log 2 (8 * n.val + c) = Nat.log 2 n.val + 3 := by
    intro c hc
    have hsub := Nat.log_div_base_pow 2 (8 * n.val + c) 3
    have hle : 3 ≤ Nat.log 2 (8 * n.val + c) := Nat.le_log_of_pow_le (by omega) (by omega)
    rw [show (8 * n.val + c) / 2 ^ 3 = n.val by omega] at hsub
    omega
  have hdigits : ∀ m, Nat.log 128 m = Nat.log 2 m / 7 := Nat.log_pow_left 2 7
  have hzero : Nat.log 2 (8 * n.val) = Nat.log 2 n.val + 3 := hlog 0 (by omega)
  rw [hdigits, hdigits, hlog _ hcode, hzero]

/-! ### Values -/

/-- `ZigZagEncode32` and `ZigZagEncode64`. -/
def zigZagEncode {w : ℕ} (n : BitVec w) : BitVec w := n <<< 1 ^^^ n.sshiftRight (w - 1)

/-- `ZigZagDecode32` and `ZigZagDecode64`. -/
def zigZagDecode {w : ℕ} (n : BitVec w) : BitVec w := n >>> 1 ^^^ (~~~(n &&& 1) + 1)

/-- The bytes of a string; a character of a `Text` stands for a byte. -/
def bytesOf (s : Text) : List Byte := s.map byte

/-- The string of some bytes. -/
def textOf (bs : List Byte) : Text := bs.map fun b => Char.ofNat b.toNat

/-- A value of the representation that a field type asks for. -/
abbrev Value (t : FieldType) := {v : Scalar // v.cppType = t.cppType}

/-- The `Write...NoTag` functions of the types and, for a string, its length in front of
it. A `float` is written with its own 32 bits. -/
def writeNoTag (t : FieldType) (v : Scalar) : List Byte :=
  match t, v with
  | .int32, .int32 v => writeVarint32SignExtended v
  | .int64, .int64 v => writeVarint64 v
  | .uint32, .uint32 v => writeVarint32 v
  | .uint64, .uint64 v => writeVarint64 v
  | .sint32, .int32 v => writeVarint32 (zigZagEncode v)
  | .sint64, .int64 v => writeVarint64 (zigZagEncode v)
  | .fixed32, .uint32 v => writeLittleEndian32 v
  | .fixed64, .uint64 v => writeLittleEndian64 v
  | .sfixed32, .int32 v => writeLittleEndian32 v
  | .sfixed64, .int64 v => writeLittleEndian64 v
  | .float, .float v => writeLittleEndian32 (Binary32.narrow v)
  | .double, .double v => writeLittleEndian64 v
  | .bool, .bool b => writeVarint32 (if b then 1 else 0)
  | .enum, .enum n => writeVarint32SignExtended n
  | .string, .string s => writeVarint (bytesOf s).length ++ bytesOf s
  | .bytes, .string s => writeVarint (bytesOf s).length ++ bytesOf s
  | _, _ => []

/-- `WireFormatLite::ReadBytes`. -/
def readBytes (bs : List Byte) : Option (List Byte × List Byte) := do
  let (length, bs) ← readVarint32 bs
  readString length bs

/-- `WireFormatLite::ReadPrimitive` for the types, and `ReadString` and `ReadBytes`. The
messages are not read here. -/
def readPrimitive (t : FieldType) (bs : List Byte) : Option (Value t × List Byte) :=
  match t with
  | .int32 => (readVarint32 bs).map fun r => (⟨.int32 r.1, rfl⟩, r.2)
  | .int64 => (readVarint64 bs).map fun r => (⟨.int64 r.1, rfl⟩, r.2)
  | .uint32 => (readVarint32 bs).map fun r => (⟨.uint32 r.1, rfl⟩, r.2)
  | .uint64 => (readVarint64 bs).map fun r => (⟨.uint64 r.1, rfl⟩, r.2)
  | .sint32 => (readVarint32 bs).map fun r => (⟨.int32 (zigZagDecode r.1), rfl⟩, r.2)
  | .sint64 => (readVarint64 bs).map fun r => (⟨.int64 (zigZagDecode r.1), rfl⟩, r.2)
  | .fixed32 => (readLittleEndian32 bs).map fun r => (⟨.uint32 r.1, rfl⟩, r.2)
  | .fixed64 => (readLittleEndian64 bs).map fun r => (⟨.uint64 r.1, rfl⟩, r.2)
  | .sfixed32 => (readLittleEndian32 bs).map fun r => (⟨.int32 r.1, rfl⟩, r.2)
  | .sfixed64 => (readLittleEndian64 bs).map fun r => (⟨.int64 r.1, rfl⟩, r.2)
  | .float => (readLittleEndian32 bs).map fun r => (⟨.float (Binary32.widen r.1), rfl⟩, r.2)
  | .double => (readLittleEndian64 bs).map fun r => (⟨.double r.1, rfl⟩, r.2)
  | .bool => (readVarint64 bs).map fun r => (⟨.bool (r.1 ≠ 0), rfl⟩, r.2)
  | .enum => (readVarint32 bs).map fun r => (⟨.enum r.1, rfl⟩, r.2)
  | .string => (readBytes bs).map fun r => (⟨.string (textOf r.1), rfl⟩, r.2)
  | .bytes => (readBytes bs).map fun r => (⟨.string (textOf r.1), rfl⟩, r.2)
  | .group => none
  | .message => none

/-- The `...Size` functions and `k...Size` constants of the types. -/
def size (t : FieldType) (v : Scalar) : ℕ :=
  match t, v with
  | .int32, .int32 v => varintSize32SignExtended v
  | .int64, .int64 v => varintSize v.toNat
  | .uint32, .uint32 v => varintSize v.toNat
  | .uint64, .uint64 v => varintSize v.toNat
  | .sint32, .int32 v => varintSize (zigZagEncode v).toNat
  | .sint64, .int64 v => varintSize (zigZagEncode v).toNat
  | .fixed32, .uint32 _ => 4
  | .fixed64, .uint64 _ => 8
  | .sfixed32, .int32 _ => 4
  | .sfixed64, .int64 _ => 8
  | .float, .float _ => 4
  | .double, .double _ => 8
  | .bool, .bool _ => 1
  | .enum, .enum n => varintSize32SignExtended n
  | .string, .string s => varintSize s.length + s.length
  | .bytes, .string s => varintSize s.length + s.length
  | _, _ => 0

/-- A value that the runtime can hold: a `float` is one, and a string has bytes for its
characters and a length that is an `int`. -/
def Real : Scalar → Prop
  | .float v => Binary32.widen (Binary32.narrow v) = v
  | .string s => (∀ c ∈ s, c.toNat < 256) ∧ s.length < 2 ^ 31
  | _ => True

/-! ### Reading what is written -/

lemma zigZag_decode {w : ℕ} (hw : 0 < w) (n : BitVec w) : zigZagDecode (zigZagEncode n) = n := by
  have hbit : ∀ i, (zigZagEncode n).getLsbD i
      = (decide (i < w) && ((decide (0 < i) && n.getLsbD (i - 1)) ^^ n.msb)) := by
    intro i
    rw [zigZagEncode, BitVec.getLsbD_xor, BitVec.getLsbD_shiftLeft, BitVec.getLsbD_sshiftRight]
    rcases Nat.lt_or_ge i w with hi | hi
    · rcases Nat.eq_zero_or_pos i with rfl | hpos
      · have hlt : w - 1 < w := by omega
        simp [hw, hw.ne', hlt, BitVec.msb_eq_getLsbD_last]
      · have hge : ¬ w - 1 + i < w := by omega
        have hge' : ¬ w ≤ i := by omega
        have h1 : 1 ≤ i := hpos
        have h2 : ¬ i < 1 := by omega
        simp [hi, hge, hge', hpos, h2]
    · simp [hi, Nat.not_lt.mpr hi]
  have hmask : ~~~(zigZagEncode n &&& 1) + 1 = if n.msb then BitVec.allOnes w else 0 := by
    have hone : zigZagEncode n &&& 1 = if n.msb then 1 else 0 := by
      refine BitVec.eq_of_getLsbD_eq fun i hi => ?_
      rw [BitVec.getLsbD_and, hbit]
      cases n.msb <;> cases i <;> simp [hw, hi]
    have hneg : ∀ x : BitVec w, ~~~x + 1 = -x := fun x => (BitVec.neg_eq_not_add x).symm
    rw [hone, hneg]
    cases n.msb with
    | false => simp
    | true => exact BitVec.neg_one_eq_allOnes
  refine BitVec.eq_of_getLsbD_eq fun i hi => ?_
  rw [zigZagDecode, hmask, BitVec.getLsbD_xor, BitVec.getLsbD_ushiftRight, hbit]
  rcases Nat.lt_or_ge (1 + i) w with hlt | hge
  · cases n.msb <;> simp [hlt, hi]
  · have hlast : i = w - 1 := by omega
    have hmsb : n.msb = n.getLsbD i := by rw [BitVec.msb_eq_getLsbD_last, hlast]
    rw [← hmsb]
    cases n.msb <;> simp [hi, Nat.not_lt.mpr hge]

lemma textOf_bytesOf {s : Text} (h : ∀ c ∈ s, c.toNat < 256) : textOf (bytesOf s) = s := by
  rw [textOf, bytesOf, List.map_map]
  refine (List.map_congr_left fun c hc => ?_).trans (List.map_id s)
  have hval : (byte c).toNat = c.toNat := Nat.mod_eq_of_lt (h c hc)
  rw [Function.comp_apply, hval, Char.ofNat_toNat, id]

lemma length_bytesOf (s : Text) : (bytesOf s).length = s.length := List.length_map _

lemma readVarint32_writeVarint32 (v : BitVec 32) (rest : List Byte) :
    readVarint32 (writeVarint32 v ++ rest) = some (v, rest) := by
  have hlt : v.toNat < 2 ^ 64 := lt_trans v.isLt (by norm_num)
  rw [writeVarint32, readVarint32_write hlt, BitVec.ofNat_toNat, BitVec.setWidth_eq]

lemma readVarint64_writeVarint64 (v : BitVec 64) (rest : List Byte) :
    readVarint64 (writeVarint64 v ++ rest) = some (v, rest) := by
  rw [writeVarint64, readVarint64_write v.isLt, BitVec.ofNat_toNat, BitVec.setWidth_eq]

lemma readBytes_write {bs : List Byte} (h : bs.length < 2 ^ 31) (rest : List Byte) :
    readBytes (writeVarint bs.length ++ bs ++ rest) = some (bs, rest) := by
  rw [readBytes, List.append_assoc, readVarint32_write (by omega)]
  simp only [Option.bind_eq_bind, Option.bind_some]
  exact readString_append h rest

/-- **What is written of a value is read back**, whatever follows. -/
theorem readPrimitive_write {t : FieldType} (hg : t ≠ .group) (hm : t ≠ .message) {v : Scalar}
    (hv : v.cppType = t.cppType) (hreal : Real v) (rest : List Byte) :
    readPrimitive t (writeNoTag t v ++ rest) = some (⟨v, hv⟩, rest) := by
  cases t with
  | group => exact absurd rfl hg
  | message => exact absurd rfl hm
  | int32 | enum =>
      cases v <;> cases hv
      exact congrArg (Option.map _) (readVarint32_signExtended _ rest)
  | int64 | uint64 =>
      cases v <;> cases hv
      exact congrArg (Option.map _) (readVarint64_writeVarint64 _ rest)
  | uint32 =>
      cases v <;> cases hv
      exact congrArg (Option.map _) (readVarint32_writeVarint32 _ rest)
  | sint32 =>
      cases v <;> cases hv
      rw [readPrimitive, writeNoTag, readVarint32_writeVarint32, Option.map_some]
      simp only [zigZag_decode (by omega : 0 < 32)]
  | sint64 =>
      cases v <;> cases hv
      rw [readPrimitive, writeNoTag, readVarint64_writeVarint64, Option.map_some]
      simp only [zigZag_decode (by omega : 0 < 64)]
  | fixed32 | sfixed32 =>
      cases v <;> cases hv
      rw [readPrimitive, writeNoTag, readLittleEndian32_write, Option.map_some]
  | fixed64 | sfixed64 | double =>
      cases v <;> cases hv
      rw [readPrimitive, writeNoTag, readLittleEndian64_write, Option.map_some]
  | float =>
      cases v <;> cases hv
      rw [readPrimitive, writeNoTag, readLittleEndian32_write, Option.map_some]
      simp only [show _ = _ from hreal]
  | bool =>
      cases v <;> cases hv
      rename_i b
      have hone : writeVarint32 (if b then 1 else 0) = writeVarint64 (if b then 1 else 0) := by
        cases b <;> rfl
      rw [readPrimitive, writeNoTag, hone, readVarint64_writeVarint64, Option.map_some]
      cases b <;> rfl
  | string | bytes =>
      cases v <;> cases hv
      rename_i s
      have hlen : (bytesOf s).length < 2 ^ 31 := by
        rw [length_bytesOf]
        exact hreal.2
      rw [readPrimitive, writeNoTag, readBytes_write hlen, Option.map_some]
      simp only [textOf_bytesOf hreal.1]

/-- **The bytes of a value are counted** without writing it. -/
theorem size_eq {t : FieldType} {v : Scalar} (hv : v.cppType = t.cppType) (hreal : Real v) :
    size t v = (writeNoTag t v).length := by
  cases t with
  | group | message => cases v <;> rfl
  | int32 | enum =>
      cases v <;> cases hv
      exact varintSize32SignExtended_eq _
  | int64 | uint64 | sint64 =>
      cases v <;> cases hv
      exact varintSize_eq (BitVec.isLt _)
  | uint32 | sint32 =>
      cases v <;> cases hv
      exact varintSize_eq (lt_trans (BitVec.isLt _) (by norm_num))
  | fixed32 | sfixed32 | float =>
      cases v <;> cases hv
      exact (length_littleEndian 4 _).symm
  | fixed64 | sfixed64 | double =>
      cases v <;> cases hv
      exact (length_littleEndian 8 _).symm
  | bool =>
      cases v <;> cases hv
      rename_i b
      have hone : ∀ n < 128, (writeVarint n).length = 1 := fun n hn => by
        rw [writeVarint, Varint.encode_of_lt hn, List.length_singleton]
      cases b
      · exact (hone 0 (by omega)).symm
      · exact (hone 1 (by omega)).symm
  | string | bytes =>
      cases v <;> cases hv
      rename_i s
      have hlt := hreal.2
      rw [size, writeNoTag, List.length_append, length_bytesOf, varintSize_eq (by omega)]

/-- A value has at least one byte. -/
lemma writeNoTag_ne_nil {t : FieldType} (hg : t ≠ .group) (hm : t ≠ .message) {v : Scalar}
    (hv : v.cppType = t.cppType) : writeNoTag t v ≠ [] := by
  have hlittle : ∀ k n, littleEndian (k + 1) n ≠ [] := fun k n => List.cons_ne_nil _ _
  cases t with
  | group => exact absurd rfl hg
  | message => exact absurd rfl hm
  | fixed32 | sfixed32 | float | fixed64 | sfixed64 | double =>
      cases v <;> cases hv
      exact hlittle _ _
  | string | bytes =>
      cases v <;> cases hv
      exact fun h => writeVarint_ne_nil _ (List.append_eq_nil_iff.mp h).1
  | _ =>
      cases v <;> cases hv
      exact writeVarint_ne_nil _

/-! ### What is read -/

lemma readBytes_spec {bs front rest : List Byte} (h : readBytes bs = some (front, rest)) :
    ∃ head : List Byte, bs = head ++ (front ++ rest) ∧ front.length < 2 ^ 31 ∧
      (writeVarint front.length).length ≤ head.length := by
  obtain ⟨⟨n, bs'⟩, hn, hread⟩ := Option.bind_eq_some_iff.mp h
  obtain ⟨head, rfl, hhead⟩ := readVarint32_spec hn
  obtain ⟨rfl, hlen, hlt⟩ := readString_spec hread
  exact ⟨head, rfl, hlt, by rwa [hlen]⟩

lemma real_textOf {bs : List Byte} (h : bs.length < 2 ^ 31) : Real (.string (textOf bs)) := by
  refine ⟨fun c hc => ?_, by rwa [textOf, List.length_map]⟩
  obtain ⟨b, -, rfl⟩ := List.mem_map.mp hc
  have hb := b.isLt
  have hvalid : b.toNat.isValidChar := .inl (lt_trans hb (by norm_num))
  rw [Char.ofNat, dif_pos hvalid]
  exact hb

/-- **A value that is read** can be held, and its bytes are in front of what follows. -/
theorem readPrimitive_spec {t : FieldType} {bs rest : List Byte} {v : Value t}
    (h : readPrimitive t bs = some (v, rest)) : Real v.val ∧ rest <:+ bs := by
  have h32 : ∀ {x : BitVec 32}, readVarint32 bs = some (x, rest) → rest <:+ bs := fun hx =>
    have ⟨front, hfront, _⟩ := readVarint32_spec hx
    ⟨front, hfront.symm⟩
  have h64 : ∀ {x : BitVec 64}, readVarint64 bs = some (x, rest) → rest <:+ bs := fun hx =>
    have ⟨front, hfront, _⟩ := readVarint64_spec hx
    ⟨front, hfront.symm⟩
  cases t with
  | group | message => cases h
  | int32 | uint32 | sint32 | enum =>
      obtain ⟨⟨x, rest'⟩, hx, heq⟩ := Option.map_eq_some_iff.mp h
      cases heq
      exact ⟨trivial, h32 hx⟩
  | int64 | uint64 | sint64 | bool =>
      obtain ⟨⟨x, rest'⟩, hx, heq⟩ := Option.map_eq_some_iff.mp h
      cases heq
      exact ⟨trivial, h64 hx⟩
  | fixed32 | sfixed32 =>
      obtain ⟨⟨x, rest'⟩, hx, heq⟩ := Option.map_eq_some_iff.mp h
      cases heq
      obtain ⟨front, rfl, -⟩ := readLittleEndian32_spec hx
      exact ⟨trivial, List.suffix_append _ _⟩
  | float =>
      obtain ⟨⟨x, rest'⟩, hx, heq⟩ := Option.map_eq_some_iff.mp h
      cases heq
      obtain ⟨front, rfl, -⟩ := readLittleEndian32_spec hx
      exact ⟨Binary32.widen_narrow x, List.suffix_append _ _⟩
  | fixed64 | sfixed64 | double =>
      obtain ⟨⟨x, rest'⟩, hx, heq⟩ := Option.map_eq_some_iff.mp h
      cases heq
      obtain ⟨front, rfl, -⟩ := readLittleEndian64_spec hx
      exact ⟨trivial, List.suffix_append _ _⟩
  | string | bytes =>
      obtain ⟨⟨x, rest'⟩, hx, heq⟩ := Option.map_eq_some_iff.mp h
      cases heq
      obtain ⟨head, rfl, hlt, -⟩ := readBytes_spec hx
      refine ⟨real_textOf hlt, ?_⟩
      rw [← List.append_assoc]
      exact List.suffix_append _ _

end WireFormat

end PbEntityDb
