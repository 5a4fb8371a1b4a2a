import PbEntityDb.Library.TwosComplement
import PbEntityDb.Engine.Cached

/-!
Integer columns, byte by byte.

* `MysqlColumn` is a column of the current row with its buffer, `fetch` what
  `mysql_stmt_fetch` makes of it, and `getInt` the four bytes that libzdb reads
  there behind the terminator that it stores.
* `getInt_fetch_iff`: for which values and which earlier contents of the buffer
  the value of the column comes out.
* `int32_read_iff` says the same of the `int32` field that is read from the column,
  by its name or by its index.
-/

namespace PbEntityDb

open TwosComplement

/-! ### The buffer of a column -/

/-- `STRLEN` of libzdb. -/
def strLen : ℕ := 4096

/-- The types of columns that the debug check admits for an `int32`. -/
inductive IntType where
  /-- `MYSQL_TYPE_TINY` -/
  | tiny
  /-- `MYSQL_TYPE_SHORT` -/
  | short
  /-- `MYSQL_TYPE_LONG` -/
  | long
  deriving DecidableEq, Repr

/-- The number of bytes of a value. -/
def IntType.width : IntType → ℕ
  | .tiny => 1
  | .short => 2
  | .long => 4

/-- The buffer of a column. -/
structure ColumnBuffer where
  bytes : List (BitVec 8)
  size : bytes.length = strLen + 1

/-- `column_t`: a column of the current row. -/
structure MysqlColumn where
  isNull : Bool
  type : IntType
  realLength : ℕ
  buffer : List (BitVec 8)

/-- `mysql_stmt_fetch` for a column that is not null. -/
def fetch (type : IntType) (v : BitVec (8 * type.width)) (old : ColumnBuffer) : MysqlColumn where
  isNull := false
  type := type
  realLength := type.width
  buffer := bytes type.width v.toInt ++ old.bytes.drop type.width

namespace MysqlColumn

/-- `MysqlResultSet_getString`, `none` for the null pointer. An integer fits in the
buffer, so `_ensureCapacity` has nothing to do. -/
def getString (c : MysqlColumn) : Option MysqlColumn :=
  if c.isNull then none else some { c with buffer := c.buffer.set c.realLength 0 }

/-- The `int` at the start of a buffer. -/
def intAt (buffer : List (BitVec 8)) : BitVec 32 := BitVec.ofNat 32 (unsigned (buffer.take 4))

/-- `ResultSet_getInt`. -/
def getInt (c : MysqlColumn) : BitVec 32 :=
  match c.getString with
  | none => 0
  | some s => intAt s.buffer

/-- The column as the accessors find it. -/
def native (c : MysqlColumn) : Native :=
  match c.getString with
  | none => .null
  | some s =>
      match c.type with
      | .long => .long (intAt s.buffer)
      | _ => .other (s.buffer.map fun b => Char.ofNat b.toNat)

end MysqlColumn

/-- What the accessor for an `int` finds in the buffer of a column that is no
`MYSQL_TYPE_LONG`; the other accessors are left open. -/
def bufferStray (rest : Stray) : Stray :=
  { rest with
    int := fun cell =>
      match cell with
      | .other buffer => MysqlColumn.intAt (buffer.map fun c => BitVec.ofNat 8 c.toNat)
      | cell => rest.int cell }

/-- The accessor of the engine reads the bytes. -/
lemma getInt_native (rest : Stray) (c : MysqlColumn) :
    getInt (bufferStray rest) c.native = c.getInt := by
  have hbytes : ∀ bs : List (BitVec 8),
      (bs.map fun b => Char.ofNat b.toNat).map (fun c => BitVec.ofNat 8 c.toNat) = bs := by
    intro bs
    rw [List.map_map]
    refine (List.map_congr_left fun b _ => ?_).trans (List.map_id bs)
    have hvalid : b.toNat.isValidChar := .inl (b.isLt.trans (by omega))
    have hchar : (Char.ofNat b.toNat).toNat = b.toNat := by
      rw [Char.ofNat, dif_pos hvalid]
      rfl
    show BitVec.ofNat 8 (Char.ofNat b.toNat).toNat = b
    rw [hchar, BitVec.ofNat_toNat, BitVec.setWidth_eq]
  rw [MysqlColumn.native, MysqlColumn.getInt]
  cases hstring : c.getString with
  | none => rfl
  | some s =>
      cases htype : c.type with
      | long => rfl
      | tiny =>
          show MysqlColumn.intAt _ = MysqlColumn.intAt _
          rw [hbytes]
      | short =>
          show MysqlColumn.intAt _ = MysqlColumn.intAt _
          rw [hbytes]

/-! ### What is read -/

/-- **The value comes out**: the column is as wide as the `int`, or the value is not
negative and the bytes behind the terminator were zero before. -/
def ReadAsWritten (type : IntType) (v : BitVec (8 * type.width)) (old : ColumnBuffer) : Prop :=
  type = .long ∨ 0 ≤ v.toInt ∧ ∀ k, type.width < k → k < 4 → old.bytes[k]? = some 0

lemma intAt_toInt {buffer : List (BitVec 8)} (h : 4 ≤ buffer.length) :
    (MysqlColumn.intAt buffer).toInt = signed (buffer.take 4) := by
  have hlen : (buffer.take 4).length = 4 := by rw [List.length_take]; omega
  rw [MysqlColumn.intAt, BitVec.toInt_ofNat', signed, hlen]
  norm_num

/-- A value of a type has its bytes. -/
lemma fits_toInt {n : ℕ} (v : BitVec (8 * n)) : Fits n v.toInt := by
  have hpow : (2 : ℤ) ^ (8 * n) = 256 ^ n := by rw [pow_mul]; norm_num
  have hle := v.le_two_mul_toInt
  have hlt := v.two_mul_toInt_lt
  rw [hpow] at hle hlt
  exact ⟨by omega, by omega⟩

/-- The four bytes behind the store of the terminator, for a value of fewer bytes. -/
lemma take_fetch {n : ℕ} (hn : n < 4) (v : ℤ) {old : List (BitVec 8)} (hold : 4 < old.length) :
    ((bytes n v ++ old.drop n).set n 0).take 4
      = bytes n v ++ 0 :: (old.drop (n + 1)).take (3 - n) := by
  have hlen := length_bytes n v
  have hdrop : old.drop n = old[n] :: old.drop (n + 1) := List.drop_eq_getElem_cons (by omega)
  have hrest : 4 - n = (3 - n) + 1 := by omega
  calc ((bytes n v ++ old.drop n).set n 0).take 4
      = (bytes n v ++ 0 :: old.drop (n + 1)).take 4 := by
        rw [hdrop, List.set_append_right _ _ hlen.le, hlen, Nat.sub_self, List.set_cons_zero]
    _ = bytes n v ++ 0 :: (old.drop (n + 1)).take (3 - n) := by
        rw [List.take_append, hlen, List.take_of_length_le (by omega), hrest, List.take_succ_cons]

/-- **When a short value comes out.** -/
lemma signed_fetch_iff {n : ℕ} (hn : n < 4) {v : ℤ} (hv : Fits n v) {old : List (BitVec 8)}
    (hold : 4 < old.length) :
    signed (bytes n v ++ 0 :: (old.drop (n + 1)).take (3 - n)) = v
      ↔ 0 ≤ v ∧ ∀ k, n < k → k < 4 → old[k]? = some 0 := by
  rw [signed_append_iff hv]
  have hpad : (0 : BitVec 8) = pad v ↔ 0 ≤ v := by
    rw [pad]
    split <;> simp_all
  constructor
  · intro hall
    have hnonneg := hpad.mp (hall 0 List.mem_cons_self)
    refine ⟨hnonneg, fun k hk hk' => ?_⟩
    have hget : ((old.drop (n + 1)).take (3 - n))[k - (n + 1)]? = old[k]? := by
      rw [List.getElem?_take_of_lt (by omega), List.getElem?_drop]
      congr 1
      omega
    have hmem := hget.trans (List.getElem?_eq_getElem (by omega : k < old.length))
    have hbyte := hall _ (List.mem_cons_of_mem _ (List.mem_of_getElem? hmem))
    rw [List.getElem?_eq_getElem (by omega : k < old.length), hbyte, ← hpad.mpr hnonneg]
  · rintro ⟨hnonneg, hzero⟩ b hb
    rw [← hpad.mpr hnonneg]
    rcases List.mem_cons.mp hb with rfl | hb
    · rfl
    · obtain ⟨j, hj⟩ := List.mem_iff_getElem?.mp hb
      have hlt : j < 3 - n := by
        have := (List.getElem?_eq_some_iff.mp hj).1
        rw [List.length_take] at this
        omega
      rw [List.getElem?_take_of_lt hlt, List.getElem?_drop, hzero _ (by omega) (by omega)] at hj
      exact (Option.some.inj hj).symm

/-- **What `ResultSet_getInt` makes of a value.** -/
theorem getInt_fetch_iff (type : IntType) (v : BitVec (8 * type.width)) (old : ColumnBuffer) :
    (fetch type v old).getInt.toInt = v.toInt ↔ ReadAsWritten type v old := by
  have hold : 4 < old.bytes.length := by
    rw [old.size, strLen]
    omega
  have hlen : 4 ≤ (bytes type.width v.toInt ++ old.bytes.drop type.width).length := by
    rw [List.length_append, length_bytes, List.length_drop]
    omega
  have hread : (fetch type v old).getInt.toInt
      = signed
        (((bytes type.width v.toInt ++ old.bytes.drop type.width).set type.width 0).take 4) :=
    intAt_toInt (by rwa [List.length_set])
  have hshort : type.width < 4 → ((fetch type v old).getInt.toInt = v.toInt
      ↔ 0 ≤ v.toInt ∧ ∀ k, type.width < k → k < 4 → old.bytes[k]? = some 0) := by
    intro hn
    rw [hread, take_fetch hn v.toInt hold, signed_fetch_iff hn (fits_toInt v) hold]
  rw [ReadAsWritten]
  cases type with
  | tiny => exact (hshort (by decide)).trans (or_iff_right (by simp)).symm
  | short => exact (hshort (by decide)).trans (or_iff_right (by simp)).symm
  | long =>
      -- the terminator stands behind the four bytes
      have htake : ((bytes 4 v.toInt ++ old.bytes.drop 4).set 4 0).take 4 = bytes 4 v.toInt := by
        rw [List.take_set_of_le (le_refl 4), List.take_left' (length_bytes 4 v.toInt)]
      refine iff_of_true ?_ (.inl rfl)
      calc (fetch .long v old).getInt.toInt
          = signed (bytes 4 v.toInt) := hread.trans (congrArg signed htake)
        _ = v.toInt := signed_bytes (n := 4) (fits_toInt v)

/-! ### The field -/

/-- What `AddFirstReturnRecord` puts into an `int32` field, from the column of its
name. -/
def ReadByName (stray : Stray) (row : List Column) (d : FieldDescriptor) (v : ℤ) : Prop :=
  ∃ nVal : BitVec 32, readValue stray d (cellNamed row d.name.chars) = some (.int32 nVal)
    ∧ nVal.toInt = v

/-- What `AddReturnRecord` puts into an `int32` field, from the column of an index. -/
def ReadByIndex (stray : Stray) (row : List Column) (nField : ℕ) (d : FieldDescriptor) (v : ℤ) :
    Prop :=
  ∃ (cell : Native) (nVal : BitVec 32), cellAt row nField = .ok cell
    ∧ readValue stray d (some cell) = some (.int32 nVal) ∧ nVal.toInt = v

section Field

variable (rest : Stray) (type : IntType) (v : BitVec (8 * type.width)) (old : ColumnBuffer)
  {d : FieldDescriptor}

/-- An `int32` field takes what the accessor for an `int` returns. -/
lemma readValue_fetch (hd : d.type = .int32) :
    readValue (bufferStray rest) d (some (fetch type v old).native)
      = some (.int32 (fetch type v old).getInt) := by
  rw [readValue, hd, ← getInt_native rest]
  rfl

variable {before : List Column}

lemma readByName_iff (hd : d.type = .int32) (hbefore : ∀ c ∈ before, c.name ≠ d.name.chars)
    (after : List Column) (w : ℤ) :
    ReadByName (bufferStray rest)
        (before ++ ⟨d.name.chars, (fetch type v old).native⟩ :: after) d w
      ↔ (fetch type v old).getInt.toInt = w := by
  have hnone : before.find? (fun c => c.name = d.name.chars) = none :=
    List.find?_eq_none.mpr fun c hc => by simpa using hbefore c hc
  have hcell : cellNamed (before ++ ⟨d.name.chars, (fetch type v old).native⟩ :: after) d.name.chars
      = some (fetch type v old).native := by
    rw [cellNamed, List.find?_append, hnone]
    simp
  rw [ReadByName, hcell, readValue_fetch rest type v old hd]
  constructor
  · rintro ⟨nVal, heq, hw⟩
    cases heq
    exact hw
  · exact fun hw => ⟨_, rfl, hw⟩

lemma readByIndex_iff (hd : d.type = .int32) (after : List Column) (w : ℤ) :
    ReadByIndex (bufferStray rest)
        (before ++ ⟨d.name.chars, (fetch type v old).native⟩ :: after) (before.length + 1) d w
      ↔ (fetch type v old).getInt.toInt = w := by
  have hcell : cellAt (before ++ ⟨d.name.chars, (fetch type v old).native⟩ :: after)
      (before.length + 1) = .ok (fetch type v old).native := by
    simp [cellAt]
  rw [ReadByIndex, hcell]
  constructor
  · rintro ⟨cell, nVal, heq, hread, hw⟩
    cases heq
    rw [readValue_fetch rest type v old hd] at hread
    cases hread
    exact hw
  · exact fun hw => ⟨_, _, rfl, readValue_fetch rest type v old hd, hw⟩

/-- **When an `int32` field gets the value of its column**, by its name and by its
index. -/
theorem int32_read_iff (hd : d.type = .int32) (hbefore : ∀ c ∈ before, c.name ≠ d.name.chars)
    (after : List Column) :
    (ReadByName (bufferStray rest)
        (before ++ ⟨d.name.chars, (fetch type v old).native⟩ :: after) d v.toInt
      ↔ ReadAsWritten type v old)
      ∧ (ReadByIndex (bufferStray rest)
        (before ++ ⟨d.name.chars, (fetch type v old).native⟩ :: after) (before.length + 1) d v.toInt
      ↔ ReadAsWritten type v old) :=
  ⟨(readByName_iff rest type v old hd hbefore after v.toInt).trans (getInt_fetch_iff type v old),
    (readByIndex_iff rest type v old hd after v.toInt).trans (getInt_fetch_iff type v old)⟩

end Field

/-- A buffer with the same byte everywhere. -/
def filledBuffer (b : BitVec 8) : ColumnBuffer where
  bytes := List.replicate (strLen + 1) b
  size := List.length_replicate

/-- A column of a row with nothing else. -/
def onlyColumn (type : IntType) (v : BitVec (8 * type.width)) (old : ColumnBuffer) : List Column :=
  [⟨accountId.chars, (fetch type v old).native⟩]

/-- A `SMALLINT` with the value 7 in a fresh buffer. -/
theorem int32_read_short :
    ReadByName (bufferStray zeroStray) (onlyColumn .short 7 (filledBuffer 0)) (.ofInt32 accountId) 7
      ∧ ReadByIndex (bufferStray zeroStray) (onlyColumn .short 7 (filledBuffer 0)) 1
        (.ofInt32 accountId) 7 := by
  have hwritten : ReadAsWritten .short 7 (filledBuffer 0) := by
    refine .inr ⟨by decide, fun k _ hk => ?_⟩
    rw [filledBuffer, List.getElem?_replicate, if_pos (by rw [strLen]; omega)]
  obtain ⟨hname, hindex⟩ := @int32_read_iff zeroStray .short 7 (filledBuffer 0)
    (.ofInt32 accountId) [] rfl (by simp) []
  exact ⟨hname.mpr hwritten, hindex.mpr hwritten⟩

/-- **Values that do not come out**: a `TINYINT` with the value -1 is read as 255 from a
fresh buffer, and one with the value 1 as 16842753 behind other bytes. -/
theorem tiny_not_read :
    (ReadByName (bufferStray zeroStray) (onlyColumn .tiny (-1) (filledBuffer 0))
        (.ofInt32 accountId) 255
      ∧ ¬ ReadByName (bufferStray zeroStray) (onlyColumn .tiny (-1) (filledBuffer 0))
        (.ofInt32 accountId) (-1))
      ∧ ReadByIndex (bufferStray zeroStray) (onlyColumn .tiny 1 (filledBuffer 1)) 1
        (.ofInt32 accountId) 16842753
      ∧ ¬ ReadByIndex (bufferStray zeroStray) (onlyColumn .tiny 1 (filledBuffer 1)) 1
        (.ofInt32 accountId) 1 := by
  have hnegative : (fetch .tiny (-1) (filledBuffer 0)).getInt.toInt = 255 := by decide +kernel
  have hdirty : (fetch .tiny 1 (filledBuffer 1)).getInt.toInt = 16842753 := by decide +kernel
  have hname := @readByName_iff zeroStray .tiny (-1) (filledBuffer 0) (.ofInt32 accountId) [] rfl
    (by simp) []
  have hindex := @readByIndex_iff zeroStray .tiny 1 (filledBuffer 1) (.ofInt32 accountId) [] rfl []
  refine ⟨⟨(hname 255).mpr hnegative, fun h => ?_⟩, (hindex 16842753).mpr hdirty, fun h => ?_⟩
  · have hread := (hname (-1)).mp h
    omega
  · have hread := (hindex 1).mp h
    omega

end PbEntityDb
