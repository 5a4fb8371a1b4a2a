import PbEntityDb.Proto.FieldLoop

/-!
Fields that a message does not know: `UnknownFieldSet` and the functions of `WireFormat`
about it.

* An `UnknownField` has a number and what the wire says of its content; a group has
  fields again.
* `serializeUnknownFields` writes such fields, `computeUnknownFieldsSize` counts the bytes,
  `skipField` and `skipMessage` read over them, into a set that keeps them.
* `parseUnknownFields` reads a set of fields.
* `parse_unknownFields`: **what is written of a set is read back**, unless it is longer than an
  `int` can say; `parse_wellFormed`: **what is read can be written**, in no more bytes, and is
  read back again.
-/

namespace PbEntityDb

namespace WireFormat

open Coded

/-- `UnknownField`. -/
inductive UnknownField where
  | varint (number : FieldNumber) (value : BitVec 64)
  | fixed32 (number : FieldNumber) (value : BitVec 32)
  | fixed64 (number : FieldNumber) (value : BitVec 64)
  | lengthDelimited (number : FieldNumber) (data : List Byte)
  | group (number : FieldNumber) (fields : List UnknownField)

/-! ### Writing -/

mutual

/-- One round of the loop of `WireFormat::SerializeUnknownFields`. -/
def UnknownField.serialize : UnknownField → List Byte
  | .varint n v => writeTag n.val .varint ++ writeVarint64 v
  | .fixed32 n v => writeTag n.val .fixed32 ++ writeLittleEndian32 v
  | .fixed64 n v => writeTag n.val .fixed64 ++ writeLittleEndian64 v
  | .lengthDelimited n data =>
      writeTag n.val .lengthDelimited ++ (writeVarint data.length ++ data)
  | .group n fields =>
      writeTag n.val .startGroup ++ (serializeUnknownFields fields ++ writeTag n.val .endGroup)

/-- `WireFormat::SerializeUnknownFields`. -/
def serializeUnknownFields : List UnknownField → List Byte
  | [] => []
  | f :: fields => f.serialize ++ serializeUnknownFields fields

end

mutual

/-- One round of the loop of `WireFormat::ComputeUnknownFieldsSize`. -/
def UnknownField.byteSize : UnknownField → ℕ
  | .varint n v => varintSize (makeTag n.val .varint).toNat + varintSize v.toNat
  | .fixed32 n _ => varintSize (makeTag n.val .fixed32).toNat + 4
  | .fixed64 n _ => varintSize (makeTag n.val .fixed64).toNat + 8
  | .lengthDelimited n data =>
      varintSize (makeTag n.val .lengthDelimited).toNat + varintSize data.length + data.length
  | .group n fields =>
      varintSize (makeTag n.val .startGroup).toNat + computeUnknownFieldsSize fields
        + varintSize (makeTag n.val .endGroup).toNat

/-- `WireFormat::ComputeUnknownFieldsSize`. -/
def computeUnknownFieldsSize : List UnknownField → ℕ
  | [] => 0
  | f :: fields => f.byteSize + computeUnknownFieldsSize fields

end

/-! ### Reading -/

/-- One round of the loop of `WireFormat::SkipMessage`, with `skip` for `SkipField`: the set
gets what was kept. -/
def addSkipped (skip : BitVec 32 → List Byte → Option (List UnknownField × List Byte)) :
    FieldStep (List UnknownField) := fun fields tag bs =>
  match skip tag bs with
  | none => .error fields
  | some (kept, rest) => .ok (fields ++ kept, rest)

/-- `WireFormat::SkipMessage` for a new set. -/
def skipMessage (skip : BitVec 32 → List Byte → Option (List UnknownField × List Byte))
    (bs : List Byte) : Option (List UnknownField × Ended × List Byte) :=
  (readFields (addSkipped skip) [] bs).toOption

/-- The cases of `WireFormat::SkipField` for a set that keeps the field, with `group` for
`SkipMessage` at the start of a group. -/
def skipPayload (group : List Byte → Option (List UnknownField × Ended × List Byte))
    (number : FieldNumber) (wireType : ℕ) (bs : List Byte) :
    Option (List UnknownField × List Byte) :=
  match wireType with
  | 0 => (readVarint64 bs).map fun r => ([.varint number r.1], r.2)
  | 1 => (readLittleEndian64 bs).map fun r => ([.fixed64 number r.1], r.2)
  | 2 => (readBytes bs).map fun r => ([.lengthDelimited number r.1], r.2)
  | 3 => do
      let (fields, ended, rest) ← group bs
      if ended = .endGroup (makeTag number.val .endGroup) then
        return ([.group number fields], rest)
      none
  | 5 => (readLittleEndian32 bs).map fun r => ([.fixed32 number r.1], r.2)
  | _ => none

/-- `WireFormat::SkipField`: the field number 0 is illegal. -/
def skipFieldWith (group : List Byte → Option (List UnknownField × Ended × List Byte))
    (tag : BitVec 32) (bs : List Byte) : Option (List UnknownField × List Byte) :=
  if h : 0 < getTagFieldNumber tag then
    skipPayload group ⟨getTagFieldNumber tag, h, getTagFieldNumber_lt tag⟩
      (getTagWireType tag) bs
  else none

/-- `WireFormat::SkipField` with what is left of the recursion budget. -/
def skipField : ℕ → BitVec 32 → List Byte → Option (List UnknownField × List Byte)
  | 0 => skipFieldWith fun _ => none
  | budget + 1 => skipFieldWith (skipMessage (skipField budget))

/-- `CodedInputStream::default_recursion_limit_`. -/
def defaultRecursionLimit : ℕ := 100

/-- `UnknownFieldSet::ParseFromString`: all bytes have to be read. Their number becomes an
`int`, so that a longer string is not read as a whole. -/
def parseUnknownFields (bs : List Byte) : Option (List UnknownField) :=
  if bs.length < 2 ^ 31 then do
    let (fields, ended, _) ← skipMessage (skipField defaultRecursionLimit) bs
    if ended = .limit then return fields
    none
  else none

/-! ### Sets that a parser can return -/

mutual

/-- The content is not longer than an `int` says, and groups are not nested deeper than
the recursion budget. -/
def UnknownField.Fits : ℕ → UnknownField → Prop
  | _, .varint .. => True
  | _, .fixed32 .. => True
  | _, .fixed64 .. => True
  | _, .lengthDelimited _ data => data.length < 2 ^ 31
  | budget, .group _ fields => 0 < budget ∧ FitAll (budget - 1) fields

/-- All fields of a set are such. -/
def FitAll : ℕ → List UnknownField → Prop
  | _, [] => True
  | budget, f :: fields => f.Fits budget ∧ FitAll budget fields

end

/-! ### Sizes -/

lemma varintSize_tag (n : FieldNumber) (t : WireType) :
    varintSize (makeTag n.val t).toNat = (writeTag n.val t).length :=
  varintSize_eq (lt_trans (BitVec.isLt _) (by norm_num))

mutual

lemma UnknownField.byteSize_eq {budget : ℕ} :
    ∀ {f : UnknownField}, f.Fits budget → f.byteSize = f.serialize.length
  | .varint n v, _ => by
      rw [UnknownField.byteSize, UnknownField.serialize, List.length_append, varintSize_tag,
        varintSize_eq v.isLt, writeVarint64]
  | .fixed32 n v, _ => by
      rw [UnknownField.byteSize, UnknownField.serialize, List.length_append, varintSize_tag,
        writeLittleEndian32, length_littleEndian]
  | .fixed64 n v, _ => by
      rw [UnknownField.byteSize, UnknownField.serialize, List.length_append, varintSize_tag,
        writeLittleEndian64, length_littleEndian]
  | .lengthDelimited n data, h => by
      rw [UnknownField.Fits] at h
      rw [UnknownField.byteSize, UnknownField.serialize, List.length_append,
        List.length_append, varintSize_tag, varintSize_eq (by omega), Nat.add_assoc]
  | .group n fields, h => by
      rw [UnknownField.Fits] at h
      rw [UnknownField.byteSize, UnknownField.serialize, List.length_append,
        List.length_append, varintSize_tag, varintSize_tag, computeUnknownFieldsSize_eq h.2,
        Nat.add_assoc]

/-- **The bytes of a set are counted** without writing them. -/
lemma computeUnknownFieldsSize_eq {budget : ℕ} : ∀ {fields : List UnknownField},
    FitAll budget fields → computeUnknownFieldsSize fields = (serializeUnknownFields fields).length
  | [], _ => rfl
  | f :: fields, h => by
      rw [FitAll] at h
      rw [computeUnknownFieldsSize, serializeUnknownFields, List.length_append,
        UnknownField.byteSize_eq h.1, computeUnknownFieldsSize_eq h.2]

end

/-! ### Reading what is written -/

section Reads

variable {group : List Byte → Option (List UnknownField × Ended × List Byte)}
  {skip : BitVec 32 → List Byte → Option (List UnknownField × List Byte)} {tag : BitVec 32}
  {bs rest : List Byte} {kept : List UnknownField}

/-- What `SkipField` can do with a field. -/
lemma skipFieldWith_cases (h : skipFieldWith group tag bs = some (kept, rest)) :
    ∃ (n : FieldNumber) (f : UnknownField), n.val = getTagFieldNumber tag ∧
      kept = [f] ∧
      ((∃ v, getTagWireType tag = 0 ∧ f = .varint n v ∧ readVarint64 bs = some (v, rest)) ∨
       (∃ v, getTagWireType tag = 1 ∧ f = .fixed64 n v ∧ readLittleEndian64 bs = some (v, rest)) ∨
       (∃ data, getTagWireType tag = 2 ∧ f = .lengthDelimited n data ∧
          readBytes bs = some (data, rest)) ∨
       (∃ fields, getTagWireType tag = 3 ∧ f = .group n fields ∧
          group bs = some (fields, .endGroup (makeTag n.val .endGroup), rest)) ∨
       (∃ v, getTagWireType tag = 5 ∧ f = .fixed32 n v ∧
          readLittleEndian32 bs = some (v, rest))) := by
  rw [skipFieldWith] at h
  split_ifs at h with hpos
  refine ⟨⟨getTagFieldNumber tag, hpos, getTagFieldNumber_lt tag⟩, ?_⟩
  rw [skipPayload.eq_def] at h
  split at h
  · rename_i hcode
    obtain ⟨⟨v, rest'⟩, hv, heq⟩ := Option.map_eq_some_iff.mp h
    cases heq
    exact ⟨_, rfl, rfl, .inl ⟨v, hcode, rfl, hv⟩⟩
  · rename_i hcode
    obtain ⟨⟨v, rest'⟩, hv, heq⟩ := Option.map_eq_some_iff.mp h
    cases heq
    exact ⟨_, rfl, rfl, .inr (.inl ⟨v, hcode, rfl, hv⟩)⟩
  · rename_i hcode
    obtain ⟨⟨data, rest'⟩, hv, heq⟩ := Option.map_eq_some_iff.mp h
    cases heq
    exact ⟨_, rfl, rfl, .inr (.inr (.inl ⟨data, hcode, rfl, hv⟩))⟩
  · rename_i hcode
    obtain ⟨⟨fields, ended, rest'⟩, hgroup, h⟩ := Option.bind_eq_some_iff.mp h
    simp only at h
    split_ifs at h with hended
    cases h
    exact ⟨_, rfl, rfl, .inr (.inr (.inr (.inl ⟨fields, hcode, rfl, by rw [hgroup, hended]⟩)))⟩
  · rename_i hcode
    obtain ⟨⟨v, rest'⟩, hv, heq⟩ := Option.map_eq_some_iff.mp h
    cases heq
    exact ⟨_, rfl, rfl, .inr (.inr (.inr (.inr ⟨v, hcode, rfl, hv⟩)))⟩
  · cases h

/-- A field that is skipped was in front of the stream. -/
lemma skipFieldWith_suffix
    (hgroup : ∀ bs fields ended rest, group bs = some (fields, ended, rest) → rest <:+ bs)
    (h : skipFieldWith group tag bs = some (kept, rest)) : rest <:+ bs := by
  obtain ⟨n, f, -, -, hcase⟩ := skipFieldWith_cases h
  rcases hcase with ⟨v, -, -, hv⟩ | ⟨v, -, -, hv⟩ | ⟨data, -, -, hv⟩ | ⟨fields, -, -, hv⟩ |
    ⟨v, -, -, hv⟩
  · obtain ⟨front, rfl, -⟩ := readVarint64_spec hv
    exact List.suffix_append _ _
  · obtain ⟨front, rfl, -⟩ := readLittleEndian64_spec hv
    exact List.suffix_append _ _
  · obtain ⟨head, rfl, -⟩ := readBytes_spec hv
    rw [← List.append_assoc]
    exact List.suffix_append _ _
  · exact hgroup _ _ _ _ hv
  · obtain ⟨front, rfl, -⟩ := readLittleEndian32_spec hv
    exact List.suffix_append _ _

lemma addSkipped_reads (hskip : ∀ tag bs kept rest, skip tag bs = some (kept, rest) → rest <:+ bs) :
    (addSkipped skip).Reads := by
  intro fields tag bs fields' rest h
  rw [addSkipped] at h
  cases hs : skip tag bs with
  | none =>
      rw [hs] at h
      cases h
  | some r =>
      rw [hs] at h
      cases h
      exact hskip _ _ _ _ hs

lemma skipMessage_eq_some {fields : List UnknownField} {ended : Ended} :
    skipMessage skip bs = some (fields, ended, rest) ↔
      readFields (addSkipped skip) [] bs = .ok (fields, ended, rest) := by
  rw [skipMessage]
  cases readFields (addSkipped skip) [] bs with
  | error s => simp [Except.toOption]
  | ok r => simp [Except.toOption]

lemma skipField_suffix {budget : ℕ} (h : skipField budget tag bs = some (kept, rest)) :
    rest <:+ bs := by
  induction budget generalizing tag bs kept rest with
  | zero => exact skipFieldWith_suffix (fun _ _ _ _ hnone => by cases hnone) h
  | succ budget ih =>
      refine skipFieldWith_suffix (fun bs fields ended rest hgroup => ?_) h
      exact readFields_suffix (addSkipped_reads fun _ _ _ _ => ih) (skipMessage_eq_some.mp hgroup)

lemma skipField_reads (budget : ℕ) : (addSkipped (skipField budget)).Reads :=
  addSkipped_reads fun _ _ _ _ => skipField_suffix

lemma skipFieldWith_makeTag (n : FieldNumber) (t : WireType) :
    skipFieldWith group (makeTag n.val t) bs = skipPayload group n t.code bs := by
  have hnumber := getTagFieldNumber_makeTag n.lt t
  have hpos : 0 < getTagFieldNumber (makeTag n.val t) := by
    rw [hnumber]
    exact n.pos
  rw [skipFieldWith, dif_pos hpos, getTagWireType_makeTag n.lt]
  congr 1
  cases n
  simp only [FieldNumber.mk.injEq]
  exact hnumber

/-- A group is skipped if it ends with its own tag. -/
lemma skipPayload_group {n : FieldNumber} {fields : List UnknownField}
    (h : group bs = some (fields, .endGroup (makeTag n.val .endGroup), rest)) :
    skipPayload group n WireType.startGroup.code bs
      = some ([.group n fields], rest) := by
  show (group bs).bind _ = _
  rw [h, Option.bind_some]
  exact if_pos rfl

end Reads

/-- The number of a field. -/
def UnknownField.number : UnknownField → FieldNumber
  | .varint n _ => n
  | .fixed32 n _ => n
  | .fixed64 n _ => n
  | .lengthDelimited n _ => n
  | .group n _ => n

/-- What is behind the tag of a field. -/
def UnknownField.payload : UnknownField → WireType × List Byte
  | .varint _ v => (.varint, writeVarint64 v)
  | .fixed32 _ v => (.fixed32, writeLittleEndian32 v)
  | .fixed64 _ v => (.fixed64, writeLittleEndian64 v)
  | .lengthDelimited _ data => (.lengthDelimited, writeVarint data.length ++ data)
  | .group n fields => (.startGroup, serializeUnknownFields fields ++ writeTag n.val .endGroup)

lemma UnknownField.serialize_eq (f : UnknownField) :
    f.serialize = writeTag f.number.val f.payload.1 ++ f.payload.2 := by
  cases f <;> rw [serialize] <;> rfl

lemma UnknownField.payload_ne_endGroup (f : UnknownField) : f.payload.1.code ≠ 4 := by
  cases f <;> exact fun h => by cases h

/-- The functions for a budget have one for each case. -/
lemma skipField_eq (budget : ℕ) :
    skipField budget = skipFieldWith fun bs =>
      if 0 < budget then skipMessage (skipField (budget - 1)) bs else none := by
  cases budget with
  | zero => rfl
  | succ budget => rw [skipField]; simp

mutual

/-- **A field that is written is skipped**, and kept. -/
theorem skipField_serialize : ∀ (f : UnknownField) {budget : ℕ}, f.Fits budget →
    ∀ rest, skipField budget (makeTag f.number.val f.payload.1) (f.payload.2 ++ rest)
      = some ([f], rest)
  | .varint n v, budget, _, rest => by
      rw [skipField_eq, skipFieldWith_makeTag]
      exact congrArg (Option.map _) (readVarint64_writeVarint64 v rest)
  | .fixed32 n v, budget, _, rest => by
      rw [skipField_eq, skipFieldWith_makeTag]
      show skipPayload _ n 5 (writeLittleEndian32 v ++ rest) = _
      rw [skipPayload, readLittleEndian32_write]
      rfl
  | .fixed64 n v, budget, _, rest => by
      rw [skipField_eq, skipFieldWith_makeTag]
      show skipPayload _ n 1 (writeLittleEndian64 v ++ rest) = _
      rw [skipPayload, readLittleEndian64_write]
      rfl
  | .lengthDelimited n data, budget, h, rest => by
      rw [UnknownField.Fits] at h
      rw [skipField_eq, skipFieldWith_makeTag]
      exact congrArg (Option.map _) (readBytes_write h rest)
  | .group n fields, budget, h, rest => by
      rw [UnknownField.Fits] at h
      have hfields := readFields_serialize fields h.2 [] (writeTag n.val .endGroup ++ rest)
      have hend : readFields (addSkipped (skipField (budget - 1)))
            ([] ++ fields) (writeTag n.val .endGroup ++ rest)
          = .ok ([] ++ fields, .endGroup (makeTag n.val .endGroup), rest) :=
        readFields_endGroup (readTag_writeTag n .endGroup rest) (getTagWireType_makeTag n.lt _)
      rw [hend, List.nil_append] at hfields
      rw [skipField_eq, skipFieldWith_makeTag]
      have hgroup : (fun bs => if 0 < budget then skipMessage (skipField (budget - 1)) bs
            else none) (serializeUnknownFields fields ++ writeTag n.val .endGroup ++ rest)
          = some (fields, .endGroup (makeTag n.val .endGroup), rest) := by
        simp only
        rw [if_pos h.1, List.append_assoc, skipMessage_eq_some.mpr hfields]
      exact skipPayload_group hgroup

/-- **A set that is written is read**: the loop goes on behind it. -/
theorem readFields_serialize : ∀ (fields : List UnknownField) {budget : ℕ},
    FitAll budget fields → ∀ (s : List UnknownField) (tail : List Byte),
    readFields (addSkipped (skipField budget)) s (serializeUnknownFields fields ++ tail)
      = readFields (addSkipped (skipField budget)) (s ++ fields) tail
  | [], budget, _, s, tail => by simp [serializeUnknownFields]
  | f :: fields, budget, h, s, tail => by
      rw [FitAll] at h
      have htag := readTag_writeTag f.number f.payload.1
        (f.payload.2 ++ (serializeUnknownFields fields ++ tail))
      have hne : getTagWireType (makeTag f.number.val f.payload.1) ≠ WireType.endGroup.code := by
        rw [getTagWireType_makeTag f.number.lt]
        exact f.payload_ne_endGroup
      have hstep : addSkipped (skipField budget) s (makeTag f.number.val f.payload.1)
            (f.payload.2 ++ (serializeUnknownFields fields ++ tail))
          = .ok (s ++ [f], serializeUnknownFields fields ++ tail) := by
        rw [addSkipped, skipField_serialize f h.1]
      rw [serializeUnknownFields, f.serialize_eq, List.append_assoc, List.append_assoc,
        readFields_ok (skipField_reads budget) htag hne hstep,
        readFields_serialize fields h.2]
      rw [List.append_assoc, List.singleton_append]

end


lemma parseUnknownFields_serialize {fields : List UnknownField}
    (h : FitAll defaultRecursionLimit fields)
    (hlen : (serializeUnknownFields fields).length < 2 ^ 31) :
    parseUnknownFields (serializeUnknownFields fields) = some fields := by
  have hread := readFields_serialize fields h [] []
  rw [List.append_nil, readFields_nil, List.nil_append] at hread
  rw [parseUnknownFields, if_pos hlen, skipMessage_eq_some.mpr hread]
  rfl

/-- **What is written of a set is read back**, and its bytes are counted before. -/
theorem parse_unknownFields {fields : List UnknownField} (h : FitAll defaultRecursionLimit fields) :
    computeUnknownFieldsSize fields = (serializeUnknownFields fields).length ∧
      ((serializeUnknownFields fields).length < 2 ^ 31 →
        parseUnknownFields (serializeUnknownFields fields) = some fields) :=
  ⟨computeUnknownFieldsSize_eq h, parseUnknownFields_serialize h⟩

/-- A number, and a group with a string in it. -/
def sampleFields : List UnknownField :=
  [.varint ⟨1, by decide, by decide⟩ 150,
    .group ⟨2, by decide, by decide⟩ [.lengthDelimited ⟨3, by decide, by decide⟩ [7]]]

theorem parse_unknownFields_sample : computeUnknownFieldsSize sampleFields = 8 ∧
    parseUnknownFields (serializeUnknownFields sampleFields) = some sampleFields := by
  have hdata : ([7] : List Byte).length < 2 ^ 31 := by decide
  have hfits : FitAll defaultRecursionLimit sampleFields :=
    ⟨trivial, ⟨by decide, hdata, trivial⟩, trivial⟩
  have hsize : computeUnknownFieldsSize sampleFields = 8 := by decide +kernel
  obtain ⟨hcount, hread⟩ := parse_unknownFields hfits
  exact ⟨hsize, hread (by rw [← hcount, hsize]; decide)⟩

/-! ### What is read -/

lemma serializeUnknownFields_append (fields fields' : List UnknownField) :
    serializeUnknownFields (fields ++ fields')
      = serializeUnknownFields fields ++ serializeUnknownFields fields' := by
  induction fields with
  | nil => rfl
  | cons f fields ih =>
      rw [List.cons_append, serializeUnknownFields, serializeUnknownFields, ih,
        List.append_assoc]

lemma FitAll.append {budget : ℕ} {fields fields' : List UnknownField} (h : FitAll budget fields)
    (h' : FitAll budget fields') : FitAll budget (fields ++ fields') := by
  induction fields with
  | nil => exact h'
  | cons f fields ih =>
      rw [FitAll] at h
      rw [List.cons_append, FitAll]
      exact ⟨h.1, ih h.2⟩

/-- A tag is written in no more bytes than it was read of. -/
lemma readTag_length {tag : BitVec 32} {bs rest : List Byte} (h : readTag bs = .tag tag rest) :
    (writeVarint tag.toNat).length + rest.length ≤ bs.length := by
  obtain ⟨-, front, rfl, hle⟩ := readTag_spec h
  rw [List.length_append]
  omega

/-- A tag is written as it was read. -/
lemma writeTag_parts {n : FieldNumber} {tag : BitVec 32} {t : WireType}
    (hn : n.val = getTagFieldNumber tag) (h : getTagWireType tag = t.code) :
    writeTag n.val t = writeVarint tag.toNat := by
  rw [writeTag, writeVarint32, hn, makeTag_parts h]

/-- What is kept of a field fits the budget and the bytes that were read. -/
structure Kept (budget : ℕ) (kept : List UnknownField) (rest bs : List Byte) : Prop where
  fits : FitAll budget kept
  length : (serializeUnknownFields kept).length + rest.length ≤ bs.length

/-- The fields until the end of the loop, if each is kept so. -/
lemma readFields_kept {budget : ℕ}
    {skip : BitVec 32 → List Byte → Option (List UnknownField × List Byte)}
    (hreads : (addSkipped skip).Reads)
    (hskip : ∀ tag bs rest kept rest', readTag bs = .tag tag rest →
      skip tag rest = some (kept, rest') → Kept budget kept rest' bs)
    {bs rest : List Byte} {fields : List UnknownField} {ended : Ended}
    (h : readFields (addSkipped skip) [] bs = .ok (fields, ended, rest)) :
    ∃ bs', Kept budget fields bs' bs ∧ EndsAt bs' ended rest := by
  have hstep : ∀ s tag bs' rest s' rest', Kept budget s bs' bs → readTag bs' = .tag tag rest →
      addSkipped skip s tag rest = .ok (s', rest') → Kept budget s' rest' bs := by
    intro s tag bs' rest s' rest' hs hread hfield
    rw [addSkipped] at hfield
    cases hone : skip tag rest with
    | none =>
        rw [hone] at hfield
        cases hfield
    | some r =>
        obtain ⟨kept, rest''⟩ := r
        rw [hone] at hfield
        cases hfield
        have hnew := hskip _ _ _ _ _ hread hone
        have h1 := hs.length
        have h2 := hnew.length
        refine ⟨hs.fits.append hnew.fits, ?_⟩
        rw [serializeUnknownFields_append, List.length_append]
        omega
  have hnil : Kept budget [] bs bs := ⟨trivial, Nat.le_of_eq (Nat.zero_add _)⟩
  rcases readFields_cases hreads hstep hnil with
    ⟨s', bs', ended', rest', hloop, hkept, hend⟩ | ⟨_, _, _, _, _, hloop, _⟩
  · rw [hloop] at h
    cases h
    exact ⟨bs', hkept, hend⟩
  · rw [hloop] at h
    cases h

/-- **A field that is read** has been written, or could be in no more bytes. -/
lemma skipField_kept {budget : ℕ} {tag : BitVec 32} {bs rest rest' : List Byte}
    {kept : List UnknownField} (htag : readTag bs = .tag tag rest)
    (h : skipField budget tag rest = some (kept, rest')) : Kept budget kept rest' bs := by
  induction budget using Nat.strong_induction_on generalizing tag bs rest rest' kept with
  | _ budget ih =>
      rw [skipField_eq] at h
      obtain ⟨n, f, hn, rfl, hcase⟩ := skipFieldWith_cases h
      have hlen := readTag_length htag
      suffices hf : f.Fits budget ∧ f.serialize.length + rest'.length ≤ bs.length by
        refine ⟨⟨hf.1, trivial⟩, ?_⟩
        rw [serializeUnknownFields, serializeUnknownFields, List.append_nil]
        exact hf.2
      rcases hcase with ⟨v, hcode, rfl, hv⟩ | ⟨v, hcode, rfl, hv⟩ | ⟨data, hcode, rfl, hv⟩ |
        ⟨fields, hcode, rfl, hv⟩ | ⟨v, hcode, rfl, hv⟩
      · obtain ⟨front, rfl, hle⟩ := readVarint64_spec hv
        refine ⟨trivial, ?_⟩
        rw [UnknownField.serialize, writeTag_parts (t := .varint) hn hcode, List.length_append,
          writeVarint64]
        rw [List.length_append] at hlen
        omega
      · obtain ⟨front, rfl, hle⟩ := readLittleEndian64_spec hv
        refine ⟨trivial, ?_⟩
        rw [UnknownField.serialize, writeTag_parts (t := .fixed64) hn hcode, List.length_append,
          writeLittleEndian64, length_littleEndian]
        rw [List.length_append] at hlen
        omega
      · obtain ⟨head, rfl, hlt, hle⟩ := readBytes_spec hv
        refine ⟨hlt, ?_⟩
        rw [UnknownField.serialize, writeTag_parts (t := .lengthDelimited) hn hcode,
          List.length_append, List.length_append]
        rw [List.length_append, List.length_append] at hlen
        omega
      · by_cases hpos : 0 < budget
        · rw [if_pos hpos, skipMessage_eq_some] at hv
          obtain ⟨bs', hkept, hend⟩ := readFields_kept (skipField_reads (budget - 1))
            (fun tag bs rest kept rest' htag hskip => ih (budget - 1) (by omega) htag hskip) hv
          refine ⟨⟨hpos, hkept.fits⟩, ?_⟩
          have hclose : (writeTag n.val .endGroup).length + rest'.length ≤ bs'.length := by
            cases hend with
            | endGroup hread _ => exact readTag_length hread
          have hfields := hkept.length
          rw [UnknownField.serialize, writeTag_parts (t := .startGroup) hn hcode,
            List.length_append, List.length_append]
          omega
        · rw [if_neg hpos] at hv
          cases hv
      · obtain ⟨front, rfl, hle⟩ := readLittleEndian32_spec hv
        refine ⟨trivial, ?_⟩
        rw [UnknownField.serialize, writeTag_parts (t := .fixed32) hn hcode, List.length_append,
          writeLittleEndian32, length_littleEndian]
        rw [List.length_append] at hlen
        omega

/-- **What is read of a set can be written**, in no more bytes, and is read back. -/
theorem parse_wellFormed {bs : List Byte} {fields : List UnknownField}
    (h : parseUnknownFields bs = some fields) :
    FitAll defaultRecursionLimit fields ∧
      (serializeUnknownFields fields).length ≤ bs.length ∧
      parseUnknownFields (serializeUnknownFields fields) = some fields := by
  rw [parseUnknownFields] at h
  split_ifs at h with hsize
  obtain ⟨⟨fields', ended, rest⟩, hmessage, hret⟩ := Option.bind_eq_some_iff.mp h
  simp only at hret
  split_ifs at hret with hended
  cases hret
  obtain ⟨bs', hkept, -⟩ := readFields_kept (skipField_reads defaultRecursionLimit)
    (fun _ _ _ _ _ => skipField_kept) (skipMessage_eq_some.mp hmessage)
  have hlen := hkept.length
  exact ⟨hkept.fits, by omega, parseUnknownFields_serialize hkept.fits (by omega)⟩

/-- A tag of two bytes and a number of three, for which one byte each is enough. -/
theorem parse_wellFormed_long : ∃ fields,
    parseUnknownFields [0x88, 0x00, 0x81, 0x80, 0x00] = some fields ∧
      (serializeUnknownFields fields).length ≤ 5 :=
  have hread : parseUnknownFields [0x88, 0x00, 0x81, 0x80, 0x00]
      = some [.varint ⟨1, by decide, by decide⟩ 1] := rfl
  ⟨_, hread, (parse_wellFormed hread).2.1⟩

end WireFormat

end PbEntityDb
