import PbEntityDb.Proto.MessageType
import PbEntityDb.Proto.UnknownFieldSet

/-!
Messages on the wire: `WireFormat` for a message and its fields.

* `byteSize` counts the bytes, `serialize` writes them: `WireFormat::ByteSize` and
  `WireFormat::SerializeWithCachedSizes`. Which fields are packed is an option.
* `parseAndMergePartial` reads fields into a message, with a budget for the messages in it:
  `WireFormat::ParseAndMergePartial`. A field comes packed or not, whatever its option says.
* `Sound`: what the parser leaves in a message, and what is read as it was written. The
  unknown fields of a message are left out; they are in `UnknownFieldSet`. The types are
  those of `MessageType`, without groups, maps, message sets and extensions.
* `packedLoop_eq`: the loop over packed values comes to its end.
* `length_serialize`: **the size of a message is the number of its bytes**.
-/

namespace PbEntityDb

open WireFormat Coded

/-! ### Sizes -/

/-- `FieldDescriptor::is_packed`, with the option `packed` of the field. -/
def WireField.isPacked (packed : WireField → Bool) (w : WireField) : Bool :=
  w.kind.isPackable && packed w

/-- The number of values in a field that is set. -/
def Field.count : Field → ℕ
  | leaf _ => 1
  | unset _ => 0
  | message _ _ => 1
  | repeated _ values => values.length
  | repeatedMessage _ elems => elems.length

/-- `WireFormatLite::LengthDelimitedSize`. -/
def lengthDelimitedSize (length : ℕ) : ℕ := length + varintSize length

/-- `WireFormat::FieldByteSize` for the size of the data. -/
def fieldByteSize (packed : WireField → Bool) (w : WireField) (count dataSize : ℕ) : ℕ :=
  if w.isPacked packed then
    if 0 < dataSize then dataSize + tagSize w.number.val + varintSize dataSize else dataSize
  else dataSize + count * tagSize w.number.val

mutual

/-- `WireFormat::FieldDataOnlyByteSize`. -/
def fieldDataOnlyByteSize (types : MessageTypes) (packed : WireField → Bool) (w : WireField)
    (f : Field) : ℕ :=
  match f with
  | .leaf l => size w.kind.type l.value
  | .unset _ => 0
  | .message f sub => lengthDelimitedSize (byteSize types packed f.messageType sub)
  | .repeated _ values => (values.map (size w.kind.type)).sum
  | .repeatedMessage f elems =>
      (elems.attach.map fun m =>
        lengthDelimitedSize (byteSize types packed f.messageType m.1)).sum
termination_by sizeOf f
decreasing_by
  · simp
  · have := List.sizeOf_lt_of_mem m.2
    simp
    omega

/-- `WireFormat::ByteSize`. -/
def byteSize (types : MessageTypes) (packed : WireField → Bool) (name : Text) (m : Message) : ℕ :=
  ((listFields (types name).fields m).attach.map fun e =>
    fieldByteSize packed e.1.field e.1.content.count
      (fieldDataOnlyByteSize types packed e.1.field e.1.content)).sum
termination_by sizeOf m
decreasing_by exact sizeOf_content e.2

end

/-! ### Writing -/

/-- The tag, the size and the bytes of what has a length in front of it. -/
def writeDelimited (w : WireField) (size : ℕ) (bs : List Byte) : List Byte :=
  writeTag w.number.val .lengthDelimited ++ (writeVarint size ++ bs)

/-- `WireFormatLite::Write...` of a value with its tag. -/
def writeValue (w : WireField) (v : Scalar) : List Byte :=
  writeTag w.number.val (wireTypeForFieldType w.kind.type) ++ writeNoTag w.kind.type v

mutual

/-- `WireFormat::SerializeFieldWithCachedSizes`. -/
def serializeField (types : MessageTypes) (packed : WireField → Bool) (w : WireField)
    (f : Field) : List Byte :=
  match f with
  | .leaf l => writeValue w l.value
  | .unset _ => []
  | .message f sub =>
      writeDelimited w (byteSize types packed f.messageType sub)
        (serialize types packed f.messageType sub)
  | .repeated name values =>
      if w.isPacked packed then
        if values.isEmpty then []
        else
          writeDelimited w (fieldDataOnlyByteSize types packed w (.repeated name values))
            (values.flatMap (writeNoTag w.kind.type))
      else values.flatMap (writeValue w)
  | .repeatedMessage f elems =>
      elems.attach.flatMap fun m =>
        writeDelimited w (byteSize types packed f.messageType m.1)
          (serialize types packed f.messageType m.1)
termination_by sizeOf f
decreasing_by
  · simp
  · have := List.sizeOf_lt_of_mem m.2
    simp
    omega

/-- `WireFormat::SerializeWithCachedSizes`. -/
def serialize (types : MessageTypes) (packed : WireField → Bool) (name : Text) (m : Message) :
    List Byte :=
  (listFields (types name).fields m).attach.flatMap fun e =>
    serializeField types packed e.1.field e.1.content
termination_by sizeOf m
decreasing_by exact sizeOf_content e.2

end

section Equations

variable (types : MessageTypes) (packed : WireField → Bool)

lemma byteSize_eq (name : Text) (m : Message) :
    byteSize types packed name m = ((listFields (types name).fields m).map fun e =>
      fieldByteSize packed e.field e.content.count
        (fieldDataOnlyByteSize types packed e.field e.content)).sum := by
  rw [byteSize]
  exact congrArg List.sum (List.attach_map_val (f := fun e : Entry =>
    fieldByteSize packed e.field e.content.count
      (fieldDataOnlyByteSize types packed e.field e.content)))

lemma dataSize_repeatedMessage (w : WireField) (f : MessageField) (elems : List Message) :
    fieldDataOnlyByteSize types packed w (.repeatedMessage f elems)
      = (elems.map fun m => lengthDelimitedSize (byteSize types packed f.messageType m)).sum := by
  rw [fieldDataOnlyByteSize]
  exact congrArg List.sum (List.attach_map_val (f := fun m : Message =>
    lengthDelimitedSize (byteSize types packed f.messageType m)))

lemma serialize_eq (name : Text) (m : Message) :
    serialize types packed name m = (listFields (types name).fields m).flatMap fun e =>
      serializeField types packed e.field e.content := by
  rw [serialize, List.flatMap_def, List.flatMap_def]
  exact congrArg List.flatten (List.attach_map_val (f := fun e : Entry =>
    serializeField types packed e.field e.content))

lemma serializeField_repeatedMessage (w : WireField) (f : MessageField) (elems : List Message) :
    serializeField types packed w (.repeatedMessage f elems)
      = elems.flatMap fun m => writeDelimited w (byteSize types packed f.messageType m)
          (serialize types packed f.messageType m) := by
  rw [serializeField, List.flatMap_def, List.flatMap_def]
  exact congrArg List.flatten (List.attach_map_val (f := fun m : Message =>
    writeDelimited w (byteSize types packed f.messageType m)
      (serialize types packed f.messageType m)))

end Equations

/-! ### Reading -/

/-- `PushLimit`: the bytes up to the new limit and those behind it. A limit that is negative
or behind the old one is not set. -/
def pushLimit (limit : ℤ) (bs : List Byte) : List Byte × List Byte :=
  if 0 ≤ limit then bs.splitAt limit.toNat else (bs, [])

/-- The `Set...` and `Add...` functions for the field with index `i`. -/
def storeValue (i : ℕ) : (kind : FieldKind) → Value kind.type → Message → Message
  | .leaf d _, v, m => setAt i (.leaf ⟨d, true, v.1, v.2⟩) m
  | .repeated _ _ _, v, m => m.modify i (Field.addValue v.1)
  | _, _, m => m

/-- A value that is stored: a number that an enum of proto2 does not have goes to the
unknown fields. -/
def isStored (proto3 : Bool) (w : WireField) : Scalar → Bool
  | .enum n => proto3 || w.known n
  | _ => true

/-- `VerifyUtf8String` where `StrictUtf8Check` asks for it. -/
def verifyUtf8 (utf8 : List Byte → Bool) (proto3 : Bool) (w : WireField) : Scalar → Bool
  | .string s => !(proto3 && w.kind.type = .string) || utf8 (bytesOf s)
  | _ => true

section Read

variable (types : MessageTypes) (utf8 : List Byte → Bool)

/-- The cases of `WireFormat::ParseAndMergeField` for a value. -/
def parseValue (proto3 : Bool) (i : ℕ) (w : WireField) (m : Message) (bs : List Byte) :
    Except Message (Message × List Byte) :=
  match readPrimitive w.kind.type bs with
  | none => .error m
  | some (v, rest) =>
      if verifyUtf8 utf8 proto3 w v.1 then
        .ok (if isStored proto3 w v.1 then storeValue i w.kind v m else m, rest)
      else .error m

/-- The loop over packed values, in fewer than `fuel` bytes. -/
def packedLoop (proto3 : Bool) (i : ℕ) (w : WireField) :
    ℕ → Message → List Byte → Except Message Message
  | 0, m, _ => .error m
  | fuel + 1, m, bs =>
      if bs.isEmpty then .ok m
      else
        match parseValue utf8 proto3 i w m bs with
        | .error m => .error m
        | .ok (m, rest) => packedLoop proto3 i w fuel m rest

/-- The packed format in `WireFormat::ParseAndMergeField`. -/
def parsePacked (proto3 : Bool) (i : ℕ) (w : WireField) (m : Message) (bs : List Byte) :
    Except Message (Message × List Byte) :=
  match readVarint32 bs with
  | none => .error m
  | some (length, bs) =>
      match packedLoop utf8 proto3 i w ((pushLimit length.toInt bs).1.length + 1) m
          (pushLimit length.toInt bs).1 with
      | .error m => .error m
      | .ok m => .ok (m, (pushLimit length.toInt bs).2)

/-- `WireFormatLite::ReadMessage`, with `merge` for `MergePartialFromCodedStream`. -/
def readMessage (merge : Message → List Byte → Except Message (Message × Ended × List Byte))
    (sub : Message) (bs : List Byte) : Except Message (Message × List Byte) :=
  match readVarintSizeAsInt bs with
  | none => .error sub
  | some (length, bs) =>
      match merge sub (pushLimit length bs).1 with
      | .error sub => .error sub
      | .ok (sub, ended, _) =>
          if ended = .limit then .ok (sub, (pushLimit length bs).2) else .error sub

/-- What becomes of a message when one in it was read, or not. -/
def putMessage (put : Message → Message) :
    Except Message (Message × List Byte) → Except Message (Message × List Byte)
  | .error sub => .error (put sub)
  | .ok (sub, rest) => .ok (put sub, rest)

/-- The normal format in `WireFormat::ParseAndMergeField`. -/
def parseNormal (merge : Text → Message → List Byte → Except Message (Message × Ended × List Byte))
    (proto3 : Bool) (i : ℕ) (w : WireField) (m : Message) (bs : List Byte) :
    Except Message (Message × List Byte) :=
  match w.kind with
  | .message f =>
      putMessage (fun sub => setAt i (.message f sub) m)
        (readMessage (merge f.messageType) (mutableMessage types.pool i f m) bs)
  | .repeatedMessage f =>
      putMessage (fun sub => m.modify i (Field.addMessage sub))
        (readMessage (merge f.messageType) (emptyMessage types.pool f.messageType) bs)
  | _ => parseValue utf8 proto3 i w m bs

/-- `WireFormat::SkipField` into the unknown fields of the message, which are left out. -/
def parseUnknown (budget : ℕ) : FieldStep Message := fun m tag bs =>
  match skipField budget tag bs with
  | none => .error m
  | some (_, rest) => .ok (m, rest)

/-- `WireFormat::ParseAndMergeField`, with what is left of the recursion budget. -/
def parseAndMergeField (budget : ℕ)
    (merge : Text → Message → List Byte → Except Message (Message × Ended × List Byte))
    (T : MessageType) : FieldStep Message := fun m tag bs =>
  match findFieldByNumber T.fields (getTagFieldNumber tag) with
  | none => parseUnknown budget m tag bs
  | some (i, w) =>
      if getTagWireType tag = (wireTypeForFieldType w.kind.type).code then
        parseNormal types utf8 merge T.proto3 i w m bs
      else if w.kind.isPackable && getTagWireType tag = WireType.lengthDelimited.code then
        parsePacked utf8 T.proto3 i w m bs
      else parseUnknown budget m tag bs

/-- `WireFormat::ParseAndMergePartial` for a message of a type. -/
def parseAndMergePartial : ℕ → Text → Message → List Byte →
    Except Message (Message × Ended × List Byte)
  | 0, name =>
      WireFormat.readFields
        (parseAndMergeField types utf8 0 (fun _ sub _ => .error sub) (types name))
  | budget + 1, name =>
      WireFormat.readFields
        (parseAndMergeField types utf8 (budget + 1) (parseAndMergePartial budget) (types name))

/-- `MessageLite::ParsePartialFromString`: its result, and the object behind it. The number of
bytes becomes an `int`, so that a longer string is not read as a whole. -/
def parsePartialFromString (name : Text) (bs : List Byte) : Bool × Message :=
  if bs.length < 2 ^ 31 then
    match parseAndMergePartial types utf8 defaultRecursionLimit name
        (emptyMessage types.pool name) bs with
    | .ok (m, ended, _) => (ended = .limit, m)
    | .error m => (false, m)
  else (false, emptyMessage types.pool name)

end Read

/-! ### Off the front of a stream -/

section Suffix

variable {types : MessageTypes} {utf8 : List Byte → Bool} {proto3 : Bool} {i budget : ℕ}
  {w : WireField} {m m' : Message} {bs rest : List Byte}
  {merge : Text → Message → List Byte → Except Message (Message × Ended × List Byte)}

lemma pushLimit_suffix (limit : ℤ) (bs : List Byte) : (pushLimit limit bs).2 <:+ bs := by
  rw [pushLimit]
  split_ifs
  · rw [List.splitAt_eq]
    exact List.drop_suffix _ _
  · exact List.nil_suffix

lemma parseValue_eq_ok (h : parseValue utf8 proto3 i w m bs = .ok (m', rest)) :
    ∃ v, readPrimitive w.kind.type bs = some (v, rest) ∧ verifyUtf8 utf8 proto3 w v.1 = true ∧
      m' = if isStored proto3 w v.1 then storeValue i w.kind v m else m := by
  rw [parseValue] at h
  cases hread : readPrimitive w.kind.type bs with
  | none =>
      rw [hread] at h
      cases h
  | some r =>
      obtain ⟨v, rest'⟩ := r
      rw [hread] at h
      simp only at h
      by_cases hverified : verifyUtf8 utf8 proto3 w v.1 = true
      · rw [if_pos hverified] at h
        cases h
        exact ⟨v, rfl, hverified, rfl⟩
      · rw [if_neg hverified] at h
        cases h

lemma parseValue_suffix (h : parseValue utf8 proto3 i w m bs = .ok (m', rest)) : rest <:+ bs := by
  obtain ⟨v, hread, -, -⟩ := parseValue_eq_ok h
  exact (readPrimitive_spec hread).2

lemma parsePacked_eq_ok (h : parsePacked utf8 proto3 i w m bs = .ok (m', rest)) :
    ∃ length bs', readVarint32 bs = some (length, bs') ∧
      packedLoop utf8 proto3 i w ((pushLimit length.toInt bs').1.length + 1) m
        (pushLimit length.toInt bs').1 = .ok m' ∧ rest = (pushLimit length.toInt bs').2 := by
  rw [parsePacked] at h
  cases hread : readVarint32 bs with
  | none =>
      rw [hread] at h
      cases h
  | some r =>
      obtain ⟨length, bs'⟩ := r
      rw [hread] at h
      simp only at h
      split at h
      · cases h
      · rename_i hloop
        cases h
        exact ⟨length, bs', rfl, hloop, rfl⟩

lemma parsePacked_suffix (h : parsePacked utf8 proto3 i w m bs = .ok (m', rest)) :
    rest <:+ bs := by
  obtain ⟨length, bs', hread, -, rfl⟩ := parsePacked_eq_ok h
  obtain ⟨front, rfl, -⟩ := readVarint32_spec hread
  exact (pushLimit_suffix _ _).trans (List.suffix_append _ _)

lemma readMessage_eq_ok
    {one : Message → List Byte → Except Message (Message × Ended × List Byte)}
    (h : readMessage one m bs = .ok (m', rest)) :
    ∃ length bs' rest', readVarintSizeAsInt bs = some (length, bs') ∧
      one m (pushLimit length bs').1 = .ok (m', .limit, rest') ∧
      rest = (pushLimit length bs').2 := by
  rw [readMessage] at h
  cases hread : readVarintSizeAsInt bs with
  | none =>
      rw [hread] at h
      cases h
  | some r =>
      obtain ⟨length, bs'⟩ := r
      rw [hread] at h
      simp only at h
      split at h
      · cases h
      · rename_i hone
        split_ifs at h with hended
        cases h
        rw [hended] at hone
        exact ⟨length, bs', _, rfl, hone, rfl⟩

lemma readMessage_suffix
    {one : Message → List Byte → Except Message (Message × Ended × List Byte)}
    (h : readMessage one m bs = .ok (m', rest)) : rest <:+ bs := by
  obtain ⟨length, bs', rest', hread, -, rfl⟩ := readMessage_eq_ok h
  obtain ⟨⟨value, bs''⟩, hvalue, hret⟩ := Option.bind_eq_some_iff.mp hread
  obtain ⟨front, rfl, -⟩ := readVarint64_spec hvalue
  simp only at hret
  split_ifs at hret
  cases hret
  exact (pushLimit_suffix _ _).trans (List.suffix_append _ _)

lemma putMessage_eq_ok {put : Message → Message} {r : Except Message (Message × List Byte)}
    (h : putMessage put r = .ok (m', rest)) : ∃ sub, r = .ok (sub, rest) ∧ m' = put sub := by
  cases r with
  | error sub => cases h
  | ok r =>
      cases h
      exact ⟨_, rfl, rfl⟩

lemma parseNormal_suffix (h : parseNormal types utf8 merge proto3 i w m bs = .ok (m', rest)) :
    rest <:+ bs := by
  rw [parseNormal] at h
  split at h
  · obtain ⟨sub, hsub, -⟩ := putMessage_eq_ok h
    exact readMessage_suffix hsub
  · obtain ⟨sub, hsub, -⟩ := putMessage_eq_ok h
    exact readMessage_suffix hsub
  · exact parseValue_suffix h

lemma parseUnknown_reads (budget : ℕ) : (parseUnknown budget).Reads := by
  intro m tag bs m' rest h
  rw [parseUnknown] at h
  cases hskip : skipField budget tag bs with
  | none =>
      rw [hskip] at h
      cases h
  | some r =>
      rw [hskip] at h
      cases h
      exact skipField_suffix hskip

lemma parseAndMergeField_reads (T : MessageType) :
    (parseAndMergeField types utf8 budget merge T).Reads := by
  intro m tag bs m' rest h
  rw [parseAndMergeField] at h
  split at h
  · exact parseUnknown_reads budget _ _ _ _ _ h
  · split_ifs at h
    · exact parseNormal_suffix h
    · exact parsePacked_suffix h
    · exact parseUnknown_reads budget _ _ _ _ _ h

end Suffix

/-! ### Fields keep their declarations -/

section Declared

variable {pool : Pool} {m : Message} {ds : List FieldDecl}

lemma hasDecls_modify (h : HasDecls pool m ds) (i : ℕ) {g : Field → Field}
    (hg : ∀ f d, f.HasDecl pool d → (g f).HasDecl pool d) : HasDecls pool (m.modify i g) ds := by
  obtain ⟨hlen, hdecl⟩ := hasDecls_iff.mp h
  refine hasDecls_iff.mpr ⟨by rw [List.length_modify, hlen], fun j f d hf hd => ?_⟩
  rw [List.getElem?_modify] at hf
  obtain ⟨f', hf', rfl⟩ := Option.map_eq_some_iff.mp hf
  have hold := hdecl j f' d hf' hd
  split_ifs
  · exact hg _ _ hold
  · exact hold

lemma Field.HasDecl.addValue {f : Field} {d : FieldDecl} (h : f.HasDecl pool d) (v : Scalar) :
    (f.addValue v).HasDecl pool d := by
  cases f with
  | repeated name values => rwa [Field.addValue, Field.HasDecl]
  | leaf l => exact h
  | unset f => exact h
  | message f sub => exact h
  | repeatedMessage f elems => exact h

lemma Field.HasDecl.addMessage {f : Field} {d : FieldDecl} (h : f.HasDecl pool d) (sub : Message) :
    (f.addMessage sub).HasDecl pool d := by
  cases f with
  | repeatedMessage f elems => rwa [Field.addMessage, Field.HasDecl]
  | leaf l => exact h
  | unset f => exact h
  | message f sub => exact h
  | repeated name values => exact h

end Declared

section Kinds

variable {types : MessageTypes} {name : Text} {m : Message} {i : ℕ} {w : WireField}

lemma getElem?_pool (hw : (types name).fields[i]? = some w) :
    (types.pool name)[i]? = some w.kind.decl := by
  rw [MessageTypes.pool, List.getElem?_map, hw, Option.map_some]

/-- A field that is listed has the declaration of its index. -/
lemma Entry.hasDecl (h : HasDecls types.pool m (types.pool name)) {e : Entry}
    (he : e ∈ listFields (types name).fields m) :
    e.content.HasDecl types.pool e.field.kind.decl := by
  obtain ⟨hw, hf, -⟩ := mem_listFields.mp he
  exact (hasDecls_iff.mp h).2 _ _ _ hf (getElem?_pool hw)

lemma hasDecls_storeValue (h : HasDecls types.pool m (types.pool name))
    (hw : (types name).fields[i]? = some w) (v : Value w.kind.type) :
    HasDecls types.pool (storeValue i w.kind v m) (types.pool name) := by
  obtain ⟨number, kind, known⟩ := w
  have hd := getElem?_pool hw
  cases kind with
  | leaf d hscalar =>
      refine Raising.hasDecls_setAt h hd ?_
      rw [Field.HasDecl]
      rfl
  | repeated name type hscalar => exact hasDecls_modify h i fun _ _ hf => hf.addValue _
  | message f => exact h
  | repeatedMessage f => exact h

end Kinds

/-! ### Messages that are read as they were written -/

/-- A value that a field can store, and that the parser lets through. -/
structure Storable (utf8 : List Byte → Bool) (proto3 : Bool) (w : WireField) (v : Scalar) :
    Prop where
  typed : v.cppType = w.kind.type.cppType
  real : Real v
  kept : isStored proto3 w v = true
  verified : verifyUtf8 utf8 proto3 w v = true

/-- What a message of a type holds, with `sub` for the messages in it. -/
structure SoundWith (types : MessageTypes) (utf8 : List Byte → Bool)
    (sub : Text → Message → Prop) (name : Text) (m : Message) : Prop where
  hasDecls : HasDecls types.pool m (types.pool name)
  values : ∀ e ∈ listFields (types name).fields m, ∀ v ∈ e.content.values,
    Storable utf8 (types name).proto3 e.field v
  subs : ∀ e ∈ listFields (types name).fields m, ∀ s ∈ e.content.subs, sub s.1 s.2
  /-- one member of each oneof -/
  oneofs : ∀ e ∈ listFields (types name).fields m, ∀ e' ∈ listFields (types name).fields m,
    e.content.oneof.isSome = true → e'.content.oneof = e.content.oneof → e'.index = e.index

/-- Messages that nest no deeper than the recursion budget. -/
def Sound (types : MessageTypes) (utf8 : List Byte → Bool) : ℕ → Text → Message → Prop
  | 0 => SoundWith types utf8 fun _ _ => False
  | budget + 1 => SoundWith types utf8 (Sound types utf8 budget)

/-- What a message may hold with such a budget. -/
def Within (types : MessageTypes) (utf8 : List Byte → Bool) (budget : ℕ) (name : Text)
    (m : Message) : Prop := 0 < budget ∧ Sound types utf8 (budget - 1) name m

lemma Sound.unfold {types : MessageTypes} {utf8 : List Byte → Bool} {budget : ℕ} {name : Text}
    {m : Message} (h : Sound types utf8 budget name m) :
    SoundWith types utf8 (Within types utf8 budget) name m := by
  cases budget with
  | zero =>
      obtain ⟨hdecls, hvalues, hsubs, honeofs⟩ := h
      exact ⟨hdecls, hvalues, fun e he s hs => (hsubs e he s hs).elim, honeofs⟩
  | succ budget =>
      obtain ⟨hdecls, hvalues, hsubs, honeofs⟩ := h
      exact ⟨hdecls, hvalues, fun e he s hs => ⟨budget.succ_pos, hsubs e he s hs⟩, honeofs⟩

/-! ### Packed values -/

section Packed

variable {utf8 : List Byte → Bool} {proto3 : Bool} {i : ℕ} {w : WireField} {m : Message}
  {bs : List Byte}

lemma writeVarint_pos (n : ℕ) : 0 < (writeVarint n).length :=
  List.length_pos_of_ne_nil (Varint.encode_ne_nil (by omega) n)

/-- Each value takes a byte. -/
lemma readPrimitive_lt {t : FieldType} {rest : List Byte} {v : Value t}
    (h : readPrimitive t bs = some (v, rest)) : rest.length < bs.length := by
  have h32 : ∀ {x : BitVec 32}, readVarint32 bs = some (x, rest) → rest.length < bs.length := by
    intro x hx
    obtain ⟨front, rfl, hle⟩ := readVarint32_spec hx
    have hpos := writeVarint_pos x.toNat
    rw [List.length_append]
    omega
  have h64 : ∀ {x : BitVec 64}, readVarint64 bs = some (x, rest) → rest.length < bs.length := by
    intro x hx
    obtain ⟨front, rfl, hle⟩ := readVarint64_spec hx
    have hpos := writeVarint_pos x.toNat
    rw [List.length_append]
    omega
  cases t with
  | group | message => cases h
  | int32 | uint32 | sint32 | enum =>
      obtain ⟨⟨x, rest'⟩, hx, heq⟩ := Option.map_eq_some_iff.mp h
      cases heq
      exact h32 hx
  | int64 | uint64 | sint64 | bool =>
      obtain ⟨⟨x, rest'⟩, hx, heq⟩ := Option.map_eq_some_iff.mp h
      cases heq
      exact h64 hx
  | fixed32 | sfixed32 | float =>
      obtain ⟨⟨x, rest'⟩, hx, heq⟩ := Option.map_eq_some_iff.mp h
      cases heq
      obtain ⟨front, rfl, hlen⟩ := readLittleEndian32_spec hx
      simp only [List.length_append]
      omega
  | fixed64 | sfixed64 | double =>
      obtain ⟨⟨x, rest'⟩, hx, heq⟩ := Option.map_eq_some_iff.mp h
      cases heq
      obtain ⟨front, rfl, hlen⟩ := readLittleEndian64_spec hx
      simp only [List.length_append]
      omega
  | string | bytes =>
      obtain ⟨⟨x, rest'⟩, hx, heq⟩ := Option.map_eq_some_iff.mp h
      cases heq
      obtain ⟨head, rfl, hlt, hhead⟩ := readBytes_spec hx
      have hpos := writeVarint_pos x.length
      simp only [List.length_append]
      omega

/-- The loop over packed values does not depend on its fuel, if there is enough of it. -/
lemma packedLoop_fuel : ∀ {fuel fuel' : ℕ} {m : Message} {bs : List Byte}, bs.length < fuel →
    bs.length < fuel' →
    packedLoop utf8 proto3 i w fuel m bs = packedLoop utf8 proto3 i w fuel' m bs
  | 0, _, _, _, h, _ => absurd h (Nat.not_lt_zero _)
  | _, 0, _, _, _, h => absurd h (Nat.not_lt_zero _)
  | fuel + 1, fuel' + 1, m, bs, h, h' => by
      rw [packedLoop, packedLoop]
      split_ifs
      · rfl
      · cases hvalue : parseValue utf8 proto3 i w m bs with
        | error m' => rfl
        | ok r =>
            obtain ⟨v, hread, -, -⟩ := parseValue_eq_ok hvalue
            have hlt := readPrimitive_lt hread
            exact packedLoop_fuel (by omega) (by omega)

/-- **The loop over packed values** ends where its bytes do. -/
theorem packedLoop_eq : packedLoop utf8 proto3 i w (bs.length + 1) m bs
    = if bs.isEmpty then .ok m
      else
        match parseValue utf8 proto3 i w m bs with
        | .error m => .error m
        | .ok (m, rest) => packedLoop utf8 proto3 i w (rest.length + 1) m rest := by
  rw [packedLoop]
  split_ifs
  · rfl
  · cases hvalue : parseValue utf8 proto3 i w m bs with
    | error m' => rfl
    | ok r =>
        obtain ⟨v, hread, -, -⟩ := parseValue_eq_ok hvalue
        have hlt := readPrimitive_lt hread
        exact packedLoop_fuel (by omega) (by omega)

end Packed

/-! ### The size of what is written -/

section Sizes

variable {types : MessageTypes} {utf8 : List Byte → Bool} {packed : WireField → Bool}

lemma FieldKind.not_group (kind : FieldKind) : kind.type ≠ .group := by
  cases kind with
  | leaf d h => exact h.1
  | message f => exact FieldType.noConfusion
  | repeated name type h => exact h.1
  | repeatedMessage f => exact FieldType.noConfusion

lemma wireType_ne_endGroup (type : FieldType) : wireTypeForFieldType type ≠ .endGroup := by
  cases type <;> exact WireType.noConfusion

lemma length_writeValue {proto3 : Bool} {w : WireField} {v : Scalar}
    (h : Storable utf8 proto3 w v) :
    (writeValue w v).length = size w.kind.type v + tagSize w.number.val := by
  rw [writeValue, List.length_append, ← tagSize_eq, ← size_eq h.typed h.real, Nat.add_comm]

lemma length_writeDelimited (w : WireField) {size : ℕ} (h : size < 2 ^ 64) (bs : List Byte) :
    (writeDelimited w size bs).length = tagSize w.number.val + varintSize size + bs.length := by
  rw [writeDelimited, List.length_append, List.length_append, ← tagSize_eq, ← varintSize_eq h,
    Nat.add_assoc]

lemma le_sum_map {α : Type} {f : α → ℕ} {xs : List α} {x : α} (h : x ∈ xs) :
    f x ≤ (xs.map f).sum := List.le_sum_of_mem (List.mem_map_of_mem h)

lemma dataSize_le (w : WireField) (count dataSize : ℕ) :
    dataSize ≤ fieldByteSize packed w count dataSize := by
  rw [fieldByteSize]
  split_ifs <;> omega

lemma dataSize_le_byteSize {name : Text} {m : Message} {e : Entry}
    (he : e ∈ listFields (types name).fields m) :
    fieldDataOnlyByteSize types packed e.field e.content ≤ byteSize types packed name m := by
  rw [byteSize_eq]
  exact (dataSize_le e.field e.content.count _).trans
    (le_sum_map (f := fun e : Entry => fieldByteSize packed e.field e.content.count
      (fieldDataOnlyByteSize types packed e.field e.content)) he)

/-- A message in a message is not larger. -/
lemma byteSize_sub_le {name : Text} {m : Message} {e : Entry}
    (he : e ∈ listFields (types name).fields m) {s : Text × Message} (hs : s ∈ e.content.subs) :
    byteSize types packed s.1 s.2 ≤ byteSize types packed name m := by
  refine le_trans ?_ (dataSize_le_byteSize he)
  obtain ⟨i, w, f⟩ := e
  cases f with
  | message f sub =>
      obtain rfl := List.mem_singleton.mp hs
      rw [fieldDataOnlyByteSize]
      exact Nat.le_add_right _ _
  | repeatedMessage f elems =>
      obtain ⟨sub, hsub, rfl⟩ := List.mem_map.mp hs
      rw [dataSize_repeatedMessage]
      exact (Nat.le_add_right _ _).trans (le_sum_map
        (f := fun m => lengthDelimitedSize (byteSize types packed f.messageType m)) hsub)
  | leaf l => cases hs
  | unset f => cases hs
  | repeated name values => cases hs

lemma length_flatMap_values {proto3 : Bool} {w : WireField} {values : List Scalar}
    (h : ∀ v ∈ values, Storable utf8 proto3 w v) :
    (values.flatMap (writeNoTag w.kind.type)).length = (values.map (size w.kind.type)).sum := by
  rw [List.length_flatMap]
  exact congrArg List.sum (List.map_congr_left fun v hv =>
    (size_eq (h v hv).typed (h v hv).real).symm)

section Kind

variable {pool : Pool} {kind : FieldKind}

lemma FieldKind.of_leaf {l : Leaf} (h : (Field.leaf l).HasDecl pool kind.decl) :
    ∃ hd, kind = .leaf l.field hd := by
  rw [Field.HasDecl] at h
  cases kind with
  | leaf d hd =>
      cases h
      exact ⟨hd, rfl⟩
  | message f => cases h
  | repeated name type ht => cases h
  | repeatedMessage f => cases h

lemma FieldKind.of_message {f : MessageField} {sub : Message}
    (h : (Field.message f sub).HasDecl pool kind.decl) :
    kind = .message f ∧ HasDecls pool sub (pool f.messageType) := by
  rw [Field.HasDecl] at h
  refine ⟨?_, h.2⟩
  cases kind with
  | leaf d hd => cases h.1
  | message g =>
      cases h.1
      rfl
  | repeated name type ht => cases h.1
  | repeatedMessage f => cases h.1

lemma FieldKind.of_repeated {name : Name} {values : List Scalar}
    (h : (Field.repeated name values).HasDecl pool kind.decl) :
    ∃ type ht, kind = .repeated name type ht := by
  rw [Field.HasDecl] at h
  cases kind with
  | leaf d hd => cases h
  | message f => cases h
  | repeated name type ht =>
      cases h
      exact ⟨type, ht, rfl⟩
  | repeatedMessage f => cases h

lemma FieldKind.of_repeatedMessage {f : MessageField} {elems : List Message}
    (h : (Field.repeatedMessage f elems).HasDecl pool kind.decl) : kind = .repeatedMessage f := by
  rw [Field.HasDecl] at h
  cases kind with
  | leaf d hd => cases h
  | message f => cases h
  | repeated name type ht => cases h
  | repeatedMessage g =>
      cases h
      rfl

end Kind

lemma not_isPacked {w : WireField} (h : w.kind.isPackable = false) :
    ¬ w.isPacked packed = true := by
  rw [WireField.isPacked, h, Bool.false_and]
  exact Bool.false_ne_true

/-- The size of a field is that of its bytes, if it is so for the messages in it. -/
lemma length_serializeField {pool : Pool} {proto3 : Bool} {w : WireField} {f : Field}
    (hdecl : f.HasDecl pool w.kind.decl) (hvalues : ∀ v ∈ f.values, Storable utf8 proto3 w v)
    (hsub : ∀ s ∈ f.subs, byteSize types packed s.1 s.2 < 2 ^ 64 ∧
      (serialize types packed s.1 s.2).length = byteSize types packed s.1 s.2)
    (hdata : fieldDataOnlyByteSize types packed w f < 2 ^ 64) :
    (serializeField types packed w f).length
      = fieldByteSize packed w f.count (fieldDataOnlyByteSize types packed w f) := by
  have hdelimited : ∀ s ∈ f.subs, (writeDelimited w (byteSize types packed s.1 s.2)
      (serialize types packed s.1 s.2)).length
        = lengthDelimitedSize (byteSize types packed s.1 s.2) + tagSize w.number.val := by
    intro s hs
    obtain ⟨hlt, hlen⟩ := hsub s hs
    rw [length_writeDelimited _ hlt, hlen, lengthDelimitedSize]
    omega
  cases f with
  | leaf l =>
      obtain ⟨hd, hkind⟩ := FieldKind.of_leaf hdecl
      rw [serializeField, fieldDataOnlyByteSize, fieldByteSize,
        if_neg (not_isPacked (by rw [hkind]; rfl)),
        length_writeValue (hvalues _ (List.mem_singleton_self _)), Field.count, Nat.one_mul]
  | unset f =>
      rw [serializeField, fieldDataOnlyByteSize, fieldByteSize, Field.count]
      split_ifs
      · omega
      · rfl
      · rw [Nat.zero_mul, List.length_nil]
  | message f sub =>
      have hkind := (FieldKind.of_message hdecl).1
      rw [serializeField, fieldDataOnlyByteSize, fieldByteSize,
        if_neg (not_isPacked (by rw [hkind]; rfl)), Field.count, Nat.one_mul]
      exact hdelimited (f.messageType, sub) (List.mem_singleton_self _)
  | repeated name values =>
      obtain ⟨type, ht, hkind⟩ := FieldKind.of_repeated hdecl
      have hsize : ∀ v ∈ values, 0 < size w.kind.type v := by
        intro v hv
        have hstore := hvalues v hv
        have hne := writeNoTag_ne_nil w.kind.not_group (by rw [hkind]; exact ht.2) hstore.typed
        rw [size_eq hstore.typed hstore.real]
        exact List.length_pos_iff.mpr hne
      have hflat : (values.flatMap (writeNoTag w.kind.type)).length
          = (values.map (size w.kind.type)).sum := length_flatMap_values hvalues
      rw [serializeField, fieldByteSize, Field.count]
      rw [fieldDataOnlyByteSize] at hdata ⊢
      by_cases hpacked : w.isPacked packed = true
      · rw [if_pos hpacked, if_pos hpacked]
        cases values with
        | nil => rfl
        | cons v values =>
            have hpos : 0 < ((v :: values).map (size w.kind.type)).sum :=
              Nat.lt_of_lt_of_le (hsize v (List.mem_cons_self ..))
                (le_sum_map (List.mem_cons_self ..))
            rw [if_pos hpos, if_neg (by simp), length_writeDelimited _ hdata, hflat]
            omega
      · rw [if_neg hpacked, if_neg hpacked, List.length_flatMap]
        clear hdata hsize hflat hdelimited hsub hdecl
        induction values with
        | nil => simp
        | cons v values ih =>
            have hrest : ∀ v ∈ values, Storable utf8 proto3 w v := fun u hu =>
              hvalues u (List.mem_cons_of_mem _ hu)
            rw [List.map_cons, List.map_cons, List.sum_cons, List.sum_cons,
              length_writeValue (hvalues v (List.mem_cons_self ..)), ih hrest, List.length_cons,
              Nat.succ_mul]
            omega
  | repeatedMessage f elems =>
      have hkind := FieldKind.of_repeatedMessage hdecl
      rw [serializeField_repeatedMessage, dataSize_repeatedMessage, fieldByteSize,
        if_neg (not_isPacked (by rw [hkind]; rfl)), List.length_flatMap, Field.count]
      have helems : ∀ m ∈ elems, (writeDelimited w (byteSize types packed f.messageType m)
          (serialize types packed f.messageType m)).length
            = lengthDelimitedSize (byteSize types packed f.messageType m)
              + tagSize w.number.val := fun m hm =>
        hdelimited (f.messageType, m) (List.mem_map_of_mem hm)
      rw [List.map_congr_left helems, List.sum_map_add, List.map_const', List.sum_replicate,
        smul_eq_mul]

/-- **The size is that of the bytes**: the check behind the serializer never fails. -/
theorem length_serialize {budget : ℕ} {name : Text} {m : Message}
    (h : Sound types utf8 budget name m) (hsize : byteSize types packed name m < 2 ^ 64) :
    (serialize types packed name m).length = byteSize types packed name m := by
  induction m using Message.nested generalizing budget name with
  | h m ih =>
      have hsound := h.unfold
      rw [serialize_eq, byteSize_eq, List.length_flatMap]
      refine congrArg List.sum (List.map_congr_left fun e he => ?_)
      refine length_serializeField (Entry.hasDecl hsound.hasDecls he) (hsound.values e he) ?_ ?_
      · intro s hs
        have hlt := (byteSize_sub_le he hs).trans_lt hsize
        exact ⟨hlt, ih _ (List.mem_of_getElem? (mem_listFields.mp he).2.1) s hs
          (hsound.subs e he s hs).2 hlt⟩
      · exact (dataSize_le_byteSize he).trans_lt hsize

end Sizes

end PbEntityDb
