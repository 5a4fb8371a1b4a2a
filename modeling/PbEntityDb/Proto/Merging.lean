import PbEntityDb.Proto.WireFormat

/-!
What the parser does with the bytes of a message.

* `Merges`: some bytes in front of others change a message in a way, and are gone then. One
  lemma for each kind of field says how.
* `merges_serialize`: **the bytes of a message merge it** into any message of its type.
* `mergeFrom_empty`: a message that is merged into a new one is written as before.
-/

namespace PbEntityDb

open WireFormat Coded

/-! ### Reading what is written -/

section Merging

variable {types : MessageTypes} {utf8 : List Byte → Bool} {packed : WireField → Bool}

/-- The messages in a message are merged with one unit less of the budget. -/
def mergeNested (types : MessageTypes) (utf8 : List Byte → Bool) (budget : ℕ) :
    Text → Message → List Byte → Except Message (Message × Ended × List Byte) :=
  if 0 < budget then parseAndMergePartial types utf8 (budget - 1) else fun _ sub _ => .error sub

lemma parseAndMergePartial_eq (budget : ℕ) (name : Text) :
    parseAndMergePartial types utf8 budget name
      = WireFormat.readFields (parseAndMergeField types utf8 budget (mergeNested types utf8 budget)
          (types name)) := by
  cases budget <;> rfl

/-- The bytes are read, and leave a message changed by `put`; then the parser goes on. -/
def Merges (types : MessageTypes) (utf8 : List Byte → Bool) (budget : ℕ) (name : Text)
    (bs : List Byte) (put : Message → Message) : Prop :=
  ∀ (m : Message) (tail : List Byte), HasDecls types.pool m (types.pool name) →
    HasDecls types.pool (put m) (types.pool name) ∧
      parseAndMergePartial types utf8 budget name m (bs ++ tail)
        = parseAndMergePartial types utf8 budget name (put m) tail

variable {budget i : ℕ} {name : Text} {w : WireField}

/-- What is read one after the other. -/
lemma Merges.flatMap {α : Type} {xs : List α} {bytes : α → List Byte}
    {put : Message → α → Message}
    (h : ∀ x ∈ xs, Merges types utf8 budget name (bytes x) fun m => put m x) :
    Merges types utf8 budget name (xs.flatMap bytes) fun m => xs.foldl put m := by
  induction xs with
  | nil => exact fun m tail hm => ⟨hm, rfl⟩
  | cons x xs ih =>
      intro m tail hm
      obtain ⟨hfirst, hread⟩ := h x (List.mem_cons_self ..) m (xs.flatMap bytes ++ tail) hm
      obtain ⟨hall, hrest⟩ := ih (fun y hy => h y (List.mem_cons_of_mem _ hy)) _ tail hfirst
      rw [List.flatMap_cons, List.append_assoc, hread, hrest]
      exact ⟨hall, rfl⟩

/-- A field is read by the branch for its wire type. -/
lemma parseAndMergeField_makeTag {T : MessageType} (hw : T.fields[i]? = some w) (t : WireType)
    (merge : Text → Message → List Byte → Except Message (Message × Ended × List Byte))
    (m : Message) (bs : List Byte) :
    parseAndMergeField types utf8 budget merge T m (makeTag w.number.val t) bs
      = if t.code = (wireTypeForFieldType w.kind.type).code then
          parseNormal types utf8 merge T.proto3 i w m bs
        else if w.kind.isPackable && t.code = WireType.lengthDelimited.code then
          parsePacked utf8 T.proto3 i w m bs
        else parseUnknown budget m (makeTag w.number.val t) bs := by
  have hfind : findFieldByNumber T.fields (getTagFieldNumber (makeTag w.number.val t))
      = some (i, w) := by
    rw [getTagFieldNumber_makeTag w.number.lt, findFieldByNumber_eq hw]
  rw [parseAndMergeField, hfind]
  simp only [getTagWireType_makeTag w.number.lt]

/-- One field with its tag. -/
lemma Merges.field {t : WireType} {body : List Byte} {put : Message → Message}
    (hne : t ≠ .endGroup)
    (h : ∀ m tail, HasDecls types.pool m (types.pool name) →
      HasDecls types.pool (put m) (types.pool name) ∧
        parseAndMergeField types utf8 budget (mergeNested types utf8 budget) (types name) m
          (makeTag w.number.val t) (body ++ tail) = .ok (put m, tail)) :
    Merges types utf8 budget name (writeTag w.number.val t ++ body) put := by
  intro m tail hm
  obtain ⟨hput, hstep⟩ := h m tail hm
  refine ⟨hput, ?_⟩
  have htag := readTag_writeTag w.number t (body ++ tail)
  have hend : getTagWireType (makeTag w.number.val t) ≠ WireType.endGroup.code := by
    rw [getTagWireType_makeTag w.number.lt]
    exact fun heq => hne (WireType.code_injective heq)
  rw [parseAndMergePartial_eq, List.append_assoc,
    WireFormat.readFields_ok (parseAndMergeField_reads (types name)) htag hend hstep]

/-- The kind is that of a field with values. -/
def FieldKind.isScalar : FieldKind → Bool
  | leaf _ _ => true
  | repeated _ _ _ => true
  | _ => false

lemma FieldKind.not_message {kind : FieldKind} (h : kind.isScalar = true) :
    kind.type ≠ .message := by
  cases kind with
  | leaf d _ => exact d.scalar
  | repeated name type ht => exact ht.2
  | message f => cases h
  | repeatedMessage f => cases h

lemma parseValue_writeNoTag {proto3 : Bool} {v : Scalar} (hs : w.kind.isScalar = true)
    (hv : Storable utf8 proto3 w v) (m : Message) (tail : List Byte) :
    parseValue utf8 proto3 i w m (writeNoTag w.kind.type v ++ tail)
      = .ok (storeValue i w.kind ⟨v, hv.typed⟩ m, tail) := by
  rw [parseValue, readPrimitive_write w.kind.not_group (FieldKind.not_message hs) hv.typed hv.real]
  simp only [hv.verified, hv.kept, if_true]

/-- A value with its tag. -/
lemma merges_value (hw : (types name).fields[i]? = some w) (hs : w.kind.isScalar = true)
    {v : Scalar} (hv : Storable utf8 (types name).proto3 w v) :
    Merges types utf8 budget name (writeValue w v) (storeValue i w.kind ⟨v, hv.typed⟩) := by
  refine Merges.field (wireType_ne_endGroup _) fun m tail hm =>
    ⟨hasDecls_storeValue hm hw _, ?_⟩
  have hnormal : ∀ bs, parseNormal types utf8 (mergeNested types utf8 budget)
      (types name).proto3 i w m bs = parseValue utf8 (types name).proto3 i w m bs := by
    intro bs
    rw [parseNormal]
    cases hkind : w.kind with
    | leaf d h => rfl
    | repeated name type h => rfl
    | message f => rw [hkind] at hs; cases hs
    | repeatedMessage f => rw [hkind] at hs; cases hs
  rw [parseAndMergeField_makeTag hw, if_pos rfl, hnormal, parseValue_writeNoTag hs hv]

lemma pushLimit_append {n : ℕ} {bs : List Byte} (h : bs.length = n) (tail : List Byte) :
    pushLimit n (bs ++ tail) = (bs, tail) := by
  rw [pushLimit, if_pos (Int.natCast_nonneg n), Int.toNat_natCast, List.splitAt_eq, ← h,
    List.take_left, List.drop_left]

/-- The loop over packed values reads them all. -/
lemma packedLoop_flatMap {proto3 : Bool} (hs : w.kind.isScalar = true) :
    ∀ {values : List Scalar} (hvalues : ∀ v ∈ values, Storable utf8 proto3 w v) (m : Message),
      packedLoop utf8 proto3 i w ((values.flatMap (writeNoTag w.kind.type)).length + 1) m
          (values.flatMap (writeNoTag w.kind.type))
        = .ok (values.attach.foldl
            (fun m v => storeValue i w.kind ⟨v.1, (hvalues v.1 v.2).typed⟩ m) m) := by
  intro values
  induction values with
  | nil => exact fun _ _ => rfl
  | cons v values ih =>
      intro hvalues m
      have hv := hvalues v (List.mem_cons_self ..)
      have hne := writeNoTag_ne_nil w.kind.not_group (FieldKind.not_message hs) hv.typed
      have hempty : (writeNoTag w.kind.type v
          ++ values.flatMap (writeNoTag w.kind.type)).isEmpty = false := by
        rw [List.isEmpty_eq_false_iff]
        exact List.append_ne_nil_of_left_ne_nil hne _
      rw [packedLoop_eq, List.flatMap_cons, hempty, if_neg Bool.false_ne_true,
        parseValue_writeNoTag hs hv]
      simp only
      rw [ih fun u hu => hvalues u (List.mem_cons_of_mem _ hu), List.attach_cons,
        List.foldl_cons, List.foldl_map]

lemma storeValue_leaf {l : Leaf} {kind : FieldKind} {hd} (hkind : kind = .leaf l.field hd)
    (h : l.value.cppType = kind.type.cppType) (m : Message) :
    storeValue i kind ⟨l.value, h⟩ m = setAt i (.leaf ⟨l.field, true, l.value, l.typed⟩) m := by
  subst hkind
  rfl

lemma storeValue_repeated {kind : FieldKind} {n : Name} {type : FieldType} {ht}
    (hkind : kind = .repeated n type ht) (v : Value kind.type) (m : Message) :
    storeValue i kind v m = m.modify i (Field.addValue v.1) := by
  subst hkind
  rfl

lemma hasDecls_addValues {pool : Pool} {ds : List FieldDecl} (values : List Scalar) {m : Message}
    (h : HasDecls pool m ds) :
    HasDecls pool (values.foldl (fun m v => m.modify i (Field.addValue v)) m) ds := by
  induction values generalizing m with
  | nil => exact h
  | cons v values ih => exact ih (hasDecls_modify h i fun _ _ hf => hf.addValue v)

/-- The packed format is not the normal one. -/
lemma FieldKind.wireType_of_isPackable {kind : FieldKind} (h : kind.isPackable = true) :
    WireType.lengthDelimited.code ≠ (wireTypeForFieldType kind.type).code := by
  cases kind with
  | repeated n type ht =>
      rw [FieldKind.type]
      intro heq
      cases type <;> first | exact absurd rfl ht.2 | (cases heq; done) | cases h
  | leaf d hd => cases h
  | message f => cases h
  | repeatedMessage f => cases h

/-- A packed field. -/
lemma merges_packed (hw : (types name).fields[i]? = some w) {n : Name} {type : FieldType} {ht}
    (hkind : w.kind = .repeated n type ht) (hpackable : w.kind.isPackable = true)
    {values : List Scalar} (hvalues : ∀ v ∈ values, Storable utf8 (types name).proto3 w v)
    {size : ℕ} (hlen : (values.flatMap (writeNoTag w.kind.type)).length = size)
    (hsize : size < 2 ^ 31) :
    Merges types utf8 budget name
      (writeDelimited w size (values.flatMap (writeNoTag w.kind.type)))
      fun m => values.foldl (fun m v => m.modify i (Field.addValue v)) m := by
  have hscalar : w.kind.isScalar = true := by
    rw [hkind]
    rfl
  refine Merges.field WireType.noConfusion fun m tail hm => ⟨hasDecls_addValues values hm, ?_⟩
  have hint : (BitVec.ofNat 32 size).toInt = size := by
    rw [BitVec.toInt_eq_toNat_cond, BitVec.toNat_ofNat]
    split_ifs <;> omega
  rw [parseAndMergeField_makeTag hw, if_neg (FieldKind.wireType_of_isPackable hpackable),
    hpackable, if_pos (by simp), parsePacked, List.append_assoc,
    readVarint32_write (by omega : size < 2 ^ 64)]
  simp only [hint, pushLimit_append hlen]
  rw [packedLoop_flatMap hscalar hvalues m]
  simp only [storeValue_repeated hkind]
  rw [List.foldl_attach (f := fun (m : Message) v => m.modify i (Field.addValue v))]

/-! ### Messages in a message -/

lemma readMessage_write
    {one : Message → List Byte → Except Message (Message × Ended × List Byte)}
    {sub sub' : Message} {bs : List Byte} {size : ℕ} (hlen : bs.length = size)
    (hsize : size < 2 ^ 31) (hone : one sub bs = .ok (sub', .limit, [])) (tail : List Byte) :
    readMessage one sub (writeVarint size ++ bs ++ tail) = .ok (sub', tail) := by
  rw [readMessage, List.append_assoc, readVarintSizeAsInt_write hsize]
  simp only [pushLimit_append hlen, hone]
  exact if_pos trivial

/-- What is merged up to the limit. -/
lemma Merges.mergeNested {bs : List Byte} {put : Message → Message} {sub : Message}
    (hpos : 0 < budget) (h : Merges types utf8 (budget - 1) name bs put)
    (hsub : HasDecls types.pool sub (types.pool name)) :
    mergeNested types utf8 budget name sub bs = .ok (put sub, .limit, []) := by
  obtain ⟨-, hread⟩ := h sub [] hsub
  rw [PbEntityDb.mergeNested, if_pos hpos, ← List.append_nil bs, hread, parseAndMergePartial_eq,
    WireFormat.readFields_nil]

lemma merges_message (hw : (types name).fields[i]? = some w) {f : MessageField}
    (hkind : w.kind = .message f) (hpos : 0 < budget) {bs : List Byte} {put : Message → Message}
    (hsub : Merges types utf8 (budget - 1) f.messageType bs put) {size : ℕ}
    (hlen : bs.length = size) (hsize : size < 2 ^ 31) :
    Merges types utf8 budget name (writeDelimited w size bs) fun m =>
      setAt i (.message f (put (mutableMessage types.pool i f m))) m := by
  refine Merges.field WireType.noConfusion fun m tail hm => ?_
  have hd : (types.pool name)[i]? = some (.message f) := by
    rw [getElem?_pool hw, hkind]
    rfl
  have hold := Raising.hasDecls_mutableMessage hm hd
  refine ⟨Raising.hasDecls_setAt hm hd ?_, ?_⟩
  · rw [Field.HasDecl]
    exact ⟨rfl, (hsub _ [] hold).1⟩
  · rw [parseAndMergeField_makeTag hw, if_pos (by rw [hkind]; rfl), parseNormal, hkind]
    simp only
    rw [readMessage_write hlen hsize (hsub.mergeNested hpos hold), putMessage]

lemma merges_element (hw : (types name).fields[i]? = some w) {f : MessageField}
    (hkind : w.kind = .repeatedMessage f) (hpos : 0 < budget) {bs : List Byte}
    {put : Message → Message} (hsub : Merges types utf8 (budget - 1) f.messageType bs put)
    {size : ℕ} (hlen : bs.length = size) (hsize : size < 2 ^ 31) :
    Merges types utf8 budget name (writeDelimited w size bs) fun m =>
      m.modify i (Field.addMessage (put (emptyMessage types.pool f.messageType))) := by
  refine Merges.field WireType.noConfusion fun m tail hm =>
    ⟨hasDecls_modify hm i fun _ _ hf => hf.addMessage _, ?_⟩
  have hempty : HasDecls types.pool (emptyMessage types.pool f.messageType)
      (types.pool f.messageType) := hasDecls_empty types.pool _
  rw [parseAndMergeField_makeTag hw, if_pos (by rw [hkind]; rfl), parseNormal, hkind]
  simp only
  rw [readMessage_write hlen hsize (hsub.mergeNested hpos hempty), putMessage]

/-- **What is written of a message is merged** into another one, whatever follows, and
whichever of the repeated fields the writer packs. -/
theorem merges_serialize {m : Message} (h : Sound types utf8 budget name m)
    (hsize : byteSize types packed name m < 2 ^ 31) :
    Merges types utf8 budget name (serialize types packed name m)
      (mergeFrom types name m) := by
  induction m using Message.nested generalizing budget name with
  | h m ih =>
      have hsound := h.unfold
      have hput : mergeFrom types name m = fun into => (listFields (types name).fields m).foldl
          (fun into e => mergeListed types e.index e.content into) into := by
        funext into
        exact mergeFrom_eq types name m into
      rw [serialize_eq, hput]
      refine Merges.flatMap fun e he => ?_
      have hvalues := hsound.values e he
      have hdata : fieldDataOnlyByteSize types packed e.field e.content < 2 ^ 31 :=
        (dataSize_le_byteSize he).trans_lt hsize
      have hdecl := Entry.hasDecl hsound.hasDecls he
      obtain ⟨hw, hf, hlisted⟩ := mem_listFields.mp he
      have hsub : ∀ s ∈ e.content.subs, 0 < budget ∧
          (serialize types packed s.1 s.2).length = byteSize types packed s.1 s.2 ∧
          byteSize types packed s.1 s.2 < 2 ^ 31 ∧
          Merges types utf8 (budget - 1) s.1 (serialize types packed s.1 s.2)
            (mergeFrom types s.1 s.2) := by
        intro s hs
        have hlt : byteSize types packed s.1 s.2 < 2 ^ 31 := (byteSize_sub_le he hs).trans_lt hsize
        obtain ⟨hpos, hsub⟩ := hsound.subs e he s hs
        exact ⟨hpos, length_serialize hsub (by omega), hlt,
          ih _ (List.mem_of_getElem? hf) s hs hsub hlt⟩
      obtain ⟨i, w, f⟩ := e
      simp only at hvalues hdata hdecl hw hlisted hsub ⊢
      cases f with
      | leaf l =>
          obtain ⟨hd, hkind⟩ := FieldKind.of_leaf hdecl
          have hv := hvalues l.value (List.mem_singleton_self _)
          have hput : storeValue i w.kind ⟨l.value, hv.typed⟩
              = fun m => mergeListed types i (.leaf l) m := by
            funext m
            rw [storeValue_leaf hkind hv.typed m, mergeListed]
          rw [serializeField, ← hput]
          exact merges_value hw (by rw [hkind]; rfl) hv
      | unset f => cases hlisted
      | message f sub =>
          have hkind := (FieldKind.of_message hdecl).1
          obtain ⟨hpos, hlen, hlt, hmerges⟩ := hsub (f.messageType, sub) (List.mem_singleton_self _)
          rw [serializeField]
          intro into tail hinto
          beta_reduce
          rw [mergeListed]
          exact merges_message hw hkind hpos hmerges hlen hlt into tail hinto
      | repeated n values =>
          obtain ⟨type, ht, hkind⟩ := FieldKind.of_repeated hdecl
          rw [serializeField]
          intro into tail hinto
          beta_reduce
          rw [mergeListed]
          by_cases hpacked : w.isPacked packed = true
          · have hpackable := (Bool.and_eq_true_iff.mp hpacked).1
            have hempty : values.isEmpty = false := by simpa [Field.isListed] using hlisted
            rw [fieldDataOnlyByteSize] at hdata ⊢
            rw [if_pos hpacked, hempty, if_neg Bool.false_ne_true]
            exact merges_packed hw hkind hpackable hvalues (length_flatMap_values hvalues) hdata
              into tail hinto
          · rw [if_neg hpacked]
            refine Merges.flatMap (fun v hv => ?_) into tail hinto
            have hput : storeValue i w.kind ⟨v, (hvalues v hv).typed⟩
                = fun m => m.modify i (Field.addValue v) :=
              funext fun m => storeValue_repeated hkind _ m
            rw [← hput]
            exact merges_value hw (by rw [hkind]; rfl) (hvalues v hv)
      | repeatedMessage f elems =>
          have hkind := FieldKind.of_repeatedMessage hdecl
          rw [serializeField_repeatedMessage]
          intro into tail hinto
          beta_reduce
          rw [mergeListed_repeatedMessage]
          refine Merges.flatMap (fun m hm => ?_) into tail hinto
          obtain ⟨hpos, hlen, hlt, hmerges⟩ := hsub (f.messageType, m) (List.mem_map_of_mem hm)
          exact merges_element hw hkind hpos hmerges hlen hlt

end Merging

/-! ### Merging into a new message -/

section Fresh

variable {pool : Pool} {m : Message} {i : ℕ}

lemma setAt_of_oneof_none {f : Field} (h : f.oneof = none) : setAt i f m = m.set i f := by
  have hid : m.map (Field.clearOneof f.oneof) = m := by
    rw [h]
    exact List.map_id' m
  rw [setAt, hid]

lemma modify_eq_set {f : Field} (h : m[i]? = some f) (g : Field → Field) :
    m.modify i g = m.set i (g f) := by
  rw [List.modify_eq_set_getElem?, h]
  rfl

lemma foldl_addValue {name : Name} (values : List Scalar) {olds : List Scalar} {m : Message}
    (h : m[i]? = some (.repeated name olds)) :
    values.foldl (fun m v => m.modify i (Field.addValue v)) m
      = m.set i (.repeated name (olds ++ values)) := by
  induction values generalizing olds m with
  | nil =>
      rw [List.foldl_nil, List.append_nil]
      obtain ⟨hi, hget⟩ := List.getElem?_eq_some_iff.mp h
      rw [← hget, List.set_getElem_self]
  | cons v values ih =>
      have hi := (List.getElem?_eq_some_iff.mp h).1
      have hnext : (m.modify i (Field.addValue v))[i]? = some (.repeated name (olds ++ [v])) := by
        rw [modify_eq_set h, List.getElem?_set_self hi, Field.addValue]
      rw [List.foldl_cons, ih hnext, modify_eq_set h, List.set_set, List.append_assoc,
        List.singleton_append]

lemma foldl_addMessage {f : MessageField} (put : Message → Message) (elems : List Message)
    {olds : List Message} {m : Message} (h : m[i]? = some (.repeatedMessage f olds)) :
    elems.foldl (fun m e => m.modify i (Field.addMessage (put e))) m
      = m.set i (.repeatedMessage f (olds ++ elems.map put)) := by
  induction elems generalizing olds m with
  | nil =>
      rw [List.foldl_nil, List.map_nil, List.append_nil]
      obtain ⟨hi, hget⟩ := List.getElem?_eq_some_iff.mp h
      rw [← hget, List.set_getElem_self]
  | cons e elems ih =>
      have hi := (List.getElem?_eq_some_iff.mp h).1
      have hnext : (m.modify i (Field.addMessage (put e)))[i]?
          = some (.repeatedMessage f (olds ++ [put e])) := by
        rw [modify_eq_set h, List.getElem?_set_self hi, Field.addMessage]
      rw [List.foldl_cons, ih hnext, modify_eq_set h, List.set_set, List.append_assoc,
        List.map_cons, List.singleton_append]

/-- A field that is not listed is written as the one of a new message. -/
lemma written_of_not_isListed {f : Field} {kind : FieldKind} (h : f.HasDecl pool kind.decl)
    (hlisted : f.isListed = false) : f.written = kind.decl.empty.written := by
  cases f with
  | leaf l =>
      obtain ⟨hd, rfl⟩ := FieldKind.of_leaf h
      have hnew := hd.2
      rw [Field.isListed] at hlisted
      rw [Field.written, FieldKind.decl, FieldDecl.empty, Field.written, hlisted, hnew]
      rfl
  | unset f =>
      rw [Field.HasDecl] at h
      rw [h, FieldDecl.empty]
  | message f sub => cases hlisted
  | repeated name values =>
      rw [Field.HasDecl] at h
      have hnil : values = [] := by simpa [Field.isListed] using hlisted
      rw [h, hnil, FieldDecl.empty]
  | repeatedMessage f elems =>
      rw [Field.HasDecl] at h
      have hnil : elems = [] := by simpa [Field.isListed] using hlisted
      rw [h, hnil, FieldDecl.empty]

variable {types : MessageTypes} {name : Text}

/-- A field that is merged into one of a new message is written as before. -/
lemma mergeListed_empty {into : Message} {w : WireField} {f : Field}
    (hdecl : f.HasDecl types.pool w.kind.decl) (hlisted : f.isListed = true)
    (hinto : into[i]? = some w.kind.decl.empty)
    (hsub : ∀ s ∈ f.subs, HasDecls types.pool
        (mergeFrom types s.1 s.2 (emptyMessage types.pool s.1)) (types.pool s.1) ∧
      written (mergeFrom types s.1 s.2 (emptyMessage types.pool s.1)) = written s.2) :
    ∃ f', mergeListed types i f into = setAt i f' into ∧ f'.written = f.written ∧
      f'.HasDecl types.pool w.kind.decl := by
  cases f with
  | leaf l =>
      rw [Field.HasDecl] at hdecl
      refine ⟨.leaf ⟨l.field, true, l.value, l.typed⟩, by rw [mergeListed], ?_, ?_⟩
      · have hnew : (Leaf.mk l.field true l.value l.typed).hasField = true := by
          rw [Field.isListed, Leaf.hasField] at hlisted
          rw [Leaf.hasField]
          split_ifs at hlisted ⊢
          · rfl
          · exact hlisted
        rw [Field.isListed] at hlisted
        rw [Field.written, Field.written, hnew, hlisted]
      · rw [Field.HasDecl, hdecl]
  | unset f => cases hlisted
  | message f sub =>
      have hkind := (FieldKind.of_message hdecl).1
      obtain ⟨hdecls, hwritten⟩ := hsub (f.messageType, sub) (List.mem_singleton_self _)
      have hold : mutableMessage types.pool i f into = emptyMessage types.pool f.messageType := by
        rw [mutableMessage, hinto, hkind]
        rfl
      refine ⟨.message f (mergeFrom types f.messageType sub
        (emptyMessage types.pool f.messageType)), by rw [mergeListed, hold], ?_, ?_⟩
      · rw [Field.written, Field.written]
        exact congrArg Wire.message hwritten
      · rw [Field.HasDecl, hkind]
        exact ⟨rfl, hdecls⟩
  | repeated n values =>
      rw [Field.HasDecl] at hdecl
      rw [hdecl, FieldDecl.empty] at hinto
      refine ⟨.repeated n values, ?_, rfl, by rw [Field.HasDecl, hdecl]⟩
      rw [mergeListed, foldl_addValue values hinto, List.nil_append, setAt_of_oneof_none rfl]
  | repeatedMessage f elems =>
      rw [Field.HasDecl] at hdecl
      rw [hdecl, FieldDecl.empty] at hinto
      refine ⟨.repeatedMessage f (elems.map fun m =>
        mergeFrom types f.messageType m (emptyMessage types.pool f.messageType)), ?_, ?_,
        by rw [Field.HasDecl, hdecl]⟩
      · rw [mergeListed_repeatedMessage, foldl_addMessage _ elems hinto, List.nil_append,
          setAt_of_oneof_none rfl]
      · rw [Field.written, Field.written, writtenAll_eq_map, writtenAll_eq_map, List.map_map]
        refine congrArg Wire.repeatedMessage (List.map_congr_left fun m hm => ?_)
        exact (hsub (f.messageType, m) (List.mem_map_of_mem hm)).2

/-- A new message behind some fields of `m`. -/
structure Filled (types : MessageTypes) (name : Text) (m : Message) (done : List Entry)
    (into : Message) : Prop where
  hasDecls : HasDecls types.pool into (types.pool name)
  same : ∀ e ∈ done, (into[e.index]?).map Field.written = (m[e.index]?).map Field.written
  empty : ∀ j, (∀ e ∈ done, e.index ≠ j) → into[j]? = ((types.pool name)[j]?).map FieldDecl.empty

variable {utf8 : List Byte → Bool} {sub : Text → Message → Prop}

/-- One field more. -/
lemma Filled.next (hsound : SoundWith types utf8 sub name m) {done : List Entry} {e : Entry}
    {into : Message} (hdone : ∀ d ∈ done, d ∈ listFields (types name).fields m)
    (he : e ∈ listFields (types name).fields m) (hnew : ∀ d ∈ done, d.index ≠ e.index)
    (h : Filled types name m done into)
    (hsub : ∀ s ∈ e.content.subs, HasDecls types.pool
        (mergeFrom types s.1 s.2 (emptyMessage types.pool s.1)) (types.pool s.1) ∧
      written (mergeFrom types s.1 s.2 (emptyMessage types.pool s.1)) = written s.2) :
    Filled types name m (done ++ [e]) (mergeListed types e.index e.content into) := by
  obtain ⟨hw, hf, hlisted⟩ := mem_listFields.mp he
  have hd := getElem?_pool hw
  have hdecl := Entry.hasDecl hsound.hasDecls he
  have hempty : into[e.index]? = some e.field.kind.decl.empty := by
    rw [h.empty e.index hnew, hd, Option.map_some]
  obtain ⟨f', hput, hwritten, hdecl'⟩ := mergeListed_empty hdecl hlisted hempty hsub
  have hi := (List.getElem?_eq_some_iff.mp hempty).1
  have honeof : f'.oneof = e.content.oneof := hdecl'.oneof_eq.trans hdecl.oneof_eq.symm
  rw [hput]
  refine ⟨Raising.hasDecls_setAt h.hasDecls hd hdecl', ?_, ?_⟩
  · intro d hmem
    rw [getElem?_setAt hi]
    rcases List.mem_append.mp hmem with hold | hlast
    · -- the members of the oneof are not among the fields that are done
      rw [if_neg (fun heq => hnew d hold heq.symm), ← h.same d hold, Option.map_map]
      refine Option.map_congr fun g hg => ?_
      rw [Function.comp_apply, Field.clearOneof]
      split_ifs with hclear
      · obtain ⟨hsome, hsame⟩ := Bool.and_eq_true_iff.mp hclear
        obtain ⟨hw', -, -⟩ := mem_listFields.mp (hdone d hold)
        have hg' := (hasDecls_iff.mp h.hasDecls).2 _ _ _ hg (getElem?_pool hw')
        have hd' := Entry.hasDecl hsound.hasDecls (hdone d hold)
        have hsame' : d.content.oneof = e.content.oneof := by
          rw [hd'.oneof_eq, ← hg'.oneof_eq, ← honeof]
          exact of_decide_eq_true hsame
        rw [honeof] at hsome
        exact absurd (hsound.oneofs e he d (hdone d hold) hsome hsame') (hnew d hold)
      · rfl
    · obtain rfl := List.mem_singleton.mp hlast
      rw [if_pos rfl, hf, Option.map_some, Option.map_some, hwritten]
  · intro j hj
    have hne : e.index ≠ j := hj e (List.mem_append_right _ (List.mem_singleton_self e))
    have hrest := h.empty j fun d hmem => hj d (List.mem_append_left _ hmem)
    rw [getElem?_setAt hi, if_neg hne, hrest, Option.map_map]
    refine Option.map_congr fun d _ => ?_
    rw [Function.comp_apply, Field.clearOneof, d.cleared_empty, ite_self]

/-- All fields, one after the other. -/
lemma Filled.all (hsound : SoundWith types utf8 sub name m)
    (hsub : ∀ e ∈ listFields (types name).fields m, ∀ s ∈ e.content.subs, HasDecls types.pool
        (mergeFrom types s.1 s.2 (emptyMessage types.pool s.1)) (types.pool s.1) ∧
      written (mergeFrom types s.1 s.2 (emptyMessage types.pool s.1)) = written s.2) :
    ∀ (es done : List Entry) (into : Message), done ++ es = listFields (types name).fields m →
      Filled types name m done into →
      Filled types name m (listFields (types name).fields m)
        (es.foldl (fun into e => mergeListed types e.index e.content into) into)
  | [], done, into, hall, h => by
      rw [← hall, List.append_nil]
      exact h
  | e :: es, done, into, hall, h => by
      have hmem : ∀ d ∈ done ++ e :: es, d ∈ listFields (types name).fields m := by
        rw [hall]
        exact fun d hd => hd
      have hnodup := nodup_listFields (types name).fields m
      rw [← hall, List.map_append, List.map_cons] at hnodup
      have hnew : ∀ d ∈ done, d.index ≠ e.index := fun d hd heq =>
        (List.nodup_append.mp hnodup).2.2 _ (List.mem_map_of_mem hd) _ (List.mem_cons_self ..) heq
      have he := hmem e (List.mem_append_right _ (List.mem_cons_self ..))
      have hnext := h.next hsound (fun d hd => hmem d (List.mem_append_left _ hd)) he hnew
        (hsub e he)
      rw [List.foldl_cons]
      exact Filled.all hsound hsub es (done ++ [e]) _ (by rw [← hall, List.append_assoc]; rfl) hnext

/-- **A message that is merged into a new one** is written as before. -/
theorem mergeFrom_empty {budget : ℕ} (h : Sound types utf8 budget name m) :
    HasDecls types.pool (mergeFrom types name m (emptyMessage types.pool name))
        (types.pool name) ∧
      written (mergeFrom types name m (emptyMessage types.pool name)) = written m := by
  induction m using Message.nested generalizing budget name with
  | h m ih =>
      have hsound := h.unfold
      have hfilled : Filled types name m (listFields (types name).fields m)
          (mergeFrom types name m (emptyMessage types.pool name)) := by
        rw [mergeFrom_eq]
        refine Filled.all hsound (fun e he s hs => ?_) _ [] _ rfl ⟨hasDecls_empty _ _, ?_, ?_⟩
        · exact ih _ (List.mem_of_getElem? (mem_listFields.mp he).2.1) s hs
            (hsound.subs e he s hs).2
        · exact fun e he => by cases he
        · exact fun j _ => List.getElem?_map
      refine ⟨hfilled.hasDecls, ?_⟩
      rw [written_eq_map, written_eq_map]
      refine List.ext_getElem? fun j => ?_
      rw [List.getElem?_map, List.getElem?_map]
      cases hf : m[j]? with
      | none =>
          have hlen := (hasDecls_iff.mp hsound.hasDecls).1
          have hlen' := (hasDecls_iff.mp hfilled.hasDecls).1
          rw [List.getElem?_eq_none_iff] at hf
          rw [List.getElem?_eq_none_iff.mpr (by omega)]
      | some f =>
          have hj := (List.getElem?_eq_some_iff.mp hf).1
          have hlen := (hasDecls_iff.mp hsound.hasDecls).1
          have hfields : (types.pool name).length = (types name).fields.length := List.length_map _
          have hw := List.getElem?_eq_getElem (by omega : j < (types name).fields.length)
          cases hlisted : f.isListed with
          | true =>
              have he : (⟨j, _, f⟩ : Entry) ∈ listFields (types name).fields m :=
                mem_listFields.mpr ⟨hw, hf, hlisted⟩
              rw [hfilled.same _ he, hf]
          | false =>
              have hdecl := (hasDecls_iff.mp hsound.hasDecls).2 _ _ _ hf (getElem?_pool hw)
              have hnone : ∀ e ∈ listFields (types name).fields m, e.index ≠ j := by
                rintro ⟨k, w, g⟩ he rfl
                obtain ⟨-, hg, hglisted⟩ := mem_listFields.mp he
                simp only at hg hglisted
                rw [hf] at hg
                cases hg
                rw [hlisted] at hglisted
                cases hglisted
              rw [hfilled.empty j hnone, getElem?_pool hw, Option.map_some, Option.map_some,
                Option.map_some, written_of_not_isListed hdecl hlisted]

end Fresh

end PbEntityDb
