import Mathlib.Data.List.Sort
import PbEntityDb.Engine.Attempts
import PbEntityDb.Proto.WireFormatLite

/-!
Message types as the wire format sees them, and what reflection does with messages.

* A `FieldKind` declares a field together with the type of its values. A `WireField` has a
  number besides, and a `MessageType` has such fields, each with a number of its own.
* `listFields` are the fields that are set, in the order of their numbers:
  `Reflection::ListFields`.
* `mergeFrom` is `ReflectionOps::Merge`, which goes through them.
* `Message.nested`: the induction into the messages in a message.
-/

namespace PbEntityDb

open WireFormat

/-! ### Types -/

/-- The declaration of a field. There are no groups, maps and extensions; a field that is
not set and that tracks no presence is zero. -/
inductive FieldKind where
  | leaf (d : FieldDescriptor) (h : d.type ≠ .group ∧ d.unset.hasField = false)
  | message (f : MessageField)
  | repeated (name : Name) (type : FieldType) (h : type ≠ .group ∧ type ≠ .message)
  | repeatedMessage (f : MessageField)

namespace FieldKind

/-- The field without the type of its elements. -/
def decl : FieldKind → FieldDecl
  | leaf d _ => .leaf d
  | message f => .message f
  | repeated name _ _ => .repeated name
  | repeatedMessage f => .repeatedMessage f

/-- `FieldDescriptor::type`. -/
def type : FieldKind → FieldType
  | leaf d _ => d.type
  | message _ => .message
  | repeated _ type _ => type
  | repeatedMessage _ => .message

/-- `FieldDescriptor::is_packable`. -/
def isPackable : FieldKind → Bool
  | repeated _ type _ => type ≠ .string && type ≠ .bytes
  | _ => false

end FieldKind

/-- A field with its number and the numbers of its enum, which
`EnumDescriptor::FindValueByNumber` looks for. -/
structure WireField where
  number : FieldNumber
  kind : FieldKind
  known : BitVec 32 → Bool

/-- `Descriptor`, of a message that is no map entry and no message set. -/
structure MessageType where
  fields : List WireField
  /-- the syntax of the file -/
  proto3 : Bool
  numbers : (fields.map WireField.number).Nodup

/-- The message types by name. -/
abbrev MessageTypes := Text → MessageType

/-- The fields of the types. -/
def MessageTypes.pool (types : MessageTypes) : Pool := fun name =>
  (types name).fields.map fun w => w.kind.decl

/-- `Descriptor::FindFieldByNumber`, with the index of the field. -/
def findFieldByNumber (ws : List WireField) (number : ℕ) : Option (ℕ × WireField) :=
  (ws.findIdx? fun w => w.number.val = number).bind fun i => ws[i]?.map fun w => (i, w)

lemma findFieldByNumber_spec {ws : List WireField} {n i : ℕ} {w : WireField}
    (h : findFieldByNumber ws n = some (i, w)) : ws[i]? = some w ∧ w.number.val = n := by
  obtain ⟨j, hj, hw⟩ := Option.bind_eq_some_iff.mp h
  obtain ⟨w', hget, heq⟩ := Option.map_eq_some_iff.mp hw
  cases heq
  obtain ⟨hlt, hfound, -⟩ := List.findIdx?_eq_some_iff_getElem.mp hj
  rw [List.getElem?_eq_getElem hlt] at hget
  cases hget
  exact ⟨List.getElem?_eq_getElem hlt, by simpa using hfound⟩

/-- A field is found by its number. -/
lemma findFieldByNumber_eq {T : MessageType} {i : ℕ} {w : WireField} (h : T.fields[i]? = some w) :
    findFieldByNumber T.fields w.number.val = some (i, w) := by
  obtain ⟨hi, rfl⟩ := List.getElem?_eq_some_iff.mp h
  have hidx : (T.fields.findIdx? fun w => w.number.val = (T.fields[i]).number.val) = some i := by
    refine List.findIdx?_eq_some_iff_getElem.mpr ⟨hi, by simp, fun j hj hfound => ?_⟩
    have hpairwise := List.pairwise_map.mp T.numbers
    have hne := List.pairwise_iff_getElem.mp hpairwise j i (lt_trans hj hi) hi hj
    refine hne ?_
    have hval := of_decide_eq_true hfound
    cases hj : (T.fields[j]).number
    cases hi : (T.fields[i]).number
    rw [hj, hi] at hval
    simpa using hval
  rw [findFieldByNumber, hidx, Option.bind_some, h, Option.map_some]

/-! ### The fields that are set -/

namespace Field

/-- The condition in `Reflection::ListFields`. -/
def isListed : Field → Bool
  | leaf l => l.hasField
  | unset _ => false
  | message _ _ => true
  | repeated _ values => !values.isEmpty
  | repeatedMessage _ elems => !elems.isEmpty

/-- The values in a field. -/
def values : Field → List Scalar
  | leaf l => [l.value]
  | repeated _ values => values
  | _ => []

/-- The messages in a field, each with its type. -/
def subs : Field → List (Text × Message)
  | message f sub => [(f.messageType, sub)]
  | repeatedMessage f elems => elems.map fun m => (f.messageType, m)
  | _ => []

end Field

/-- A field of a message with its declaration and its index. -/
structure Entry where
  index : ℕ
  field : WireField
  content : Field

/-- The fields that are set, in the order of their declarations. -/
def entries (ws : List WireField) (m : Message) : List Entry :=
  ((ws.zip m).zipIdx.map fun r => ⟨r.2, r.1.1, r.1.2⟩).filter fun e => e.content.isListed

/-- `Reflection::ListFields`. -/
def listFields (ws : List WireField) (m : Message) : List Entry :=
  (entries ws m).insertionSort fun a b => a.field.number.val ≤ b.field.number.val

lemma mem_listFields {ws : List WireField} {m : Message} {e : Entry} :
    e ∈ listFields ws m ↔ ws[e.index]? = some e.field ∧ m[e.index]? = some e.content ∧
      e.content.isListed = true := by
  rw [listFields, List.mem_insertionSort, entries, List.mem_filter, List.mem_map, ← and_assoc]
  refine and_congr_left fun _ => ⟨?_, fun h => ?_⟩
  · rintro ⟨⟨⟨w, f⟩, i⟩, hmem, rfl⟩
    exact List.getElem?_zip_eq_some.mp (List.mem_zipIdx_iff_getElem?.mp hmem)
  · exact ⟨((e.field, e.content), e.index),
      List.mem_zipIdx_iff_getElem?.mpr (List.getElem?_zip_eq_some.mpr h), rfl⟩

/-- Each field is listed once. -/
lemma nodup_listFields (ws : List WireField) (m : Message) :
    ((listFields ws m).map Entry.index).Nodup := by
  have hperm := (List.perm_insertionSort
    (fun a b : Entry => a.field.number.val ≤ b.field.number.val) (entries ws m)).map Entry.index
  refine hperm.nodup_iff.mpr (List.Nodup.sublist (List.filter_sublist.map Entry.index) ?_)
  rw [List.map_map]
  exact (List.zipIdx_map_snd 0 (ws.zip m)).symm ▸ List.nodup_range'

/-! ### The messages in a message -/

lemma sizeOf_sub {f : Field} {s : Text × Message} (h : s ∈ f.subs) : sizeOf s.2 < sizeOf f := by
  cases f with
  | message f sub =>
      obtain rfl := List.mem_singleton.mp h
      simp
  | repeatedMessage f elems =>
      obtain ⟨m, hm, rfl⟩ := List.mem_map.mp h
      have := List.sizeOf_lt_of_mem hm
      simp
      omega
  | leaf l => cases h
  | unset f => cases h
  | repeated name values => cases h

lemma sizeOf_content {ws : List WireField} {m : Message} {e : Entry} (h : e ∈ listFields ws m) :
    sizeOf e.content < sizeOf m :=
  List.sizeOf_lt_of_mem (List.mem_of_getElem? (mem_listFields.mp h).2.1)

/-- **The induction** over a message and the messages in it. -/
theorem Message.nested {P : Message → Prop}
    (h : ∀ m : Message, (∀ f ∈ m, ∀ s ∈ f.subs, P s.2) → P m) (m : Message) : P m := by
  induction hsize : sizeOf m using Nat.strong_induction_on generalizing m with
  | _ n ih =>
      refine h m fun f hf s hs => ih (sizeOf s.2) ?_ s.2 rfl
      have hcontent := List.sizeOf_lt_of_mem hf
      have hsub := sizeOf_sub hs
      omega

/-! ### Merging -/

/-- `Reflection::Add...` of a value, as far as it concerns the field. -/
def Field.addValue (v : Scalar) : Field → Field
  | repeated name values => repeated name (values ++ [v])
  | f => f

/-- `Reflection::AddMessage`, with what becomes of the new message. -/
def Field.addMessage (m : Message) : Field → Field
  | repeatedMessage f elems => repeatedMessage f (elems ++ [m])
  | f => f

mutual

/-- One round of the loop of `ReflectionOps::Merge`. -/
def mergeListed (types : MessageTypes) (i : ℕ) (f : Field) (into : Message) : Message :=
  match f with
  | .leaf l => setAt i (.leaf ⟨l.field, true, l.value, l.typed⟩) into
  | .unset _ => into
  | .message f sub =>
      setAt i (.message f (mergeFrom types f.messageType sub
        (mutableMessage types.pool i f into))) into
  | .repeated _ values => values.foldl (fun into v => into.modify i (Field.addValue v)) into
  | .repeatedMessage f elems =>
      elems.attach.foldl (fun into m => into.modify i (Field.addMessage
        (mergeFrom types f.messageType m.1 (emptyMessage types.pool f.messageType)))) into
termination_by sizeOf f
decreasing_by
  · simp
  · have := List.sizeOf_lt_of_mem m.2
    simp
    omega

/-- `ReflectionOps::Merge` of a message of a type. -/
def mergeFrom (types : MessageTypes) (name : Text) (m into : Message) : Message :=
  (listFields (types name).fields m).attach.foldl
    (fun into e => mergeListed types e.1.index e.1.content into) into
termination_by sizeOf m
decreasing_by exact sizeOf_content e.2

end

lemma mergeFrom_eq (types : MessageTypes) (name : Text) (m into : Message) :
    mergeFrom types name m into = (listFields (types name).fields m).foldl
      (fun into e => mergeListed types e.index e.content into) into := by
  rw [mergeFrom]
  exact List.foldl_attach (f := fun into (e : Entry) => mergeListed types e.index e.content into)

lemma mergeListed_repeatedMessage (types : MessageTypes) (i : ℕ) (f : MessageField)
    (elems : List Message) (into : Message) :
    mergeListed types i (.repeatedMessage f elems) into
      = elems.foldl (fun into m => into.modify i (Field.addMessage
          (mergeFrom types f.messageType m (emptyMessage types.pool f.messageType)))) into := by
  rw [mergeListed]
  exact List.foldl_attach (f := fun (into : Message) m => into.modify i (Field.addMessage
    (mergeFrom types f.messageType m (emptyMessage types.pool f.messageType))))

end PbEntityDb
