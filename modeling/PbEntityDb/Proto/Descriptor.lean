import PbEntityDb.Proto.Message

/-!
Message types.

* `Pool` gives the fields of each message type by its name; a type may contain
  itself. `emptyMessage` is a new message of a type, all of whose fields are
  unset.
* `HasDecls` says that a message has the fields that its type declares.
* `setAt` is what the setters of the reflection do to a message: they store the
  field and clear the other members of its oneof.
-/

namespace PbEntityDb

/-- The declaration of a field. -/
inductive FieldDecl where
  | leaf (d : FieldDescriptor)
  | message (f : MessageField)
  | repeated (name : Name)
  | repeatedMessage (f : MessageField)
  deriving DecidableEq, Repr

/-- `DescriptorPool`: the fields of the message types, by name. -/
abbrev Pool := Text → List FieldDecl

/-! ### Empty fields -/

/-- A leaf with the value it has in an empty message. -/
def FieldDescriptor.unset (d : FieldDescriptor) : Leaf := ⟨d, false, d.defaultValue, d.typed⟩

namespace FieldDecl

/-- The field in an empty message. -/
def empty : FieldDecl → Field
  | leaf d => .leaf d.unset
  | message f => .unset f
  | repeated name => .repeated name []
  | repeatedMessage f => .repeatedMessage f []

/-- The name of the field. -/
def name : FieldDecl → Name
  | leaf d => d.name
  | message f => f.name
  | repeated name => name
  | repeatedMessage f => f.name

/-- The oneof the field is a member of. -/
def oneof : FieldDecl → Option ℕ
  | leaf d => d.oneof
  | message f => f.oneof
  | repeated _ => none
  | repeatedMessage _ => none

end FieldDecl

/-- A new message. -/
def emptyMessage (pool : Pool) (messageType : Text) : Message :=
  (pool messageType).map FieldDecl.empty

namespace Field

/-- The oneof the field is a member of. -/
def oneof : Field → Option ℕ
  | leaf l => l.field.oneof
  | unset f => f.oneof
  | message f _ => f.oneof
  | repeated _ _ => none
  | repeatedMessage _ _ => none

/-- The field after it was cleared. -/
def cleared : Field → Field
  | leaf l => .leaf l.field.unset
  | unset f => .unset f
  | message f _ => .unset f
  | repeated name values => .repeated name values
  | repeatedMessage f elems => .repeatedMessage f elems

/-- `Reflection::ClearOneof` for the oneof `o`, as far as it concerns one field. -/
def clearOneof (o : Option ℕ) (f : Field) : Field :=
  if o.isSome && f.oneof = o then f.cleared else f

end Field

/-- A setter of the reflection for the field with index `i`. -/
def setAt (i : ℕ) (f : Field) (record : Message) : Message :=
  (record.map (Field.clearOneof f.oneof)).set i f

/-! ### Messages of a type -/

mutual

/-- The field is one of the declared kind. -/
def Field.HasDecl (pool : Pool) : Field → FieldDecl → Prop
  | .leaf l, d => d = .leaf l.field
  | .unset f, d => d = .message f
  | .message f sub, d => d = .message f ∧ HasDecls pool sub (pool f.messageType)
  | .repeated name _, d => d = .repeated name
  | .repeatedMessage f _, d => d = .repeatedMessage f

/-- The message has the declared fields. -/
def HasDecls (pool : Pool) : List Field → List FieldDecl → Prop
  | [], ds => ds = []
  | f :: rest, ds => ∃ d ds', ds = d :: ds' ∧ f.HasDecl pool d ∧ HasDecls pool rest ds'

end

/-! ### Setters -/

lemma FieldDecl.cleared_empty (d : FieldDecl) : d.empty.cleared = d.empty := by
  cases d <;> rfl

lemma Field.oneof_cleared (f : Field) : f.cleared.oneof = f.oneof := by
  cases f <;> rfl

/-- Fields that are empty stay so. -/
lemma map_clearOneof_empty (o : Option ℕ) (ds : List FieldDecl) :
    (ds.map FieldDecl.empty).map (Field.clearOneof o) = ds.map FieldDecl.empty := by
  rw [List.map_map]
  refine List.map_congr_left fun d _ => ?_
  rw [Function.comp_apply, Field.clearOneof, d.cleared_empty, ite_self]

/-- The setter for the field behind the fields that are done. -/
lemma setAt_append (f : Field) (done : Message) (d : FieldDecl) (ds : List FieldDecl) :
    setAt done.length f (done ++ (d :: ds).map FieldDecl.empty)
      = done.map (Field.clearOneof f.oneof) ++ f :: ds.map FieldDecl.empty := by
  have hlen : (done.map (Field.clearOneof f.oneof)).length = done.length := List.length_map ..
  rw [setAt, List.map_append, map_clearOneof_empty, List.set_append_right _ _ (by omega), hlen,
    Nat.sub_self, List.map_cons, List.set_cons_zero]

lemma getElem?_setAt {i : ℕ} {f : Field} {m : Message} (hi : i < m.length) (j : ℕ) :
    (setAt i f m)[j]? = if i = j then some f else (m[j]?).map (Field.clearOneof f.oneof) := by
  rw [setAt]
  by_cases hij : i = j
  · subst hij
    rw [if_pos rfl, List.getElem?_set_self (by rw [List.length_map]; exact hi)]
  · rw [if_neg hij, List.getElem?_set_ne hij, List.getElem?_map]

/-! ### A sample type -/

/-- The type of the accounts. -/
def accountPool : Pool := fun _ => [.leaf (.ofInt32 accountId), .leaf (.ofInt32 accountLevel)]

/-- Accounts are messages of it. -/
lemma hasDecls_account (idValue levelValue : BitVec 32) (messageType : Text) :
    HasDecls accountPool (accountEntity idValue levelValue) (accountPool messageType) := by
  simp [accountEntity, accountPool, HasDecls, Field.HasDecl, Leaf.ofInt32]

end PbEntityDb
