import PbEntityDb.Proto.Field

/-!
Messages as trees of fields, in declaration order.

A `Message` lists its fields as `Descriptor::field` enumerates them, each with
its content; a message field that is set carries the message. `Message.ind` is
the induction over such a tree. `leaves` are the present singular fields that
are no messages, depth first: what the recursive walks of the engine visit.
-/

namespace PbEntityDb

/-- A field with its content. -/
inductive Field where
  /-- a singular field that is no message -/
  | leaf (l : Leaf)
  /-- a singular message field that is not set -/
  | unset (f : MessageField)
  /-- a singular message field with its message -/
  | message (f : MessageField) (sub : List Field)
  /-- a repeated field of scalars -/
  | repeated (name : Name) (values : List Scalar)
  /-- a repeated message field -/
  | repeatedMessage (f : MessageField) (elems : List (List Field))

/-- A message: its fields in declaration order. -/
abbrev Message := List Field

namespace Field

/-- The name of a field. -/
def name : Field → Name
  | leaf l => l.name
  | unset f => f.name
  | message f _ => f.name
  | repeated name _ => name
  | repeatedMessage f _ => f.name

end Field

namespace Message

/-- The induction over a message: field by field, and into the messages that
are set. -/
@[elab_as_elim]
theorem ind {P : Message → Prop} (nil : P [])
    (leaf : ∀ (l : Leaf) (rest : Message), P rest → P (.leaf l :: rest))
    (unset : ∀ (f : MessageField) (rest : Message), P rest → P (.unset f :: rest))
    (message : ∀ (f : MessageField) (sub rest : Message), P sub → P rest →
      P (.message f sub :: rest))
    (repeated : ∀ (name : Name) (values : List Scalar) (rest : Message), P rest →
      P (.repeated name values :: rest))
    (repeatedMessage : ∀ (f : MessageField) (elems : List Message) (rest : Message), P rest →
      P (.repeatedMessage f elems :: rest)) : ∀ m : Message, P m
  | [] => nil
  | .leaf l :: rest =>
      leaf l rest (ind nil leaf unset message repeated repeatedMessage rest)
  | .unset f :: rest =>
      unset f rest (ind nil leaf unset message repeated repeatedMessage rest)
  | .message f sub :: rest =>
      message f sub rest (ind nil leaf unset message repeated repeatedMessage sub)
        (ind nil leaf unset message repeated repeatedMessage rest)
  | .repeated name values :: rest =>
      repeated name values rest (ind nil leaf unset message repeated repeatedMessage rest)
  | .repeatedMessage f elems :: rest =>
      repeatedMessage f elems rest (ind nil leaf unset message repeated repeatedMessage rest)

end Message

mutual

/-- The leaves of one field. -/
def Field.leaves : Field → List Leaf
  | .leaf l => if l.hasField then [l] else []
  | .unset _ => []
  | .message _ sub => leaves sub
  | .repeated _ _ => []
  | .repeatedMessage _ _ => []

/-- The present singular fields of a message that are no messages, depth first
and in declaration order. -/
def leaves : List Field → List Leaf
  | [] => []
  | f :: rest => f.leaves ++ leaves rest

end

@[simp] lemma leaves_nil : leaves [] = [] := by rw [leaves]

@[simp] lemma leaves_cons (f : Field) (m : Message) : leaves (f :: m) = f.leaves ++ leaves m := by
  rw [leaves]

@[simp] lemma Field.leaves_leaf (l : Leaf) :
    (Field.leaf l).leaves = if l.hasField then [l] else [] := by rw [Field.leaves]

@[simp] lemma Field.leaves_unset (f : MessageField) : (Field.unset f).leaves = [] := by
  rw [Field.leaves]

@[simp] lemma Field.leaves_message (f : MessageField) (sub : Message) :
    (Field.message f sub).leaves = PbEntityDb.leaves sub := by rw [Field.leaves]

@[simp] lemma Field.leaves_repeated (name : Name) (values : List Scalar) :
    (Field.repeated name values).leaves = [] := by rw [Field.leaves]

@[simp] lemma Field.leaves_repeatedMessage (f : MessageField) (elems : List Message) :
    (Field.repeatedMessage f elems).leaves = [] := by rw [Field.leaves]

/-! ### Sample fields -/

/-- A field of type `int32` as proto3 declares it. -/
def FieldDescriptor.ofInt32 (name : Name) : FieldDescriptor where
  name := name
  type := .int32
  presence := false
  oneof := none
  defaultValue := .int32 0
  typed := rfl
  scalar := by decide

/-- Such a field with its value. -/
def Leaf.ofInt32 (name : Name) (v : BitVec 32) : Leaf where
  field := .ofInt32 name
  hasBit := false
  value := .int32 v
  typed := rfl

/-- The table of the samples. -/
def account : Name := ⟨"account".toList, List.all_eq_true.mp rfl⟩

/-- Its key. -/
def accountId : Name := ⟨"id".toList, List.all_eq_true.mp rfl⟩

/-- A second column of it. -/
def accountLevel : Name := ⟨"level".toList, List.all_eq_true.mp rfl⟩

/-- An account. -/
def accountEntity (idValue levelValue : BitVec 32) : Message :=
  [.leaf (.ofInt32 accountId idValue), .leaf (.ofInt32 accountLevel levelValue)]

end PbEntityDb
