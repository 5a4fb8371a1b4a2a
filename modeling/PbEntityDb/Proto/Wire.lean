import PbEntityDb.Proto.Descriptor

/-!
What a serialized message carries.

`written` lists, field by field, what `SerializeAsString` writes of a message: a
singular field only if it is present, and of a message field the message in it.
Two messages of a type have the same string exactly if the two lists agree; the
fields of such messages are `Alike`.

A message may carry fields that its type does not declare. It keeps what was
parsed of them, and they are written behind the declared ones:
`Pool.withUnknown` gives every type a place for them.
-/

namespace PbEntityDb

/-- What is written of a field. -/
inductive Wire where
  | absent
  | leaf (v : Scalar)
  | message (fields : List Wire)
  | repeated (values : List Scalar)
  | repeatedMessage (elems : List (List Wire))

mutual

/-- What is written of one field. -/
def Field.written : Field → Wire
  | .leaf l => if l.hasField then .leaf l.value else .absent
  | .unset _ => .absent
  | .message _ sub => .message (written sub)
  | .repeated _ values => .repeated values
  | .repeatedMessage _ elems => .repeatedMessage (writtenAll elems)

/-- `SerializeAsString` of a message. -/
def written : List Field → List Wire
  | [] => []
  | f :: rest => f.written :: written rest

/-- What is written of the elements of a repeated field. -/
def writtenAll : List (List Field) → List (List Wire)
  | [] => []
  | m :: ms => written m :: writtenAll ms

end

@[simp] lemma written_nil : written [] = [] := by rw [written]

@[simp] lemma written_cons (f : Field) (m : Message) :
    written (f :: m) = f.written :: written m := by rw [written]

/-! ### Unknown fields -/

/-- What stands for `UnknownFieldSet` among the fields of a message. -/
def unknownFields : Name := ⟨"UnknownFieldSet".toList, List.all_eq_true.mp rfl⟩

/-- The types with a place for the unknown fields of their messages. Neither a setter nor a walk
of the engine touches a repeated field, just as they leave the unknown fields alone; a new
message has none, and those of a message in a field go with it. -/
def Pool.withUnknown (pool : Pool) : Pool := fun messageType =>
  pool messageType ++ [.repeated unknownFields]

/-- A message of such a type, with the strings of its unknown fields. -/
def Message.withUnknown (m : Message) (fields : List Text) : Message :=
  m ++ [.repeated unknownFields (fields.map .string)]

/-! ### Messages of a type -/

lemma hasDecls_cons {pool : Pool} {f : Field} {m : Message} {d : FieldDecl} {ds : List FieldDecl} :
    HasDecls pool (f :: m) (d :: ds) ↔ f.HasDecl pool d ∧ HasDecls pool m ds := by
  rw [HasDecls]
  constructor
  · rintro ⟨d', ds', heq, hf, hm⟩
    cases heq
    exact ⟨hf, hm⟩
  · rintro ⟨hf, hm⟩
    exact ⟨d, ds, rfl, hf, hm⟩

lemma not_hasDecls_nil {pool : Pool} {d : FieldDecl} {ds : List FieldDecl} :
    ¬ HasDecls pool [] (d :: ds) := by
  rw [HasDecls]
  exact List.cons_ne_nil d ds

/-- The fields of a message, one by one. -/
lemma hasDecls_iff {pool : Pool} {m : Message} {ds : List FieldDecl} :
    HasDecls pool m ds ↔ m.length = ds.length
      ∧ ∀ (i : ℕ) (f : Field) (d : FieldDecl), m[i]? = some f → ds[i]? = some d →
        f.HasDecl pool d := by
  induction m generalizing ds with
  | nil =>
      rw [HasDecls]
      constructor
      · rintro rfl
        exact ⟨rfl, fun i f d hf => by simp at hf⟩
      · rintro ⟨hlen, -⟩
        exact List.eq_nil_of_length_eq_zero hlen.symm
  | cons f m ih =>
      cases ds with
      | nil =>
          constructor
          · intro h
            rw [HasDecls] at h
            obtain ⟨d, ds, heq, -⟩ := h
            cases heq
          · rintro ⟨hlen, -⟩
            cases hlen
      | cons d ds =>
          rw [hasDecls_cons, ih, List.length_cons, List.length_cons, Nat.add_right_cancel_iff]
          constructor
          · rintro ⟨hf, hlen, hm⟩
            refine ⟨hlen, fun i g e hg he => ?_⟩
            cases i with
            | zero =>
                cases hg
                cases he
                exact hf
            | succ i => exact hm i g e hg he
          · rintro ⟨hlen, h⟩
            exact ⟨h 0 f d rfl rfl, hlen, fun i g e hg he => h (i + 1) g e hg he⟩

/-- The declaration of a field. -/
lemma hasDecl_of_getElem? {pool : Pool} {m : Message} {ds : List FieldDecl}
    (h : HasDecls pool m ds) {i : ℕ} {f : Field} (hf : m[i]? = some f) :
    ∃ d, ds[i]? = some d ∧ f.HasDecl pool d := by
  obtain ⟨hlen, hdecl⟩ := hasDecls_iff.mp h
  have hlt : i < ds.length := by
    have := (List.getElem?_eq_some_iff.mp hf).1
    omega
  have hd := List.getElem?_eq_getElem hlt
  exact ⟨ds[i], hd, hdecl i f _ hf hd⟩

/-- A field is replaced by one of the same declaration. -/
lemma hasDecls_set {pool : Pool} {m : Message} {ds : List FieldDecl}
    (h : HasDecls pool m ds) {i : ℕ} {f : Field} {d : FieldDecl} (hd : ds[i]? = some d)
    (hf : f.HasDecl pool d) : HasDecls pool (m.set i f) ds := by
  obtain ⟨hlen, hdecl⟩ := hasDecls_iff.mp h
  refine hasDecls_iff.mpr ⟨by rw [List.length_set, hlen], fun j f' d' hf' hd' => ?_⟩
  by_cases hij : i = j
  · subst hij
    have hlt : i < m.length := by
      have := (List.getElem?_eq_some_iff.mp hd).1
      omega
    rw [List.getElem?_set_self hlt] at hf'
    rw [hd] at hd'
    cases hf'
    cases hd'
    exact hf
  · rw [List.getElem?_set_ne hij] at hf'
    exact hdecl j f' d' hf' hd'

lemma Field.HasDecl.name_eq {pool : Pool} {f : Field} {d : FieldDecl} (h : f.HasDecl pool d) :
    f.name = d.name := by
  cases f with
  | leaf l => rw [Field.HasDecl] at h; rw [h]; rfl
  | unset f => rw [Field.HasDecl] at h; rw [h]; rfl
  | message f sub => rw [Field.HasDecl] at h; rw [h.1]; rfl
  | repeated name values => rw [Field.HasDecl] at h; rw [h]; rfl
  | repeatedMessage f elems => rw [Field.HasDecl] at h; rw [h]; rfl

lemma Field.HasDecl.oneof_eq {pool : Pool} {f : Field} {d : FieldDecl} (h : f.HasDecl pool d) :
    f.oneof = d.oneof := by
  cases f with
  | leaf l => rw [Field.HasDecl] at h; rw [h]; rfl
  | unset f => rw [Field.HasDecl] at h; rw [h]; rfl
  | message f sub => rw [Field.HasDecl] at h; rw [h.1]; rfl
  | repeated name values => rw [Field.HasDecl] at h; rw [h]; rfl
  | repeatedMessage f elems => rw [Field.HasDecl] at h; rw [h]; rfl

lemma Field.HasDecl.cleared {pool : Pool} {f : Field} {d : FieldDecl} (h : f.HasDecl pool d) :
    f.cleared.HasDecl pool d := by
  cases f with
  | leaf l => rw [Field.HasDecl] at h; rw [h, Field.cleared, Field.HasDecl]; rfl
  | unset f => exact h
  | message f sub => rw [Field.HasDecl] at h; rw [h.1, Field.cleared, Field.HasDecl]
  | repeated name values => exact h
  | repeatedMessage f elems => exact h

lemma FieldDecl.hasDecl_empty (pool : Pool) (d : FieldDecl) : d.empty.HasDecl pool d := by
  cases d with
  | leaf d => rw [FieldDecl.empty, Field.HasDecl]; rfl
  | message f => rw [FieldDecl.empty, Field.HasDecl]
  | repeated name => rw [FieldDecl.empty, Field.HasDecl]
  | repeatedMessage f => rw [FieldDecl.empty, Field.HasDecl]

/-- A new message has the fields of its type. -/
lemma hasDecls_empty (pool : Pool) (ds : List FieldDecl) :
    HasDecls pool (ds.map FieldDecl.empty) ds := by
  induction ds with
  | nil => rw [List.map_nil, HasDecls]
  | cons d ds ih => exact hasDecls_cons.mpr ⟨d.hasDecl_empty pool, ih⟩

/-- The fields of a cleared field, as a new message has it. -/
lemma Field.HasDecl.cleared_eq {pool : Pool} {f : Field} {d : FieldDecl} (h : f.HasDecl pool d)
    (ho : d.oneof.isSome = true) : f.cleared = d.empty := by
  cases f with
  | leaf l => rw [Field.HasDecl] at h; rw [h]; rfl
  | unset f => rw [Field.HasDecl] at h; rw [h]; rfl
  | message f sub => rw [Field.HasDecl] at h; rw [h.1]; rfl
  | repeated name values => rw [Field.HasDecl] at h; rw [h] at ho; cases ho
  | repeatedMessage f elems => rw [Field.HasDecl] at h; rw [h] at ho; cases ho

/-! ### Fields of one declaration -/

lemma written_eq_map (m : Message) : written m = m.map Field.written := by
  induction m with
  | nil => exact written_nil
  | cons f m ih => rw [written_cons, ih, List.map_cons]

lemma writtenAll_eq_map (elems : List Message) : writtenAll elems = elems.map written := by
  induction elems with
  | nil => rw [writtenAll, List.map_nil]
  | cons m elems ih => rw [writtenAll, ih, List.map_cons]

/-- Two fields of one declaration, of which the same is written. -/
structure Alike (pool : Pool) (f g : Field) : Prop where
  written : f.written = g.written
  hasDecl : ∃ d, f.HasDecl pool d ∧ g.HasDecl pool d

/-- The fields of two messages of a type of which the same is written. -/
lemma alike_of_written {pool : Pool} {m n : Message} {ds : List FieldDecl}
    (hm : HasDecls pool m ds) (hn : HasDecls pool n ds) (h : written m = written n) :
    List.Forall₂ (Alike pool) m n := by
  obtain ⟨hmlen, hmdecl⟩ := hasDecls_iff.mp hm
  obtain ⟨hnlen, hndecl⟩ := hasDecls_iff.mp hn
  refine List.forall₂_iff_get.mpr ⟨hmlen.trans hnlen.symm, fun i hi hi' => ?_⟩
  have hlt : i < ds.length := by omega
  have hd := List.getElem?_eq_getElem hlt
  refine ⟨?_, ds[i], hmdecl i _ _ (List.getElem?_eq_getElem hi) hd,
    hndecl i _ _ (List.getElem?_eq_getElem hi') hd⟩
  rw [written_eq_map, written_eq_map] at h
  have hwritten := congrArg (fun ws => ws[i]?) h
  simp only [List.getElem?_map, List.getElem?_eq_getElem hi, List.getElem?_eq_getElem hi',
    Option.map_some, Option.some.injEq] at hwritten
  exact hwritten

/-- Two fields at one place of lists that agree field by field. -/
lemma alike_getElem? {pool : Pool} {fs gs : List Field} (h : List.Forall₂ (Alike pool) fs gs)
    {i : ℕ} {f g : Field} (hf : fs[i]? = some f) (hg : gs[i]? = some g) : Alike pool f g := by
  obtain ⟨hi, rfl⟩ := List.getElem?_eq_some_iff.mp hf
  obtain ⟨hi', rfl⟩ := List.getElem?_eq_some_iff.mp hg
  exact (List.forall₂_iff_get.mp h).2 i hi hi'

end PbEntityDb
