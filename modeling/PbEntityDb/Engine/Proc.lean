import PbEntityDb.Engine.Collect
import PbEntityDb.Engine.Values
import PbEntityDb.Proto.Descriptor
import PbEntityDb.Sql.Tokens

/-!
Calls of stored procedures: `ParseProc`.

* `parseProcParamsCount` counts the arguments and `collectProcInputParams`
  collects them; both walk over the leaves of the parameter message, and
  `parseProc_call` says that the call has one placeholder for each argument.
* `leafPaths` are the leaves together with their place in the message type, in
  declaration order and depth first (`leafPaths_pairwise`), and `procArguments`
  those among them that the call carries.
* `parseProc_positions`: two calls carry the same declared fields at the same
  placeholders exactly if the same fields are present. A field that is not
  present shifts the arguments behind it (`zero_shifts`).
-/

namespace PbEntityDb

/-! ### The two walks -/

/-- The types that `ParseProcParamsCount` has a case for. -/
def FieldDescriptor.isCounted (d : FieldDescriptor) : Bool :=
  match d.type with
  | .enum | .sfixed64 | .fixed64 | .int64 | .uint64 | .fixed32 | .int32 | .uint32 | .string
  | .bytes | .double | .float | .bool => true
  | .group | .message | .sfixed32 | .sint32 | .sint64 => false

mutual

/-- One field in the loop of `ParseProcParamsCount`. -/
def Field.parseProcParamsCount : Field → ℕ
  | .leaf l => if l.hasField then (if l.field.isCounted then 1 else 0) else 0
  | .unset _ => 0
  | .message _ sub => parseProcParamsCount sub
  | .repeated _ _ => 0
  | .repeatedMessage _ _ => 0

/-- `Protobuf2DbEngine::ParseProcParamsCount`. -/
def parseProcParamsCount : List Field → ℕ
  | [] => 0
  | f :: rest => f.parseProcParamsCount + parseProcParamsCount rest

end

mutual

/-- One field in the loop of `CollectProcInputParams`. -/
def Field.collectProcInputParams : Field → List Leaf → List Leaf
  | .leaf l, vOut => if l.hasField then vOut ++ [l] else vOut
  | .unset _, vOut => vOut
  | .message _ sub, vOut => collectProcInputParams sub vOut
  | .repeated _ _, vOut => vOut
  | .repeatedMessage _ _, vOut => vOut

/-- `Protobuf2DbEngine::CollectProcInputParams`. -/
def collectProcInputParams : List Field → List Leaf → List Leaf
  | [], vOut => vOut
  | f :: rest, vOut => collectProcInputParams rest (f.collectProcInputParams vOut)

end

/-- `Protobuf2DbEngine::ParseProcParams`. -/
def parseProcParams (pS : ZdbStatement) (pParams : Message) : Except Fault ZdbStatement :=
  addInputParams pS (collectProcInputParams pParams [])

/-- The walk collects the leaves. -/
lemma collectProcInputParams_eq (m : Message) (vOut : List Leaf) :
    collectProcInputParams m vOut = vOut ++ leaves m := by
  induction m using Message.ind generalizing vOut with
  | nil => simp [collectProcInputParams]
  | leaf l rest ih =>
      rw [collectProcInputParams, ih, Field.collectProcInputParams]
      by_cases h : l.hasField = true <;> simp [h]
  | unset f rest ih =>
      rw [collectProcInputParams, ih]
      simp [Field.collectProcInputParams]
  | message f sub rest ihs ihr =>
      rw [collectProcInputParams, Field.collectProcInputParams, ihs, ihr]
      simp
  | repeated name values rest ih =>
      rw [collectProcInputParams, ih]
      simp [Field.collectProcInputParams]
  | repeatedMessage f elems rest ih =>
      rw [collectProcInputParams, ih]
      simp [Field.collectProcInputParams]

/-- The leaves are bound in their order. -/
lemma parseProcParams_eq (s : ZdbStatement) (m : Message) :
    parseProcParams s m = addInputParams s (leaves m) := by
  rw [parseProcParams, collectProcInputParams_eq, List.nil_append]

/-- The count is that of the leaves with a case. -/
lemma parseProcParamsCount_eq (m : Message) :
    parseProcParamsCount m = (leaves m).countP fun l => l.field.isCounted := by
  induction m using Message.ind with
  | nil => simp [parseProcParamsCount]
  | leaf l rest ih =>
      rw [parseProcParamsCount, ih, Field.parseProcParamsCount]
      by_cases h : l.hasField = true
      · rw [leaves_cons, Field.leaves_leaf, if_pos h, if_pos h, List.singleton_append,
          List.countP_cons]
        omega
      · simp [h]
  | unset f rest ih =>
      rw [parseProcParamsCount, ih]
      simp [Field.parseProcParamsCount]
  | message f sub rest ihs ihr =>
      rw [parseProcParamsCount, Field.parseProcParamsCount, ihs, ihr]
      simp [List.countP_append]
  | repeated name values rest ih =>
      rw [parseProcParamsCount, ih]
      simp [Field.parseProcParamsCount]
  | repeatedMessage f elems rest ih =>
      rw [parseProcParamsCount, ih]
      simp [Field.parseProcParamsCount]

/-- The two type switches have the same cases; in two of them the getter is the
wrong one. -/
lemma Leaf.boundValue_isSome (l : Leaf) :
    l.boundValue.isSome = (l.field.isCounted && !l.mistyped) := by
  obtain ⟨⟨name, type, presence, oneof, defaultValue, htyped, hscalar⟩, hasBit, value, typed⟩ := l
  cases type <;> cases value <;>
    first
      | rfl
      | (exact absurd typed (by simp [Scalar.cppType, FieldType.cppType]))

/-- Without mistyped leaves the call has one placeholder for each value. -/
lemma length_boundValues_leaves {m : Message} (h : (leaves m).any Leaf.mistyped = false) :
    (boundValues (leaves m)).length = parseProcParamsCount m := by
  rw [boundValues_of_not_mistyped h, List.length_filterMap_eq_countP, parseProcParamsCount_eq]
  refine List.countP_congr fun l hl => ?_
  have hm : l.mistyped = false := by simpa using List.any_eq_false.mp h l hl
  rw [l.boundValue_isSome, hm, Bool.not_false, Bool.and_true]

/-! ### `ParseProc` -/

/-- The name of the field that carries the arguments. -/
def paramName : Name := ⟨"param".toList, List.all_eq_true.mp rfl⟩

/-- A stored procedure: the name of its message type and its fields. The names of
the fields are distinct. A group stands among the message fields, as `ParseProc`
asks for the message of a field and not for its type. -/
structure StoredProc where
  procName : ProcName
  fields : Message
  distinct : (fields.map Field.name).Nodup
  grouped : ∀ l, Field.leaf l ∈ fields → l.field.type ≠ .group

/-- `Reflection::GetMessage` of a field that is present. -/
def Field.getMessage : Field → Except Fault Message
  | .message _ sub => .ok sub
  | _ => .error .typeMismatch

/-- The loop of `ParseProc`. -/
def parseProcLoop (db : Server) (sProcName : ProcName) :
    List Field → ZdbStatement → Except Fault (Bool × ZdbStatement)
  | [], pOutS => .ok (true, pOutS)
  | f :: rest, pOutS =>
      if f.isPresent && f.name = paramName then do
        let param ← f.getMessage
        let (prepared, s) ← pOutS.prepareStoredProcCall db sProcName (parseProcParamsCount param)
        if !prepared then .ok (false, s)
        else
          let s ← parseProcParams s param
          parseProcLoop db sProcName rest s
      else parseProcLoop db sProcName rest pOutS

/-- `Protobuf2DbEngine::ParseProc`. -/
def parseProc (db : Server) (pOutS : ZdbStatement) (pStoredProc : StoredProc) :
    Except Fault (Bool × ZdbStatement) :=
  parseProcLoop db pStoredProc.procName pStoredProc.fields pOutS

/-- The field that `ParseProc` makes a call of. -/
def StoredProc.param? (sp : StoredProc) : Option Field :=
  sp.fields.find? fun f => f.isPresent && f.name = paramName

/-- What `ParseProc` does with the field. -/
def callParam (db : Server) (sProcName : ProcName) (pOutS : ZdbStatement) (f : Field) :
    Except Fault (Bool × ZdbStatement) := do
  let param ← f.getMessage
  let (prepared, s) ← pOutS.prepareStoredProcCall db sProcName (parseProcParamsCount param)
  if !prepared then .ok (false, s)
  else
    let s ← parseProcParams s param
    .ok (true, s)

/-- Fields of other names are passed over. -/
lemma parseProcLoop_skip (db : Server) (sProcName : ProcName) (pOutS : ZdbStatement)
    {fields : Message} (h : paramName ∉ fields.map Field.name) :
    parseProcLoop db sProcName fields pOutS = .ok (true, pOutS) := by
  induction fields with
  | nil => rfl
  | cons f rest ih =>
      rw [List.map_cons, List.mem_cons, not_or] at h
      have hname : ¬ f.name = paramName := fun e => h.1 e.symm
      rw [parseProcLoop, if_neg (by simp [hname]), ih h.2]

/-- **What `ParseProc` does**: it prepares and binds the one call of the field
that carries the arguments, or it leaves the statement as it is. -/
theorem parseProc_eq (db : Server) (pOutS : ZdbStatement) (sp : StoredProc) :
    parseProc db pOutS sp
      = match sp.param? with
        | none => .ok (true, pOutS)
        | some f => callParam db sp.procName pOutS f := by
  rw [parseProc, StoredProc.param?]
  have hdistinct := sp.distinct
  revert hdistinct
  induction sp.fields with
  | nil => exact fun _ => rfl
  | cons f rest ih =>
      intro hdistinct
      rw [List.map_cons, List.nodup_cons] at hdistinct
      rw [parseProcLoop, List.find?_cons]
      by_cases hf : (f.isPresent && decide (f.name = paramName)) = true
      · have hname : f.name = paramName := by simpa using (Bool.and_eq_true_iff.mp hf).2
        rw [hname] at hdistinct
        rw [if_pos hf, hf]
        -- behind the field no other one has its name
        simp only [callParam, parseProcLoop_skip _ _ _ hdistinct.1]
      · rw [Bool.not_eq_true] at hf
        rw [hf, if_neg (by simp), ih hdistinct.2]

/-! ### The place of a leaf -/

mutual

/-- The leaves of one field, each with its place behind the field. -/
def Field.leafPaths : Field → List (List ℕ × Leaf)
  | .leaf l => if l.hasField then [([], l)] else []
  | .unset _ => []
  | .message _ sub => leafPaths 0 sub
  | .repeated _ _ => []
  | .repeatedMessage _ _ => []

/-- The leaves of the fields from index `i` on, each with its place: the index of
its field in every message on the way to it. -/
def leafPaths : ℕ → List Field → List (List ℕ × Leaf)
  | _, [] => []
  | i, f :: rest => f.leafPaths.map (fun a => (i :: a.1, a.2)) ++ leafPaths (i + 1) rest

end

/-- The singular field at a place of a message. -/
def leafAt : List ℕ → Message → Option Leaf
  | [], _ => none
  | i :: path, m =>
      match m[i]? with
      | some (.leaf l) => if path = [] then some l else none
      | some (.message _ sub) => leafAt path sub
      | _ => none

/-- The field that a message type declares at a place. -/
def declAt (pool : Pool) : List ℕ → Text → Option FieldDescriptor
  | [], _ => none
  | i :: path, messageType =>
      match (pool messageType)[i]? with
      | some (.leaf d) => if path = [] then some d else none
      | some (.message f) => declAt pool path f.messageType
      | _ => none

/-- The walk meets the leaves in the order of their places. -/
lemma leafPaths_snd (m : Message) (i : ℕ) : (leafPaths i m).map Prod.snd = leaves m := by
  induction m using Message.ind generalizing i with
  | nil => simp [leafPaths]
  | leaf l rest ih =>
      rw [leafPaths, List.map_append, ih, Field.leafPaths]
      by_cases h : l.hasField = true <;> simp [h]
  | unset f rest ih =>
      rw [leafPaths, List.map_append, ih]
      simp [Field.leafPaths]
  | message f sub rest ihs ihr =>
      rw [leafPaths, List.map_append, ihr, Field.leafPaths, List.map_map, leaves_cons,
        Field.leaves_message, ← ihs 0]
      rfl
  | repeated name values rest ih =>
      rw [leafPaths, List.map_append, ih]
      simp [Field.leafPaths]
  | repeatedMessage f elems rest ih =>
      rw [leafPaths, List.map_append, ih]
      simp [Field.leafPaths]

/-- A walk from index `i` on meets the fields behind. -/
lemma le_of_mem_leafPaths {m : Message} {i : ℕ} {a : List ℕ × Leaf} (h : a ∈ leafPaths i m) :
    ∃ j path, i ≤ j ∧ a.1 = j :: path := by
  induction m generalizing i with
  | nil => simp [leafPaths] at h
  | cons f rest ih =>
      rw [leafPaths, List.mem_append] at h
      rcases h with h | h
      · obtain ⟨b, -, rfl⟩ := List.mem_map.mp h
        exact ⟨i, b.1, le_rfl, rfl⟩
      · obtain ⟨j, path, hj, hpath⟩ := ih h
        exact ⟨j, path, by omega, hpath⟩

/-- **Declaration order, depth first**: the places are met in lexicographic order. -/
theorem leafPaths_pairwise (m : Message) (i : ℕ) :
    ((leafPaths i m).map Prod.fst).Pairwise (· < ·) := by
  have hskip : ∀ {f : Field} (rest : Message) (i : ℕ), f.leafPaths = [] →
      leafPaths i (f :: rest) = leafPaths (i + 1) rest := by
    intro f rest i h
    rw [leafPaths, h, List.map_nil, List.nil_append]
  -- the places behind one field follow those inside it
  have hstep : ∀ {f : Field} {rest : Message} {i : ℕ},
      (f.leafPaths.map Prod.fst).Pairwise (· < ·) →
      ((leafPaths (i + 1) rest).map Prod.fst).Pairwise (· < ·) →
      ((leafPaths i (f :: rest)).map Prod.fst).Pairwise (· < ·) := by
    intro f rest i hf hrest
    rw [leafPaths, List.map_append, List.pairwise_append]
    refine ⟨?_, hrest, ?_⟩
    · rw [List.map_map, List.pairwise_map]
      rw [List.pairwise_map] at hf
      exact hf.imp fun h => List.cons_lt_cons_iff.mpr (.inr ⟨rfl, h⟩)
    · intro p hp q hq
      rw [List.map_map] at hp
      obtain ⟨a, -, rfl⟩ := List.mem_map.mp hp
      obtain ⟨b, hb, rfl⟩ := List.mem_map.mp hq
      obtain ⟨j, path, hj, hpath⟩ := le_of_mem_leafPaths hb
      rw [hpath]
      exact List.cons_lt_cons_iff.mpr (.inl (by omega))
  induction m using Message.ind generalizing i with
  | nil => simp [leafPaths]
  | leaf l rest ih =>
      refine hstep ?_ (ih (i + 1))
      rw [Field.leafPaths]
      by_cases h : l.hasField = true <;> simp [h]
  | unset f rest ih =>
      rw [hskip rest i (by rw [Field.leafPaths])]
      exact ih (i + 1)
  | message f sub rest ihs ihr =>
      refine hstep ?_ (ihr (i + 1))
      rw [Field.leafPaths]
      exact ihs 0
  | repeated name values rest ih =>
      rw [hskip rest i (by rw [Field.leafPaths])]
      exact ih (i + 1)
  | repeatedMessage f elems rest ih =>
      rw [hskip rest i (by rw [Field.leafPaths])]
      exact ih (i + 1)

/-- The walk meets the leaves that are present, at their places. -/
lemma mem_leafPaths_from {m : Message} {i : ℕ} {path : List ℕ} {l : Leaf} :
    (path, l) ∈ leafPaths i m
      ↔ ∃ j q, path = (i + j) :: q ∧ leafAt (j :: q) m = some l ∧ l.hasField = true := by
  -- one field and the fields behind it
  have hstep : ∀ {f : Field} {rest : Message} {i : ℕ} {path : List ℕ},
      (∀ q, (q, l) ∈ f.leafPaths
        ↔ leafAt (0 :: q) (f :: rest) = some l ∧ l.hasField = true) →
      ((path, l) ∈ leafPaths (i + 1) rest
        ↔ ∃ j q, path = (i + 1 + j) :: q ∧ leafAt (j :: q) rest = some l ∧ l.hasField = true) →
      ((path, l) ∈ leafPaths i (f :: rest)
        ↔ ∃ j q, path = (i + j) :: q ∧ leafAt (j :: q) (f :: rest) = some l
          ∧ l.hasField = true) := by
    intro f rest i path hf hrest
    rw [leafPaths, List.mem_append, hrest]
    constructor
    · rintro (h | ⟨j, q, rfl, hq, hp⟩)
      · obtain ⟨⟨q, l'⟩, hb, heq⟩ := List.mem_map.mp h
        obtain ⟨rfl, rfl⟩ := Prod.mk.inj heq
        exact ⟨0, q, rfl, (hf q).mp hb⟩
      · exact ⟨j + 1, q, by rw [Nat.add_assoc, Nat.add_comm 1 j], hq, hp⟩
    · rintro ⟨j, q, rfl, hq, hp⟩
      cases j with
      | zero => exact .inl (List.mem_map.mpr ⟨(q, l), (hf q).mpr ⟨hq, hp⟩, rfl⟩)
      | succ j => exact .inr ⟨j, q, by rw [Nat.add_assoc, Nat.add_comm 1 j], hq, hp⟩
  induction m using Message.ind generalizing i path with
  | nil => simp [leafPaths, leafAt]
  | leaf l' rest ih =>
      refine hstep (fun q => ?_) ih
      rw [Field.leafPaths]
      by_cases h : l'.hasField = true
      · by_cases hq : q = []
        · simp only [h, hq, leafAt, if_true, List.mem_singleton, Prod.mk.injEq, true_and,
            List.getElem?_cons_zero, Option.some.injEq]
          constructor
          · rintro rfl
            exact ⟨rfl, h⟩
          · exact fun hl => hl.1.symm
        · simp [h, hq, leafAt]
      · by_cases hq : q = []
        · simp only [h, hq, leafAt, if_true, Bool.false_eq_true, if_false, List.not_mem_nil,
            List.getElem?_cons_zero, Option.some.injEq, false_iff, not_and]
          rintro rfl
          exact h
        · simp [h, hq, leafAt]
  | unset f rest ih => exact hstep (fun q => by simp [Field.leafPaths, leafAt]) ih
  | message f sub rest ihs ihr =>
      refine hstep (fun q => ?_) ihr
      have hsub : (q, l) ∈ leafPaths 0 sub
          ↔ ∃ j q', q = (0 + j) :: q' ∧ leafAt (j :: q') sub = some l ∧ l.hasField = true := ihs
      rw [Field.leafPaths, hsub]
      change _ ↔ leafAt q sub = some l ∧ _
      cases q with
      | nil => simp [leafAt]
      | cons j q =>
          constructor
          · rintro ⟨j', q', heq, h⟩
            obtain ⟨rfl, rfl⟩ := List.cons.inj heq
            rwa [Nat.zero_add]
          · exact fun h => ⟨j, q, by rw [Nat.zero_add], h⟩
  | repeated name values rest ih => exact hstep (fun q => by simp [Field.leafPaths, leafAt]) ih
  | repeatedMessage f elems rest ih =>
      exact hstep (fun q => by simp [Field.leafPaths, leafAt]) ih

lemma mem_leafPaths {m : Message} {path : List ℕ} {l : Leaf} :
    (path, l) ∈ leafPaths 0 m ↔ leafAt path m = some l ∧ l.hasField = true := by
  rw [mem_leafPaths_from]
  constructor
  · rintro ⟨j, q, rfl, h⟩
    rwa [Nat.zero_add]
  · intro h
    cases path with
    | nil => exact absurd h.1 (by simp [leafAt])
    | cons j q => exact ⟨j, q, by rw [Nat.zero_add], h⟩

/-- The leaf at a place is the field that the type declares there. -/
lemma declAt_of_leafAt {pool : Pool} {path : List ℕ} {m : Message} {messageType : Text} {l : Leaf}
    (hm : HasDecls pool m (pool messageType)) (hl : leafAt path m = some l) :
    declAt pool path messageType = some l.field := by
  have hget : ∀ {m : Message} {ds : List FieldDecl}, HasDecls pool m ds → ∀ {i : ℕ} {f : Field},
      m[i]? = some f → ∃ d, ds[i]? = some d ∧ f.HasDecl pool d := by
    intro m
    induction m with
    | nil => intro ds _ i f hf; simp at hf
    | cons g rest ih =>
        intro ds h i f hf
        rw [HasDecls] at h
        obtain ⟨d, ds, rfl, hd, hrest⟩ := h
        cases i with
        | zero => exact ⟨d, rfl, by simp_all⟩
        | succ i => exact ih hrest hf
  induction path generalizing m messageType with
  | nil => cases hl
  | cons i path ih =>
      rw [leafAt] at hl
      rw [declAt]
      cases hf : m[i]? with
      | none => rw [hf] at hl; cases hl
      | some f =>
          obtain ⟨d, hd, hdecl⟩ := hget hm hf
          rw [hf] at hl
          cases f with
          | leaf l' =>
              rw [Field.HasDecl] at hdecl
              subst hdecl
              by_cases hpath : path = []
              · simp only [hpath, if_true, Option.some.injEq] at hl
                rw [hd, ← hl]
                simp [hpath]
              · simp [hpath] at hl
          | unset f => cases hl
          | message f sub =>
              rw [Field.HasDecl] at hdecl
              rw [hd, hdecl.1]
              exact ih hdecl.2 hl
          | repeated name values => cases hl
          | repeatedMessage f elems => cases hl

/-! ### Calls -/

/-- The arguments of a call, each with its place. -/
def procArguments (param : Message) : List (List ℕ × Leaf) :=
  (leafPaths 0 param).filter fun a => a.2.field.isCounted

/-- The message sets the argument at a place: the field is present and its type
has a case in the switch. -/
def SetsArgument (param : Message) (path : List ℕ) : Prop :=
  ∃ l, leafAt path param = some l ∧ l.hasField = true ∧ l.field.isCounted = true

/-- The place of the declared field that the placeholder with index `k` carries. -/
def argumentAt (param : Message) (k : ℕ) : Option (List ℕ) :=
  ((procArguments param)[k]?).map Prod.fst

/-- The slot holds the argument, and if it is no string its value. -/
def HoldsArgument (l : Leaf) (slot : Option BoundValue) : Prop :=
  ∃ v, slot = some v ∧ (l.field.type ≠ .string → v.value = l.signedValue)

/-- The statement is the call of a procedure with the arguments of a message: one
placeholder for each of them, with its slot, and in the order in which the type of the
message declares them. -/
structure IsCall (pool : Pool) (paramType : Text) (s : ZdbStatement) (sp : StoredProc)
    (param : Message) : Prop where
  text : s.sql = callText sp.procName (procArguments param).length
  placeholders : placeholderCount s.sql = (procArguments param).length
  slots : ∃ slots, s.stmt = some ⟨slots⟩
    ∧ List.Forall₂ (fun a slot => HoldsArgument a.2 slot) (procArguments param) slots
  declared : ∀ a ∈ procArguments param, declAt pool a.1 paramType = some a.2.field
  ordered : ((procArguments param).map Prod.fst).Pairwise (· < ·)

lemma mem_procArguments {param : Message} {path : List ℕ} {l : Leaf} :
    (path, l) ∈ procArguments param
      ↔ leafAt path param = some l ∧ l.hasField = true ∧ l.field.isCounted = true := by
  rw [procArguments, List.mem_filter, mem_leafPaths, and_assoc]

lemma setsArgument_iff {param : Message} {path : List ℕ} :
    SetsArgument param path ↔ path ∈ (procArguments param).map Prod.fst := by
  rw [List.mem_map]
  constructor
  · rintro ⟨l, h⟩
    exact ⟨(path, l), mem_procArguments.mpr h, rfl⟩
  · rintro ⟨⟨path', l⟩, h, rfl⟩
    exact ⟨l, mem_procArguments.mp h⟩

lemma procArguments_pairwise (param : Message) :
    ((procArguments param).map Prod.fst).Pairwise (· < ·) :=
  (leafPaths_pairwise param 0).sublist (List.filter_sublist.map _)

/-- The arguments are the leaves that are counted. -/
lemma procArguments_snd (param : Message) :
    (procArguments param).map Prod.snd = (leaves param).filter fun l => l.field.isCounted := by
  rw [← leafPaths_snd param 0, List.filter_map]
  rfl

lemma length_procArguments (param : Message) :
    (procArguments param).length = parseProcParamsCount param := by
  rw [parseProcParamsCount_eq, List.countP_eq_length_filter, ← procArguments_snd, List.length_map]

/-- The values in the slots are those of the arguments. -/
lemma boundValues_procArguments {param : Message}
    (h : (leaves param).any Leaf.mistyped = false) :
    (boundValues (leaves param)).map some
        = (procArguments param).map (fun a => a.2.boundValue)
      ∧ ∀ a ∈ procArguments param, a.2.boundValue.isSome = true := by
  have hcase : ∀ l ∈ leaves param, l.boundValue.isSome = l.field.isCounted := by
    intro l hl
    have hm : l.mistyped = false := by simpa using List.any_eq_false.mp h l hl
    rw [l.boundValue_isSome, hm, Bool.not_false, Bool.and_true]
  have hvalues : ∀ {ls : List Leaf}, (∀ l ∈ ls, l.boundValue.isSome = l.field.isCounted) →
      (ls.filterMap Leaf.boundValue).map some
        = (ls.filter fun l => l.field.isCounted).map Leaf.boundValue := by
    intro ls hls
    induction ls with
    | nil => rfl
    | cons l ls ih =>
        have hrest := ih fun l hl => hls l (List.mem_cons_of_mem _ hl)
        have hl := hls l List.mem_cons_self
        cases hv : l.boundValue with
        | none =>
            rw [hv, Option.isSome_none] at hl
            simpa [List.filterMap_cons_none hv, ← hl] using hrest
        | some v =>
            rw [hv, Option.isSome_some] at hl
            simpa [List.filterMap_cons_some hv, ← hl, hv] using hrest
  constructor
  · rw [boundValues_of_not_mistyped h, hvalues hcase, ← procArguments_snd, List.map_map]
    rfl
  · rintro ⟨path, l⟩ ha
    obtain ⟨hat, hfield, hcounted⟩ := mem_procArguments.mp ha
    have hl : l ∈ leaves param := by
      rw [← leafPaths_snd param 0]
      exact List.mem_map.mpr ⟨(path, l), mem_leafPaths.mpr ⟨hat, hfield⟩, rfl⟩
    rw [hcase l hl, hcounted]

/-- The field is counted, prepared for and bound. -/
lemma callParam_eq (db : Server) (sProcName : ProcName) (f : Field) :
    callParam db sProcName .new f
      = f.getMessage.bind fun param =>
          if (callText sProcName (parseProcParamsCount param)).length < bufferSize then
            prepareText db (callText sProcName (parseProcParamsCount param)) (leaves param)
          else .error .bufferOverflow := by
  rw [callParam]
  cases f.getMessage with
  | error e => rfl
  | ok param =>
      simp only [bind, Except.bind, ZdbStatement.prepareStoredProcCall_eq, parseProcParams_eq]
      by_cases hfits : (callText sProcName (parseProcParamsCount param)).length < bufferSize
      · rw [if_pos hfits, if_pos hfits, ← prepareText_eq]
        rfl
      · rw [if_neg hfits, if_neg hfits]

/-- A call that was prepared and bound. -/
lemma callParam_ok {db : Server} {sProcName : ProcName} {f : Field} {s : ZdbStatement}
    (h : callParam db sProcName .new f = .ok (true, s)) :
    ∃ param, f.getMessage = .ok param
      ∧ db.prepares (callText sProcName (parseProcParamsCount param)) = true
      ∧ (leaves param).any Leaf.mistyped = false
      ∧ s = .holding (callText sProcName (parseProcParamsCount param))
          (parseProcParamsCount param) (boundValues (leaves param)) := by
  rw [callParam_eq] at h
  cases hf : f.getMessage with
  | error e =>
      rw [hf] at h
      cases h
  | ok param =>
      rw [hf, Except.bind] at h
      refine ⟨param, rfl, ?_⟩
      by_cases hfits : (callText sProcName (parseProcParamsCount param)).length < bufferSize
      · rw [if_pos hfits] at h
        obtain ⟨hp, hmistyped, -, hs⟩ := prepareText_ok h
        rw [placeholderCount_callText] at hs
        exact ⟨hp, hmistyped, hs⟩
      · rw [if_neg hfits] at h
        cases h

/-- **The call that `ParseProc` prepares** carries the arguments of the message. -/
theorem parseProc_call {pool : Pool} {paramType : Text} {db : Server} {sp : StoredProc}
    {f : MessageField} {param : Message} {s : ZdbStatement}
    (hparam : sp.param? = some (.message f param))
    (htype : HasDecls pool param (pool paramType))
    (hrun : parseProc db .new sp = .ok (true, s)) : IsCall pool paramType s sp param := by
  rw [parseProc_eq, hparam] at hrun
  obtain ⟨param', hget, -, hmistyped, rfl⟩ := callParam_ok hrun
  obtain rfl : param = param' := by
    cases hget
    rfl
  obtain ⟨hslots, hvalues⟩ := boundValues_procArguments hmistyped
  refine ⟨?_, ?_, ⟨(procArguments param).map fun a => a.2.boundValue, ?_, ?_⟩, ?_,
    procArguments_pairwise param⟩
  · rw [length_procArguments]
    rfl
  · rw [length_procArguments]
    exact placeholderCount_callText _ _
  · rw [ZdbStatement.holding,
      ZdbStatement.filled_of_length_eq (length_boundValues_leaves hmistyped), hslots]
  · rw [List.forall₂_map_right_iff, List.forall₂_same]
    intro a ha
    obtain ⟨v, hv⟩ := Option.isSome_iff_exists.mp (hvalues a ha)
    exact ⟨v, hv, value_boundValue hv⟩
  · rintro ⟨path, l⟩ ha
    exact declAt_of_leafAt htype (mem_procArguments.mp ha).1

/-- The places of the arguments determine their order. -/
lemma argumentAt_eq_iff (param param' : Message) :
    (∀ k, argumentAt param k = argumentAt param' k)
      ↔ ∀ path, SetsArgument param path ↔ SetsArgument param' path := by
  have hlist : (∀ k, argumentAt param k = argumentAt param' k)
      ↔ (procArguments param).map Prod.fst = (procArguments param').map Prod.fst := by
    rw [List.ext_getElem?_iff]
    simp only [argumentAt, List.getElem?_map]
  rw [hlist]
  simp only [setsArgument_iff]
  constructor
  · intro h path
    rw [h]
  · exact (procArguments_pairwise param).eq_of_mem_iff (procArguments_pairwise param')

/-- **The positions of the arguments**: for any two messages of a parameter type
the calls have one placeholder for each argument that is set, in declaration
order, and the placeholders of the two calls carry the same declared fields
exactly if the two messages set the same fields. -/
theorem parseProc_positions {pool : Pool} {paramType : Text} {db db' : Server}
    {sp sp' : StoredProc} {f f' : MessageField} {param param' : Message} {s s' : ZdbStatement}
    (hparam : sp.param? = some (.message f param))
    (hparam' : sp'.param? = some (.message f' param'))
    (htype : HasDecls pool param (pool paramType))
    (htype' : HasDecls pool param' (pool paramType))
    (hrun : parseProc db .new sp = .ok (true, s))
    (hrun' : parseProc db' .new sp' = .ok (true, s')) :
    IsCall pool paramType s sp param ∧ IsCall pool paramType s' sp' param'
      ∧ ((placeholderCount s.sql = placeholderCount s'.sql
            ∧ ∀ k, argumentAt param k = argumentAt param' k)
          ↔ ∀ path, SetsArgument param path ↔ SetsArgument param' path) := by
  have hcall := parseProc_call hparam htype hrun
  have hcall' := parseProc_call hparam' htype' hrun'
  refine ⟨hcall, hcall', ?_⟩
  rw [← argumentAt_eq_iff, and_iff_right_iff_imp]
  intro h
  -- the same places are equally many
  have hlist : (procArguments param).map Prod.fst = (procArguments param').map Prod.fst := by
    refine List.ext_getElem?_iff.mpr fun k => ?_
    simpa only [argumentAt, List.getElem?_map] using h k
  rw [hcall.placeholders, hcall'.placeholders, ← List.length_map Prod.fst, hlist, List.length_map]

/-- A procedure with two arguments. -/
def levelProc (idValue levelValue : BitVec 32) : StoredProc where
  procName := ⟨"sp_level".toList, identifier_of_all rfl⟩
  fields := [.message ⟨paramName, none, "level_param".toList⟩ (accountEntity idValue levelValue)]
  distinct := List.nodup_singleton _
  grouped := by simp

/-- Two calls with all arguments set. -/
theorem parseProc_positions_level :
    ∃ s s', parseProc ⟨fun _ => true⟩ .new (levelProc 1 2) = .ok (true, s)
      ∧ parseProc ⟨fun _ => true⟩ .new (levelProc 3 4) = .ok (true, s')
      ∧ placeholderCount s.sql = placeholderCount s'.sql
      ∧ ∀ k, argumentAt (accountEntity 1 2) k = argumentAt (accountEntity 3 4) k := by
  have hrun : parseProc ⟨fun _ => true⟩ .new (levelProc 1 2)
      = .ok (true, .holding (callText (levelProc 1 2).procName 2) 2 [.int 1, .int 2]) := rfl
  have hrun' : parseProc ⟨fun _ => true⟩ .new (levelProc 3 4)
      = .ok (true, .holding (callText (levelProc 3 4).procName 2) 2 [.int 3, .int 4]) := rfl
  have hplaces : (procArguments (accountEntity 1 2)).map Prod.fst
      = (procArguments (accountEntity 3 4)).map Prod.fst := rfl
  refine ⟨_, _, hrun, hrun', (parseProc_positions rfl rfl
    (hasDecls_account 1 2 "level_param".toList) (hasDecls_account 3 4 "level_param".toList)
    hrun hrun').2.2.mpr fun path => ?_⟩
  rw [setsArgument_iff, setsArgument_iff, hplaces]

/-- With the first argument zero the call loses its first placeholder, and the
second argument takes its place. -/
theorem zero_shifts :
    ∃ s s', HasDecls accountPool (accountEntity 1 2) (accountPool "level_param".toList)
      ∧ HasDecls accountPool (accountEntity 0 2) (accountPool "level_param".toList)
      ∧ parseProc ⟨fun _ => true⟩ .new (levelProc 1 2) = .ok (true, s)
      ∧ parseProc ⟨fun _ => true⟩ .new (levelProc 0 2) = .ok (true, s')
      ∧ placeholderCount s.sql ≠ placeholderCount s'.sql
      ∧ argumentAt (accountEntity 1 2) 0 ≠ argumentAt (accountEntity 0 2) 0 := by
  have hrun : parseProc ⟨fun _ => true⟩ .new (levelProc 1 2)
      = .ok (true, .holding (callText (levelProc 1 2).procName 2) 2 [.int 1, .int 2]) := rfl
  have hrun' : parseProc ⟨fun _ => true⟩ .new (levelProc 0 2)
      = .ok (true, .holding (callText (levelProc 0 2).procName 1) 1 [.int 2]) := rfl
  refine ⟨_, _, hasDecls_account 1 2 _, hasDecls_account 0 2 _, hrun, hrun', ?_, by decide⟩
  change placeholderCount (callText _ _) ≠ placeholderCount (callText _ _)
  rw [placeholderCount_callText, placeholderCount_callText]
  omega

end PbEntityDb
