import PbEntityDb.Engine.Bind
import PbEntityDb.Engine.Collect
import PbEntityDb.Sql.Builder

/-!
The four statements of the engine: `ParseSelect`, `ParseInsert`, `ParseUpdate`
and `ParseDelete`.

Each of them lists the columns, has the statement prepared, and binds the
values of the fields in a second walk over the entity. `ParsePath.statement` is
the statement that comes out of the lists, `ParsePath.params` the leaves whose
values are bound, and `ParsePath.parse_eq` says how the two meet.
-/

namespace PbEntityDb

/-! ### Binding an entity -/

/-- `Protobuf2DbEngine::ParseEntityParams`: first the set columns, then the keys. -/
def parseEntityParams (pS : ZdbStatement) (pParams : Message) (vInKey vSet : List Name) :
    Except Fault ZdbStatement :=
  let (vKeyParam, vSetParam) := collectEntityInputParams vInKey vSet pParams ([], [])
  addInputParams pS (vSetParam ++ vKeyParam)

/-- `Protobuf2DbEngine::ParseInsertParams`: first the keys, then the set columns. -/
def parseInsertParams (pS : ZdbStatement) (pParams : Message) (vInKey vSet : List Name) :
    Except Fault ZdbStatement :=
  let (vKeyParam, vSetParam) := collectEntityInputParams vInKey vSet pParams ([], [])
  addInputParams pS (vKeyParam ++ vSetParam)

/-! ### The four functions -/

section Parse

variable (db : Server) (pOutS : ZdbStatement) (entity : Message) (sTableName : Name)
  (vInKey : List Name)

/-- `Protobuf2DbEngine::ParseSelect`. -/
def parseSelect : Except Fault (Bool × ZdbStatement) := do
  let vValidKey := validateKey vInKey entity []
  let (prepared, s) ← pOutS.prepareSelect db sTableName vValidKey
  if !prepared then .ok (false, s)
  else
    let s ← parseEntityParams s entity vValidKey []
    .ok (true, s)

/-- `Protobuf2DbEngine::ParseInsert`. -/
def parseInsert : Except Fault (Bool × ZdbStatement) := do
  let vSet := collectEntitySetFields vInKey entity []
  let (prepared, s) ← pOutS.prepareInsert db sTableName vInKey vSet
  if !prepared then .ok (false, s)
  else
    let s ← parseInsertParams s entity vInKey vSet
    .ok (true, s)

/-- `Protobuf2DbEngine::ParseUpdate`. -/
def parseUpdate (bHackInsert : Bool) : Except Fault (Bool × ZdbStatement) := do
  let vSet := collectEntitySetFields vInKey entity []
  if bHackInsert then
    let (prepared, s) ← pOutS.prepareInsert db sTableName vInKey vSet
    if !prepared then .ok (false, s)
    else
      let s ← parseInsertParams s entity vInKey vSet
      .ok (true, s)
  else if 0 < vSet.length then
    let (prepared, s) ← pOutS.prepareUpdate db sTableName vInKey vSet
    if !prepared then .ok (false, s)
    else
      let s ← parseEntityParams s entity vInKey vSet
      .ok (true, s)
  else
    -- "set is empty, nothing to update": only a message on stderr
    .ok (true, pOutS)

/-- `Protobuf2DbEngine::ParseDelete`. -/
def parseDelete : Except Fault (Bool × ZdbStatement) := do
  let (prepared, s) ← pOutS.prepareDelete db sTableName vInKey
  if !prepared then .ok (false, s)
  else
    let s ← parseEntityParams s entity vInKey []
    .ok (true, s)

end Parse

/-! ### Paths -/

/-- The ways in which an entity is written. -/
inductive WritePath where
  | insert
  | update (bHackInsert : Bool)
  | delete
  deriving DecidableEq, Repr

/-- The functions that make a statement of an entity. -/
inductive ParsePath where
  | select
  | write (w : WritePath)
  deriving DecidableEq, Repr

/-- The names of the columns that are set: the leaves that are no keys. -/
def setNames (vInKey : List Name) (entity : Message) : List Name :=
  (setLeaves vInKey entity).map Leaf.name

namespace ParsePath

/-- The function of a path, on a statement as its callers construct it. -/
def parse (db : Server) (entity : Message) (sTableName : Name) (vInKey : List Name) :
    ParsePath → Except Fault (Bool × ZdbStatement)
  | select => parseSelect db .new entity sTableName vInKey
  | write .insert => parseInsert db .new entity sTableName vInKey
  | write (.update bHackInsert) => parseUpdate db .new entity sTableName vInKey bHackInsert
  | write .delete => parseDelete db .new entity sTableName vInKey

/-- The statement of a path; an update that sets nothing has none. -/
def statement (entity : Message) (vInKey : List Name) : ParsePath → Option Statement
  | select => some (.select (validateKey vInKey entity []))
  | write .insert => some (.insert vInKey (setNames vInKey entity))
  | write (.update true) => some (.insert vInKey (setNames vInKey entity))
  | write (.update false) =>
      if setLeaves vInKey entity = [] then none
      else some (.update vInKey (setNames vInKey entity))
  | write .delete => some (.delete vInKey)

/-- An update sets some column. -/
lemma statement_update {entity : Message} {vInKey : List Name} {st : Statement}
    (h : (write (.update false)).statement entity vInKey = some st) :
    setLeaves vInKey entity ≠ [] ∧ st = .update vInKey (setNames vInKey entity) := by
  rw [statement] at h
  split_ifs at h with hset
  exact ⟨hset, (Option.some.inj h).symm⟩

/-- The leaves that are bound, in their order. -/
def params (entity : Message) (vInKey : List Name) : ParsePath → List Leaf
  | select => leavesNamed (validateKey vInKey entity []) entity
  | write .insert => keyLeaves vInKey entity ++ setLeaves vInKey entity
  | write (.update true) => keyLeaves vInKey entity ++ setLeaves vInKey entity
  | write (.update false) => setLeaves vInKey entity ++ keyLeaves vInKey entity
  | write .delete => keyLeaves vInKey entity

/-! ### What the functions do -/

/-- A statement prepared and bound. -/
def prepareAndBind (db : Server) (sTableName : Name) (st : Statement) (ls : List Leaf) :
    Except Fault (Bool × ZdbStatement) :=
  if st.Fits then
    if db.prepares (st.sent sTableName) then
      (addInputParams
        (.holding (st.sent sTableName) (placeholderCount (st.sent sTableName)) []) ls).map
          fun s => (true, s)
    else .ok (false, { ZdbStatement.new with sql := st.sent sTableName })
  else .error .bufferOverflow

lemma prepareAndBind_eq (db : Server) (sTableName : Name) (st : Statement) (ls : List Leaf) :
    prepareAndBind db sTableName st ls
      = if st.Fits then prepareText db (st.sent sTableName) ls else .error .bufferOverflow := rfl

/-- A statement that comes out prepared and bound. -/
lemma prepareAndBind_ok {db : Server} {sTableName : Name} {st : Statement} {ls : List Leaf}
    {s : ZdbStatement} (h : prepareAndBind db sTableName st ls = .ok (true, s)) :
    st.Fits ∧ db.prepares (st.sent sTableName) = true ∧ ls.any Leaf.mistyped = false
      ∧ (boundValues ls).length ≤ placeholderCount (st.sent sTableName)
      ∧ s = .holding (st.sent sTableName) (placeholderCount (st.sent sTableName))
          (boundValues ls) := by
  rw [prepareAndBind_eq] at h
  by_cases hfits : st.Fits
  · rw [if_pos hfits] at h
    exact ⟨hfits, prepareText_ok h⟩
  · rw [if_neg hfits] at h
    cases h

/-- The common shape of the four functions. -/
lemma prepare_then_bind (db : Server) (sTableName : Name) (st : Statement) (ls : List Leaf) :
    (do
      let (prepared, s) ← st.prepare db .new sTableName
      if !prepared then .ok (false, s)
      else
        let s ← addInputParams s ls
        .ok (true, s)) = prepareAndBind db sTableName st ls := by
  rw [Statement.prepare_eq, prepareAndBind_eq]
  by_cases hfits : st.Fits
  · rw [if_pos hfits, if_pos hfits, ← prepareText_eq]
  · rw [if_neg hfits, if_neg hfits]
    rfl

lemma parseEntityParams_eq (s : ZdbStatement) (entity : Message) (names : List Name) :
    parseEntityParams s entity names [] = addInputParams s (leavesNamed names entity) := by
  rw [parseEntityParams, collectEntityInputParams_eq, leavesNamed_nil]
  rfl

lemma collectEntitySetFields_nil (vInKey : List Name) (entity : Message) :
    collectEntitySetFields vInKey entity [] = setNames vInKey entity :=
  collectEntitySetFields_eq vInKey entity []

/-- The second walk with the set columns of the first one. -/
lemma collectEntityInputParams_setNames (vInKey : List Name) (entity : Message) :
    collectEntityInputParams vInKey (setNames vInKey entity) entity ([], [])
      = (keyLeaves vInKey entity, setLeaves vInKey entity) := by
  rw [← collectEntitySetFields_nil, collectEntityInputParams_setFields]

/-- **What the four functions do**: they prepare the statement of their path
and bind its leaves. -/
theorem parse_eq (db : Server) (entity : Message) (sTableName : Name) (vInKey : List Name)
    (p : ParsePath) :
    p.parse db entity sTableName vInKey
      = match p.statement entity vInKey with
        | none => .ok (true, .new)
        | some st => prepareAndBind db sTableName st (p.params entity vInKey) := by
  have hinsert : parseInsert db .new entity sTableName vInKey
      = prepareAndBind db sTableName (.insert vInKey (setNames vInKey entity))
          (keyLeaves vInKey entity ++ setLeaves vInKey entity) := by
    rw [← prepare_then_bind, parseInsert, collectEntitySetFields_nil]
    simp only [parseInsertParams, collectEntityInputParams_setNames]
    rfl
  rcases p with _ | (_ | (_ | _) | _)
  · change parseSelect db .new entity sTableName vInKey = prepareAndBind db sTableName _ _
    rw [← prepare_then_bind, parseSelect]
    simp only [parseEntityParams_eq]
    rfl
  · exact hinsert
  · rw [parse, statement, params, parseUpdate, collectEntitySetFields_nil]
    by_cases hset : setLeaves vInKey entity = []
    · simp [hset, setNames]
    · have hpos : 0 < (setNames vInKey entity).length := by
        rw [setNames, List.length_map]
        exact List.length_pos_of_ne_nil hset
      rw [if_neg hset, if_neg (by simp), if_pos hpos]
      change _ = prepareAndBind db sTableName _ _
      rw [← prepare_then_bind]
      simp only [parseEntityParams, collectEntityInputParams_setNames]
      rfl
  · exact hinsert
  · change parseDelete db .new entity sTableName vInKey = prepareAndBind db sTableName _ _
    rw [← prepare_then_bind, parseDelete]
    simp only [parseEntityParams_eq]
    rfl

end ParsePath

end PbEntityDb
