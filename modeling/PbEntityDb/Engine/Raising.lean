import PbEntityDb.Engine.Isolation
import PbEntityDb.Engine.Proc
import PbEntityDb.Engine.Execute

/-!
Reads in which calls of libzdb raise an exception: `ESelect` and `SpQuery`.

* A `Schedule` says of each call of libzdb whether it raises. Preparing,
  executing and the accessors by name stand inside a `TRY`; the wrapper of an
  accessor leaves the variable as it was initialised, and its caller ignores
  the `false`. Binding, `MoveNext`, the accessors by index and
  `HasMoreResultSets` have no `TRY`.
* The functions of this file are those of the engine with such calls; they stand
  in the namespace `Raising` under the names that they have without them. Where
  no call raises, the walks over a record are those of `Engine.Read`
  (`Raising.addFirstReturnRecord_quiet`, `Raising.addReturnRecord_quiet`).
-/

namespace PbEntityDb

/-- The calls of libzdb that a read makes. Rows and parameters are counted from
zero, and a column is named by the place of its field in the record. -/
inductive Point where
  /-- `Connection_prepareStatement` -/
  | prepare
  /-- `PreparedStatement_set*` -/
  | bind (k : ℕ)
  /-- `PreparedStatement_executeQuery` and what follows it in `Exec` -/
  | execute
  /-- `ResultSet_next` -/
  | next (set row : ℕ)
  /-- `ResultSet_get*ByName` in the first row, `ResultSet_get*` in the others -/
  | column (set row : ℕ) (path : List ℕ)
  /-- `ResultSet_nextResultSet` -/
  | nextResultSet (set : ℕ)
  deriving DecidableEq, Repr

/-- The calls that raise an exception. -/
abbrev Schedule := Point → Bool

/-- The schedule in which no call raises. -/
def Schedule.quiet : Schedule := fun _ => false

/-- The database in a schedule: an exception while a statement is prepared is
caught, and the statement counts as not prepared. -/
def Schedule.server (sch : Schedule) (db : Server) : Server :=
  ⟨fun sql => db.prepares sql && !sch .prepare⟩

namespace Raising

/-! ### Binding -/

/-- One of the `AddInput*Parameter` functions. -/
def addInputParameter (raises : ℕ → Bool) (s : ZdbStatement) (v : BoundValue) :
    Except Fault ZdbStatement :=
  if raises s.inParamIndex then .error .sqlException else s.addInputParameter v

/-- The loop over the collected parameters. -/
def addInputParams (raises : ℕ → Bool) : ZdbStatement → List Leaf → Except Fault ZdbStatement
  | s, [] => .ok s
  | s, it :: vInParam => do
      match ← it.inputValue with
      | none => addInputParams raises s vInParam
      | some v =>
          let s ← addInputParameter raises s v
          addInputParams raises s vInParam

/-- `Protobuf2DbEngine::ParseSelect`. -/
def parseSelect (sch : Schedule) (db : Server) (entity : Message) (sTableName : Name)
    (vInKey : List Name) : Except Fault (Bool × ZdbStatement) := do
  let vValidKey := validateKey vInKey entity []
  let (prepared, s) ← ZdbStatement.new.prepareSelect (sch.server db) sTableName vValidKey
  if !prepared then .ok (false, s)
  else
    let (vKeyParam, vSetParam) := collectEntityInputParams vValidKey [] entity ([], [])
    let s ← addInputParams (fun k => sch (.bind k)) s (vSetParam ++ vKeyParam)
    .ok (true, s)

/-- The loop of `ParseProc`. -/
def parseProcLoop (sch : Schedule) (db : Server) (sProcName : ProcName) :
    List Field → ZdbStatement → Except Fault (Bool × ZdbStatement)
  | [], pOutS => .ok (true, pOutS)
  | f :: rest, pOutS =>
      if f.isPresent && f.name = paramName then do
        let param ← f.getMessage
        let (prepared, s) ←
          pOutS.prepareStoredProcCall (sch.server db) sProcName (parseProcParamsCount param)
        if !prepared then .ok (false, s)
        else
          let s ← addInputParams (fun k => sch (.bind k)) s (collectProcInputParams param [])
          parseProcLoop sch db sProcName rest s
      else parseProcLoop sch db sProcName rest pOutS

/-! ### A record -/

section Walks

variable (pool : Pool) (stray : Stray) (row : List Column)

/-- The loop of `AddFirstReturnRecord`. The accessor finds the index of the
column before it raises, and the wrapper catches the exception. -/
def firstLoop
    (sub : Text → (List ℕ → Bool) → Message → ReadState → Except Fault (Message × ReadState))
    (raises : List ℕ → Bool) :
    List FieldDecl → ℕ → Message → ℕ → ReadState → Except Fault (Message × ReadState)
  | [], _, record, _, st => .ok (record, st)
  | .leaf d :: ds, i, record, nFieldIndex, st =>
      match readValue stray d (if raises [i] then none else cellNamed row d.name.chars) with
      | none => do
          let st ← storeIndex st nFieldIndex
          firstLoop sub raises ds (i + 1) record nFieldIndex st
      | some v => do
          let nFieldIndex := (getIndex row d.name.chars).getD nFieldIndex
          let f ← setter d v
          let st ← storeIndex st nFieldIndex
          firstLoop sub raises ds (i + 1) (setAt i f record) nFieldIndex st
  | .message f :: ds, i, record, nFieldIndex, st => do
      let (pSub, st) ← sub f.messageType (fun path => raises (i :: path))
        (mutableMessage pool i f record) st
      let st ← storeIndex st nFieldIndex
      firstLoop sub raises ds (i + 1) (setAt i (.message f pSub) record) nFieldIndex st
  | .repeated _ :: ds, i, record, nFieldIndex, st =>
      firstLoop sub raises ds (i + 1) record nFieldIndex st
  | .repeatedMessage _ :: ds, i, record, nFieldIndex, st =>
      firstLoop sub raises ds (i + 1) record nFieldIndex st

/-- `Protobuf2DbEngine::AddFirstReturnRecord`. -/
def addFirstReturnRecord : ℕ → Text → (List ℕ → Bool) → Message → ReadState →
    Except Fault (Message × ReadState)
  | 0, _, _, _, _ => .error .stackOverflow
  | stack + 1, messageType, raises, oneRecord, st =>
      firstLoop pool stray row (addFirstReturnRecord stack) raises (pool messageType) 0 oneRecord 0
        st

/-- The accessors by index. -/
def cellAt (raises : Bool) (nField : ℕ) : Except Fault Native :=
  if raises then .error .sqlException else PbEntityDb.cellAt row nField

/-- The loop of `AddReturnRecord`. -/
def returnLoop
    (sub : Text → (List ℕ → Bool) → Message → ReadState → Except Fault (Message × ReadState))
    (raises : List ℕ → Bool) :
    List FieldDecl → ℕ → Message → ReadState → Except Fault (Message × ReadState)
  | [], _, record, st => .ok (record, st)
  | .leaf d :: ds, i, record, st =>
      if d.isRead then
        match st.arrIndex[st.nIndex]? with
        | none => .error .bufferOverflow
        | some nField => do
            let cell ← cellAt row (raises [i]) nField
            match readValue stray d (some cell) with
            | none => returnLoop sub raises ds (i + 1) record ⟨st.arrIndex, st.nIndex + 1⟩
            | some v => do
                let f ← setter d v
                returnLoop sub raises ds (i + 1) (setAt i f record) ⟨st.arrIndex, st.nIndex + 1⟩
      else returnLoop sub raises ds (i + 1) record ⟨st.arrIndex, st.nIndex + 1⟩
  | .message f :: ds, i, record, st => do
      let (pSub, st) ← sub f.messageType (fun path => raises (i :: path))
        (mutableMessage pool i f record) st
      returnLoop sub raises ds (i + 1) (setAt i (.message f pSub) record)
        ⟨st.arrIndex, st.nIndex + 1⟩
  | .repeated _ :: ds, i, record, st => returnLoop sub raises ds (i + 1) record st
  | .repeatedMessage _ :: ds, i, record, st => returnLoop sub raises ds (i + 1) record st

/-- `Protobuf2DbEngine::AddReturnRecord`. -/
def addReturnRecord : ℕ → Text → (List ℕ → Bool) → Message → ReadState →
    Except Fault (Message × ReadState)
  | 0, _, _, _, _ => .error .stackOverflow
  | stack + 1, messageType, raises, oneRecord, st =>
      returnLoop pool stray row (addReturnRecord stack) raises (pool messageType) 0 oneRecord st

end Walks

/-! ### A result set -/

section Rows

variable (pool : Pool) (stray : Stray) (stack : ℕ) (sch : Schedule) (set : ℕ)

/-- `MoveNext`. -/
def moveNext (row : ℕ) : Except Fault Unit :=
  if sch (.next set row) then .error .sqlException else .ok ()

/-- The rows behind the first one: `start` is the record that a row is read into,
made from the record of the row before. -/
def moreRecords (start : Message → Message) (messageType : Text) (arrIndex : List ℕ) :
    ℕ → Message → List (List Column) → Except Fault (List Message)
  | k, _, [] => do
      let _ ← moveNext sch set k
      .ok []
  | k, record, row :: rows => do
      let _ ← moveNext sch set k
      let (record, _) ← addReturnRecord pool stray row stack messageType
        (fun path => sch (.column set k path)) (start record) ⟨arrIndex, 0⟩
      let records ← moreRecords start messageType arrIndex (k + 1) record rows
      .ok (record :: records)

/-- What `ParseEntityResult` and `ParseProcResult` have in common: the records that
are read of the rows. -/
def readRows (start : Message → Message) (messageType : Text) (record : Message) :
    List (List Column) → Except Fault (List Message)
  | [] => do
      let _ ← moveNext sch set 0
      -- the `while` asks once more
      moreRecords pool stray stack sch set start messageType [] 1 record []
  | row :: rows => do
      let _ ← moveNext sch set 0
      let (record, st) ← addFirstReturnRecord pool stray row stack messageType
        (fun path => sch (.column set 0 path)) (start record) .start
      let records ←
        moreRecords pool stray stack sch set start messageType st.arrIndex 1 record rows
      .ok (record :: records)

/-- `Protobuf2DbEngine::ParseEntityResult`: all rows are read into the entity. -/
def parseEntityResult (messageType : Text) (record : Message) (rows : List (List Column)) :
    Except Fault (List Message) :=
  readRows pool stray stack sch set id messageType record rows

/-- `Protobuf2DbEngine::ParseProcResult`: `AddMessage` appends a new record for each
row; for a field that is not a repeated message it aborts. -/
def parseProcResult (field : Field) (rows : List (List Column)) : Except Fault Field :=
  match field with
  | .repeatedMessage f elems => do
      let records ← readRows pool stray stack sch set (fun _ => emptyMessage pool f.messageType)
        f.messageType [] rows
      .ok (.repeatedMessage f (elems ++ records))
  | _ => do
      let _ ← moveNext sch set 0
      match rows with
      | [] => do
          let _ ← moveNext sch set 1
          .ok field
      | _ :: _ => .error .typeMismatch

end Rows

/-! ### The two reads -/

/-- What `ESelect` and `SpQuery` have in common: `before` is what the caller handed
in, and `read` what is left there behind the result sets. -/
def query {α : Type} (parse : Except Fault (Bool × ZdbStatement)) (raises : Bool) (before : α)
    (read : Except Fault α) : Except Fault (Bool × α) := do
  let (parsed, s) ← parse
  if !parsed then .ok (false, before)
  else
    let executed ← s.exec raises
    if !executed then .ok (false, before)
    else
      let after ← read
      .ok (true, after)

section Reads

variable (pool : Pool) (stray : Stray) (stack : ℕ) (sch : Schedule) (db : Server)

/-- `Protobuf2DbEngine::ESelect`: `vResult` and the records of the rows behind it. -/
def eSelect (messageType : Text) (entity : Message) (vResult : List Message) (sTableName : Name)
    (vInKey : List Name) (rs : ResultSet) : Except Fault (Bool × List Message) :=
  query (parseSelect sch db entity sTableName vInKey) (sch .execute) vResult do
    let records ← parseEntityResult pool stray stack sch 0 messageType entity rs.rows
    .ok (vResult ++ records)

/-- The name of the field for the rows of one result set. -/
def returnRecordList : Name := ⟨"return_record_list".toList, List.all_eq_true.mp rfl⟩

/-- The name of the field for the rows of several result sets. -/
def returnRecordsets : Name := ⟨"return_recordsets".toList, List.all_eq_true.mp rfl⟩

/-- `Descriptor::FindFieldByName`: the index of the field. -/
def findFieldByName (m : Message) (name : Name) : Option ℕ := m.findIdx? fun f => f.name = name

/-- The loop over the fields of `return_recordsets`. -/
def parseRecordsets : ℕ → List Field → ResultSet → List ResultSet → Except Fault (List Field)
  | _, [], _, _ => .ok []
  | set, f :: fields, rs, more => do
      let f ← parseProcResult pool stray stack sch set f rs.rows
      if sch (.nextResultSet set) then .error .sqlException
      else match more with
        | [] => .ok (f :: fields)
        | rs :: more => do
            let fields ← parseRecordsets (set + 1) fields rs more
            .ok (f :: fields)

/-- The message field that `MutableMessage` is called for; for any other field it
aborts. -/
def mutableField : Field → Except Fault MessageField
  | .unset f => .ok f
  | .message f _ => .ok f
  | _ => .error .typeMismatch

/-- The result sets of a call: `rs` is the current one, `more` are those behind it. -/
def parseResultSets (storedProc : Message) (rs : ResultSet) (more : List ResultSet) :
    Except Fault Message :=
  match findFieldByName storedProc returnRecordList with
  | some i =>
      match storedProc[i]? with
      | none => .ok storedProc
      | some field => do
          let field ← parseProcResult pool stray stack sch 0 field rs.rows
          .ok (storedProc.set i field)
  | none =>
      match findFieldByName storedProc returnRecordsets with
      | none => .ok storedProc
      | some i =>
          match storedProc[i]? with
          | none => .ok storedProc
          | some field => do
              let f ← mutableField field
              let sub ← parseRecordsets pool stray stack sch 0 (subMessage pool f field) rs more
              .ok (setAt i (.message f sub) storedProc)

/-- `Protobuf2DbEngine::SpQuery`. -/
def spQuery (sProcName : ProcName) (storedProc : Message) (rs : ResultSet) (more : List ResultSet) :
    Except Fault (Bool × Message) :=
  query (parseProcLoop sch db sProcName storedProc .new) (sch .execute) storedProc
    (parseResultSets pool stray stack sch storedProc rs more)

end Reads

end Raising

end PbEntityDb
