import PbEntityDb.Basic

/-!
The commands of the service: how `CDbService` and `CPbStubExecQueue` build
them and what the handlers in `CPbStubExecQueue::Run` read of them.

* `Call.cmd`: the command that a call of the service puts into the queue.
* `Cmd.entity`: the message that the handler of a command runs on the database,
  and `Cmd.respondCb` the function that gets its response.
* `Call.cmd_wellFormed`: a command knows the thread that waits for it, a thread
  that waits gets the response itself, and the others have it posted.
-/

namespace PbEntityDb.Service

/-- `IDbService::cmd_t::DB_CMD_TYPE`. -/
inductive CmdType where
  | eLoadString | eAddString | eSaveString | eDeleteString
  | eLoad | eAdd | eSave | eDelete
  | spQueryString | spUpdateString | spQuery | spUpdate
  deriving DecidableEq, Repr

/-- A thread of the program that calls the service. -/
abbrev Thread := ℕ

/-- A function that the user hands in, under a name for it. -/
abbrev Callback := ℕ

/-- The functions that stand in `_load_cb` and `_query_cb`. -/
inductive WorkCb where
  /-- `[this](load_cb_t& onResponse, …)`: adds `onResponse` to the trunk queue
  unless it is empty -/
  | post (onResponse : Option Callback)
  /-- `[&vResult]`, `[&strResponse]`: assigns to the variable of the waiting call -/
  | assign (t : Thread)
  deriving DecidableEq, Repr

/-- What a handler hands to the callback. -/
inductive Response where
  | list (vResponse : List Text)
  | text (strResponse : Text)
  | nothing
  deriving DecidableEq, Repr

/-- `IDbService::cmd_t`. A `_dispose_cb` sets the promise of the call that a
thread waits in. -/
structure Cmd (Msg : Type) where
  type : CmdType
  typename : Text := []
  request : Text := []
  tablename : Text := []
  keyList : List Text := []
  pbmsgPtr : Option Msg
  loadCb : Option WorkCb := none
  queryCb : Option WorkCb := none
  disposeCb : Option Thread := none
  deriving DecidableEq, Repr

/-- What the service asks protobuf and the importer. -/
structure Protobuf (Msg : Type) where
  getTypeName : Msg → Text
  /-- `GetDescriptor()->name()` -/
  name : Msg → Text
  serializePartialAsString : Msg → Text
  serializeAsString : Msg → Text
  /-- `GetEntityProto` of a type name and `ParsePartialFromString`: `none` if the
  type is unknown or the text cannot be read -/
  parse : Text → Text → Option Msg

/-- Messages of one type that are their own strings. -/
def Protobuf.plain : Protobuf Text where
  getTypeName _ := "db.Account".toList
  name _ := "Account".toList
  serializePartialAsString m := m
  serializeAsString m := m
  parse _ request := some request

variable {Msg : Type}

/-! ### `CPbStubExecQueue`: the commands -/

namespace ExecQueue

/-- A command about an entity that comes as a string. -/
def addEntityString (type : CmdType) (cb : Option WorkCb) (ename entity sTableName : Text)
    (vKey : List Text) : Cmd Msg where
  type := type
  typename := ename
  request := entity
  tablename := sTableName
  keyList := vKey
  pbmsgPtr := none
  loadCb := cb

def addEntityLoadString (ename entity : Text) (cb : WorkCb) (sTableName : Text)
    (vKey : List Text) : Cmd Msg :=
  addEntityString .eLoadString (some cb) ename entity sTableName vKey

def addEntityAddString (ename entity sTableName : Text) (vKey : List Text) : Cmd Msg :=
  addEntityString .eAddString none ename entity sTableName vKey

def addEntitySaveString (ename entity sTableName : Text) (vKey : List Text) : Cmd Msg :=
  addEntityString .eSaveString none ename entity sTableName vKey

def addEntityDeleteString (ename entity sTableName : Text) (vKey : List Text) : Cmd Msg :=
  addEntityString .eDeleteString none ename entity sTableName vKey

/-- A command about the entity of a thread that waits. -/
def synchronizeEntity (type : CmdType) (cb : Option WorkCb) (t : Thread) (entity : Msg)
    (sTableName : Text) (vKey : List Text) : Cmd Msg where
  type := type
  tablename := sTableName
  keyList := vKey
  pbmsgPtr := some entity
  loadCb := cb
  disposeCb := some t

def synchronizeEntityLoad (t : Thread) (entity : Msg) (sTableName : Text) (vKey : List Text) :
    Cmd Msg :=
  synchronizeEntity .eLoad (some (.assign t)) t entity sTableName vKey

def synchronizeEntityAdd (t : Thread) (entity : Msg) (sTableName : Text) (vKey : List Text) :
    Cmd Msg :=
  synchronizeEntity .eAdd none t entity sTableName vKey

def synchronizeEntitySave (t : Thread) (entity : Msg) (sTableName : Text) (vKey : List Text) :
    Cmd Msg :=
  synchronizeEntity .eSave none t entity sTableName vKey

def synchronizeEntityDelete (t : Thread) (entity : Msg) (sTableName : Text) (vKey : List Text) :
    Cmd Msg :=
  synchronizeEntity .eDelete none t entity sTableName vKey

/-- A command about a stored procedure that comes as a string. -/
def addStoredProcString (type : CmdType) (cb : Option WorkCb) (spname storedProc : Text) :
    Cmd Msg where
  type := type
  typename := spname
  request := storedProc
  pbmsgPtr := none
  queryCb := cb

def addStoredProcQueryString (spname storedProc : Text) (cb : WorkCb) : Cmd Msg :=
  addStoredProcString .spQueryString (some cb) spname storedProc

def addStoredProcUpdateString (spname storedProc : Text) : Cmd Msg :=
  addStoredProcString .spUpdateString none spname storedProc

/-- A command about the stored procedure of a thread that waits. -/
def synchronizeStoredProc (type : CmdType) (cb : Option WorkCb) (t : Thread) (storedProc : Msg) :
    Cmd Msg where
  type := type
  pbmsgPtr := some storedProc
  queryCb := cb
  disposeCb := some t

def synchronizeStoredProcQuery (t : Thread) (storedProc : Msg) : Cmd Msg :=
  synchronizeStoredProc .spQuery (some (.assign t)) t storedProc

def synchronizeStoredProcUpdate (t : Thread) (storedProc : Msg) : Cmd Msg :=
  synchronizeStoredProc .spUpdate none t storedProc

end ExecQueue

/-! ### `CDbService`: the calls -/

/-- `sizeof(chTableName)`. -/
def tableNameSize : ℕ := 1024

/-- `__convert_entity_to_table`: capitals become small letters with an underscore
in front, except at the beginning. The loop stops after 1023 letters of the
name, but the underscores are not counted. -/
def convertEntityToTable (sEntityName : Text) : Except Fault Text :=
  let chTableName := (sEntityName.take (tableNameSize - 1)).zipIdx.flatMap fun (c, i) =>
    if c.isUpper then (if 0 < i then ['_'] else []) ++ [c.toLower] else [c]
  if chTableName.length ≤ tableNameSize then .ok chTableName else .error .bufferOverflow

/-- The check of the table name at the beginning of each call. -/
def checkTableName (pb : Protobuf Msg) (entity : Msg) (sTableName : Text) : Except Fault Text :=
  if sTableName.length ≤ 0 then convertEntityToTable (pb.name entity) else .ok sTableName

/-- A call of `CDbService`. -/
inductive Call (Msg : Type) where
  | entityLoad (entity : Msg) (sTableName : Text) (vKey : List Text)
  | entityAdd (entity : Msg) (sTableName : Text) (vKey : List Text)
  | entitySave (entity : Msg) (sTableName : Text) (vKey : List Text)
  | entityDelete (entity : Msg) (sTableName : Text) (vKey : List Text)
  | entityLoadAsync (entity : Msg) (cb : Option Callback) (sTableName : Text) (vKey : List Text)
  | entityAddAsync (entity : Msg) (sTableName : Text) (vKey : List Text)
  | entitySaveAsync (entity : Msg) (sTableName : Text) (vKey : List Text)
  | entityDeleteAsync (entity : Msg) (sTableName : Text) (vKey : List Text)
  | storedProcQuery (storedProc : Msg)
  | storedProcUpdate (storedProc : Msg)
  | storedProcQueryAsync (storedProc : Msg) (cb : Option Callback)
  | storedProcUpdateAsync (storedProc : Msg)

open ExecQueue in
/-- The command of a call that thread `t` makes. -/
def Call.cmd (pb : Protobuf Msg) (t : Thread) : Call Msg → Except Fault (Cmd Msg)
  | entityLoad entity sTableName vKey => do
      return synchronizeEntityLoad t entity (← checkTableName pb entity sTableName) vKey
  | entityAdd entity sTableName vKey => do
      return synchronizeEntityAdd t entity (← checkTableName pb entity sTableName) vKey
  | entitySave entity sTableName vKey => do
      return synchronizeEntitySave t entity (← checkTableName pb entity sTableName) vKey
  | entityDelete entity sTableName vKey => do
      return synchronizeEntityDelete t entity (← checkTableName pb entity sTableName) vKey
  | entityLoadAsync entity cb sTableName vKey => do
      return addEntityLoadString (pb.getTypeName entity) (pb.serializePartialAsString entity)
        (.post cb) (← checkTableName pb entity sTableName) vKey
  | entityAddAsync entity sTableName vKey => do
      return addEntityAddString (pb.getTypeName entity) (pb.serializePartialAsString entity)
        (← checkTableName pb entity sTableName) vKey
  | entitySaveAsync entity sTableName vKey => do
      return addEntitySaveString (pb.getTypeName entity) (pb.serializePartialAsString entity)
        (← checkTableName pb entity sTableName) vKey
  | entityDeleteAsync entity sTableName vKey => do
      return addEntityDeleteString (pb.getTypeName entity) (pb.serializePartialAsString entity)
        (← checkTableName pb entity sTableName) vKey
  | storedProcQuery storedProc => .ok (synchronizeStoredProcQuery t storedProc)
  | storedProcUpdate storedProc => .ok (synchronizeStoredProcUpdate t storedProc)
  | storedProcQueryAsync storedProc cb =>
      .ok (addStoredProcQueryString (pb.getTypeName storedProc) (pb.serializeAsString storedProc)
        (.post cb))
  | storedProcUpdateAsync storedProc =>
      .ok (addStoredProcUpdateString (pb.getTypeName storedProc) (pb.serializeAsString storedProc))

/-! ### The handlers -/

namespace Cmd

variable (pb : Protobuf Msg) (cmd : Cmd Msg)

/-- The message that the handler runs: the one that the pointer names, or one
that is parsed anew. A string that cannot be parsed runs nothing. -/
def entity : Option Msg :=
  match cmd.type with
  | .eAdd | .eSave | .eDelete | .spUpdate => cmd.pbmsgPtr
  | .eLoad | .spQuery => cmd.pbmsgPtr.bind fun m =>
      pb.parse (pb.getTypeName m) (pb.serializePartialAsString m)
  | .eLoadString | .eAddString | .eSaveString | .eDeleteString | .spQueryString
  | .spUpdateString => pb.parse cmd.typename cmd.request

/-- `vResponse` or `strResponse` at the beginning of the handler. -/
def noResponse : Response :=
  match cmd.type with
  | .eLoadString | .eLoad => .list []
  | .spQueryString | .spQuery => .text []
  | _ => .nothing

/-- The function that the handler calls with its response. -/
def respondCb : Option WorkCb :=
  match cmd.type with
  | .eLoadString | .eLoad => cmd.loadCb
  | .spQueryString | .spQuery => cmd.queryCb
  | _ => none

/-- A thread waits for the command: it comes from a `Synchronize*` function. -/
def sync : Bool := cmd.disposeCb.isSome

/-- The command reads from the database. -/
def reads : Bool :=
  match cmd.type with
  | .eLoadString | .eLoad | .spQueryString | .spQuery => true
  | _ => false

end Cmd

/-- What the commands of thread `t` have in common. -/
structure Cmd.WellFormed (cmd : Cmd Msg) (t : Thread) : Prop where
  owner : ∀ t', cmd.disposeCb = some t' → t' = t
  /-- the handlers that dereference `_pbmsg_ptr` are those of waiting threads -/
  pointer : cmd.sync = cmd.pbmsgPtr.isSome
    ∧ (cmd.sync ↔ cmd.type ∈ [.eLoad, .eAdd, .eSave, .eDelete, .spQuery, .spUpdate])
  respondCb_of_sync : cmd.sync → cmd.respondCb = if cmd.reads then some (.assign t) else none
  respondCb_of_async : ¬ cmd.sync →
    if cmd.reads then ∃ cb, cmd.respondCb = some (.post cb) else cmd.respondCb = none

/-- A response is assigned in the thread that waits for it. -/
lemma Cmd.WellFormed.assign {cmd : Cmd Msg} {t t' : Thread} (h : cmd.WellFormed t)
    (hcb : cmd.respondCb = some (.assign t')) : t' = t ∧ cmd.disposeCb = some t := by
  cases hdispose : cmd.disposeCb with
  | none =>
      have hasync := h.respondCb_of_async (by simp [Cmd.sync, hdispose])
      split at hasync <;> simp [hcb] at hasync
  | some t'' =>
      obtain rfl := h.owner t'' hdispose
      have hsync := h.respondCb_of_sync (by simp [Cmd.sync, hdispose])
      rw [hcb] at hsync
      split at hsync <;> cases hsync
      exact ⟨rfl, rfl⟩

/-- A response is posted if no thread waits for it. -/
lemma Cmd.WellFormed.post {cmd : Cmd Msg} {t : Thread} {cb : Option Callback}
    (h : cmd.WellFormed t) (hcb : cmd.respondCb = some (.post cb)) : cmd.disposeCb = none := by
  cases hdispose : cmd.disposeCb with
  | none => rfl
  | some t' =>
      have hsync := h.respondCb_of_sync (by simp [Cmd.sync, hdispose])
      rw [hcb] at hsync
      split at hsync <;> cases hsync

section WellFormed

variable (t : Thread)

open ExecQueue

lemma synchronizeEntity_wellFormed {type : CmdType} {cb : Option WorkCb}
    (h : (type, cb) ∈ [(CmdType.eLoad, some (.assign t)), (.eAdd, none), (.eSave, none),
      (.eDelete, none)]) (entity : Msg) (sTableName : Text) (vKey : List Text) :
    (synchronizeEntity type cb t entity sTableName vKey).WellFormed t := by
  simp only [List.mem_cons, Prod.mk.injEq, List.not_mem_nil, or_false] at h
  rcases h with ⟨rfl, rfl⟩ | ⟨rfl, rfl⟩ | ⟨rfl, rfl⟩ | ⟨rfl, rfl⟩ <;>
    constructor <;> simp [synchronizeEntity, Cmd.sync, Cmd.respondCb, Cmd.reads]

lemma synchronizeStoredProc_wellFormed {type : CmdType} {cb : Option WorkCb}
    (h : (type, cb) ∈ [(CmdType.spQuery, some (.assign t)), (.spUpdate, none)])
    (storedProc : Msg) : (synchronizeStoredProc type cb t storedProc).WellFormed t := by
  simp only [List.mem_cons, Prod.mk.injEq, List.not_mem_nil, or_false] at h
  rcases h with ⟨rfl, rfl⟩ | ⟨rfl, rfl⟩ <;>
    constructor <;> simp [synchronizeStoredProc, Cmd.sync, Cmd.respondCb, Cmd.reads]

lemma addEntityString_wellFormed {type : CmdType} {cb : Option WorkCb}
    (h : (type = .eLoadString ∧ ∃ onResponse, cb = some (.post onResponse))
      ∨ type ∈ [CmdType.eAddString, .eSaveString, .eDeleteString] ∧ cb = none)
    (ename entity sTableName : Text) (vKey : List Text) :
    (addEntityString type cb ename entity sTableName vKey : Cmd Msg).WellFormed t := by
  simp only [List.mem_cons, List.not_mem_nil, or_false] at h
  rcases h with ⟨rfl, onResponse, rfl⟩ | ⟨rfl | rfl | rfl, rfl⟩ <;>
    constructor <;> simp [addEntityString, Cmd.sync, Cmd.respondCb, Cmd.reads]

lemma addStoredProcString_wellFormed {type : CmdType} {cb : Option WorkCb}
    (h : (type = .spQueryString ∧ ∃ onResponse, cb = some (.post onResponse))
      ∨ type = .spUpdateString ∧ cb = none) (spname storedProc : Text) :
    (addStoredProcString type cb spname storedProc : Cmd Msg).WellFormed t := by
  rcases h with ⟨rfl, onResponse, rfl⟩ | ⟨rfl, rfl⟩ <;>
    constructor <;> simp [addStoredProcString, Cmd.sync, Cmd.respondCb, Cmd.reads]

end WellFormed

/-- Every call builds a command of its own thread. -/
theorem Call.cmd_wellFormed {pb : Protobuf Msg} {t : Thread} {call : Call Msg} {cmd : Cmd Msg}
    (h : call.cmd pb t = .ok cmd) : cmd.WellFormed t := by
  have htable : ∀ {entity sTableName} {build : Text → Cmd Msg},
      (do return build (← checkTableName pb entity sTableName)) = Except.ok cmd →
        (∀ name, (build name).WellFormed t) → cmd.WellFormed t := by
    intro entity sTableName build hok hbuild
    cases hname : checkTableName pb entity sTableName with
    | error f => simp [hname, bind, Except.bind] at hok
    | ok name =>
        rw [hname] at hok
        cases hok
        exact hbuild name
  cases call with
  | entityLoad | entityAdd | entitySave | entityDelete =>
      exact htable h fun name => synchronizeEntity_wellFormed t (by simp) ..
  | entityLoadAsync | entityAddAsync | entitySaveAsync | entityDeleteAsync =>
      exact htable h fun name => addEntityString_wellFormed t (by simp) ..
  | storedProcQuery | storedProcUpdate =>
      cases h
      exact synchronizeStoredProc_wellFormed t (by simp) _
  | storedProcQueryAsync | storedProcUpdateAsync =>
      cases h
      exact addStoredProcString_wellFormed t (by simp) ..

end PbEntityDb.Service
