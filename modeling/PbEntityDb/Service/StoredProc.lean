import PbEntityDb.Proto.Codec

/-!
The way of a message through `CDbService::StoredProcQuery`.

* The functions of the four layers, down to `GetEntityProto`: the request becomes a
  string, the string a message in the cache of the importer, the answer a string
  again, and that string the content of the caller's object. A call whose loop has
  not ended yet gives `none`.
* `intact_iff`: when a call that gets no answer leaves the message as it was.
-/

namespace PbEntityDb.Service

/-! ### `CProtobufImporter` -/

/-- The message types that were imported, and the messages in `_mapEntityProto`. -/
structure ProtobufImporter where
  imported : Text → Bool
  mapEntityProto : Text → Option Message

namespace ProtobufImporter

/-- `CProtobufImporter::GetEntityProto`. -/
def getEntityProto (pool : Pool) (imp : ProtobufImporter) (strEntityName : Text) :
    Option Message :=
  match imp.mapEntityProto strEntityName with
  -- `Clear` makes a new message of the one in the map
  | some _ => some (emptyMessage pool strEntityName)
  | none => if imp.imported strEntityName then some (emptyMessage pool strEntityName) else none

/-- The importer after the message that it gave for a type has become `pProto`. -/
def store (imp : ProtobufImporter) (strEntityName : Text) (pProto : Message) :
    ProtobufImporter where
  imported := imp.imported
  mapEntityProto := Function.update imp.mapEntityProto strEntityName (some pProto)

end ProtobufImporter

/-- What a call meets. -/
structure Setting where
  /-- the build has `_DEBUG` -/
  debug : Bool
  /-- `_done` -/
  done : Bool
  /-- `_callbacks.enqueue` succeeds -/
  enqueued : Bool
  /-- the importer of the thread that takes the command -/
  importer : ProtobufImporter

section Layers

variable {pool : Pool} (codec : Codec pool)

/-- `ParseFromString`. -/
def parseFromString (messageType : Text) (s : codec.Str) : Bool × Message :=
  ((codec.parse messageType s).1 && codec.isInitialized messageType (codec.parse messageType s).2,
    (codec.parse messageType s).2)

/-- The parsing of a request, which depends on the build. -/
def parseRequest (debug : Bool) (messageType : Text) (s : codec.Str) : Bool × Message :=
  if debug then parseFromString codec messageType s else codec.parse messageType s

/-- A request that is accepted is what `ParsePartialFromString` makes of its string. -/
lemma parseRequest_eq {debug : Bool} {messageType : Text} {s : codec.Str}
    (h : (parseRequest codec debug messageType s).1 = true) :
    codec.parse messageType s = (true, (parseRequest codec debug messageType s).2) := by
  cases debug with
  | false => exact Prod.ext h rfl
  | true => exact Prod.ext (Bool.and_eq_true_iff.mp h).1 rfl

variable (c : Setting) (query : Message → Except Fault (Option Message))

/-- `CProtobufDbStub::StoredProcQueryString`, with the stub's `StoredProcQuery` as
`query`. Parsing clears the message that the importer gave. -/
def ProtobufDbStub.storedProcQueryString (strProcName : Text)
    (strStoredProc strResult : codec.Str) :
    Except Fault (Option (codec.Str × ProtobufImporter)) :=
  match c.importer.getEntityProto pool strProcName with
  | none => .ok (some (strResult, c.importer))
  | some _ =>
      let (parsed, pProto) := parseRequest codec c.debug strProcName strStoredProc
      if !parsed then .ok (some (strResult, c.importer.store strProcName pProto))
      else do
        match ← query pProto with
        | none => .ok none
        | some pProto =>
            .ok (some (codec.serialize pProto, c.importer.store strProcName pProto))

/-- `DB_CMD_TYPE_SP_QUERY` in `CPbStubExecQueue::Run`, up to `_query_cb`. -/
def PbStubExecQueue.runSpQuery (sTypeName : Text) (storedProc : Message) :
    Except Fault (Option (codec.Str × ProtobufImporter)) :=
  ProtobufDbStub.storedProcQueryString codec c query sTypeName (codec.serialize storedProc)
    codec.nil

/-- `CPbStubExecQueue::SynchronizeStoredProcQuery`: its result, and what it leaves in
`strResponse` and the importer. It comes back when the command is handled. -/
def PbStubExecQueue.synchronizeStoredProcQuery (messageType : Text) (storedProc : Message)
    (strResponse : codec.Str) : Except Fault (Option (Bool × codec.Str × ProtobufImporter)) :=
  if c.done then .ok (some (false, strResponse, c.importer))
  else if !c.enqueued then .ok (some (false, strResponse, c.importer))
  else do
    match ← PbStubExecQueue.runSpQuery codec c query messageType storedProc with
    | none => .ok none
    | some (response, importer) => .ok (some (true, response, importer))

/-- `CDbService::StoredProcQuery`: the result of `ParsePartialFromString`, which is
dropped, the caller's object behind it, and the importer. -/
def DbService.storedProcQuery (messageType : Text) (storedProc : Message) :
    Except Fault (Option ((Bool × Message) × ProtobufImporter)) := do
  match ← PbStubExecQueue.synchronizeStoredProcQuery codec c query messageType storedProc
      codec.nil with
  | none => .ok none
  | some (_, strResponse, importer) =>
      .ok (some (codec.parse messageType strResponse, importer))

/-! ### Calls without an answer -/

/-- The ways in which a call gets no answer. -/
inductive NoAnswer (messageType : Text) (storedProc : Message) : Prop where
  | finished (hdone : c.done = true)
  | refused (hrefused : c.enqueued = false)
  | unknownType (hcache : c.importer.mapEntityProto messageType = none)
      (htype : c.importer.imported messageType = false)
  | unparsable
      (hparse : (parseRequest codec c.debug messageType (codec.serialize storedProc)).1 = false)

/-- **The message is intact**: the call returns, and the object carries the fields
that it carried before. -/
def Intact (before : Message)
    (out : Except Fault (Option ((Bool × Message) × ProtobufImporter))) : Prop :=
  ∃ parsed after importer, out = .ok (some ((parsed, after), importer))
    ∧ written after = written before

variable {codec c} {messageType : Text} {storedProc : Message}

/-- A handler that finds no type, or cannot read the request, leaves the response as
it was: empty. -/
lemma runSpQuery_nil
    (h : c.importer.getEntityProto pool messageType = none
      ∨ (parseRequest codec c.debug messageType (codec.serialize storedProc)).1 = false) :
    ∃ importer, PbStubExecQueue.runSpQuery codec c query messageType storedProc
      = .ok (some (codec.nil, importer)) := by
  rw [PbStubExecQueue.runSpQuery, ProtobufDbStub.storedProcQueryString]
  cases hproto : c.importer.getEntityProto pool messageType with
  | none => exact ⟨c.importer, rfl⟩
  | some pProto =>
      have hparse := h.resolve_left (by simp [hproto])
      simp only [hparse, Bool.not_false, if_true]
      exact ⟨_, rfl⟩

/-- Every way to get no answer ends with an empty response. -/
lemma synchronizeStoredProcQuery_nil (h : NoAnswer codec c messageType storedProc) :
    ∃ done importer,
      PbStubExecQueue.synchronizeStoredProcQuery codec c query messageType storedProc codec.nil
        = .ok (some (done, codec.nil, importer)) := by
  rw [PbStubExecQueue.synchronizeStoredProcQuery]
  by_cases hdone : c.done = true
  · rw [if_pos hdone]
    exact ⟨false, c.importer, rfl⟩
  · rw [if_neg hdone]
    by_cases hrefused : (!c.enqueued) = true
    · rw [if_pos hrefused]
      exact ⟨false, c.importer, rfl⟩
    · rw [if_neg hrefused]
      -- the command was handled
      have hhandled : c.importer.getEntityProto pool messageType = none
          ∨ (parseRequest codec c.debug messageType (codec.serialize storedProc)).1 = false := by
        cases h with
        | finished h => exact absurd h hdone
        | refused h => simp [h] at hrefused
        | unknownType hcache htype =>
            left
            simp [ProtobufImporter.getEntityProto, hcache, htype]
        | unparsable h => exact .inr h
      obtain ⟨importer, hrun⟩ := runSpQuery_nil query hhandled
      rw [hrun]
      exact ⟨true, importer, rfl⟩

/-- **A call without an answer** empties the object. -/
lemma storedProcQuery_nil (h : NoAnswer codec c messageType storedProc) :
    ∃ importer, DbService.storedProcQuery codec c query messageType storedProc
      = .ok (some ((true, emptyMessage pool messageType), importer)) := by
  obtain ⟨done, importer, hresponse⟩ := synchronizeStoredProcQuery_nil query h
  refine ⟨importer, ?_⟩
  rw [DbService.storedProcQuery, hresponse, ← codec.parse_nil messageType]
  rfl

/-- **Any other call** parses what the query makes of the request. -/
lemma storedProcQuery_eq (h : ¬ NoAnswer codec c messageType storedProc) :
    (parseRequest codec c.debug messageType (codec.serialize storedProc)).1 = true
      ∧ DbService.storedProcQuery codec c query messageType storedProc
        = (query (parseRequest codec c.debug messageType (codec.serialize storedProc)).2).bind
            fun answered => .ok (answered.map fun pProto =>
              (codec.parse messageType (codec.serialize pProto),
                c.importer.store messageType pProto)) := by
  have hdone : c.done = false := by
    by_contra hdone
    exact h (.finished (by simpa using hdone))
  have henqueued : c.enqueued = true := by
    by_contra hrefused
    exact h (.refused (by simpa using hrefused))
  have hparsed :
      (parseRequest codec c.debug messageType (codec.serialize storedProc)).1 = true := by
    by_contra hparse
    exact h (.unparsable (by simpa using hparse))
  have hproto : c.importer.getEntityProto pool messageType ≠ none := by
    intro hnone
    rw [ProtobufImporter.getEntityProto] at hnone
    cases hcache : c.importer.mapEntityProto messageType with
    | some pProto =>
        rw [hcache] at hnone
        cases hnone
    | none =>
        rw [hcache] at hnone
        refine h (.unknownType hcache ?_)
        by_contra htype
        simp [htype] at hnone
  obtain ⟨pProto, hproto⟩ := Option.ne_none_iff_exists'.mp hproto
  refine ⟨hparsed, ?_⟩
  rw [DbService.storedProcQuery, PbStubExecQueue.synchronizeStoredProcQuery, hdone, henqueued,
    PbStubExecQueue.runSpQuery, ProtobufDbStub.storedProcQueryString, hproto]
  simp only [hparsed, Bool.not_true, Bool.false_eq_true, if_false]
  cases query (parseRequest codec c.debug messageType (codec.serialize storedProc)).2 with
  | error e => rfl
  | ok answered => cases answered <;> rfl

/-- **When a call without an answer leaves the message intact**: its empty response is
parsed into the object in any case, so only an empty message stays as it is. -/
theorem intact_iff (h : NoAnswer codec c messageType storedProc) :
    Intact storedProc (DbService.storedProcQuery codec c query messageType storedProc)
      ↔ written storedProc = written (emptyMessage pool messageType) := by
  obtain ⟨importer, hcall⟩ := storedProcQuery_nil query h
  rw [hcall]
  constructor
  · rintro ⟨parsed, after, importer', heq, hwritten⟩
    cases heq
    exact hwritten.symm
  · intro hempty
    exact ⟨true, emptyMessage pool messageType, importer, rfl, hempty.symm⟩

end Layers

/-- The importer of a stub that has opened no file. -/
def ProtobufImporter.empty : ProtobufImporter := ⟨fun _ => false, fun _ => none⟩

/-- An empty message, of a type that is not known. -/
theorem intact_account :
    Intact (emptyMessage accountPool account.chars)
      (DbService.storedProcQuery (.plain accountPool) ⟨false, false, true, .empty⟩
        (fun _ => .ok none) account.chars (emptyMessage accountPool account.chars)) :=
  (intact_iff (fun _ => .ok none) (.unknownType rfl rfl)).mpr rfl

/-- **A message that is lost**: the queue is finished, and the account of the caller
is empty behind the call. -/
theorem account_erased :
    ¬ Intact (accountEntity 1 0)
      (DbService.storedProcQuery (.plain accountPool) ⟨false, true, true, .empty⟩
        (fun _ => .ok none) account.chars (accountEntity 1 0)) := by
  rintro ⟨parsed, after, importer, hcall, hwritten⟩
  have hafter : DbService.storedProcQuery (.plain accountPool) ⟨false, true, true, .empty⟩
      (fun _ => .ok none) account.chars (accountEntity 1 0)
        = .ok (some ((true, emptyMessage accountPool account.chars), .empty)) := rfl
  rw [hafter] at hcall
  cases hcall
  change [Wire.absent, .absent] = [.leaf (.int32 1), .absent] at hwritten
  cases hwritten

end PbEntityDb.Service
