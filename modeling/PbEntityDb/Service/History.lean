import PbEntityDb.Engine.Attempts
import PbEntityDb.Library.Runs
import PbEntityDb.Service.Fresh

/-!
The message cache of `CProtobufDbStub` over a history of calls.

* `Message.clear` is `Clear`. An `ObjectCodec` parses a string into an object, and
  may keep what it finds there.
* `History.ProtobufDbStub` and its six calls: they take the one message of a type from
  the cache, parse their request into it, and use it for the rows and for the answer.
  A call comes back with what it sent to the database and with its response.
* `Sound` is the invariant of the cache: its messages are of imported types, and have
  the fields of their types.
* `history_independent`: behind any history, a call does what it does on a new stub.
* `storedProcQueryString_eq`: without objects, the query is that of `Service.Fresh`.
-/

namespace PbEntityDb

/-! ### `Clear` -/

/-- The field of a message that was cleared. -/
def Field.clear : Field → Field
  | leaf l => .leaf l.field.unset
  | unset f => .unset f
  | message f _ => .unset f
  | repeated name _ => .repeated name []
  | repeatedMessage f _ => .repeatedMessage f []

/-- `Message::Clear`. -/
def Message.clear (m : Message) : Message := m.map Field.clear

section Clear

variable {pool : Pool}

lemma Field.HasDecl.clear_eq {f : Field} {d : FieldDecl} (h : f.HasDecl pool d) :
    f.clear = d.empty := by
  cases f with
  | leaf l => rw [Field.HasDecl] at h; rw [h]; rfl
  | unset f => rw [Field.HasDecl] at h; rw [h]; rfl
  | message f sub => rw [Field.HasDecl] at h; rw [h.1]; rfl
  | repeated name values => rw [Field.HasDecl] at h; rw [h]; rfl
  | repeatedMessage f elems => rw [Field.HasDecl] at h; rw [h]; rfl

/-- **A cleared message** is like a new one of its type. -/
lemma clear_of_hasDecls {m : Message} {messageType : Text}
    (h : HasDecls pool m (pool messageType)) : Message.clear m = emptyMessage pool messageType := by
  rw [Message.clear, emptyMessage]
  generalize pool messageType = ds at h
  induction m generalizing ds with
  | nil =>
      rw [HasDecls] at h
      rw [h, List.map_nil, List.map_nil]
  | cons f m ih =>
      rw [HasDecls] at h
      obtain ⟨d, ds, rfl, hf, hm⟩ := h
      rw [List.map_cons, List.map_cons, hf.clear_eq, ih ds hm]

end Clear

/-! ### Strings and objects -/

/-- The strings of the messages of a pool, with the objects that they are parsed into. -/
structure ObjectCodec (pool : Pool) where
  /-- the strings -/
  Str : Type
  /-- `SerializeAsString` and `SerializeToString` -/
  serialize : Message → Str
  /-- `ParsePartialFromString` for a cleared object of a type: its result, and the
  object behind it -/
  parsePartialFromString : Text → Message → Str → Bool × Message
  /-- `IsInitialized`, which `ParseFromString` demands besides -/
  isInitialized : Text → Message → Bool
  typed : ∀ messageType m s, HasDecls pool m (pool messageType) →
    HasDecls pool (parsePartialFromString messageType m s).2 (pool messageType)

/-- The strings of a codec, which parses into an empty object. -/
abbrev Codec.toObject {pool : Pool} (codec : Codec pool) : ObjectCodec pool where
  Str := codec.Str
  serialize := codec.serialize
  parsePartialFromString messageType _ s := codec.parse messageType s
  isInitialized := codec.isInitialized
  typed messageType _ s _ := codec.typed messageType s

/-- A field that is merged into another one: what is not written keeps its value. -/
def mergeField (f f' : Field) : Field :=
  match f'.written with
  | .absent => f
  | _ => f'

lemma hasDecls_merge {pool : Pool} : ∀ {m m' : Message} {ds : List FieldDecl}, HasDecls pool m ds →
    HasDecls pool m' ds → HasDecls pool (List.zipWith mergeField m m') ds
  | [], m', ds, hm, hm' => by
      rw [HasDecls] at hm
      rw [List.zipWith_nil_left, hm, HasDecls]
  | f :: m, m', ds, hm, hm' => by
      rw [HasDecls] at hm
      obtain ⟨d, ds, rfl, hf, hm⟩ := hm
      cases m' with
      | nil =>
          rw [HasDecls] at hm'
          cases hm'
      | cons f' m' =>
          obtain ⟨hf', hm'⟩ := hasDecls_cons.mp hm'
          refine hasDecls_cons.mpr ⟨?_, hasDecls_merge hm hm'⟩
          rw [mergeField]
          split
          · exact hf
          · exact hf'

/-- Strings that are what is written. What they do not have is left in the object, and
so is everything if they cannot be read. -/
def ObjectCodec.merging (pool : Pool) : ObjectCodec pool where
  Str := List Wire
  serialize := written
  parsePartialFromString messageType m s :=
    if s.isEmpty then (true, m)
    else
      match readFields pool (pool messageType) s with
      | some m' => (true, List.zipWith mergeField m m')
      | none => (false, m)
  isInitialized _ _ := true
  typed messageType m s hm := by
    split
    · exact hm
    · split
      · rename_i m' hread
        exact hasDecls_merge hm (readFields_sound s hread).1
      · exact hm

namespace Service.History

/-! ### The stub -/

/-- `CProtobufDbStub`: `_opened` of its engine, and its importer. -/
structure ProtobufDbStub where
  opened : Bool
  importer : ProtobufImporter

/-- A stub that was just constructed, with the types that its files declare. -/
def ProtobufDbStub.new (opened : Bool) (imported : Text → Bool) : ProtobufDbStub where
  opened := opened
  importer := ⟨imported, fun _ => none⟩

namespace ProtobufDbStub

/-- The stub after the message that it gave for a type has become `pProto`. -/
def store (stub : ProtobufDbStub) (strEntityName : Text) (pProto : Message) : ProtobufDbStub where
  opened := stub.opened
  importer := stub.importer.store strEntityName pProto

@[simp] lemma store_opened (stub : ProtobufDbStub) (strEntityName : Text) (pProto : Message) :
    (stub.store strEntityName pProto).opened = stub.opened := rfl

@[simp] lemma store_imported (stub : ProtobufDbStub) (strEntityName : Text) (pProto : Message) :
    (stub.store strEntityName pProto).importer.imported = stub.importer.imported := rfl

end ProtobufDbStub

/-- What the database answers in one round of a loop: the exceptions, what it
prepares, and the result sets. -/
structure Round where
  sch : Schedule
  db : Server
  rs : ResultSet
  more : List ResultSet

/-- What a `Parse*` function made of a message: the text of the statement and the values
that were bound. -/
abbrev Sent := Except Fault (Bool × ZdbStatement)

/-- The loop of `EntityLoad`, `EntityAdd` and so on: `attempt` is one call of the engine,
with the statement that it prepares. The result is `none` while the loop goes on. -/
def attemptLoop {α : Type} (opened : Bool) (attempt : Round → α → Sent × Except Fault (Bool × α)) :
    List Round → α → List Sent × Except Fault (Option α)
  | rounds, a =>
      if !opened then ([], .ok (some a))
      else
        match rounds with
        | [] => ([], .ok none)
        | round :: rounds =>
            let (sent, result) := attempt round a
            match result with
            | .error e => ([sent], .error e)
            | .ok (true, a) => ([sent], .ok (some a))
            | .ok (false, a) =>
                let (more, result) := attemptLoop opened attempt rounds a
                (sent :: more, result)

/-- What a call does: what it sends to the database, and its response with the stub
behind it. -/
structure Effect (α : Type) where
  sent : List Sent
  result : Except Fault (Option (α × ProtobufDbStub))

namespace Effect

variable {α β : Type}

/-- The response without the stub. -/
def response (e : Effect α) : Except Fault (Option α) := e.result.map (Option.map Prod.fst)

/-- The response in another form. -/
def map (g : α → β) (e : Effect α) : Effect β where
  sent := e.sent
  result := e.result.map (Option.map (Prod.map g id))

/-- The database and the caller see the same. -/
structure Agrees (e e' : Effect α) : Prop where
  sent : e.sent = e'.sent
  response : e.response = e'.response

lemma response_map (g : α → β) (e : Effect α) :
    (e.map g).response = e.response.map (Option.map g) := by
  rw [response, response, map]
  rcases e.result with f | _ | ⟨a, stub⟩ <;> rfl

lemma Agrees.map {e e' : Effect α} (h : e.Agrees e') (g : α → β) : (e.map g).Agrees (e'.map g) :=
  ⟨h.sent, by rw [response_map, response_map, h.response]⟩

/-- A call in another form comes back when the call does. -/
lemma result_map {g : α → β} {e : Effect α} {b : β} {stub : ProtobufDbStub}
    (h : (e.map g).result = .ok (some (b, stub))) : ∃ a, e.result = .ok (some (a, stub)) := by
  rw [map] at h
  rcases he : e.result with f | _ | ⟨a, stub'⟩
  · rw [he] at h
    cases h
  · rw [he] at h
    cases h
  · rw [he] at h
    cases h
    exact ⟨a, rfl⟩

end Effect

section Calls

variable {pool : Pool} (codec : ObjectCodec pool) (debug : Bool) (descriptorName : Text → ProcName)
  (stray : Stray) (stack : ℕ) (stub : ProtobufDbStub) (rounds : List Round)

variable (pool) in
/-- `CProtobufImporter::GetEntityProto`. -/
def getEntityProto (strEntityName : Text) : Option (Message × ProtobufDbStub) :=
  match stub.importer.mapEntityProto strEntityName with
  | some pProto => some (Message.clear pProto, stub.store strEntityName (Message.clear pProto))
  | none =>
      if stub.importer.imported strEntityName then
        some (emptyMessage pool strEntityName,
          stub.store strEntityName (emptyMessage pool strEntityName))
      else none

variable (pool) in
/-- What the six calls have in common: the message of the cache is parsed, and `work` is
done with it. It leaves a response and the message. -/
def withEntityProto {α : Type} (strEntityName : Text) (parse : Message → Bool × Message) (idle : α)
    (work : Message → List Sent × Except Fault (Option (α × Message))) : Effect α :=
  match getEntityProto pool stub strEntityName with
  | none => ⟨[], .ok (some (idle, stub))⟩
  | some (pProto, stub) =>
      let (parsed, pProto) := parse pProto
      if !parsed then ⟨[], .ok (some (idle, stub.store strEntityName pProto))⟩
      else
        let (sent, result) := work pProto
        ⟨sent, result.map (Option.map fun p => (p.1, stub.store strEntityName p.2))⟩

/-! ### The calls for an entity -/

/-- `CProtobufDbStub::EntityLoad`: `vResult`, and the entity behind the loop. -/
def entityLoad (messageType : Text) (entity : Message) (vResult : List codec.Str)
    (sTableName : Name) (vKey : List Name) :
    List Sent × Except Fault (Option (List codec.Str × Message)) :=
  attemptLoop stub.opened
    (fun round a => (Raising.parseSelect round.sch round.db a.2 sTableName vKey,
      Raising.selectInto pool stray stack round.sch round.db codec.serialize messageType a.2 a.1
        sTableName vKey round.rs))
    rounds (vResult, entity)

/-- `CProtobufDbStub::EntityLoadString`. -/
def entityLoadString (strEntityName : Text) (strEntity : codec.Str) (vResult : List codec.Str)
    (sTableName : Name) (vKey : List Name) : Effect (List codec.Str) :=
  withEntityProto pool stub strEntityName
    (fun pProto => codec.parsePartialFromString strEntityName pProto strEntity) vResult
    fun entity => entityLoad codec stray stack stub rounds strEntityName entity vResult sTableName
      vKey

/-- What `EntityAdd`, `EntitySave` and `EntityDelete` have in common. -/
def entityWrite (w : WritePath) (entity : Message) (sTableName : Name) (vKey : List Name) :
    List Sent × Except Fault (Option Message) :=
  attemptLoop stub.opened
    (fun round entity => (Raising.parseWrite round.sch round.db entity sTableName vKey w,
      Raising.eWrite round.sch round.db entity sTableName vKey w))
    rounds entity

/-- `CProtobufDbStub::EntityAdd`. -/
def entityAdd := entityWrite stub rounds .insert

/-- `CProtobufDbStub::EntitySave`. -/
def entitySave := entityWrite stub rounds (.update true)

/-- `CProtobufDbStub::EntityDelete`. -/
def entityDelete := entityWrite stub rounds .delete

/-- A loop whose response is empty. -/
def withoutResponse (r : List Sent × Except Fault (Option Message)) :
    List Sent × Except Fault (Option (Unit × Message)) :=
  (r.1, r.2.map (Option.map fun m => ((), m)))

/-- What `EntityAddString`, `EntitySaveString` and `EntityDeleteString` have in common. -/
def entityWriteString
    (write : Message → Name → List Name → List Sent × Except Fault (Option Message))
    (strEntityName : Text) (strEntity : codec.Str) (sTableName : Name) (vKey : List Name) :
    Effect Unit :=
  withEntityProto pool stub strEntityName
    (fun pProto => codec.parsePartialFromString strEntityName pProto strEntity) ()
    fun entity => withoutResponse (write entity sTableName vKey)

/-- `CProtobufDbStub::EntityAddString`. -/
def entityAddString := entityWriteString codec stub (entityAdd stub rounds)

/-- `CProtobufDbStub::EntitySaveString`. -/
def entitySaveString := entityWriteString codec stub (entitySave stub rounds)

/-- `CProtobufDbStub::EntityDeleteString`. -/
def entityDeleteString := entityWriteString codec stub (entityDelete stub rounds)

/-! ### The calls for a stored procedure -/

/-- The parsing of the request, which depends on the build: `ParseFromString` with
`_DEBUG`. -/
def parseRequest (messageType : Text) (pProto : Message) (s : codec.Str) : Bool × Message :=
  let (parsed, pProto) := codec.parsePartialFromString messageType pProto s
  if debug then (parsed && codec.isInitialized messageType pProto, pProto) else (parsed, pProto)

variable (pool) in
/-- `CProtobufDbStub::StoredProcQuery`. -/
def storedProcQuery (procName : ProcName) (storedProc : Message) :
    List Sent × Except Fault (Option Message) :=
  attemptLoop stub.opened
    (fun round storedProc => (Raising.parseProcLoop round.sch round.db procName storedProc .new,
      Raising.spQuery pool stray stack round.sch round.db procName storedProc round.rs round.more))
    rounds storedProc

/-- `CProtobufDbStub::StoredProcQueryString`. -/
def storedProcQueryString (strProcName : Text) (strStoredProc strResult : codec.Str) :
    Effect codec.Str :=
  withEntityProto pool stub strProcName
    (fun pProto => parseRequest codec debug strProcName pProto strStoredProc) strResult
    fun pProto =>
      let (sent, result) :=
        storedProcQuery pool stray stack stub rounds (descriptorName strProcName) pProto
      (sent, result.map (Option.map fun pProto => (codec.serialize pProto, pProto)))

/-- `CProtobufDbStub::StoredProcUpdate`. -/
def storedProcUpdate (procName : ProcName) (storedProc : Message) :
    List Sent × Except Fault (Option Message) :=
  attemptLoop stub.opened
    (fun round storedProc => (Raising.parseProcLoop round.sch round.db procName storedProc .new,
      Raising.spUpdate round.sch round.db procName storedProc))
    rounds storedProc

/-- `CProtobufDbStub::StoredProcUpdateString`. -/
def storedProcUpdateString (strProcName : Text) (strStoredProc : codec.Str) : Effect Unit :=
  withEntityProto pool stub strProcName
    (fun pProto => parseRequest codec debug strProcName pProto strStoredProc) ()
    fun pProto => withoutResponse (storedProcUpdate stub rounds (descriptorName strProcName) pProto)

/-! ### Calls -/

/-- A call of the stub, with its arguments. -/
inductive Call (Str : Type) where
  | entityLoadString (strEntityName : Text) (strEntity : Str) (vResult : List Str)
      (sTableName : Name) (vKey : List Name)
  | entityAddString (strEntityName : Text) (strEntity : Str) (sTableName : Name) (vKey : List Name)
  | entitySaveString (strEntityName : Text) (strEntity : Str) (sTableName : Name) (vKey : List Name)
  | entityDeleteString (strEntityName : Text) (strEntity : Str) (sTableName : Name)
      (vKey : List Name)
  | storedProcQueryString (strProcName : Text) (strStoredProc strResult : Str)
  | storedProcUpdateString (strProcName : Text) (strStoredProc : Str)

/-- What a call hands back: nothing, `vResult`, or `strResult`. -/
inductive Response (Str : Type) where
  | nothing
  | vResult (records : List Str)
  | strResult (s : Str)

/-- What a call does. -/
def Call.run : Call codec.Str → Effect (Response codec.Str)
  | .entityLoadString strEntityName strEntity vResult sTableName vKey =>
      (History.entityLoadString codec stray stack stub rounds strEntityName strEntity vResult
        sTableName vKey).map .vResult
  | .entityAddString strEntityName strEntity sTableName vKey =>
      (History.entityAddString codec stub rounds strEntityName strEntity sTableName vKey).map
        fun _ => .nothing
  | .entitySaveString strEntityName strEntity sTableName vKey =>
      (History.entitySaveString codec stub rounds strEntityName strEntity sTableName vKey).map
        fun _ => .nothing
  | .entityDeleteString strEntityName strEntity sTableName vKey =>
      (History.entityDeleteString codec stub rounds strEntityName strEntity sTableName vKey).map
        fun _ => .nothing
  | .storedProcQueryString strProcName strStoredProc strResult =>
      (History.storedProcQueryString codec debug descriptorName stray stack stub rounds strProcName
        strStoredProc strResult).map .strResult
  | .storedProcUpdateString strProcName strStoredProc =>
      (History.storedProcUpdateString codec debug descriptorName stub rounds strProcName
        strStoredProc).map fun _ => .nothing

/-- The stub as a machine: a label is a call together with the answers of the database,
and the call has come back. -/
def machine (opened : Bool) (imported : Text → Bool) :
    Runs.Machine ProtobufDbStub (Call codec.Str × List Round) where
  start := .new opened imported
  step stub a stub' := ∃ response,
    (a.1.run codec debug descriptorName stray stack stub a.2).result = .ok (some (response, stub'))

end Calls

/-! ### The invariant of the cache -/

section Invariant

variable {pool : Pool}

variable (pool) in
/-- **The cache is sound**: its messages are of imported types, and have the fields of
their types. -/
def Sound (stub : ProtobufDbStub) : Prop :=
  ∀ messageType m, stub.importer.mapEntityProto messageType = some m →
    stub.importer.imported messageType = true ∧ HasDecls pool m (pool messageType)

lemma sound_new (opened : Bool) (imported : Text → Bool) :
    Sound pool (.new opened imported) := by
  intro messageType m h
  cases h

lemma Sound.store {stub : ProtobufDbStub} (h : Sound pool stub) {messageType : Text} {m : Message}
    (htype : stub.importer.imported messageType = true)
    (hm : HasDecls pool m (pool messageType)) : Sound pool (stub.store messageType m) := by
  intro messageType' m' hcache
  change Function.update stub.importer.mapEntityProto messageType (some m) messageType' = _
    at hcache
  by_cases hsame : messageType' = messageType
  · subst hsame
    rw [Function.update_self, Option.some.injEq] at hcache
    subst hcache
    exact ⟨htype, hm⟩
  · rw [Function.update_of_ne hsame] at hcache
    exact h messageType' m' hcache

/-- **A message from a sound cache** is empty, whatever was left in it. -/
lemma getEntityProto_eq {stub : ProtobufDbStub} (h : Sound pool stub) (strEntityName : Text) :
    getEntityProto pool stub strEntityName
      = if stub.importer.imported strEntityName then
          some (emptyMessage pool strEntityName,
            stub.store strEntityName (emptyMessage pool strEntityName))
        else none := by
  rw [getEntityProto]
  cases hcache : stub.importer.mapEntityProto strEntityName with
  | none => rfl
  | some m =>
      obtain ⟨htype, hm⟩ := h strEntityName m hcache
      simp only [htype, if_true, clear_of_hasDecls hm]

/-- What only the history of a stub may change. -/
structure Alike (stub stub' : ProtobufDbStub) : Prop where
  opened : stub.opened = stub'.opened
  imported : stub.importer.imported = stub'.importer.imported

lemma Alike.trans {stub stub' stub'' : ProtobufDbStub} (h : Alike stub stub')
    (h' : Alike stub' stub'') : Alike stub stub'' :=
  ⟨h.opened.trans h'.opened, h.imported.trans h'.imported⟩

section Shape

variable {α : Type} {strEntityName : Text} {parse : Message → Bool × Message} {idle : α}
  {work : Message → List Sent × Except Fault (Option (α × Message))}

/-- **Two stubs with sound caches** send the same, and give the same response. -/
lemma withEntityProto_agree {stub stub' : ProtobufDbStub} (h : Sound pool stub)
    (h' : Sound pool stub') (himported : stub.importer.imported = stub'.importer.imported) :
    (withEntityProto pool stub strEntityName parse idle work).Agrees
      (withEntityProto pool stub' strEntityName parse idle work) := by
  rw [withEntityProto, withEntityProto, getEntityProto_eq h, getEntityProto_eq h', himported]
  by_cases htype : stub'.importer.imported strEntityName = true
  · rw [if_pos htype, if_pos htype]
    rcases hparse : parse (emptyMessage pool strEntityName) with ⟨parsed, pProto⟩
    simp only [hparse]
    cases parsed with
    | false => exact ⟨rfl, rfl⟩
    | true =>
        refine ⟨rfl, ?_⟩
        simp only [Bool.not_true, Bool.false_eq_true, if_false, Effect.response]
        rcases (work pProto).2 with e | _ | ⟨a, m⟩ <;> rfl
  · rw [if_neg htype, if_neg htype]
    exact ⟨rfl, rfl⟩

/-- **A call that comes back** leaves the cache sound, if parsing and working keep the
type of the message. -/
lemma withEntityProto_sound {stub stub' : ProtobufDbStub} (h : Sound pool stub)
    (hparse : ∀ m, HasDecls pool m (pool strEntityName) →
      HasDecls pool (parse m).2 (pool strEntityName))
    (hwork : ∀ m a m', HasDecls pool m (pool strEntityName) →
      (work m).2 = .ok (some (a, m')) → HasDecls pool m' (pool strEntityName))
    {a : α} (hresult : (withEntityProto pool stub strEntityName parse idle work).result
      = .ok (some (a, stub'))) : Sound pool stub' ∧ Alike stub' stub := by
  rw [withEntityProto, getEntityProto_eq h] at hresult
  by_cases htype : stub.importer.imported strEntityName = true
  · rw [if_pos htype] at hresult
    have hempty : HasDecls pool (emptyMessage pool strEntityName) (pool strEntityName) :=
      hasDecls_empty pool _
    have hparsed := hparse _ hempty
    rcases hp : parse (emptyMessage pool strEntityName) with ⟨parsed, pProto⟩
    rw [hp] at hparsed
    have hstored := h.store htype hempty
    simp only [hp] at hresult
    cases parsed with
    | false =>
        cases hresult
        exact ⟨hstored.store htype hparsed, rfl, rfl⟩
    | true =>
        simp only [Bool.not_true, Bool.false_eq_true, if_false] at hresult
        rcases hw : (work pProto).2 with e | _ | ⟨b, m⟩
        · rw [hw] at hresult
          cases hresult
        · rw [hw] at hresult
          cases hresult
        · rw [hw] at hresult
          cases hresult
          exact ⟨hstored.store htype (hwork _ _ _ hparsed hw), rfl, rfl⟩
  · rw [if_neg htype] at hresult
    cases hresult
    exact ⟨h, rfl, rfl⟩

/-- **The loop** keeps what every attempt keeps. -/
lemma attemptLoop_keeps {opened : Bool} {attempt : Round → α → Sent × Except Fault (Bool × α)}
    {P : α → Prop}
    (hattempt : ∀ round a done a', P a → (attempt round a).2 = .ok (done, a') → P a')
    {rounds : List Round} {a a' : α} (ha : P a)
    (h : (attemptLoop opened attempt rounds a).2 = .ok (some a')) : P a' := by
  induction rounds generalizing a with
  | nil =>
      cases opened with
      | false =>
          cases h
          exact ha
      | true => cases h
  | cons round rounds ih =>
      cases opened with
      | false =>
          cases h
          exact ha
      | true =>
          rw [attemptLoop] at h
          rcases hround : attempt round a with ⟨sent, e | ⟨done, a₁⟩⟩
          · simp only [hround] at h
            cases h
          · have ha₁ : P a₁ := hattempt round a done a₁ ha (by rw [hround])
            simp only [hround] at h
            cases done with
            | true =>
                cases h
                exact ha₁
            | false => exact ih ha₁ h

end Shape

/-! ### One call -/

section Step

variable {codec : ObjectCodec pool} {debug : Bool} {descriptorName : Text → ProcName}
  {stray : Stray} {stack : ℕ} {stub stub' : ProtobufDbStub} {rounds : List Round}

/-- **A call does the same** on two stubs with sound caches. -/
lemma Call.run_agrees (h : Sound pool stub) (h' : Sound pool stub') (halike : Alike stub stub')
    (c : Call codec.Str) :
    (c.run codec debug descriptorName stray stack stub rounds).Agrees
      (c.run codec debug descriptorName stray stack stub' rounds) := by
  obtain ⟨hopened, himported⟩ := halike
  cases c with
  | entityLoadString strEntityName strEntity vResult sTableName vKey =>
      simp only [Call.run, History.entityLoadString, entityLoad, hopened]
      exact (withEntityProto_agree h h' himported).map _
  | entityAddString strEntityName strEntity sTableName vKey =>
      simp only [Call.run, History.entityAddString, entityWriteString, entityAdd, entityWrite,
        hopened]
      exact (withEntityProto_agree h h' himported).map _
  | entitySaveString strEntityName strEntity sTableName vKey =>
      simp only [Call.run, History.entitySaveString, entityWriteString, entitySave, entityWrite,
        hopened]
      exact (withEntityProto_agree h h' himported).map _
  | entityDeleteString strEntityName strEntity sTableName vKey =>
      simp only [Call.run, History.entityDeleteString, entityWriteString, entityDelete, entityWrite,
        hopened]
      exact (withEntityProto_agree h h' himported).map _
  | storedProcQueryString strProcName strStoredProc strResult =>
      simp only [Call.run, History.storedProcQueryString, storedProcQuery, hopened]
      exact (withEntityProto_agree h h' himported).map _
  | storedProcUpdateString strProcName strStoredProc =>
      simp only [Call.run, History.storedProcUpdateString, storedProcUpdate, hopened]
      exact (withEntityProto_agree h h' himported).map _

lemma hasDecls_parseRequest {messageType : Text} {m : Message} (s : codec.Str)
    (hm : HasDecls pool m (pool messageType)) :
    HasDecls pool (parseRequest codec debug messageType m s).2 (pool messageType) := by
  have htyped := codec.typed messageType m s hm
  rw [parseRequest]
  cases debug <;> exact htyped

/-- A response that is made of the message behind a loop. -/
lemma behind_ok {α : Type} {g : Message → α} {r : Except Fault (Option Message)} {a : α}
    {m : Message} (h : r.map (Option.map fun m => (g m, m)) = .ok (some (a, m))) :
    r = .ok (some m) := by
  rcases r with e | _ | m'
  · cases h
  · cases h
  · cases h
    rfl

/-- What does not read leaves the message as it was. -/
lemma query_unread {parse : Except Fault (Bool × ZdbStatement)} {raises : Bool} {m m' : Message}
    {done : Bool} (h : Raising.query parse raises m (.ok m) = .ok (done, m')) : m' = m := by
  rcases Raising.query_ok h with heq | heq
  · exact heq
  · cases heq
    rfl

lemma entityWrite_ok {w : WritePath} {sTableName : Name} {vKey : List Name} {m m' : Message}
    (h : (entityWrite stub rounds w m sTableName vKey).2 = .ok (some m')) : m' = m :=
  attemptLoop_keeps (P := fun a => a = m)
    (fun _ _ _ _ ha hround => (query_unread hround).trans ha) rfl h

lemma entityWriteString_sound (h : Sound pool stub) {w : WritePath} {strEntityName : Text}
    {strEntity : codec.Str} {sTableName : Name} {vKey : List Name} {u : Unit}
    (hresult : (entityWriteString codec stub (entityWrite stub rounds w) strEntityName strEntity
      sTableName vKey).result = .ok (some (u, stub'))) : Sound pool stub' ∧ Alike stub' stub := by
  refine withEntityProto_sound h (fun m hm => codec.typed strEntityName m strEntity hm) ?_ hresult
  intro m u m' hm hwork
  rw [entityWrite_ok (behind_ok hwork)]
  exact hm

/-- **A call that comes back** leaves the cache sound. -/
lemma Call.run_sound (h : Sound pool stub) {c : Call codec.Str} {response : Response codec.Str}
    (hresult : (c.run codec debug descriptorName stray stack stub rounds).result
      = .ok (some (response, stub'))) : Sound pool stub' ∧ Alike stub' stub := by
  cases c with
  | entityLoadString strEntityName strEntity vResult sTableName vKey =>
      rw [Call.run] at hresult
      obtain ⟨records, hresult⟩ := Effect.result_map hresult
      refine withEntityProto_sound h (fun m hm => codec.typed strEntityName m strEntity hm) ?_
        hresult
      intro m records' m' hm hwork
      exact attemptLoop_keeps (P := fun a => HasDecls pool a.2 (pool strEntityName))
        (fun _ _ _ _ ha hround => Raising.hasDecls_selectInto ha hround) hm hwork
  | entityAddString strEntityName strEntity sTableName vKey =>
      rw [Call.run] at hresult
      obtain ⟨u, hresult⟩ := Effect.result_map hresult
      exact entityWriteString_sound h hresult
  | entitySaveString strEntityName strEntity sTableName vKey =>
      rw [Call.run] at hresult
      obtain ⟨u, hresult⟩ := Effect.result_map hresult
      exact entityWriteString_sound h hresult
  | entityDeleteString strEntityName strEntity sTableName vKey =>
      rw [Call.run] at hresult
      obtain ⟨u, hresult⟩ := Effect.result_map hresult
      exact entityWriteString_sound h hresult
  | storedProcQueryString strProcName strStoredProc strResult =>
      rw [Call.run] at hresult
      obtain ⟨s, hresult⟩ := Effect.result_map hresult
      refine withEntityProto_sound h (fun m hm => hasDecls_parseRequest strStoredProc hm) ?_ hresult
      intro m s' m' hm hwork
      exact attemptLoop_keeps (P := fun a => HasDecls pool a (pool strProcName))
        (fun _ _ _ _ ha hround => Raising.hasDecls_spQuery ha hround) hm (behind_ok hwork)
  | storedProcUpdateString strProcName strStoredProc =>
      rw [Call.run] at hresult
      obtain ⟨u, hresult⟩ := Effect.result_map hresult
      refine withEntityProto_sound h (fun m hm => hasDecls_parseRequest strStoredProc hm) ?_ hresult
      intro m u' m' hm hwork
      have hsame : m' = m := attemptLoop_keeps (P := fun a => a = m)
        (fun _ _ _ _ ha hround => (query_unread hround).trans ha) rfl (behind_ok hwork)
      rw [hsame]
      exact hm

end Step

end Invariant

/-! ### Histories -/

section Histories

variable {pool : Pool} {codec : ObjectCodec pool} {debug : Bool} {descriptorName : Text → ProcName}
  {stray : Stray} {stack : ℕ} {stub : ProtobufDbStub} {opened : Bool} {imported : Text → Bool}

/-- Behind every history the cache is sound. -/
lemma reachable_sound
    (h : (machine codec debug descriptorName stray stack opened imported).Reachable stub) :
    Sound pool stub ∧ Alike stub (.new opened imported) := by
  refine h.invariant ⟨sound_new opened imported, rfl, rfl⟩ ?_
  rintro s a s' _ ⟨hs, hsame⟩ ⟨response, hresult⟩
  obtain ⟨hsound, halike⟩ := Call.run_sound hs hresult
  exact ⟨hsound, halike.trans hsame⟩

/-- **Commands do not influence each other through the cache**: behind any history of
calls, a call sends the same and has the same response as on a new stub. -/
theorem history_independent
    (h : (machine codec debug descriptorName stray stack opened imported).Reachable stub)
    (c : Call codec.Str) (rounds : List Round) :
    (c.run codec debug descriptorName stray stack stub rounds).Agrees
      (c.run codec debug descriptorName stray stack (.new opened imported) rounds) := by
  obtain ⟨hsound, halike⟩ := reachable_sound h
  exact Call.run_agrees hsound (sound_new opened imported) halike c

end Histories

/-! ### The query of `StoredProc` and `Fresh` -/

section Query

variable {pool : Pool} (codec : Codec pool) (descriptorName : Text → ProcName) (stray : Stray)
  (stack : ℕ) (rs : ResultSet) (more : List ResultSet)

/-- The rounds of a call whose result sets are those of the database. -/
def answered (rounds : List (Schedule × Server)) : List Round :=
  rounds.map fun round => ⟨round.1, round.2, rs, more⟩

variable {stub : ProtobufDbStub}

lemma storedProcQuery_eq (hopened : stub.opened = true) (procName : ProcName)
    (rounds : List (Schedule × Server)) (storedProc : Message) :
    (storedProcQuery pool stray stack stub (answered rs more rounds) procName storedProc).2
      = Service.ProtobufDbStub.storedProcQuery pool stray stack procName rs more rounds
        storedProc := by
  rw [storedProcQuery, hopened]
  induction rounds generalizing storedProc with
  | nil => rfl
  | cons round rounds ih =>
      rw [Service.ProtobufDbStub.storedProcQuery, answered, List.map_cons, attemptLoop]
      cases hround :
          Raising.spQuery pool stray stack round.1 round.2 procName storedProc rs more with
      | error e => rfl
      | ok result =>
          obtain ⟨done, m⟩ := result
          cases done with
          | true => rfl
          | false => exact ih m

/-- **With a codec that parses into an empty object**, a query leaves what it leaves
without a cache of objects. -/
theorem storedProcQueryString_eq (h : Sound pool stub) (hopened : stub.opened = true)
    (c : Setting) (hc : c.importer = stub.importer) (rounds : List (Schedule × Server))
    (strProcName : Text) (strStoredProc strResult : codec.Str) :
    (storedProcQueryString codec.toObject c.debug descriptorName stray stack stub
        (answered rs more rounds) strProcName strStoredProc strResult).result.map
          (Option.map (Prod.map id ProtobufDbStub.importer))
      = Service.ProtobufDbStub.storedProcQueryString codec c
          (Service.ProtobufDbStub.storedProcQuery pool stray stack (descriptorName strProcName) rs
            more rounds)
          strProcName strStoredProc strResult := by
  have hstore : ∀ m m', ((stub.store strProcName m).store strProcName m').importer
      = stub.importer.store strProcName m' := by
    intro m m'
    rw [ProtobufDbStub.store, ProtobufDbStub.store, ProtobufImporter.store, ProtobufImporter.store,
      ProtobufImporter.store, Function.update_idem]
  have hparse : ∀ m, parseRequest codec.toObject c.debug strProcName m strStoredProc
      = Service.parseRequest codec c.debug strProcName strStoredProc := by
    intro m
    cases c.debug <;> rfl
  have hproto : stub.importer.getEntityProto pool strProcName
      = if stub.importer.imported strProcName then some (emptyMessage pool strProcName)
        else none := by
    rw [ProtobufImporter.getEntityProto]
    cases hcache : stub.importer.mapEntityProto strProcName with
    | none => rfl
    | some m => simp only [(h strProcName m hcache).1, if_true]
  rw [storedProcQueryString, withEntityProto, getEntityProto_eq h,
    Service.ProtobufDbStub.storedProcQueryString, hc, hproto]
  by_cases htype : stub.importer.imported strProcName = true
  · rw [if_pos htype, if_pos htype]
    simp only [hparse]
    rcases Service.parseRequest codec c.debug strProcName strStoredProc with ⟨parsed, pProto⟩
    cases parsed with
    | false => simp [Except.map, hstore]
    | true =>
        have hloop := @storedProcQuery_eq pool stray stack rs more stub hopened
          (descriptorName strProcName) rounds pProto
        simp only [Bool.not_true, Bool.false_eq_true, if_false, hloop]
        rcases Service.ProtobufDbStub.storedProcQuery pool stray stack (descriptorName strProcName)
          rs more rounds pProto with e | _ | m
        · rfl
        · rfl
        · simp [Except.map, bind, Except.bind, hstore]
  · rw [if_neg htype, if_neg htype]
    rfl

end Query

/-! ### A sample history -/

lemma levels_identifier : ∀ c ∈ "sp_levels".toList, c.isAlphanum = true ∨ c = '_' :=
  identifier_of_all rfl

/-- Its procedures are called by one name. -/
def levelsName : ProcName := ⟨"sp_levels".toList, levels_identifier⟩

/-- A stub whose messages are merged. -/
abbrev mergingMachine : Runs.Machine ProtobufDbStub (Call (List Wire) × List Round) :=
  machine (.merging accountPool) false (fun _ => levelsName) zeroStray 2 true fun _ => true

/-- An account with the level zero is saved. -/
abbrev saveAccount (stub : ProtobufDbStub) : Effect (Response (List Wire)) :=
  Call.run (.merging accountPool) false (fun _ => levelsName) zeroStray 2 stub
    [⟨.quiet, ⟨fun _ => true⟩, accountRows, []⟩]
    (.entitySaveString account.chars [.leaf (.int32 3), .absent] account [accountId])

/-- Behind a request that cannot be read and a load, the account in the cache has the
values of the last row. Another account is saved then as on a new stub. -/
theorem save_behind_load : ∃ stub, mergingMachine.Reachable stub
    ∧ stub.importer.mapEntityProto account.chars
      = some [.leaf ⟨.ofInt32 accountId, true, .int32 6, rfl⟩,
        .leaf ⟨.ofInt32 accountLevel, true, .int32 8, rfl⟩]
    ∧ (saveAccount stub).Agrees (saveAccount (.new true fun _ => true)) := by
  have hreachable : ∃ stub, mergingMachine.Reachable stub
      ∧ stub.importer.mapEntityProto account.chars
        = some [.leaf ⟨.ofInt32 accountId, true, .int32 6, rfl⟩,
          .leaf ⟨.ofInt32 accountLevel, true, .int32 8, rfl⟩] := by
    have hfail := Runs.Machine.Reachable.start.snoc (m := mergingMachine)
      (.entityAddString account.chars [.leaf (.int32 3)] account [accountId], []) ⟨_, rfl⟩
    exact ⟨_, hfail.snoc
      (.entityLoadString account.chars [.leaf (.int32 3), .absent] [] account [accountId],
        [⟨.quiet, ⟨fun _ => true⟩, accountRows, []⟩]) ⟨_, rfl⟩, rfl⟩
  obtain ⟨stub, hstub, hcache⟩ := hreachable
  exact ⟨stub, hstub, hcache, history_independent hstub _ _⟩

end Service.History

end PbEntityDb
