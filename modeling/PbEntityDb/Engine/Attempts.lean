import PbEntityDb.Engine.Answer

/-!
One attempt of the engine, and the message that it works on.

* `parseInsert`, `parseUpdate`, `parseDelete`, `eWrite` and `spUpdate` are the writes in
  which calls of libzdb raise an exception. They leave their message alone;
  `parseWrite_quiet` says that without exceptions they are those of `Engine.Parse`.
* `selectInto` is `ESelect` together with its message, which is left as the last row
  (`eSelect_eq_selectInto`).
* `hasDecls_selectInto` and `hasDecls_spQuery`: behind a read the message still has the
  fields that its type declares.
-/

namespace PbEntityDb

namespace Raising

/-! ### Writes -/

section Writes

variable (sch : Schedule) (db : Server) (entity : Message) (sTableName : Name)
  (vInKey : List Name)

/-- What the functions do behind the preparation of their statement. -/
def bindPrepared (prepared : Except Fault (Bool × ZdbStatement)) (params : List Leaf) :
    Except Fault (Bool × ZdbStatement) := do
  let (prepared, s) ← prepared
  if !prepared then .ok (false, s)
  else
    let s ← addInputParams (fun k => sch (.bind k)) s params
    .ok (true, s)

/-- `Protobuf2DbEngine::ParseInsert`. -/
def parseInsert : Except Fault (Bool × ZdbStatement) :=
  let vSet := collectEntitySetFields vInKey entity []
  let (vKeyParam, vSetParam) := collectEntityInputParams vInKey vSet entity ([], [])
  bindPrepared sch (ZdbStatement.new.prepareInsert (sch.server db) sTableName vInKey vSet)
    (vKeyParam ++ vSetParam)

/-- `Protobuf2DbEngine::ParseUpdate`. -/
def parseUpdate (bHackInsert : Bool) : Except Fault (Bool × ZdbStatement) :=
  let vSet := collectEntitySetFields vInKey entity []
  let (vKeyParam, vSetParam) := collectEntityInputParams vInKey vSet entity ([], [])
  if bHackInsert then
    bindPrepared sch (ZdbStatement.new.prepareInsert (sch.server db) sTableName vInKey vSet)
      (vKeyParam ++ vSetParam)
  else if 0 < vSet.length then
    bindPrepared sch (ZdbStatement.new.prepareUpdate (sch.server db) sTableName vInKey vSet)
      (vSetParam ++ vKeyParam)
  else
    -- "set is empty, nothing to update"
    .ok (true, .new)

/-- `Protobuf2DbEngine::ParseDelete`. -/
def parseDelete : Except Fault (Bool × ZdbStatement) :=
  let (vKeyParam, vSetParam) := collectEntityInputParams vInKey [] entity ([], [])
  bindPrepared sch (ZdbStatement.new.prepareDelete (sch.server db) sTableName vInKey)
    (vSetParam ++ vKeyParam)

/-- The function of a write. -/
def parseWrite : WritePath → Except Fault (Bool × ZdbStatement)
  | .insert => parseInsert sch db entity sTableName vInKey
  | .update bHackInsert => parseUpdate sch db entity sTableName vInKey bHackInsert
  | .delete => parseDelete sch db entity sTableName vInKey

/-- `EInsert`, `EUpdate` and `EDelete`. -/
def eWrite (w : WritePath) : Except Fault (Bool × Message) :=
  query (parseWrite sch db entity sTableName vInKey w) (sch .execute) entity (.ok entity)

/-- `Protobuf2DbEngine::SpUpdate`. -/
def spUpdate (sProcName : ProcName) (storedProc : Message) : Except Fault (Bool × Message) :=
  query (parseProcLoop sch db sProcName storedProc .new) (sch .execute) storedProc (.ok storedProc)

variable {db entity sTableName vInKey}

lemma addInputParams_quiet (s : ZdbStatement) (ls : List Leaf) :
    addInputParams (fun k => Schedule.quiet (.bind k)) s ls = PbEntityDb.addInputParams s ls := by
  induction ls generalizing s with
  | nil => rfl
  | cons it ls ih =>
      rw [addInputParams, PbEntityDb.addInputParams, addOneInputParam]
      cases it.inputValue with
      | error e => rfl
      | ok v =>
          cases v with
          | none => exact ih s
          | some v =>
              have hquiet : addInputParameter (fun k => Schedule.quiet (.bind k)) s v
                  = s.addInputParameter v := rfl
              simp only [bind, Except.bind, hquiet]
              cases s.addInputParameter v with
              | error e => rfl
              | ok s => exact ih s

/-- **Without exceptions** the writes are those of the engine. -/
lemma parseWrite_quiet (w : WritePath) :
    parseWrite .quiet db entity sTableName vInKey w
      = (ParsePath.write w).parse db entity sTableName vInKey := by
  have hbind : ∀ prepared ls, bindPrepared .quiet prepared ls = (do
      let (prepared, s) ← prepared
      if !prepared then .ok (false, s)
      else
        let s ← PbEntityDb.addInputParams s ls
        .ok (true, s)) := fun prepared ls => by
    rw [bindPrepared]
    simp only [addInputParams_quiet]
  cases w with
  | insert =>
      rw [parseWrite, parseInsert, ParsePath.parse, PbEntityDb.parseInsert,
        collectEntityInputParams_eq]
      simp only [hbind, server_quiet, parseInsertParams, collectEntityInputParams_eq]
  | update bHackInsert =>
      rw [parseWrite, parseUpdate, ParsePath.parse, PbEntityDb.parseUpdate,
        collectEntityInputParams_eq]
      simp only [hbind, server_quiet, parseInsertParams, parseEntityParams,
        collectEntityInputParams_eq]
  | delete =>
      rw [parseWrite, parseDelete, ParsePath.parse, PbEntityDb.parseDelete,
        collectEntityInputParams_eq]
      simp only [hbind, server_quiet, parseEntityParams, collectEntityInputParams_eq]

end Writes

/-! ### The message behind a load -/

section Loads

variable (pool : Pool) (stray : Stray) (stack : ℕ) (sch : Schedule) (db : Server)

/-- `Protobuf2DbEngine::ESelect`, where `serialize` is `SerializeAsString`: `vResult`, and
the entity with the last row. -/
def selectInto {Str : Type} (serialize : Message → Str) (messageType : Text) (entity : Message)
    (vResult : List Str) (sTableName : Name) (vInKey : List Name) (rs : ResultSet) :
    Except Fault (Bool × List Str × Message) :=
  query (parseSelect sch db entity sTableName vInKey) (sch .execute) (vResult, entity) do
    let records ← parseEntityResult pool stray stack sch 0 messageType entity rs.rows
    .ok (vResult ++ records.map serialize, records.getLast?.getD entity)

/-- What it appends are the records of `ESelect`. -/
lemma eSelect_eq_selectInto {Str : Type} (serialize : Message → Str) (messageType : Text)
    (entity : Message) (vResult : List Message) (sTableName : Name) (vInKey : List Name)
    (rs : ResultSet) :
    (eSelect pool stray stack sch db messageType entity vResult sTableName vInKey rs).map
        (Prod.map id (List.map serialize))
      = (selectInto pool stray stack sch db serialize messageType entity (vResult.map serialize)
          sTableName vInKey rs).map (Prod.map id Prod.fst) := by
  rw [eSelect, selectInto, query, query]
  cases parseSelect sch db entity sTableName vInKey with
  | error e => rfl
  | ok result =>
      obtain ⟨parsed, s⟩ := result
      cases parsed with
      | false => rfl
      | true =>
          simp only [bind, Except.bind, Bool.not_true, Bool.false_eq_true, if_false]
          cases s.exec (sch .execute) with
          | error e => rfl
          | ok executed =>
              cases executed with
              | false => rfl
              | true =>
                  simp only [Bool.not_true, Bool.false_eq_true, if_false]
                  cases parseEntityResult pool stray stack sch 0 messageType entity rs.rows with
                  | error e => rfl
                  | ok records => simp [Except.map]

end Loads

/-! ### Reads keep the type of a message -/

section Typed

variable {pool : Pool} {stray : Stray} {row : List Column}

lemma hasDecls_setAt {m : Message} {ds : List FieldDecl} (h : HasDecls pool m ds) {i : ℕ}
    {f : Field} {d : FieldDecl} (hd : ds[i]? = some d) (hf : f.HasDecl pool d) :
    HasDecls pool (setAt i f m) ds := hasDecls_set (hasDecls_map_clearOneof h _) hd hf

lemma hasDecls_mutableMessage {m : Message} {ds : List FieldDecl} (h : HasDecls pool m ds) {i : ℕ}
    {f : MessageField} (hd : ds[i]? = some (.message f)) :
    HasDecls pool (mutableMessage pool i f m) (pool f.messageType) := by
  rw [mutableMessage]
  split
  · rename_i g sub hfield
    obtain ⟨d, hd', hdecl⟩ := hasDecl_of_getElem? h hfield
    rw [Field.HasDecl] at hdecl
    obtain ⟨rfl, hsub⟩ := hdecl
    cases hd.symm.trans hd'
    exact hsub
  · exact hasDecls_empty pool _

lemma hasDecl_setter {d : FieldDescriptor} {v : Scalar} {f : Field} (h : setter d v = .ok f) :
    f.HasDecl pool (.leaf d) := by
  rw [setter] at h
  split at h
  · cases h
    rw [Field.HasDecl]
  · cases h

/-- A walk over the messages of the pool keeps their types. -/
def KeepsTypes (pool : Pool)
    (walk : Text → (List ℕ → Bool) → Message → ReadState → Except Fault (Message × ReadState)) :
    Prop :=
  ∀ messageType raises m st m' st', HasDecls pool m (pool messageType) →
    walk messageType raises m st = .ok (m', st') → HasDecls pool m' (pool messageType)

/-- The declaration at the place where a loop stands. -/
lemma getElem?_of_drop {all ds : List FieldDecl} {i : ℕ} {d : FieldDecl}
    (h : all.drop i = d :: ds) : all[i]? = some d ∧ all.drop (i + 1) = ds := by
  constructor
  · rw [← List.head?_drop, h, List.head?_cons]
  · rw [← List.tail_drop, h, List.tail_cons]

lemma hasDecls_firstLoop
    {sub : Text → (List ℕ → Bool) → Message → ReadState → Except Fault (Message × ReadState)}
    (hsub : KeepsTypes pool sub) (raises : List ℕ → Bool) {all : List FieldDecl} :
    ∀ (ds : List FieldDecl) (i : ℕ) (m : Message) (n : ℕ) (st : ReadState) {m' : Message}
      {st' : ReadState}, all.drop i = ds → HasDecls pool m all →
      firstLoop pool stray row sub raises ds i m n st = .ok (m', st') → HasDecls pool m' all
  | [], i, m, n, st, m', st', _, hm, h => by
      cases h
      exact hm
  | d :: ds, i, m, n, st, m', st', hds, hm, h => by
      obtain ⟨hd, hnext⟩ := getElem?_of_drop hds
      cases d with
      | leaf d =>
          rw [firstLoop] at h
          cases hread : readValue stray d
              (if raises [i] then none else cellNamed row d.name.chars) with
          | none =>
              rw [hread] at h
              obtain ⟨st₁, -, h⟩ := bind_ok h
              exact hasDecls_firstLoop hsub raises ds (i + 1) m n st₁ hnext hm h
          | some v =>
              rw [hread] at h
              obtain ⟨f, hf, h⟩ := bind_ok h
              obtain ⟨st₁, -, h⟩ := bind_ok h
              exact hasDecls_firstLoop hsub raises ds (i + 1) _ _ st₁ hnext
                (hasDecls_setAt hm hd (hasDecl_setter hf)) h
      | message f =>
          rw [firstLoop] at h
          obtain ⟨⟨pSub, st₁⟩, hwalk, h⟩ := bind_ok h
          obtain ⟨st₂, -, h⟩ := bind_ok h
          have hpSub := hsub _ _ _ _ _ _ (hasDecls_mutableMessage hm hd) hwalk
          refine hasDecls_firstLoop hsub raises ds (i + 1) _ n st₂ hnext (hasDecls_setAt hm hd ?_) h
          rw [Field.HasDecl]
          exact ⟨rfl, hpSub⟩
      | repeated name => exact hasDecls_firstLoop hsub raises ds (i + 1) m n st hnext hm h
      | repeatedMessage f => exact hasDecls_firstLoop hsub raises ds (i + 1) m n st hnext hm h

/-- The walk by name keeps the type of the record. -/
lemma hasDecls_addFirst (stack : ℕ) :
    KeepsTypes pool (addFirstReturnRecord pool stray row stack) := by
  induction stack with
  | zero =>
      intro messageType raises m st m' st' _ h
      cases h
  | succ stack ih =>
      intro messageType raises m st m' st' hm h
      exact hasDecls_firstLoop ih raises (pool messageType) 0 m 0 st rfl hm h

lemma hasDecls_returnLoop
    {sub : Text → (List ℕ → Bool) → Message → ReadState → Except Fault (Message × ReadState)}
    (hsub : KeepsTypes pool sub) (raises : List ℕ → Bool) {all : List FieldDecl} :
    ∀ (ds : List FieldDecl) (i : ℕ) (m : Message) (st : ReadState) {m' : Message}
      {st' : ReadState}, all.drop i = ds → HasDecls pool m all →
      returnLoop pool stray row sub raises ds i m st = .ok (m', st') → HasDecls pool m' all
  | [], i, m, st, m', st', _, hm, h => by
      cases h
      exact hm
  | d :: ds, i, m, st, m', st', hds, hm, h => by
      obtain ⟨hd, hnext⟩ := getElem?_of_drop hds
      cases d with
      | leaf d =>
          rw [returnLoop] at h
          by_cases hread : d.isRead = true
          · rw [if_pos hread] at h
            cases hindex : st.arrIndex[st.nIndex]? with
            | none =>
                rw [hindex] at h
                cases h
            | some nField =>
                rw [hindex] at h
                obtain ⟨cell, -, h⟩ := bind_ok h
                cases hvalue : readValue stray d (some cell) with
                | none =>
                    rw [hvalue] at h
                    exact hasDecls_returnLoop hsub raises ds (i + 1) m _ hnext hm h
                | some v =>
                    rw [hvalue] at h
                    obtain ⟨f, hf, h⟩ := bind_ok h
                    exact hasDecls_returnLoop hsub raises ds (i + 1) _ _ hnext
                      (hasDecls_setAt hm hd (hasDecl_setter hf)) h
          · rw [if_neg hread] at h
            exact hasDecls_returnLoop hsub raises ds (i + 1) m _ hnext hm h
      | message f =>
          rw [returnLoop] at h
          obtain ⟨⟨pSub, st₁⟩, hwalk, h⟩ := bind_ok h
          have hpSub := hsub _ _ _ _ _ _ (hasDecls_mutableMessage hm hd) hwalk
          refine hasDecls_returnLoop hsub raises ds (i + 1) _ _ hnext (hasDecls_setAt hm hd ?_) h
          rw [Field.HasDecl]
          exact ⟨rfl, hpSub⟩
      | repeated name => exact hasDecls_returnLoop hsub raises ds (i + 1) m st hnext hm h
      | repeatedMessage f => exact hasDecls_returnLoop hsub raises ds (i + 1) m st hnext hm h

/-- The walk by index keeps the type of the record. -/
lemma hasDecls_addReturn (stack : ℕ) :
    KeepsTypes pool (addReturnRecord pool stray row stack) := by
  induction stack with
  | zero =>
      intro messageType raises m st m' st' _ h
      cases h
  | succ stack ih =>
      intro messageType raises m st m' st' hm h
      exact hasDecls_returnLoop ih raises (pool messageType) 0 m st rfl hm h

variable {stack : ℕ} {sch : Schedule}

lemma hasDecls_moreRecords {set : ℕ} {messageType : Text} {arrIndex : List ℕ} {k : ℕ} {m : Message}
    {rows : List (List Column)} {records : List Message} (hm : HasDecls pool m (pool messageType))
    (h : moreRecords pool stray stack sch set id messageType arrIndex k m rows = .ok records) :
    ∀ r ∈ records, HasDecls pool r (pool messageType) := by
  induction rows generalizing k m records with
  | nil =>
      obtain ⟨-, -, h⟩ := bind_ok h
      cases h
      exact fun r hr => absurd hr List.not_mem_nil
  | cons row rows ih =>
      obtain ⟨-, -, h⟩ := bind_ok h
      obtain ⟨⟨m₁, st⟩, hwalk, h⟩ := bind_ok h
      obtain ⟨rest, hrest, h⟩ := bind_ok h
      cases h
      have hm₁ := hasDecls_addReturn stack _ _ _ _ _ _ hm hwalk
      exact List.forall_mem_cons.mpr ⟨hm₁, ih hm₁ hrest⟩

/-- **The records of a load** have the type of the entity. -/
lemma hasDecls_parseEntityResult {set : ℕ} {messageType : Text} {entity : Message}
    {rows : List (List Column)} {records : List Message}
    (hentity : HasDecls pool entity (pool messageType))
    (h : parseEntityResult pool stray stack sch set messageType entity rows = .ok records) :
    ∀ r ∈ records, HasDecls pool r (pool messageType) := by
  cases rows with
  | nil =>
      obtain ⟨-, -, h⟩ := bind_ok h
      exact hasDecls_moreRecords hentity h
  | cons row rows =>
      obtain ⟨-, -, h⟩ := bind_ok h
      obtain ⟨⟨m₁, st⟩, hwalk, h⟩ := bind_ok h
      obtain ⟨rest, hrest, h⟩ := bind_ok h
      cases h
      have hm₁ := hasDecls_addFirst stack _ _ _ _ _ _ hentity hwalk
      exact List.forall_mem_cons.mpr ⟨hm₁, hasDecls_moreRecords hm₁ hrest⟩

/-- What `query` leaves is what it was given, or what was read. -/
lemma query_ok {α : Type} {parse : Except Fault (Bool × ZdbStatement)} {raises : Bool}
    {before after : α} {read : Except Fault α} {done : Bool}
    (h : query parse raises before read = .ok (done, after)) :
    after = before ∨ read = .ok after := by
  obtain ⟨⟨parsed, s⟩, -, h⟩ := bind_ok h
  cases parsed with
  | false =>
      cases h
      exact .inl rfl
  | true =>
      obtain ⟨executed, -, h⟩ := bind_ok h
      cases executed with
      | false =>
          cases h
          exact .inl rfl
      | true =>
          obtain ⟨a, hread, h⟩ := bind_ok h
          cases h
          exact .inr hread

/-- **The message behind a load** is of the type of the entity. -/
theorem hasDecls_selectInto {Str : Type} {serialize : Message → Str} {db : Server}
    {messageType : Text} {entity entity' : Message} {vResult vResult' : List Str}
    {sTableName : Name} {vInKey : List Name} {rs : ResultSet} {done : Bool}
    (hentity : HasDecls pool entity (pool messageType))
    (h : selectInto pool stray stack sch db serialize messageType entity vResult sTableName
      vInKey rs = .ok (done, vResult', entity')) : HasDecls pool entity' (pool messageType) := by
  rcases query_ok h with heq | hread
  · cases heq
    exact hentity
  · obtain ⟨records, hrecords, heq⟩ := bind_ok hread
    cases heq
    cases hlast : records.getLast? with
    | none => exact hentity
    | some r =>
        exact hasDecls_parseEntityResult hentity hrecords r (List.mem_of_getLast? hlast)

/-- **The message behind a query** is of the type of the procedure. -/
theorem hasDecls_spQuery {db : Server} {sProcName : ProcName} {m m' : Message} {rs : ResultSet}
    {more : List ResultSet} {done : Bool} {ds : List FieldDecl} (hm : HasDecls pool m ds)
    (h : spQuery pool stray stack sch db sProcName m rs more = .ok (done, m')) :
    HasDecls pool m' ds := by
  have hread := spQuery_ok h
  cases done with
  | false =>
      obtain rfl : m' = m := hread
      exact hm
  | true => exact (Read.appends hread hm).1

end Typed

end Raising

end PbEntityDb
