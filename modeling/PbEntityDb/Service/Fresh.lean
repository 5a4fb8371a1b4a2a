import PbEntityDb.Engine.Answer
import PbEntityDb.Service.StoredProc

/-!
The answer of a stored procedure in the object of the caller.

* `ProtobufDbStub.storedProcQuery` is the loop around `SpQuery`.
* `Succeeds`: a call of `CDbService::StoredProcQuery` that the database answers.
* `fresh_iff`: when the lists hold exactly the records of the answer behind such a
  call, and when a second call leaves the message as the first one left it.
* `answer_doubled`: one row, two calls, two records.
-/

namespace PbEntityDb.Service

section Calls

variable {pool : Pool} (codec : Codec pool) (stray : Stray) (stack : ℕ) (sProcName : ProcName)
  (rs : ResultSet) (more : List ResultSet)

variable (pool) in
/-- `CProtobufDbStub::StoredProcQuery` on an open engine: the rounds of its loop, each
with its exceptions and with what the database prepares. The result sets are those
of the database in every round that gets so far. -/
def ProtobufDbStub.storedProcQuery :
    List (Schedule × Server) → Message → Except Fault (Option Message)
  | [], _ => .ok none
  | (sch, db) :: rounds, storedProc => do
      let (done, storedProc) ←
        Raising.spQuery pool stray stack sch db sProcName storedProc rs more
      if done then .ok (some storedProc)
      else ProtobufDbStub.storedProcQuery rounds storedProc

/-- **The query succeeds**: it has not come back behind the rounds `failed`, it comes
back behind the round after them, and its response can be read. -/
structure Succeeds (c : Setting) (failed : List (Schedule × Server)) (sch : Schedule)
    (db : Server) (messageType : Text) (storedProc after : Message) : Prop where
  going : DbService.storedProcQuery codec c
    (ProtobufDbStub.storedProcQuery pool stray stack sProcName rs more failed) messageType
    storedProc = .ok none
  returns : ∃ importer, DbService.storedProcQuery codec c
    (ProtobufDbStub.storedProcQuery pool stray stack sProcName rs more (failed ++ [(sch, db)]))
    messageType storedProc = .ok (some ((true, after), importer))

variable (pool) in
/-- **The lists hold exactly the records of the answer**: those that are read of its
rows into new records. -/
def HoldsAnswer (sch : Schedule) (before after : Message) : Prop :=
  ∀ j f g, (answerFields pool before)[j]? = some f → (answerFields pool after)[j]? = some g →
    ∃ records, freshRecords pool stray stack sch j (rs :: more)[j]? f = .ok records
      ∧ writtenAll g.records = writtenAll records

variable {codec stray stack sProcName rs more}

/-! ### The loop -/

/-- The last round is the one that is answered. -/
lemma read_of_rounds {failed : List (Schedule × Server)} {sch : Schedule} {db : Server}
    {m m' : Message}
    (hgoing : ProtobufDbStub.storedProcQuery pool stray stack sProcName rs more failed m = .ok none)
    (hreturns : ProtobufDbStub.storedProcQuery pool stray stack sProcName rs more
      (failed ++ [(sch, db)]) m = .ok (some m')) : Read pool stray stack sch rs more m m' := by
  induction failed generalizing m with
  | nil =>
      obtain ⟨⟨done, m₁⟩, hround, hreturns⟩ := bind_ok hreturns
      have hread := spQuery_ok hround
      cases done with
      | true =>
          cases hreturns
          exact hread
      | false => cases hreturns
  | cons round failed ih =>
      obtain ⟨⟨done, m₁⟩, hround, hrest⟩ := bind_ok hgoing
      obtain ⟨result, hround', hrest'⟩ := bind_ok hreturns
      obtain rfl : (done, m₁) = result := Except.ok.inj (hround.symm.trans hround')
      cases done with
      | true => cases hrest
      | false =>
          obtain rfl : m₁ = m := spQuery_ok hround
          exact ih hrest hrest'

/-- **The way of a message**: it arrives in the importer with the fields that the
caller set, and comes back with those that the answer left there. -/
lemma Succeeds.read {c : Setting} {failed : List (Schedule × Server)} {sch : Schedule}
    {db : Server} {messageType : Text} {storedProc after : Message}
    (h : Succeeds codec stray stack sProcName rs more c failed sch db messageType storedProc after)
    (htyped : HasDecls pool storedProc (pool messageType)) :
    ∃ request answered, HasDecls pool request (pool messageType)
      ∧ written request = written storedProc ∧ Read pool stray stack sch rs more request answered
      ∧ HasDecls pool after (pool messageType) ∧ written after = written answered := by
  obtain ⟨hgoing, importer, hreturns⟩ := h
  have hanswer : ¬ NoAnswer codec c messageType storedProc := by
    intro hno
    obtain ⟨importer', hcall⟩ := storedProcQuery_nil
      (ProtobufDbStub.storedProcQuery pool stray stack sProcName rs more failed) hno
    rw [hcall] at hgoing
    cases hgoing
  obtain ⟨hparsed, hcall⟩ := storedProcQuery_eq
    (ProtobufDbStub.storedProcQuery pool stray stack sProcName rs more failed) hanswer
  obtain ⟨-, hcall'⟩ := storedProcQuery_eq
    (ProtobufDbStub.storedProcQuery pool stray stack sProcName rs more (failed ++ [(sch, db)]))
    hanswer
  rw [hcall] at hgoing
  rw [hcall'] at hreturns
  obtain ⟨result, hquery, heq⟩ := bind_ok hgoing
  obtain ⟨result', hquery', heq'⟩ := bind_ok hreturns
  cases result with
  | some m => cases heq
  | none =>
      cases result' with
      | none => cases heq'
      | some answered =>
          rw [Option.map_some, Except.ok.injEq, Option.some.injEq, Prod.mk.injEq] at heq'
          obtain ⟨hback, -⟩ := heq'
          have hrequest := parseRequest_eq codec hparsed
          have hread := read_of_rounds hquery hquery'
          obtain ⟨htyped', hwritten⟩ := codec.parsed htyped hrequest
          obtain ⟨hanswered, -⟩ := hread.appends htyped'
          obtain ⟨hafter, hwritten'⟩ := codec.parsed hanswered hback
          exact ⟨_, answered, htyped', hwritten, hread, hafter, hwritten'⟩

/-! ### The lists behind a call -/

/-- **The caller's lists behind a call**: each has the records of its result set behind
those that it had. -/
lemma Succeeds.records {c : Setting} {failed : List (Schedule × Server)} {sch : Schedule}
    {db : Server} {messageType : Text} {storedProc after : Message}
    (h : Succeeds codec stray stack sProcName rs more c failed sch db messageType storedProc after)
    (htyped : HasDecls pool storedProc (pool messageType)) :
    (answerFields pool after).length = (answerFields pool storedProc).length
      ∧ ∀ j f g, (answerFields pool storedProc)[j]? = some f →
          (answerFields pool after)[j]? = some g → ∃ records,
            freshRecords pool stray stack sch j (rs :: more)[j]? f = .ok records
              ∧ writtenAll g.records = writtenAll f.records ++ writtenAll records := by
  obtain ⟨request, answered, hrequest, hsame, hread, hafter, hsame'⟩ := h.read htyped
  obtain ⟨hanswered, happends⟩ := hread.appends hrequest
  have hbefore := answerFields_alike hrequest htyped hsame
  have hbehind := answerFields_alike hafter hanswered hsame'
  have hlen : (answerFields pool after).length = (answerFields pool storedProc).length :=
    calc (answerFields pool after).length
        = (answerFields pool answered).length := hbehind.length_eq
      _ = (answerFields pool request).length := happends.length
      _ = (answerFields pool storedProc).length := hbefore.length_eq
  refine ⟨hlen, fun j f g hf hg => ?_⟩
  have hj : j < (answerFields pool request).length := by
    have := (List.getElem?_eq_some_iff.mp hf).1
    rwa [hbefore.length_eq]
  have hf' := List.getElem?_eq_getElem hj
  obtain ⟨records, hfresh, -, hg'⟩ := happends.field j _ hf'
  have hfield := alike_getElem? hbefore hf' hf
  refine ⟨records, ?_, ?_⟩
  · rw [← hfield.freshRecords_eq, ← hfresh, Nat.zero_add]
  · calc writtenAll g.records
        = writtenAll ((answerFields pool request)[j].append records).records :=
          (alike_getElem? hbehind hg hg').records
      _ = writtenAll (answerFields pool request)[j].records ++ writtenAll records := by
          rw [records_append hfresh, writtenAll_eq_map, List.map_append, ← writtenAll_eq_map,
            ← writtenAll_eq_map]
      _ = writtenAll f.records ++ writtenAll records := by rw [hfield.records]

/-- **When the answer is fresh**: the lists hold exactly the records of the answer if
they were empty before; and a second call leaves the message as the first one left it
if no row is delivered. -/
theorem fresh_iff {c : Setting} {failed : List (Schedule × Server)} {sch : Schedule}
    {db : Server} {messageType : Text} {storedProc after : Message}
    (htyped : HasDecls pool storedProc (pool messageType))
    (h : Succeeds codec stray stack sProcName rs more c failed sch db messageType storedProc
      after) :
    (HoldsAnswer pool stray stack rs more sch storedProc after
        ↔ ∀ f ∈ answerFields pool storedProc, f.records = [])
      ∧ ∀ c' failed' sch' db' after', Succeeds codec stray stack sProcName rs more c' failed' sch'
          db' messageType after after' →
        (written after' = written after
          ↔ NoRows (answerFields pool storedProc).length (rs :: more)) := by
  obtain ⟨hlen, hrecords⟩ := h.records htyped
  constructor
  · constructor
    · intro hholds f hf
      obtain ⟨j, hj, rfl⟩ := List.getElem_of_mem hf
      have hf' := List.getElem?_eq_getElem hj
      have hg := List.getElem?_eq_getElem (hlen ▸ hj)
      obtain ⟨records, hfresh, heq⟩ := hrecords j _ _ hf' hg
      obtain ⟨records', hfresh', heq'⟩ := hholds j _ _ hf' hg
      obtain rfl : records = records' := Except.ok.inj (hfresh.symm.trans hfresh')
      have hnil := List.append_left_eq_self.mp (heq.symm.trans heq')
      rwa [writtenAll_eq_map, List.map_eq_nil_iff] at hnil
    · intro hempty j f g hf hg
      obtain ⟨records, hfresh, heq⟩ := hrecords j f g hf hg
      rw [hempty f (List.mem_of_getElem? hf), writtenAll, List.nil_append] at heq
      exact ⟨records, hfresh, heq⟩
  · intro c' failed' sch' db' after' hagain
    obtain ⟨request, answered, hrequest, hsame, hread, hafter, hback⟩ := h.read htyped
    obtain ⟨request', answered', hrequest', hsame', hread', -, hback'⟩ := hagain.read hafter
    have hsecond := Read.again hrequest hrequest' hread (hsame'.trans hback) hread'
    rw [hback', ← hsame', hsecond, (answerFields_alike hrequest htyped hsame).length_eq]

end Calls

/-! ### A sample procedure -/

/-- The type of a procedure with two arguments, which returns accounts. -/
def levelsPool : Pool := fun messageType =>
  if messageType = "sp_levels".toList then
    [.message ⟨paramName, none, "level_param".toList⟩,
      .repeatedMessage ⟨Raising.returnRecordList, none, account.chars⟩]
  else accountPool messageType

/-- Its message with a list of accounts. -/
def levels (records : List Message) : Message :=
  [.message ⟨paramName, none, "level_param".toList⟩ (accountEntity 1 2),
    .repeatedMessage ⟨Raising.returnRecordList, none, account.chars⟩ records]

lemma hasDecls_levels (records : List Message) :
    HasDecls levelsPool (levels records) (levelsPool "sp_levels".toList) := by
  simp [levels, levelsPool, HasDecls, Field.HasDecl, accountEntity, accountPool, Leaf.ofInt32]

/-- A call that the database answers in the first round. -/
abbrev LevelsAnswered : Message → Message → Prop :=
  Succeeds (.plain levelsPool) zeroStray 2 ⟨"sp_levels".toList, identifier_of_all rfl⟩ accountRows
    [] ⟨false, false, true, fun _ => true, fun _ => none⟩ [] .quiet ⟨fun _ => true⟩
    "sp_levels".toList

/-- An empty list gets the answer. -/
theorem fresh_levels : ∃ after, LevelsAnswered (levels []) after
    ∧ HoldsAnswer levelsPool zeroStray 2 accountRows [] .quiet (levels []) after := by
  have hcall : ∃ after, LevelsAnswered (levels []) after := ⟨_, rfl, _, rfl⟩
  obtain ⟨after, hafter⟩ := hcall
  refine ⟨after, hafter, (fresh_iff (hasDecls_levels []) hafter).1.mpr fun f hf => ?_⟩
  obtain rfl : f = .repeatedMessage ⟨Raising.returnRecordList, none, account.chars⟩ [] :=
    List.mem_singleton.mp hf
  rfl

/-- **The answer twice**: behind a second call the list holds four records for two
rows, and the message is not what it was behind the first one. -/
theorem answer_doubled : ∃ after after', LevelsAnswered (levels []) after
    ∧ LevelsAnswered after after'
    ∧ ¬ HoldsAnswer levelsPool zeroStray 2 accountRows [] .quiet after after'
    ∧ written after' ≠ written after := by
  refine ⟨_, _, ⟨rfl, _, rfl⟩, ⟨rfl, _, rfl⟩, ?_, ?_⟩
  · intro hholds
    obtain ⟨records, hfresh, hwritten⟩ := hholds 0 _ _ rfl rfl
    cases hfresh
    have hlen := congrArg List.length hwritten
    change 4 = 2 at hlen
    omega
  · intro hwritten
    have halike := answerFields_alike (hasDecls_levels _) (hasDecls_levels _) hwritten
    have hlen := congrArg List.length (@alike_getElem? _ _ _ halike 0 _ _ rfl rfl).records
    change 4 = 2 at hlen
    omega

end PbEntityDb.Service
