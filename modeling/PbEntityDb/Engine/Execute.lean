import PbEntityDb.Engine.Parse
import PbEntityDb.Engine.Proc

/-!
Executing what was prepared.

* `Operation` is a call of one of the `Parse*` functions, and `Operation.run` what
  `ESelect`, `EInsert`, `EUpdate`, `EDelete`, `SpQuery` and `SpUpdate` do: they
  execute the statement whenever the function returned `true`.
* `PreparedOnce` describes a statement that was prepared by one call on a new
  object, and by no other, and got its values afterwards. `parse_prepared` says that
  an operation that is not idle leaves such a statement, `parse_idle` that an idle
  one leaves the object as it was constructed, and returns `true` as well.
* `executesPrepared_iff`: only prepared statements are executed exactly if the
  operation is not idle.
-/

namespace PbEntityDb

/-- A call of a `Parse*` function. -/
inductive Operation where
  /-- `ParseSelect`, `ParseInsert`, `ParseUpdate` and `ParseDelete` -/
  | entity (p : ParsePath) (entity : Message) (sTableName : Name) (vInKey : List Name)
  /-- `ParseProc` -/
  | proc (storedProc : StoredProc)

/-- `ZdbStatement::Exec`, where `raises` says whether libzdb raises an exception. -/
def ZdbStatement.exec (raises : Bool) (s : ZdbStatement) : Except Fault Bool :=
  match s.stmt with
  | none => .error .nullStatement
  | some _ => .ok (!raises)

namespace Operation

/-- The `Parse*` function on a new statement. -/
def parse (db : Server) : Operation → Except Fault (Bool × ZdbStatement)
  | entity p e sTableName vInKey => p.parse db e sTableName vInKey
  | proc storedProc => parseProc db .new storedProc

/-- The common shape of the six callers: what they return, and the statement that
they executed. -/
def run (db : Server) (raises : Bool) (op : Operation) :
    Except Fault (Bool × Option ZdbStatement) := do
  let (parsed, s) ← op.parse db
  if !parsed then .ok (false, none)
  else
    let executed ← s.exec raises
    .ok (executed, some s)

/-- There is nothing to do: an update without set columns, or a stored procedure
without a field that carries its arguments. -/
def Idle : Operation → Prop
  | entity (.write (.update false)) e _ vInKey => setLeaves vInKey e = []
  | entity _ _ _ _ => False
  | proc storedProc => storedProc.param? = none

end Operation

/-- A number of `AddInput*Parameter` calls. -/
def ZdbStatement.addInputs : ZdbStatement → List BoundValue → Except Fault ZdbStatement
  | s, [] => .ok s
  | s, v :: vs => do
      let s ← s.addInputParameter v
      s.addInputs vs

/-- The statement was prepared by one successful call, on a new object, and then got its
values. -/
structure PreparedOnce (db : Server) (s : ZdbStatement) : Prop where
  /-- no other call was successful -/
  once : s.prepared = 1
  bound : ∃ sql s₀ vs, ZdbStatement.new.prepare db sql = (true, s₀) ∧ s₀.addInputs vs = .ok s

lemma PreparedOnce.stmt_ne_none {db : Server} {s : ZdbStatement} (h : PreparedOnce db s) :
    s.stmt ≠ none := by
  obtain ⟨sql, s₀, vs, hprepare, hinputs⟩ := h.bound
  have hstart : s₀.stmt ≠ none := by
    rw [ZdbStatement.prepare_new] at hprepare
    by_cases hp : db.prepares sql = true
    · rw [if_pos hp] at hprepare
      cases hprepare
      exact Option.some_ne_none _
    · rw [if_neg hp] at hprepare
      cases hprepare
  clear hprepare
  -- every input keeps the prepared statement
  induction vs generalizing s₀ with
  | nil =>
      cases hinputs
      exact hstart
  | cons v vs ih =>
      rw [ZdbStatement.addInputs, ZdbStatement.addInputParameter] at hinputs
      cases hs : s₀.stmt with
      | none => exact absurd hs hstart
      | some p =>
          rw [hs] at hinputs
          cases hi :
              ZdbStatement.checkAndSetParameterIndex (s₀.inParamIndex + 1) p.slots.length with
          | error e =>
              simp only [hi, bind, Except.bind] at hinputs
              cases hinputs
          | ok i =>
              simp only [hi, bind, Except.bind] at hinputs
              exact ih _ hinputs (Option.some_ne_none _)

/-- A statement that was bound was prepared. -/
lemma preparedOnce_holding {db : Server} {sql : Text} (hp : db.prepares sql = true)
    {vs : List BoundValue} (hle : vs.length ≤ placeholderCount sql) :
    PreparedOnce db (.holding sql (placeholderCount sql) vs) := by
  have hinputs : ∀ (us vs : List BoundValue), (us ++ vs).length ≤ placeholderCount sql →
      (ZdbStatement.holding sql (placeholderCount sql) us).addInputs vs
        = .ok (.holding sql (placeholderCount sql) (us ++ vs)) := by
    intro us vs
    induction vs generalizing us with
    | nil =>
        intro _
        rw [List.append_nil]
        rfl
    | cons v vs ih =>
        intro h
        rw [List.length_append, List.length_cons] at h
        rw [ZdbStatement.addInputs, ZdbStatement.addInputParameter_holding _ (by omega),
          if_pos (by omega)]
        have hrest := ih (us ++ [v])
          (by simp only [List.length_append, List.length_singleton]; omega)
        rwa [List.append_assoc, List.singleton_append] at hrest
  refine ⟨rfl, sql, .holding sql (placeholderCount sql) [], vs, ?_, hinputs [] vs hle⟩
  rw [ZdbStatement.prepare_new, if_pos hp]

namespace Operation

/-- **What returns `true` was prepared**, if there is something to do. -/
theorem parse_prepared {db : Server} {op : Operation} (hidle : ¬ op.Idle) {s : ZdbStatement}
    (h : op.parse db = .ok (true, s)) : PreparedOnce db s := by
  cases op with
  | entity p e sTableName vInKey =>
      rw [parse, ParsePath.parse_eq] at h
      cases hst : p.statement e vInKey with
      | none =>
          -- only an update without set columns has no statement
          refine absurd ?_ hidle
          rcases p with _ | (_ | (_ | _) | _)
          · cases hst
          · cases hst
          · rw [Idle]
            by_contra hset
            rw [ParsePath.statement, if_neg hset] at hst
            cases hst
          · cases hst
          · cases hst
      | some st =>
          rw [hst] at h
          obtain ⟨-, hp, -, hle, rfl⟩ := ParsePath.prepareAndBind_ok h
          exact preparedOnce_holding hp hle
  | proc storedProc =>
      rw [parse, parseProc_eq] at h
      cases hparam : storedProc.param? with
      | none => exact absurd hparam hidle
      | some f =>
          rw [hparam] at h
          obtain ⟨param, -, hp, hmistyped, rfl⟩ := callParam_ok h
          have hn := placeholderCount_callText storedProc.procName (parseProcParamsCount param)
          have hle := length_boundValues_leaves hmistyped
          have hprepared := preparedOnce_holding hp (by rw [hn]; exact hle.le)
          rwa [hn] at hprepared

/-- With nothing to do the object is left as it was constructed, and the function
returns `true` all the same. -/
theorem parse_idle {db : Server} {op : Operation} (hidle : op.Idle) :
    op.parse db = .ok (true, .new) := by
  cases op with
  | entity p e sTableName vInKey =>
      rw [parse, ParsePath.parse_eq]
      rcases p with _ | (_ | (_ | _) | _)
      · exact hidle.elim
      · exact hidle.elim
      · have hset : setLeaves vInKey e = [] := hidle
        rw [ParsePath.statement, if_pos hset]
      · exact hidle.elim
      · exact hidle.elim
  | proc storedProc =>
      have hparam : storedProc.param? = none := hidle
      rw [parse, parseProc_eq, hparam]

/-- The values go to a prepared statement in any case. -/
lemma parse_ne_nullStatement (db : Server) (op : Operation) :
    op.parse db ≠ .error .nullStatement := by
  intro h
  cases op with
  | entity p e sTableName vInKey =>
      rw [parse, ParsePath.parse_eq] at h
      cases hst : p.statement e vInKey with
      | none =>
          rw [hst] at h
          cases h
      | some st =>
          rw [hst] at h
          change ParsePath.prepareAndBind db sTableName st _ = _ at h
          rw [ParsePath.prepareAndBind_eq] at h
          split_ifs at h
          · exact prepareText_ne_nullStatement _ _ _ h
          · cases h
  | proc storedProc =>
      rw [parse, parseProc_eq] at h
      cases hparam : storedProc.param? with
      | none =>
          rw [hparam] at h
          cases h
      | some f =>
          rw [hparam] at h
          change callParam db _ _ f = _ at h
          rw [callParam_eq] at h
          cases f with
          | message f param =>
              rw [Field.getMessage, Except.bind] at h
              split_ifs at h
              · exact prepareText_ne_nullStatement _ _ _ h
              · cases h
          | leaf l => cases h
          | unset f => cases h
          | repeated name values => cases h
          | repeatedMessage f elems => cases h

end Operation

/-- A statement is executed only if it was prepared, and without anything to do the
operation succeeds without executing. -/
structure ExecutesPrepared (db : Server) (op : Operation) : Prop where
  prepared : ∀ s, op.parse db = .ok (true, s) → PreparedOnce db s
  executed : ∀ raises, op.run db raises ≠ .error .nullStatement
  idle : op.Idle → ∀ raises, op.run db raises = .ok (true, none)

/-- **Statements are executed only if they were prepared** exactly if the operation
is not idle. -/
theorem executesPrepared_iff (db : Server) (op : Operation) :
    ExecutesPrepared db op ↔ ¬ op.Idle := by
  constructor
  · intro h hidle
    exact (h.prepared .new (Operation.parse_idle hidle)).stmt_ne_none rfl
  · intro hidle
    refine ⟨fun s => Operation.parse_prepared hidle, ?_, fun h => absurd h hidle⟩
    intro raises h
    rw [Operation.run] at h
    cases hparse : op.parse db with
    | error e =>
        rw [hparse] at h
        cases h
        exact op.parse_ne_nullStatement db hparse
    | ok result =>
        obtain ⟨parsed, s⟩ := result
        rw [hparse] at h
        cases parsed with
        | false => cases h
        | true =>
            have hstmt := (Operation.parse_prepared hidle hparse).stmt_ne_none
            simp only [bind, Except.bind, Bool.not_true, Bool.false_eq_true, if_false,
              ZdbStatement.exec] at h
            cases hs : s.stmt with
            | none => exact hstmt hs
            | some p =>
                rw [hs] at h
                cases h

/-- A procedure without arguments. -/
def idleProc : StoredProc where
  procName := ⟨"sp_idle".toList, identifier_of_all rfl⟩
  fields := [.unset ⟨paramName, none, "level_param".toList⟩]
  distinct := List.nodup_singleton _
  grouped := by simp

/-- An update of an account whose level is zero. -/
def idleUpdate : Operation :=
  .entity (.write (.update false)) (accountEntity 1 0) account [accountId]

/-- `ParseProc` returns `true` for such a procedure, and `SpQuery` and `SpUpdate`
execute a statement that was never prepared. So does `EUpdate` for the account. -/
theorem unprepared_executed :
    ((Operation.proc idleProc).parse ⟨fun _ => true⟩ = .ok (true, .new)
      ∧ (Operation.proc idleProc).run ⟨fun _ => true⟩ false = .error .nullStatement
      ∧ ¬ ExecutesPrepared ⟨fun _ => true⟩ (.proc idleProc))
    ∧ idleUpdate.parse ⟨fun _ => true⟩ = .ok (true, .new)
      ∧ idleUpdate.run ⟨fun _ => true⟩ false = .error .nullStatement
      ∧ ¬ ExecutesPrepared ⟨fun _ => true⟩ idleUpdate := by
  have hproc : (Operation.proc idleProc).run ⟨fun _ => true⟩ false = .error .nullStatement := rfl
  have hupdate : idleUpdate.run ⟨fun _ => true⟩ false = .error .nullStatement := rfl
  exact ⟨⟨rfl, hproc, fun h => h.executed false hproc⟩, rfl, hupdate,
    fun h => h.executed false hupdate⟩

end PbEntityDb
