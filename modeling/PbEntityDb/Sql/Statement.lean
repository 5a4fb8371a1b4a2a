import PbEntityDb.Basic
import PbEntityDb.Library.Quoted

/-!
`ZdbStatement` and the prepared statement of libzdb below it.

* `Server.prepares` is the part of the database that is not in the repository:
  whether it accepts a text as a statement. Its parameter markers are the
  question marks outside of quoted names (`placeholderCount`).
* `PreparedStatement` is the bind array of `MysqlPreparedStatement`, one slot
  for each parameter marker. `addInputParameter` is a
  call of `PreparedStatement_set*` at the next index; it goes through
  `checkAndSetParameterIndex`, which crashes on an index beyond the slots.
* `holding` is the statement after a number of such calls, and
  `addInputParameter_holding` the step from one to the next.
-/

namespace PbEntityDb

open Quoted

/-- The argument of a `PreparedStatement_set*` call. -/
inductive BoundValue where
  /-- `PreparedStatement_setInt` -/
  | int (v : BitVec 32)
  /-- `PreparedStatement_setLLong` -/
  | llong (v : BitVec 64)
  /-- `PreparedStatement_setDouble` -/
  | double (v : BitVec 64)
  /-- `PreparedStatement_setTimestamp` -/
  | timestamp (t : BitVec 64)
  /-- `PreparedStatement_setString` -/
  | string (s : Text)
  /-- `PreparedStatement_setBlob` -/
  | blob (s : Text)
  deriving DecidableEq, Repr

/-- The tokens the database reads in a text. -/
def tokens (sql : Text) : List (Token Char) := lex backquote none sql

/-- The number of parameter markers, `mysql_stmt_param_count`. -/
def placeholderCount (sql : Text) : ℕ := (tokens sql).count (.sym '?')

/-- The database: which texts it accepts as statements. -/
structure Server where
  prepares : Text → Bool

/-- The bind array of a prepared statement, `none` for a slot not set yet. -/
structure PreparedStatement where
  slots : List (Option BoundValue)
  deriving DecidableEq, Repr

/-- `ZdbStatement`: the text, the prepared statement and the index of the last
parameter that was set. -/
structure ZdbStatement where
  sql : Text
  stmt : Option PreparedStatement
  inParamIndex : ℕ
  /-- how many calls of `Connection_prepareStatement` were successful -/
  prepared : ℕ
  deriving DecidableEq, Repr

namespace ZdbStatement

/-- A statement as constructed. -/
def new : ZdbStatement := ⟨[], none, 0, 0⟩

/-- The end of the `Prepare*` functions: the text is handed to
`Connection_prepareStatement`, and an exception becomes `false`. -/
def prepare (db : Server) (s : ZdbStatement) (sql : Text) : Bool × ZdbStatement :=
  if db.prepares sql then
    (true, { s with
      sql := sql
      stmt := some ⟨List.replicate (placeholderCount sql) none⟩
      prepared := s.prepared + 1 })
  else (false, { s with sql := sql })

/-- `checkAndSetParameterIndex`: indices start at one outside and at zero inside. -/
def checkAndSetParameterIndex (parameterIndex parameterCount : ℕ) : Except Fault ℕ :=
  if parameterCount = 0 ∨ parameterIndex = 0 ∨ parameterCount ≤ parameterIndex - 1 then
    .error .parameterIndex
  else .ok (parameterIndex - 1)

/-- One of the `AddInput*Parameter` functions: the value goes to the next index. -/
def addInputParameter (s : ZdbStatement) (v : BoundValue) : Except Fault ZdbStatement :=
  match s.stmt with
  | none => .error .nullStatement
  | some p => do
      let i ← checkAndSetParameterIndex (s.inParamIndex + 1) p.slots.length
      .ok { s with stmt := some ⟨p.slots.set i (some v)⟩, inParamIndex := s.inParamIndex + 1 }

/-- The slots of a statement that holds the values `vs` and was not filled further. -/
def filled (n : ℕ) (vs : List BoundValue) : List (Option BoundValue) :=
  vs.map some ++ List.replicate (n - vs.length) none

lemma filled_length {n : ℕ} {vs : List BoundValue} (h : vs.length ≤ n) :
    (filled n vs).length = n := by
  simp [filled]
  omega

lemma filled_set {n : ℕ} {vs : List BoundValue} (h : vs.length < n) (v : BoundValue) :
    (filled n vs).set vs.length (some v) = filled n (vs ++ [v]) := by
  obtain ⟨k, rfl⟩ : ∃ k, n = vs.length + (k + 1) := ⟨n - vs.length - 1, by omega⟩
  have hk : vs.length + (k + 1) - (vs.length + 1) = k := by omega
  simp [filled, List.set_append_right, List.replicate_succ, hk]

lemma filled_of_length_eq {n : ℕ} {vs : List BoundValue} (h : vs.length = n) :
    filled n vs = vs.map some := by
  simp [filled, h]

/-- The statement with text `sql` prepared once with `n` slots, of which the first
ones hold `vs`. -/
def holding (sql : Text) (n : ℕ) (vs : List BoundValue) : ZdbStatement :=
  ⟨sql, some ⟨filled n vs⟩, vs.length, 1⟩

/-- The text that reaches the database stays in the statement. -/
lemma sql_prepare (db : Server) (s : ZdbStatement) (sql : Text) :
    (s.prepare db sql).2.sql = sql := by
  rw [prepare]
  split <;> rfl

lemma prepare_new (db : Server) (sql : Text) :
    prepare db new sql
      = if db.prepares sql then (true, holding sql (placeholderCount sql) [])
        else (false, { new with sql := sql }) := by
  simp [prepare, new, holding, filled]

/-- A call goes through as long as a slot is left. -/
lemma addInputParameter_holding (sql : Text) {n : ℕ} {vs : List BoundValue} (h : vs.length ≤ n)
    (v : BoundValue) :
    (holding sql n vs).addInputParameter v
      = if vs.length < n then .ok (holding sql n (vs ++ [v])) else .error .parameterIndex := by
  by_cases hlt : vs.length < n
  · have hlen : (filled n vs).length = n := filled_length h
    have hok : checkAndSetParameterIndex (vs.length + 1) (filled n vs).length = .ok vs.length := by
      rw [checkAndSetParameterIndex, hlen, if_neg (by omega), Nat.add_sub_cancel]
    rw [if_pos hlt, addInputParameter, holding]
    simp only [hok, bind, Except.bind, filled_set hlt, holding, List.length_append,
      List.length_singleton]
  · have hlen : (filled n vs).length = n := filled_length h
    have hbad : checkAndSetParameterIndex (vs.length + 1) (filled n vs).length
        = .error .parameterIndex := by
      rw [checkAndSetParameterIndex, hlen, if_pos (by omega)]
    rw [if_neg hlt, addInputParameter, holding]
    simp only [hbad, bind, Except.bind]

end ZdbStatement

end PbEntityDb
