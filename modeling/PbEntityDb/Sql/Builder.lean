import PbEntityDb.Library.Buffer
import PbEntityDb.Sql.Statement

/-!
The statement builders of `ZdbStatement`: `PrepareSelect`, `PrepareInsert`,
`PrepareUpdate` and `PrepareDelete`, and `PrepareStoredProcCall` for the
stored procedures.

Each builder writes lists of names into `char` arrays of 4096 bytes, formats
them into `_sql`, another 4096 bytes, and hands the result to the database. A
store outside an array is a fault; `o_snprintf` cuts its output off instead.

Over the builders stands `Statement`, the statement a builder is meant to
build: `Statement.text` is its complete text, `Statement.Fits` says that the
arrays have room for their parts, and `prepareStatement_eq` ties the builders
to both. The call of a procedure has its text, `callText`, and its lemma,
`prepareStoredProcCall_eq`, at the end.
-/

namespace PbEntityDb

open Buffer

/-- The size of `chClause`, `chField`, `chPlaceholder`, `chDuplicate` and `_sql`. -/
def bufferSize : ℕ := 4096

/-! ### The items of the lists -/

/-- A name in backquotes. -/
def quoted (k : Name) : Text := backquote :: (k.chars ++ [backquote])

/-- A column next to its placeholder. -/
def assignment (k : Name) : Text := quoted k ++ "=?".toList

/-- An assignment of the duplicate clause. -/
def duplicate (k : Name) : Text := quoted k ++ "= VALUES(".toList ++ quoted k ++ ")".toList

/-- The separator of conditions. -/
def andSep : Text := " AND ".toList

/-- The separator of lists. -/
def comma : Text := ",".toList

/-! ### The arrays -/

/-- `chClause`, the conditions on the keys. -/
def chClause (vKey : List Name) : Option Text :=
  (putEach bufferSize andSep assignment false vKey []).bind (terminate bufferSize)

/-- `chField` of `PrepareInsert`: the keys and behind them the set columns. -/
def chField (vKey vSet : List Name) : Option Text :=
  ((putEach bufferSize comma quoted false vKey []).bind (terminate bufferSize)).bind fun b =>
    (putEach bufferSize comma quoted (!vKey.isEmpty) vSet b).bind (terminate bufferSize)

/-- `chPlaceholder`, one question mark for each column. -/
def chPlaceholder (n : ℕ) : Option Text :=
  (putEach bufferSize comma (fun _ : Unit => "?".toList) false (List.replicate n ()) []).bind
    (terminate bufferSize)

/-- The columns of the duplicate clause: the set columns or, without any, the
last key, which "really updates nothing". -/
def duplicateColumns (vKey vSet : List Name) : List Name :=
  if 0 < vSet.length then vSet else vKey.getLast?.toList

/-- `chDuplicate`. -/
def chDuplicate (vKey vSet : List Name) : Option Text :=
  (putEach bufferSize comma duplicate false (duplicateColumns vKey vSet) []).bind
    (terminate bufferSize)

/-- `chField` of `PrepareUpdate`: the assignments of the set columns. -/
def chAssign (vSet : List Name) : Option Text :=
  (putEach bufferSize comma assignment false vSet []).bind (terminate bufferSize)

/-! ### The formats -/

/-- `o_snprintf` into `_sql`: what does not fit in front of the terminator is lost. -/
def snprintfSql (text : Text) : Text := text.take (bufferSize - 1)

/-- The text of `PrepareSelect`. -/
def selectFormat (sTableName : Name) (clause : Text) : Text :=
  if clause = [] then "SELECT * FROM ".toList ++ quoted sTableName
  else "SELECT * FROM ".toList ++ quoted sTableName ++ " WHERE ".toList ++ clause

/-- The text of `PrepareInsert`. -/
def insertFormat (sTableName : Name) (field placeholder dup : Text) : Text :=
  if dup = [] then
    "INSERT INTO ".toList ++ quoted sTableName ++ " (".toList ++ field ++ ") VALUES (".toList
      ++ placeholder ++ ")".toList
  else
    "INSERT INTO ".toList ++ quoted sTableName ++ " (".toList ++ field ++ ") VALUES (".toList
      ++ placeholder ++ ") ON DUPLICATE KEY UPDATE ".toList ++ dup ++ " ".toList

/-- The text of `PrepareUpdate`. -/
def updateFormat (sTableName : Name) (field clause : Text) : Text :=
  if clause = [] then "UPDATE ".toList ++ quoted sTableName ++ " SET ".toList ++ field
  else "UPDATE ".toList ++ quoted sTableName ++ " SET ".toList ++ field
    ++ " WHERE ".toList ++ clause

/-- The text of `PrepareDelete`. -/
def deleteFormat (sTableName : Name) (clause : Text) : Text :=
  if clause = [] then "DELETE FROM ".toList ++ quoted sTableName
  else "DELETE FROM ".toList ++ quoted sTableName ++ " WHERE ".toList ++ clause

/-! ### The builders -/

/-- A part that left its array is a fault. -/
def stored (part : Option Text) : Except Fault Text :=
  match part with
  | none => .error .bufferOverflow
  | some text => .ok text

namespace ZdbStatement

/-- `ZdbStatement::PrepareSelect`. -/
def prepareSelect (db : Server) (s : ZdbStatement) (sTableName : Name) (vKey : List Name) :
    Except Fault (Bool × ZdbStatement) := do
  let clause ← stored (chClause vKey)
  .ok (s.prepare db (snprintfSql (selectFormat sTableName clause)))

/-- `ZdbStatement::PrepareInsert`. -/
def prepareInsert (db : Server) (s : ZdbStatement) (sTableName : Name) (vKey vSet : List Name) :
    Except Fault (Bool × ZdbStatement) := do
  let field ← stored (chField vKey vSet)
  let placeholder ← stored (chPlaceholder (vKey.length + vSet.length))
  let dup ← stored (chDuplicate vKey vSet)
  .ok (s.prepare db (snprintfSql (insertFormat sTableName field placeholder dup)))

/-- `ZdbStatement::PrepareUpdate`. -/
def prepareUpdate (db : Server) (s : ZdbStatement) (sTableName : Name) (vKey vSet : List Name) :
    Except Fault (Bool × ZdbStatement) := do
  let field ← stored (chAssign vSet)
  let clause ← stored (chClause vKey)
  .ok (s.prepare db (snprintfSql (updateFormat sTableName field clause)))

/-- `ZdbStatement::PrepareDelete`. -/
def prepareDelete (db : Server) (s : ZdbStatement) (sTableName : Name) (vKey : List Name) :
    Except Fault (Bool × ZdbStatement) := do
  let clause ← stored (chClause vKey)
  .ok (s.prepare db (snprintfSql (deleteFormat sTableName clause)))

end ZdbStatement

/-! ### The statements the builders are for -/

/-- A statement on one table: which columns it constrains and sets. -/
inductive Statement where
  | select (vKey : List Name)
  | insert (vKey vSet : List Name)
  | update (vKey vSet : List Name)
  | delete (vKey : List Name)
  deriving DecidableEq, Repr

namespace Statement

/-- The conditions on the keys. -/
def clauseText (vKey : List Name) : Text := sepBy andSep assignment false vKey

/-- The columns of an insert. -/
def fieldText (columns : List Name) : Text := sepBy comma quoted false columns

/-- The placeholders of an insert. -/
def placeholderText (n : ℕ) : Text :=
  sepBy comma (fun _ : Unit => "?".toList) false (List.replicate n ())

/-- The duplicate clause. -/
def duplicateText (columns : List Name) : Text := sepBy comma duplicate false columns

/-- The assignments of an update. -/
def assignText (vSet : List Name) : Text := sepBy comma assignment false vSet

/-- The complete text of a statement. -/
def text (sTableName : Name) : Statement → Text
  | select vKey => selectFormat sTableName (clauseText vKey)
  | insert vKey vSet =>
      insertFormat sTableName (fieldText (vKey ++ vSet))
        (placeholderText (vKey.length + vSet.length)) (duplicateText (duplicateColumns vKey vSet))
  | update vKey vSet => updateFormat sTableName (assignText vSet) (clauseText vKey)
  | delete vKey => deleteFormat sTableName (clauseText vKey)

/-- The parts of a statement have room in their arrays, terminator included. -/
def Fits : Statement → Prop
  | select vKey => (clauseText vKey).length < bufferSize
  | insert vKey vSet =>
      (fieldText (vKey ++ vSet)).length < bufferSize
        ∧ (placeholderText (vKey.length + vSet.length)).length < bufferSize
        ∧ (duplicateText (duplicateColumns vKey vSet)).length < bufferSize
  | update vKey vSet =>
      (assignText vSet).length < bufferSize ∧ (clauseText vKey).length < bufferSize
  | delete vKey => (clauseText vKey).length < bufferSize

instance (st : Statement) : Decidable st.Fits := by
  cases st <;> unfold Fits <;> infer_instance

/-- The text that reaches the database. -/
def sent (sTableName : Name) (st : Statement) : Text := snprintfSql (st.text sTableName)

/-- The builder of a statement. -/
def prepare (db : Server) (s : ZdbStatement) (sTableName : Name) :
    Statement → Except Fault (Bool × ZdbStatement)
  | select vKey => s.prepareSelect db sTableName vKey
  | insert vKey vSet => s.prepareInsert db sTableName vKey vSet
  | update vKey vSet => s.prepareUpdate db sTableName vKey vSet
  | delete vKey => s.prepareDelete db sTableName vKey

/-! ### The arrays hold the parts -/

lemma chClause_eq (vKey : List Name) :
    chClause vKey
      = if (clauseText vKey).length < bufferSize then some (clauseText vKey) else none :=
  fill_eq bufferSize andSep assignment vKey

lemma chPlaceholder_eq (n : ℕ) :
    chPlaceholder n
      = if (placeholderText n).length < bufferSize then some (placeholderText n) else none :=
  fill_eq bufferSize comma _ _

lemma chDuplicate_eq (vKey vSet : List Name) :
    chDuplicate vKey vSet
      = if (duplicateText (duplicateColumns vKey vSet)).length < bufferSize
          then some (duplicateText (duplicateColumns vKey vSet)) else none :=
  fill_eq bufferSize comma duplicate _

lemma chAssign_eq (vSet : List Name) :
    chAssign vSet
      = if (assignText vSet).length < bufferSize then some (assignText vSet) else none :=
  fill_eq bufferSize comma assignment vSet

/-- The second loop of `chField` goes on where the first one stopped. -/
lemma chField_eq (vKey vSet : List Name) :
    chField vKey vSet
      = if (fieldText (vKey ++ vSet)).length < bufferSize
          then some (fieldText (vKey ++ vSet)) else none := by
  have hsplit : fieldText (vKey ++ vSet)
      = fieldText vKey ++ sepBy comma quoted (!vKey.isEmpty) vSet := by
    simp [fieldText, sepBy_append]
  rw [chField, fill_eq]
  change (if (fieldText vKey).length < bufferSize then some (fieldText vKey) else none).bind _ = _
  by_cases hk : (fieldText vKey).length < bufferSize
  · rw [if_pos hk, Option.bind_some, putEach_eq _ _ _ _ _ _ hk.le, ← hsplit]
    by_cases h : (fieldText (vKey ++ vSet)).length ≤ bufferSize
    · rw [if_pos h]; rfl
    · rw [if_neg h, if_neg (by omega)]; rfl
  · have hlong : ¬ (fieldText (vKey ++ vSet)).length < bufferSize := by
      rw [hsplit, List.length_append]
      omega
    rw [if_neg hk, if_neg hlong]
    rfl

/-- **The builders build their statement**: the parts are stored if they fit,
and the text of the statement reaches the database, cut off at the size of
`_sql`. -/
theorem prepare_eq (db : Server) (s : ZdbStatement) (sTableName : Name) (st : Statement) :
    st.prepare db s sTableName
      = if st.Fits then .ok (s.prepare db (st.sent sTableName)) else .error .bufferOverflow := by
  cases st with
  | select vKey =>
      rw [prepare, ZdbStatement.prepareSelect, chClause_eq]
      by_cases h : (clauseText vKey).length < bufferSize
      · simp [Fits, h, stored, sent, text, bind, Except.bind]
      · simp [Fits, h, stored, bind, Except.bind]
  | insert vKey vSet =>
      rw [prepare, ZdbStatement.prepareInsert, chField_eq, chPlaceholder_eq, chDuplicate_eq]
      by_cases h1 : (fieldText (vKey ++ vSet)).length < bufferSize
      · by_cases h2 : (placeholderText (vKey.length + vSet.length)).length < bufferSize
        · by_cases h3 : (duplicateText (duplicateColumns vKey vSet)).length < bufferSize
          · simp [Fits, h1, h2, h3, stored, sent, text, bind, Except.bind]
          · simp [Fits, h1, h2, h3, stored, bind, Except.bind]
        · simp [Fits, h1, h2, stored, bind, Except.bind]
      · simp [Fits, h1, stored, bind, Except.bind]
  | update vKey vSet =>
      rw [prepare, ZdbStatement.prepareUpdate, chAssign_eq, chClause_eq]
      by_cases h1 : (assignText vSet).length < bufferSize
      · by_cases h2 : (clauseText vKey).length < bufferSize
        · simp [Fits, h1, h2, stored, sent, text, bind, Except.bind]
        · simp [Fits, h1, h2, stored, bind, Except.bind]
      · simp [Fits, h1, stored, bind, Except.bind]
  | delete vKey =>
      rw [prepare, ZdbStatement.prepareDelete, chClause_eq]
      by_cases h : (clauseText vKey).length < bufferSize
      · simp [Fits, h, stored, sent, text, bind, Except.bind]
      · simp [Fits, h, stored, bind, Except.bind]

end Statement

/-! ### Stored procedures -/

/-- The name of a stored procedure: it is the name of a message type. -/
structure ProcName where
  chars : Text
  identifier : ∀ c ∈ chars, c.isAlphanum = true ∨ c = '_'

lemma identifier_of_all {chars : Text} (h : chars.all (fun c => c.isAlphanum || c = '_') = true) :
    ∀ c ∈ chars, c.isAlphanum = true ∨ c = '_' := by
  simpa using h

/-- The start of a call. -/
def callHead (sStoredProcName : ProcName) : Text :=
  "CALL ".toList ++ sStoredProcName.chars ++ " (".toList

/-- `_sql` as `PrepareStoredProcCall` fills it: the head is cut off at its size,
everything behind the head is stored without a check. -/
def chCall (sStoredProcName : ProcName) (nParamsCount : ℕ) : Option Text :=
  ((putEach bufferSize comma (fun _ : Unit => "?".toList) false (List.replicate nParamsCount ())
    (snprintfSql (callHead sStoredProcName))).bind
      fun p => put bufferSize p ")".toList).bind (terminate bufferSize)

/-- `ZdbStatement::PrepareStoredProcCall`. -/
def ZdbStatement.prepareStoredProcCall (db : Server) (s : ZdbStatement)
    (sStoredProcName : ProcName) (nParamsCount : ℕ) : Except Fault (Bool × ZdbStatement) := do
  let sql ← stored (chCall sStoredProcName nParamsCount)
  .ok (s.prepare db sql)

/-- The complete text of a call. -/
def callText (sStoredProcName : ProcName) (nParamsCount : ℕ) : Text :=
  callHead sStoredProcName ++ Statement.placeholderText nParamsCount ++ ")".toList

/-- **The array holds the call**: a head that was cut off leaves no room for
the end, so `_sql` holds the whole call or it is left. -/
lemma chCall_eq (sStoredProcName : ProcName) (n : ℕ) :
    chCall sStoredProcName n
      = if (callText sStoredProcName n).length < bufferSize
          then some (callText sStoredProcName n) else none := by
  have hcut : (snprintfSql (callHead sStoredProcName)).length ≤ bufferSize :=
    (List.length_take_le ..).trans (Nat.sub_le ..)
  rw [chCall, fill_between _ _ _ _ _ _ hcut]
  change (if (snprintfSql (callHead sStoredProcName) ++ Statement.placeholderText n
    ++ ")".toList).length < bufferSize then _ else _) = _
  by_cases hhead : (callHead sStoredProcName).length ≤ bufferSize - 1
  · rw [snprintfSql, List.take_of_length_le hhead]
    rfl
  · have hend : ")".toList.length = 1 := rfl
    have hfull : (snprintfSql (callHead sStoredProcName)).length = bufferSize - 1 := by
      rw [snprintfSql, List.length_take]
      omega
    rw [if_neg, if_neg]
    · simp only [callText, List.length_append]
      omega
    · simp only [List.length_append]
      omega

/-- **The call that is prepared.** -/
theorem ZdbStatement.prepareStoredProcCall_eq (db : Server) (s : ZdbStatement)
    (sStoredProcName : ProcName) (n : ℕ) :
    s.prepareStoredProcCall db sStoredProcName n
      = if (callText sStoredProcName n).length < bufferSize
          then .ok (s.prepare db (callText sStoredProcName n)) else .error .bufferOverflow := by
  rw [prepareStoredProcCall, chCall_eq]
  by_cases h : (callText sStoredProcName n).length < bufferSize
  · rw [if_pos h, if_pos h]
    rfl
  · rw [if_neg h, if_neg h]
    rfl

end PbEntityDb
