import PbEntityDb.Engine.Parse
import PbEntityDb.Service.Command
import PbEntityDb.Sql.Tokens

/-!
The fixed arrays that texts are written into.

* `FixedText` is a text that the service writes into arrays of a fixed size: a
  statement and the call of a procedure into 4096 bytes, the table name of an
  entity into 1024 bytes.
* `FixedText.Kept` says that no store leaves its array and that nothing is cut
  off, and `FixedText.kept_iff` when this is so. Nothing in the code compares a
  length with a size before it writes: an entity with sixty fields is enough
  (`wide_not_kept`).
-/

namespace PbEntityDb

namespace Service

/-! ### The name of a table -/

/-- The letters of the name that the converter reads. -/
def lettersRead (sEntityName : Text) : Text := sEntityName.take (tableNameSize - 1)

/-- The underscores it writes: one for each capital behind the first letter. -/
def underscores (sEntityName : Text) : ℕ :=
  ((lettersRead sEntityName).drop 1).countP Char.isUpper

/-- What the converter writes for the letter with index `i`. -/
def converted (x : Char × ℕ) : Text :=
  if x.1.isUpper then (if 0 < x.2 then ['_'] else []) ++ [x.1.toLower] else [x.1]

lemma length_converted (c : Char) (i : ℕ) :
    (converted (c, i)).length = 1 + if c.isUpper = true ∧ 0 < i then 1 else 0 := by
  by_cases hc : c.isUpper = true
  · by_cases hi : 0 < i
    · simp [converted, hc, hi]
    · simp [converted, hc, hi]
  · simp [converted, hc]

/-- Behind the first letter every capital takes two places. -/
lemma length_converted_tail (cs : Text) {n : ℕ} (hn : 0 < n) :
    ((cs.zipIdx n).flatMap converted).length = cs.length + cs.countP Char.isUpper := by
  induction cs generalizing n with
  | nil => rfl
  | cons c cs ih =>
      have hrest := ih (Nat.succ_pos n)
      rw [List.zipIdx_cons, List.flatMap_cons, List.length_append, hrest, length_converted,
        List.length_cons, List.countP_cons]
      by_cases hc : c.isUpper = true
      · rw [if_pos ⟨hc, hn⟩, if_pos hc]
        omega
      · rw [if_neg fun h => hc h.1, if_neg hc]
        omega

/-- The places that the letters of a name take. -/
lemma length_converted_letters (sEntityName : Text) :
    ((lettersRead sEntityName).zipIdx.flatMap converted).length
      = (lettersRead sEntityName).length + underscores sEntityName := by
  rw [underscores]
  cases lettersRead sEntityName with
  | nil => rfl
  | cons c cs =>
      have hrest := length_converted_tail cs (Nat.succ_pos 0)
      calc ((c :: cs).zipIdx.flatMap converted).length
          = (converted (c, 0)).length + ((cs.zipIdx 1).flatMap converted).length := by
            rw [List.zipIdx_cons, List.flatMap_cons, List.length_append]
        _ = 1 + (cs.length + cs.countP Char.isUpper) := by
            rw [length_converted, if_neg fun h => lt_irrefl 0 h.2, hrest]
        _ = (c :: cs).length + ((c :: cs).drop 1).countP Char.isUpper := by
            rw [List.length_cons, List.drop_one, List.tail_cons]
            omega

lemma convertEntityToTable_eq (sEntityName : Text) :
    convertEntityToTable sEntityName
      = if ((lettersRead sEntityName).zipIdx.flatMap converted).length ≤ tableNameSize then
          .ok ((lettersRead sEntityName).zipIdx.flatMap converted)
        else .error .bufferOverflow := rfl

/-- **When the name of an entity is converted**: its letters and underscores fit. -/
lemma convertEntityToTable_iff (sEntityName : Text) :
    (∃ sTableName, convertEntityToTable sEntityName = .ok sTableName)
      ↔ (lettersRead sEntityName).length + underscores sEntityName ≤ tableNameSize := by
  rw [convertEntityToTable_eq, length_converted_letters]
  constructor
  · rintro ⟨sTableName, h⟩
    by_contra hlong
    rw [if_neg hlong] at h
    cases h
  · intro h
    exact ⟨_, if_pos h⟩

/-! ### All arrays -/

/-- A text that is written into fixed arrays. -/
inductive FixedText where
  | statement (sTableName : Name) (st : Statement)
  | call (sStoredProcName : ProcName) (nParamsCount : ℕ)
  | table (sEntityName : Text)

namespace FixedText

/-- Every store is inside its array, and what is handed to the database is the
complete text. -/
def Kept (db : Server) (s : ZdbStatement) : FixedText → Prop
  | statement sTableName st =>
      ∃ prepared s', st.prepare db s sTableName = .ok (prepared, s') ∧ s'.sql = st.text sTableName
  | call sStoredProcName nParamsCount =>
      ∃ prepared s', s.prepareStoredProcCall db sStoredProcName nParamsCount = .ok (prepared, s')
        ∧ s'.sql = callText sStoredProcName nParamsCount
  | table sEntityName => ∃ sTableName, convertEntityToTable sEntityName = .ok sTableName

/-- The arrays have room for the text and its parts. -/
def HasRoom : FixedText → Prop
  | statement sTableName st => st.Fits ∧ (st.text sTableName).length < bufferSize
  | call sStoredProcName nParamsCount => (callText sStoredProcName nParamsCount).length < bufferSize
  | table sEntityName => (lettersRead sEntityName).length + underscores sEntityName ≤ tableNameSize

/-- A text that was cut off is not the complete one. -/
lemma sent_eq_text_iff (sTableName : Name) (st : Statement) :
    st.sent sTableName = st.text sTableName ↔ (st.text sTableName).length < bufferSize := by
  constructor
  · intro h
    have hlen := congrArg List.length h
    rw [Statement.sent, snprintfSql, List.length_take] at hlen
    have hsize : bufferSize = 4096 := rfl
    omega
  · exact Statement.sent_eq_text

lemma statement_kept_iff (db : Server) (s : ZdbStatement) (sTableName : Name) (st : Statement) :
    (statement sTableName st).Kept db s ↔ (statement sTableName st).HasRoom := by
  rw [Kept, HasRoom, Statement.prepare_eq]
  by_cases hfits : st.Fits
  · rw [if_pos hfits, ← sent_eq_text_iff]
    constructor
    · rintro ⟨prepared, s', h, hsql⟩
      rw [Except.ok.injEq] at h
      rw [← hsql, ← s.sql_prepare db (st.sent sTableName), h]
      exact ⟨hfits, rfl⟩
    · rintro ⟨-, hsent⟩
      exact ⟨_, _, rfl, (s.sql_prepare db _).trans hsent⟩
  · rw [if_neg hfits]
    refine iff_of_false ?_ fun h => hfits h.1
    rintro ⟨prepared, s', h, -⟩
    cases h

lemma call_kept_iff (db : Server) (s : ZdbStatement) (sStoredProcName : ProcName) (n : ℕ) :
    (call sStoredProcName n).Kept db s ↔ (call sStoredProcName n).HasRoom := by
  rw [Kept, HasRoom, ZdbStatement.prepareStoredProcCall_eq]
  by_cases hfits : (callText sStoredProcName n).length < bufferSize
  · rw [if_pos hfits]
    exact iff_of_true ⟨_, _, rfl, s.sql_prepare db _⟩ hfits
  · rw [if_neg hfits]
    refine iff_of_false ?_ hfits
    rintro ⟨prepared, s', h, -⟩
    cases h

/-- **When a text is written inside its arrays and complete**: if and only if
there is room for it and for all of its parts. -/
theorem kept_iff (db : Server) (s : ZdbStatement) (x : FixedText) : x.Kept db s ↔ x.HasRoom := by
  cases x with
  | statement sTableName st => exact statement_kept_iff db s sTableName st
  | call sStoredProcName n => exact call_kept_iff db s sStoredProcName n
  | table sEntityName => exact convertEntityToTable_iff sEntityName

/-! ### A wide entity -/

/-- The column with `i + 1` letters. -/
def wideName (i : ℕ) : Name := ⟨List.replicate (i + 1) 'a', by simp [nameChar, backquote]⟩

/-- An entity with sixty fields, none of them with more than sixty letters. -/
def wideEntity : Message := (List.range 60).map fun i => .leaf (.ofInt32 (wideName i) 1)

/-- Its columns. -/
def wideColumns : List Name := (List.range 60).map wideName

lemma setNames_wide : setNames [] wideEntity = wideColumns := rfl

/-- A procedure with a name of eight letters. -/
def wideProc : ProcName := ⟨"sp_wide_".toList, identifier_of_all rfl⟩

/-- **Texts that are too long.** The duplicate clause of the wide entity leaves its
array; a condition on a column of 4080 letters is cut off; the placeholders of 2048
arguments leave `_sql`; and a name of 600 capitals leaves `chTableName`. -/
theorem wide_not_kept :
    (wideColumns.Nodup
      ∧ parseInsert ⟨fun _ => true⟩ .new wideEntity account [] = .error .bufferOverflow)
    ∧ ¬ (statement account (.insert [] wideColumns)).Kept ⟨fun _ => true⟩ .new
    ∧ ¬ (statement account (.select [wideName 4079])).Kept ⟨fun _ => true⟩ .new
    ∧ ¬ (call wideProc 2048).Kept ⟨fun _ => true⟩ .new
    ∧ ¬ (table (List.replicate 600 'A')).Kept ⟨fun _ => true⟩ .new := by
  have hwide : ¬ (Statement.insert [] wideColumns).Fits := by decide +kernel
  refine ⟨⟨by decide +kernel, ?_⟩, ?_, ?_, ?_, ?_⟩
  · have hparse := ParsePath.parse_eq ⟨fun _ => true⟩ wideEntity account [] (.write .insert)
    simp only [ParsePath.parse, ParsePath.statement, setNames_wide] at hparse
    rw [hparse, ParsePath.prepareAndBind_eq, if_neg hwide]
  · rw [statement_kept_iff]
    exact fun h => hwide h.1
  · rw [statement_kept_iff]
    intro h
    have hshort := h.2
    revert hshort
    decide +kernel
  · rw [call_kept_iff]
    show ¬ (callText wideProc 2048).length < bufferSize
    decide +kernel
  · show ¬ ∃ _, _
    rw [convertEntityToTable_iff]
    decide +kernel

end FixedText

end Service

end PbEntityDb
