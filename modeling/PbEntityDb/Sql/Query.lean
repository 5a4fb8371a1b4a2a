import PbEntityDb.Library.Reader
import PbEntityDb.Proto.Message
import PbEntityDb.Sql.Tokens

/-!
The statements the database reads in a text.

* `Query` is a statement as the database sees it: names and placeholders, no
  longer keys and set columns. `Query.read` reads the spellings that the
  builders of `ZdbStatement` use; any other text is no `Query` here, whatever
  the database makes of it.
* `read_text`: what a builder has written in full is read as its statement, and
  `prepare_reads` that a builder writes it in full if its texts fit.
* `read_sent_insert` and `read_sent_delete`: what is still read of a text that
  was cut off has lost the end of its last list at most.
-/

namespace PbEntityDb

open Buffer Quoted Reader

/-- A statement as the database reads it; each placeholder belongs to one of
the columns. -/
inductive Query where
  | select (table : Text) (conditions : List Text)
  /-- the columns, the number of values, and the assignments `c = VALUES(c')` -/
  | insert (table : Text) (columns : List Text) (values : ℕ) (onDuplicate : List (Text × Text))
  | update (table : Text) (columns conditions : List Text)
  | delete (table : Text) (conditions : List Text)
  deriving DecidableEq, Repr

/-! ### Reading -/

namespace Query

/-- A plain piece of text as tokens. -/
def plain (cs : Text) : List (Token Char) := cs.map .sym

/-- A name in backquotes. -/
def readName : List (Token Char) → Option (Text × List (Token Char))
  | .name n :: ts => some (n, ts)
  | _ => none

/-- A comparison or an assignment with a placeholder. -/
def readAssignment (ts : List (Token Char)) : Option (Text × List (Token Char)) := do
  let (n, ts) ← readName ts
  let ts ← expect (plain "=?".toList) ts
  some (n, ts)

/-- A placeholder. -/
def readMark (ts : List (Token Char)) : Option (Unit × List (Token Char)) := do
  let ts ← expect (plain "?".toList) ts
  some ((), ts)

/-- An assignment of the duplicate clause. -/
def readDuplicate (ts : List (Token Char)) : Option ((Text × Text) × List (Token Char)) := do
  let (n, ts) ← readName ts
  let ts ← expect (plain "= VALUES(".toList) ts
  let (n', ts) ← readName ts
  let ts ← expect (plain ")".toList) ts
  some ((n, n'), ts)

/-- The conditions, up to the end of the text. -/
def readConditions (ts : List (Token Char)) : Option (List Text) :=
  if ts = [] then some []
  else do
    let ts ← expect (plain " WHERE ".toList) ts
    let (conditions, ts) ← readSep (plain andSep) readAssignment ts.length ts
    if ts = [] then some conditions else none

/-- What follows the values of an insert. -/
def readOnDuplicate (ts : List (Token Char)) : Option (List (Text × Text)) :=
  if ts = [] then some []
  else do
    let ts ← expect (plain " ON DUPLICATE KEY UPDATE ".toList) ts
    let (assignments, ts) ← readSep (plain comma) readDuplicate ts.length ts
    let ts ← expect (plain " ".toList) ts
    if ts = [] then some assignments else none

/-- A `SELECT`, behind its first words. -/
def readSelect (ts : List (Token Char)) : Option Query := do
  let (table, ts) ← readName ts
  let conditions ← readConditions ts
  some (.select table conditions)

/-- A `DELETE`, behind its first words. -/
def readDelete (ts : List (Token Char)) : Option Query := do
  let (table, ts) ← readName ts
  let conditions ← readConditions ts
  some (.delete table conditions)

/-- An `UPDATE`, behind its first word. -/
def readUpdate (ts : List (Token Char)) : Option Query := do
  let (table, ts) ← readName ts
  let ts ← expect (plain " SET ".toList) ts
  let (columns, ts) ← readSep (plain comma) readAssignment ts.length ts
  let conditions ← readConditions ts
  some (.update table columns conditions)

/-- An `INSERT`, behind its first words. -/
def readInsert (ts : List (Token Char)) : Option Query := do
  let (table, ts) ← readName ts
  let ts ← expect (plain " (".toList) ts
  let (columns, ts) ← readList (plain comma) readName ts
  let ts ← expect (plain ") VALUES (".toList) ts
  let (marks, ts) ← readList (plain comma) readMark ts
  let ts ← expect (plain ")".toList) ts
  let onDuplicate ← readOnDuplicate ts
  some (.insert table columns marks.length onDuplicate)

/-- The statement in a text. -/
def read (sql : Text) : Option Query :=
  let ts := tokens sql
  match expect (plain "SELECT * FROM ".toList) ts with
  | some ts => readSelect ts
  | none =>
  match expect (plain "DELETE FROM ".toList) ts with
  | some ts => readDelete ts
  | none =>
  match expect (plain "UPDATE ".toList) ts with
  | some ts => readUpdate ts
  | none =>
  match expect (plain "INSERT INTO ".toList) ts with
  | some ts => readInsert ts
  | none => none

end Query

/-- What the database should read in the text of a statement. An insert gives the set
columns their new values where the row is there already; without any, the last key is
given the value that it has. -/
def Statement.query (t : Name) : Statement → Query
  | select vKey => .select t.chars (vKey.map Name.chars)
  | insert vKey vSet =>
      .insert t.chars ((vKey ++ vSet).map Name.chars) (vKey.length + vSet.length)
        ((if vSet = [] then vKey.getLast?.toList else vSet).map fun k => (k.chars, k.chars))
  | update vKey vSet => .update t.chars (vSet.map Name.chars) (vKey.map Name.chars)
  | delete vKey => .delete t.chars (vKey.map Name.chars)

lemma Statement.query_insert (t : Name) (vKey vSet : List Name) :
    (insert vKey vSet).query t
      = .insert t.chars ((vKey ++ vSet).map Name.chars) (vKey.length + vSet.length)
          ((duplicateColumns vKey vSet).map fun k => (k.chars, k.chars)) := by
  rw [query, duplicateColumns]
  cases vSet with
  | nil => rfl
  | cons k vSet => rw [if_neg (List.cons_ne_nil k vSet), if_pos (by simp)]

/-! ### What was written is read back -/

namespace Query

/-- Another piece that starts with another character is not read. -/
lemma expect_other {cs ds : Text} (h : cs ≠ [] ∧ ds ≠ [] ∧ cs.head? ≠ ds.head?)
    (ts : List (Token Char)) : expect (plain cs) (plain ds ++ ts) = none := by
  obtain ⟨hc, hd, hne⟩ := h
  obtain ⟨c, cs, rfl⟩ := List.exists_cons_of_ne_nil hc
  obtain ⟨d, ds, rfl⟩ := List.exists_cons_of_ne_nil hd
  exact expect_cons_of_ne (fun e => hne (by simpa using e.symm)) _ _

/-- A name is no piece of plain text. -/
lemma expect_name {cs : Text} (hcs : cs ≠ []) (n : Text) (ts : List (Token Char)) :
    expect (plain cs) ([.name n] ++ ts) = none := by
  obtain ⟨c, cs, rfl⟩ := List.exists_cons_of_ne_nil hcs
  exact expect_cons_of_ne (by simp) _ _

/-- The tokens of a comparison or an assignment. -/
def assignmentTokens (n : Text) : List (Token Char) := [.name n] ++ plain "=?".toList

/-- The tokens of an assignment of the duplicate clause. -/
def duplicateTokens (p : Text × Text) : List (Token Char) :=
  [.name p.1] ++ (plain "= VALUES(".toList ++ ([.name p.2] ++ plain ")".toList))

lemma readName_append (n : Text) (ts : List (Token Char)) :
    readName ([.name n] ++ ts) = some (n, ts) := rfl

lemma readAssignment_append (n : Text) (ts : List (Token Char)) :
    readAssignment (assignmentTokens n ++ ts) = some (n, ts) := by
  rw [readAssignment, assignmentTokens, List.append_assoc, readName_append]
  simp [expect_append]

lemma readMark_append (u : Unit) (ts : List (Token Char)) :
    readMark (plain "?".toList ++ ts) = some (u, ts) := by
  rw [readMark, expect_append]
  rfl

lemma readDuplicate_append (p : Text × Text) (ts : List (Token Char)) :
    readDuplicate (duplicateTokens p ++ ts) = some (p, ts) := by
  rw [readDuplicate, duplicateTokens, List.append_assoc, readName_append]
  simp only [Option.bind_eq_bind, Option.bind_some, List.append_assoc, expect_append]
  rw [readName_append]
  simp only [Option.bind_some, expect_append]

/-- The conditions are read back. -/
lemma readConditions_whereText (vKey : List Name) :
    readConditions (tokens (whereText vKey)) = some (vKey.map Name.chars) := by
  rcases eq_or_ne vKey [] with rfl | hk
  · rfl
  · have htokens : tokens (whereText vKey) = plain " WHERE ".toList
        ++ (sepBy (plain andSep) assignmentTokens false (vKey.map Name.chars) ++ []) := by
      rw [tokens_whereText_of_ne hk, List.append_nil, sepBy_map]
      rfl
    have hread := @readSep_length _ _ _ (plain andSep) _ _ (fun n => by simp [assignmentTokens])
      readAssignment_append [] (by decide) (vKey.map Name.chars) (by simpa using hk)
    rw [htokens, readConditions, if_neg (by simp [plain]), expect_append]
    simp only [Option.bind_eq_bind, Option.bind_some, hread, if_true]

/-- The set columns are read back, up to the conditions. -/
lemma readAssignments_assignText {vSet : List Name} (h : vSet ≠ []) (vKey : List Name) :
    readSep (plain comma) readAssignment
        (tokens (Statement.assignText vSet ++ whereText vKey)).length
        (tokens (Statement.assignText vSet ++ whereText vKey))
      = some (vSet.map Name.chars, tokens (whereText vKey)) := by
  obtain ⟨hclosed, htok⟩ := tokens_assignments comma (by decide) false vSet
  have htokens : tokens (Statement.assignText vSet ++ whereText vKey)
      = sepBy (plain comma) assignmentTokens false (vSet.map Name.chars)
        ++ tokens (whereText vKey) := by
    rw [Statement.assignText, tokens_append hclosed, htok, sepBy_map]
    rfl
  have hend : expect (plain comma) (tokens (whereText vKey)) = none := by
    rcases eq_or_ne vKey [] with rfl | hk
    · rfl
    · rw [tokens_whereText_of_ne hk]
      exact expect_cons_of_ne (by decide) _ _
  rw [htokens]
  exact readSep_length (fun n => by simp [assignmentTokens]) readAssignment_append hend _
    (by simpa using h)

/-- What follows the values of an insert. -/
def onDuplicateTokens (columns : List Name) : List (Token Char) :=
  if columns = [] then []
  else plain " ON DUPLICATE KEY UPDATE ".toList ++ (sepBy (plain comma) duplicateTokens false
    (columns.map fun k => (k.chars, k.chars)) ++ plain " ".toList)

lemma tokens_insertTail (columns : List Name) :
    tokens (insertTail (Statement.duplicateText columns))
      = plain ")".toList ++ onDuplicateTokens columns := by
  rcases eq_or_ne columns [] with rfl | hc
  · rfl
  · have hdup : Statement.duplicateText columns ≠ [] := fun e =>
      hc ((sepBy_eq_nil_iff (fun k => by simp [duplicate, quoted]) _ _).mp e)
    have hon : backquote ∉ ") ON DUPLICATE KEY UPDATE ".toList := by decide
    obtain ⟨hclosed, htok⟩ :=
      tokens_sepBy comma duplicate (by decide) closed_duplicate false columns
    have hitem : (fun k : Name => tokens (duplicate k))
        = fun k : Name => duplicateTokens (k.chars, k.chars) := by
      funext k
      rw [tokens_duplicate]
      rfl
    rw [insertTail, if_neg hdup, List.append_assoc, tokens_append (closed_of_notMem hon),
      tokens_of_notMem hon, Statement.duplicateText, tokens_append hclosed, htok, hitem,
      onDuplicateTokens, if_neg hc, sepBy_map]
    rfl

/-- The duplicate clause is read back. -/
lemma readOnDuplicate_tokens (columns : List Name) :
    readOnDuplicate (onDuplicateTokens columns)
      = some (columns.map fun k => (k.chars, k.chars)) := by
  rcases eq_or_ne columns [] with rfl | hc
  · rfl
  · have hread := @readSep_length _ _ _ (plain comma) _ _ (fun p => by simp [duplicateTokens])
      readDuplicate_append (plain " ".toList) (by decide) (columns.map fun k => (k.chars, k.chars))
      (by simpa using hc)
    rw [onDuplicateTokens, if_neg hc, readOnDuplicate, if_neg (by simp [plain]), expect_append]
    simp only [Option.bind_eq_bind, Option.bind_some, hread]
    rfl

/-- The pieces of an insert. -/
lemma tokens_insert_pieces (t : Name) (vKey vSet : List Name) :
    tokens ((Statement.insert vKey vSet).text t)
      = plain "INSERT INTO ".toList ++ ([.name t.chars] ++ (plain " (".toList
        ++ (sepBy (plain comma) (fun n => [.name n]) false ((vKey ++ vSet).map Name.chars)
        ++ (plain ") VALUES (".toList ++ (sepBy (plain comma) (fun _ : Unit => plain "?".toList)
          false (List.replicate (vKey.length + vSet.length) ())
        ++ (plain ")".toList ++ onDuplicateTokens (duplicateColumns vKey vSet))))))) := by
  have hv : backquote ∉ " VALUES (".toList := by decide
  obtain ⟨hclosed, htok⟩ := tokens_sepBy comma (fun _ : Unit => "?".toList) (by decide)
    (fun _ => by decide) false (List.replicate (vKey.length + vSet.length) ())
  rw [Statement.tokens_insert, tokens_lead t (by decide) (by decide),
    tokens_append (closed_of_notMem hv), tokens_of_notMem hv, Statement.placeholderText,
    tokens_append hclosed, htok, tokens_insertTail, sepBy_map, List.append_assoc]
  rfl

/-- The pieces of a delete. -/
lemma tokens_delete_pieces (t : Name) (vKey : List Name) :
    tokens ((Statement.delete vKey).text t)
      = plain "DELETE FROM ".toList ++ ([.name t.chars] ++ tokens (whereText vKey)) := by
  rw [Statement.text_delete, tokens_append (closed_lead t (by decide) (by decide)),
    tokens_lead t (by decide) (by decide)]
  simp [plain]

/-- **What a builder has written in full is read as its statement**; an update
sets a column. -/
theorem read_text (t : Name) (st : Statement) (h : ∀ vKey, st ≠ .update vKey []) :
    read (st.text t) = some (st.query t) := by
  cases st with
  | select vKey =>
      have htokens : tokens ((Statement.select vKey).text t)
          = plain "SELECT * FROM ".toList ++ ([.name t.chars] ++ tokens (whereText vKey)) := by
        rw [Statement.text_select, tokens_append (closed_lead t (by decide) (by decide)),
          tokens_lead t (by decide) (by decide)]
        simp [plain]
      rw [read, htokens, expect_append]
      simp only [readSelect, readName_append, Option.bind_eq_bind, Option.bind_some,
        readConditions_whereText]
      rfl
  | delete vKey =>
      rw [read, tokens_delete_pieces, expect_other (by decide), expect_append]
      simp only [readDelete, readName_append, Option.bind_eq_bind, Option.bind_some,
        readConditions_whereText]
      rfl
  | update vKey vSet =>
      have hset : vSet ≠ [] := fun e => h vKey (by rw [e])
      have htokens : tokens ((Statement.update vKey vSet).text t)
          = plain "UPDATE ".toList ++ ([.name t.chars] ++ (plain " SET ".toList
            ++ tokens (Statement.assignText vSet ++ whereText vKey))) := by
        rw [Statement.text_update, tokens_append (closed_lead t (by decide) (by decide)),
          tokens_lead t (by decide) (by decide)]
        simp [plain]
      rw [read, htokens, expect_other (by decide), expect_other (by decide), expect_append]
      simp only [readUpdate, readName_append, Option.bind_eq_bind, Option.bind_some, expect_append,
        readAssignments_assignText hset, readConditions_whereText]
      rfl
  | insert vKey vSet =>
      have hcolumns := @readList_sepBy _ _ _ (plain comma) readName (fun n => [.name n])
        (fun n => by simp) readName_append
        (plain ") VALUES (".toList ++ (sepBy (plain comma) (fun _ : Unit => plain "?".toList)
          false (List.replicate (vKey.length + vSet.length) ())
          ++ (plain ")".toList ++ onDuplicateTokens (duplicateColumns vKey vSet))))
        (expect_cons_of_ne (by decide) _ _) rfl ((vKey ++ vSet).map Name.chars)
      have hmark : readMark (plain ")".toList ++ onDuplicateTokens (duplicateColumns vKey vSet))
          = none := by
        have : expect (plain "?".toList)
            (plain ")".toList ++ onDuplicateTokens (duplicateColumns vKey vSet)) = none :=
          expect_cons_of_ne (by decide) _ _
        rw [readMark, this]
        rfl
      have hmarks := @readList_sepBy _ _ _ (plain comma) readMark (fun _ => plain "?".toList)
        (fun _ => by simp [plain]) readMark_append
        (plain ")".toList ++ onDuplicateTokens (duplicateColumns vKey vSet))
        (expect_cons_of_ne (by decide) _ _) hmark
        (List.replicate (vKey.length + vSet.length) ())
      rw [read, tokens_insert_pieces, expect_other (by decide), expect_other (by decide),
        expect_other (by decide), expect_append]
      simp only [readInsert, readName_append, Option.bind_eq_bind, Option.bind_some, expect_append,
        hcolumns, hmarks, readOnDuplicate_tokens, List.length_replicate, Statement.query_insert]

/-! ### Texts that were cut off -/

lemma readName_initial (n : Text) (ts us : List (Token Char)) (m : Text) (us' : List (Token Char))
    (hus : us <+: [.name n] ++ ts) (h : readName us = some (m, us')) : m = n ∧ us' <+: ts := by
  cases us with
  | nil => cases h
  | cons u us =>
      obtain ⟨rfl, hrest⟩ := List.cons_prefix_cons.mp hus
      cases h
      exact ⟨rfl, hrest⟩

lemma readAssignment_initial (n : Text) (ts us : List (Token Char)) (m : Text)
    (us' : List (Token Char)) (hus : us <+: assignmentTokens n ++ ts)
    (h : readAssignment us = some (m, us')) : m = n ∧ us' <+: ts := by
  rw [assignmentTokens, List.append_assoc] at hus
  obtain ⟨⟨m', us₁⟩, hname, h⟩ := Option.bind_eq_some_iff.mp h
  obtain ⟨us₂, hmark, h⟩ := Option.bind_eq_some_iff.mp h
  cases h
  obtain ⟨rfl, hus₁⟩ := readName_initial n _ us _ us₁ hus hname
  exact ⟨rfl, expect_initial hmark hus₁⟩

lemma readMark_initial (u : Unit) (ts us : List (Token Char)) (v : Unit) (us' : List (Token Char))
    (hus : us <+: plain "?".toList ++ ts) (h : readMark us = some (v, us')) :
    v = u ∧ us' <+: ts := by
  obtain ⟨us₁, hmark, h⟩ := Option.bind_eq_some_iff.mp h
  cases h
  exact ⟨rfl, expect_initial hmark hus⟩

lemma readDuplicate_initial (p : Text × Text) (ts us : List (Token Char)) (r : Text × Text)
    (us' : List (Token Char)) (hus : us <+: duplicateTokens p ++ ts)
    (h : readDuplicate us = some (r, us')) : r = p ∧ us' <+: ts := by
  simp only [duplicateTokens, List.append_assoc] at hus
  obtain ⟨⟨n, us₁⟩, hname, h⟩ := Option.bind_eq_some_iff.mp h
  obtain ⟨us₂, hvalues, h⟩ := Option.bind_eq_some_iff.mp h
  obtain ⟨⟨n', us₃⟩, hname', h⟩ := Option.bind_eq_some_iff.mp h
  obtain ⟨us₄, hclose, h⟩ := Option.bind_eq_some_iff.mp h
  cases h
  obtain ⟨rfl, hus₁⟩ := readName_initial p.1 _ us _ us₁ hus hname
  obtain ⟨rfl, hus₃⟩ := readName_initial p.2 _ us₂ _ us₃ (expect_initial hvalues hus₁) hname'
  exact ⟨rfl, expect_initial hclose hus₃⟩

/-- A list with its end behind it was read in full: otherwise a separator or an
item stands where the end was read. -/
lemma readList_done {α : Type} {item : List (Token Char) → Option (α × List (Token Char))}
    {print : α → List (Token Char)} {piece : Text} {rest us us' us'' : List (Token Char)}
    {xs ys : List α} (hpiece : piece ≠ [] ∧ comma ≠ [] ∧ piece.head? ≠ comma.head?)
    (hitem : ∀ x ts us y us', us <+: print x ++ ts → item us = some (y, us') → y = x ∧ us' <+: ts)
    (hother : ∀ x ts, expect (plain piece) (print x ++ ts) = none)
    (hend : ∀ us, us <+: plain piece ++ rest → item us = none)
    (hus : us <+: sepBy (plain comma) print false xs ++ (plain piece ++ rest))
    (hread : readList (plain comma) item us = some (ys, us'))
    (h : expect (plain piece) us' = some us'') : ys = xs ∧ us'' <+: rest := by
  have hsep : expect (plain comma) (plain piece ++ rest) = none :=
    expect_other ⟨hpiece.2.1, hpiece.1, hpiece.2.2.symm⟩ rest
  rcases readList_initial hitem hsep hend hus hread with ⟨rfl, rfl⟩ | ⟨zs, rfl, hus'⟩
  · cases xs with
    | nil => exact ⟨rfl, expect_initial h hus⟩
    | cons x xs =>
        rw [sepBy_cons, if_neg (by simp), List.nil_append, List.append_assoc] at hus
        rw [expect_none_of_initial (hother x _) hus] at h
        cases h
  · cases zs with
    | nil => exact ⟨(List.append_nil ys).symm, expect_initial h hus'⟩
    | cons z zs =>
        rw [sepBy_cons, if_pos rfl, List.append_assoc, List.append_assoc] at hus'
        rw [expect_none_of_initial (expect_other hpiece _) hus'] at h
        cases h

/-- What is read of the beginning of a duplicate clause. -/
lemma readOnDuplicate_initial {columns : List Name} {us : List (Token Char)}
    {assignments : List (Text × Text)} (hus : us <+: onDuplicateTokens columns)
    (h : readOnDuplicate us = some assignments) :
    ∃ ds, ds <+: columns ∧ assignments = ds.map fun k => (k.chars, k.chars) := by
  rw [readOnDuplicate] at h
  by_cases hnil : us = []
  · rw [if_pos hnil, Option.some.injEq] at h
    exact ⟨[], List.nil_prefix, h.symm⟩
  · have hc : columns ≠ [] := by
      rintro rfl
      exact hnil (List.prefix_nil.mp hus)
    rw [if_neg hnil] at h
    rw [onDuplicateTokens, if_neg hc] at hus
    obtain ⟨us₁, hon, h⟩ := Option.bind_eq_some_iff.mp h
    obtain ⟨⟨ps, us₂⟩, hps, h⟩ := Option.bind_eq_some_iff.mp h
    obtain ⟨us₃, -, h⟩ := Option.bind_eq_some_iff.mp h
    obtain ⟨qs, hqs, -⟩ := readSep_initial readDuplicate_initial (by decide) (by simpa using hc)
      (expect_initial hon hus) hps
    obtain ⟨ds, es, hcolumns, hds, -⟩ := List.map_eq_append_iff.mp hqs
    by_cases hend : us₃ = []
    · rw [if_pos hend, Option.some.injEq] at h
      exact ⟨ds, ⟨es, hcolumns.symm⟩, by rw [← h, hds]⟩
    · rw [if_neg hend] at h
      cases h

/-- What is read of the beginning of the conditions. -/
lemma readConditions_initial {vKey : List Name} {us : List (Token Char)} {conditions : List Text}
    (hus : us <+: tokens (whereText vKey)) (h : readConditions us = some conditions) :
    ∃ ks, ks <+: vKey ∧ conditions = ks.map Name.chars := by
  rw [readConditions] at h
  by_cases hnil : us = []
  · rw [if_pos hnil, Option.some.injEq] at h
    exact ⟨[], List.nil_prefix, h.symm⟩
  · have hk : vKey ≠ [] := by
      rintro rfl
      exact hnil (List.prefix_nil.mp hus)
    rw [if_neg hnil] at h
    have htokens : tokens (whereText vKey) = plain " WHERE ".toList
        ++ (sepBy (plain andSep) assignmentTokens false (vKey.map Name.chars) ++ []) := by
      rw [tokens_whereText_of_ne hk, List.append_nil, sepBy_map]
      rfl
    rw [htokens] at hus
    obtain ⟨us₁, hwhere, h⟩ := Option.bind_eq_some_iff.mp h
    obtain ⟨⟨ps, us₂⟩, hps, h⟩ := Option.bind_eq_some_iff.mp h
    obtain ⟨qs, hqs, -⟩ := readSep_initial readAssignment_initial (by decide) (by simpa using hk)
      (expect_initial hwhere hus) hps
    obtain ⟨ks, es, hkeys, hks, -⟩ := List.map_eq_append_iff.mp hqs
    change (if us₂ = [] then some ps else none) = some conditions at h
    by_cases hend : us₂ = []
    · rw [if_pos hend, Option.some.injEq] at h
      exact ⟨ks, ⟨es, hkeys.symm⟩, by rw [← h, hks]⟩
    · rw [if_neg hend] at h
      cases h

/-- **An insert that was cut off** is still read only if it has lost nothing in
front of its duplicate clause. -/
theorem read_sent_insert {t : Name} {vKey vSet : List Name} {q : Query}
    (h : read ((Statement.insert vKey vSet).sent t) = some q) :
    ∃ ds, ds <+: duplicateColumns vKey vSet
      ∧ q = .insert t.chars ((vKey ++ vSet).map Name.chars) (vKey.length + vSet.length)
          (ds.map fun k => (k.chars, k.chars)) := by
  have hnoName : ∀ {ts us : List (Token Char)}, us <+: plain ") VALUES (".toList ++ ts →
      readName us = none := by
    intro ts us hus
    cases us with
    | nil => rfl
    | cons u us =>
        obtain ⟨rfl, -⟩ := List.cons_prefix_cons.mp hus
        rfl
  have hnoMark : ∀ {ts us : List (Token Char)}, us <+: plain ")".toList ++ ts →
      readMark us = none := by
    intro ts us hus
    rw [readMark, expect_none_of_initial (expect_other (by decide) _) hus]
    rfl
  have hus := Statement.tokens_sent_initial t (.insert vKey vSet)
  rw [tokens_insert_pieces] at hus
  rw [read, expect_none_of_initial (expect_other (by decide) _) hus,
    expect_none_of_initial (expect_other (by decide) _) hus,
    expect_none_of_initial (expect_other (by decide) _) hus] at h
  cases hlead : expect (plain "INSERT INTO ".toList)
      (tokens ((Statement.insert vKey vSet).sent t)) with
  | none =>
      rw [hlead] at h
      cases h
  | some us₁ =>
      rw [hlead] at h
      obtain ⟨⟨n, us₂⟩, hname, h⟩ := Option.bind_eq_some_iff.mp h
      obtain ⟨us₃, hopen, h⟩ := Option.bind_eq_some_iff.mp h
      obtain ⟨⟨columns, us₄⟩, hcolumns, h⟩ := Option.bind_eq_some_iff.mp h
      obtain ⟨us₅, hvalues, h⟩ := Option.bind_eq_some_iff.mp h
      obtain ⟨⟨marks, us₆⟩, hmarks, h⟩ := Option.bind_eq_some_iff.mp h
      obtain ⟨us₇, hclose, h⟩ := Option.bind_eq_some_iff.mp h
      obtain ⟨onDuplicate, hdup, h⟩ := Option.bind_eq_some_iff.mp h
      cases h
      obtain ⟨rfl, hus₂⟩ := readName_initial _ _ us₁ _ us₂ (expect_initial hlead hus) hname
      obtain ⟨rfl, hus₅⟩ := readList_done (by decide) readName_initial
        (fun _ _ => expect_name (by decide) _ _) (fun _ => hnoName) (expect_initial hopen hus₂)
        hcolumns hvalues
      obtain ⟨rfl, hus₇⟩ := readList_done (by decide) readMark_initial
        (fun _ _ => expect_other (by decide) _) (fun _ => hnoMark) hus₅ hmarks hclose
      obtain ⟨ds, hds, rfl⟩ := readOnDuplicate_initial hus₇ hdup
      exact ⟨ds, hds, by rw [List.length_replicate]⟩

/-- **A delete that was cut off** keeps the first of its conditions. -/
theorem read_sent_delete {t : Name} {vKey : List Name} {q : Query}
    (h : read ((Statement.delete vKey).sent t) = some q) :
    ∃ ks, ks <+: vKey ∧ q = .delete t.chars (ks.map Name.chars) := by
  have hus := Statement.tokens_sent_initial t (.delete vKey)
  rw [tokens_delete_pieces] at hus
  rw [read, expect_none_of_initial (expect_other (by decide) _) hus] at h
  cases hlead : expect (plain "DELETE FROM ".toList)
      (tokens ((Statement.delete vKey).sent t)) with
  | none =>
      rw [hlead, expect_none_of_initial (expect_other (by decide) _) hus,
        expect_none_of_initial (expect_other (by decide) _) hus] at h
      cases h
  | some us₁ =>
      rw [hlead] at h
      obtain ⟨⟨n, us₂⟩, hname, h⟩ := Option.bind_eq_some_iff.mp h
      obtain ⟨conditions, hconditions, h⟩ := Option.bind_eq_some_iff.mp h
      cases h
      obtain ⟨rfl, hus₂⟩ := readName_initial _ _ us₁ _ us₂ (expect_initial hlead hus) hname
      obtain ⟨ks, hks, rfl⟩ := readConditions_initial hus₂ hconditions
      exact ⟨ks, hks, rfl⟩

end Query

/-! ### What a builder leaves in `_sql` -/

/-- **The builders build the statement they are meant to build**: if the texts
fit, `_sql` is read as a statement on the table, with the keys and the set
columns in their order, and it has one placeholder for each column. -/
theorem Statement.prepare_reads (db : Server) (s : ZdbStatement) (t : Name) (st : Statement)
    (hset : ∀ vKey, st ≠ .update vKey []) (hfits : st.Fits)
    (htext : (st.text t).length < bufferSize) :
    ∃ prepared s', st.prepare db s t = .ok (prepared, s')
      ∧ Query.read s'.sql = some (st.query t)
      ∧ placeholderCount s'.sql = st.columns.length := by
  have hsql := s.sql_prepare db (st.text t)
  refine ⟨(s.prepare db (st.text t)).1, (s.prepare db (st.text t)).2, ?_, ?_, ?_⟩
  · rw [prepare_eq, if_pos hfits, sent_eq_text htext]
  · rw [hsql, Query.read_text t st hset]
  · rw [hsql, placeholderCount_text]

/-- An insert of an account. -/
theorem prepare_reads_account : ∃ prepared s',
    (Statement.insert [accountId] [accountLevel]).prepare ⟨fun _ => true⟩ .new account
        = .ok (prepared, s')
      ∧ Query.read s'.sql = some (.insert account.chars [accountId.chars, accountLevel.chars] 2
          [(accountLevel.chars, accountLevel.chars)])
      ∧ placeholderCount s'.sql = 2 := by
  have hfits : (Statement.insert [accountId] [accountLevel]).Fits := by decide
  have htext :
      ((Statement.insert [accountId] [accountLevel]).text account).length < bufferSize := by
    decide
  exact Statement.prepare_reads ⟨fun _ => true⟩ .new account (.insert [accountId] [accountLevel])
    (fun _ => by simp) hfits htext

end PbEntityDb
