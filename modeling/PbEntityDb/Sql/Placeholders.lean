import PbEntityDb.Sql.Tokens

/-!
Where the placeholders of a statement stand, and how many `o_snprintf` keeps.

* `strides` are the distances from one placeholder of a list to the next, and
  `Statement.strides` those of a complete statement: they follow from the lengths
  of the names alone. `kept` counts the placeholders in a number of characters.
* `Marks` says that a text has its placeholders at such distances, however much of
  it is cut off; it is put together piece by piece (`Marks.cons`).
* `placeholderCount_sent_eq`: what reaches the database of a statement.
-/

namespace PbEntityDb

open Buffer Quoted

/-! ### Distances -/

/-- The distances between the ends of the items of a list: the first one stands behind `head`
characters, and each other one behind a separator of `sep` characters. -/
def strides {α : Type} (len : α → ℕ) (head sep : ℕ) : List α → List ℕ
  | [] => []
  | x :: xs => (head + len x) :: strides len sep sep xs

/-- How many of the distances fit into `n` characters. -/
def kept : ℕ → List ℕ → ℕ
  | _, [] => 0
  | n, d :: ds => if d ≤ n then kept (n - d) ds + 1 else 0

@[simp] lemma length_strides {α : Type} (len : α → ℕ) (head sep : ℕ) (xs : List α) :
    (strides len head sep xs).length = xs.length := by
  induction xs generalizing head with
  | nil => rfl
  | cons x xs ih => rw [strides, List.length_cons, List.length_cons, ih]

lemma kept_le (n : ℕ) (ds : List ℕ) : kept n ds ≤ ds.length := by
  induction ds generalizing n with
  | nil => rfl
  | cons d ds ih =>
      rw [kept, List.length_cons]
      split
      · exact Nat.succ_le_succ (ih _)
      · exact Nat.zero_le _

/-- The length of a column with its quotes and `=?`. -/
def assignmentLength (k : Name) : ℕ := k.chars.length + 4

/-- The length of a list of columns in quotes. -/
def fieldLength (columns : List Name) : ℕ := (columns.map fun k => k.chars.length + 3).sum - 1

namespace Statement

/-- The distances between the placeholders of a statement: `SELECT * FROM`, `DELETE FROM`,
`UPDATE` and `INSERT INTO` with the table, and the keywords behind it, stand in front of the
first one. -/
def strides (t : Name) : Statement → List ℕ
  | select vKey => PbEntityDb.strides assignmentLength (t.chars.length + 23) 5 vKey
  | insert vKey vSet =>
      PbEntityDb.strides (fun _ => 1) (t.chars.length + fieldLength (vKey ++ vSet) + 26) 1
        (vKey ++ vSet)
  | update vKey vSet =>
      PbEntityDb.strides assignmentLength (t.chars.length + 14) 1 vSet
        ++ PbEntityDb.strides assignmentLength 7 5 vKey
  | delete vKey => PbEntityDb.strides assignmentLength (t.chars.length + 21) 5 vKey

/-- The placeholders that stand behind the characters that `o_snprintf` keeps. -/
def lost (t : Name) (st : Statement) : ℕ :=
  (st.strides t).length - kept (bufferSize - 1) (st.strides t)

lemma length_strides (t : Name) (st : Statement) : (st.strides t).length = st.columns.length := by
  cases st <;> simp [strides, columns]

end Statement

/-! ### Texts with placeholders -/

/-- The placeholders that are left when the text is cut off. -/
def Marks (cs : Text) (ds : List ℕ) : Prop :=
  ∀ n, (tokens (cs.take n)).count (.sym '?') = kept n ds

/-- A text without placeholders. -/
lemma Marks.nil {cs : Text} (h : (tokens cs).count (.sym '?') = 0) : Marks cs [] := fun n =>
  Nat.eq_zero_of_le_zero (((lex_take _ none cs n).sublist.count_le _).trans h.le)

/-- A piece that ends with a placeholder. -/
lemma Marks.cons {body rest : Text} {ds : List ℕ} (hclosed : Closed body)
    (hnone : (tokens body).count (.sym '?') = 0) (h : Marks rest ds) :
    Marks (body ++ '?' :: rest) ((body.length + 1) :: ds) := by
  intro n
  rw [kept]
  by_cases hn : body.length + 1 ≤ n
  · have htake : (body ++ '?' :: rest).take n
        = body ++ '?' :: rest.take (n - (body.length + 1)) := by
      obtain ⟨k, rfl⟩ : ∃ k, n = body.length + (k + 1) := ⟨n - (body.length + 1), by omega⟩
      rw [List.take_length_add_append, List.take_succ_cons]
      congr 3
      omega
    have hmark : tokens ('?' :: rest.take (n - (body.length + 1)))
        = .sym '?' :: tokens (rest.take (n - (body.length + 1))) := rfl
    rw [if_pos hn, htake, tokens_append hclosed, List.count_append, hnone, hmark,
      List.count_cons_self, h, Nat.zero_add]
  · have htake : (body ++ '?' :: rest).take n = body.take n :=
      List.take_append_of_le_length (by omega)
    rw [if_neg hn, htake]
    exact Marks.nil hnone n

section Lists

variable {α : Type} {item body : α → Text} {sep : Text}

/-- A list behind another item. -/
lemma Marks.sepBy (hitem : ∀ x, item x = body x ++ ['?']) (hbody : ∀ x, Closed (body x))
    (hnone : ∀ x, (tokens (body x)).count (.sym '?') = 0) (hsep : Closed sep)
    (hsepNone : (tokens sep).count (.sym '?') = 0) {tail : Text} {ds : List ℕ}
    (htail : Marks tail ds) (xs : List α) :
    Marks (sepBy sep item true xs ++ tail)
      (strides (fun x => (item x).length) sep.length sep.length xs ++ ds) := by
  induction xs with
  | nil => exact htail
  | cons x xs ih =>
      have hpiece := Marks.cons (hsep.append (hbody x)) (by
        rw [tokens_append hsep, List.count_append, hsepNone, hnone]) ih
      have htext : Buffer.sepBy sep item true (x :: xs) ++ tail
          = sep ++ body x ++ '?' :: (Buffer.sepBy sep item true xs ++ tail) := by
        rw [sepBy_cons, hitem]
        simp
      have hlen : sep.length + (item x).length = (sep ++ body x).length + 1 := by
        rw [hitem, List.length_append, List.length_append, List.length_singleton]
        omega
      rw [htext, strides, hlen]
      exact hpiece

/-- A list behind a text without placeholders. -/
lemma Marks.headed (hitem : ∀ x, item x = body x ++ ['?']) (hbody : ∀ x, Closed (body x))
    (hnone : ∀ x, (tokens (body x)).count (.sym '?') = 0) (hsep : Closed sep)
    (hsepNone : (tokens sep).count (.sym '?') = 0) {head tail : Text} {ds : List ℕ}
    (hhead : Closed head) (hheadNone : (tokens head).count (.sym '?') = 0) (htail : Marks tail ds)
    {xs : List α} (hxs : xs ≠ []) :
    Marks (head ++ (Buffer.sepBy sep item false xs ++ tail))
      (strides (fun x => (item x).length) head.length sep.length xs ++ ds) := by
  obtain ⟨x, xs, rfl⟩ := List.exists_cons_of_ne_nil hxs
  have hpiece := Marks.cons (hhead.append (hbody x)) (by
    rw [tokens_append hhead, List.count_append, hheadNone, hnone])
    (Marks.sepBy hitem hbody hnone hsep hsepNone htail xs)
  have htext : head ++ (Buffer.sepBy sep item false (x :: xs) ++ tail)
      = head ++ body x ++ '?' :: (Buffer.sepBy sep item true xs ++ tail) := by
    rw [sepBy_cons, hitem]
    simp
  have hlen : head.length + (item x).length = (head ++ body x).length + 1 := by
    rw [hitem, List.length_append, List.length_append, List.length_singleton]
    omega
  rw [htext, strides, hlen]
  exact hpiece

end Lists

/-! ### The statements -/

/-- A list of columns with placeholders, behind a text without any. -/
lemma marks_assignments {head sep tail : Text} {ds : List ℕ} (hsep : backquote ∉ sep)
    (hsepNone : '?' ∉ sep) (hhead : Closed head) (hheadNone : (tokens head).count (.sym '?') = 0)
    (htail : Marks tail ds) {ks : List Name} (hks : ks ≠ []) :
    Marks (head ++ (sepBy sep assignment false ks ++ tail))
      (strides assignmentLength head.length sep.length ks ++ ds) := by
  have hlen : (fun k => (assignment k).length) = assignmentLength := by
    funext k
    simp [assignment, quoted, assignmentLength]
  have hitem : ∀ k, assignment k = (quoted k ++ ['=']) ++ ['?'] := fun k => by simp [assignment]
  have hnone : ∀ k : Name, (tokens (quoted k ++ ['='])).count (.sym '?') = 0 := by
    intro k
    have heq : (tokens ['=']).count (.sym '?') = 0 := by decide
    rw [tokens_append (closed_quoted k), tokens_quoted, List.count_append, heq]
    rfl
  rw [← hlen]
  refine Marks.headed hitem (fun k => (closed_quoted k).append (by decide)) hnone
    (closed_of_notMem hsep) ?_ hhead hheadNone htail hks
  rw [tokens_of_notMem hsep, count_map_sym hsepNone]

lemma marks_whereText {head : Text} (hhead : Closed head)
    (hheadNone : (tokens head).count (.sym '?') = 0) (vKey : List Name) :
    Marks (head ++ whereText vKey) (strides assignmentLength (head.length + 7) 5 vKey) := by
  rcases eq_or_ne vKey [] with rfl | hk
  · have hnil : whereText [] = [] := rfl
    rw [hnil, List.append_nil]
    exact Marks.nil hheadNone
  · have hclause : Statement.clauseText vKey ≠ [] := fun e => hk ((clauseText_eq_nil_iff _).mp e)
    have hw : backquote ∉ " WHERE ".toList := by decide
    have hnone : (tokens (head ++ " WHERE ".toList)).count (.sym '?') = 0 := by
      rw [tokens_append hhead, List.count_append, hheadNone, tokens_of_notMem hw,
        count_map_sym (by decide)]
    have hend : Marks [] [] := Marks.nil rfl
    have h := marks_assignments (show backquote ∉ andSep by decide) (by decide)
      (hhead.append (closed_of_notMem hw)) hnone hend hk
    rw [List.append_nil, List.append_nil, List.length_append] at h
    rw [whereText, if_neg hclause, ← List.append_assoc]
    exact h

/-- A statement with a clause and no other list. -/
lemma marks_clause (t : Name) {word : Text} (hword : backquote ∉ word) (hnone : '?' ∉ word)
    (vKey : List Name) :
    Marks (lead word t [] ++ whereText vKey)
      (strides assignmentLength (t.chars.length + word.length + 9) 5 vKey) := by
  have hlen : t.chars.length + word.length + 9 = (lead word t []).length + 7 := by
    simp only [lead, quoted, List.length_append, List.length_cons, List.length_nil]
    omega
  rw [hlen]
  exact marks_whereText (closed_lead t hword List.not_mem_nil)
    (Statement.count_lead t hword List.not_mem_nil hnone List.not_mem_nil) vKey

lemma length_fieldText (columns : List Name) :
    (Statement.fieldText columns).length = fieldLength columns := by
  have hgen : ∀ (b : Bool) (xs : List Name), (sepBy comma quoted b xs).length
      = (xs.map fun k => k.chars.length + 3).sum - (if b then 0 else 1) := by
    intro b xs
    induction xs generalizing b with
    | nil => simp
    | cons x xs ih =>
        rw [sepBy_cons, List.length_append, List.length_append, ih, List.map_cons, List.sum_cons]
        cases b with
        | false => simp [quoted]
        | true =>
            simp [quoted, comma]
            omega
  exact hgen false columns

/-- **The placeholders of a statement stand at its distances**, however much is cut off. -/
theorem marks_text (t : Name) (st : Statement) (h : ∀ vKey, st ≠ .update vKey []) :
    Marks (st.text t) (st.strides t) := by
  cases st with
  | select vKey =>
      rw [Statement.text_select, Statement.strides]
      exact marks_clause t (show backquote ∉ "SELECT * FROM ".toList by decide) (by decide) vKey
  | delete vKey =>
      rw [Statement.text_delete, Statement.strides]
      exact marks_clause t (show backquote ∉ "DELETE FROM ".toList by decide) (by decide) vKey
  | update vKey vSet =>
      have hset : vSet ≠ [] := fun e => h vKey (by rw [e])
      have hlen : (lead "UPDATE ".toList t " SET ".toList).length = t.chars.length + 14 := by
        simp [lead, quoted]
      rw [Statement.text_update, Statement.strides, ← hlen]
      have htail : Marks (whereText vKey) (PbEntityDb.strides assignmentLength 7 5 vKey) :=
        @marks_whereText [] rfl rfl vKey
      exact marks_assignments (show backquote ∉ comma by decide) (by decide)
        (closed_lead t (by decide) (by decide))
        (Statement.count_lead t (by decide) (by decide) (by decide) (by decide)) htail hset
  | insert vKey vSet =>
      obtain ⟨hfield, hfieldTok⟩ := tokens_sepBy comma quoted (by decide) closed_quoted false
        (vKey ++ vSet)
      have hv : backquote ∉ ") VALUES (".toList := by decide
      have hlead := closed_lead t (show backquote ∉ "INSERT INTO ".toList by decide)
        (show backquote ∉ " (".toList by decide)
      have hhead : Closed (lead "INSERT INTO ".toList t " (".toList
          ++ (Statement.fieldText (vKey ++ vSet) ++ ") VALUES (".toList)) :=
        hlead.append (hfield.append (closed_of_notMem hv))
      have hnone : (tokens (lead "INSERT INTO ".toList t " (".toList
          ++ (Statement.fieldText (vKey ++ vSet) ++ ") VALUES (".toList))).count (.sym '?')
          = 0 := by
        rw [tokens_append hlead, List.count_append,
          Statement.count_lead t (by decide) (by decide) (by decide) (by decide),
          Statement.fieldText, tokens_append hfield, List.count_append, hfieldTok,
          count_sepBy _ 0 (by decide) (fun k => by simp [tokens_quoted]), tokens_of_notMem hv,
          count_map_sym (by decide), Nat.zero_mul]
      have htext : (Statement.insert vKey vSet).text t
          = lead "INSERT INTO ".toList t " (".toList
              ++ (Statement.fieldText (vKey ++ vSet) ++ ") VALUES (".toList)
            ++ (Statement.placeholderText (vKey.length + vSet.length)
              ++ insertTail (Statement.duplicateText (duplicateColumns vKey vSet))) := by
        rw [Statement.text_insert]
        simp only [List.append_assoc]
      have htail := Marks.nil (count_insertTail (duplicateColumns vKey vSet))
      by_cases hnil : vKey ++ vSet = []
      · -- no placeholders at all
        obtain ⟨rfl, rfl⟩ := List.append_eq_nil_iff.mp hnil
        refine Marks.nil ?_
        rw [← placeholderCount, Statement.placeholderCount_text]
        rfl
      · have hlen : (lead "INSERT INTO ".toList t " (".toList
            ++ (Statement.fieldText (vKey ++ vSet) ++ ") VALUES (".toList)).length
              = t.chars.length + fieldLength (vKey ++ vSet) + 26 := by
          simp only [List.length_append, length_fieldText]
          simp [lead, quoted]
          omega
        have hlist : Statement.placeholderText (vKey.length + vSet.length)
            = sepBy comma (fun _ : Name => "?".toList) false (vKey ++ vSet) := by
          rw [Statement.placeholderText, ← List.length_append, ← List.map_const', sepBy_map]
        have hitem : ∀ _ : Name, "?".toList = [] ++ ['?'] := fun _ => rfl
        have h := Marks.headed hitem (fun _ => rfl) (fun _ => rfl) (show Closed comma by decide)
          (by decide) hhead hnone htail hnil
        rw [hlen, List.append_nil] at h
        rw [htext, hlist, Statement.strides]
        exact h

/-- **How many placeholders reach the database.** -/
theorem placeholderCount_sent_eq (t : Name) (st : Statement) (h : ∀ vKey, st ≠ .update vKey []) :
    placeholderCount (st.sent t) = kept (bufferSize - 1) (st.strides t) :=
  marks_text t st h (bufferSize - 1)

/-- What does not reach it was lost. -/
lemma placeholderCount_sent_add_lost (t : Name) (st : Statement)
    (h : ∀ vKey, st ≠ .update vKey []) :
    placeholderCount (st.sent t) + st.lost t = st.columns.length := by
  have hle := kept_le (bufferSize - 1) (st.strides t)
  rw [placeholderCount_sent_eq t st h, Statement.lost, Statement.length_strides] at *
  omega

end PbEntityDb
