import PbEntityDb.Sql.Builder

/-!
What the database reads in the statements.

* `assigned` collects the name next to each placeholder and `columnList` the
  names of the first parenthesised list, the columns of an insert.
* `tokens_sepBy` reads the separated lists of the builders. From it follow the
  tokens of the complete statements, their placeholders
  (`placeholderCount_text`) and the columns next to these
  (`readColumns_text`).
* A text that was cut off but lost no placeholder still names the same columns
  (`readColumns_sent`).
-/

namespace PbEntityDb

open Buffer Quoted

/-! ### Reading columns -/

/-- The name read last in front of each placeholder. -/
def assigned : Text → List (Token Char) → List Text
  | _, [] => []
  | _, .name n :: ts => assigned n ts
  | last, .sym c :: ts => if c = '?' then last :: assigned last ts else assigned last ts

/-- The names up to the next closing parenthesis. -/
def namesInParens : List (Token Char) → List Text
  | [] => []
  | .name n :: ts => n :: namesInParens ts
  | .sym c :: ts => if c = ')' then [] else namesInParens ts

/-- The names of the first parenthesised list. -/
def columnList : List (Token Char) → List Text
  | [] => []
  | .name _ :: ts => columnList ts
  | .sym c :: ts => if c = '(' then namesInParens ts else columnList ts

namespace Statement

/-- The columns that belong to the placeholders of a text, in order: for an
insert those of its column list, otherwise those next to the placeholders. -/
def readColumns : Statement → Text → List Text
  | insert _ _, sql => columnList (tokens sql)
  | select _, sql => assigned [] (tokens sql)
  | update _ _, sql => assigned [] (tokens sql)
  | delete _, sql => assigned [] (tokens sql)

/-- The columns of a statement in the order of its placeholders. -/
def columns : Statement → List Name
  | select vKey => vKey
  | insert vKey vSet => vKey ++ vSet
  | update vKey vSet => vSet ++ vKey
  | delete vKey => vKey

end Statement

/-! ### Tokens of the pieces -/

/-- A piece that leaves no name open. -/
def Closed (cs : Text) : Prop := lexState backquote none cs = none

instance : DecidablePred Closed := fun cs =>
  inferInstanceAs (Decidable (lexState backquote none cs = none))

lemma tokens_append {cs : Text} (h : Closed cs) (ds : Text) :
    tokens (cs ++ ds) = tokens cs ++ tokens ds := by
  rw [tokens, lex_append, h]
  rfl

lemma Closed.append {cs ds : Text} (hc : Closed cs) (hd : Closed ds) : Closed (cs ++ ds) := by
  rw [Closed, lexState_append, hc, hd]

lemma closed_of_notMem {cs : Text} (h : backquote ∉ cs) : Closed cs := lexState_plain _ h

lemma tokens_of_notMem {cs : Text} (h : backquote ∉ cs) : tokens cs = cs.map .sym :=
  lex_plain _ h

lemma closed_quoted (k : Name) : Closed (quoted k) := lexState_quoted _ k.backquote_notMem

lemma tokens_quoted (k : Name) : tokens (quoted k) = [.name k.chars] :=
  lex_quoted _ k.backquote_notMem

/-- A separated list of closed pieces reads as the separated list of tokens. -/
lemma tokens_sepBy {α : Type} (sep : Text) (item : α → Text) (hsep : Closed sep)
    (hitem : ∀ x, Closed (item x)) (b : Bool) (xs : List α) :
    Closed (sepBy sep item b xs)
      ∧ tokens (sepBy sep item b xs) = sepBy (tokens sep) (fun x => tokens (item x)) b xs := by
  induction xs generalizing b with
  | nil => exact ⟨rfl, rfl⟩
  | cons x xs ih =>
      obtain ⟨hclosed, htokens⟩ := ih true
      cases b with
      | false =>
          simp only [sepBy_cons, Bool.false_eq_true, if_false, List.nil_append]
          exact ⟨(hitem x).append hclosed, by rw [tokens_append (hitem x), htokens]⟩
      | true =>
          simp only [sepBy_cons, if_true]
          exact ⟨(hsep.append (hitem x)).append hclosed,
            by rw [tokens_append (hsep.append (hitem x)), tokens_append hsep, htokens]⟩

lemma closed_assignment (k : Name) : Closed (assignment k) :=
  (closed_quoted k).append (by decide)

lemma tokens_assignment (k : Name) :
    tokens (assignment k) = [.name k.chars, .sym '=', .sym '?'] := by
  rw [assignment, tokens_append (closed_quoted k), tokens_quoted]
  rfl

lemma closed_duplicate (k : Name) : Closed (duplicate k) :=
  (((closed_quoted k).append (by decide)).append (closed_quoted k)).append (by decide)

lemma tokens_duplicate (k : Name) :
    tokens (duplicate k)
      = [.name k.chars] ++ tokens "= VALUES(".toList ++ [.name k.chars] ++ tokens ")".toList := by
  have h1 : Closed (quoted k ++ "= VALUES(".toList) := (closed_quoted k).append (by decide)
  rw [duplicate, tokens_append (h1.append (closed_quoted k)), tokens_append h1,
    tokens_append (closed_quoted k), tokens_quoted]

/-! ### Placeholders and columns of separated lists -/

lemma count_sepBy {α : Type} (t : Token Char) {sep : List (Token Char)}
    {item : α → List (Token Char)} (n : ℕ) (hsep : sep.count t = 0)
    (hitem : ∀ x, (item x).count t = n) (b : Bool) (xs : List α) :
    (sepBy sep item b xs).count t = n * xs.length := by
  induction xs generalizing b with
  | nil => simp
  | cons x xs ih =>
      have hhead : (if b then sep else []).count t = 0 := by cases b <;> simp [hsep]
      rw [sepBy_cons, List.count_append, List.count_append, hhead, hitem x, ih,
        List.length_cons, Nat.mul_add]
      omega

lemma assigned_append_sym (last : Text) (cs : Text) (h : '?' ∉ cs) (ts : List (Token Char)) :
    assigned last (cs.map .sym ++ ts) = assigned last ts := by
  induction cs with
  | nil => rfl
  | cons c cs ih =>
      have hc : c ≠ '?' := fun e => h (by simp [e])
      have hcs : '?' ∉ cs := fun e => h (by simp [e])
      rw [List.map_cons, List.cons_append, assigned, if_neg hc, ih hcs]

/-- The names next to the placeholders of a list of assignments. -/
lemma assigned_sepBy (sep : Text) (hsep : '?' ∉ sep) (xs : List Name) (b : Bool) (last : Text)
    (ts : List (Token Char)) (hts : ∀ last', assigned last' ts = assigned [] ts) :
    assigned last (sepBy (sep.map .sym)
        (fun k : Name => [.name k.chars, .sym '=', .sym '?']) b xs ++ ts)
      = xs.map Name.chars ++ assigned [] ts := by
  induction xs generalizing b last with
  | nil => simpa using hts last
  | cons x xs ih =>
      have hitem : ∀ last', assigned last' ([.name x.chars, .sym '=', .sym '?']
          ++ (sepBy (sep.map .sym) (fun k : Name => [.name k.chars, .sym '=', .sym '?']) true xs
            ++ ts)) = x.chars :: (xs.map Name.chars ++ assigned [] ts) := by
        intro last'
        have hne : '=' ≠ '?' := by decide
        simp only [List.cons_append, List.nil_append, assigned, if_neg hne, if_true]
        rw [ih true x.chars]
      rw [sepBy_cons]
      cases b with
      | false => simpa using hitem last
      | true =>
          rw [if_pos rfl, List.append_assoc, List.append_assoc, assigned_append_sym _ _ hsep]
          exact hitem last

lemma namesInParens_sepBy (xs : List Name) (b : Bool) (ts : List (Token Char)) :
    namesInParens (sepBy (tokens comma) (fun k : Name => [.name k.chars]) b xs ++ .sym ')' :: ts)
      = xs.map Name.chars := by
  induction xs generalizing b with
  | nil => simp [namesInParens]
  | cons x xs ih =>
      have hcomma : tokens comma = [.sym ','] := by decide
      have hne : ',' ≠ ')' := by decide
      rw [sepBy_cons]
      cases b with
      | false => simpa [namesInParens] using ih true
      | true => simpa [namesInParens, hcomma, hne] using ih true

/-! ### Prefixes -/

lemma length_assigned (last : Text) (ts : List (Token Char)) :
    (assigned last ts).length = ts.count (.sym '?') := by
  induction ts generalizing last with
  | nil => rfl
  | cons tok ts ih =>
      cases tok with
      | name n => simp [assigned, ih]
      | sym c => by_cases hc : c = '?' <;> simp [assigned, hc, ih]

lemma assigned_mono (last : Text) {us ts : List (Token Char)} (h : us <+: ts) :
    assigned last us <+: assigned last ts := by
  induction us generalizing last ts with
  | nil => exact List.nil_prefix
  | cons tok us ih =>
      obtain ⟨vs, rfl⟩ := h
      have hrest : us <+: us ++ vs := List.prefix_append _ _
      cases tok with
      | name n => exact ih n hrest
      | sym c => by_cases hc : c = '?' <;> simpa [assigned, hc] using ih last hrest

/-- A prefix with all the placeholders has all the columns. -/
lemma assigned_eq_of_prefix (last : Text) {us ts : List (Token Char)} (h : us <+: ts)
    (hcount : us.count (.sym '?') = ts.count (.sym '?')) : assigned last us = assigned last ts :=
  (assigned_mono last h).eq_of_length (by rw [length_assigned, length_assigned, hcount])

lemma namesInParens_mono {us ts : List (Token Char)} (h : us <+: ts) :
    namesInParens us <+: namesInParens ts := by
  induction us generalizing ts with
  | nil => exact List.nil_prefix
  | cons tok us ih =>
      obtain ⟨vs, rfl⟩ := h
      have hrest : us <+: us ++ vs := List.prefix_append _ _
      cases tok with
      | name n => simpa [namesInParens] using ih hrest
      | sym c =>
          by_cases hc : c = ')'
          · simp [namesInParens, hc]
          · simpa [namesInParens, hc] using ih hrest

lemma columnList_mono {us ts : List (Token Char)} (h : us <+: ts) :
    columnList us <+: columnList ts := by
  induction us generalizing ts with
  | nil => exact List.nil_prefix
  | cons tok us ih =>
      obtain ⟨vs, rfl⟩ := h
      have hrest : us <+: us ++ vs := List.prefix_append _ _
      cases tok with
      | name n => simpa [columnList] using ih hrest
      | sym c =>
          by_cases hc : c = '('
          · simpa [columnList, hc] using namesInParens_mono hrest
          · simpa [columnList, hc] using ih hrest

/-- A prefix that has more of a token than `us` goes beyond `us`. -/
lemma initial_of_count_lt {t : Token Char} {ps rest us vs : List (Token Char)}
    (h : ps ++ rest = us ++ vs) (hlt : us.count t < ps.count t) : us <+: ps := by
  rcases List.prefix_or_prefix_of_prefix (⟨rest, h⟩ : ps <+: us ++ vs) ⟨vs, rfl⟩ with hp | hp
  · have := hp.sublist.count_le t
    omega
  · exact hp

/-! ### Tokens of the statements -/

/-- A table name between two plain pieces. -/
def lead (a : Text) (t : Name) (w : Text) : Text := a ++ quoted t ++ w

section Lead

variable {a w : Text} (t : Name) (ha : backquote ∉ a) (hw : backquote ∉ w)

include ha hw

lemma closed_lead : Closed (lead a t w) :=
  ((closed_of_notMem ha).append (closed_quoted t)).append (closed_of_notMem hw)

lemma tokens_lead : tokens (lead a t w) = a.map .sym ++ ([.name t.chars] ++ w.map .sym) := by
  rw [lead, tokens_append ((closed_of_notMem ha).append (closed_quoted t)),
    tokens_append (closed_of_notMem ha), tokens_quoted, tokens_of_notMem ha, tokens_of_notMem hw,
    List.append_assoc]

end Lead

lemma count_map_sym {c : Char} {cs : Text} (h : c ∉ cs) :
    (cs.map (Token.sym : Char → Token Char)).count (.sym c) = 0 := by
  rw [List.count_eq_zero]
  intro hmem
  obtain ⟨d, hd, he⟩ := List.mem_map.mp hmem
  exact h (by cases he; exact hd)

/-- The conditions of a statement, with their keyword. -/
def whereText (vKey : List Name) : Text :=
  if Statement.clauseText vKey = [] then [] else " WHERE ".toList ++ Statement.clauseText vKey

lemma clauseText_eq_nil_iff (vKey : List Name) : Statement.clauseText vKey = [] ↔ vKey = [] :=
  sepBy_eq_nil_iff (fun k => by simp [assignment, quoted]) _ _

/-- Conditions and assignments of an update are lists of the same kind. -/
lemma tokens_assignments (sep : Text) (hsep : backquote ∉ sep) (b : Bool) (xs : List Name) :
    Closed (sepBy sep assignment b xs)
      ∧ tokens (sepBy sep assignment b xs)
        = sepBy (sep.map .sym) (fun k : Name => [.name k.chars, .sym '=', .sym '?']) b xs := by
  have h := tokens_sepBy sep assignment (closed_of_notMem hsep) closed_assignment b xs
  refine ⟨h.1, ?_⟩
  rw [h.2, tokens_of_notMem hsep]
  simp only [tokens_assignment]

lemma tokens_whereText_of_ne {vKey : List Name} (h : vKey ≠ []) :
    tokens (whereText vKey)
      = " WHERE ".toList.map .sym ++ sepBy (andSep.map .sym)
          (fun k : Name => [.name k.chars, .sym '=', .sym '?']) false vKey := by
  have hclause : Statement.clauseText vKey ≠ [] := fun e => h ((clauseText_eq_nil_iff _).mp e)
  have hw : backquote ∉ " WHERE ".toList := by decide
  rw [whereText, if_neg hclause, tokens_append (closed_of_notMem hw), tokens_of_notMem hw,
    Statement.clauseText, (tokens_assignments andSep (by decide) false vKey).2]

lemma tokens_whereText (vKey : List Name) :
    (tokens (whereText vKey)).count (.sym '?') = vKey.length
      ∧ ∀ last, assigned last (tokens (whereText vKey)) = vKey.map Name.chars := by
  rcases eq_or_ne vKey [] with rfl | hk
  · exact ⟨rfl, fun _ => rfl⟩
  · refine ⟨?_, fun last => ?_⟩
    · rw [tokens_whereText_of_ne hk, List.count_append, count_map_sym (by decide),
        count_sepBy _ 1 (count_map_sym (by decide)) (fun k => by simp) false vKey]
      omega
    · have hlist := assigned_sepBy andSep (by decide) vKey false last [] (fun _ => rfl)
      rw [List.append_nil] at hlist
      rw [tokens_whereText_of_ne hk, assigned_append_sym _ _ (by decide), hlist]
      simp [assigned]

/-- What follows the placeholders of an insert. -/
def insertTail (dup : Text) : Text :=
  if dup = [] then ")".toList
  else ") ON DUPLICATE KEY UPDATE ".toList ++ dup ++ " ".toList

lemma count_insertTail (xs : List Name) :
    (tokens (insertTail (Statement.duplicateText xs))).count (.sym '?') = 0 := by
  by_cases h : Statement.duplicateText xs = []
  · rw [insertTail, if_pos h]
    decide
  · have h1 : backquote ∉ ") ON DUPLICATE KEY UPDATE ".toList := by decide
    obtain ⟨hclosed, htok⟩ := tokens_sepBy comma duplicate (by decide) closed_duplicate
      false xs
    have hitem : ∀ k : Name, (tokens (duplicate k)).count (.sym '?') = 0 := by
      intro k
      have hv : (tokens "= VALUES(".toList).count (.sym '?') = 0 := by decide
      have hp : (tokens ")".toList).count (.sym '?') = 0 := by decide
      rw [tokens_duplicate, List.count_append, List.count_append, List.count_append, hv, hp]
      rfl
    rw [insertTail, if_neg h, Statement.duplicateText, List.append_assoc,
      tokens_append (closed_of_notMem h1), tokens_append hclosed, htok, List.count_append,
      List.count_append, count_sepBy _ 0 (by decide) hitem, Nat.zero_mul]
    decide

namespace Statement

lemma text_select (t : Name) (vKey : List Name) :
    (select vKey).text t = lead "SELECT * FROM ".toList t [] ++ whereText vKey := by
  by_cases h : clauseText vKey = [] <;>
    simp [text, selectFormat, whereText, lead, h]

lemma text_delete (t : Name) (vKey : List Name) :
    (delete vKey).text t = lead "DELETE FROM ".toList t [] ++ whereText vKey := by
  by_cases h : clauseText vKey = [] <;>
    simp [text, deleteFormat, whereText, lead, h]

lemma text_update (t : Name) (vKey vSet : List Name) :
    (update vKey vSet).text t
      = lead "UPDATE ".toList t " SET ".toList ++ (assignText vSet ++ whereText vKey) := by
  by_cases h : clauseText vKey = [] <;>
    simp [text, updateFormat, whereText, lead, h]

lemma text_insert (t : Name) (vKey vSet : List Name) :
    (insert vKey vSet).text t
      = lead "INSERT INTO ".toList t " (".toList ++ (fieldText (vKey ++ vSet)
        ++ (") VALUES (".toList ++ (placeholderText (vKey.length + vSet.length)
        ++ insertTail (duplicateText (duplicateColumns vKey vSet))))) := by
  by_cases h : duplicateText (duplicateColumns vKey vSet) = []
  · simp [text, insertFormat, insertTail, lead, h]
  · simp [text, insertFormat, insertTail, lead, h]

/-! ### Placeholders and columns of the statements -/

lemma count_lead {a w : Text} (t : Name) (ha : backquote ∉ a) (hw : backquote ∉ w)
    (ha' : '?' ∉ a) (hw' : '?' ∉ w) : (tokens (lead a t w)).count (.sym '?') = 0 := by
  rw [tokens_lead t ha hw, List.count_append, List.count_append, count_map_sym ha',
    count_map_sym hw']
  simp

/-- The tokens of an insert: what stands up to the column list, the columns,
and what stands behind them. -/
lemma tokens_insert (t : Name) (vKey vSet : List Name) :
    tokens ((insert vKey vSet).text t)
      = tokens (lead "INSERT INTO ".toList t " (".toList)
        ++ (sepBy (tokens comma) (fun k : Name => [.name k.chars]) false (vKey ++ vSet)
        ++ (.sym ')' :: tokens (" VALUES (".toList
          ++ (placeholderText (vKey.length + vSet.length)
            ++ insertTail (duplicateText (duplicateColumns vKey vSet)))))) := by
  obtain ⟨hfield, hfieldTok⟩ := tokens_sepBy comma quoted (by decide) closed_quoted false
    (vKey ++ vSet)
  have hparen : ") VALUES (".toList = ')' :: " VALUES (".toList := rfl
  rw [text_insert, tokens_append (closed_lead t (by decide) (by decide)), fieldText,
    tokens_append hfield, hfieldTok, hparen]
  simp only [tokens_quoted]
  rfl

/-- A list of placeholders. -/
lemma count_placeholderText (n : ℕ) :
    Closed (placeholderText n) ∧ (tokens (placeholderText n)).count (.sym '?') = n := by
  obtain ⟨hclosed, htok⟩ := tokens_sepBy comma (fun _ : Unit => "?".toList) (by decide)
    (fun _ => by decide) false (List.replicate n ())
  have hcomma : (tokens comma).count (.sym '?') = 0 := by decide
  have hmark : ∀ _ : Unit, (tokens "?".toList).count (.sym '?') = 1 := fun _ => by decide
  refine ⟨hclosed, ?_⟩
  rw [placeholderText, htok, count_sepBy _ 1 hcomma hmark, List.length_replicate]
  omega

/-- **A statement has one placeholder for each of its columns.** -/
theorem placeholderCount_text (t : Name) (st : Statement) :
    placeholderCount (st.text t) = st.columns.length := by
  cases st with
  | select vKey =>
      rw [placeholderCount, text_select, tokens_append (closed_lead t (by decide) (by decide)),
        List.count_append, count_lead t (by decide) (by decide) (by decide) (by decide),
        (tokens_whereText vKey).1, Nat.zero_add, columns]
  | insert vKey vSet =>
      have hv : backquote ∉ " VALUES (".toList := by decide
      have hcomma : (tokens comma).count (.sym '?') = 0 := by decide
      obtain ⟨hph, hphCount⟩ := count_placeholderText (vKey.length + vSet.length)
      rw [placeholderCount, tokens_insert, List.count_append,
        count_lead t (by decide) (by decide) (by decide) (by decide), List.count_append,
        count_sepBy _ 0 hcomma (fun k => by simp), List.count_cons_of_ne (by decide),
        tokens_append (closed_of_notMem hv), List.count_append, tokens_of_notMem hv,
        count_map_sym (by decide), tokens_append hph, List.count_append, hphCount,
        count_insertTail, columns, List.length_append]
      omega
  | update vKey vSet =>
      obtain ⟨hclosed, htok⟩ := tokens_assignments comma (by decide) false vSet
      rw [placeholderCount, text_update, tokens_append (closed_lead t (by decide) (by decide)),
        List.count_append, count_lead t (by decide) (by decide) (by decide) (by decide),
        assignText, tokens_append hclosed, List.count_append, htok,
        count_sepBy _ 1 (count_map_sym (by decide)) (fun k => by simp),
        (tokens_whereText vKey).1, columns, List.length_append]
      omega
  | delete vKey =>
      rw [placeholderCount, text_delete, tokens_append (closed_lead t (by decide) (by decide)),
        List.count_append, count_lead t (by decide) (by decide) (by decide) (by decide),
        (tokens_whereText vKey).1, Nat.zero_add, columns]

lemma assigned_lead {a w : Text} (t : Name) (ha : backquote ∉ a) (hw : backquote ∉ w)
    (ha' : '?' ∉ a) (hw' : '?' ∉ w) (last : Text) (ts : List (Token Char)) :
    assigned last (tokens (lead a t w) ++ ts) = assigned t.chars ts := by
  rw [tokens_lead t ha hw, List.append_assoc, assigned_append_sym _ _ ha', List.append_assoc,
    List.singleton_append, assigned, assigned_append_sym _ _ hw']

lemma columnList_lead {a w : Text} (t : Name) (ha : backquote ∉ a) (ha' : '(' ∉ a)
    (hw : backquote ∉ w) (hw' : '(' ∉ w) (ts : List (Token Char)) :
    columnList (tokens (lead a t (w ++ ['('])) ++ ts) = namesInParens ts := by
  have hskip : ∀ (cs : Text) (us : List (Token Char)), '(' ∉ cs →
      columnList (cs.map .sym ++ us) = columnList us := by
    intro cs us h
    induction cs with
    | nil => rfl
    | cons c cs ih =>
        have hc : c ≠ '(' := fun e => h (by simp [e])
        have hcs : '(' ∉ cs := fun e => h (by simp [e])
        rw [List.map_cons, List.cons_append, columnList, if_neg hc, ih hcs]
  have hopen : backquote ∉ w ++ ['('] := by
    rw [List.mem_append]
    rintro (h | h)
    · exact hw h
    · exact absurd h (by decide)
  rw [tokens_lead t ha hopen, List.append_assoc, hskip _ _ ha', List.append_assoc,
    List.singleton_append, columnList, List.map_append, List.append_assoc, hskip _ _ hw']
  simp [columnList]

/-- **The columns next to the placeholders of a statement**, in order. -/
theorem readColumns_text (t : Name) (st : Statement) :
    st.readColumns (st.text t) = st.columns.map Name.chars := by
  cases st with
  | select vKey =>
      rw [readColumns, text_select, tokens_append (closed_lead t (by decide) (by decide)),
        assigned_lead t (by decide) (by decide) (by decide) (by decide),
        (tokens_whereText vKey).2, columns]
  | insert vKey vSet =>
      have hopen : " (".toList = " ".toList ++ ['('] := rfl
      rw [readColumns, tokens_insert, hopen,
        columnList_lead t (by decide) (by decide) (by decide) (by decide), namesInParens_sepBy,
        columns]
  | update vKey vSet =>
      obtain ⟨hclosed, htok⟩ := tokens_assignments comma (by decide) false vSet
      rw [readColumns, text_update, tokens_append (closed_lead t (by decide) (by decide)),
        assigned_lead t (by decide) (by decide) (by decide) (by decide), assignText,
        tokens_append hclosed, htok,
        assigned_sepBy _ (by decide) _ _ _ _ (fun last => by rw [(tokens_whereText vKey).2,
          (tokens_whereText vKey).2]), (tokens_whereText vKey).2, columns, List.map_append]
  | delete vKey =>
      rw [readColumns, text_delete, tokens_append (closed_lead t (by decide) (by decide)),
        assigned_lead t (by decide) (by decide) (by decide) (by decide),
        (tokens_whereText vKey).2, columns]

/-! ### Texts that were cut off -/

lemma tokens_sent_initial (t : Name) (st : Statement) :
    tokens (st.sent t) <+: tokens (st.text t) := lex_take _ _ _ _

/-- A text never gains a placeholder by being cut off. -/
lemma placeholderCount_sent_le (t : Name) (st : Statement) :
    placeholderCount (st.sent t) ≤ st.columns.length := by
  rw [← placeholderCount_text t st]
  exact (tokens_sent_initial t st).sublist.count_le _

lemma sent_eq_text {t : Name} {st : Statement} (h : (st.text t).length < bufferSize) :
    st.sent t = st.text t := by
  rw [sent, snprintfSql, List.take_of_length_le (by omega)]

/-- **A text that was cut off but kept its placeholders names the columns of
its statement.** -/
theorem readColumns_sent (t : Name) (st : Statement)
    (h : placeholderCount (st.sent t) = st.columns.length) :
    st.readColumns (st.sent t) = st.columns.map Name.chars := by
  have hcount : (tokens (st.sent t)).count (.sym '?') = (tokens (st.text t)).count (.sym '?') :=
    h.trans (placeholderCount_text t st).symm
  have hassigned : assigned [] (tokens (st.sent t)) = assigned [] (tokens (st.text t)) :=
    assigned_eq_of_prefix [] (tokens_sent_initial t st) hcount
  cases st with
  | select vKey => exact hassigned.trans (readColumns_text t (select vKey))
  | update vKey vSet => exact hassigned.trans (readColumns_text t (update vKey vSet))
  | delete vKey => exact hassigned.trans (readColumns_text t (delete vKey))
  | insert vKey vSet =>
      -- no placeholder stands in front of the end of the column list
      obtain ⟨rest, hrest⟩ := tokens_sent_initial t (insert vKey vSet)
      have hopen : " (".toList = " ".toList ++ ['('] := rfl
      have hcols := readColumns_text t (insert vKey vSet)
      rw [readColumns] at hcols ⊢
      by_cases hnil : vKey ++ vSet = []
      · have hpre := columnList_mono (tokens_sent_initial t (insert vKey vSet))
        rw [hcols, columns, hnil] at hpre
        rw [columns, hnil]
        exact List.prefix_nil.mp hpre
      · have hsplit : ∀ (as bs cs : List (Token Char)) (c : Token Char),
            as ++ (bs ++ c :: cs) = as ++ bs ++ [c] ++ cs := fun as bs cs c => by simp
        rw [tokens_insert, hsplit] at hrest
        have hbefore : List.count (Token.sym '?') (tokens (lead "INSERT INTO ".toList t " (".toList)
            ++ sepBy (tokens comma) (fun k : Name => [.name k.chars]) false (vKey ++ vSet)
            ++ [.sym ')']) = 0 := by
          rw [List.count_append, List.count_append,
            count_lead t (by decide) (by decide) (by decide) (by decide),
            count_sepBy _ 0 (by decide) (fun k => by simp)]
          simp
        have hpos : 0 < (tokens ((insert vKey vSet).sent t)).count (.sym '?') := by
          rw [placeholderCount] at h
          rw [h, columns]
          exact List.length_pos_of_ne_nil hnil
        obtain ⟨us, hus⟩ := initial_of_count_lt hrest (by rw [hbefore]; exact hpos)
        rw [← hus, List.append_assoc, List.append_assoc, hopen,
          columnList_lead t (by decide) (by decide) (by decide) (by decide),
          List.singleton_append, namesInParens_sepBy, columns]

end Statement

/-! ### Calls -/

lemma ProcName.notMem {c : Char} (hc : c.isAlphanum = false) (hc' : c ≠ '_') (name : ProcName) :
    c ∉ name.chars := fun h => by
  rcases name.identifier c h with h | h
  · rw [h] at hc
    cases hc
  · exact hc' h

/-- **A call has the placeholders it was asked for.** -/
theorem placeholderCount_callText (sStoredProcName : ProcName) (n : ℕ) :
    placeholderCount (callText sStoredProcName n) = n := by
  have hhead : ∀ {c : Char}, c ∉ "CALL ".toList → c ∉ " (".toList → c.isAlphanum = false →
      c ≠ '_' → c ∉ callHead sStoredProcName := by
    intro c h1 h2 h3 h4 hmem
    rcases List.mem_append.mp hmem with hmem | hmem
    · rcases List.mem_append.mp hmem with hmem | hmem
      · exact h1 hmem
      · exact sStoredProcName.notMem h3 h4 hmem
    · exact h2 hmem
  have hopen : backquote ∉ callHead sStoredProcName :=
    hhead (by decide) (by decide) (by decide) (by decide)
  have hmark : '?' ∉ callHead sStoredProcName :=
    hhead (by decide) (by decide) (by decide) (by decide)
  obtain ⟨hlist, hcount⟩ := Statement.count_placeholderText n
  have hend : (tokens ")".toList).count (.sym '?') = 0 := by decide
  rw [placeholderCount, callText, tokens_append ((closed_of_notMem hopen).append hlist),
    tokens_append (closed_of_notMem hopen), tokens_of_notMem hopen, List.count_append,
    List.count_append, hcount, count_map_sym hmark]
  omega

end PbEntityDb
