import PbEntityDb.Engine.Agreement
import PbEntityDb.Sql.Table

/-!
The rows that a keyed load may return.

`ParseSelect` constrains those keys of `vInKey` that are present at the top of
the entity. `setKeyLeaves` are their leaves; a statement that comes out of
`ParseSelect` binds exactly these (`parseSelect_ok`), its text was not cut off
(`sent_select_eq`), and so the rows it may return agree with the entity on
them (`mayReturn_setKeys`), except for strings: what is sent for these is no
longer theirs.
-/

namespace PbEntityDb

/-- The leaf of a field, if it is a singular field that is no message. -/
def Field.leaf? : Field → Option Leaf
  | .leaf l => some l
  | _ => none

/-- The keys that are set at the top of the entity. -/
def setKeyLeaves (vInKey : List Name) (m : Message) : List Leaf :=
  (m.filterMap Field.leaf?).filter fun l => l.hasField && decide (l.name ∈ vInKey)

/-- Each key names a singular field of the entity that is no message. -/
def NamesScalars (vInKey : List Name) (entity : Message) : Prop :=
  ∀ k ∈ vInKey, ∃ l, Field.leaf l ∈ entity ∧ l.name = k

/-! ### The validated keys -/

lemma mem_setKeyLeaves {vInKey : List Name} {m : Message} {l : Leaf} :
    l ∈ setKeyLeaves vInKey m ↔ Field.leaf l ∈ m ∧ l.hasField = true ∧ l.name ∈ vInKey := by
  have hleaf : ∀ f : Field, f.leaf? = some l ↔ f = .leaf l := by
    intro f
    cases f <;> simp [Field.leaf?]
  simp [setKeyLeaves, hleaf]

lemma setKeyLeaves_cons (vInKey : List Name) (f : Field) (m : Message) :
    setKeyLeaves vInKey (f :: m) = setKeyLeaves vInKey [f] ++ setKeyLeaves vInKey m := by
  rw [setKeyLeaves, ← List.singleton_append, List.filterMap_append, List.filter_append]
  rfl

/-- A key comes once in a list without repetitions. -/
lemma filter_eq_of_nodup {ks : List Name} (hnodup : ks.Nodup) (k : Name) :
    ks.filter (· = k) = if k ∈ ks then [k] else [] := by
  by_cases hk : k ∈ ks
  · rw [if_pos hk, List.filter_eq, List.count_eq_one_of_mem hnodup hk]
    rfl
  · rw [if_neg hk, List.filter_eq_nil_iff]
    intro k' hk' heq
    rw [decide_eq_true_eq] at heq
    exact hk (heq ▸ hk')

/-- The validation keeps the keys that are set, in the order of the fields. -/
lemma validateKey_eq {vInKey : List Name} (hnodup : vInKey.Nodup) {entity : Message}
    (hnames : (entity.map Field.name).Nodup) (hscalar : NamesScalars vInKey entity) :
    validateKey vInKey entity [] = (setKeyLeaves vInKey entity).map Leaf.name := by
  -- a field that is no leaf is not named by any key
  have hother : ∀ f ∈ entity, f.leaf? = none → f.name ∉ vInKey := by
    intro f hf hnone hk
    obtain ⟨l, hl, hname⟩ := hscalar f.name hk
    have : f = .leaf l := List.inj_on_of_nodup_map hnames hf hl (by rw [← hname]; rfl)
    simp [this, Field.leaf?] at hnone
  have hwalk : ∀ (m : Message) (acc : List Name), (∀ f ∈ m, f ∈ entity) →
      validateKey vInKey m acc = acc ++ (setKeyLeaves vInKey m).map Leaf.name := by
    intro m
    induction m with
    | nil => intro acc _; simp [validateKey, setKeyLeaves]
    | cons f rest ih =>
        intro acc hsub
        have hrest := ih (if f.isPresent then pushNamed f.name acc vInKey else acc)
          fun g hg => hsub g (List.mem_cons_of_mem _ hg)
        have hf : (if f.isPresent then pushNamed f.name acc vInKey else acc)
            = acc ++ (setKeyLeaves vInKey [f]).map Leaf.name := by
          rw [pushNamed_eq, filter_eq_of_nodup hnodup]
          cases hleaf : f.leaf? with
          | none =>
              have hk := hother f (hsub f List.mem_cons_self) hleaf
              simp [setKeyLeaves, hleaf, hk]
          | some l =>
              have hfl : f = .leaf l := by
                cases f <;> simp_all [Field.leaf?]
              subst hfl
              change (if l.hasField then acc ++ (if l.name ∈ vInKey then [l.name] else []) else acc)
                = _
              by_cases hp : l.hasField = true
              · by_cases hk : l.name ∈ vInKey <;> simp [setKeyLeaves, Field.leaf?, hp, hk]
              · simp [setKeyLeaves, Field.leaf?, hp]
        rw [validateKey, hrest, hf, setKeyLeaves_cons vInKey f rest, List.map_append,
          List.append_assoc]
  simpa using hwalk entity [] fun f hf => hf

/-- The leaves of the keys that are set are among those that are bound. -/
lemma setKeyLeaves_sublist (vInKey names : List Name) (m : Message)
    (hnames : ∀ l ∈ setKeyLeaves vInKey m, l.name ∈ names) :
    (setKeyLeaves vInKey m).Sublist (leavesNamed names m) := by
  induction m with
  | nil => simp [setKeyLeaves]
  | cons f rest ih =>
      have hsplit : leavesNamed names (f :: rest)
          = leavesNamed names [f] ++ leavesNamed names rest := by
        simp [leavesNamed]
      rw [setKeyLeaves_cons] at hnames ⊢
      rw [hsplit]
      refine List.Sublist.append ?_ (ih fun l hl => hnames l (List.mem_append_right _ hl))
      cases f with
      | leaf l =>
          by_cases h : l.hasField = true ∧ l.name ∈ vInKey
          · have hl : setKeyLeaves vInKey [.leaf l] = [l] := by
              simp [setKeyLeaves, Field.leaf?, h.1, h.2]
            have hname : l.name ∈ names := hnames l (by rw [hl]; simp)
            rw [hl, leavesNamed_leaf, if_pos ⟨h.1, hname⟩]
            simp
          · have hl : setKeyLeaves vInKey [.leaf l] = [] := by
              simpa [setKeyLeaves, Field.leaf?] using h
            rw [hl]
            exact List.nil_sublist _
      | unset f => exact List.nil_sublist _
      | message f sub => exact List.nil_sublist _
      | repeated name values => exact List.nil_sublist _
      | repeatedMessage f elems => exact List.nil_sublist _

/-! ### The text of a keyed load -/

lemma closed_whereText (vKey : List Name) : Closed (whereText vKey) := by
  rcases eq_or_ne vKey [] with rfl | hk
  · rfl
  · have hclause : Statement.clauseText vKey ≠ [] := fun e => hk ((clauseText_eq_nil_iff _).mp e)
    rw [whereText, if_neg hclause]
    exact (closed_of_notMem (by decide)).append (tokens_assignments andSep (by decide) false vKey).1

/-- The text of a keyed load ends with a placeholder. -/
lemma text_select_last (t : Name) {vKey : List Name} (h : vKey ≠ []) :
    ∃ body, (Statement.select vKey).text t = body ++ ['?'] ∧ Closed body := by
  obtain ⟨ks, k, rfl⟩ : ∃ ks k, vKey = ks ++ [k] :=
    ⟨vKey.dropLast, vKey.getLast h, (List.dropLast_append_getLast h).symm⟩
  obtain ⟨body, hbody⟩ : ∃ body, (Statement.select (ks ++ [k])).text t = body ++ ['?'] := by
    have hclause : ∃ body, Statement.clauseText (ks ++ [k]) = body ++ ['?'] := by
      refine ⟨Statement.clauseText ks ++ ((if (!ks.isEmpty) = true then andSep else [])
        ++ (quoted k ++ ['='])), ?_⟩
      rw [Statement.clauseText, Buffer.sepBy_append, Buffer.sepBy_cons, Bool.false_or]
      simp [Statement.clauseText, assignment]
    obtain ⟨body, hbody⟩ := hclause
    have hne : Statement.clauseText (ks ++ [k]) ≠ [] := by simp [hbody]
    refine ⟨lead "SELECT * FROM ".toList t [] ++ (" WHERE ".toList ++ body), ?_⟩
    rw [Statement.text_select, whereText, if_neg hne, hbody]
    simp
  refine ⟨body, hbody, ?_⟩
  -- a name still open in front of the placeholder would be open behind it
  have hclosed : Closed ((Statement.select (ks ++ [k])).text t) := by
    rw [Statement.text_select]
    exact (closed_lead t (by decide) (by decide)).append (closed_whereText _)
  rw [hbody, Closed, Quoted.lexState_append] at hclosed
  cases hstate : Quoted.lexState backquote none body with
  | none => exact hstate
  | some acc =>
      rw [hstate] at hclosed
      simp [Quoted.lexState, show '?' ≠ backquote by decide] at hclosed

/-- A keyed load that lost no placeholder was not cut off at all. -/
lemma sent_select_eq (t : Name) {vKey : List Name} (h : vKey ≠ [])
    (hlost : (Statement.select vKey).lost t = 0) :
    (Statement.select vKey).sent t = (Statement.select vKey).text t := by
  obtain ⟨body, hbody, hclosed⟩ := text_select_last t h
  have hsent := placeholderCount_sent_add_lost t (.select vKey) fun _ => by simp
  rw [hlost, Nat.add_zero, ← Statement.placeholderCount_text t, Statement.sent, hbody] at hsent
  rw [Statement.sent, hbody]
  by_contra hne
  have hlong : bufferSize - 1 < (body ++ ['?']).length := by
    by_contra hle
    exact hne (List.take_of_length_le (by omega))
  have htake : snprintfSql (body ++ ['?']) = snprintfSql body := by
    rw [List.length_append, List.length_singleton] at hlong
    rw [snprintfSql, snprintfSql, List.take_append_of_le_length (by omega)]
  have hbefore : placeholderCount (snprintfSql body) ≤ placeholderCount body :=
    (Quoted.lex_take backquote none body _).sublist.count_le _
  have hafter : placeholderCount (body ++ ['?']) = placeholderCount body + 1 := by
    rw [placeholderCount, tokens_append hclosed, List.count_append]
    rfl
  rw [htake] at hsent
  omega

/-! ### The bound values -/

/-- Accepted leaves bind one value each. -/
lemma length_filterMap_accepted {ls : List Leaf} (h : ∀ l ∈ ls, l.accepted = true) :
    (ls.filterMap Leaf.boundValue).length = ls.length := by
  rw [List.length_filterMap_eq_countP, List.countP_eq_length]
  exact h

/-- The value of an accepted leaf stands at its name. -/
lemma mem_zip_of_accepted {ls : List Leaf} (h : ∀ l ∈ ls, l.accepted = true) {l : Leaf}
    (hl : l ∈ ls) {v : BoundValue} (hv : l.boundValue = some v) :
    (l.name.chars, v) ∈ ((ls.map Leaf.name).map Name.chars).zip (ls.filterMap Leaf.boundValue) := by
  induction ls with
  | nil => simp at hl
  | cons l' ls ih =>
      obtain ⟨v', hv'⟩ := Option.isSome_iff_exists.mp (h l' List.mem_cons_self)
      rw [List.filterMap_cons_some hv', List.map_cons, List.map_cons, List.zip_cons_cons,
        List.mem_cons]
      rcases List.mem_cons.mp hl with rfl | hl
      · rw [hv] at hv'
        exact .inl (by cases hv'; rfl)
      · exact .inr (ih (fun l hl => h l (List.mem_cons_of_mem _ hl)) hl)

/-- **What comes out of `ParseSelect`** binds the keys that are set, and
nothing else. -/
theorem parseSelect_ok {db : Server} {entity : Message} {sTableName : Name} {vInKey : List Name}
    (hnodup : vInKey.Nodup) (hnames : (entity.map Field.name).Nodup)
    (hscalar : NamesScalars vInKey entity)
    (haccepted : ∀ l ∈ setKeyLeaves vInKey entity, l.accepted = true) {s : ZdbStatement}
    (h : parseSelect db .new entity sTableName vInKey = .ok (true, s)) :
    (Statement.select ((setKeyLeaves vInKey entity).map Leaf.name)).lost sTableName = 0
      ∧ s = .holding
          ((Statement.select ((setKeyLeaves vInKey entity).map Leaf.name)).sent sTableName)
          ((setKeyLeaves vInKey entity).filterMap Leaf.boundValue).length
          ((setKeyLeaves vInKey entity).filterMap Leaf.boundValue) := by
  have hparse := ParsePath.parse_eq db entity sTableName vInKey .select
  simp only [ParsePath.parse, ParsePath.statement, ParsePath.params,
    validateKey_eq hnodup hnames hscalar] at hparse
  rw [h] at hparse
  obtain ⟨-, -, htyped, hle, rfl⟩ := ParsePath.prepareAndBind_ok hparse.symm
  rw [boundValues_of_not_mistyped htyped] at hle ⊢
  -- the bound values contain those of the keys, and there is no room for others
  have hsub := (setKeyLeaves_sublist vInKey ((setKeyLeaves vInKey entity).map Leaf.name) entity
    fun l hl => List.mem_map_of_mem hl).filterMap Leaf.boundValue
  have hlen := length_filterMap_accepted haccepted
  have hsent := placeholderCount_sent_add_lost sTableName
    (.select ((setKeyLeaves vInKey entity).map Leaf.name)) fun _ => by simp
  rw [Statement.columns, List.length_map] at hsent
  have hvalues := hsub.eq_of_length_le (by omega)
  rw [← hvalues] at hle ⊢
  have hcount : placeholderCount
      ((Statement.select ((setKeyLeaves vInKey entity).map Leaf.name)).sent sTableName)
        = ((setKeyLeaves vInKey entity).filterMap Leaf.boundValue).length := by omega
  exact ⟨by omega, by rw [hcount]⟩

/-- A comparison that looks at the value of the parameter only. -/
def Comparison.byValue (compare : Cell → Option SqlValue → Bool) : Comparison := fun c v =>
  compare c v.value

/-- A statement that holds a value for each of its slots. -/
lemma ZdbStatement.values_full (sql : Text) (vs : List BoundValue) :
    (ZdbStatement.holding sql vs.length vs).values = some vs := by
  rw [ZdbStatement.values, ZdbStatement.holding, ZdbStatement.filled_of_length_eq rfl]
  simp

/-- **A keyed load agrees with the entity on the keys that are set** and no strings, whatever
row it returns: `compare` is the database's `=` between a column and a value, and `heap` what
stands where the strings of the keys were. -/
theorem mayReturn_setKeys (compare : Cell → Option SqlValue → Bool) (db : Server) (entity : Message)
    (sTableName : Name) (vInKey : List Name) (hnodup : vInKey.Nodup)
    (hnames : (entity.map Field.name).Nodup) (hscalar : NamesScalars vInKey entity)
    (haccepted : ∀ l ∈ setKeyLeaves vInKey entity, l.accepted = true) (s : ZdbStatement)
    (h : parseSelect db .new entity sTableName vInKey = .ok (true, s)) (heap : ℕ → Text)
    (row : Row) (hrow : (s.sent heap).MayReturn (.byValue compare) row) (l : Leaf)
    (hl : Field.leaf l ∈ entity) (hkey : l.name ∈ vInKey) (hset : l.hasField = true)
    (htype : l.field.type ≠ .string) :
    compare (row l.name.chars) l.signedValue = true := by
  have hmem : l ∈ setKeyLeaves vInKey entity := mem_setKeyLeaves.mpr ⟨hl, hset, hkey⟩
  obtain ⟨hlost, rfl⟩ := parseSelect_ok hnodup hnames hscalar haccepted h
  have hne : (setKeyLeaves vInKey entity).map Leaf.name ≠ [] := by
    intro hnil
    rw [List.map_eq_nil_iff] at hnil
    simp [hnil] at hmem
  have hread : Query.read
      ((Statement.select ((setKeyLeaves vInKey entity).map Leaf.name)).sent sTableName)
        = some (.select sTableName.chars
          (((setKeyLeaves vInKey entity).map Leaf.name).map Name.chars)) := by
    rw [sent_select_eq sTableName hne hlost, Query.read_text sTableName _ (fun _ => by simp)]
    rfl
  rw [ZdbStatement.sent_holding] at hrow
  have hvalues := ZdbStatement.values_full
    ((Statement.select ((setKeyLeaves vInKey entity).map Leaf.name)).sent sTableName)
    (sentValues heap ((setKeyLeaves vInKey entity).filterMap Leaf.boundValue))
  rw [length_sentValues] at hvalues
  have hfulfils := hrow _ _ hread hvalues
  obtain ⟨v, hv⟩ := Option.isSome_iff_exists.mp (haccepted l hmem)
  have hstring := isString_eq_false hv htype
  have hzip := mem_zip_sentValues (mem_zip_of_accepted haccepted hmem hv) hstring heap
  rw [Query.selects, fulfils, List.all_eq_true] at hfulfils
  rw [← value_boundValue hv htype]
  exact hfulfils _ hzip

/-- The statement that loads account 5. -/
def loadAccount : ZdbStatement :=
  .holding ((Statement.select [accountId]).text account) 1 [.int 5]

/-- The row of account 5. -/
def accountRow (idValue levelValue : BitVec 32) : Row := fun c =>
  if c = accountId.chars then some (.int idValue)
  else if c = accountLevel.chars then some (.int levelValue)
  else none

/-- The comparison of a column with the same value only. -/
def hasValue (c : Cell) (x : Option SqlValue) : Bool :=
  c.isSome && decide (c.bind BoundValue.value = x)

/-- Account 5 is loaded by its number. -/
theorem mayReturn_account :
    hasValue (accountRow 5 7 accountId.chars) (Leaf.ofInt32 accountId 5).signedValue = true := by
  refine mayReturn_setKeys hasValue ⟨fun _ => true⟩ (accountEntity 5 7) account [accountId]
    (by decide) (by decide) ?_ (by decide) loadAccount rfl (fun _ => []) (accountRow 5 7) ?_
    (.ofInt32 accountId 5) (by simp [accountEntity]) (by decide) (by decide) (by decide)
  · intro k hk
    exact ⟨.ofInt32 accountId 5, by simp [accountEntity], (List.mem_singleton.mp hk).symm⟩
  · intro q vs hq hvs
    have hread : Query.read (loadAccount.sent fun _ => []).sql
        = some (.select account.chars [accountId.chars]) := by decide
    have hvalues : (loadAccount.sent fun _ => []).values = some [.int 5] := by decide
    rw [hread] at hq
    rw [hvalues] at hvs
    cases hq
    cases hvs
    decide

/-- A key that holds zero is dropped, and the load returns the whole table. -/
theorem select_drops_unset_key :
    NamesScalars [accountId] (accountEntity 0 7) ∧ ∃ s,
      parseSelect ⟨fun _ => true⟩ .new (accountEntity 0 7) account [accountId] = .ok (true, s)
      ∧ Query.read s.sql = some (.select account.chars [])
      ∧ (∀ heap row, (s.sent heap).MayReturn (.byValue hasValue) row)
      ∧ hasValue (accountRow 5 7 accountId.chars) (Leaf.ofInt32 accountId 0).fieldValue
        = false := by
  refine ⟨?_, .holding ((Statement.select []).text account) 0 [], rfl, by decide, ?_, by decide⟩
  · intro k hk
    exact ⟨.ofInt32 accountId 0, by simp [accountEntity], (List.mem_singleton.mp hk).symm⟩
  intro heap row q vs hq hvs
  have hread : Query.read ((Statement.select []).text account)
      = some (.select account.chars []) := by
    decide
  rw [ZdbStatement.sent_holding] at hq
  change Query.read ((Statement.select []).text account) = some q at hq
  rw [hread] at hq
  cases hq
  rfl

end PbEntityDb
