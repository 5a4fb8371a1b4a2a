import PbEntityDb.Engine.Load
import PbEntityDb.Engine.Proc

/-!
Walks over the same message that have to select the same leaves.

* `setFields_partition`: with the set columns that `CollectEntitySetFields`
  names, `CollectEntityInputParams` collects each present leaf once, as a key or
  as a set column.
* `parseSelect_columns`: the loop of `ParseSelect` over the fields, nested over
  the keys, and the walk behind it meet the same leaves in the same order, so
  each condition gets the value of its column.
* `callCarries_iff`: the count, the placeholders and the binds of a call are as
  many, as long as the call fits in `_sql` and no getter aborts.
-/

namespace PbEntityDb

/-! ### Keys and set columns -/

/-- The leaves that a list of names names, each with its place. -/
def placesNamed (names : List Name) (m : Message) : List (List ℕ × Leaf) :=
  (leafPaths 0 m).filter fun a => a.2.name ∈ names

/-- The other leaves, each with its place. -/
def placesOther (names : List Name) (m : Message) : List (List ℕ × Leaf) :=
  (leafPaths 0 m).filter fun a => a.2.name ∉ names

lemma placesNamed_snd (names : List Name) (m : Message) :
    (placesNamed names m).map Prod.snd = leavesNamed names m := by
  rw [leavesNamed, ← leafPaths_snd m 0, List.filter_map]
  rfl

lemma placesOther_snd (names : List Name) (m : Message) :
    (placesOther names m).map Prod.snd = setLeaves names m := by
  rw [setLeaves, ← leafPaths_snd m 0, List.filter_map]
  rfl

/-- The walk comes to no place twice. -/
lemma nodup_leafPaths (m : Message) : (leafPaths 0 m).Nodup := by
  have hpaths : ((leafPaths 0 m).map Prod.fst).Nodup :=
    (leafPaths_pairwise m 0).imp fun h => ne_of_lt h
  exact hpaths.of_map

/-- A place is among the named ones or among the others, and it is there once. -/
lemma count_places {names : List Name} {m : Message} {path : List ℕ} {l : Leaf}
    (hat : leafAt path m = some l) (hfield : l.hasField = true) :
    (placesNamed names m ++ placesOther names m).count (path, l) = 1
      ∧ ((path, l) ∈ placesNamed names m ↔ l.name ∈ names) := by
  have hmem : (path, l) ∈ leafPaths 0 m := mem_leafPaths.mpr ⟨hat, hfield⟩
  have hone : (leafPaths 0 m).count (path, l) = 1 :=
    List.count_eq_one_of_mem (nodup_leafPaths m) hmem
  have hnamed : (path, l) ∈ placesNamed names m ↔ l.name ∈ names := by
    simp [placesNamed, hmem]
  have hother : (path, l) ∈ placesOther names m ↔ l.name ∉ names := by
    simp [placesOther, hmem]
  refine ⟨?_, hnamed⟩
  rw [List.count_append]
  by_cases hn : l.name ∈ names
  · have hnone : (placesOther names m).count (path, l) = 0 :=
      List.count_eq_zero.mpr fun h => hother.mp h hn
    rw [hnone, placesNamed, List.count_filter (by simpa using hn), hone]
  · have hnone : (placesNamed names m).count (path, l) = 0 :=
      List.count_eq_zero.mpr fun h => hn (hnamed.mp h)
    rw [hnone, placesOther, List.count_filter (by simpa using hn), hone]

/-- **Each present leaf is a key or a set column, once.** The walk with the set
columns of `CollectEntitySetFields` collects these columns in their order; the
leaves it collects are those at the places of the message, each place stands in
one of the two lists, and in the list of the keys exactly if a key names it. -/
theorem setFields_partition (entity : Message) (vInKey : List Name) :
    ((collectEntityInputParams vInKey (collectEntitySetFields vInKey entity []) entity
        ([], [])).2.map Leaf.name = collectEntitySetFields vInKey entity [])
      ∧ ∃ vKeyPlace vSetPlace : List (List ℕ × Leaf),
          collectEntityInputParams vInKey (collectEntitySetFields vInKey entity []) entity ([], [])
              = (vKeyPlace.map Prod.snd, vSetPlace.map Prod.snd)
            ∧ (∀ path l, (path, l) ∈ vKeyPlace ++ vSetPlace →
                leafAt path entity = some l ∧ l.hasField = true)
            ∧ ∀ path l, leafAt path entity = some l → l.hasField = true →
                (vKeyPlace ++ vSetPlace).count (path, l) = 1
                  ∧ ((path, l) ∈ vKeyPlace ↔ l.name ∈ vInKey) := by
  have hwalk := collectEntityInputParams_setFields vInKey entity
  refine ⟨?_, placesNamed vInKey entity, placesOther vInKey entity, ?_, ?_, ?_⟩
  · rw [hwalk, collectEntitySetFields_eq, List.nil_append]
  · rw [hwalk, placesNamed_snd, placesOther_snd]
  · intro path l h
    rcases List.mem_append.mp h with h | h
    · exact mem_leafPaths.mp (List.mem_filter.mp h).1
    · exact mem_leafPaths.mp (List.mem_filter.mp h).1
  · intro path l hat hfield
    exact count_places hat hfield

/-! ### Keyed loads -/

/-- No singular message field of the entity is set. -/
def Flat (entity : Message) : Prop := ∀ f sub, Field.message f sub ∉ entity

/-- The parameters that `ParseEntityParams` binds, in their order. -/
def entityParams (pParams : Message) (vInKey vSet : List Name) : List Leaf :=
  let (vKeyParam, vSetParam) := collectEntityInputParams vInKey vSet pParams ([], [])
  vSetParam ++ vKeyParam

lemma entityParams_keys (entity : Message) (names : List Name) :
    entityParams entity names [] = leavesNamed names entity := by
  rw [entityParams, collectEntityInputParams_eq, leavesNamed_nil]
  rfl

/-- The validation of a flat entity keeps the names of the leaves that are keys,
in the order of the leaves. -/
lemma validateKey_flat {vInKey : List Name} (hnodup : vInKey.Nodup) {entity : Message}
    (hflat : Flat entity) (acc : List Name) :
    validateKey vInKey entity acc = acc ++ (keyLeaves vInKey entity).map Leaf.name := by
  induction entity generalizing acc with
  | nil => simp [validateKey, leavesNamed]
  | cons f rest ih =>
      have hrest : Flat rest := fun f' sub h => hflat f' sub (List.mem_cons_of_mem _ h)
      rw [validateKey, ih hrest]
      cases f with
      | leaf l =>
          rw [pushNamed_eq, filter_eq_of_nodup hnodup]
          show (if l.hasField then acc ++ (if l.name ∈ vInKey then [l.name] else []) else acc)
              ++ (leavesNamed vInKey rest).map Leaf.name
            = acc ++ (leavesNamed vInKey (.leaf l :: rest)).map Leaf.name
          rw [leavesNamed_leaf, List.map_append]
          by_cases hp : l.hasField = true
          · by_cases hk : l.name ∈ vInKey <;> simp [hp, hk]
          · simp [hp]
      | unset f => simp [Field.isPresent, leavesNamed]
      | message f sub => exact absurd List.mem_cons_self (hflat f sub)
      | repeated name values => simp [Field.isPresent, leavesNamed]
      | repeatedMessage f elems => simp [Field.isPresent, leavesNamed]

/-- The validated keys name the leaves that the keys name. -/
lemma leavesNamed_validateKey {vInKey : List Name} (hnodup : vInKey.Nodup) {entity : Message}
    (hflat : Flat entity) :
    leavesNamed (validateKey vInKey entity []) entity = keyLeaves vInKey entity := by
  rw [validateKey_flat hnodup hflat, List.nil_append]
  refine List.filter_congr fun l hl => ?_
  rw [decide_eq_decide, List.mem_map]
  constructor
  · rintro ⟨l', hl', hname⟩
    rw [← hname]
    exact of_decide_eq_true (List.mem_filter.mp hl').2
  · intro hk
    exact ⟨l, List.mem_filter.mpr ⟨hl, decide_eq_true hk⟩, rfl⟩

/-- The parameters that `ParseSelect` has bound: those of the validated keys. -/
def selectParams (vInKey : List Name) (entity : Message) : List Leaf :=
  entityParams entity (validateKey vInKey entity []) []

/-- The parameters of a keyed load are the leaves that its columns name, one by one. -/
lemma selectParams_names {vInKey : List Name} (hnodup : vInKey.Nodup) {entity : Message}
    (hflat : Flat entity) :
    (selectParams vInKey entity).map Leaf.name = validateKey vInKey entity [] := by
  rw [selectParams, entityParams_keys, leavesNamed_validateKey hnodup hflat,
    validateKey_flat hnodup hflat, List.nil_append]

/-- The conditions on a list of columns name these columns. -/
lemma assigned_clauseText (vKey : List Name) :
    assigned [] (tokens (Statement.clauseText vKey)) = vKey.map Name.chars := by
  have hlist := assigned_sepBy andSep (by decide) vKey false [] [] fun _ => rfl
  rw [List.append_nil] at hlist
  rw [Statement.clauseText, (tokens_assignments andSep (by decide) false vKey).2, hlist]
  exact List.append_nil _

/-- Leaves of accepted types fill a statement that has a placeholder for each. -/
lemma holding_accepted {sql : Text} {n : ℕ} {ls : List Leaf}
    (haccepted : ∀ l ∈ ls, l.accepted = true) (hn : ls.length = n) :
    ZdbStatement.holding sql n (boundValues ls)
      = ⟨sql, some ⟨ls.map Leaf.boundValue⟩, ls.length, 1⟩ := by
  have hlen := length_boundValues_of_accepted haccepted
  rw [ZdbStatement.holding, ZdbStatement.filled_of_length_eq (hlen.trans hn),
    boundValues_of_accepted haccepted, hlen]

/-- A statement that is prepared with a leaf for each of its columns binds them there. -/
lemma prepareAndBind_columns {db : Server} {sTableName : Name} {st : Statement} {ls : List Leaf}
    {s : ZdbStatement} (haccepted : ∀ l ∈ ls, l.accepted = true)
    (hlen : ls.length = st.columns.length)
    (h : ParsePath.prepareAndBind db sTableName st ls = .ok (true, s)) :
    st.readColumns s.sql = st.columns.map Name.chars ∧ s.stmt = some ⟨ls.map Leaf.boundValue⟩ := by
  obtain ⟨-, -, -, hle, rfl⟩ := ParsePath.prepareAndBind_ok h
  -- there are no more placeholders than columns, and no fewer than values
  have hall := Statement.placeholderCount_sent_le sTableName st
  have hbound := length_boundValues_of_accepted haccepted
  have hcount : placeholderCount (st.sent sTableName) = st.columns.length := by omega
  rw [holding_accepted haccepted (by omega)]
  exact ⟨Statement.readColumns_sent sTableName st hcount, rfl⟩

/-- It is prepared unless its text is too long or the database refuses it. -/
lemma prepareAndBind_runs (db : Server) {sTableName : Name} {st : Statement} {ls : List Leaf}
    (haccepted : ∀ l ∈ ls, l.accepted = true) (hlen : ls.length = st.columns.length)
    (hfits : st.Fits) (hshort : (st.text sTableName).length < bufferSize) :
    ∃ s, ParsePath.prepareAndBind db sTableName st ls
      = .ok (db.prepares (st.text sTableName), s) := by
  have hroom : (boundValues ls).length ≤ placeholderCount (st.text sTableName) := by
    rw [length_boundValues_of_accepted haccepted, hlen, Statement.placeholderCount_text]
  rw [ParsePath.prepareAndBind, if_pos hfits, Statement.sent_eq_text hshort]
  by_cases hp : db.prepares (st.text sTableName) = true
  · rw [if_pos hp, addInputParams_prepared, if_pos hroom, not_mistyped_of_accepted haccepted, hp]
    exact ⟨_, rfl⟩
  · rw [if_neg hp, Bool.eq_false_iff.mpr hp]
    exact ⟨_, rfl⟩

lemma parseSelect_eq (db : Server) (entity : Message) (sTableName : Name) (vInKey : List Name) :
    parseSelect db .new entity sTableName vInKey
      = ParsePath.prepareAndBind db sTableName (.select (validateKey vInKey entity []))
          (selectParams vInKey entity) := by
  rw [selectParams, entityParams_keys]
  exact ParsePath.parse_eq db entity sTableName vInKey .select

/-- **A keyed load binds the values of its columns**, whatever the order of the
keys: the columns that `PrepareSelect` is handed and writes into the clause are
the names of the parameters that `ParseEntityParams` binds, one by one, and they
are the keys that are present in the entity. -/
theorem parseSelect_columns (db : Server) (entity : Message) (sTableName : Name)
    (vInKey : List Name) (hflat : Flat entity) (hnodup : vInKey.Nodup)
    (haccepted : ∀ l ∈ keyLeaves vInKey entity, l.accepted = true) :
    (selectParams vInKey entity).map Leaf.name = validateKey vInKey entity []
      ∧ (∀ k, k ∈ validateKey vInKey entity []
          ↔ k ∈ vInKey ∧ ∃ f ∈ entity, f.isPresent = true ∧ f.name = k)
      ∧ (∀ clause, chClause (validateKey vInKey entity []) = some clause →
          assigned [] (tokens clause) = (selectParams vInKey entity).map fun l => l.name.chars)
      ∧ (∀ s, parseSelect db .new entity sTableName vInKey = .ok (true, s) →
          assigned [] (tokens s.sql) = (selectParams vInKey entity).map (fun l => l.name.chars)
            ∧ s.stmt = some ⟨(selectParams vInKey entity).map Leaf.boundValue⟩)
      ∧ ∀ sql, sql = (Statement.select (validateKey vInKey entity [])).text sTableName →
          (Statement.select (validateKey vInKey entity [])).Fits → sql.length < bufferSize →
          ∃ s, parseSelect db .new entity sTableName vInKey = .ok (db.prepares sql, s) := by
  have hnames := selectParams_names hnodup hflat
  have hcolumns : (validateKey vInKey entity []).map Name.chars
      = (selectParams vInKey entity).map fun l => l.name.chars := by
    rw [← hnames, List.map_map]
    rfl
  have hlen : (selectParams vInKey entity).length
      = (Statement.select (validateKey vInKey entity [])).columns.length := by
    rw [Statement.columns, ← hnames, List.length_map]
  have haccepted' : ∀ l ∈ selectParams vInKey entity, l.accepted = true := by
    intro l hl
    rw [selectParams, entityParams_keys, leavesNamed_validateKey hnodup hflat] at hl
    exact haccepted l hl
  refine ⟨hnames, fun k => mem_validateKey, ?_, ?_, ?_⟩
  · intro clause hclause
    rw [Statement.chClause_eq] at hclause
    split at hclause
    · cases hclause
      rw [assigned_clauseText, hcolumns]
    · cases hclause
  · intro s hs
    rw [parseSelect_eq] at hs
    rw [← hcolumns]
    exact prepareAndBind_columns haccepted' hlen hs
  · rintro sql rfl hfits hshort
    rw [parseSelect_eq]
    exact prepareAndBind_runs db haccepted' hlen hfits hshort

/-- The keys of an account, given in the other order. -/
theorem parseSelect_columns_account :
    (selectParams [accountLevel, accountId] (accountEntity 5 7)).map Leaf.name
        = validateKey [accountLevel, accountId] (accountEntity 5 7) []
      ∧ ∃ s, parseSelect ⟨fun _ => true⟩ .new (accountEntity 5 7) account [accountLevel, accountId]
          = .ok (true, s) := by
  have hflat : Flat (accountEntity 5 7) := by simp [Flat, accountEntity]
  obtain ⟨hnames, -, -, -, hrun⟩ := parseSelect_columns ⟨fun _ => true⟩ (accountEntity 5 7) account
    [accountLevel, accountId] hflat (by decide) (by decide)
  exact ⟨hnames, hrun _ rfl (by decide) (by decide)⟩

/-! ### Calls -/

/-- The parameters are bound to the arguments of the message, each at its
placeholder, in declaration order and depth first. -/
def BindsArguments (s : ZdbStatement) (param : Message) : Prop :=
  match parseProcParams s param with
  | .error _ => False
  | .ok s' =>
      s'.inParamIndex = parseProcParamsCount param
        ∧ s'.stmt = some ⟨(procArguments param).map fun a => a.2.boundValue⟩
        ∧ (∀ a ∈ procArguments param, a.2.boundValue.isSome = true)
        ∧ ((procArguments param).map Prod.fst).Pairwise (· < ·)

/-- The call that is prepared for a message has a placeholder for each field that
was counted, and a value is bound to each of them. -/
def CallCarries (db : Server) (sProcName : ProcName) (param : Message) : Prop :=
  match ZdbStatement.new.prepareStoredProcCall db sProcName (parseProcParamsCount param) with
  | .error _ => False
  | .ok (prepared, s) =>
      s.sql = callText sProcName (parseProcParamsCount param)
        ∧ placeholderCount s.sql = parseProcParamsCount param
        ∧ (prepared = true → BindsArguments s param)

/-- The binds of a call, on a statement that has a placeholder for each. -/
lemma bindsArguments_iff (sql : Text) (param : Message) :
    BindsArguments (.holding sql (parseProcParamsCount param) []) param
      ↔ (leaves param).any Leaf.mistyped = false := by
  rw [BindsArguments, parseProcParams_eq, addInputParams_prepared]
  by_cases hm : (leaves param).any Leaf.mistyped = true
  · -- a getter of the wrong type aborts, if the slots last that long
    rw [if_pos hm, hm]
    by_cases hle : (boundValues (leaves param)).length ≤ parseProcParamsCount param
    · rw [if_pos hle]
      simp
    · rw [if_neg hle]
      simp
  · rw [Bool.not_eq_true] at hm
    have hlen := length_boundValues_leaves hm
    obtain ⟨hslots, hvalues⟩ := boundValues_procArguments hm
    rw [if_pos (le_of_eq hlen), hm, if_neg Bool.false_ne_true]
    refine iff_of_true ⟨hlen, ?_, hvalues, procArguments_pairwise param⟩ rfl
    rw [ZdbStatement.holding, ZdbStatement.filled_of_length_eq hlen, hslots]

/-- **When the placeholders of a call are the arguments that are bound**: the
call fits in `_sql`, and no argument of a call that the database accepts is read
through a getter of another type. -/
theorem callCarries_iff (db : Server) (sProcName : ProcName) (param : Message) :
    CallCarries db sProcName param
      ↔ (callText sProcName (parseProcParamsCount param)).length < bufferSize
        ∧ (db.prepares (callText sProcName (parseProcParamsCount param)) = true →
            (leaves param).any Leaf.mistyped = false) := by
  have hcount := placeholderCount_callText sProcName (parseProcParamsCount param)
  rw [CallCarries, ZdbStatement.prepareStoredProcCall_eq]
  by_cases hfits : (callText sProcName (parseProcParamsCount param)).length < bufferSize
  · rw [if_pos hfits, ZdbStatement.prepare_new, hcount]
    by_cases hp : db.prepares (callText sProcName (parseProcParamsCount param)) = true
    · rw [if_pos hp]
      show _ ∧ _ ∧ (true = true → BindsArguments _ _) ↔ _
      rw [bindsArguments_iff]
      exact ⟨fun h => ⟨hfits, fun _ => h.2.2 rfl⟩, fun h => ⟨rfl, hcount, fun _ => h.2 hp⟩⟩
    · rw [if_neg hp]
      show _ ∧ _ ∧ (false = true → BindsArguments _ _) ↔ _
      exact iff_of_true ⟨rfl, hcount, fun h => absurd h Bool.false_ne_true⟩
        ⟨hfits, fun h => absurd h hp⟩
  · rw [if_neg hfits]
    exact iff_of_false not_false fun h => hfits h.1

/-- A field of type `fixed32`. -/
def fixedId : Leaf where
  field :=
    { name := accountId, type := .fixed32, presence := false, oneof := none,
      defaultValue := .uint32 0, typed := rfl, scalar := by decide }
  hasBit := false
  value := .uint32 5
  typed := rfl

/-- `fixedId` is counted and gets its placeholder, but reading it aborts. -/
theorem fixed_not_carried :
    parseProcParamsCount [.leaf fixedId] = 1
      ∧ ¬ CallCarries ⟨fun _ => true⟩ (levelProc 1 2).procName [.leaf fixedId] := by
  refine ⟨rfl, fun h => ?_⟩
  have hbinds := h.2.2 rfl
  exact hbinds

end PbEntityDb
