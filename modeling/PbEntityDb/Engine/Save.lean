import PbEntityDb.Engine.Load

/-!
What a saved entity leaves in the table.

`CProtobufDbStub::EntitySave` inserts the entity with a duplicate clause.
`eUpdate_some` is the statement that reaches the table, and
`entitySave_stored` what it makes of a row that has the key of the entity: the
columns of the fields that are present and no strings get the values of the
entity, and those that no field names keep what they had.
-/

namespace PbEntityDb

/-- `Protobuf2DbEngine::EUpdate`: the table afterwards, or `none` for `false`; `heap` is what
stands where the strings were when the statement is executed. -/
def eUpdate (eq : Comparison) (db : Server) (heap : ℕ → Text) (tbl : Table) (entity : Message)
    (sTableName : Name) (vInKey : List Name) (bHackInsert : Bool) :
    Except Fault (Option Table) := do
  let (ok, s) ← parseUpdate db .new entity sTableName vInKey bHackInsert
  if !ok then .ok none else .ok (tbl.exec eq (s.sent heap))

/-- `CProtobufDbStub::EntitySave` on an open engine: it tries again until
`EUpdate` returns `true`. The list says what the database accepts in each round,
and what stands where the strings were; the result is `none` while the loop goes on. -/
def entitySave (eq : Comparison) (tbl : Table) (entity : Message) (sTableName : Name)
    (vKey : List Name) : List (Server × (ℕ → Text)) → Except Fault (Option Table)
  | [] => .ok none
  | (db, heap) :: rounds => do
      match ← eUpdate eq db heap tbl entity sTableName vKey true with
      | some tbl' => .ok (some tbl')
      | none => entitySave eq tbl entity sTableName vKey rounds

/-- The row has the key of the entity. -/
def HasKey (compare : Cell → Option SqlValue → Bool) (entity : Message) (vInKey : List Name)
    (row : Row) : Prop :=
  ∀ l ∈ keyLeaves vInKey entity, compare (row l.name.chars) l.signedValue = true

/-- The statement that saves an entity. -/
def saveStatement (entity : Message) (vInKey : List Name) : Statement :=
  .insert vInKey (setNames vInKey entity)

/-! ### The statement that reaches the table -/

section Save

variable {eq : Comparison} {entity : Message} {sTableName : Name} {vInKey : List Name}

/-- The rounds of the loop end with one that went through. -/
lemma entitySave_some {tbl tbl' : Table} {rounds : List (Server × (ℕ → Text))}
    (h : entitySave eq tbl entity sTableName vInKey rounds = .ok (some tbl')) :
    ∃ db heap, eUpdate eq db heap tbl entity sTableName vInKey true = .ok (some tbl') := by
  induction rounds with
  | nil => simp [entitySave] at h
  | cons round rounds ih =>
      obtain ⟨db, heap⟩ := round
      rw [entitySave] at h
      cases hround : eUpdate eq db heap tbl entity sTableName vInKey true with
      | error f => simp [hround, bind, Except.bind] at h
      | ok result =>
          cases result with
          | none =>
              rw [hround] at h
              exact ih h
          | some tbl'' =>
              rw [hround] at h
              cases h
              exact ⟨db, heap, hround⟩

/-- The insert that reaches the table if nothing of it was cut off. -/
lemma eUpdate_some {db : Server} {heap : ℕ → Text} {tbl tbl' : Table}
    (htext : ((saveStatement entity vInKey).text sTableName).length < bufferSize)
    (h : eUpdate eq db heap tbl entity sTableName vInKey true = .ok (some tbl')) :
    tbl.run eq (sentValues heap
        ((keyLeaves vInKey entity ++ setLeaves vInKey entity).filterMap Leaf.boundValue))
      ((saveStatement entity vInKey).query sTableName) = some tbl' := by
  have hparse := ParsePath.parse_eq db entity sTableName vInKey (.write (.update true))
  rw [ParsePath.parse, ParsePath.statement, ParsePath.params] at hparse
  rw [eUpdate] at h
  cases hresult : parseUpdate db .new entity sTableName vInKey true with
  | error f => simp [hresult, bind, Except.bind] at h
  | ok result =>
      obtain ⟨ok, s⟩ := result
      cases ok with
      | false => simp [hresult, bind, Except.bind] at h
      | true =>
          rw [hresult] at h hparse
          obtain ⟨-, -, htyped, hle, rfl⟩ := ParsePath.prepareAndBind_ok hparse.symm
          have hexec : tbl.exec eq _ = some tbl' := Except.ok.inj h
          have hread : Query.read ((saveStatement entity vInKey).sent sTableName)
              = some ((saveStatement entity vInKey).query sTableName) := by
            rw [Statement.sent_eq_text htext, Query.read_text _ _ fun _ => by simp [saveStatement]]
          rw [ZdbStatement.sent_holding, Table.exec, ZdbStatement.holding] at hexec
          change (Query.read ((saveStatement entity vInKey).sent sTableName)).bind _ = _ at hexec
          rw [hread, Option.bind_some] at hexec
          obtain ⟨vs, hvs, hrun⟩ := Option.bind_eq_some_iff.mp hexec
          rw [← boundValues_of_not_mistyped htyped, ← (ZdbStatement.values_holding hvs).1]
          exact hrun

/-! ### The row that is offered -/

lemma mem_duplicateColumns {vKey vSet : List Name} {k : Name} (h : k ∈ duplicateColumns vKey vSet) :
    k ∈ vKey ∨ k ∈ vSet := by
  rw [duplicateColumns] at h
  by_cases hset : 0 < vSet.length
  · rw [if_pos hset] at h
    exact .inr h
  · rw [if_neg hset] at h
    exact .inl (List.mem_of_mem_getLast? (by simpa using h))

/-- Keys in the order of the walk name one leaf each. -/
lemma namesOneLeaf_of_walk (hnodup : vInKey.Nodup)
    (horder : (keyLeaves vInKey entity).map Leaf.name = vInKey) : NamesOneLeaf entity vInKey := by
  intro k hk
  rw [← List.count_filter (p := (· ∈ vInKey)) (by simpa using hk), List.filter_map]
  change ((keyLeaves vInKey entity).map Leaf.name).count k = 1
  rw [horder, List.count_eq_one_of_mem hnodup hk]

/-- The row that the insert offers. -/
def savedRow (defaults : Row) (heap : ℕ → Text) (entity : Message) (vInKey : List Name) : Row :=
  Table.newRow defaults ((vInKey ++ setNames vInKey entity).map Name.chars)
    (sentValues heap
      ((keyLeaves vInKey entity ++ setLeaves vInKey entity).filterMap Leaf.boundValue))

section SavedRow

variable (haccepted : ∀ l ∈ leaves entity, l.accepted = true)
  (horder : (keyLeaves vInKey entity).map Leaf.name = vInKey)
  (hcolumns : ((vInKey ++ setNames vInKey entity).map Name.chars).Nodup)

include haccepted horder hcolumns

/-- The row that the insert offers has the values that are bound for the fields of the entity,
strings excepted. -/
lemma savedRow_entity (defaults : Row) (heap : ℕ → Text) {l : Leaf} (hl : l ∈ leaves entity)
    (htype : l.field.type ≠ .string) :
    savedRow defaults heap entity vInKey l.name.chars = l.boundValue := by
  have hcolumnsEq : vInKey ++ setNames vInKey entity
      = (keyLeaves vInKey entity ++ setLeaves vInKey entity).map Leaf.name := by
    rw [List.map_append, horder, setNames]
  have hall : ∀ l ∈ keyLeaves vInKey entity ++ setLeaves vInKey entity, l.accepted = true := by
    intro l hl
    rcases List.mem_append.mp hl with hl | hl
    · exact haccepted l (mem_leaves_of_mem_leavesNamed hl)
    · exact haccepted l (mem_leaves_of_mem_setLeaves hl)
  have hmem : l ∈ keyLeaves vInKey entity ++ setLeaves vInKey entity := by
    by_cases hkey : l.name ∈ vInKey
    · exact List.mem_append_left _ (List.mem_filter.mpr ⟨hl, by simpa using hkey⟩)
    · exact List.mem_append_right _ (List.mem_filter.mpr ⟨hl, by simpa using hkey⟩)
  obtain ⟨v, hv⟩ := Option.isSome_iff_exists.mp (haccepted l hl)
  have hstring := isString_eq_false hv htype
  rw [hv]
  refine Table.newRow_eq defaults hcolumns (mem_zip_sentValues ?_ hstring heap)
  rw [hcolumnsEq]
  exact mem_zip_of_accepted hall hmem hv

/-- The rows with the key of that row are those with the key of the entity. -/
lemma sameKey_entity (compare : Cell → Option SqlValue → Bool) (defaults : Row) (heap : ℕ → Text)
    (hne : vInKey ≠ []) (hstring : ∀ l ∈ keyLeaves vInKey entity, l.field.type ≠ .string)
    (row : Row) :
    Table.sameKey (.byValue compare) (vInKey.map Name.chars)
        (savedRow defaults heap entity vInKey) row = true
      ↔ HasKey compare entity vInKey row := by
  have hcell : ∀ l ∈ keyLeaves vInKey entity, ∃ v, l.boundValue = some v
      ∧ v.value = l.signedValue ∧ savedRow defaults heap entity vInKey l.name.chars = some v := by
    intro l hl
    have hleaf := mem_leaves_of_mem_leavesNamed hl
    obtain ⟨v, hv⟩ := Option.isSome_iff_exists.mp (haccepted l hleaf)
    refine ⟨v, hv, value_boundValue hv (hstring l hl), ?_⟩
    rw [← hv]
    exact savedRow_entity haccepted horder hcolumns defaults heap hleaf (hstring l hl)
  have hnonempty : (vInKey.map Name.chars).isEmpty = false := by simpa using hne
  rw [Table.sameKey, hnonempty, Bool.not_false, Bool.true_and, List.all_eq_true]
  constructor
  · intro h l hl
    obtain ⟨v, -, hvalue, hnew⟩ := hcell l hl
    have hkey : l.name ∈ vInKey := by simpa using (List.mem_filter.mp hl).2
    have hrow := h l.name.chars (List.mem_map_of_mem hkey)
    rw [hnew] at hrow
    rw [← hvalue]
    exact hrow
  · intro h c hc
    obtain ⟨k, hk, rfl⟩ := List.mem_map.mp hc
    obtain ⟨l, hl, hname⟩ : ∃ l ∈ keyLeaves vInKey entity, l.name = k := by
      rw [← horder] at hk
      exact List.mem_map.mp hk
    obtain ⟨v, -, hvalue, hnew⟩ := hcell l hl
    rw [← hname, hnew]
    change compare _ v.value = true
    rw [hvalue]
    exact h l hl

end SavedRow

end Save

/-- **What saving makes of a stored row**: the columns of the fields that are
present and no strings get the values of the entity, the columns that no present field names
keep their values, and so does every other row. `compare` is the database's `=` between a
column and a value. -/
theorem entitySave_stored (compare : Cell → Option SqlValue → Bool) (tbl tbl' : Table)
    (entity : Message) (sTableName : Name) (vInKey : List Name)
    (rounds : List (Server × (ℕ → Text))) (hnodup : vInKey.Nodup) (hne : vInKey ≠ [])
    (haccepted : ∀ l ∈ leaves entity, l.accepted = true)
    (horder : (keyLeaves vInKey entity).map Leaf.name = vInKey)
    (hstring : ∀ l ∈ keyLeaves vInKey entity, l.field.type ≠ .string)
    (htext : ((saveStatement entity vInKey).text sTableName).length < bufferSize)
    (hkey : tbl.key = vInKey.map Name.chars) (before after : List Row) (row : Row)
    (hrows : tbl.rows = before ++ row :: after) (hrow : HasKey compare entity vInKey row)
    (hunique : ∀ r ∈ before, ¬ HasKey compare entity vInKey r)
    (hsave : entitySave (.byValue compare) tbl entity sTableName vInKey rounds
      = .ok (some tbl')) :
    ∃ row' : Row, tbl'.rows = before ++ row' :: after
      ∧ (∀ l ∈ leaves entity, l.name ∉ vInKey → l.field.type ≠ .string →
        ∃ v, row' l.name.chars = some v ∧ v.value = l.signedValue)
      ∧ ∀ c, (∀ l ∈ leaves entity, l.name.chars ≠ c) → row' c = row c := by
  obtain ⟨db, heap, hupdate⟩ := entitySave_some hsave
  have hrun := eUpdate_some htext hupdate
  have hone := namesOneLeaf_of_walk hnodup horder
  rw [saveStatement, Statement.query_insert, Table.run] at hrun
  by_cases hok : ((vInKey ++ setNames vInKey entity).map Name.chars).Nodup
      ∧ ((vInKey ++ setNames vInKey entity).map Name.chars).length
        = vInKey.length + (setNames vInKey entity).length
      ∧ (sentValues heap
        ((keyLeaves vInKey entity ++ setLeaves vInKey entity).filterMap Leaf.boundValue)).length
        = vInKey.length + (setNames vInKey entity).length
  swap
  · rw [if_neg hok] at hrun
    cases hrun
  rw [if_pos hok] at hrun
  have hinsert : tbl' = tbl.insertOrUpdate _ (savedRow tbl.defaults heap entity vInKey) _ :=
    Table.insert_some hrun
  have hsame := sameKey_entity haccepted horder hok.1 compare tbl.defaults heap hne hstring
  rw [← hkey] at hsame
  -- the duplicate clause names the columns that are set, or the last key
  have hdup : (duplicateColumns vInKey (setNames vInKey entity)).map (fun k => (k.chars, k.chars))
      = ((duplicateColumns vInKey (setNames vInKey entity)).map Name.chars).map
        fun c => (c, c) := by
    rw [List.map_map]
    rfl
  rw [hdup, Table.insertOrUpdate_stored _ tbl _ _ hrows ((hsame row).mpr hrow)
    fun r hr => by simpa using mt (hsame r).mp (hunique r hr)] at hinsert
  refine ⟨_, by rw [hinsert], fun l hl hset htype => ?_, fun c hc => ?_⟩
  · have hmem : l.name ∈ setNames vInKey entity :=
      List.mem_map_of_mem (List.mem_filter.mpr ⟨hl, by simpa using hset⟩)
    have hcolumn : l.name.chars
        ∈ (duplicateColumns vInKey (setNames vInKey entity)).map Name.chars := by
      rw [duplicateColumns, if_pos (List.length_pos_of_mem hmem)]
      exact List.mem_map_of_mem hmem
    obtain ⟨v, hv⟩ := Option.isSome_iff_exists.mp (haccepted l hl)
    rw [if_pos hcolumn, savedRow_entity haccepted horder hok.1 tbl.defaults heap hl htype]
    exact ⟨v, hv, value_boundValue hv htype⟩
  · refine if_neg fun hcolumn => ?_
    obtain ⟨k, hk, rfl⟩ := List.mem_map.mp hcolumn
    -- each of these columns is the name of a leaf
    obtain ⟨l, hl, hname⟩ : ∃ l ∈ leaves entity, l.name = k := by
      rcases mem_duplicateColumns hk with hk | hk
      · have hpos : 0 < ((leaves entity).map Leaf.name).count k := by rw [hone k hk]; omega
        exact List.mem_map.mp (List.count_pos_iff.mp hpos)
      · obtain ⟨l, hl, hname⟩ := List.mem_map.mp hk
        exact ⟨l, mem_leaves_of_mem_setLeaves hl, hname⟩
    exact hc l hl (by rw [hname])

/-- The accounts, with one row. -/
def accounts (row : Row) : Table := ⟨[accountId.chars], fun _ => none, [row]⟩

/-- An account is saved over the row it had. -/
theorem entitySave_account :
    ∃ tbl' row', entitySave (.byValue hasValue) (accounts (accountRow 1 7)) (accountEntity 1 9)
        account [accountId] [(⟨fun _ => true⟩, fun _ => [])] = .ok (some tbl')
      ∧ tbl'.rows = [] ++ row' :: []
      ∧ (∀ l ∈ leaves (accountEntity 1 9), l.name ∉ [accountId] → l.field.type ≠ .string →
        ∃ v, row' l.name.chars = some v ∧ v.value = l.signedValue)
      ∧ ∀ c, (∀ l ∈ leaves (accountEntity 1 9), l.name.chars ≠ c) → row' c = accountRow 1 7 c := by
  obtain ⟨tbl', hsave⟩ : ∃ tbl', entitySave (.byValue hasValue) (accounts (accountRow 1 7))
      (accountEntity 1 9) account [accountId] [(⟨fun _ => true⟩, fun _ => [])]
        = .ok (some tbl') := ⟨_, rfl⟩
  have hrow : HasKey hasValue (accountEntity 1 9) [accountId] (accountRow 1 7) := by
    intro l hl
    rcases List.mem_singleton.mp hl with rfl
    decide
  obtain ⟨row', h⟩ := entitySave_stored hasValue (accounts (accountRow 1 7)) tbl'
    (accountEntity 1 9) account [accountId] [(⟨fun _ => true⟩, fun _ => [])] (by decide)
    (by decide) (by decide) (by decide) (by decide) (by decide) rfl [] [] (accountRow 1 7) rfl hrow
    (by simp) hsave
  exact ⟨tbl', row', hsave, h⟩

/-- A field that was set back to zero keeps its stored value. -/
theorem entitySave_keeps_stored :
    HasKey hasValue (accountEntity 1 0) [accountId] (accountRow 1 7)
      ∧ ∃ tbl' row', entitySave (.byValue hasValue) (accounts (accountRow 1 7))
          (accountEntity 1 0) account [accountId] [(⟨fun _ => true⟩, fun _ => [])]
            = .ok (some tbl')
        ∧ tbl'.rows = [row']
        ∧ row' accountLevel.chars = some (.int 7)
        ∧ hasValue (row' accountLevel.chars) (Leaf.ofInt32 accountLevel 0).fieldValue = false := by
  refine ⟨?_, _, _, rfl, rfl, by decide, by decide⟩
  intro l hl
  rcases List.mem_singleton.mp hl with rfl
  decide

end PbEntityDb
