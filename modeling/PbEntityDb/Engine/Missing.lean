import PbEntityDb.Engine.Cached

/-!
Result sets in which a column is missing.

The getters by name catch the exception of `_getIndex` and leave the index of
the field before, and this is the index through which the rows behind the first
one are read. `NeverBorrows` says that a result set is nevertheless read as it
would be by name, and that no entry of `arrIndex` stands for a column of another
name; `neverBorrows_iff` says for which result sets this is so.
-/

namespace PbEntityDb

/-- The column with index `i` has the name. -/
def IsIndexOf (row : List Column) (name : Text) (i : ℕ) : Prop :=
  i ≠ 0 ∧ (columnNames row)[i - 1]? = some name

/-- Each slot of a leaf that is read holds the index of a column of its name. -/
def ReadsOwn (row : List Column) (ws : List FieldDecl) (arrIndex : List ℕ) : Prop :=
  ∀ (j : ℕ) (d : FieldDescriptor), ws[j]? = some (.leaf d) → d.isRead = true →
    ∃ i, arrIndex[j]? = some i ∧ IsIndexOf row d.name.chars i

/-- A missing column is not replaced by another one. -/
structure NeverBorrows (pool : Pool) (stray : Stray) (messageType : Text) (record : Message)
    (rs : ResultSet) : Prop where
  /-- no exception leaves the engine, and in every row a field without a column
  gets what the getters by name leave in it -/
  byName : ∃ stack records,
    parseEntityResult pool stray stack messageType record rs.rows = .ok records
      ∧ parseByName pool stray stack messageType record rs.rows = .ok records
  /-- the rows behind the first one are read from columns of the names of the fields -/
  own : ∀ first later rest stack r st ws, rs.rows = first :: later :: rest →
    addFirstReturnRecord pool stray first stack messageType record .start = .ok (r, st) →
    slots pool stack messageType = some ws → ReadsOwn first ws st.arrIndex

/-! ### The indices of columns that are there -/

lemma isIndexOf_getIndex {row : List Column} {name : Text} {i : ℕ}
    (h : getIndex row name = some i) : IsIndexOf row name i := by
  rw [getIndex] at h
  obtain ⟨j, hj, rfl⟩ := Option.map_eq_some_iff.mp h
  obtain ⟨hlt, hname, -⟩ := List.findIdx?_eq_some_iff_getElem.mp hj
  refine ⟨by omega, ?_⟩
  rw [Nat.add_sub_cancel, columnNames, List.getElem?_map, List.getElem?_eq_getElem hlt]
  simpa using hname

/-- What the slots of a walk are to find in `arrIndex`. -/
def OwnIndex (row : List Column) (w : FieldDecl) (i : ℕ) : Prop :=
  ∀ d, w = .leaf d → d.isRead = true → IsIndexOf row d.name.chars i

lemma indexLoop_own {row : List Column} {subSlots : Text → Option (List FieldDecl)}
    {subIndices : Text → List ℕ}
    (hsub : ∀ messageType ws, subSlots messageType = some ws → HasColumns row ws →
      List.Forall₂ (OwnIndex row) ws (subIndices messageType))
    (ds : List FieldDecl) (nFieldIndex : ℕ) {ws : List FieldDecl}
    (hws : slotLoop subSlots ds = some ws) (hcolumns : HasColumns row ws) :
    List.Forall₂ (OwnIndex row) ws (indexLoop row subIndices ds nFieldIndex) := by
  induction ds generalizing nFieldIndex ws with
  | nil =>
      cases hws
      exact .nil
  | cons d ds ih =>
      cases d with
      | leaf d =>
          obtain ⟨ws', hws', rfl⟩ := slotLoop_leaf hws
          refine .cons ?_ (ih _ hws' fun d' hd' => hcolumns d' (List.mem_cons_of_mem _ hd'))
          intro d' heq hread
          cases heq
          obtain ⟨i, -, hi, -, -⟩ := cellAt_getIndex (hcolumns d List.mem_cons_self hread)
          rw [if_pos hread, hi]
          exact isIndexOf_getIndex hi
      | message f =>
          obtain ⟨xs, ws', hxs, hws', rfl⟩ := slotLoop_message hws
          have hinner := hsub f.messageType xs hxs
            fun d hd => hcolumns d (List.mem_append_left _ hd)
          refine List.rel_append hinner (.cons ?_ (ih _ hws' fun d hd => ?_))
          · intro d heq
            cases heq
          · exact hcolumns d (List.mem_append_right _ (List.mem_cons_of_mem _ hd))
      | repeated name => exact ih _ hws hcolumns
      | repeatedMessage f => exact ih _ hws hcolumns

/-- If all columns are there, the slots find their indices. -/
lemma indices_own {row : List Column} {pool : Pool} {depth : ℕ} {messageType : Text}
    {ws : List FieldDecl} (hws : slots pool depth messageType = some ws)
    (hcolumns : HasColumns row ws) :
    List.Forall₂ (OwnIndex row) ws (indices row pool depth messageType) := by
  induction depth generalizing messageType ws with
  | zero => simp [slots] at hws
  | succ depth ih => exact indexLoop_own (fun _ _ hws h => ih hws h) _ 0 hws hcolumns

/-- A first row with all columns leaves their indices in `arrIndex`. -/
lemma readsOwn_of_columns {pool : Pool} {stray : Stray} {stack : ℕ} {messageType : Text}
    {row : List Column} {record r : Message} {st : ReadState} {ws : List FieldDecl}
    (hws : slots pool stack messageType = some ws) (hcolumns : HasColumns row ws)
    (h : addFirstReturnRecord pool stray row stack messageType record .start = .ok (r, st)) :
    ReadsOwn row ws st.arrIndex := by
  intro j d hj hread
  obtain ⟨-, ⟨rest, hrest⟩, -⟩ := addFirst_ok pool stray h
  rw [List.drop_zero] at hrest
  have hall := indices_own hws hcolumns
  obtain ⟨hjlt, hjd⟩ := List.getElem?_eq_some_iff.mp hj
  have hlt : j < (indices row pool stack messageType).length := by
    rw [← hall.length_eq]
    exact hjlt
  refine ⟨(indices row pool stack messageType)[j], ?_, ?_⟩
  · rw [← hrest, List.getElem?_append_left hlt, List.getElem?_eq_getElem hlt]
  · exact List.Forall₂.get hall hjlt hlt d hjd hread

/-! ### When no column is borrowed -/

/-- A leaf whose column is missing cannot find it under any index. -/
lemma not_readsOwn {row : List Column} {ws : List FieldDecl} {arrIndex : List ℕ}
    {d : FieldDescriptor} (hd : .leaf d ∈ ws) (hread : d.isRead = true)
    (hmissing : d.name.chars ∉ columnNames row) : ¬ ReadsOwn row ws arrIndex := by
  intro h
  obtain ⟨j, hj⟩ := List.mem_iff_getElem?.mp hd
  obtain ⟨i, -, -, hname⟩ := h j d hj hread
  exact hmissing (List.mem_of_getElem? hname)

/-- **When a missing column is not replaced by another one**: if nothing is
read, if there is no row behind the first one, or if it is the column of a field
that is not read at all. -/
theorem neverBorrows_iff (pool : Pool) (stray : Stray) (messageType : Text) (record : Message)
    (rs : ResultSet) :
    NeverBorrows pool stray messageType record rs
      ↔ rs.rows = [] ∨ Readable pool messageType
        ∧ (rs.rows.length ≤ 1
          ∨ ∀ d, HasLeaf pool messageType d → d.isRead = true → d.name.chars ∈ rs.names) := by
  constructor
  · rintro ⟨⟨stack, records, hparse, -⟩, hown⟩
    obtain ⟨names, rows, hnamed⟩ := rs
    cases rows with
    | nil => exact .inl rfl
    | cons first rows =>
        obtain ⟨⟨r, st⟩, hfirst, -⟩ := bind_ok hparse
        obtain ⟨-, -, ws, hws, hlen, hfixed⟩ := addFirst_ok pool stray hfirst
        refine .inr ⟨⟨stack, ws, hws, hlen, hfixed⟩, ?_⟩
        cases rows with
        | nil => exact .inl (le_refl _)
        | cons later rest =>
            refine .inr fun d hd hread => ?_
            by_contra hmissing
            have hmissing' : d.name.chars ∉ columnNames first :=
              fun h => hmissing (hnamed first List.mem_cons_self ▸ h)
            exact not_readsOwn ((mem_slots hws d).mpr hd) hread hmissing'
              (hown first later rest stack r st ws rfl hfirst hws)
  · rintro (hnil | ⟨⟨depth, ws, hws, hlen, hfixed⟩, hfew⟩)
    · refine ⟨⟨0, [], by rw [hnil]; rfl, by rw [hnil]; rfl⟩, ?_⟩
      intro first later rest stack r st ws hrows
      rw [hnil] at hrows
      cases hrows
    · obtain ⟨names, rows, hnamed⟩ := rs
      have hbyName := parseByName_fills stray hws hlen hfixed record rows
      rcases hfew with hone | hcolumns
      · refine ⟨⟨depth, _, ?_, hbyName⟩, ?_⟩
        · -- a single row is read by name
          cases rows with
          | nil => rfl
          | cons row rows =>
              have hrows : rows = [] := by
                rw [← List.length_eq_zero_iff]
                have hlength : (row :: rows).length = rows.length + 1 := List.length_cons
                simp only [hlength] at hone
                omega
              subst hrows
              exact hbyName
        · intro first later rest stack r st ws hrows
          have hlength : rows.length = rest.length + 2 := by
            rw [show rows = first :: later :: rest from hrows]
            rfl
          simp only [hlength] at hone
          omega
      · refine ⟨⟨depth, _, parseEntityResult_fills stray hws hlen hfixed _ hcolumns record,
          hbyName⟩, ?_⟩
        intro first later rest stack r st ws' hrows hfirst hws'
        have hnames : columnNames first = names :=
          hnamed first (by rw [show rows = first :: later :: rest from hrows]; simp)
        exact readsOwn_of_columns hws'
          (fun d hd hread => hnames ▸ hcolumns d ((mem_slots hws' d).mp hd) hread) hfirst

/-- Two accounts, of which the result set has only the key. -/
def accountKeys : ResultSet where
  names := [accountId.chars]
  rows := [[⟨accountId.chars, .long 5⟩], [⟨accountId.chars, .long 6⟩]]
  named := by decide

/-- The level of the second account is its key. -/
theorem level_borrows_id :
    HasLeaf accountPool account.chars (.ofInt32 accountLevel)
      ∧ accountLevel.chars ∉ accountKeys.names
      ∧ parseEntityResult accountPool zeroStray 1 account.chars
          (emptyMessage accountPool account.chars) accountKeys.rows
        = .ok [[.leaf ⟨.ofInt32 accountId, true, .int32 5, rfl⟩,
              .leaf ⟨.ofInt32 accountLevel, true, .int32 int32Min, rfl⟩],
            [.leaf ⟨.ofInt32 accountId, true, .int32 6, rfl⟩,
              .leaf ⟨.ofInt32 accountLevel, true, .int32 6, rfl⟩]]
      ∧ ¬ NeverBorrows accountPool zeroStray account.chars
          (emptyMessage accountPool account.chars) accountKeys := by
  have hleaf : HasLeaf accountPool account.chars (.ofInt32 accountLevel) :=
    .here (List.mem_cons_of_mem _ List.mem_cons_self)
  have hmissing : accountLevel.chars ∉ accountKeys.names := by decide
  refine ⟨hleaf, hmissing, rfl, fun h => ?_⟩
  obtain ⟨⟨r, st⟩, hfirst⟩ : ∃ x, addFirstReturnRecord accountPool zeroStray
      [⟨accountId.chars, .long 5⟩] 1 account.chars (emptyMessage accountPool account.chars) .start
        = .ok x := ⟨_, rfl⟩
  exact not_readsOwn (List.mem_cons_of_mem _ List.mem_cons_self) rfl hmissing
    (h.own _ _ _ _ r st _ rfl hfirst rfl)

end PbEntityDb
