import PbEntityDb.Sql.Query

/-!
Rows, tables and the statements executed on them.

The database is not part of the repository; what is stated here is the
documented behaviour of the statements it gets. `Comparison` is its `=` between
a column and a parameter, which depends on types and collations and is left
open. A text that is no `Query`, or a statement with a parameter that was not
set, is outside of what is described here.

* `Query.selects` says which rows fulfil the conditions of a statement, and
  `Table.insertOrUpdate` what an insert with a duplicate clause does to a table
  with a unique key.
* `ZdbStatement.MayReturn` is the set of rows a prepared `SELECT` may return.
* `ChangesOnly` is the frame of a write, and `insertOrUpdate_again` says that an
  insert that names the key may be repeated.
-/

namespace PbEntityDb

/-- A stored value, `none` for `NULL`. -/
abbrev Cell := Option BoundValue

/-- A row: its values by the names of the columns. -/
abbrev Row := Text → Cell

/-- The database's `=` between a column and a parameter. -/
abbrev Comparison := Cell → BoundValue → Bool

/-- The comparison of equal values only. -/
def sameValue : Comparison := fun c v => c = some v

/-- A table with a unique key. -/
structure Table where
  key : List Text
  defaults : Row
  rows : List Row

/-! ### Conditions -/

/-- All comparisons of columns with their parameters hold in the row. -/
def fulfils (eq : Comparison) (conditions : List Text) (values : List BoundValue) (row : Row) :
    Bool :=
  (conditions.zip values).all fun p => eq (row p.1) p.2

/-- A row that a `SELECT` returns. -/
def Query.selects (eq : Comparison) (values : List BoundValue) (row : Row) : Query → Bool
  | select _ conditions => fulfils eq conditions values row
  | _ => false

namespace ZdbStatement

/-- The parameters of a statement, if all of them were set. -/
def values (s : ZdbStatement) : Option (List BoundValue) :=
  s.stmt.bind fun p =>
    if p.slots.all Option.isSome then some (p.slots.filterMap fun v => v) else none

/-- A statement whose parameters are all set holds the values it was given, one for
each slot. -/
lemma values_holding {sql : Text} {n : ℕ} {vs ws : List BoundValue}
    (h : (holding sql n vs).values = some ws) : ws = vs ∧ n ≤ vs.length := by
  simp only [values, holding, Option.bind_some] at h
  by_cases hall : (filled n vs).all Option.isSome = true
  · rw [if_pos hall] at h
    have hrest : n - vs.length = 0 := by
      by_contra hne
      have hmem : (none : Option BoundValue) ∈ filled n vs :=
        List.mem_append_right _ (List.mem_replicate.mpr ⟨hne, rfl⟩)
      exact absurd (List.all_eq_true.mp hall none hmem) (by simp)
    rw [filled, hrest] at h
    exact ⟨by simpa using h.symm, by omega⟩
  · rw [if_neg hall] at h
    cases h

/-- A row that the prepared statement may return. Where the text is not read,
or a parameter was not set, any row may come back. -/
def MayReturn (eq : Comparison) (s : ZdbStatement) (row : Row) : Prop :=
  ∀ q vs, Query.read s.sql = some q → s.values = some vs → q.selects eq vs row = true

end ZdbStatement

/-! ### Inserts -/

namespace Table

/-- The row that an insert offers to the table. -/
def newRow (defaults : Row) (columns : List Text) (values : List BoundValue) : Row := fun c =>
  match (columns.zip values).lookup c with
  | some v => some v
  | none => defaults c

/-- The row has the values of `new` in all columns of the key. -/
def sameKey (eq : Comparison) (key : List Text) (new row : Row) : Bool :=
  !key.isEmpty && key.all fun c => match new c with
    | some v => eq (row c) v
    | none => false

/-- The assignments `c = VALUES(c')` of the duplicate clause. -/
def assignValues (new : Row) : List (Text × Text) → Row → Row
  | [], row => row
  | (c, c') :: assignments, row => assignValues new assignments (Function.update row c (new c'))

/-- Replaces the first row with property `p`, if there is one. -/
def replaceFirst (p : Row → Bool) (f : Row → Row) : List Row → Option (List Row)
  | [] => none
  | row :: rows => if p row then some (f row :: rows) else (replaceFirst p f rows).map (row :: ·)

/-- An insert that becomes an update if the key is there already. -/
def insertOrUpdate (eq : Comparison) (tbl : Table) (new : Row) (onDuplicate : List (Text × Text)) :
    Table :=
  match replaceFirst (sameKey eq tbl.key new) (assignValues new onDuplicate) tbl.rows with
  | some rows => { tbl with rows := rows }
  | none => { tbl with rows := tbl.rows ++ [new] }

/-- An insert. Without a duplicate clause a stored row with the key is an error. -/
def insert (eq : Comparison) (tbl : Table) (new : Row) (onDuplicate : List (Text × Text)) :
    Option Table :=
  if onDuplicate = [] ∧ tbl.rows.any (sameKey eq tbl.key new) = true then none
  else some (tbl.insertOrUpdate eq new onDuplicate)

/-- An update of a row, if it fulfils the conditions. -/
def updateRow (eq : Comparison) (columns conditions : List Text) (values : List BoundValue)
    (row : Row) : Row :=
  if fulfils eq conditions (values.drop columns.length) row then
    newRow row columns (values.take columns.length)
  else row

/-- The execution of a statement that was read. A list with a column that comes
twice, or with another number of values, is refused. -/
def run (eq : Comparison) (tbl : Table) (values : List BoundValue) : Query → Option Table
  | .select _ _ => some tbl
  | .insert _ columns n onDuplicate =>
      if columns.Nodup ∧ columns.length = n ∧ values.length = n then
        tbl.insert eq (newRow tbl.defaults columns values) onDuplicate
      else none
  | .update _ columns conditions =>
      if columns.Nodup ∧ values.length = columns.length + conditions.length then
        some { tbl with rows := tbl.rows.map (updateRow eq columns conditions values) }
      else none
  | .delete _ conditions =>
      if values.length = conditions.length then
        some { tbl with rows := tbl.rows.filter (fun row => !fulfils eq conditions values row) }
      else none

/-- `ZdbStatement::Exec`: `none` if it returns `false`. -/
def exec (eq : Comparison) (tbl : Table) (s : ZdbStatement) : Option Table := do
  let q ← Query.read s.sql
  let values ← s.values
  tbl.run eq values q

/-! ### What an insert does -/

lemma insert_some {eq : Comparison} {tbl tbl' : Table} {new : Row}
    {onDuplicate : List (Text × Text)} (h : tbl.insert eq new onDuplicate = some tbl') :
    tbl' = tbl.insertOrUpdate eq new onDuplicate := by
  rw [insert] at h
  split_ifs at h
  exact (Option.some.inj h).symm

lemma replaceFirst_append {p : Row → Bool} (f : Row → Row) {before : List Row}
    (hbefore : ∀ row ∈ before, p row = false) {row : Row} (hrow : p row = true) (after : List Row) :
    replaceFirst p f (before ++ row :: after) = some (before ++ f row :: after) := by
  induction before with
  | nil => simp [replaceFirst, hrow]
  | cons r before ih =>
      have hr : p r = false := hbefore r List.mem_cons_self
      rw [List.cons_append, replaceFirst, hr, if_neg (by simp),
        ih fun row h => hbefore row (List.mem_cons_of_mem _ h)]
      rfl

/-- The duplicate clause gives the columns it names their new values, and
leaves the others as they are. -/
lemma assignValues_apply (new : Row) (columns : List Text) (row : Row) (c : Text) :
    assignValues new (columns.map fun c => (c, c)) row c
      = if c ∈ columns then new c else row c := by
  induction columns generalizing row with
  | nil => rfl
  | cons c' columns ih =>
      rw [List.map_cons, assignValues, ih]
      by_cases hmem : c ∈ columns
      · rw [if_pos hmem, if_pos (List.mem_cons_of_mem _ hmem)]
      · rw [if_neg hmem]
        rcases eq_or_ne c c' with rfl | hne
        · rw [Function.update_self, if_pos List.mem_cons_self]
        · rw [Function.update_of_ne hne, if_neg (by simp [hne, hmem])]

/-- Columns without repetition keep the values they are given. -/
lemma newRow_eq (defaults : Row) {columns : List Text} {values : List BoundValue}
    (hnodup : columns.Nodup) {c : Text} {v : BoundValue} (h : (c, v) ∈ columns.zip values) :
    newRow defaults columns values c = some v := by
  have hlookup : (columns.zip values).lookup c = some v := by
    induction columns generalizing values with
    | nil => simp at h
    | cons c' columns ih =>
        cases values with
        | nil => simp at h
        | cons v' values =>
            rw [List.zip_cons_cons, List.mem_cons] at h
            rw [List.nodup_cons] at hnodup
            rcases h with h | h
            · cases h
              simp
            · have hne : c ≠ c' := by
                rintro rfl
                exact hnodup.1 (List.of_mem_zip h).1
              have hbeq : (c == c') = false := by simpa using hne
              rw [List.zip_cons_cons, List.lookup_cons, hbeq]
              exact ih hnodup.2 h
  rw [newRow, hlookup]

/-- **An insert onto a stored row**: the row gets the new values of the columns
in the duplicate clause, everything else stays. -/
theorem insertOrUpdate_stored (eq : Comparison) (tbl : Table) (new : Row) (columns : List Text)
    {before after : List Row} {row : Row} (hrows : tbl.rows = before ++ row :: after)
    (hrow : sameKey eq tbl.key new row = true)
    (hbefore : ∀ r ∈ before, sameKey eq tbl.key new r = false) :
    tbl.insertOrUpdate eq new (columns.map fun c => (c, c))
      = { tbl with
          rows := before ++ (fun c => if c ∈ columns then new c else row c) :: after } := by
  have hassign : assignValues new (columns.map fun c => (c, c)) row
      = fun c => if c ∈ columns then new c else row c :=
    funext fun c => assignValues_apply new columns row c
  rw [insertOrUpdate, hrows, replaceFirst_append _ hbefore hrow, hassign]

/-! ### An insert once more -/

/-- The first row with a property, if there is one. -/
lemma replaceFirst_cases (p : Row → Bool) (f : Row → Row) (rows : List Row) :
    (∀ row ∈ rows, p row = false) ∧ replaceFirst p f rows = none
      ∨ ∃ before row after, rows = before ++ row :: after ∧ (∀ r ∈ before, p r = false)
          ∧ p row = true ∧ replaceFirst p f rows = some (before ++ f row :: after) := by
  induction rows with
  | nil => exact .inl ⟨fun row h => absurd h List.not_mem_nil, rfl⟩
  | cons r rows ih =>
      cases hr : p r with
      | true => exact .inr ⟨[], r, rows, rfl, by simp, hr, by rw [replaceFirst, if_pos hr]; rfl⟩
      | false =>
          rcases ih with ⟨hall, hnone⟩ | ⟨before, row, after, hrows, hbefore, hrow, hsome⟩
          · refine .inl ⟨?_, by rw [replaceFirst, hr, if_neg (by simp), hnone]; rfl⟩
            intro row hrow
            rcases List.mem_cons.mp hrow with rfl | hrow
            · exact hr
            · exact hall row hrow
          · refine .inr ⟨r :: before, row, after, by rw [hrows]; rfl, ?_, hrow,
              by rw [replaceFirst, hr, if_neg (by simp), hsome]; rfl⟩
            intro row' hrow'
            rcases List.mem_cons.mp hrow' with rfl | hrow'
            · exact hr
            · exact hbefore row' hrow'

/-- What an insert makes of a table: a new row, or new values in the first row
with the key. -/
lemma insertOrUpdate_cases (eq : Comparison) (tbl : Table) (new : Row) (columns : List Text) :
    (∀ row ∈ tbl.rows, sameKey eq tbl.key new row = false)
        ∧ tbl.insertOrUpdate eq new (columns.map fun c => (c, c))
          = { tbl with rows := tbl.rows ++ [new] }
      ∨ ∃ before row after, tbl.rows = before ++ row :: after
          ∧ (∀ r ∈ before, sameKey eq tbl.key new r = false)
          ∧ sameKey eq tbl.key new row = true
          ∧ tbl.insertOrUpdate eq new (columns.map fun c => (c, c)) = { tbl with
              rows := before ++ (fun c => if c ∈ columns then new c else row c) :: after } := by
  rcases replaceFirst_cases (sameKey eq tbl.key new)
      (assignValues new (columns.map fun c => (c, c))) tbl.rows with
    ⟨hall, hnone⟩ | ⟨before, row, after, hrows, hbefore, hrow, -⟩
  · exact .inl ⟨hall, by rw [insertOrUpdate, hnone]⟩
  · exact .inr ⟨before, row, after, hrows, hbefore, hrow,
      insertOrUpdate_stored eq tbl new columns hrows hrow hbefore⟩

/-- A row that has the values of `new` in some columns keeps its key. -/
lemma sameKey_assigned {eq : Comparison} (hrefl : ∀ v, eq (some v) v = true) {key : List Text}
    {new row : Row} {columns : List Text} (h : sameKey eq key new row = true) :
    sameKey eq key new (fun c => if c ∈ columns then new c else row c) = true := by
  rw [sameKey, Bool.and_eq_true, List.all_eq_true] at h ⊢
  refine ⟨h.1, fun c hc => ?_⟩
  have hcell := h.2 c hc
  by_cases hcol : c ∈ columns
  · rw [if_pos hcol]
    cases hnew : new c with
    | none => rw [hnew] at hcell; cases hcell
    | some v => exact hrefl v
  · rwa [if_neg hcol]

/-- **An insert that gives all columns of the key a value may be repeated.** -/
theorem insertOrUpdate_again {eq : Comparison} (hrefl : ∀ v, eq (some v) v = true) (tbl : Table)
    {new : Row} (columns : List Text) (hne : tbl.key ≠ [])
    (hkey : ∀ c ∈ tbl.key, (new c).isSome = true) :
    (tbl.insertOrUpdate eq new (columns.map fun c => (c, c))).insertOrUpdate eq new
        (columns.map fun c => (c, c))
      = tbl.insertOrUpdate eq new (columns.map fun c => (c, c)) := by
  rcases insertOrUpdate_cases eq tbl new columns with
    ⟨hall, hnew⟩ | ⟨before, row, after, hrows, hbefore, hrow, hnew⟩
  · -- the second insert meets the row of the first
    have hself : sameKey eq tbl.key new new = true := by
      rw [sameKey, Bool.and_eq_true, List.all_eq_true]
      refine ⟨by simpa using hne, fun c hc => ?_⟩
      obtain ⟨v, hv⟩ := Option.isSome_iff_exists.mp (hkey c hc)
      simpa [hv] using hrefl v
    rw [hnew, insertOrUpdate_stored eq { tbl with rows := tbl.rows ++ [new] } new columns rfl hself
      hall]
    simp
  · have hagain := @sameKey_assigned eq hrefl tbl.key new row columns hrow
    rw [hnew, insertOrUpdate_stored eq { tbl with
      rows := before ++ (fun c => if c ∈ columns then new c else row c) :: after } new columns rfl
      hagain hbefore]
    congr 3
    funext c
    by_cases hc : c ∈ columns <;> simp [hc]

/-- A column keeps the value at its place. -/
lemma newRow_column (defaults : Row) {columns : List Text} {values : List BoundValue}
    (hnodup : columns.Nodup) (hlen : values.length = columns.length) {c : Text}
    (hc : c ∈ columns) :
    ∃ (i : ℕ) (v : BoundValue), columns[i]? = some c ∧ values[i]? = some v
      ∧ newRow defaults columns values c = some v := by
  obtain ⟨i, hi, rfl⟩ := List.mem_iff_getElem.mp hc
  have hv : i < values.length := by omega
  refine ⟨i, values[i], List.getElem?_eq_getElem hi, List.getElem?_eq_getElem hv,
    newRow_eq defaults hnodup (List.mem_iff_getElem.mpr ⟨i, ?_, List.getElem_zip⟩)⟩
  rw [List.length_zip]
  omega

/-- A column without a value keeps its default. -/
lemma newRow_of_notMem (defaults : Row) {columns : List Text} {c : Text} (hc : c ∉ columns)
    (values : List BoundValue) : newRow defaults columns values c = defaults c := by
  have hlookup : (columns.zip values).lookup c = none := by
    rw [List.lookup_eq_none_iff]
    rintro ⟨c', v⟩ hmem
    have hne : c ≠ c' := by
      rintro rfl
      exact hc (List.of_mem_zip hmem).1
    simpa using hne
  rw [newRow, hlookup]

/-- A write that touches rows with property `P` only, and in them the columns with
property `C` only: it adds such a row, changes one, or removes some. -/
inductive ChangesOnly (P : Row → Prop) (C : Text → Prop) (tbl : Table) : Table → Prop
  | added (new : Row) (hnew : P new) (hframe : ∀ c, ¬ C c → new c = tbl.defaults c) :
      ChangesOnly P C tbl { tbl with rows := tbl.rows ++ [new] }
  | changed (before after : List Row) (row row' : Row) (hrows : tbl.rows = before ++ row :: after)
      (hrow : P row) (hrow' : P row') (hframe : ∀ c, ¬ C c → row' c = row c) :
      ChangesOnly P C tbl { tbl with rows := before ++ row' :: after }
  | removed (keep : Row → Bool) (hremoved : ∀ row, keep row = false → P row) :
      ChangesOnly P C tbl { tbl with rows := tbl.rows.filter keep }

end Table

end PbEntityDb
