import PbEntityDb.Engine.Agreement
import PbEntityDb.Engine.Harmless

/-!
In which schedules of exceptions a read contains its failures.

* `readRows_delivers_iff`: when the rows of a result set are read in spite of the
  exceptions, and `parseResultSets_delivers_iff` the same for the result sets of a
  call.
* `contained_iff`: in which schedules `ESelect` and `SpQuery` deliver what they
  deliver without exceptions, or return `false` with nothing changed.
* `failures_not_contained`: an exception that leaves the engine, and one that leaves
  a wrong value in a record that is delivered.
-/

namespace PbEntityDb

/-! ### A result set -/

/-- Both return, and the same. -/
def Delivers {α : Type} (x y : Except Fault α) : Prop := ∃ a, x = .ok a ∧ y = .ok a

namespace Delivers

variable {α β : Type} {x y : Except Fault α}

/-- What is made of the results determines them. -/
lemma map_iff {g : α → β} (hg : Function.Injective g) :
    Delivers (x.bind fun a => .ok (g a)) (y.bind fun a => .ok (g a)) ↔ Delivers x y := by
  constructor
  · rintro ⟨b, hx, hy⟩
    obtain ⟨a, ha, heq⟩ := bind_ok hx
    obtain ⟨a', ha', heq'⟩ := bind_ok hy
    rw [Except.ok.injEq] at heq heq'
    obtain rfl := hg (heq.trans heq'.symm)
    exact ⟨a, ha, ha'⟩
  · rintro ⟨a, rfl, rfl⟩
    exact ⟨g a, rfl, rfl⟩

/-- A computation that may be stopped from outside. -/
lemma of_checked {P : Prop} (h : Checked P y x) : Delivers x y ↔ P ∧ ∃ a, x = .ok a := by
  constructor
  · rintro ⟨a, hx, hy⟩
    exact ⟨(h.ok_iff.mp hy).1, a, hx⟩
  · rintro ⟨hP, a, hx⟩
    exact ⟨a, hx, h.ok_iff.mpr ⟨hP, hx⟩⟩

/-- Results in a list. -/
lemma cons_iff {xs ys : Except Fault (List α)} :
    Delivers (x.bind fun a => xs.bind fun as => .ok (a :: as))
        (y.bind fun a => ys.bind fun as => .ok (a :: as))
      ↔ Delivers x y ∧ Delivers xs ys := by
  constructor
  · rintro ⟨l, hx, hy⟩
    obtain ⟨a, ha, hx⟩ := bind_ok hx
    obtain ⟨as, has, heq⟩ := bind_ok hx
    obtain ⟨a', ha', hy⟩ := bind_ok hy
    obtain ⟨as', has', heq'⟩ := bind_ok hy
    cases heq
    cases heq'
    exact ⟨⟨a, ha, ha'⟩, as, has, has'⟩
  · rintro ⟨⟨a, rfl, rfl⟩, as, rfl, rfl⟩
    exact ⟨a :: as, rfl, rfl⟩

end Delivers

section Rows

variable (pool : Pool) (stray : Stray) (stack : ℕ) (sch : Schedule) (set : ℕ)

/-- No call of `MoveNext` for the rows raises; without any row there are two calls. -/
def Fetched (rows : List (List Column)) : Prop :=
  ∀ k, k ≤ max 1 rows.length → sch (.next set k) = false

/-- **The rows are read in spite of the exceptions**: the type fits, what raises in
the first row is harmless, and in the rows behind it nothing raises and every field
has an index. -/
structure RowsRead (messageType : Text) (rows : List (List Column)) : Prop where
  fits : Fits pool stack messageType
  first : ∀ row, rows.head? = some row →
    Kept pool stray row stack messageType fun path => sch (.column set 0 path)
  indexed : ∀ row, rows.head? = some row → 1 < rows.length → Indexed pool row stack messageType
  later : ∀ k, 0 < k → k < rows.length →
    Quiet pool stack messageType fun path => sch (.column set k path)

lemma harmlessLoop_quiet (covered : List FieldDecl → Option ℕ → Bool)
    (ok : FieldDescriptor → Prop) {sub : Text → (List ℕ → Bool) → Prop}
    (hsub : ∀ messageType, sub messageType fun _ => false) (ds : List FieldDecl) (i : ℕ) :
    harmlessLoop covered ok sub (fun _ => false) ds i := by
  induction ds generalizing i with
  | nil => exact trivial
  | cons d ds ih =>
      refine ⟨fun _ => ?_, ih (i + 1)⟩
      cases d with
      | leaf d => exact fun h => by cases h
      | message f => exact hsub f.messageType
      | repeated name => exact trivial
      | repeatedMessage f => exact trivial

/-- Without exceptions nothing is harmed. -/
lemma harmless_quiet (covered : List FieldDecl → Option ℕ → Bool) (ok : FieldDescriptor → Prop)
    (messageType : Text) : Harmless pool covered ok stack messageType fun _ => false := by
  induction stack generalizing messageType with
  | zero => exact trivial
  | succ stack ih => exact harmlessLoop_quiet covered ok ih _ 0

/-- Without exceptions the walks over a record are those of the engine. -/
lemma Raising.addReturnRecord_quiet (row : List Column) (messageType : Text) (record : Message)
    (st : ReadState) :
    Raising.addReturnRecord pool stray row stack messageType (fun _ => false) record st
      = PbEntityDb.addReturnRecord pool stray row stack messageType record st :=
  (addReturn_checked pool stray row stack messageType _ record st).eq
    (harmless_quiet pool stack _ _ messageType)

lemma Raising.addFirstReturnRecord_quiet (row : List Column) {messageType : Text}
    {record : Message} (hrecord : HasDecls pool record (pool messageType)) (st : ReadState) :
    Raising.addFirstReturnRecord pool stray row stack messageType (fun _ => false) record st
      = PbEntityDb.addFirstReturnRecord pool stray row stack messageType record st := by
  rcases addFirst_alike stray row stack messageType (fun _ => false) record st hrecord with
    ⟨e, hx, hy⟩ | ⟨a, b, st', hx, hy, hab⟩
  · rw [hx, hy]
  · rw [hx, hy, hab.mpr (harmless_quiet pool stack _ _ messageType)]

lemma Raising.moreRecords_quiet (messageType : Text) (arrIndex : List ℕ) (k : ℕ)
    (record : Message) (rows : List (List Column)) :
    Raising.moreRecords pool stray stack .quiet set id messageType arrIndex k record rows
      = PbEntityDb.moreRecords pool stray stack messageType arrIndex record rows := by
  induction rows generalizing k record with
  | nil => rfl
  | cons row rows ih =>
      show (Raising.addReturnRecord pool stray row stack messageType (fun _ => false) record
        ⟨arrIndex, 0⟩).bind _ = _
      rw [Raising.addReturnRecord_quiet, PbEntityDb.moreRecords]
      cases PbEntityDb.addReturnRecord pool stray row stack messageType record ⟨arrIndex, 0⟩ with
      | error e => rfl
      | ok p =>
          show (Raising.moreRecords pool stray stack .quiet set id messageType arrIndex (k + 1) p.1
            rows).bind _ = _
          rw [ih (k + 1) p.1]
          rfl

/-- **Without exceptions `ParseEntityResult`** is that of the engine. -/
theorem Raising.parseEntityResult_quiet {messageType : Text} {record : Message}
    (hrecord : HasDecls pool record (pool messageType)) (rows : List (List Column)) :
    Raising.parseEntityResult pool stray stack .quiet set messageType record rows
      = PbEntityDb.parseEntityResult pool stray stack messageType record rows := by
  rw [Raising.parseEntityResult]
  cases rows with
  | nil => rfl
  | cons row rows =>
      show (Raising.addFirstReturnRecord pool stray row stack messageType (fun _ => false) record
        .start).bind _ = _
      rw [Raising.addFirstReturnRecord_quiet pool stray stack row hrecord,
        PbEntityDb.parseEntityResult, ReadState.start]
      cases PbEntityDb.addFirstReturnRecord pool stray row stack messageType record
        ⟨List.replicate arrIndexSize 0, 0⟩ with
      | error e => rfl
      | ok p =>
          show (Raising.moreRecords pool stray stack .quiet set id messageType p.2.arrIndex 1 p.1
            rows).bind _ = _
          rw [Raising.moreRecords_quiet]
          rfl

/-- A row that is fetched. -/
lemma moveNext_checked (k : ℕ) :
    Checked (sch (.next set k) = false) (Raising.moveNext sch set k)
      (Raising.moveNext .quiet set k) :=
  Checked.stop (sch (.next set k)) Fault.sqlException

/-- **The rows behind the first one are left by an exception.** -/
lemma moreRecords_checked (start : Message → Message) (messageType : Text) (arrIndex : List ℕ)
    (k : ℕ) (record : Message) (rows : List (List Column)) :
    Checked ((∀ j, j ≤ rows.length → sch (.next set (k + j)) = false)
        ∧ ∀ j, j < rows.length →
          Quiet pool stack messageType fun path => sch (.column set (k + j) path))
      (Raising.moreRecords pool stray stack sch set start messageType arrIndex k record rows)
      (Raising.moreRecords pool stray stack .quiet set start messageType arrIndex k record
        rows) := by
  induction rows generalizing k record with
  | nil =>
      have hlast := (moveNext_checked sch set k).bind fun _ _ =>
        Checked.refl (.ok [] : Except Fault (List Message))
      refine hlast.congr ⟨?_, ?_⟩
      · rintro ⟨h, -⟩
        refine ⟨fun j hj => ?_, fun j hj => by simp at hj⟩
        obtain rfl : j = 0 := by simpa using hj
        exact h
      · exact fun h => ⟨h.1 0 (Nat.zero_le _), trivial⟩
  | cons row rows ih =>
      have hrow := (moveNext_checked sch set k).bind fun _ _ =>
        (addReturn_checked pool stray row stack messageType (fun path => sch (.column set k path))
          (start record) ⟨arrIndex, 0⟩).bind fun p _ =>
            (ih (k + 1) p.1).bind fun records _ =>
              Checked.refl (.ok (p.1 :: records) : Except Fault (List Message))
      have hquiet := Raising.addReturnRecord_quiet pool stray stack row messageType (start record)
        ⟨arrIndex, 0⟩
      rw [← hquiet] at hrow
      refine hrow.congr ?_
      rw [List.length_cons, and_true]
      constructor
      · rintro ⟨hnext, hread, hnexts, hreads⟩
        refine ⟨fun j hj => ?_, fun j hj => ?_⟩
        · cases j with
          | zero => exact hnext
          | succ j =>
              have h := hnexts j (by omega)
              rwa [Nat.add_assoc, Nat.add_comm 1] at h
        · cases j with
          | zero => exact hread
          | succ j =>
              have h := hreads j (by omega)
              rwa [Nat.add_assoc, Nat.add_comm 1] at h
      · rintro ⟨hnexts, hreads⟩
        refine ⟨hnexts 0 (by omega), hreads 0 (by omega), fun j hj => ?_, fun j hj => ?_⟩
        · rw [Nat.add_assoc, Nat.add_comm 1]
          exact hnexts (j + 1) (by omega)
        · rw [Nat.add_assoc, Nat.add_comm 1]
          exact hreads (j + 1) (by omega)

/-- Without exceptions the rows behind the first one are read if every field has an
index. -/
lemma moreRecords_quiet_iff {first : List Column} (start : Message → Message)
    {messageType : Text} {ws : List FieldDecl} {arrIndex : List ℕ}
    (hws : slots pool stack messageType = some ws) (hfixed : noFixed ws = true)
    (hholds : Holds arrIndex 0 (indices first pool stack messageType))
    {rows : List (List Column)} (hnames : ∀ row ∈ rows, columnNames row = columnNames first)
    (k : ℕ) (record : Message) :
    (∃ records, Raising.moreRecords pool stray stack .quiet set start messageType arrIndex k record
        rows = .ok records)
      ↔ (rows ≠ [] → List.Forall₂ HasIndex ws (indices first pool stack messageType)) := by
  induction rows generalizing k record with
  | nil =>
      refine ⟨fun _ h => absurd rfl h, fun _ => ⟨[], ?_⟩⟩
      rw [Raising.moreRecords, Raising.moveNext]
      rfl
  | cons row rows ih =>
      have hrest := fun r => ih (fun r hr => hnames r (List.mem_cons_of_mem _ hr)) (k + 1) r
      have hquiet := Raising.addReturnRecord_quiet pool stray stack row messageType (start record)
        ⟨arrIndex, 0⟩
      have hrun : Raising.moreRecords pool stray stack .quiet set start messageType arrIndex k
            record (row :: rows)
          = (addReturnRecord pool stray row stack messageType (start record) ⟨arrIndex, 0⟩).bind
              fun p => (Raising.moreRecords pool stray stack .quiet set start messageType arrIndex
                (k + 1) p.1 rows).bind fun records => .ok (p.1 :: records) := by
        rw [← hquiet]
        rfl
      rw [hrun]
      rcases addReturn_endsIf pool stray row (hnames row List.mem_cons_self) stack (start record) 0
        hws hfixed hholds with ⟨hall, r, hr⟩ | ⟨hnot, e, hr⟩
      · refine ⟨fun _ _ => hall, fun _ => ?_⟩
        obtain ⟨records, hrecords⟩ := (hrest r).mpr fun _ => hall
        refine ⟨r :: records, ?_⟩
        rw [hr]
        show (Raising.moreRecords pool stray stack .quiet set start messageType arrIndex (k + 1) r
          rows).bind _ = _
        rw [hrecords]
        rfl
      · constructor
        · rintro ⟨records, hrecords⟩
          rw [hr] at hrecords
          cases hrecords
        · exact fun h => absurd (h (List.cons_ne_nil _ _)) hnot

/-- When the rows behind the first one are read in spite of the exceptions. -/
lemma moreRecords_delivers_iff {first : List Column} (start : Message → Message)
    {messageType : Text} {ws : List FieldDecl} {arrIndex : List ℕ}
    (hws : slots pool stack messageType = some ws) (hfixed : noFixed ws = true)
    (hholds : Holds arrIndex 0 (indices first pool stack messageType))
    {rows : List (List Column)} (hnames : ∀ row ∈ rows, columnNames row = columnNames first)
    (k : ℕ) (record : Message) :
    Delivers
        (Raising.moreRecords pool stray stack .quiet set start messageType arrIndex k record rows)
        (Raising.moreRecords pool stray stack sch set start messageType arrIndex k record rows)
      ↔ ((∀ j, j ≤ rows.length → sch (.next set (k + j)) = false)
          ∧ ∀ j, j < rows.length →
            Quiet pool stack messageType fun path => sch (.column set (k + j) path))
        ∧ (rows ≠ [] → List.Forall₂ HasIndex ws (indices first pool stack messageType)) := by
  rw [Delivers.of_checked (moreRecords_checked pool stray stack sch set start messageType arrIndex k
      record rows),
    moreRecords_quiet_iff pool stray stack set start hws hfixed hholds hnames k record]

/-- The calls of `MoveNext` for a first row and those behind it. -/
lemma fetched_cons_iff (row : List Column) (rows : List (List Column)) :
    Fetched sch set (row :: rows)
      ↔ sch (.next set 0) = false ∧ ∀ j, j ≤ rows.length → sch (.next set (1 + j)) = false := by
  have hmax : max 1 (row :: rows).length = rows.length + 1 := by
    rw [List.length_cons]
    omega
  rw [Fetched, hmax]
  constructor
  · intro h
    exact ⟨h 0 (Nat.zero_le _), fun j hj => h (1 + j) (by omega)⟩
  · rintro ⟨hfirst, hnext⟩ k hk
    cases k with
    | zero => exact hfirst
    | succ k =>
        have h := hnext k (by omega)
        rwa [Nat.add_comm] at h

/-- The accessors for a first row and those for the rows behind it. -/
lemma rowsRead_cons_iff {messageType : Text} {ws : List FieldDecl}
    (hws : slots pool stack messageType = some ws) (hlen : ws.length ≤ arrIndexSize)
    (hfixed : noFixed ws = true) (row : List Column) (rows : List (List Column)) :
    RowsRead pool stray stack sch set messageType (row :: rows)
      ↔ Kept pool stray row stack messageType (fun path => sch (.column set 0 path))
        ∧ (rows ≠ [] → List.Forall₂ HasIndex ws (indices row pool stack messageType))
        ∧ ∀ j, j < rows.length →
          Quiet pool stack messageType fun path => sch (.column set (1 + j) path) := by
  constructor
  · rintro ⟨-, hfirst, hindexed, hlater⟩
    refine ⟨hfirst row rfl, fun hne => ?_, fun j hj => ?_⟩
    · have hpos := List.length_pos_of_ne_nil hne
      exact hindexed row rfl (by rw [List.length_cons]; omega) ws hws
    · exact hlater (1 + j) (by omega) (by rw [List.length_cons]; omega)
  · rintro ⟨hfirst, hindexed, hlater⟩
    refine ⟨⟨ws, hws, hlen, hfixed⟩, ?_, ?_, fun k hk hk' => ?_⟩
    · intro row' hrow
      cases hrow
      exact hfirst
    · intro row' hrow hone ws' hws'
      cases hrow
      rw [hws] at hws'
      cases hws'
      refine hindexed fun hnil => ?_
      rw [hnil] at hone
      exact lt_irrefl _ hone
    · obtain ⟨j, rfl⟩ := Nat.exists_eq_add_of_le hk
      rw [List.length_cons] at hk'
      exact hlater j (by omega)

/-- Without rows there are two calls of `MoveNext`. -/
lemma readRows_nil_delivers_iff (start : Message → Message) (messageType : Text)
    (record : Message) :
    Delivers (Raising.readRows pool stray stack .quiet set start messageType record [])
        (Raising.readRows pool stray stack sch set start messageType record [])
      ↔ Fetched sch set [] := by
  have hrun := (moveNext_checked sch set 0).bind fun _ _ =>
    moreRecords_checked pool stray stack sch set start messageType [] 1 record []
  rw [Raising.readRows, Raising.readRows]
  refine (Delivers.of_checked hrun).trans ?_
  constructor
  · rintro ⟨⟨hfirst, hnext, -⟩, -⟩ k hk
    replace hk : k ≤ 1 := hk
    interval_cases k
    · exact hfirst
    · exact hnext 0 (Nat.zero_le _)
  · intro hfetched
    refine ⟨⟨hfetched 0 (Nat.zero_le _), fun j hj => ?_, fun j hj => by simp at hj⟩, [], rfl⟩
    obtain rfl : j = 0 := by simpa using hj
    exact hfetched 1 (le_max_left _ _)

/-- A first row and the rows behind it. -/
lemma readRows_cons_delivers_iff (start : Message → Message) (messageType : Text)
    (record : Message) (row : List Column) {rows : List (List Column)}
    (hnames : ∀ row' ∈ rows, columnNames row' = columnNames row)
    (hrecord : HasDecls pool (start record) (pool messageType)) :
    Delivers (Raising.readRows pool stray stack .quiet set start messageType record (row :: rows))
        (Raising.readRows pool stray stack sch set start messageType record (row :: rows))
      ↔ Fetched sch set (row :: rows)
        ∧ RowsRead pool stray stack sch set messageType (row :: rows) := by
  have hrun : ∀ sch : Schedule,
      Raising.readRows pool stray stack sch set start messageType record (row :: rows)
        = (Raising.moveNext sch set 0).bind fun _ =>
            (Raising.addFirstReturnRecord pool stray row stack messageType
              (fun path => sch (.column set 0 path)) (start record) .start).bind fun p =>
                (Raising.moreRecords pool stray stack sch set start messageType p.2.arrIndex 1
                  p.1 rows).bind fun records => .ok (p.1 :: records) := fun _ => rfl
  have hquietFirst : Raising.addFirstReturnRecord pool stray row stack messageType
      (fun path => Schedule.quiet (.column set 0 path)) (start record) .start = _ :=
    Raising.addFirstReturnRecord_quiet pool stray stack row hrecord .start
  have hquietNext : Raising.moveNext .quiet set 0 = .ok () := rfl
  have hnext : Raising.moveNext sch set 0 = .ok () ↔ sch (.next set 0) = false :=
    (moveNext_checked sch set 0).ok_iff.trans (and_iff_left rfl)
  rcases addFirst_alike stray row stack messageType (fun path => sch (.column set 0 path))
    (start record) .start hrecord with ⟨e, hx, hy⟩ | ⟨a, b, st, hx, hy, hab⟩
  · -- the type does not fit
    constructor
    · rintro ⟨records, hrecords, -⟩
      rw [hrun, hquietNext, hquietFirst, hy] at hrecords
      cases hrecords
    · rintro ⟨-, hread⟩
      obtain ⟨ws, hws, hlen, hfixed⟩ := hread.fits
      obtain ⟨st, hst⟩ := addFirst_of_fits pool stray hws hlen hfixed row (start record)
      rw [hy] at hst
      cases hst
  · obtain ⟨-, hholds, ws, hws, hlen, hfixed⟩ := addFirst_ok pool stray hy
    have hmore := moreRecords_delivers_iff pool stray stack sch set start hws hfixed hholds hnames 1
    rw [fetched_cons_iff, rowsRead_cons_iff pool stray stack sch set hws hlen hfixed, hrun, hrun,
      hquietNext, hquietFirst, hx, hy]
    constructor
    · rintro ⟨records, hrecords, hrecords'⟩
      obtain ⟨-, -, hrecords⟩ := bind_ok hrecords
      obtain ⟨p, hp, hrecords⟩ := bind_ok hrecords
      cases hp
      obtain ⟨rest, hrest, heq⟩ := bind_ok hrecords
      cases heq
      obtain ⟨u, hu, hrecords'⟩ := bind_ok hrecords'
      obtain ⟨p, hp, hrecords'⟩ := bind_ok hrecords'
      cases hp
      obtain ⟨rest', hrest', heq⟩ := bind_ok hrecords'
      cases heq
      obtain ⟨⟨hnexts, hreads⟩, hindexed⟩ := (hmore a).mp ⟨rest, hrest, hrest'⟩
      exact ⟨⟨hnext.mp hu, hnexts⟩, hab.mp rfl, hindexed, hreads⟩
    · rintro ⟨⟨hfirst, hnexts⟩, hkept, hindexed, hreads⟩
      obtain rfl : a = b := hab.mpr hkept
      rw [hnext.mpr hfirst]
      obtain ⟨rest, hrest, hrest'⟩ := (hmore a).mpr ⟨⟨hnexts, hreads⟩, hindexed⟩
      exact Delivers.cons_iff.mpr ⟨⟨a, rfl, rfl⟩, rest, hrest, hrest'⟩

/-- **When all rows are read in spite of the exceptions.** -/
theorem readRows_delivers_iff (start : Message → Message) (messageType : Text) (record : Message)
    (rs : ResultSet) (hrecord : HasDecls pool (start record) (pool messageType)) :
    Delivers (Raising.readRows pool stray stack .quiet set start messageType record rs.rows)
        (Raising.readRows pool stray stack sch set start messageType record rs.rows)
      ↔ Fetched sch set rs.rows
        ∧ (rs.rows ≠ [] → RowsRead pool stray stack sch set messageType rs.rows) := by
  obtain ⟨names, rows, hnamed⟩ := rs
  cases rows with
  | nil =>
      rw [and_iff_left fun h => absurd rfl h]
      exact readRows_nil_delivers_iff pool stray stack sch set start messageType record
  | cons row rows =>
      have hnames : ∀ row' ∈ rows, columnNames row' = columnNames row := fun row' h =>
        (hnamed row' (List.mem_cons_of_mem _ h)).trans (hnamed row List.mem_cons_self).symm
      rw [forall_prop_of_true (List.cons_ne_nil row rows)]
      exact readRows_cons_delivers_iff pool stray stack sch set start messageType record row hnames
        hrecord

end Rows

/-! ### The result sets of a call -/

section Sets

variable (pool : Pool) (stray : Stray) (stack : ℕ) (sch : Schedule)

/-- The rows of a result set are read into a field in spite of the exceptions. -/
def FieldRead (set : ℕ) (field : Field) (rows : List (List Column)) : Prop :=
  Fetched sch set rows
    ∧ (rows ≠ [] → ∃ f elems, field = .repeatedMessage f elems
      ∧ RowsRead pool stray stack sch set f.messageType rows)

/-- Every result set that has a field is read into it, and the next one is asked
for. -/
def SetsRead (fields : Message) (sets : List ResultSet) (set : ℕ) : Prop :=
  ∀ j f rs, fields[j]? = some f → sets[j]? = some rs →
    FieldRead pool stray stack sch (set + j) f rs.rows ∧ sch (.nextResultSet (set + j)) = false

/-- The result sets of a call are read in spite of the exceptions. -/
def CallRead (storedProc : Message) (rs : ResultSet) (more : List ResultSet) : Prop :=
  match Raising.findFieldByName storedProc Raising.returnRecordList with
  | some i => ∀ field, storedProc[i]? = some field → FieldRead pool stray stack sch 0 field rs.rows
  | none =>
      match Raising.findFieldByName storedProc Raising.returnRecordsets with
      | none => True
      | some i => ∀ field, storedProc[i]? = some field → ∃ f, Raising.mutableField field = .ok f
          ∧ SetsRead pool stray stack sch (subMessage pool f field) (rs :: more) 0

/-- A field that is no list of messages. -/
def Field.NoList : Field → Prop
  | .repeatedMessage _ _ => False
  | _ => True

/-- A field is a list of messages or not. -/
lemma Field.list_or (field : Field) :
    (∃ f elems, field = .repeatedMessage f elems) ∨ field.NoList := by
  cases field with
  | repeatedMessage f elems => exact .inl ⟨f, elems, rfl⟩
  | leaf l => exact .inr trivial
  | unset f => exact .inr trivial
  | message f sub => exact .inr trivial
  | repeated name values => exact .inr trivial

/-- What becomes of the rows for a field that is no list. -/
def refuseRows (set : ℕ) (field : Field) : List (List Column) → Except Fault Field
  | [] => (Raising.moveNext sch set 1).bind fun _ => .ok field
  | _ :: _ => .error .typeMismatch

/-- A field that is no list takes no row. -/
lemma parseProcResult_noList {field : Field} (h : field.NoList) (set : ℕ)
    (rows : List (List Column)) :
    Raising.parseProcResult pool stray stack sch set field rows
      = (Raising.moveNext sch set 0).bind fun _ => refuseRows sch set field rows := by
  cases field with
  | repeatedMessage f elems => exact h.elim
  | leaf l => cases rows <;> rfl
  | unset f => cases rows <;> rfl
  | message f sub => cases rows <;> rfl
  | repeated name values => cases rows <;> rfl

lemma parseProcResult_delivers_iff (set : ℕ) (field : Field) (rs : ResultSet) :
    Delivers (Raising.parseProcResult pool stray stack .quiet set field rs.rows)
        (Raising.parseProcResult pool stray stack sch set field rs.rows)
      ↔ FieldRead pool stray stack sch set field rs.rows := by
  rcases field.list_or with ⟨f, elems, rfl⟩ | hfield
  · have hinj : Function.Injective fun records => Field.repeatedMessage f (elems ++ records) := by
      intro rs rs' h
      simpa using h
    rw [Raising.parseProcResult, Raising.parseProcResult]
    refine (Delivers.map_iff hinj).trans ((readRows_delivers_iff pool stray stack sch set _
      f.messageType [] rs (hasDecls_empty pool _)).trans ?_)
    refine and_congr_right fun _ => forall_congr' fun _ => ?_
    constructor
    · exact fun h => ⟨f, elems, rfl, h⟩
    · rintro ⟨f', elems', heq, h⟩
      cases heq
      exact h
  · rw [parseProcResult_noList pool stray stack .quiet hfield,
      parseProcResult_noList pool stray stack sch hfield, FieldRead, Fetched]
    cases rs.rows with
    | nil =>
        have hchecked := (moveNext_checked sch set 0).bind fun _ _ =>
          (moveNext_checked sch set 1).bind fun _ _ =>
            Checked.refl (.ok field : Except Fault Field)
        constructor
        · rintro ⟨f, hquiet, hf⟩
          cases hquiet
          obtain ⟨⟨hfirst, hsecond, -⟩, -⟩ := hchecked.ok_iff.mp hf
          refine ⟨fun k hk => ?_, fun h => absurd rfl h⟩
          replace hk : k ≤ 1 := hk
          interval_cases k
          · exact hfirst
          · exact hsecond
        · rintro ⟨hfetched, -⟩
          exact ⟨field, rfl, hchecked.ok_iff.mpr ⟨⟨hfetched 0 (Nat.zero_le _),
            hfetched 1 (le_refl _), trivial⟩, rfl⟩⟩
    | cons row rows =>
        constructor
        · rintro ⟨f, hquiet, -⟩
          cases hquiet
        · rintro ⟨-, h⟩
          obtain ⟨f, elems, rfl, -⟩ := h (List.cons_ne_nil _ _)
          exact hfield.elim

/-- What becomes of the fields behind one that was read: the next result set is read
into the next one, if there is one. -/
def nextRecordsets (set : ℕ) (fields : List Field) (more : List ResultSet) :
    Except Fault (List Field) :=
  if sch (.nextResultSet set) then .error .sqlException
  else match more with
    | [] => .ok fields
    | rs :: more => Raising.parseRecordsets pool stray stack sch (set + 1) fields rs more

section Next

variable {sch} {set : ℕ} (fields : List Field)

lemma nextRecordsets_raises (h : sch (.nextResultSet set) = true) (more : List ResultSet) :
    nextRecordsets pool stray stack sch set fields more = .error .sqlException := by
  simp [nextRecordsets, h]

lemma nextRecordsets_nil (h : sch (.nextResultSet set) = false) :
    nextRecordsets pool stray stack sch set fields [] = .ok fields := by
  simp [nextRecordsets, h]

lemma nextRecordsets_cons (h : sch (.nextResultSet set) = false) (rs : ResultSet)
    (more : List ResultSet) :
    nextRecordsets pool stray stack sch set fields (rs :: more)
      = Raising.parseRecordsets pool stray stack sch (set + 1) fields rs more := by
  simp [nextRecordsets, h]

end Next

lemma parseRecordsets_cons (set : ℕ) (f : Field) (fields : List Field) (rs : ResultSet)
    (more : List ResultSet) :
    Raising.parseRecordsets pool stray stack sch set (f :: fields) rs more
      = (Raising.parseProcResult pool stray stack sch set f rs.rows).bind fun f =>
          (nextRecordsets pool stray stack sch set fields more).bind fun fields =>
            .ok (f :: fields) := by
  rw [Raising.parseRecordsets]
  cases Raising.parseProcResult pool stray stack sch set f rs.rows with
  | error e => rfl
  | ok f =>
      simp only [bind, Except.bind, nextRecordsets]
      cases sch (.nextResultSet set) <;> cases more <;> rfl

/-- **The loop over the result sets.** -/
lemma parseRecordsets_delivers_iff (set : ℕ) (fields : List Field) (rs : ResultSet)
    (more : List ResultSet) :
    Delivers (Raising.parseRecordsets pool stray stack .quiet set fields rs more)
        (Raising.parseRecordsets pool stray stack sch set fields rs more)
      ↔ SetsRead pool stray stack sch fields (rs :: more) set := by
  induction fields generalizing set rs more with
  | nil => exact ⟨fun _ j f rs h => by simp at h, fun _ => ⟨[], rfl, rfl⟩⟩
  | cons f fields ih =>
      rw [parseRecordsets_cons, parseRecordsets_cons, Delivers.cons_iff,
        parseProcResult_delivers_iff]
      have hsplit : SetsRead pool stray stack sch (f :: fields) (rs :: more) set
          ↔ FieldRead pool stray stack sch set f rs.rows ∧ sch (.nextResultSet set) = false
            ∧ SetsRead pool stray stack sch fields more (set + 1) := by
        constructor
        · intro h
          obtain ⟨hread, hnext⟩ := h 0 f rs rfl rfl
          refine ⟨hread, hnext, fun j g r hg hr => ?_⟩
          have hrest := h (j + 1) g r hg hr
          rwa [← Nat.add_assoc, Nat.add_right_comm] at hrest
        · rintro ⟨hread, hnext, hrest⟩ j g r hg hr
          cases j with
          | zero =>
              cases hg
              cases hr
              exact ⟨hread, hnext⟩
          | succ j =>
              rw [← Nat.add_assoc, Nat.add_right_comm]
              exact hrest j g r hg hr
      rw [hsplit]
      refine and_congr_right fun _ => ?_
      cases hnext : sch (.nextResultSet set) with
      | true =>
          rw [nextRecordsets_raises pool stray stack fields hnext]
          constructor
          · rintro ⟨_, _, h⟩
            cases h
          · intro h
            cases h.1
      | false =>
          have hquiet : Schedule.quiet (.nextResultSet set) = false := rfl
          cases more with
          | nil =>
              rw [nextRecordsets_nil pool stray stack fields hquiet,
                nextRecordsets_nil pool stray stack fields hnext]
              exact ⟨fun _ => ⟨rfl, fun j g r _ hr => by simp at hr⟩, fun _ => ⟨fields, rfl, rfl⟩⟩
          | cons r more =>
              rw [nextRecordsets_cons pool stray stack fields hquiet,
                nextRecordsets_cons pool stray stack fields hnext]
              exact (ih (set + 1) r more).trans (and_iff_right rfl).symm

/-- **When the result sets of a call are read in spite of the exceptions.** -/
theorem parseResultSets_delivers_iff (storedProc : Message) (rs : ResultSet)
    (more : List ResultSet) :
    Delivers (Raising.parseResultSets pool stray stack .quiet storedProc rs more)
        (Raising.parseResultSets pool stray stack sch storedProc rs more)
      ↔ CallRead pool stray stack sch storedProc rs more := by
  have hset : ∀ {i : ℕ} {field : Field} {m : Message} {α : Type} {g : α → Field},
      m[i]? = some field → Function.Injective g → Function.Injective fun a => m.set i (g a) := by
    intro i field m α g hfield hg a b h
    have hlt := (List.getElem?_eq_some_iff.mp hfield).1
    have hget := congrArg (fun l => l[i]?) h
    simp only [List.getElem?_set_self hlt, Option.some.injEq] at hget
    exact hg hget
  rw [Raising.parseResultSets, Raising.parseResultSets, CallRead]
  cases hlist : Raising.findFieldByName storedProc Raising.returnRecordList with
  | some i =>
      dsimp only
      cases hfield : storedProc[i]? with
      | none => exact ⟨fun _ field h => (by cases h), fun _ => ⟨storedProc, rfl, rfl⟩⟩
      | some field =>
          refine (Delivers.map_iff (hset hfield Function.injective_id)).trans
            ((parseProcResult_delivers_iff pool stray stack sch 0 field rs).trans ?_)
          constructor
          · intro h field' heq
            cases heq
            exact h
          · exact fun h => h field rfl
  | none =>
      dsimp only
      cases hsets : Raising.findFieldByName storedProc Raising.returnRecordsets with
      | none => exact ⟨fun _ => trivial, fun _ => ⟨storedProc, rfl, rfl⟩⟩
      | some i =>
          dsimp only
          cases hfield : storedProc[i]? with
          | none => exact ⟨fun _ field h => (by cases h), fun _ => ⟨storedProc, rfl, rfl⟩⟩
          | some field =>
              cases hmutable : Raising.mutableField field with
              | error e =>
                  constructor
                  · rintro ⟨_, h, -⟩
                    simp only [hmutable] at h
                    cases h
                  · intro h
                    obtain ⟨f, hf, -⟩ := h field rfl
                    rw [hmutable] at hf
                    cases hf
              | ok f =>
                  have hmessage : Function.Injective fun sub => Field.message f sub :=
                    fun sub sub' h => by simpa using h
                  have hinj :
                      Function.Injective fun sub => setAt i (.message f sub) storedProc := by
                    have hfield' : (storedProc.map (Field.clearOneof f.oneof))[i]?
                        = some (field.clearOneof f.oneof) := by
                      rw [List.getElem?_map, hfield]
                      rfl
                    exact hset hfield' hmessage
                  simp only [hmutable]
                  refine (Delivers.map_iff hinj).trans
                    ((parseRecordsets_delivers_iff pool stray stack sch 0 _ rs more).trans ?_)
                  constructor
                  · intro h field' heq
                    cases heq
                    exact ⟨f, hmutable, h⟩
                  · intro h
                    obtain ⟨f', hf', hread⟩ := h field rfl
                    rw [hmutable] at hf'
                    cases hf'
                    exact hread

end Sets

/-! ### The two reads -/

/-- **The failures are contained**: the read returns `true` with all that it delivers
without failures, or `false` with what the caller handed in. -/
def Contained {α : Type} (before : α) (clean out : Except Fault (Bool × α)) : Prop :=
  (∃ after, clean = .ok (true, after) ∧ out = .ok (true, after)) ∨ out = .ok (false, before)

/-- The values are bound without an exception; and the statement is not prepared, or
it is not executed, or its answer is read as `read` says. -/
def Answers (sch : Schedule) (parse : Except Fault (Bool × ZdbStatement)) (read : Prop) : Prop :=
  ∃ parsed s, parse = .ok (parsed, s) ∧ (∀ k, k < s.inParamIndex → sch (.bind k) = false)
    ∧ (parsed = true → s.stmt ≠ none ∧ (sch .execute = false → read))

section Query

variable {α : Type} {sch : Schedule} {db : Server} {before : α}
  {plain : Server → Except Fault (Bool × ZdbStatement)}
  {raising : Schedule → Except Fault (Bool × ZdbStatement)}

lemma server_quiet : Schedule.quiet.server db = db := by
  simp [Schedule.server, Schedule.quiet]

lemma server_of_prepare (h : sch .prepare = false) : sch.server db = db := by
  simp [Schedule.server, h]

/-- The read behind a statement that was prepared. -/
lemma query_prepared {s : ZdbStatement} (hstmt : s.stmt ≠ none) (raises : Bool)
    (read : Except Fault α) :
    Raising.query (.ok (true, s)) raises before read
      = if raises then .ok (false, before) else read.bind fun after => .ok (true, after) := by
  obtain ⟨p, hp⟩ := Option.ne_none_iff_exists'.mp hstmt
  cases raises <;> simp [Raising.query, bind, Except.bind, ZdbStatement.exec, hp]

/-- **When a read contains its failures.** A function that was not prepared for a
database that accepts nothing leaves no statement. -/
lemma query_contained_iff
    (hbinds : ∀ sch : Schedule, Raising.BindsAs (fun k => sch (.bind k)) 0
      (fun r => r.2.inParamIndex) (raising sch) (plain (sch.server db)))
    (hunprepared : sch .prepare = true → ∀ s, plain (sch.server db) = .ok (true, s) →
      s.stmt = none) {clean read : Except Fault α} :
    Contained before (Raising.query (raising .quiet) false before clean)
        (Raising.query (raising sch) (sch .execute) before read)
      ↔ Answers sch (plain (sch.server db)) (Delivers clean read) := by
  have hraising := (hbinds sch).ok_iff
  -- a statement that is there was prepared, so the run without failures has it as well
  have hclean : ∀ s, plain (sch.server db) = .ok (true, s) → s.stmt ≠ none →
      raising .quiet = .ok (true, s) := by
    intro s hparse hstmt
    have hprepare : sch .prepare = false := by
      by_contra hp
      exact hstmt (hunprepared (by simpa using hp) s hparse)
    rw [server_of_prepare hprepare] at hparse
    have hquiet := (hbinds .quiet).ok_iff (true, s)
    rw [server_quiet] at hquiet
    exact hquiet.mpr ⟨hparse, fun _ _ _ => rfl⟩
  constructor
  · intro h
    cases hrun : raising sch with
    | error e =>
        rw [hrun] at h
        rcases h with ⟨after, -, hout⟩ | hout <;> cases hout
    | ok result =>
        obtain ⟨parsed, s⟩ := result
        obtain ⟨hparse, hbound⟩ := (hraising (parsed, s)).mp hrun
        refine ⟨parsed, s, hparse, fun k hk => hbound k (Nat.zero_le k) hk, ?_⟩
        rintro rfl
        rw [hrun] at h
        have hstmt : s.stmt ≠ none := by
          intro hnone
          have hout : Raising.query (.ok (true, s)) (sch .execute) before read
              = .error .nullStatement := by
            simp [Raising.query, bind, Except.bind, ZdbStatement.exec, hnone]
          rw [hout] at h
          rcases h with ⟨after, -, hout⟩ | hout <;> cases hout
        refine ⟨hstmt, fun hexec => ?_⟩
        rw [hclean s hparse hstmt, query_prepared hstmt, query_prepared hstmt, hexec,
          if_neg (by simp)] at h
        rcases h with ⟨after, hquiet, hout⟩ | hout
        · obtain ⟨a, ha, heq⟩ := bind_ok hquiet
          obtain ⟨a', ha', heq'⟩ := bind_ok hout
          cases heq
          cases heq'
          exact ⟨after, ha, ha'⟩
        · obtain ⟨a, -, heq⟩ := bind_ok hout
          cases heq
  · rintro ⟨parsed, s, hparse, hbound, hread⟩
    have hrun := (hraising (parsed, s)).mpr ⟨hparse, fun k _ hk => hbound k hk⟩
    rw [hrun]
    cases parsed with
    | false => exact .inr rfl
    | true =>
        obtain ⟨hstmt, hanswer⟩ := hread rfl
        rw [hclean s hparse hstmt, query_prepared hstmt, query_prepared hstmt]
        cases hexec : sch .execute with
        | true => exact .inr rfl
        | false =>
            obtain ⟨after, hquiet, hout⟩ := hanswer hexec
            refine .inl ⟨after, ?_, ?_⟩
            · rw [hquiet]
              rfl
            · rw [hout]
              rfl

end Query

/-- A select that was not prepared does not come out as prepared. -/
lemma parseSelect_unprepared {sch : Schedule} (h : sch .prepare = true) (db : Server)
    (entity : Message) (sTableName : Name) (vInKey : List Name) (s : ZdbStatement)
    (hparse : parseSelect (sch.server db) .new entity sTableName vInKey = .ok (true, s)) :
    s.stmt = none := by
  have heq := ParsePath.parse_eq (sch.server db) entity sTableName vInKey .select
  change parseSelect (sch.server db) .new entity sTableName vInKey = _ at heq
  rw [hparse] at heq
  obtain ⟨-, hprepared, -⟩ := ParsePath.prepareAndBind_ok heq.symm
  simp [Schedule.server, h] at hprepared

/-- A call that was not prepared leaves the statement as it was. -/
lemma parseProcLoop_unprepared {sch : Schedule} (h : sch .prepare = true) (db : Server)
    (sProcName : ProcName) (fields : List Field) (s₀ s : ZdbStatement)
    (hparse : parseProcLoop (sch.server db) sProcName fields s₀ = .ok (true, s)) : s = s₀ := by
  induction fields with
  | nil =>
      cases hparse
      rfl
  | cons f rest ih =>
      rw [parseProcLoop] at hparse
      by_cases hf : (f.isPresent && decide (f.name = paramName)) = true
      · rw [if_pos hf] at hparse
        obtain ⟨param, -, hparse⟩ := bind_ok hparse
        obtain ⟨⟨prepared, s₁⟩, hprepare, hparse⟩ := bind_ok hparse
        rw [ZdbStatement.prepareStoredProcCall_eq] at hprepare
        by_cases hfits : (callText sProcName (parseProcParamsCount param)).length < bufferSize
        · have hserver : ∀ sql, (sch.server db).prepares sql = false := by
            intro sql
            simp [Schedule.server, h]
          rw [if_pos hfits, ZdbStatement.prepare, if_neg (by simp [hserver])] at hprepare
          cases hprepare
          cases hparse
        · rw [if_neg hfits] at hprepare
          cases hprepare
      · rw [if_neg hf] at hparse
        exact ih hparse

/-! ### What is read in which schedule -/

/-- The fields `ls` are bound to the `n` placeholders of a text: if the text is prepared, each
of them has its placeholder and none of the calls raises, and if the statement is executed
its answer is read as `read` says. -/
def BoundAndRead (sch : Schedule) (db : Server) (sql : Text) (n : ℕ) (ls : List Leaf)
    (read : Prop) : Prop :=
  sch .prepare = false → db.prepares sql = true →
    ls.any Leaf.mistyped = false
      ∧ ls.countP (fun l => l.field.type.isBound) ≤ n
      ∧ (∀ k < ls.countP fun l => l.field.type.isBound, sch (.bind k) = false)
      ∧ (sch .execute = false → read)

/-- The keys of an entity that name a present field at its top select the rows: the
conditions fit, and the fields with these names are bound. -/
def SelectRead (sch : Schedule) (db : Server) (entity : Message) (sTableName : Name)
    (vInKey : List Name) (read : Prop) : Prop :=
  let keys := ParsePath.select.keyNames entity vInKey
  (Statement.select keys).Fits
    ∧ BoundAndRead sch db ((Statement.select keys).sent sTableName)
        (kept (bufferSize - 1) ((Statement.select keys).strides sTableName))
        (leavesNamed keys entity) read

/-- The message of a procedure has its arguments, the call fits, and the fields that are
present are bound. -/
def CallMade (sch : Schedule) (db : Server) (sp : StoredProc) (read : Prop) : Prop :=
  ∃ f param, sp.param? = some (.message f param)
    ∧ (callText sp.procName ((leaves param).countP fun l => l.field.isCounted)).length < bufferSize
    ∧ BoundAndRead sch db
        (callText sp.procName ((leaves param).countP fun l => l.field.isCounted))
        ((leaves param).countP fun l => l.field.isCounted) (leaves param) read

section Answered

variable {sch : Schedule} {db : Server} {read : Prop}

lemma not_answers_error (f : Fault) : ¬ Answers sch (.error f) read := by
  rintro ⟨parsed, s, hparse, -⟩
  cases hparse

/-- A text that is prepared and bound. -/
lemma prepareText_answers_iff (sql : Text) (ls : List Leaf) :
    Answers sch (prepareText (sch.server db) sql ls) read
      ↔ BoundAndRead sch db sql (placeholderCount sql) ls read := by
  have hserver : (sch.server db).prepares sql = true
      ↔ sch .prepare = false ∧ db.prepares sql = true := by
    rw [Schedule.server, Bool.and_eq_true, Bool.not_eq_true', and_comm]
  rw [prepareText, BoundAndRead]
  by_cases hp : (sch.server db).prepares sql = true
  · obtain ⟨hprepare, hdb⟩ := hserver.mp hp
    rw [if_pos hp, addInputParams_prepared]
    simp only [hprepare, hdb, forall_const]
    by_cases hm : ls.any Leaf.mistyped = true
    · refine iff_of_false ?_ fun h => by simp [hm] at h
      rw [if_pos hm]
      split_ifs
      · exact not_answers_error _
      · exact not_answers_error _
    · have hm' : ls.any Leaf.mistyped = false := by simpa using hm
      have htypes : (fun l : Leaf => l.field.type.isBound) = Leaf.accepted :=
        funext fun l => l.accepted_eq.symm
      rw [htypes, ← ParsePath.length_boundValues_of_not_mistyped hm', if_neg hm]
      by_cases hle : (boundValues ls).length ≤ placeholderCount sql
      · rw [if_pos hle]
        constructor
        · rintro ⟨parsed, s, hparse, hbinds, hread⟩
          cases hparse
          exact ⟨hm', hle, hbinds, (hread rfl).2⟩
        · rintro ⟨-, -, hbinds, hread⟩
          exact ⟨true, _, rfl, hbinds, fun _ => ⟨Option.some_ne_none _, hread⟩⟩
      · rw [if_neg hle]
        exact iff_of_false (not_answers_error _) fun h => hle h.2.1
  · rw [if_neg hp]
    refine iff_of_true ⟨false, _, rfl, fun k hk => absurd hk (Nat.not_lt_zero k), fun h => ?_⟩ ?_
    · cases h
    · exact fun hprepare hdb => absurd (hserver.mpr ⟨hprepare, hdb⟩) hp

lemma parseSelect_answers_iff (entity : Message) (sTableName : Name) (vInKey : List Name) :
    Answers sch (parseSelect (sch.server db) .new entity sTableName vInKey) read
      ↔ SelectRead sch db entity sTableName vInKey read := by
  have hparse := ParsePath.parse_eq (sch.server db) entity sTableName vInKey .select
  simp only [ParsePath.parse, ParsePath.statement, ParsePath.params,
    ParsePath.validateKey_eq_keyNames] at hparse
  rw [hparse, ParsePath.prepareAndBind_eq, SelectRead,
    ← placeholderCount_sent_eq sTableName _ fun _ => by simp]
  by_cases hfits : (Statement.select (ParsePath.select.keyNames entity vInKey)).Fits
  · rw [if_pos hfits, prepareText_answers_iff, and_iff_right hfits]
  · rw [if_neg hfits]
    exact iff_of_false (not_answers_error _) fun h => hfits h.1

lemma parseProc_answers_iff (sp : StoredProc) :
    Answers sch (parseProc (sch.server db) .new sp) read ↔ CallMade sch db sp read := by
  rw [parseProc_eq, CallMade]
  cases hparam : sp.param? with
  | none =>
      refine iff_of_false ?_ (by simp)
      rintro ⟨parsed, s, heq, -, hread⟩
      cases heq
      exact (hread rfl).1 rfl
  | some f =>
      change Answers sch (callParam (sch.server db) sp.procName .new f) read ↔ _
      rw [callParam_eq]
      cases f with
      | message f param =>
          have hcount := placeholderCount_callText sp.procName (parseProcParamsCount param)
          rw [Field.getMessage, Except.bind]
          simp only [Option.some.injEq, Field.message.injEq, and_assoc, exists_and_left,
            exists_eq_left']
          rw [← parseProcParamsCount_eq]
          by_cases hfits : (callText sp.procName (parseProcParamsCount param)).length < bufferSize
          · rw [if_pos hfits, prepareText_answers_iff, hcount, and_iff_right hfits]
          · rw [if_neg hfits]
            exact iff_of_false (not_answers_error _) fun h => hfits h.1
      | leaf l => exact iff_of_false (not_answers_error _) (by simp)
      | unset f => exact iff_of_false (not_answers_error _) (by simp)
      | repeated name values => exact iff_of_false (not_answers_error _) (by simp)
      | repeatedMessage f elems => exact iff_of_false (not_answers_error _) (by simp)

end Answered

/-- **In which schedules the failures are contained**: all values are bound without
an exception; and if the statement is prepared and executed, nothing raises that has
no `TRY`, every field that is read has an index, and what is caught is harmless. -/
theorem contained_iff (pool : Pool) (stray : Stray) (stack : ℕ) (sch : Schedule) (db : Server)
    (messageType : Text) (entity : Message) (hentity : HasDecls pool entity (pool messageType))
    (vResult : List Message) (sTableName : Name) (vInKey : List Name) (sp : StoredProc)
    (rs : ResultSet) (more : List ResultSet) :
    (Contained vResult
        (Raising.eSelect pool stray stack .quiet db messageType entity vResult sTableName vInKey rs)
        (Raising.eSelect pool stray stack sch db messageType entity vResult sTableName vInKey rs)
      ↔ SelectRead sch db entity sTableName vInKey
          (Fetched sch 0 rs.rows
            ∧ (rs.rows ≠ [] → RowsRead pool stray stack sch 0 messageType rs.rows)))
      ∧ (Contained sp.fields
          (Raising.spQuery pool stray stack .quiet db sp.procName sp.fields rs more)
          (Raising.spQuery pool stray stack sch db sp.procName sp.fields rs more)
        ↔ CallMade sch db sp (CallRead pool stray stack sch sp.fields rs more)) := by
  have hanswers : ∀ {parse : Except Fault (Bool × ZdbStatement)} {P Q : Prop}, (P ↔ Q) →
      (Answers sch parse P ↔ Answers sch parse Q) := by
    intro parse P Q hPQ
    rw [Answers, Answers, hPQ]
  rw [← parseSelect_answers_iff, ← parseProc_answers_iff]
  constructor
  · have hrows := readRows_delivers_iff pool stray stack sch 0 id messageType entity rs hentity
    refine (@query_contained_iff _ sch db vResult
      (fun db => parseSelect db .new entity sTableName vInKey) _
      (fun sch => Raising.parseSelect_binds sch db entity sTableName vInKey)
      (fun h s => parseSelect_unprepared h db entity sTableName vInKey s) _ _).trans
        (hanswers ((Delivers.map_iff (List.append_right_injective vResult)).trans hrows))
  · refine (@query_contained_iff _ sch db sp.fields
      (fun db => parseProcLoop db sp.procName sp.fields .new) _
      (fun sch => Raising.parseProcLoop_binds sch db sp.procName sp.fields .new)
      (fun h s hs => ?_) _ _).trans
        (hanswers (parseResultSets_delivers_iff pool stray stack sch sp.fields rs more))
    rw [parseProcLoop_unprepared h db sp.procName sp.fields .new s hs]
    rfl

/-- A statement that is not executed. -/
theorem contained_account :
    Contained [] (Raising.eSelect accountPool zeroStray 1 .quiet ⟨fun _ => true⟩ account.chars
        (accountEntity 1 0) [] account [accountId] accountRows)
      (Raising.eSelect accountPool zeroStray 1 (fun p => p = .execute) ⟨fun _ => true⟩ account.chars
        (accountEntity 1 0) [] account [accountId] accountRows) := by
  refine (contained_iff accountPool zeroStray 1 (fun p => p = .execute) ⟨fun _ => true⟩
    account.chars (accountEntity 1 0) (hasDecls_account 1 0 _) [] account [accountId]
    (levelProc 1 2) accountRows []).1.mpr ?_
  exact ⟨by decide, fun _ _ => ⟨by decide, by decide, fun _ _ => rfl, fun h => by cases h⟩⟩

/-- **Failures that are not contained**: the connection drops while the second of two
rows is fetched, and the exception leaves `ESelect`; it drops while a column of the
first row is read, and `ESelect` returns `true` with another level in its place. -/
theorem failures_not_contained :
    (Raising.eSelect accountPool zeroStray 1 (fun p => p = .next 0 1) ⟨fun _ => true⟩ account.chars
        (accountEntity 1 0) [] account [accountId] accountRows = .error .sqlException
      ∧ ¬ Contained [] (Raising.eSelect accountPool zeroStray 1 .quiet ⟨fun _ => true⟩ account.chars
          (accountEntity 1 0) [] account [accountId] accountRows)
        (Raising.eSelect accountPool zeroStray 1 (fun p => p = .next 0 1) ⟨fun _ => true⟩
          account.chars (accountEntity 1 0) [] account [accountId] accountRows))
      ∧ ∃ record records, Raising.eSelect accountPool zeroStray 1 (fun p => p = .column 0 0 [1])
            ⟨fun _ => true⟩ account.chars (accountEntity 1 0) [] account [accountId] accountRows
          = .ok (true, record :: records)
        ∧ (leaves record).map Leaf.value = [.int32 5, .int32 int32Min] := by
  have hescapes : Raising.eSelect accountPool zeroStray 1 (fun p => p = .next 0 1) ⟨fun _ => true⟩
      account.chars (accountEntity 1 0) [] account [accountId] accountRows
        = .error .sqlException := rfl
  refine ⟨⟨hescapes, ?_⟩, _, _, rfl, rfl⟩
  rw [hescapes]
  rintro (⟨after, -, h⟩ | h) <;> cases h

end PbEntityDb
