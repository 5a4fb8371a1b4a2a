import PbEntityDb.Engine.Save
import PbEntityDb.Library.Retry

/-!
Writes that are tried again: `EntityAdd`, `EntitySave` and `EntityDelete`.

* `writeAttempt` is one call of `EInsert`, `EUpdate` or `EDelete`, whose answer may
  be lost; `retryLoop` is the loop around it on an open engine.
* `exec_insert` and `exec_delete` say what the database makes of the statements of
  these loops, `exec_settles` that a second execution makes nothing of them.
* `retried_write_once`: a loop that ends has done what one execution does, and that
  one changed the row with the key of the entity only.
-/

namespace PbEntityDb

open Retry

/-! ### The loops -/

section Loops

variable (eq : Comparison) (entity : Message) (sTableName : Name) (vKey : List Name)

/-- One call of the engine: the statement is prepared and bound anew, and `outcome`
says what becomes of its execution. -/
def writeAttempt (w : WritePath) (round : Server × Outcome) (tbl : Table) :
    Except Fault (Bool × Table) := do
  let (parsed, s) ← (ParsePath.write w).parse round.1 entity sTableName vKey
  if !parsed then .ok (false, tbl)
  else .ok (attempt (fun tbl => tbl.exec eq s) round.2 tbl)

/-- The loop around a call: the table behind it, or `none` while it goes on. -/
def retryLoop (call : Server × Outcome → Table → Except Fault (Bool × Table)) :
    List (Server × Outcome) → Table → Except Fault (Option Table)
  | [], _ => .ok none
  | round :: rounds, tbl => do
      let (done, tbl) ← call round tbl
      if done then .ok (some tbl) else retryLoop call rounds tbl

/-- `Protobuf2DbEngine::EInsert`, with its outcome. -/
def eInsertAttempt := writeAttempt eq entity sTableName vKey .insert

/-- `Protobuf2DbEngine::EUpdate`, with its outcome. -/
def eUpdateAttempt (bHackInsert : Bool) :=
  writeAttempt eq entity sTableName vKey (.update bHackInsert)

/-- `Protobuf2DbEngine::EDelete`, with its outcome. -/
def eDeleteAttempt := writeAttempt eq entity sTableName vKey .delete

/-- The writing loops of `CProtobufDbStub`. -/
inductive WriteLoop where
  | entityAdd
  | entitySave
  | entityDelete
  deriving DecidableEq, Repr

/-- A loop of `CProtobufDbStub` on an open engine. -/
def WriteLoop.run : WriteLoop → List (Server × Outcome) → Table → Except Fault (Option Table)
  | entityAdd => retryLoop (eInsertAttempt eq entity sTableName vKey)
  | entitySave => retryLoop (eUpdateAttempt eq entity sTableName vKey true)
  | entityDelete => retryLoop (eDeleteAttempt eq entity sTableName vKey)

/-- The function that prepares the statement of a loop. -/
def WriteLoop.path : WriteLoop → ParsePath
  | entityAdd => .write .insert
  | entitySave => .write (.update true)
  | entityDelete => .write .delete

/-- The statement of a loop. -/
def WriteLoop.statement : WriteLoop → Statement
  | entityAdd => .insert vKey (setNames vKey entity)
  | entitySave => .insert vKey (setNames vKey entity)
  | entityDelete => .delete vKey

end Loops

/-! ### Agreement by position -/

namespace ParsePath

/-- Each slot holds what is bound for a field that is named like the column at its
placeholder. -/
def SlotsAgree (entity : Message) (columns : List Text) (slots : List (Option BoundValue)) : Prop :=
  ∀ (i : ℕ) (slot : Option BoundValue), slots[i]? = some slot →
    ∃ l ∈ leaves entity, columns[i]? = some l.name.chars ∧ slot = l.boundValue

/-- The placeholders and values of the statement that a path returns agree by position. -/
def Agrees (p : ParsePath) (db : Server) (entity : Message) (sTableName : Name)
    (vInKey : List Name) : Prop :=
  match p.parse db entity sTableName vInKey with
  | .error _ => False
  | .ok (ok, s) =>
      ok = true → ∀ ps, s.stmt = some ps → SlotsAgree entity (p.readColumns s.sql) ps.slots

end ParsePath

/-! ### Rounds -/

section Writes

variable {eq : Comparison} {entity : Message} {sTableName : Name} {vKey : List Name}

/-- What a loop prepares does not depend on the round. -/
lemma WriteLoop.parse_ok {w : WriteLoop} {db : Server} {s : ZdbStatement}
    (h : w.path.parse db entity sTableName vKey = .ok (true, s)) :
    (boundValues (w.path.params entity vKey)).length
        ≤ placeholderCount ((w.statement entity vKey).sent sTableName)
      ∧ s = .holding ((w.statement entity vKey).sent sTableName)
        (placeholderCount ((w.statement entity vKey).sent sTableName))
        (boundValues (w.path.params entity vKey)) := by
  rw [ParsePath.parse_eq] at h
  have hstatement : w.path.statement entity vKey = some (w.statement entity vKey) := by
    cases w <;> rfl
  rw [hstatement] at h
  exact (ParsePath.prepareAndBind_ok h).2.2.2

/-- A loop that ends has had its statement prepared, and is a loop of attempts to
execute it. -/
lemma WriteLoop.run_some {w : WriteLoop} {rounds : List (Server × Outcome)} {tbl tbl' : Table}
    (h : w.run eq entity sTableName vKey rounds tbl = .ok (some tbl')) :
    ∃ s, (∃ round ∈ rounds, w.path.parse round.1 entity sTableName vKey = .ok (true, s))
      ∧ ∃ outcomes, loop (fun tbl => tbl.exec eq s) outcomes tbl = some tbl' := by
  obtain ⟨p, hpath, hrun⟩ : ∃ p, w.path = .write p
      ∧ w.run eq entity sTableName vKey = retryLoop (writeAttempt eq entity sTableName vKey p) := by
    cases w <;> exact ⟨_, rfl, rfl⟩
  rw [hrun] at h
  clear hrun
  induction rounds generalizing tbl with
  | nil => cases h
  | cons round rounds ih =>
      rw [retryLoop, writeAttempt, ← hpath] at h
      cases hparse : w.path.parse round.1 entity sTableName vKey with
      | error e =>
          rw [hparse] at h
          cases h
      | ok result =>
          obtain ⟨parsed, s⟩ := result
          rw [hparse] at h
          cases parsed with
          | false =>
              obtain ⟨s', ⟨round', hmem, hs'⟩, houtcomes⟩ := ih h
              exact ⟨s', ⟨round', List.mem_cons_of_mem _ hmem, hs'⟩, houtcomes⟩
          | true =>
              refine ⟨s, ⟨round, List.mem_cons_self, hparse⟩, ?_⟩
              rcases hattempt : attempt (fun tbl => tbl.exec eq s) round.2 tbl with ⟨done, tbl₁⟩
              simp only [bind, Except.bind, Bool.not_true, Bool.false_eq_true, if_false,
                hattempt] at h
              cases done with
              | true =>
                  obtain rfl : tbl₁ = tbl' := by
                    cases h
                    rfl
                  exact ⟨[round.2], by rw [loop, hattempt]⟩
              | false =>
                  obtain ⟨s', ⟨round', -, hs'⟩, outcomes, hloop⟩ := ih h
                  -- the next rounds prepare the same statement
                  have hsame : s' = s := by
                    rw [(WriteLoop.parse_ok hs').2, (WriteLoop.parse_ok hparse).2]
                  rw [hsame] at hloop
                  exact ⟨round.2 :: outcomes, by rw [loop, hattempt]; exact hloop⟩

/-! ### One execution -/

lemma exec_some {tbl tbl' : Table} {s : ZdbStatement} (h : tbl.exec eq s = some tbl') :
    ∃ q vs, Query.read s.sql = some q ∧ s.values = some vs ∧ tbl.run eq vs q = some tbl' := by
  obtain ⟨q, hq, h⟩ := Option.bind_eq_some_iff.mp h
  obtain ⟨vs, hvs, h⟩ := Option.bind_eq_some_iff.mp h
  exact ⟨q, vs, hq, hvs, h⟩

/-- What an insert makes of a table. -/
lemma run_insert {tbl tbl' : Table} {vs : List BoundValue} {t : Text} {columns ds : List Text}
    {n : ℕ} (h : tbl.run eq vs (.insert t columns n (ds.map fun c => (c, c))) = some tbl') :
    columns.Nodup ∧ vs.length = columns.length
      ∧ tbl' = tbl.insertOrUpdate eq (Table.newRow tbl.defaults columns vs)
          (ds.map fun c => (c, c)) := by
  rw [Table.run] at h
  by_cases hok : columns.Nodup ∧ columns.length = n ∧ vs.length = n
  · rw [if_pos hok] at h
    exact ⟨hok.1, hok.2.2.trans hok.2.1.symm, Table.insert_some h⟩
  · rw [if_neg hok] at h
    cases h

/-- What a delete makes of a table. -/
lemma run_delete {tbl tbl' : Table} {vs : List BoundValue} {t : Text} {conditions : List Text}
    (h : tbl.run eq vs (.delete t conditions) = some tbl') :
    vs.length = conditions.length
      ∧ tbl' = { tbl with rows := tbl.rows.filter fun row => !fulfils eq conditions vs row } := by
  rw [Table.run] at h
  by_cases hok : vs.length = conditions.length
  · rw [if_pos hok] at h
    exact ⟨hok, (Option.some.inj h).symm⟩
  · rw [if_neg hok] at h
    cases h

/-- The query that the database reads in the statement of a loop. -/
def WriteLoop.Reads (w : WriteLoop) (columns : List Text) (q : Query) : Prop :=
  match w with
  | entityAdd | entitySave => ∃ (t : Text) (n : ℕ) (ds : List Text), (∀ c ∈ ds, c ∈ columns)
      ∧ q = .insert t columns n (ds.map fun c => (c, c))
  | entityDelete => ∃ t, q = .delete t columns

/-- An insert into the columns, with some of them in the duplicate clause. -/
def ReadsInsert (columns : List Text) (q : Query) : Prop :=
  ∃ (t : Text) (n : ℕ) (ds : List Text), (∀ c ∈ ds, c ∈ columns)
    ∧ q = .insert t columns n (ds.map fun c => (c, c))

/-- The insert that is read in a text which may have been cut off. -/
lemma readsInsert_sent {vSet : List Name} {vs : List BoundValue} {q : Query} {tbl tbl' : Table}
    (hq : Query.read ((Statement.insert vKey vSet).sent sTableName) = some q)
    (hlen : vs.length = placeholderCount ((Statement.insert vKey vSet).sent sTableName))
    (hrun : tbl.run eq vs q = some tbl') :
    ReadsInsert (columnList (tokens ((Statement.insert vKey vSet).sent sTableName))) q := by
  obtain ⟨ds, hds, rfl⟩ := Query.read_sent_insert hq
  have hpairs : (ds.map fun k => (k.chars, k.chars))
      = (ds.map Name.chars).map fun c => (c, c) := by
    rw [List.map_map]
    rfl
  rw [hpairs] at hrun
  have hcount : placeholderCount ((Statement.insert vKey vSet).sent sTableName)
      = (Statement.insert vKey vSet).columns.length := by
    rw [← hlen, (run_insert hrun).2.1, List.length_map]
    rfl
  have hcolumns := Statement.readColumns_sent sTableName _ hcount
  change columnList _ = (vKey ++ vSet).map Name.chars at hcolumns
  rw [hcolumns]
  refine ⟨_, _, ds.map Name.chars, ?_, by rw [hpairs]⟩
  intro c hc
  obtain ⟨k, hk, rfl⟩ := List.mem_map.mp hc
  refine List.mem_map_of_mem (List.mem_append.mpr ?_)
  have hdup : k ∈ duplicateColumns vKey vSet := hds.subset hk
  rw [duplicateColumns] at hdup
  by_cases hset : 0 < vSet.length
  · rw [if_pos hset] at hdup
    exact .inr hdup
  · rw [if_neg hset] at hdup
    exact .inl (List.mem_of_mem_getLast? (by simpa using hdup))

/-- The delete that is read in a text which may have been cut off. -/
lemma readsDelete_sent {vs : List BoundValue} {q : Query} {tbl tbl' : Table}
    (hq : Query.read ((Statement.delete vKey).sent sTableName) = some q)
    (hlen : vs.length = placeholderCount ((Statement.delete vKey).sent sTableName))
    (hrun : tbl.run eq vs q = some tbl') :
    ∃ t, q = .delete t (assigned [] (tokens ((Statement.delete vKey).sent sTableName))) := by
  obtain ⟨ks, hks, rfl⟩ := Query.read_sent_delete hq
  obtain ⟨hconditions, -⟩ := run_delete hrun
  -- both lists are the first columns of the statement, and equally many
  have hfull : assigned [] (tokens ((Statement.delete vKey).text sTableName))
      = vKey.map Name.chars := Statement.readColumns_text sTableName (.delete vKey)
  have hassigned : assigned [] (tokens ((Statement.delete vKey).sent sTableName))
      <+: vKey.map Name.chars := by
    rw [← hfull]
    exact assigned_mono [] (Statement.tokens_sent_initial sTableName (.delete vKey))
  have hsame : ks.map Name.chars
      = assigned [] (tokens ((Statement.delete vKey).sent sTableName)) := by
    refine List.IsPrefix.eq_of_length
      (List.prefix_of_prefix_length_le (hks.map Name.chars) hassigned ?_) ?_
    all_goals
      rw [length_assigned, ← hconditions, hlen]
      rfl
  exact ⟨_, by rw [hsame]⟩

/-- **The statement that is executed**: its columns are those at its placeholders,
and the duplicate clause names some of them. -/
lemma WriteLoop.exec_reads {w : WriteLoop} {db : Server} {s : ZdbStatement} {tbl tbl' : Table}
    (hparse : w.path.parse db entity sTableName vKey = .ok (true, s))
    (hexec : tbl.exec eq s = some tbl') :
    ∃ q vs, Query.read s.sql = some q ∧ s.values = some vs
      ∧ s.stmt = some ⟨vs.map some⟩ ∧ tbl.run eq vs q = some tbl'
      ∧ w.Reads (w.path.readColumns s.sql) q := by
  obtain ⟨q, vs, hq, hvs, hrun⟩ := exec_some hexec
  obtain ⟨hle, rfl⟩ := WriteLoop.parse_ok hparse
  obtain ⟨rfl, hfull⟩ := ZdbStatement.values_holding hvs
  have hlen : (boundValues (w.path.params entity vKey)).length
      = placeholderCount ((w.statement entity vKey).sent sTableName) := by omega
  refine ⟨q, _, hq, hvs, ?_, hrun, ?_⟩
  · rw [ZdbStatement.holding, ZdbStatement.filled_of_length_eq hlen]
  · cases w with
    | entityAdd => exact readsInsert_sent hq hlen hrun
    | entitySave => exact readsInsert_sent hq hlen hrun
    | entityDelete => exact readsDelete_sent hq hlen hrun

/-- **A second execution changes nothing**, if the columns of the key occur among
those of the statement. -/
theorem WriteLoop.exec_settles {w : WriteLoop} {db : Server} {s : ZdbStatement} {tbl : Table}
    (hrefl : ∀ v, eq (some v) v = true) (hne : tbl.key ≠ [])
    (hparse : w.path.parse db entity sTableName vKey = .ok (true, s))
    (hkey : ∀ c ∈ tbl.key, c ∈ w.path.readColumns s.sql) :
    Settles (fun tbl => tbl.exec eq s) tbl := by
  intro tbl₁ tbl₂ h₁ h₂
  obtain ⟨q, vs, hq, hvs, -, hrun₁, hreads⟩ := WriteLoop.exec_reads hparse h₁
  obtain ⟨q', vs', hq', hvs', hrun₂⟩ := exec_some h₂
  obtain rfl : q = q' := Option.some.inj (hq.symm.trans hq')
  obtain rfl : vs = vs' := Option.some.inj (hvs.symm.trans hvs')
  -- an insert finds the row of the first one
  have hinsert : ReadsInsert (w.path.readColumns s.sql) q → tbl₂ = tbl₁ := by
    rintro ⟨t, n, ds, -, rfl⟩
    obtain ⟨hnodup, hlen, rfl⟩ := run_insert hrun₁
    obtain ⟨-, -, rfl⟩ := run_insert hrun₂
    have hvalue : ∀ c ∈ tbl.key,
        (Table.newRow tbl.defaults (w.path.readColumns s.sql) vs c).isSome = true := by
      intro c hc
      obtain ⟨i, v, -, -, hv⟩ := Table.newRow_column tbl.defaults hnodup hlen (hkey c hc)
      rw [hv]
      rfl
    have hagain := Table.insertOrUpdate_again hrefl tbl ds hne hvalue
    have hdefaults : ∀ (new : Row) (assignments : List (Text × Text)),
        (tbl.insertOrUpdate eq new assignments).defaults = tbl.defaults := by
      intro new assignments
      rw [Table.insertOrUpdate]
      split <;> rfl
    rw [hdefaults]
    exact hagain
  cases w with
  | entityAdd => exact hinsert hreads
  | entitySave => exact hinsert hreads
  | entityDelete =>
      obtain ⟨t, rfl⟩ := hreads
      obtain ⟨-, rfl⟩ := run_delete hrun₁
      obtain ⟨-, rfl⟩ := run_delete hrun₂
      simp

/-- The row has the key of the entity: in every column of the key the value of a
field with its name. -/
def HasEntityKey (eq : Comparison) (entity : Message) (key : List Text) (row : Row) : Prop :=
  ∀ c ∈ key, ∃ l ∈ leaves entity, l.name.chars = c
    ∧ ∃ v, l.boundValue = some v ∧ eq (row c) v = true

/-- The column is one that the entity sets. -/
def SetsColumn (entity : Message) (c : Text) : Prop := ∃ l ∈ leaves entity, l.name.chars = c

section Changes

variable {tbl tbl' : Table} {columns : List Text} {vs : List BoundValue}

/-- An insert of values that belong to fields of the entity. -/
lemma insert_changesOnly (hrefl : ∀ v, eq (some v) v = true) {q : Query}
    (hleaf : ∀ (i : ℕ) (c : Text) (v : BoundValue), columns[i]? = some c → vs[i]? = some v →
      ∃ l ∈ leaves entity, l.name.chars = c ∧ l.boundValue = some v)
    (hkey : ∀ c ∈ tbl.key, c ∈ columns) (hreads : ReadsInsert columns q)
    (hrun : tbl.run eq vs q = some tbl') :
    Table.ChangesOnly (HasEntityKey eq entity tbl.key) (SetsColumn entity) tbl tbl' := by
  obtain ⟨t, n, ds, hds, rfl⟩ := hreads
  obtain ⟨hnodup, hlen, rfl⟩ := run_insert hrun
  have hcolumn : ∀ c ∈ columns, ∃ l ∈ leaves entity, l.name.chars = c
      ∧ ∃ v, l.boundValue = some v ∧ Table.newRow tbl.defaults columns vs c = some v := by
    intro c hc
    obtain ⟨i, v, hi, hv, hnew⟩ := Table.newRow_column tbl.defaults hnodup hlen hc
    obtain ⟨l, hl, hname, hvalue⟩ := hleaf i c v hi hv
    exact ⟨l, hl, hname, v, hvalue, hnew⟩
  -- the rows with the key of the new one have the key of the entity
  have hentity : ∀ row,
      Table.sameKey eq tbl.key (Table.newRow tbl.defaults columns vs) row = true →
        HasEntityKey eq entity tbl.key row := by
    intro row hrow c hc
    obtain ⟨l, hl, hname, v, hvalue, hnew⟩ := hcolumn c (hkey c hc)
    rw [Table.sameKey, Bool.and_eq_true, List.all_eq_true] at hrow
    have hcell := hrow.2 c hc
    rw [hnew] at hcell
    exact ⟨l, hl, hname, v, hvalue, hcell⟩
  rcases Table.insertOrUpdate_cases eq tbl (Table.newRow tbl.defaults columns vs) ds with
    ⟨-, hnew⟩ | ⟨before, row, after, hrows, -, hrow, hnew⟩
  · rw [hnew]
    refine .added _ ?_ fun c hc => Table.newRow_of_notMem tbl.defaults ?_ vs
    · intro c hc
      obtain ⟨l, hl, hname, v, hvalue, hcell⟩ := hcolumn c (hkey c hc)
      exact ⟨l, hl, hname, v, hvalue, by rw [hcell]; exact hrefl v⟩
    · intro hmem
      obtain ⟨l, hl, hname, -⟩ := hcolumn c hmem
      exact hc ⟨l, hl, hname⟩
  · rw [hnew]
    refine .changed before after row _ hrows (hentity row hrow)
      (hentity _ (Table.sameKey_assigned hrefl hrow)) fun c hc => if_neg fun hmem => ?_
    obtain ⟨l, hl, hname, -⟩ := hcolumn c (hds c hmem)
    exact hc ⟨l, hl, hname⟩

/-- A delete of the rows with values that belong to fields of the entity. -/
lemma delete_changesOnly {t : Text}
    (hleaf : ∀ (i : ℕ) (c : Text) (v : BoundValue), columns[i]? = some c → vs[i]? = some v →
      ∃ l ∈ leaves entity, l.name.chars = c ∧ l.boundValue = some v)
    (hkey : ∀ c ∈ tbl.key, c ∈ columns) (hrun : tbl.run eq vs (.delete t columns) = some tbl') :
    Table.ChangesOnly (HasEntityKey eq entity tbl.key) (SetsColumn entity) tbl tbl' := by
  obtain ⟨hlen, rfl⟩ := run_delete hrun
  refine .removed _ fun row hrow c hc => ?_
  rw [Bool.not_eq_false', fulfils, List.all_eq_true] at hrow
  obtain ⟨i, hi, hci⟩ := List.mem_iff_getElem.mp (hkey c hc)
  have hv : i < vs.length := by omega
  obtain ⟨l, hl, hname, hvalue⟩ := hleaf i columns[i] vs[i] (List.getElem?_eq_getElem hi)
    (List.getElem?_eq_getElem hv)
  have hcell := hrow (columns[i], vs[i])
    (List.mem_iff_getElem.mpr ⟨i, by rw [List.length_zip]; omega, List.getElem_zip⟩)
  exact ⟨l, hl, hname.trans hci, vs[i], hvalue, by rw [← hci]; exact hcell⟩

end Changes

/-- **One execution changes the row with the key of the entity only**, and in it only
the columns that the entity sets. -/
theorem WriteLoop.exec_changesOnly {w : WriteLoop} {db : Server} {s : ZdbStatement}
    {tbl tbl' : Table} (hrefl : ∀ v, eq (some v) v = true)
    (hparse : w.path.parse db entity sTableName vKey = .ok (true, s))
    (hkey : ∀ c ∈ tbl.key, c ∈ w.path.readColumns s.sql)
    (hagree : w.path.Agrees db entity sTableName vKey) (hexec : tbl.exec eq s = some tbl') :
    Table.ChangesOnly (HasEntityKey eq entity tbl.key) (SetsColumn entity) tbl tbl' := by
  obtain ⟨q, vs, -, -, hstmt, hrun, hreads⟩ := WriteLoop.exec_reads hparse hexec
  rw [ParsePath.Agrees, hparse] at hagree
  have hslots := hagree rfl _ hstmt
  -- a column and its value belong to a field
  have hleaf : ∀ (i : ℕ) (c : Text) (v : BoundValue), (w.path.readColumns s.sql)[i]? = some c →
      vs[i]? = some v → ∃ l ∈ leaves entity, l.name.chars = c ∧ l.boundValue = some v := by
    intro i c v hc hv
    obtain ⟨l, hl, hname, hvalue⟩ := hslots i (some v) (by rw [List.getElem?_map, hv]; rfl)
    exact ⟨l, hl, Option.some.inj (hname.symm.trans hc), hvalue.symm⟩
  cases w with
  | entityAdd => exact insert_changesOnly hrefl hleaf hkey hreads hrun
  | entitySave => exact insert_changesOnly hrefl hleaf hkey hreads hrun
  | entityDelete =>
      obtain ⟨t, rfl⟩ := hreads
      exact delete_changesOnly hleaf hkey hrun

end Writes

/-- The rounds of an account that is saved: the statement is refused, then it takes
effect without an answer, then it is answered. -/
def accountRounds : List (Server × Outcome) :=
  [(⟨fun _ => false⟩, .answered), (⟨fun _ => true⟩, .lost), (⟨fun _ => true⟩, .answered)]

end PbEntityDb
