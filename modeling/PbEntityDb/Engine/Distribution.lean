import PbEntityDb.Engine.Missing
import PbEntityDb.Engine.Answer

/-!
Several result sets in the lists of `return_recordsets`.

* `OneForEach`: one new record for each row, in the order of the rows, read from
  the columns of this row by the names of the fields.
* `spQuery_distributes`: if `SpQuery` returns `true`, the list at each place has
  the records of the result set at this place, and the lists behind the last
  result set stay empty; and it does return if the record types can be read.
* `recordsets_unused`: a message that also has a field `return_record_list` keeps
  its lists empty.
-/

namespace PbEntityDb

section Distribution

variable (pool : Pool) (stray : Stray) (stack : ℕ)

/-- One new record for each row, in row order, with what its columns hold under the
names of the fields. -/
def OneForEach (messageType : Text) (rows : List (List Column)) (records : List Message) : Prop :=
  List.Forall₂ (fun row record => ∃ st, addFirstReturnRecord pool stray row stack messageType
    (emptyMessage pool messageType) .start = .ok (record, st)) rows records

/-- The rows of the result set at a place, none behind the last one. -/
def rowsAt (sets : List ResultSet) (j : ℕ) : List (List Column) :=
  (sets[j]?.map ResultSet.rows).getD []

/-- `return_recordsets` is the field at index `i`, a message with one list for each
of the record types and nothing in it. -/
structure HasRecordsets (storedProc : Message) (i : ℕ) (types : List MessageField) : Prop where
  found : Raising.findFieldByName storedProc Raising.returnRecordsets = some i
  empty : ∃ field f, storedProc[i]? = some field ∧ Raising.mutableField field = .ok f
    ∧ recordsetFields pool field = types.map fun f => .repeatedMessage f []

/-- Each result set that has a list has the columns of its record type. -/
def HasOwnColumns (types : List MessageField) (sets : List ResultSet) : Prop :=
  ∀ (j : ℕ) (f : MessageField) (rs : ResultSet), types[j]? = some f → sets[j]? = some rs →
    ∀ d, HasLeaf pool f.messageType d → d.isRead = true → d.name.chars ∈ rs.names

/-- **Each result set is in its own list**: the call changes `return_recordsets`
only, and the list at each place has one record for each row of the result set at
this place. -/
def Distributed (storedProc : Message) (i : ℕ) (types : List MessageField)
    (sets : List ResultSet) (after : Message) : Prop :=
  ∃ f sub, after = setAt i (.message f sub) storedProc ∧ sub.length = types.length
    ∧ ∀ j f, types[j]? = some f → ∃ records, sub[j]? = some (.repeatedMessage f records)
      ∧ OneForEach pool stray stack f.messageType (rowsAt sets j) records

variable {pool stray stack}

/-! ### One result set -/

/-- The rows behind the first one are read like it. -/
lemma moreRecords_oneForEach {set : ℕ} {messageType : Text} {first : List Column}
    {ws : List FieldDecl} {arrIndex : List ℕ} (hws : slots pool stack messageType = some ws)
    (hlen : ws.length ≤ arrIndexSize) (hfixed : noFixed ws = true)
    (hcolumns : HasColumns first ws)
    (hholds : Holds arrIndex 0 (indices first pool stack messageType)) {k : ℕ} {record : Message}
    {rows : List (List Column)} {records : List Message}
    (hnames : ∀ row ∈ rows, columnNames row = columnNames first)
    (h : Raising.moreRecords pool stray stack .quiet set (fun _ => emptyMessage pool messageType)
      messageType arrIndex k record rows = .ok records) :
    OneForEach pool stray stack messageType rows records := by
  induction rows generalizing k record records with
  | nil =>
      rw [List.eq_nil_of_length_eq_zero (length_moreRecords h)]
      exact .nil
  | cons row rows ih =>
      obtain ⟨-, -, h⟩ := bind_ok h
      obtain ⟨p, hp, h⟩ := bind_ok h
      obtain ⟨rest, hrest, heq⟩ := bind_ok h
      cases heq
      have hrow := hnames row List.mem_cons_self
      have hholds' : Holds arrIndex 0 (indices row pool stack messageType) :=
        indices_eq hrow pool stack ▸ hholds
      have hcolumns' : HasColumns row ws := fun d hd hread => hrow ▸ hcolumns d hd hread
      have hwalk := addReturn_fills pool stray row stack (emptyMessage pool messageType) 0 hws
        hfixed hcolumns' hholds'
      rw [← Raising.addReturnRecord_quiet] at hwalk
      obtain rfl := Except.ok.inj (hp.symm.trans hwalk)
      refine .cons ?_ (ih (fun r hr => hnames r (List.mem_cons_of_mem _ hr)) hrest)
      exact addFirst_of_fits pool stray hws hlen hfixed row _

/-- **The rows of a result set** with all columns give one record each. -/
lemma readRows_oneForEach {set : ℕ} {messageType : Text} {rs : ResultSet} {records : List Message}
    (hcolumns : ∀ d, HasLeaf pool messageType d → d.isRead = true → d.name.chars ∈ rs.names)
    (h : Raising.readRows pool stray stack .quiet set (fun _ => emptyMessage pool messageType)
      messageType [] rs.rows = .ok records) :
    OneForEach pool stray stack messageType rs.rows records := by
  obtain ⟨names, rows, hnamed⟩ := rs
  cases rows with
  | nil =>
      rw [List.eq_nil_of_length_eq_zero (length_readRows h)]
      exact .nil
  | cons first rows =>
      obtain ⟨-, -, h⟩ := bind_ok h
      obtain ⟨⟨r, st⟩, hfirst, h⟩ := bind_ok h
      obtain ⟨rest, hrest, heq⟩ := bind_ok h
      cases heq
      have hread : addFirstReturnRecord pool stray first stack messageType
          (emptyMessage pool messageType) .start = .ok (r, st) :=
        (Raising.addFirstReturnRecord_quiet pool stray stack first
          (hasDecls_empty pool (pool messageType)) .start).symm.trans hfirst
      obtain ⟨-, hholds, ws, hws, hlen, hfixed⟩ := addFirst_ok pool stray hread
      have hnames : columnNames first = names := hnamed first List.mem_cons_self
      have hcolumns' : HasColumns first ws :=
        fun d hd hdread => hnames ▸ hcolumns d ((mem_slots hws d).mp hd) hdread
      refine .cons ⟨st, hread⟩ ?_
      exact moreRecords_oneForEach hws hlen hfixed hcolumns' hholds
        (fun row hrow => (hnamed row (List.mem_cons_of_mem _ hrow)).trans hnames.symm) hrest

/-! ### All result sets -/

/-- **The lists behind the call**: each has the records of its own result set. -/
lemma Appends.distributed {types : List MessageField} {sets : List ResultSet} {sub : List Field}
    (h : Appends pool stray stack .quiet 0 sets (types.map fun f => .repeatedMessage f []) sub)
    (hcolumns : HasOwnColumns pool types sets) :
    sub.length = types.length
      ∧ ∀ j f, types[j]? = some f → ∃ records, sub[j]? = some (.repeatedMessage f records)
        ∧ OneForEach pool stray stack f.messageType (rowsAt sets j) records := by
  refine ⟨h.length.trans (List.length_map _), fun j f hf => ?_⟩
  have hlist : (types.map fun f => Field.repeatedMessage f [])[j]?
      = some (.repeatedMessage f []) := by
    rw [List.getElem?_map, hf]
    rfl
  obtain ⟨records, hfresh, -, hsub⟩ := h.field j _ hlist
  refine ⟨records, hsub, ?_⟩
  rw [rowsAt]
  cases hrs : sets[j]? with
  | none =>
      rw [hrs, freshRecords_none] at hfresh
      cases hfresh
      exact .nil
  | some rs =>
      rw [hrs] at hfresh
      exact readRows_oneForEach (hcolumns j f rs hf hrs) hfresh

/-- With all columns every field that is read has an index. -/
lemma indexed_of_columns {row : List Column} {messageType : Text}
    (hcolumns : ∀ d, HasLeaf pool messageType d → d.isRead = true →
      d.name.chars ∈ columnNames row) : Indexed pool row stack messageType := by
  intro ws hws
  have hown := indices_own hws fun d hd => hcolumns d ((mem_slots hws d).mp hd)
  exact hown.imp fun w i h d hd hread => (h d hd hread).1

/-- A result set of a type that can be read is read into its list. -/
lemma fieldRead_of_fits {set : ℕ} {f : MessageField} {elems : List Message} {rs : ResultSet}
    (hcolumns : ∀ d, HasLeaf pool f.messageType d → d.isRead = true → d.name.chars ∈ rs.names)
    (hfits : rs.rows ≠ [] → Fits pool stack f.messageType) :
    FieldRead pool stray stack .quiet set (.repeatedMessage f elems) rs.rows := by
  refine ⟨fun _ _ => rfl, fun hrows => ⟨f, elems, rfl, hfits hrows, ?_, ?_, ?_⟩⟩
  · exact fun row _ => harmless_quiet pool stack _ _ f.messageType
  · intro row hrow _
    refine indexed_of_columns fun d hd hread => ?_
    rw [rs.named row (List.mem_of_mem_head? hrow)]
    exact hcolumns d hd hread
  · exact fun _ _ _ => harmless_quiet pool stack _ _ f.messageType

/-- **Where `SpQuery` leaves the result sets** of a procedure without a field
`return_record_list`: each one in its own list. If the record types can be read, it
returns as soon as its statement is prepared. -/
theorem spQuery_distributes {db : Server} {sProcName : ProcName} {storedProc : Message} {i : ℕ}
    {types : List MessageField} {rs : ResultSet} {more : List ResultSet}
    (hlist : Raising.findFieldByName storedProc Raising.returnRecordList = none)
    (hsets : HasRecordsets pool storedProc i types)
    (hcolumns : HasOwnColumns pool types (rs :: more)) :
    (∀ after,
        Raising.spQuery pool stray stack .quiet db sProcName storedProc rs more
          = .ok (true, after) →
        Distributed pool stray stack storedProc i types (rs :: more) after)
      ∧ ((∀ j f, types[j]? = some f → rowsAt (rs :: more) j ≠ [] → Fits pool stack f.messageType) →
        ∀ s, parseProcLoop db sProcName storedProc .new = .ok (true, s) → s.stmt ≠ none →
          ∃ after, Raising.spQuery pool stray stack .quiet db sProcName storedProc rs more
            = .ok (true, after)) := by
  obtain ⟨hfound, field, f, hfield, hmutable, hempty⟩ := hsets
  constructor
  · intro after h
    have hread : Read pool stray stack .quiet rs more storedProc after := spQuery_ok h
    cases hread with
    | nothing _ hnone =>
        rw [hfound] at hnone
        cases hnone
    | list hsome =>
        rw [hlist] at hsome
        cases hsome
    | @sets i' field' f' sub _ hfound' hfield' hmutable' hsub =>
        obtain rfl := Option.some.inj (hfound.symm.trans hfound')
        obtain rfl := Option.some.inj (hfield.symm.trans hfield')
        rw [hempty] at hsub
        exact ⟨f', sub, rfl, hsub.distributed hcolumns⟩
  · intro hfits s hparse hstmt
    have hread : CallRead pool stray stack .quiet storedProc rs more := by
      rw [CallRead]
      simp only [hlist, hfound]
      intro field' hfield'
      obtain rfl := Option.some.inj (hfield.symm.trans hfield')
      refine ⟨f, hmutable, fun j g set hg hset => ⟨?_, rfl⟩⟩
      rw [(@subMessage_of_mutableField pool _ _ hmutable).1, hempty, List.getElem?_map] at hg
      obtain ⟨f', hf', rfl⟩ := Option.map_eq_some_iff.mp hg
      refine fieldRead_of_fits (hcolumns j f' set hf' hset) fun hrows => hfits j f' hf' ?_
      rw [rowsAt, hset]
      exact hrows
    obtain ⟨after, hafter, -⟩ :=
      (parseResultSets_delivers_iff pool stray stack .quiet storedProc rs more).mpr hread
    have hquiet :=
      (Raising.parseProcLoop_binds .quiet db sProcName storedProc .new).ok_iff (true, s)
    rw [server_quiet] at hquiet
    refine ⟨after, ?_⟩
    rw [Raising.spQuery, hquiet.mpr ⟨hparse, fun _ _ _ => rfl⟩, query_prepared hstmt, hafter]
    rfl

end Distribution

/-! ### A sample procedure -/

/-- The lists of a procedure that returns the accounts of two servers. -/
def serverLists : List MessageField :=
  [⟨⟨"old_server".toList, List.all_eq_true.mp rfl⟩, none, account.chars⟩,
    ⟨⟨"new_server".toList, List.all_eq_true.mp rfl⟩, none, account.chars⟩]

/-- Its record types. -/
def serverPool : Pool := fun messageType =>
  if messageType = "server_recordsets".toList then serverLists.map .repeatedMessage
  else accountPool messageType

/-- Its field for the answer. -/
def serverRecordsets : Field := .unset ⟨Raising.returnRecordsets, none, "server_recordsets".toList⟩

/-- Its arguments. -/
def serverParam : Field := .message ⟨paramName, none, "server_param".toList⟩ (accountEntity 1 2)

/-- No accounts in a result set. -/
def noAccounts : ResultSet where
  names := accountRows.names
  rows := []
  named := by simp

lemma serverPool_account : serverPool account.chars = accountPool account.chars := rfl

/-- The result sets have the columns of an account. -/
lemma serverLists_columns {sets : List ResultSet}
    (h : ∀ rs ∈ sets, rs.names = accountRows.names) :
    HasOwnColumns serverPool serverLists sets := by
  intro j f rs hf hrs d hd _
  rw [h rs (List.mem_of_getElem? hrs)]
  have htype : f.messageType = account.chars := by
    have hf' := List.mem_of_getElem? hf
    simp only [serverLists, List.mem_cons, List.not_mem_nil, or_false] at hf'
    rcases hf' with rfl | rfl <;> rfl
  rw [htype] at hd
  cases hd with
  | here hd =>
      rw [serverPool_account] at hd
      obtain rfl | rfl := hasLeaf_account (.here hd)
      · exact List.mem_cons_self
      · exact List.mem_cons_of_mem _ List.mem_cons_self
  | inside hf _ => simp [serverPool_account, accountPool] at hf

/-- Three result sets for two lists: two accounts, none, and two that have no list. -/
theorem spQuery_distributes_servers : ∃ after,
    Raising.spQuery serverPool zeroStray 2 .quiet ⟨fun _ => true⟩
        ⟨"sp_servers".toList, identifier_of_all rfl⟩ [serverParam, serverRecordsets] accountRows
        [noAccounts, accountRows] = .ok (true, after)
      ∧ Distributed serverPool zeroStray 2 [serverParam, serverRecordsets] 1 serverLists
        [accountRows, noAccounts, accountRows] after := by
  have hsets : HasRecordsets serverPool [serverParam, serverRecordsets] 1 serverLists :=
    ⟨rfl, _, _, rfl, rfl, rfl⟩
  have hcolumns : HasOwnColumns serverPool serverLists [accountRows, noAccounts, accountRows] :=
    serverLists_columns fun rs hrs => by
      simp only [List.mem_cons, List.not_mem_nil, or_false] at hrs
      rcases hrs with rfl | rfl | rfl <;> rfl
  obtain ⟨after, hrun⟩ : ∃ after, Raising.spQuery serverPool zeroStray 2 .quiet ⟨fun _ => true⟩
      ⟨"sp_servers".toList, identifier_of_all rfl⟩ [serverParam, serverRecordsets] accountRows
      [noAccounts, accountRows] = .ok (true, after) := ⟨_, rfl⟩
  exact ⟨after, hrun, (spQuery_distributes rfl hsets hcolumns).1 after hrun⟩

/-- The message of a procedure that has a field `return_record_list` as well. -/
def serverMessage : Message :=
  [serverParam, .repeatedMessage ⟨Raising.returnRecordList, none, account.chars⟩ [],
    serverRecordsets]

/-- **Lists that are not used**: the first result set is in `return_record_list`, and
`return_recordsets` stays as it was. -/
theorem recordsets_unused :
    HasRecordsets serverPool serverMessage 2 serverLists
      ∧ HasOwnColumns serverPool serverLists [accountRows]
      ∧ ∃ after, Raising.spQuery serverPool zeroStray 2 .quiet ⟨fun _ => true⟩
          ⟨"sp_servers".toList, identifier_of_all rfl⟩ serverMessage accountRows []
            = .ok (true, after)
        ∧ after[2]? = some serverRecordsets
        ∧ ¬ Distributed serverPool zeroStray 2 serverMessage 2 serverLists [accountRows] after := by
  refine ⟨⟨rfl, _, _, rfl, rfl, rfl⟩, serverLists_columns fun rs hrs => ?_, _, rfl, rfl, ?_⟩
  · rw [List.mem_singleton.mp hrs]
  · rintro ⟨f, sub, hafter, -⟩
    have hfield := congrArg (fun m => m[2]?) hafter
    cases hfield

end PbEntityDb
