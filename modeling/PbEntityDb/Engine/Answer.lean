import PbEntityDb.Engine.Failures

/-!
The records that `SpQuery` leaves in the message of a stored procedure.

* `answerFields` are the fields that the result sets of a call are read into, and
  `freshRecords` the new records that one of them gets.
* `parseResultSets_appends`: every field keeps its records, and the new ones stand
  behind them.
* `parseResultSets_again`: when a second call changes nothing in a message that
  carries the answer of a first one.
-/

namespace PbEntityDb

/-! ### The fields for the answer -/

/-- The fields of `return_recordsets`. -/
def recordsetFields (pool : Pool) : Field → List Field
  | .unset f => emptyMessage pool f.messageType
  | .message _ sub => sub
  | _ => []

/-- The fields that the result sets are read into: `return_record_list`, or those of
`return_recordsets`. -/
def answerFields (pool : Pool) (storedProc : Message) : List Field :=
  match Raising.findFieldByName storedProc Raising.returnRecordList with
  | some i => storedProc[i]?.toList
  | none =>
      match Raising.findFieldByName storedProc Raising.returnRecordsets with
      | some i => (storedProc[i]?.map (recordsetFields pool)).getD []
      | none => []

/-- The records in a field. -/
def Field.records : Field → List Message
  | .repeatedMessage _ elems => elems
  | _ => []

/-- The field with further records. -/
def Field.append (records : List Message) : Field → Field
  | .repeatedMessage f elems => .repeatedMessage f (elems ++ records)
  | field => field

lemma Field.NoList.records {field : Field} (h : field.NoList) : field.records = [] := by
  cases field with
  | repeatedMessage f elems => exact h.elim
  | leaf l => rfl
  | unset f => rfl
  | message f sub => rfl
  | repeated name values => rfl

lemma Field.NoList.append {field : Field} (h : field.NoList) (records : List Message) :
    field.append records = field := by
  cases field with
  | repeatedMessage f elems => exact h.elim
  | leaf l => rfl
  | unset f => rfl
  | message f sub => rfl
  | repeated name values => rfl

lemma Field.append_nil (field : Field) : field.append [] = field := by
  rcases field.list_or with ⟨f, elems, rfl⟩ | h
  · rw [Field.append, List.append_nil]
  · exact h.append []

lemma Field.HasDecl.append {pool : Pool} {f : Field} {d : FieldDecl} (h : f.HasDecl pool d)
    (records : List Message) : (f.append records).HasDecl pool d := by
  rcases f.list_or with ⟨mf, elems, rfl⟩ | hf
  · exact h
  · rw [hf.append]
    exact h

section Fresh

variable (pool : Pool) (stray : Stray) (stack : ℕ) (sch : Schedule)

/-- The records that are read for a field: a new one for each row of its result set,
if there is one. -/
def freshRecords (set : ℕ) (rs : Option ResultSet) (field : Field) : Except Fault (List Message) :=
  match field, rs with
  | .repeatedMessage f _, some rs =>
      Raising.readRows pool stray stack sch set (fun _ => emptyMessage pool f.messageType)
        f.messageType [] rs.rows
  | _, _ => .ok []

/-- Every field has the records of its result set behind its own. -/
structure Appends (set : ℕ) (sets : List ResultSet) (fields fields' : List Field) : Prop where
  length : fields'.length = fields.length
  field : ∀ j f, fields[j]? = some f → ∃ records,
    freshRecords pool stray stack sch (set + j) sets[j]? f = .ok records
      ∧ (∀ rs, sets[j]? = some rs → records.length = rs.rows.length)
      ∧ fields'[j]? = some (f.append records)

/-! ### One record for each row -/

variable {pool stray stack sch}

lemma length_moreRecords {set : ℕ} {start : Message → Message} {messageType : Text}
    {arrIndex : List ℕ} {k : ℕ} {record : Message} {rows : List (List Column)}
    {records : List Message}
    (h : Raising.moreRecords pool stray stack sch set start messageType arrIndex k record rows
      = .ok records) : records.length = rows.length := by
  induction rows generalizing k record records with
  | nil =>
      obtain ⟨-, -, heq⟩ := bind_ok h
      cases heq
      rfl
  | cons row rows ih =>
      obtain ⟨-, -, h⟩ := bind_ok h
      obtain ⟨p, -, h⟩ := bind_ok h
      obtain ⟨rest, hrest, heq⟩ := bind_ok h
      cases heq
      rw [List.length_cons, List.length_cons, ih hrest]

lemma length_readRows {set : ℕ} {start : Message → Message} {messageType : Text}
    {record : Message} {rows : List (List Column)} {records : List Message}
    (h : Raising.readRows pool stray stack sch set start messageType record rows = .ok records) :
    records.length = rows.length := by
  cases rows with
  | nil =>
      obtain ⟨-, -, h⟩ := bind_ok h
      exact length_moreRecords h
  | cons row rows =>
      obtain ⟨-, -, h⟩ := bind_ok h
      obtain ⟨p, -, h⟩ := bind_ok h
      obtain ⟨rest, hrest, heq⟩ := bind_ok h
      cases heq
      rw [List.length_cons, List.length_cons, length_moreRecords hrest]

lemma freshRecords_of_noList {set : ℕ} {rs : Option ResultSet} {field : Field}
    (h : field.NoList) : freshRecords pool stray stack sch set rs field = .ok [] := by
  cases field with
  | repeatedMessage f elems => exact h.elim
  | leaf l => rfl
  | unset f => rfl
  | message f sub => rfl
  | repeated name values => rfl

lemma freshRecords_none {set : ℕ} (field : Field) :
    freshRecords pool stray stack sch set none field = .ok [] := by
  rcases field.list_or with ⟨f, elems, rfl⟩ | h
  · rfl
  · exact freshRecords_of_noList h

/-- A field that is no list of messages gets no records. -/
lemma records_append {set : ℕ} {rs : Option ResultSet} {field : Field} {records : List Message}
    (h : freshRecords pool stray stack sch set rs field = .ok records) :
    (field.append records).records = field.records ++ records := by
  rcases field.list_or with ⟨f, elems, rfl⟩ | hfield
  · rfl
  · rw [freshRecords_of_noList hfield] at h
    cases h
    rw [field.append_nil, List.append_nil]

/-! ### The result sets of a call -/

/-- **One result set.** -/
lemma parseProcResult_appends {set : ℕ} {field field' : Field} {rs : ResultSet}
    (h : Raising.parseProcResult pool stray stack sch set field rs.rows = .ok field') :
    ∃ records, freshRecords pool stray stack sch set (some rs) field = .ok records
      ∧ records.length = rs.rows.length ∧ field' = field.append records := by
  rcases field.list_or with ⟨f, elems, rfl⟩ | hfield
  · obtain ⟨records, hrecords, heq⟩ := bind_ok h
    cases heq
    exact ⟨records, hrecords, length_readRows hrecords, rfl⟩
  · -- a field that is not a repeated message takes no row
    rw [parseProcResult_noList pool stray stack sch hfield] at h
    obtain ⟨-, -, h⟩ := bind_ok h
    cases hrows : rs.rows with
    | nil =>
        rw [hrows] at h
        obtain ⟨-, -, heq⟩ := bind_ok h
        cases heq
        exact ⟨[], freshRecords_of_noList hfield, rfl, (hfield.append []).symm⟩
    | cons row rows =>
        rw [hrows] at h
        cases h

lemma Appends.nil (set : ℕ) (sets : List ResultSet) :
    Appends pool stray stack sch set sets [] [] :=
  ⟨rfl, fun j f hf => by simp at hf⟩

/-- Behind the last result set the fields stay as they are. -/
lemma Appends.refl (set : ℕ) (fields : List Field) :
    Appends pool stray stack sch set [] fields fields := by
  refine ⟨rfl, fun j f hf => ⟨[], freshRecords_none f, fun rs hrs => by simp at hrs, ?_⟩⟩
  rw [f.append_nil]
  exact hf

lemma Appends.cons {set : ℕ} {f : Field} {rs : ResultSet} {records : List Message}
    (hfresh : freshRecords pool stray stack sch set (some rs) f = .ok records)
    (hlen : records.length = rs.rows.length) {sets : List ResultSet} {fields fields' : List Field}
    (h : Appends pool stray stack sch (set + 1) sets fields fields') :
    Appends pool stray stack sch set (rs :: sets) (f :: fields) (f.append records :: fields') := by
  obtain ⟨hlength, hfield⟩ := h
  refine ⟨by rw [List.length_cons, List.length_cons, hlength], fun j g hg => ?_⟩
  cases j with
  | zero =>
      cases hg
      refine ⟨records, hfresh, fun rs' hrs' => ?_, rfl⟩
      cases hrs'
      exact hlen
  | succ j =>
      have hg' := hfield j g hg
      rwa [Nat.add_assoc, Nat.add_comm 1] at hg'

/-- **The loop over the result sets.** -/
lemma parseRecordsets_appends {set : ℕ} {fields fields' : List Field} {rs : ResultSet}
    {more : List ResultSet}
    (h : Raising.parseRecordsets pool stray stack sch set fields rs more = .ok fields') :
    Appends pool stray stack sch set (rs :: more) fields fields' := by
  induction fields generalizing set fields' rs more with
  | nil =>
      cases h
      exact .nil set (rs :: more)
  | cons f fields ih =>
      rw [parseRecordsets_cons] at h
      obtain ⟨f', hf', h⟩ := bind_ok h
      obtain ⟨rest, hrest, heq⟩ := bind_ok h
      cases heq
      obtain ⟨records, hfresh, hlen, rfl⟩ := parseProcResult_appends hf'
      refine .cons hfresh hlen ?_
      cases hnext : sch (.nextResultSet set) with
      | true =>
          rw [nextRecordsets_raises pool stray stack fields hnext] at hrest
          cases hrest
      | false =>
          cases more with
          | nil =>
              rw [nextRecordsets_nil pool stray stack fields hnext] at hrest
              cases hrest
              exact .refl (set + 1) fields
          | cons rs' more =>
              rw [nextRecordsets_cons pool stray stack fields hnext] at hrest
              exact ih hrest

/-! ### The message behind a call -/

lemma findFieldByName_eq {m n : Message} {ds : List FieldDecl} (hm : HasDecls pool m ds)
    (hn : HasDecls pool n ds) (name : Name) :
    Raising.findFieldByName m name = Raising.findFieldByName n name := by
  have hnames : m.map Field.name = n.map Field.name := by
    obtain ⟨hmlen, hmdecl⟩ := hasDecls_iff.mp hm
    obtain ⟨hnlen, hndecl⟩ := hasDecls_iff.mp hn
    refine List.ext_getElem (by simp [hmlen, hnlen]) fun i hi hi' => ?_
    rw [List.length_map] at hi hi'
    have hd : ds[i]? = some ds[i] := List.getElem?_eq_getElem (by omega)
    rw [List.getElem_map, List.getElem_map]
    rw [(hmdecl i _ _ (List.getElem?_eq_getElem hi) hd).name_eq,
      (hndecl i _ _ (List.getElem?_eq_getElem hi') hd).name_eq]
  have hmap : ∀ l : Message, Raising.findFieldByName l name
      = (l.map Field.name).findIdx? fun n => decide (n = name) := by
    intro l
    rw [List.findIdx?_map]
    rfl
  rw [hmap, hmap, hnames]

lemma Appends.hasDecls {set : ℕ} {sets : List ResultSet} {fields fields' : Message}
    {ds : List FieldDecl} (h : Appends pool stray stack sch set sets fields fields')
    (hfields : HasDecls pool fields ds) : HasDecls pool fields' ds := by
  obtain ⟨hlen, hdecl⟩ := hasDecls_iff.mp hfields
  refine hasDecls_iff.mpr ⟨h.length.trans hlen, fun j f' d hf' hd => ?_⟩
  have hlt := (List.getElem?_eq_some_iff.mp hf').1
  rw [h.length] at hlt
  have hf := List.getElem?_eq_getElem hlt
  obtain ⟨records, -, -, hrecords⟩ := h.field j _ hf
  rw [hf'] at hrecords
  cases hrecords
  exact (hdecl j _ d hf hd).append records

/-- What `MutableMessage` gives is there to be read into. -/
lemma subMessage_of_mutableField {field : Field} {f : MessageField}
    (h : Raising.mutableField field = .ok f) :
    subMessage pool f field = recordsetFields pool field
      ∧ ∀ d, field.HasDecl pool d → d = .message f := by
  cases field with
  | unset g =>
      cases h
      exact ⟨rfl, fun d hd => by simpa only [Field.HasDecl] using hd⟩
  | message g sub =>
      cases h
      refine ⟨rfl, fun d hd => ?_⟩
      rw [Field.HasDecl] at hd
      exact hd.1
  | leaf l => cases h
  | repeated name values => cases h
  | repeatedMessage g elems => cases h

variable (pool stray stack sch) in
/-- What `SpQuery` makes of a message behind the execution of its statement. -/
inductive Read (rs : ResultSet) (more : List ResultSet) (m : Message) : Message → Prop where
  | nothing (hlist : Raising.findFieldByName m Raising.returnRecordList = none)
      (hsets : Raising.findFieldByName m Raising.returnRecordsets = none) : Read rs more m m
  | list {i : ℕ} {field : Field} {records : List Message}
      (hlist : Raising.findFieldByName m Raising.returnRecordList = some i)
      (hfield : m[i]? = some field)
      (hfresh : freshRecords pool stray stack sch 0 (some rs) field = .ok records)
      (hlength : records.length = rs.rows.length) :
      Read rs more m (m.set i (field.append records))
  | sets {i : ℕ} {field : Field} {f : MessageField} {sub : Message}
      (hlist : Raising.findFieldByName m Raising.returnRecordList = none)
      (hsets : Raising.findFieldByName m Raising.returnRecordsets = some i)
      (hfield : m[i]? = some field) (hmutable : Raising.mutableField field = .ok f)
      (hsub : Appends pool stray stack sch 0 (rs :: more) (recordsetFields pool field) sub) :
      Read rs more m (setAt i (.message f sub) m)

lemma getElem?_of_findFieldByName {m : Message} {name : Name} {i : ℕ}
    (h : Raising.findFieldByName m name = some i) : ∃ field, m[i]? = some field := by
  obtain ⟨hi, -⟩ := List.findIdx?_eq_some_iff_getElem.mp h
  exact ⟨_, List.getElem?_eq_getElem hi⟩

/-- **The result sets of a call.** -/
lemma read_of_parseResultSets {m m' : Message} {rs : ResultSet} {more : List ResultSet}
    (h : Raising.parseResultSets pool stray stack sch m rs more = .ok m') :
    Read pool stray stack sch rs more m m' := by
  rw [Raising.parseResultSets] at h
  cases hlist : Raising.findFieldByName m Raising.returnRecordList with
  | some i =>
      obtain ⟨field, hfield⟩ := getElem?_of_findFieldByName hlist
      simp only [hlist, hfield] at h
      obtain ⟨field', hfield', heq⟩ := bind_ok h
      cases heq
      obtain ⟨records, hfresh, hlength, rfl⟩ := parseProcResult_appends hfield'
      exact .list hlist hfield hfresh hlength
  | none =>
      cases hsets : Raising.findFieldByName m Raising.returnRecordsets with
      | none =>
          simp only [hlist, hsets] at h
          cases h
          exact .nothing hlist hsets
      | some i =>
          obtain ⟨field, hfield⟩ := getElem?_of_findFieldByName hsets
          simp only [hlist, hsets, hfield] at h
          obtain ⟨f, hmutable, h⟩ := bind_ok h
          obtain ⟨sub, hsub, heq⟩ := bind_ok h
          cases heq
          have happends := parseRecordsets_appends hsub
          rw [(@subMessage_of_mutableField pool _ _ hmutable).1] at happends
          exact .sets hlist hsets hfield hmutable happends

/-- A call that fails leaves the message as it is, one that is answered reads the
result sets into it. -/
lemma spQuery_ok {db : Server} {sProcName : ProcName} {rs : ResultSet} {more : List ResultSet}
    {m m' : Message} {done : Bool}
    (h : Raising.spQuery pool stray stack sch db sProcName m rs more = .ok (done, m')) :
    if done then Read pool stray stack sch rs more m m' else m' = m := by
  rw [Raising.spQuery, Raising.query] at h
  obtain ⟨⟨parsed, s⟩, -, h⟩ := bind_ok h
  cases parsed with
  | false =>
      cases h
      rfl
  | true =>
      obtain ⟨executed, -, h⟩ := bind_ok h
      cases executed with
      | false =>
          cases h
          rfl
      | true =>
          obtain ⟨after, hread, heq⟩ := bind_ok h
          cases heq
          exact read_of_parseResultSets hread

/-- **Every field keeps its records**, and those of its result set stand behind them. -/
theorem Read.appends {rs : ResultSet} {more : List ResultSet} {m m' : Message}
    {ds : List FieldDecl} (h : Read pool stray stack sch rs more m m')
    (hm : HasDecls pool m ds) :
    HasDecls pool m' ds ∧ Appends pool stray stack sch 0 (rs :: more) (answerFields pool m)
      (answerFields pool m') := by
  cases h with
  | nothing hlist hsets =>
      refine ⟨hm, ?_⟩
      simp only [answerFields, hlist, hsets]
      exact .nil 0 (rs :: more)
  | @list i field records hlist hfield hfresh hlength =>
      obtain ⟨d, hd, hdecl⟩ := hasDecl_of_getElem? hm hfield
      have hm' := hasDecls_set hm hd (hdecl.append records)
      refine ⟨hm', ?_⟩
      have hlist' := (findFieldByName_eq hm' hm Raising.returnRecordList).trans hlist
      have hset : (m.set i (field.append records))[i]? = some (field.append records) :=
        List.getElem?_set_self (List.getElem?_eq_some_iff.mp hfield).1
      simp only [answerFields, hlist, hlist', hfield, hset, Option.toList_some]
      exact .cons hfresh hlength (.nil 1 more)
  | @sets i field f sub hlist hsets hfield hmutable hsub =>
      obtain ⟨d, hd, hdecl⟩ := hasDecl_of_getElem? hm hfield
      obtain ⟨hfields, hmessage⟩ := @subMessage_of_mutableField pool _ _ hmutable
      obtain rfl := hmessage d hdecl
      have hrecordsets := hasDecls_subMessage hdecl
      rw [hfields] at hrecordsets
      have hm' : HasDecls pool (setAt i (.message f sub) m) ds := by
        refine hasDecls_set (hasDecls_map_clearOneof hm _) hd ?_
        rw [Field.HasDecl]
        exact ⟨rfl, hsub.hasDecls hrecordsets⟩
      refine ⟨hm', ?_⟩
      have hlist' := (findFieldByName_eq hm' hm Raising.returnRecordList).trans hlist
      have hsets' := (findFieldByName_eq hm' hm Raising.returnRecordsets).trans hsets
      have hset : (setAt i (.message f sub) m)[i]? = some (.message f sub) := by
        have hlt := (List.getElem?_eq_some_iff.mp hfield).1
        rw [setAt, List.getElem?_set_self (by rw [List.length_map]; exact hlt)]
      simp only [answerFields, hlist, hlist', hsets, hsets', hfield, hset, Option.map_some,
        Option.getD_some]
      exact hsub

/-! ### Messages of which the same is written -/

/-- Two fields of which the same is written are both lists of messages, or neither
of them. -/
lemma Alike.list_or {f g : Field} (h : Alike pool f g) :
    (∃ mf elems elems', f = .repeatedMessage mf elems ∧ g = .repeatedMessage mf elems'
        ∧ writtenAll elems = writtenAll elems')
      ∨ f.NoList ∧ g.NoList := by
  obtain ⟨hwritten, d, hf, hg⟩ := h
  have hkind : ∀ {a : Field}, a.HasDecl pool d →
      (∃ mf elems, d = .repeatedMessage mf ∧ a = .repeatedMessage mf elems)
        ∨ a.NoList ∧ ∀ mf, d ≠ .repeatedMessage mf := by
    intro a ha
    cases a with
    | repeatedMessage mf elems =>
        exact .inl ⟨mf, elems, by simpa only [Field.HasDecl] using ha, rfl⟩
    | leaf l => exact .inr ⟨trivial, by simp_all [Field.HasDecl]⟩
    | unset mf => exact .inr ⟨trivial, by simp_all [Field.HasDecl]⟩
    | message mf sub => exact .inr ⟨trivial, by simp_all [Field.HasDecl]⟩
    | repeated name values => exact .inr ⟨trivial, by simp_all [Field.HasDecl]⟩
  rcases hkind hf with ⟨mf, elems, rfl, rfl⟩ | ⟨hnof, hd⟩
  · rcases hkind hg with ⟨mf', elems', heq, rfl⟩ | ⟨-, hd⟩
    · cases heq
      rw [Field.written, Field.written, Wire.repeatedMessage.injEq] at hwritten
      exact .inl ⟨mf, elems, elems', rfl, rfl, hwritten⟩
    · exact absurd rfl (hd mf)
  · rcases hkind hg with ⟨mf', elems', heq, -⟩ | ⟨hnog, -⟩
    · exact absurd heq (hd mf')
    · exact .inr ⟨hnof, hnog⟩

/-- The same records are in them. -/
lemma Alike.records {f g : Field} (h : Alike pool f g) :
    writtenAll f.records = writtenAll g.records := by
  rcases h.list_or with ⟨mf, elems, elems', rfl, rfl, heq⟩ | ⟨hf, hg⟩
  · exact heq
  · rw [hf.records, hg.records]

/-- They get the same new records. -/
lemma Alike.freshRecords_eq {f g : Field} (h : Alike pool f g) (set : ℕ) (rs : Option ResultSet) :
    freshRecords pool stray stack sch set rs f = freshRecords pool stray stack sch set rs g := by
  rcases h.list_or with ⟨mf, elems, elems', rfl, rfl, -⟩ | ⟨hf, hg⟩
  · cases rs <;> rfl
  · rw [freshRecords_of_noList hf, freshRecords_of_noList hg]

/-- The fields of `return_recordsets` in two messages. -/
lemma recordsetFields_alike {f g : Field} (h : Alike pool f g) :
    List.Forall₂ (Alike pool) (recordsetFields pool f) (recordsetFields pool g) := by
  obtain ⟨hwritten, d, hf, hg⟩ := h
  have hnil : ∀ {a : Field}, a.HasDecl pool d → (∀ mf, d ≠ .message mf) →
      recordsetFields pool a = [] := by
    intro a ha hd
    cases a with
    | unset mf => exact absurd (by simpa only [Field.HasDecl] using ha) (hd mf)
    | message mf sub =>
        rw [Field.HasDecl] at ha
        exact absurd ha.1 (hd mf)
    | leaf l => rfl
    | repeated name values => rfl
    | repeatedMessage mf elems => rfl
  cases d with
  | message mf =>
      have hdecls : ∀ {a : Field}, a.HasDecl pool (.message mf) →
          HasDecls pool (recordsetFields pool a) (pool mf.messageType) := by
        intro a ha
        have hsub := hasDecls_subMessage ha
        cases a <;> simp_all [Field.HasDecl, subMessage, recordsetFields]
      refine alike_of_written (hdecls hf) (hdecls hg) ?_
      cases f <;> cases g <;> simp_all [Field.HasDecl, Field.written, recordsetFields]
  | leaf d =>
      rw [hnil hf (by simp), hnil hg (by simp)]
      exact .nil
  | repeated name =>
      rw [hnil hf (by simp), hnil hg (by simp)]
      exact .nil
  | repeatedMessage mf =>
      rw [hnil hf (by simp), hnil hg (by simp)]
      exact .nil

/-- **The fields for the answer** in two messages of which the same is written. -/
lemma answerFields_alike {m n : Message} {ds : List FieldDecl} (hm : HasDecls pool m ds)
    (hn : HasDecls pool n ds) (h : written m = written n) :
    List.Forall₂ (Alike pool) (answerFields pool m) (answerFields pool n) := by
  have hlen : m.length = n.length := (length_of_hasDecls hm).trans (length_of_hasDecls hn).symm
  have halike := alike_of_written hm hn h
  rw [answerFields, answerFields, findFieldByName_eq hm hn, findFieldByName_eq hm hn]
  cases Raising.findFieldByName n Raising.returnRecordList with
  | some i =>
      dsimp only
      by_cases hi : i < n.length
      · have hf := List.getElem?_eq_getElem (hlen ▸ hi)
        have hg := List.getElem?_eq_getElem hi
        rw [hf, hg]
        exact .cons (alike_getElem? halike hf hg) .nil
      · rw [List.getElem?_eq_none (by omega), List.getElem?_eq_none (by omega)]
        exact .nil
  | none =>
      dsimp only
      cases Raising.findFieldByName n Raising.returnRecordsets with
      | none => exact .nil
      | some i =>
          dsimp only
          by_cases hi : i < n.length
          · have hf := List.getElem?_eq_getElem (hlen ▸ hi)
            have hg := List.getElem?_eq_getElem hi
            rw [hf, hg]
            exact recordsetFields_alike (alike_getElem? halike hf hg)
          · rw [List.getElem?_eq_none (by omega), List.getElem?_eq_none (by omega)]
            exact .nil

/-! ### A second call -/

/-- The first `k` fields get no row. -/
def NoRows (k : ℕ) (sets : List ResultSet) : Prop :=
  ∀ j rs, j < k → sets[j]? = some rs → rs.rows = []

/-- Without rows nothing is appended. -/
lemma Appends.eq_of_noRows {set : ℕ} {sets : List ResultSet} {fields fields' : List Field}
    (h : Appends pool stray stack sch set sets fields fields')
    (hrows : NoRows fields.length sets) : fields' = fields := by
  refine List.ext_getElem? fun j => ?_
  cases hf : fields[j]? with
  | none =>
      rw [List.getElem?_eq_none_iff] at hf ⊢
      rw [h.length]
      exact hf
  | some f =>
      obtain ⟨records, hfresh, hlength, hf'⟩ := h.field j f hf
      have hnil : records = [] := by
        cases hrs : sets[j]? with
        | none =>
            rw [hrs, freshRecords_none] at hfresh
            exact (Except.ok.inj hfresh).symm
        | some rs =>
            have hlen := hlength rs hrs
            rw [hrows j rs (List.getElem?_eq_some_iff.mp hf).1 hrs] at hlen
            exact List.eq_nil_of_length_eq_zero hlen
      rw [hf', hnil, f.append_nil]

/-- A setter once more, in a message of which the same is written as behind the first
one: the other members of its oneof are cleared already. -/
lemma written_setAt_again {m n : Message} {ds : List FieldDecl} (hm : HasDecls pool m ds)
    (hn : HasDecls pool n ds) {i : ℕ} {f g : Field} (hg : n[i]? = some g)
    (ho : g.oneof = f.oneof) (h : written n = written (setAt i f m)) :
    written (setAt i g n) = written n := by
  have hlen : m.length = n.length := (length_of_hasDecls hm).trans (length_of_hasDecls hn).symm
  have hi := (List.getElem?_eq_some_iff.mp hg).1
  rw [written_eq_map, written_eq_map] at h ⊢
  refine List.ext_getElem? fun j => ?_
  rw [List.getElem?_map, List.getElem?_map, getElem?_setAt hi]
  by_cases hij : i = j
  · subst hij
    rw [if_pos rfl, hg]
  · rw [if_neg hij]
    cases ha : n[j]? with
    | none => rfl
    | some a =>
        rw [Option.map_some, Option.map_some, Option.map_some, Field.clearOneof]
        by_cases hmember : (g.oneof.isSome && decide (a.oneof = g.oneof)) = true
        · -- another member: both messages carry it empty
          rw [if_pos hmember]
          obtain ⟨hsome, hsame⟩ := Bool.and_eq_true_iff.mp hmember
          replace hsame : a.oneof = g.oneof := by simpa using hsame
          obtain ⟨d, hd, hdecl⟩ := hasDecl_of_getElem? hn ha
          have hj : j < m.length := by
            have := (List.getElem?_eq_some_iff.mp ha).1
            omega
          have hb := List.getElem?_eq_getElem hj
          have hdecl' := (hasDecls_iff.mp hm).2 j _ d hb hd
          have hoa : d.oneof = g.oneof := hdecl.oneof_eq.symm.trans hsame
          have hd' : d.oneof.isSome = true := by rw [hoa, hsome]
          have hwritten := congrArg (fun ws => ws[j]?) h
          simp only [List.getElem?_map, ha, hb, getElem?_setAt (hlen ▸ hi : i < m.length),
            if_neg hij, Option.map_some, Option.some.injEq] at hwritten
          have hmember' : (f.oneof.isSome && decide (m[j].oneof = f.oneof)) = true := by
            rw [hdecl'.oneof_eq, hoa, ho, ← ho, hsome]
            simp
          rw [Field.clearOneof, if_pos hmember', hdecl'.cleared_eq hd'] at hwritten
          rw [hdecl.cleared_eq hd', hwritten]
        · rw [if_neg hmember]

/-- **A second call** leaves the message as the first one left it exactly if no row is
delivered. -/
theorem Read.again {sch' : Schedule} {rs : ResultSet} {more : List ResultSet} {m m' n n' : Message}
    {ds : List FieldDecl} (hm : HasDecls pool m ds) (hn : HasDecls pool n ds)
    (hfirst : Read pool stray stack sch rs more m m') (hwritten : written n = written m')
    (hsecond : Read pool stray stack sch' rs more n n') :
    written n' = written n ↔ NoRows (answerFields pool m).length (rs :: more) := by
  obtain ⟨hm', happends⟩ := hfirst.appends hm
  obtain ⟨hn', happends'⟩ := hsecond.appends hn
  have hlen : (answerFields pool n).length = (answerFields pool m).length :=
    (answerFields_alike hn hm' hwritten).length_eq.trans happends.length
  rw [← hlen]
  constructor
  · intro h j rs' hj hrs'
    have hf := List.getElem?_eq_getElem hj
    obtain ⟨records, hfresh, hlength, hf'⟩ := happends'.field j _ hf
    -- the records of the row would be there twice
    have hsame := (alike_getElem? (answerFields_alike hn' hn h) hf' hf).records
    rw [records_append hfresh, writtenAll_eq_map, writtenAll_eq_map, List.map_append,
      List.append_right_eq_self, List.map_eq_nil_iff] at hsame
    have hrows := hlength rs' hrs'
    rw [hsame] at hrows
    exact List.eq_nil_of_length_eq_zero hrows.symm
  · intro hrows
    cases hsecond with
    | nothing hlist hsets => rfl
    | @list i field records hlist hfield hfresh hlength =>
        have hone : (answerFields pool n).length = 1 := by
          simp [answerFields, hlist, hfield]
        rw [hrows 0 rs (by omega) rfl] at hlength
        obtain ⟨hi, rfl⟩ := List.getElem?_eq_some_iff.mp hfield
        rw [List.eq_nil_of_length_eq_zero hlength, Field.append_nil, List.set_getElem_self]
    | @sets i field f sub hlist hsets hfield hmutable hsub =>
        have hfields : answerFields pool n = recordsetFields pool field := by
          simp [answerFields, hlist, hsets, hfield]
        rw [hfields] at hrows
        rw [hsub.eq_of_noRows hrows]
        rw [findFieldByName_eq hn hm] at hlist hsets
        cases hfirst with
        | nothing _ hsets' =>
            rw [hsets] at hsets'
            cases hsets'
        | list hlist' =>
            rw [hlist] at hlist'
            cases hlist'
        | @sets i' field' f' sub' _ hsets' hfield' hmutable' _ =>
            rw [hsets] at hsets'
            cases hsets'
            -- behind the first call the field is set
            have hset : (setAt i (.message f' sub') m)[i]? = some (.message f' sub') := by
              rw [getElem?_setAt (List.getElem?_eq_some_iff.mp hfield').1, if_pos rfl]
            obtain ⟨hsame, d, hd, hd'⟩ :=
              alike_getElem? (alike_of_written hn hm' hwritten) hfield hset
            rw [Field.HasDecl] at hd'
            cases field with
            | message g sub'' =>
                cases hmutable
                rw [Field.HasDecl, hd'.1] at hd
                obtain ⟨heq, -⟩ := hd
                cases heq
                have ho : (Field.message f sub'').oneof = (Field.message f sub').oneof := rfl
                exact written_setAt_again hm hn hfield ho hwritten
            | unset g =>
                rw [Field.written, Field.written] at hsame
                cases hsame
            | leaf l => cases hmutable
            | repeated name values => cases hmutable
            | repeatedMessage g elems => cases hmutable

end Fresh

end PbEntityDb
