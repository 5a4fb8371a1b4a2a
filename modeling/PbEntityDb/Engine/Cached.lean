import PbEntityDb.Engine.RoundTrip

/-!
The indices that the first row leaves for the rows behind it.

* `indexLoop` and `indices` list what `AddFirstReturnRecord` pushes into
  `arrIndex`: for a field that is read the index of its column, and for every
  other one the index of the field before it (`firstLoop_pushed`).
* `fillRecord` is what a walk by name makes of a record; it returns exactly if
  the type fits, whatever the record holds (`addFirst_fills`).
* `addReturnRecord_eq_byName`: if every leaf has a column, the walk by index does
  what the walk by name would do on the same row, and so `ParseEntityResult`
  reads a `ResultSet` row by row (`parseEntityResult_fills`).
-/

namespace PbEntityDb

/-- The names of the columns of a row. -/
def columnNames (row : List Column) : List Text := row.map Column.name

/-- A singular field that is no message, somewhere in a message type. -/
inductive HasLeaf (pool : Pool) : Text → FieldDescriptor → Prop
  | here {messageType : Text} {d : FieldDescriptor} (h : .leaf d ∈ pool messageType) :
      HasLeaf pool messageType d
  | inside {messageType : Text} {f : MessageField} {d : FieldDescriptor}
      (h : .message f ∈ pool messageType) (hd : HasLeaf pool f.messageType d) :
      HasLeaf pool messageType d

/-! ### The indices that are pushed -/

section Indices

variable (row : List Column)

/-- What the loop of `AddFirstReturnRecord` pushes; `sub` lists what it pushes
for a message type. -/
def indexLoop (sub : Text → List ℕ) : List FieldDecl → ℕ → List ℕ
  | [], _ => []
  | .leaf d :: ds, nFieldIndex =>
      let nFieldIndex := if d.isRead then (getIndex row d.name.chars).getD nFieldIndex
        else nFieldIndex
      nFieldIndex :: indexLoop sub ds nFieldIndex
  | .message f :: ds, nFieldIndex =>
      sub f.messageType ++ nFieldIndex :: indexLoop sub ds nFieldIndex
  | .repeated _ :: ds, nFieldIndex => indexLoop sub ds nFieldIndex
  | .repeatedMessage _ :: ds, nFieldIndex => indexLoop sub ds nFieldIndex

/-- What `AddFirstReturnRecord` pushes for a message type. -/
def indices (pool : Pool) : ℕ → Text → List ℕ
  | 0, _ => []
  | stack + 1, messageType => indexLoop row (indices pool stack) (pool messageType) 0

end Indices

/-- Rows with the same columns have them at the same indices. -/
lemma getIndex_eq {row row' : List Column} (h : columnNames row = columnNames row') (name : Text) :
    getIndex row name = getIndex row' name := by
  have hfind : ∀ r : List Column,
      getIndex r name = ((columnNames r).findIdx? fun c => c = name).map (· + 1) := by
    intro r
    rw [getIndex, columnNames, List.findIdx?_map]
    rfl
  rw [hfind, hfind, h]

/-- The column of a name, by its index. -/
lemma cellAt_getIndex {row : List Column} {name : Text} (h : name ∈ columnNames row) :
    ∃ i cell, getIndex row name = some i ∧ cellAt row i = .ok cell
      ∧ cellNamed row name = some cell := by
  induction row with
  | nil => simp [columnNames] at h
  | cons c row ih =>
      by_cases hc : c.name = name
      · refine ⟨1, c.cell, ?_, by simp [cellAt], by simp [cellNamed, hc]⟩
        simp [getIndex, List.findIdx?_cons, hc]
      · have hmem : name ∈ columnNames row := by
          rw [columnNames, List.map_cons, List.mem_cons] at h
          exact h.resolve_left fun e => hc e.symm
        obtain ⟨i, cell, hi, hcell, hnamed⟩ := ih hmem
        have hpos : i ≠ 0 := by
          rintro rfl
          simp [cellAt] at hcell
        refine ⟨i + 1, cell, ?_, ?_, ?_⟩
        · rw [getIndex] at hi ⊢
          rw [List.findIdx?_cons]
          simp only [hc, decide_false, Bool.false_eq_true, if_false, Option.map_map]
          obtain ⟨j, hj, rfl⟩ := Option.map_eq_some_iff.mp hi
          rw [hj]
          rfl
        · rw [cellAt, if_neg hpos] at hcell
          obtain ⟨j, rfl⟩ := Nat.exists_eq_succ_of_ne_zero hpos
          simpa [cellAt] using hcell
        · rw [cellNamed] at hnamed ⊢
          rw [List.find?_cons]
          simpa [hc] using hnamed

/-- The only fault of a getter by index is its exception. -/
lemma cellAt_error {row : List Column} {nField : ℕ} {e : Fault}
    (h : cellAt row nField = .error e) : e = .columnIndex := by
  rw [cellAt] at h
  split at h
  · cases h
    rfl
  · split at h <;> cases h
    rfl

/-! ### What a walk writes -/

section Fill

variable (pool : Pool) (stray : Stray) (row : List Column)

/-- What the loop of a walk by name makes of a record; `sub` does it for the
messages in it. -/
def fillLoop (sub : Text → Message → Message) : List FieldDecl → ℕ → Message → Message
  | [], _, record => record
  | .leaf d :: ds, i, record =>
      match readValue stray d (cellNamed row d.name.chars) with
      | none => fillLoop sub ds (i + 1) record
      | some v =>
          fillLoop sub ds (i + 1)
            (setAt i (.leaf (if h : v.cppType = d.type.cppType then ⟨d, true, v, h⟩ else d.unset))
              record)
  | .message f :: ds, i, record =>
      fillLoop sub ds (i + 1)
        (setAt i (.message f (sub f.messageType (mutableMessage pool i f record))) record)
  | .repeated _ :: ds, i, record => fillLoop sub ds (i + 1) record
  | .repeatedMessage _ :: ds, i, record => fillLoop sub ds (i + 1) record

/-- What a walk by name makes of a record. -/
def fillRecord : ℕ → Text → Message → Message
  | 0, _, record => record
  | stack + 1, messageType, record =>
      fillLoop pool stray row (fillRecord stack) (pool messageType) 0 record

/-- **A walk by name** returns exactly if the type fits, and then it has filled
the record. -/
lemma firstLoop_fills {sub : Text → Message → ReadState → Except Fault (Message × ReadState)}
    {subSlots : Text → Option (List FieldDecl)} {subFill : Text → Message → Message}
    (hsub : ∀ messageType record st, st.nIndex ≤ arrIndexSize →
      RunsAs (sub messageType record st) (subSlots messageType) st.nIndex
        (subFill messageType record))
    (ds : List FieldDecl) (i : ℕ) (record : Message) (nFieldIndex : ℕ) (st : ReadState)
    (hst : st.nIndex ≤ arrIndexSize) :
    RunsAs (firstLoop pool stray row sub ds i record nFieldIndex st) (slotLoop subSlots ds)
      st.nIndex (fillLoop pool stray row subFill ds i record) := by
  induction ds generalizing i record nFieldIndex st with
  | nil =>
      rw [slotLoop, RunsAs.some_iff, if_pos ⟨by simpa using hst, rfl⟩]
      exact ⟨st, rfl, rfl⟩
  | cons d ds ih =>
      cases d with
      | leaf d =>
          have hread := readValue_isSome stray d (cellNamed row d.name.chars)
          rw [firstLoop, slotLoop, fillLoop]
          cases hv : readValue stray d (cellNamed row d.name.chars) with
          | none =>
              have hw : noFixed [.leaf d] = true := by
                rw [hv] at hread
                simp [noFixed, FieldDescriptor.not_isFixed hread.symm]
              refine RunsAs.cons hw st nFieldIndex fun st' hst' hle => ?_
              rw [← hst']
              exact ih (i + 1) record nFieldIndex st' hle
          | some v =>
              obtain ⟨hfixed, hset⟩ := setter_readValue hv
              cases hd : d.isFixed with
              | true =>
                  have hw : noFixed [.leaf d] = false := by simp [noFixed, hd]
                  simp only [hfixed hd]
                  exact RunsAs.error hw
              | false =>
                  have hw : noFixed [.leaf d] = true := by simp [noFixed, hd]
                  obtain ⟨hty, hok⟩ := hset hd
                  simp only [hok, dif_pos hty]
                  refine RunsAs.cons hw st _ fun st' hst' hle => ?_
                  rw [← hst']
                  exact ih (i + 1) _ _ st' hle
      | message f =>
          rw [firstLoop, slotLoop, fillLoop]
          refine RunsAs.append (hsub f.messageType _ st hst) fun st' xs _ hst' hle => ?_
          refine RunsAs.cons rfl st' _ fun st'' hst'' hle' => ?_
          rw [← hst'']
          exact ih (i + 1) _ nFieldIndex st'' hle'
      | repeated name => exact ih (i + 1) record nFieldIndex st hst
      | repeatedMessage f => exact ih (i + 1) record nFieldIndex st hst

theorem addFirst_fills (stack : ℕ) (messageType : Text) (record : Message) (st : ReadState)
    (hst : st.nIndex ≤ arrIndexSize) :
    RunsAs (addFirstReturnRecord pool stray row stack messageType record st)
      (slots pool stack messageType) st.nIndex
      (fillRecord pool stray row stack messageType record) := by
  induction stack generalizing messageType record st with
  | zero => exact fun x => by simp [addFirstReturnRecord]
  | succ stack ih => exact firstLoop_fills pool stray row ih (pool messageType) 0 record 0 st hst

/-! ### What a walk caches -/

/-- The walk has pushed `xs` behind the first `st.nIndex` entries. -/
def Pushed (st : ReadState) (xs : List ℕ) (st' : ReadState) : Prop :=
  st'.arrIndex.length = arrIndexSize ∧ st'.nIndex ≤ arrIndexSize
    ∧ st'.nIndex = st.nIndex + xs.length
    ∧ st'.arrIndex.take st'.nIndex = st.arrIndex.take st.nIndex ++ xs

lemma Pushed.nil {st : ReadState} (hlen : st.arrIndex.length = arrIndexSize)
    (hle : st.nIndex ≤ arrIndexSize) : Pushed st [] st :=
  ⟨hlen, hle, rfl, (List.append_nil _).symm⟩

lemma Pushed.trans {st st' st'' : ReadState} {xs ys : List ℕ} (h : Pushed st xs st')
    (h' : Pushed st' ys st'') : Pushed st (xs ++ ys) st'' := by
  obtain ⟨-, -, hn, htake⟩ := h
  obtain ⟨hlen, hle, hn', htake'⟩ := h'
  refine ⟨hlen, hle, ?_, ?_⟩
  · rw [List.length_append]
    omega
  · rw [htake', htake, List.append_assoc]

/-- A slot that is taken pushes its index. -/
lemma storeIndex_pushed {st st' : ReadState} {v : ℕ} (h : storeIndex st v = .ok st')
    (hlen : st.arrIndex.length = arrIndexSize) : Pushed st [v] st' := by
  rw [storeIndex] at h
  by_cases hroom : st.nIndex < arrIndexSize
  · rw [if_pos hroom, Except.ok.injEq] at h
    subst h
    refine ⟨by rw [List.length_set, hlen], hroom, rfl, ?_⟩
    have hlt : st.nIndex < st.arrIndex.length := by omega
    show (st.arrIndex.set st.nIndex v).take (st.nIndex + 1) = _
    rw [List.take_add_one, List.take_set_of_le (le_refl _), List.getElem?_set_self hlt]
    rfl
  · rw [if_neg hroom] at h
    cases h

/-- **The loop pushes the indices of its fields.** -/
lemma firstLoop_pushed {sub : Text → Message → ReadState → Except Fault (Message × ReadState)}
    {subIndices : Text → List ℕ}
    (hsub : ∀ messageType record st r st', sub messageType record st = .ok (r, st') →
      st.arrIndex.length = arrIndexSize → st.nIndex ≤ arrIndexSize →
        Pushed st (subIndices messageType) st')
    (ds : List FieldDecl) (i : ℕ) (record : Message) (nFieldIndex : ℕ) (st : ReadState)
    {r : Message} {st' : ReadState}
    (h : firstLoop pool stray row sub ds i record nFieldIndex st = .ok (r, st'))
    (hlen : st.arrIndex.length = arrIndexSize) (hle : st.nIndex ≤ arrIndexSize) :
    Pushed st (indexLoop row subIndices ds nFieldIndex) st' := by
  induction ds generalizing i record nFieldIndex st with
  | nil =>
      cases h
      exact Pushed.nil hlen hle
  | cons d ds ih =>
      cases d with
      | leaf d =>
          have hread := readValue_isSome stray d (cellNamed row d.name.chars)
          rw [firstLoop] at h
          rw [indexLoop, ← hread]
          cases hv : readValue stray d (cellNamed row d.name.chars) with
          | none =>
              rw [hv] at h
              obtain ⟨st₁, hstore, hrest⟩ := bind_ok h
              have hpush := storeIndex_pushed hstore hlen
              exact hpush.trans (ih _ _ _ st₁ hrest hpush.1 hpush.2.1)
          | some v =>
              rw [hv] at h
              obtain ⟨f, -, h⟩ := bind_ok h
              obtain ⟨st₁, hstore, hrest⟩ := bind_ok h
              have hpush := storeIndex_pushed hstore hlen
              exact hpush.trans (ih _ _ _ st₁ hrest hpush.1 hpush.2.1)
      | message f =>
          rw [firstLoop] at h
          obtain ⟨⟨pSub, st₁⟩, hwalk, h⟩ := bind_ok h
          obtain ⟨st₂, hstore, hrest⟩ := bind_ok h
          have hinner := hsub _ _ _ _ _ hwalk hlen hle
          have hpush := storeIndex_pushed hstore hinner.1
          exact hinner.trans (hpush.trans (ih _ _ _ st₂ hrest hpush.1 hpush.2.1))
      | repeated name => exact ih _ _ _ st h hlen hle
      | repeatedMessage f => exact ih _ _ _ st h hlen hle

theorem addFirst_pushed (stack : ℕ) {messageType : Text} {record r : Message} {st st' : ReadState}
    (h : addFirstReturnRecord pool stray row stack messageType record st = .ok (r, st'))
    (hlen : st.arrIndex.length = arrIndexSize) (hle : st.nIndex ≤ arrIndexSize) :
    Pushed st (indices row pool stack messageType) st' := by
  induction stack generalizing messageType record st r st' with
  | zero => simp [addFirstReturnRecord] at h
  | succ stack ih =>
      have hsub : ∀ messageType record st r st',
          addFirstReturnRecord pool stray row stack messageType record st = .ok (r, st') →
          st.arrIndex.length = arrIndexSize → st.nIndex ≤ arrIndexSize →
            Pushed st (indices row pool stack messageType) st' :=
        fun _ _ _ _ _ hwalk => ih hwalk
      exact firstLoop_pushed pool stray row hsub _ _ _ _ _ h hlen hle

end Fill

/-! ### The walk by index -/

section ByIndex

variable (pool : Pool) (stray : Stray) (row : List Column)

/-- Every leaf among the slots that is read has a column. -/
def HasColumns (ws : List FieldDecl) : Prop :=
  ∀ d, .leaf d ∈ ws → d.isRead = true → d.name.chars ∈ columnNames row

/-- The entries behind the first `n` ones begin with `xs`. -/
def Holds (arrIndex : List ℕ) (n : ℕ) (xs : List ℕ) : Prop := xs <+: arrIndex.drop n

lemma Holds.append {arrIndex : List ℕ} {n : ℕ} {xs ys : List ℕ}
    (h : Holds arrIndex n (xs ++ ys)) :
    Holds arrIndex n xs ∧ Holds arrIndex (n + xs.length) ys := by
  obtain ⟨rest, hrest⟩ := h
  refine ⟨⟨ys ++ rest, by rw [← hrest, List.append_assoc]⟩, rest, ?_⟩
  rw [← List.drop_drop, ← hrest, List.append_assoc, List.drop_left]

lemma Holds.head {arrIndex : List ℕ} {n x : ℕ} {xs : List ℕ} (h : Holds arrIndex n (x :: xs)) :
    arrIndex[n]? = some x ∧ Holds arrIndex (n + 1) xs := by
  have happ := Holds.append (show Holds arrIndex n ([x] ++ xs) from h)
  obtain ⟨rest, hrest⟩ := happ.1
  refine ⟨?_, happ.2⟩
  rw [← List.head?_drop, ← hrest]
  rfl

/-- The slots of the fields behind the first one. -/
lemma slotLoop_leaf {sub : Text → Option (List FieldDecl)} {d : FieldDescriptor}
    {ds ws : List FieldDecl} (h : slotLoop sub (.leaf d :: ds) = some ws) :
    ∃ ws', slotLoop sub ds = some ws' ∧ ws = .leaf d :: ws' := by
  rw [slotLoop] at h
  obtain ⟨ws', hws', rfl⟩ := Option.map_eq_some_iff.mp h
  exact ⟨ws', hws', rfl⟩

/-- The slots of a message field and those of the fields behind it. -/
lemma slotLoop_message {sub : Text → Option (List FieldDecl)} {f : MessageField}
    {ds ws : List FieldDecl} (h : slotLoop sub (.message f :: ds) = some ws) :
    ∃ xs ws', sub f.messageType = some xs ∧ slotLoop sub ds = some ws'
      ∧ ws = xs ++ .message f :: ws' := by
  rw [slotLoop] at h
  obtain ⟨xs, hxs, h⟩ := Option.bind_eq_some_iff.mp h
  obtain ⟨ys, hys, rfl⟩ := Option.map_eq_some_iff.mp h
  obtain ⟨ws', hws', rfl⟩ := Option.map_eq_some_iff.mp hys
  exact ⟨xs, ws', hxs, hws', rfl⟩

/-- A leaf is passed if the getter by its index does not raise an exception. -/
lemma returnLoop_passes (sub : Text → Message → ReadState → Except Fault (Message × ReadState))
    {d : FieldDescriptor} (hd : d.isFixed = false) (ds : List FieldDecl) (i : ℕ) (record : Message)
    {arrIndex : List ℕ} {n x : ℕ} (hx : arrIndex[n]? = some x)
    (h : d.isRead = true → ∃ cell, cellAt row x = .ok cell) :
    ∃ record', returnLoop pool stray row sub (.leaf d :: ds) i record ⟨arrIndex, n⟩
      = returnLoop pool stray row sub ds (i + 1) record' ⟨arrIndex, n + 1⟩ := by
  rw [returnLoop]
  by_cases hread : d.isRead = true
  · obtain ⟨cell, hcell⟩ := h hread
    rw [if_pos hread, hx]
    simp only [hcell, bind, Except.bind]
    cases hv : readValue stray d (some cell) with
    | none => exact ⟨record, rfl⟩
    | some v =>
        obtain ⟨hty, hok⟩ := (setter_readValue hv).2 hd
        simp only [hok]
        exact ⟨_, rfl⟩
  · rw [if_neg hread]
    exact ⟨record, rfl⟩

/-- The walk is left at a leaf if the getter raises an exception. -/
lemma returnLoop_raised (sub : Text → Message → ReadState → Except Fault (Message × ReadState))
    {d : FieldDescriptor} (hread : d.isRead = true) (ds : List FieldDecl) (i : ℕ)
    (record : Message) {arrIndex : List ℕ} {n x : ℕ} (hx : arrIndex[n]? = some x) {e : Fault}
    (h : cellAt row x = .error e) :
    returnLoop pool stray row sub (.leaf d :: ds) i record ⟨arrIndex, n⟩ = .error e := by
  rw [returnLoop, if_pos hread, hx]
  simp only [h, bind, Except.bind]

/-- **The loop by index** fills the record as the one by name does, if it finds
the indices of that one in `arrIndex` and all columns are there. -/
lemma returnLoop_fills {sub : Text → Message → ReadState → Except Fault (Message × ReadState)}
    {subSlots : Text → Option (List FieldDecl)} {subIndices : Text → List ℕ}
    {subFill : Text → Message → Message} {arrIndex : List ℕ}
    (hsub : ∀ messageType record ws n, subSlots messageType = some ws → noFixed ws = true →
      HasColumns row ws → Holds arrIndex n (subIndices messageType) →
        sub messageType record ⟨arrIndex, n⟩
          = .ok (subFill messageType record, ⟨arrIndex, n + (subIndices messageType).length⟩))
    (ds : List FieldDecl) (i : ℕ) (record : Message) (nFieldIndex n : ℕ) {ws : List FieldDecl}
    (hws : slotLoop subSlots ds = some ws) (hfixed : noFixed ws = true)
    (hcolumns : HasColumns row ws)
    (hholds : Holds arrIndex n (indexLoop row subIndices ds nFieldIndex)) :
    returnLoop pool stray row sub ds i record ⟨arrIndex, n⟩
      = .ok (fillLoop pool stray row subFill ds i record,
          ⟨arrIndex, n + (indexLoop row subIndices ds nFieldIndex).length⟩) := by
  induction ds generalizing i record nFieldIndex n ws with
  | nil => rfl
  | cons d ds ih =>
      cases d with
      | leaf d =>
          obtain ⟨ws', hws', rfl⟩ := slotLoop_leaf hws
          rw [← List.singleton_append, noFixed_append, Bool.and_eq_true] at hfixed
          have hcolumns' : HasColumns row ws' :=
            fun d' hd' => hcolumns d' (List.mem_cons_of_mem _ hd')
          have hread := readValue_isSome stray d (cellNamed row d.name.chars)
          rw [indexLoop] at hholds ⊢
          obtain ⟨hhead, htail⟩ := hholds.head
          have hlen : ∀ (x : ℕ) (xs : List ℕ), n + (x :: xs).length = n + 1 + xs.length := by
            intro x xs
            rw [List.length_cons]
            omega
          rw [returnLoop, fillLoop, hlen]
          cases hd : d.isRead with
          | false =>
              rw [hd, Option.isSome_eq_false_iff, Option.isNone_iff_eq_none] at hread
              simp only [hread]
              rw [hd] at htail
              exact ih _ _ _ _ hws' hfixed.2 hcolumns' htail
          | true =>
              obtain ⟨j, cell, hj, hcell, hnamed⟩ :=
                cellAt_getIndex (hcolumns d List.mem_cons_self hd)
              rw [hd, if_pos rfl, hj] at hhead htail
              rw [hd, Option.isSome_iff_exists] at hread
              obtain ⟨v, hv⟩ := hread
              have hdFixed : d.isFixed = false := by simpa [noFixed] using hfixed.1
              obtain ⟨hty, hok⟩ := (setter_readValue hv).2 hdFixed
              rw [hv, if_pos rfl, if_pos rfl]
              rw [hnamed] at hv
              simp only [hhead, Option.getD_some, hcell, bind, Except.bind, hv, hok, dif_pos hty,
                hj]
              exact ih _ _ _ _ hws' hfixed.2 hcolumns' htail
      | message f =>
          obtain ⟨xs, ws', hxs, hws', rfl⟩ := slotLoop_message hws
          rw [noFixed_append, ← List.singleton_append, noFixed_append, Bool.and_eq_true,
            Bool.and_eq_true] at hfixed
          rw [indexLoop] at hholds ⊢
          obtain ⟨hinner, hrest⟩ := hholds.append
          obtain ⟨-, htail⟩ := hrest.head
          have hwalk := hsub f.messageType (mutableMessage pool i f record) xs n hxs hfixed.1
            (fun d hd => hcolumns d (List.mem_append_left _ hd)) hinner
          have hlen : n + (subIndices f.messageType ++ nFieldIndex
                :: indexLoop row subIndices ds nFieldIndex).length
              = n + (subIndices f.messageType).length + 1
                + (indexLoop row subIndices ds nFieldIndex).length := by
            rw [List.length_append, List.length_cons]
            omega
          rw [returnLoop, fillLoop, hwalk, hlen]
          exact ih _ _ _ _ hws' hfixed.2.2
            (fun d hd => hcolumns d (List.mem_append_right _ (List.mem_cons_of_mem _ hd))) htail
      | repeated name => exact ih _ _ _ _ hws hfixed hcolumns hholds
      | repeatedMessage f => exact ih _ _ _ _ hws hfixed hcolumns hholds

theorem addReturn_fills (stack : ℕ) {messageType : Text} (record : Message) {ws : List FieldDecl}
    {arrIndex : List ℕ} (n : ℕ) (hws : slots pool stack messageType = some ws)
    (hfixed : noFixed ws = true) (hcolumns : HasColumns row ws)
    (hholds : Holds arrIndex n (indices row pool stack messageType)) :
    addReturnRecord pool stray row stack messageType record ⟨arrIndex, n⟩
      = .ok (fillRecord pool stray row stack messageType record,
          ⟨arrIndex, n + (indices row pool stack messageType).length⟩) := by
  induction stack generalizing messageType record ws n with
  | zero => simp [slots] at hws
  | succ stack ih =>
      have hsub : ∀ messageType record ws n, slots pool stack messageType = some ws →
          noFixed ws = true → HasColumns row ws →
          Holds arrIndex n (indices row pool stack messageType) →
            addReturnRecord pool stray row stack messageType record ⟨arrIndex, n⟩
              = .ok (fillRecord pool stray row stack messageType record,
                  ⟨arrIndex, n + (indices row pool stack messageType).length⟩) :=
        fun _ record _ n hws hfixed hcolumns hholds => ih record n hws hfixed hcolumns hholds
      exact returnLoop_fills pool stray row hsub _ _ _ _ _ hws hfixed hcolumns hholds

end ByIndex

/-! ### Result sets -/

/-- A result set: the names of its columns and its rows. -/
structure ResultSet where
  names : List Text
  rows : List (List Column)
  named : ∀ row ∈ rows, columnNames row = names

/-- `arrIndex` and `nIndex` before the first row. -/
def ReadState.start : ReadState := ⟨List.replicate arrIndexSize 0, 0⟩

lemma indexLoop_eq {row row' : List Column} (h : columnNames row = columnNames row')
    {sub sub' : Text → List ℕ} (hsub : sub = sub') (ds : List FieldDecl) (nFieldIndex : ℕ) :
    indexLoop row sub ds nFieldIndex = indexLoop row' sub' ds nFieldIndex := by
  subst hsub
  induction ds generalizing nFieldIndex with
  | nil => rfl
  | cons d ds ih => cases d <;> simp only [indexLoop, getIndex_eq h, ih]

lemma indices_eq {row row' : List Column} (h : columnNames row = columnNames row') (pool : Pool)
    (stack : ℕ) : indices row pool stack = indices row' pool stack := by
  induction stack with
  | zero => rfl
  | succ stack ih =>
      funext messageType
      exact indexLoop_eq h ih _ _

/-- The slots of the fields of a list are those fields and the slots of the
message fields. -/
lemma mem_slotLoop {sub : Text → Option (List FieldDecl)} {ds ws : List FieldDecl}
    (h : slotLoop sub ds = some ws) (d : FieldDescriptor) :
    .leaf d ∈ ws ↔ .leaf d ∈ ds
      ∨ ∃ f xs, .message f ∈ ds ∧ sub f.messageType = some xs ∧ .leaf d ∈ xs := by
  induction ds generalizing ws with
  | nil =>
      cases h
      simp
  | cons w ds ih =>
      cases w with
      | leaf d' =>
          obtain ⟨ws', hws', rfl⟩ := slotLoop_leaf h
          simp [ih hws', or_assoc]
      | message f =>
          obtain ⟨xs, ws', hxs, hws', rfl⟩ := slotLoop_message h
          rw [List.mem_append, List.mem_cons, ih hws']
          constructor
          · rintro (hmem | hmem | hmem | ⟨f', ys, hf', hys, hmem⟩)
            · exact .inr ⟨f, xs, List.mem_cons_self, hxs, hmem⟩
            · cases hmem
            · exact .inl (List.mem_cons_of_mem _ hmem)
            · exact .inr ⟨f', ys, List.mem_cons_of_mem _ hf', hys, hmem⟩
          · rintro (hmem | ⟨f', ys, hf', hys, hmem⟩)
            · exact .inr (.inr (.inl (List.mem_of_ne_of_mem (by simp) hmem)))
            · rcases List.mem_cons.mp hf' with heq | hf'
              · cases heq
                rw [hxs] at hys
                cases hys
                exact .inl hmem
              · exact .inr (.inr (.inr ⟨f', ys, hf', hys, hmem⟩))
      | repeated name =>
          rw [slotLoop] at h
          simp [ih h]
      | repeatedMessage f =>
          rw [slotLoop] at h
          simp [ih h]

/-- The leaves among the slots are those of the type. -/
lemma mem_slots {pool : Pool} {depth : ℕ} {messageType : Text} {ws : List FieldDecl}
    (h : slots pool depth messageType = some ws) (d : FieldDescriptor) :
    .leaf d ∈ ws ↔ HasLeaf pool messageType d := by
  induction depth generalizing messageType ws with
  | zero => simp [slots] at h
  | succ depth ih =>
      rw [mem_slotLoop h]
      constructor
      · rintro (hmem | ⟨f, xs, hf, hxs, hmem⟩)
        · exact .here hmem
        · exact .inside hf ((ih hxs).mp hmem)
      · intro hd
        cases hd with
        | here hmem => exact .inl hmem
        | @inside _ f _ hf hd =>
            have hsome : (slotLoop (slots pool depth) (pool messageType)).isSome = true :=
              Option.isSome_of_eq_some h
            obtain ⟨xs, hxs⟩ :=
              Option.isSome_iff_exists.mp ((slotLoop_isSome_iff _ _).mp hsome f hf)
            exact .inr ⟨f, xs, hf, hxs, (ih hxs).mpr hd⟩

section Rows

variable (pool : Pool) (stray : Stray)

/-- A first row that was read leaves the indices of the type in `arrIndex`. -/
lemma addFirst_ok {stack : ℕ} {messageType : Text} {row : List Column} {record r : Message}
    {st : ReadState}
    (h : addFirstReturnRecord pool stray row stack messageType record .start = .ok (r, st)) :
    r = fillRecord pool stray row stack messageType record
      ∧ Holds st.arrIndex 0 (indices row pool stack messageType)
      ∧ ∃ ws, slots pool stack messageType = some ws ∧ ws.length ≤ arrIndexSize
          ∧ noFixed ws = true := by
  have hrun := addFirst_fills pool stray row stack messageType record .start (Nat.zero_le _)
  have hlen : ReadState.start.arrIndex.length = arrIndexSize := List.length_replicate ..
  obtain ⟨-, -, -, htake⟩ := addFirst_pushed pool stray row stack h hlen (Nat.zero_le _)
  have hprefix : indices row pool stack messageType <+: st.arrIndex := by
    have hstart : ReadState.start.arrIndex.take ReadState.start.nIndex = [] := rfl
    rw [hstart, List.nil_append] at htake
    exact htake ▸ List.take_prefix _ _
  rw [h] at hrun
  cases hws : slots pool stack messageType with
  | none =>
      rw [hws] at hrun
      exact absurd rfl (hrun (r, st))
  | some ws =>
      have hstart : ReadState.start.nIndex = 0 := rfl
      rw [hws, RunsAs.some_iff, hstart, Nat.zero_add] at hrun
      by_cases hfits : ws.length ≤ arrIndexSize ∧ noFixed ws = true
      · rw [if_pos hfits] at hrun
        obtain ⟨st', heq, -⟩ := hrun
        cases heq
        exact ⟨rfl, hprefix, ws, rfl, hfits⟩
      · rw [if_neg hfits] at hrun
        exact absurd rfl (hrun (r, st))

/-- A row of a type that fits is read. -/
lemma addFirst_of_fits {stack : ℕ} {messageType : Text} {ws : List FieldDecl}
    (hws : slots pool stack messageType = some ws) (hlen : ws.length ≤ arrIndexSize)
    (hfixed : noFixed ws = true) (row : List Column) (record : Message) :
    ∃ st, addFirstReturnRecord pool stray row stack messageType record .start
      = .ok (fillRecord pool stray row stack messageType record, st) := by
  have hrun := addFirst_fills pool stray row stack messageType record .start (Nat.zero_le _)
  have hstart : ReadState.start.nIndex = 0 := rfl
  rw [hws, RunsAs.some_iff, hstart, Nat.zero_add, if_pos ⟨hlen, hfixed⟩] at hrun
  obtain ⟨st, hst, -⟩ := hrun
  exact ⟨st, hst⟩

end Rows

/-- **The walk by index does what the walk by name would do.** If every leaf of
the type has a column, then on each row behind the first one `AddReturnRecord`
leaves the record that `AddFirstReturnRecord` would leave on this row. -/
theorem addReturnRecord_eq_byName (pool : Pool) (stray : Stray) (stack : ℕ) (messageType : Text)
    (rs : ResultSet) (first : List Column) (rest : List (List Column))
    (hrows : rs.rows = first :: rest)
    (hcolumns : ∀ d, HasLeaf pool messageType d → d.name.chars ∈ rs.names)
    (record₀ r₀ : Message) (st : ReadState)
    (hfirst : addFirstReturnRecord pool stray first stack messageType record₀ .start
      = .ok (r₀, st)) :
    ∀ row ∈ rest, ∀ record, ∃ r st₁ st₂,
      addReturnRecord pool stray row stack messageType record ⟨st.arrIndex, 0⟩ = .ok (r, st₁)
        ∧ addFirstReturnRecord pool stray row stack messageType record .start = .ok (r, st₂) := by
  intro row hrow record
  obtain ⟨-, hholds, ws, hws, hlen, hfixed⟩ := addFirst_ok pool stray hfirst
  have hnames : columnNames row = columnNames first := by
    rw [rs.named row (by rw [hrows]; exact List.mem_cons_of_mem _ hrow),
      rs.named first (by rw [hrows]; exact List.mem_cons_self)]
  have hnamed : columnNames row = rs.names :=
    rs.named row (by rw [hrows]; exact List.mem_cons_of_mem _ hrow)
  have hcolumns' : HasColumns row ws :=
    fun d hd _ => hnamed ▸ hcolumns d ((mem_slots hws d).mp hd)
  rw [← indices_eq hnames] at hholds
  obtain ⟨st₂, hbyName⟩ := addFirst_of_fits pool stray hws hlen hfixed row record
  exact ⟨_, _, st₂, addReturn_fills pool stray row stack record 0 hws hfixed hcolumns' hholds,
    hbyName⟩

/-- Two accounts in a result set. -/
def accountRows : ResultSet where
  names := [accountId.chars, accountLevel.chars]
  rows :=
    [[⟨accountId.chars, .long 5⟩, ⟨accountLevel.chars, .long 7⟩],
      [⟨accountId.chars, .long 6⟩, ⟨accountLevel.chars, .long 8⟩]]
  named := by decide

/-- The leaves of an account are its two fields. -/
lemma hasLeaf_account {d : FieldDescriptor} (h : HasLeaf accountPool account.chars d) :
    d = .ofInt32 accountId ∨ d = .ofInt32 accountLevel := by
  cases h with
  | here h => simpa [accountPool] using h
  | inside h => simp [accountPool] at h

/-- The second account is read as by name. -/
theorem addReturnRecord_account : ∃ r₀ st, addFirstReturnRecord accountPool zeroStray
      [⟨accountId.chars, .long 5⟩, ⟨accountLevel.chars, .long 7⟩] 1 account.chars
      (accountEntity 0 0) .start = .ok (r₀, st)
    ∧ ∀ row ∈ [[⟨accountId.chars, .long 6⟩, ⟨accountLevel.chars, .long 8⟩]], ∀ record,
      ∃ r st₁ st₂,
        addReturnRecord accountPool zeroStray row 1 account.chars record ⟨st.arrIndex, 0⟩
            = .ok (r, st₁)
          ∧ addFirstReturnRecord accountPool zeroStray row 1 account.chars record .start
            = .ok (r, st₂) := by
  refine ⟨_, _, rfl, ?_⟩
  refine addReturnRecord_eq_byName accountPool zeroStray 1 account.chars accountRows _ _ rfl ?_
    (accountEntity 0 0) _ _ rfl
  intro d hd
  rcases hasLeaf_account hd with rfl | rfl
  · exact List.mem_cons_self
  · exact List.mem_cons_of_mem _ List.mem_cons_self

/-! ### Whole result sets -/

section Whole

variable (pool : Pool) (stray : Stray)

/-- Every row read by name into the same record. -/
def parseByName (stack : ℕ) (messageType : Text) :
    Message → List (List Column) → Except Fault (List Message)
  | _, [] => .ok []
  | record, row :: rows => do
      let (record, _) ← addFirstReturnRecord pool stray row stack messageType record .start
      let vResult ← parseByName stack messageType record rows
      .ok (record :: vResult)

/-- The records that the rows leave one after the other. -/
def fillRows (stack : ℕ) (messageType : Text) : Message → List (List Column) → List Message
  | _, [] => []
  | record, row :: rows =>
      fillRecord pool stray row stack messageType record
        :: fillRows stack messageType (fillRecord pool stray row stack messageType record) rows

variable {pool} {stack : ℕ} {messageType : Text} {ws : List FieldDecl}

lemma parseByName_fills (hws : slots pool stack messageType = some ws)
    (hlen : ws.length ≤ arrIndexSize) (hfixed : noFixed ws = true) (record : Message)
    (rows : List (List Column)) :
    parseByName pool stray stack messageType record rows
      = .ok (fillRows pool stray stack messageType record rows) := by
  induction rows generalizing record with
  | nil => rfl
  | cons row rows ih =>
      obtain ⟨st, hst⟩ := addFirst_of_fits pool stray hws hlen hfixed row record
      rw [parseByName, hst, fillRows]
      show (parseByName pool stray stack messageType _ rows).bind _ = _
      rw [ih]
      rfl

lemma moreRecords_fills {first : List Column} {arrIndex : List ℕ}
    (hws : slots pool stack messageType = some ws) (hfixed : noFixed ws = true)
    (hcolumns : HasColumns first ws)
    (hholds : Holds arrIndex 0 (indices first pool stack messageType))
    (rows : List (List Column)) (hnames : ∀ row ∈ rows, columnNames row = columnNames first)
    (record : Message) :
    moreRecords pool stray stack messageType arrIndex record rows
      = .ok (fillRows pool stray stack messageType record rows) := by
  induction rows generalizing record with
  | nil => rfl
  | cons row rows ih =>
      have hrow := hnames row List.mem_cons_self
      have hholds' : Holds arrIndex 0 (indices row pool stack messageType) :=
        indices_eq hrow pool stack ▸ hholds
      have hcolumns' : HasColumns row ws := fun d hd hread => hrow ▸ hcolumns d hd hread
      have hwalk := addReturn_fills pool stray row stack record 0 hws hfixed hcolumns' hholds'
      rw [moreRecords, hwalk, fillRows]
      show (moreRecords pool stray stack messageType _ _ rows).bind _ = _
      rw [ih fun r hr => hnames r (List.mem_cons_of_mem _ hr)]
      rfl

/-- **A result set with all columns** is read row by row. -/
theorem parseEntityResult_fills (hws : slots pool stack messageType = some ws)
    (hlen : ws.length ≤ arrIndexSize) (hfixed : noFixed ws = true) (rs : ResultSet)
    (hcolumns : ∀ d, HasLeaf pool messageType d → d.isRead = true → d.name.chars ∈ rs.names)
    (record : Message) :
    parseEntityResult pool stray stack messageType record rs.rows
      = .ok (fillRows pool stray stack messageType record rs.rows) := by
  obtain ⟨names, rows, hnamed⟩ := rs
  cases rows with
  | nil => rfl
  | cons row rows =>
      have hrow : columnNames row = names := hnamed row List.mem_cons_self
      have hcolumns' : HasColumns row ws :=
        fun d hd hread => hrow ▸ hcolumns d ((mem_slots hws d).mp hd) hread
      obtain ⟨st, hst⟩ := addFirst_of_fits pool stray hws hlen hfixed row record
      obtain ⟨-, hholds, -⟩ := addFirst_ok pool stray hst
      have hst' : addFirstReturnRecord pool stray row stack messageType record
          ⟨List.replicate arrIndexSize 0, 0⟩
            = .ok (fillRecord pool stray row stack messageType record, st) := hst
      rw [parseEntityResult, hst', fillRows]
      show (moreRecords pool stray stack messageType _ _ rows).bind _ = _
      rw [moreRecords_fills stray hws hfixed hcolumns' hholds rows
        fun r hr => (hnamed r (List.mem_cons_of_mem _ hr)).trans hrow.symm]
      rfl

end Whole

end PbEntityDb
