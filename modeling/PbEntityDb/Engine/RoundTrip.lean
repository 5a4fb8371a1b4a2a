import PbEntityDb.Engine.Read

/-!
What is left of an entity that was saved and loaded again.

* `slots` lists the fields of a type that take an entry of `arrIndex`, and
  `Readable` says that a walk over the type ends, stays inside that array and
  meets no field whose setter aborts.
* `loadedMessage` is the record that such a walk leaves (`addFirst_runs`).
* `Stored` says that a row has the value of a leaf, and `Survives` which fields
  the record gets back from such a row; `load_iff` puts both together.
* `timestamp_round_trip` is the way of a `sfixed64` field through its DATETIME column.
-/

namespace PbEntityDb

/-! ### The slots of a type -/

/-- The fields of a list that take an entry of `arrIndex`, in the order of the
walk; `sub` lists those of a message field. -/
def slotLoop (sub : Text → Option (List FieldDecl)) : List FieldDecl → Option (List FieldDecl)
  | [] => some []
  | .leaf d :: ds => (slotLoop sub ds).map (.leaf d :: ·)
  | .message f :: ds =>
      (sub f.messageType).bind fun xs => ((slotLoop sub ds).map (.message f :: ·)).map (xs ++ ·)
  | .repeated _ :: ds => slotLoop sub ds
  | .repeatedMessage _ :: ds => slotLoop sub ds

/-- The slots of a type, `none` if its messages nest deeper than `depth`. -/
def slots (pool : Pool) : ℕ → Text → Option (List FieldDecl)
  | 0, _ => none
  | depth + 1, messageType => slotLoop (slots pool depth) (pool messageType)

/-- A loop has slots exactly if all of its message fields have. -/
lemma slotLoop_isSome_iff (sub : Text → Option (List FieldDecl)) (ds : List FieldDecl) :
    (slotLoop sub ds).isSome = true
      ↔ ∀ f, .message f ∈ ds → (sub f.messageType).isSome = true := by
  induction ds with
  | nil => simp [slotLoop]
  | cons d ds ih =>
      cases d with
      | leaf d =>
          rw [slotLoop, Option.isSome_map, ih]
          simp
      | message f =>
          rw [slotLoop]
          cases hsub : sub f.messageType with
          | none =>
              refine iff_of_false (by simp) fun h => ?_
              have hf := h f List.mem_cons_self
              rw [hsub] at hf
              cases hf
          | some xs =>
              rw [Option.bind_some, Option.isSome_map, Option.isSome_map, ih]
              constructor
              · intro h g hg
                rcases List.mem_cons.mp hg with heq | hg
                · cases heq
                  rw [hsub]
                  rfl
                · exact h g hg
              · exact fun h g hg => h g (List.mem_cons_of_mem _ hg)
      | repeated name =>
          rw [slotLoop, ih]
          simp
      | repeatedMessage f =>
          rw [slotLoop, ih]
          simp

lemma slotLoop_isSome_tail {sub : Text → Option (List FieldDecl)} {d : FieldDecl}
    {ds : List FieldDecl} (h : (slotLoop sub (d :: ds)).isSome = true) :
    (slotLoop sub ds).isSome = true :=
  (slotLoop_isSome_iff sub ds).mpr fun f hf =>
    (slotLoop_isSome_iff sub (d :: ds)).mp h f (List.mem_cons_of_mem _ hf)

/-- No setter of the slots aborts. -/
def noFixed (ws : List FieldDecl) : Bool :=
  ws.all fun w => match w with
    | .leaf d => !d.isFixed
    | _ => true

/-- A walk over the type reads it: the type does not contain itself, its fields
fit in `arrIndex`, and none of them is a `fixed32` or `fixed64`. -/
def Readable (pool : Pool) (messageType : Text) : Prop :=
  ∃ depth ws, slots pool depth messageType = some ws ∧ ws.length ≤ arrIndexSize
    ∧ noFixed ws = true

/-! ### The record that is left -/

/-- The field is written by the walk. -/
def FieldDecl.isWritten : FieldDecl → Bool
  | .leaf d => d.isRead
  | .message _ => true
  | .repeated _ => false
  | .repeatedMessage _ => false

/-- What the setters of the fields `ds` leave of the fields in front of them. -/
def clearAll : List FieldDecl → Message → Message
  | [], done => done
  | d :: ds, done => clearAll ds (if d.isWritten then done.map (Field.clearOneof d.oneof) else done)

section Loaded

variable (pool : Pool) (stray : Stray) (row : List Column)

/-- A field as it is read into an empty message. -/
def readDecl (sub : Text → Message) : FieldDecl → Field
  | .leaf d =>
      match readValue stray d (cellNamed row d.name.chars) with
      | none => .leaf d.unset
      | some v => if h : v.cppType = d.type.cppType then .leaf ⟨d, true, v, h⟩ else .leaf d.unset
  | .message f => .message f (sub f.messageType)
  | .repeated name => .repeated name []
  | .repeatedMessage f => .repeatedMessage f []

/-- The fields of a type after all of them were read. -/
def settled (sub : Text → Message) : List FieldDecl → Message
  | [] => []
  | d :: ds => clearAll ds [readDecl stray row sub d] ++ settled sub ds

/-- The record that is left of an empty message of a type. -/
def loadedMessage : ℕ → Text → Message
  | 0, _ => []
  | depth + 1, messageType => settled stray row (loadedMessage depth) (pool messageType)

end Loaded

/-! ### The walk -/

lemma clearAll_append (ds : List FieldDecl) (xs ys : Message) :
    clearAll ds (xs ++ ys) = clearAll ds xs ++ clearAll ds ys := by
  induction ds generalizing xs ys with
  | nil => rfl
  | cons d ds ih =>
      cases hd : d.isWritten
      · simp [clearAll, hd, ih]
      · simp [clearAll, hd, ih]

/-- A walk over slots `ws` from index `n` on leaves the record `r`, or does not
return. -/
def RunsAs (res : Except Fault (Message × ReadState)) (ws : Option (List FieldDecl)) (n : ℕ)
    (r : Message) : Prop :=
  match ws with
  | none => ∀ x, res ≠ .ok x
  | some ws =>
      if n + ws.length ≤ arrIndexSize ∧ noFixed ws = true then
        ∃ st, res = .ok (r, st) ∧ st.nIndex = n + ws.length
      else ∀ x, res ≠ .ok x

lemma noFixed_append (ws ws' : List FieldDecl) :
    noFixed (ws ++ ws') = (noFixed ws && noFixed ws') := by
  simp [noFixed]

lemma RunsAs.some_iff {res : Except Fault (Message × ReadState)} {ws : List FieldDecl} {n : ℕ}
    {r : Message} :
    RunsAs res (some ws) n r
      ↔ if n + ws.length ≤ arrIndexSize ∧ noFixed ws = true then
          ∃ st, res = .ok (r, st) ∧ st.nIndex = n + ws.length
        else ∀ x, res ≠ .ok x := Iff.rfl

/-- A slot that is taken in front of a walk. -/
lemma RunsAs.cons {res : ReadState → Except Fault (Message × ReadState)}
    {ws : Option (List FieldDecl)} {r : Message} {w : FieldDecl} (hw : noFixed [w] = true)
    (st : ReadState) (nFieldIndex : ℕ)
    (h : ∀ st', st'.nIndex = st.nIndex + 1 → st'.nIndex ≤ arrIndexSize →
      RunsAs (res st') ws (st.nIndex + 1) r) :
    RunsAs ((storeIndex st nFieldIndex).bind res) (ws.map (w :: ·)) st.nIndex r := by
  by_cases hroom : st.nIndex < arrIndexSize
  · have hstore : storeIndex st nFieldIndex
        = .ok ⟨st.arrIndex.set st.nIndex nFieldIndex, st.nIndex + 1⟩ := if_pos hroom
    have hrun := h ⟨st.arrIndex.set st.nIndex nFieldIndex, st.nIndex + 1⟩ rfl hroom
    rw [hstore]
    change RunsAs (res _) _ _ _
    cases ws with
    | none => exact hrun
    | some ws =>
        have hlen : st.nIndex + (w :: ws).length = st.nIndex + 1 + ws.length := by
          rw [List.length_cons]
          omega
        have hfixed : noFixed (w :: ws) = noFixed ws := by
          rw [← List.singleton_append, noFixed_append, hw, Bool.true_and]
        rw [Option.map_some, RunsAs.some_iff, hlen, hfixed]
        exact hrun
  · have hstore : storeIndex st nFieldIndex = .error .bufferOverflow := if_neg hroom
    rw [hstore]
    change RunsAs (.error .bufferOverflow) _ _ _
    cases ws with
    | none => exact fun x => by simp
    | some ws =>
        have hfull :
            ¬ (st.nIndex + (w :: ws).length ≤ arrIndexSize ∧ noFixed (w :: ws) = true) := by
          rw [List.length_cons]
          omega
        rw [Option.map_some, RunsAs.some_iff, if_neg hfull]
        exact fun x => by simp

/-- A walk that aborts at a fixed slot. -/
lemma RunsAs.error {f : Fault} {ws : Option (List FieldDecl)} {n : ℕ} {r : Message}
    {w : FieldDecl} (hw : noFixed [w] = false) :
    RunsAs (.error f) (ws.map (w :: ·)) n r := by
  cases ws with
  | none => exact fun x => by simp
  | some ws =>
      have hfixed : ¬ (n + (w :: ws).length ≤ arrIndexSize ∧ noFixed (w :: ws) = true) := by
        rw [← List.singleton_append, noFixed_append, hw, Bool.false_and]
        simp
      rw [Option.map_some, RunsAs.some_iff, if_neg hfixed]
      exact fun x => by simp

/-- A walk in front of another one. -/
lemma RunsAs.append {res : Except Fault (Message × ReadState)}
    {next : Message × ReadState → Except Fault (Message × ReadState)}
    {ws ws' : Option (List FieldDecl)} {n : ℕ} {r r' : Message} (h : RunsAs res ws n r)
    (hnext : ∀ (st : ReadState) (xs : List FieldDecl), ws = some xs →
      st.nIndex = n + xs.length → st.nIndex ≤ arrIndexSize →
        RunsAs (next (r, st)) ws' st.nIndex r') :
    RunsAs (res.bind next) (ws.bind fun xs => ws'.map (xs ++ ·)) n r' := by
  cases ws with
  | none =>
      intro x hx
      cases hres : res with
      | error f => simp [hres, Except.bind] at hx
      | ok y => exact h y hres
  | some xs =>
      rw [RunsAs.some_iff] at h
      by_cases hfits : n + xs.length ≤ arrIndexSize ∧ noFixed xs = true
      · rw [if_pos hfits] at h
        obtain ⟨st, hres, hst⟩ := h
        have hrun := hnext st xs rfl hst (by omega)
        rw [hres]
        change RunsAs (next (r, st)) _ _ _
        cases ws' with
        | none => exact hrun
        | some ys =>
            have hlen : n + (xs ++ ys).length = st.nIndex + ys.length := by
              rw [List.length_append]
              omega
            have hfixed : noFixed (xs ++ ys) = noFixed ys := by
              rw [noFixed_append, hfits.2, Bool.true_and]
            rw [Option.bind_some, Option.map_some, RunsAs.some_iff, hlen, hfixed]
            exact hrun
      · rw [if_neg hfits] at h
        have herror : ∃ f, res = .error f := by
          cases hres : res with
          | error f => exact ⟨f, rfl⟩
          | ok y => exact absurd hres (h y)
        obtain ⟨f, rfl⟩ := herror
        cases ws' with
        | none => exact fun x => by simp [Except.bind]
        | some ys =>
            have hlong : ¬ (n + (xs ++ ys).length ≤ arrIndexSize ∧ noFixed (xs ++ ys) = true) := by
              rw [List.length_append, noFixed_append, Bool.and_eq_true]
              rintro ⟨hlen, hx, -⟩
              exact hfits ⟨by omega, hx⟩
            rw [Option.bind_some, Option.map_some, RunsAs.some_iff, if_neg hlong]
            exact fun x => by simp [Except.bind]

section Walk

variable (pool : Pool) (stray : Stray) (row : List Column)

/-- **The loop of the walk**: it stores one index for each slot, or leaves
defined behaviour if there are too many of them or one of them is fixed. -/
lemma firstLoop_runs {sub : Text → Message → ReadState → Except Fault (Message × ReadState)}
    {subSlots : Text → Option (List FieldDecl)} {subMessage : Text → Message}
    (hsub : ∀ messageType st, st.nIndex ≤ arrIndexSize →
      RunsAs (sub messageType (emptyMessage pool messageType) st) (subSlots messageType) st.nIndex
        (subMessage messageType))
    (ds : List FieldDecl) (done : Message) (nFieldIndex : ℕ) (st : ReadState)
    (hst : st.nIndex ≤ arrIndexSize) :
    RunsAs (firstLoop pool stray row sub ds done.length (done ++ ds.map FieldDecl.empty)
        nFieldIndex st)
      (slotLoop subSlots ds) st.nIndex (clearAll ds done ++ settled stray row subMessage ds) := by
  induction ds generalizing done nFieldIndex st with
  | nil =>
      rw [slotLoop, RunsAs.some_iff, if_pos ⟨by simpa using hst, rfl⟩]
      exact ⟨st, by simp [firstLoop, clearAll, settled], rfl⟩
  | cons d ds ih =>
      -- the fields behind this one, once it is `f` and the others in front of it are `done'`
      have hnext : ∀ (done' : Message) (f : Field) (nFieldIndex : ℕ) (st : ReadState),
          done'.length = done.length → st.nIndex ≤ arrIndexSize →
          RunsAs (firstLoop pool stray row sub ds (done.length + 1)
              (done' ++ f :: ds.map FieldDecl.empty) nFieldIndex st)
            (slotLoop subSlots ds) st.nIndex
            (clearAll ds done' ++ (clearAll ds [f] ++ settled stray row subMessage ds)) := by
        intro done' f nFieldIndex st hlen hst
        have h := ih (done' ++ [f]) nFieldIndex st hst
        rw [clearAll_append, List.append_assoc, List.append_assoc, List.length_append, hlen] at h
        exact h
      have hmap : ∀ o, (done.map (Field.clearOneof o)).length = done.length :=
        fun o => List.length_map ..
      cases d with
      | leaf d =>
          have hread := readValue_isSome stray d (cellNamed row d.name.chars)
          rw [firstLoop, slotLoop, settled, clearAll, FieldDecl.isWritten, ← hread, readDecl]
          cases hv : readValue stray d (cellNamed row d.name.chars) with
          | none =>
              have hw : noFixed [.leaf d] = true := by
                rw [hv] at hread
                simp [noFixed, FieldDescriptor.not_isFixed hread.symm]
              refine RunsAs.cons hw st nFieldIndex fun st' hst' hle => ?_
              rw [← hst']
              exact hnext done (.leaf d.unset) nFieldIndex st' rfl hle
          | some v =>
              obtain ⟨hfixed, hset⟩ := setter_readValue hv
              cases hd : d.isFixed with
              | true =>
                  have hw : noFixed [.leaf d] = false := by simp [noFixed, hd]
                  simp only [hfixed hd]
                  exact RunsAs.error hw
              | false =>
                  have hw : noFixed [.leaf d] = true := by simp [noFixed, hd]
                  obtain ⟨hty, hok⟩ := hset hd
                  simp only [hok, dif_pos hty]
                  refine RunsAs.cons hw st _ fun st' hst' hle => ?_
                  rw [← hst', setAt_append]
                  exact hnext _ _ _ st' (hmap _) hle
      | message f =>
          have hmutable : mutableMessage pool done.length f
              (done ++ (FieldDecl.message f :: ds).map FieldDecl.empty)
                = emptyMessage pool f.messageType := by
            simp [mutableMessage, FieldDecl.empty]
          rw [firstLoop, slotLoop, settled, clearAll, FieldDecl.isWritten, if_pos rfl, readDecl,
            hmutable]
          refine RunsAs.append (hsub f.messageType st hst) fun st' xs _ hst' hle => ?_
          refine RunsAs.cons rfl st' _ fun st'' hst'' hle' => ?_
          rw [← hst'', setAt_append]
          exact hnext _ _ _ st'' (hmap _) hle'
      | repeated name => exact hnext done (.repeated name []) nFieldIndex st rfl hst
      | repeatedMessage f => exact hnext done (.repeatedMessage f []) nFieldIndex st rfl hst

/-- **What a walk over a type leaves**: `loadedMessage`, if it returns. -/
theorem addFirst_runs (stack : ℕ) (messageType : Text) (st : ReadState)
    (hst : st.nIndex ≤ arrIndexSize) :
    RunsAs
      (addFirstReturnRecord pool stray row stack messageType (emptyMessage pool messageType) st)
      (slots pool stack messageType) st.nIndex
      (loadedMessage pool stray row stack messageType) := by
  induction stack generalizing messageType st with
  | zero => exact fun x => by simp [addFirstReturnRecord]
  | succ stack ih =>
      have h := firstLoop_runs pool stray row ih (pool messageType) [] 0 st hst
      have hnil : ∀ ds, clearAll ds [] = [] := by
        intro ds
        induction ds with
        | nil => rfl
        | cons d ds ih => simpa [clearAll] using ih
      rw [hnil] at h
      exact h

/-- A single row is read exactly if its type is readable. -/
lemma parseEntityResult_iff (messageType : Text) (P : Message → Prop) :
    (∃ stack record, parseEntityResult pool stray stack messageType
        (emptyMessage pool messageType) [row] = .ok [record] ∧ P record)
      ↔ ∃ depth ws, slots pool depth messageType = some ws
          ∧ (ws.length ≤ arrIndexSize ∧ noFixed ws = true)
          ∧ P (loadedMessage pool stray row depth messageType) := by
  have hrun := fun stack => addFirst_runs pool stray row stack messageType
    ⟨List.replicate arrIndexSize 0, 0⟩ (Nat.zero_le _)
  constructor
  · rintro ⟨stack, record, hparse, hP⟩
    have hstack := hrun stack
    rw [parseEntityResult] at hparse
    cases hfirst : addFirstReturnRecord pool stray row stack messageType
        (emptyMessage pool messageType) ⟨List.replicate arrIndexSize 0, 0⟩ with
    | error f => simp [hfirst, bind, Except.bind] at hparse
    | ok x =>
        obtain ⟨r, st⟩ := x
        rw [hfirst] at hparse hstack
        have hr : r = record := by
          simpa [moreRecords, bind, Except.bind] using hparse
        cases hws : slots pool stack messageType with
        | none =>
            rw [hws] at hstack
            exact absurd rfl (hstack (r, st))
        | some ws =>
            rw [hws, RunsAs.some_iff, Nat.zero_add] at hstack
            by_cases hfits : ws.length ≤ arrIndexSize ∧ noFixed ws = true
            · rw [if_pos hfits] at hstack
              obtain ⟨st', heq, -⟩ := hstack
              cases heq
              exact ⟨stack, ws, hws, hfits, hr ▸ hP⟩
            · rw [if_neg hfits] at hstack
              exact absurd rfl (hstack (r, st))
  · rintro ⟨depth, ws, hws, hfits, hP⟩
    have hdepth := hrun depth
    rw [hws, RunsAs.some_iff, Nat.zero_add, if_pos hfits] at hdepth
    obtain ⟨st, hfirst, -⟩ := hdepth
    refine ⟨depth, _, ?_, hP⟩
    rw [parseEntityResult, hfirst]
    rfl

end Walk

/-! ### The fields that come back -/

/-- The columns that store a value exactly, bound for a field of a type: those of the type it
is bound with, and for a `float` also a FLOAT. A time is stored in its components. -/
def BoundValue.KeptIn (type : FieldType) (cell : Native) : BoundValue → Prop
  | .int v => cell = .long v
  | .llong v => cell = .longlong v
  | .double v => cell = .double v ∨ type = .float ∧ ∃ f, Binary32.widen f = v ∧ cell = .float f
  | .timestamp t =>
      StoredYear (localYear t.toInt) ∧ (MysqlTime.setTimestamp t).native = some cell
  | .string s => cell = .text s
  | .blob s => cell = .blob s

/-- The row has the value that a leaf was bound with in the column of its name. -/
def Stored (row : List Column) (l : Leaf) : Prop :=
  ∃ v cell, l.boundValue = some v ∧ cellNamed row l.name.chars = some cell
    ∧ v.KeptIn l.field.type cell

/-- A later member of the oneof `o` is written by the walk. -/
def Field.isWritten : Field → Bool
  | .leaf l => l.field.isRead
  | .unset _ => true
  | .message _ _ => true
  | .repeated _ _ => false
  | .repeatedMessage _ _ => false

/-- Some field of `rest` takes the place of the member of the oneof `o`. -/
def overwritten (o : Option ℕ) (rest : Message) : Bool :=
  o.isSome && rest.any fun f => f.isWritten && decide (f.oneof = o)

mutual

/-- A present leaf of the field has its value in the field `f'`. -/
def Field.LoadedAs : Field → Field → Prop
  | .leaf l, f' => l.hasField = true → ∃ l', f' = .leaf l' ∧ l'.field = l.field ∧ l'.value = l.value
  | .message f sub, f' => ∃ sub', f' = .message f sub' ∧ LoadedAs sub sub'
  | .unset _, _ => True
  | .repeated _ _, _ => True
  | .repeatedMessage _ _, _ => True

/-- Every present field of the message has its value in the record. -/
def LoadedAs : List Field → List Field → Prop
  | [], _ => True
  | f :: rest, record => ∃ f' rest', record = f' :: rest' ∧ f.LoadedAs f' ∧ LoadedAs rest rest'

end

/-- The value of a leaf is what is read from its column: a string ends at a NUL, `timegm` is a
day ahead in the year 0, and a `float` is read from the first half of a DOUBLE. -/
def Leaf.ReadsBack (row : List Column) (l : Leaf) : Prop :=
  match l.field.type, l.value with
  | .string, .string s => '\x00' ∉ s
  | .sfixed64, .int64 t => localYear t.toInt ≠ 0
  | .float, .float x => x = 0 ∨ ∃ f, cellNamed row l.name.chars = some (.float f)
  | _, _ => True

/-- What a present leaf has to fulfil in order to come back: without a case in
the switches, or behind another member of its oneof, it has to hold its
default. -/
def Leaf.Survives (row : List Column) (l : Leaf) (rest : Message) : Prop :=
  if l.field.type = .enum ∨ overwritten l.field.oneof rest = true then
    l.value = l.field.defaultValue
  else l.ReadsBack row

mutual

/-- The present leaves of a field, in front of `rest`, come back. -/
def Field.Survives (row : List Column) : Field → List Field → Prop
  | .leaf l, rest => l.hasField = true → l.Survives row rest
  | .message f sub, rest => overwritten f.oneof rest = false ∧ Survives row sub
  | .unset _, _ => True
  | .repeated _ _, _ => True
  | .repeatedMessage _ _, _ => True

/-- The present leaves of a message come back. -/
def Survives (row : List Column) : List Field → Prop
  | [] => True
  | f :: rest => f.Survives row rest ∧ Survives row rest

end

/-- The C string of a text is the text exactly if it has no NUL. -/
lemma cString_eq_iff (s : Text) : cString s = s ↔ '\x00' ∉ s := by
  rw [cString, List.takeWhile_eq_self_iff]
  constructor
  · intro h hmem
    simpa using h _ hmem
  · rintro h c hc
    rw [decide_eq_true_eq]
    rintro rfl
    exact h hc

lemma cString_cString (s : Text) : cString (cString s) = cString s := by
  rw [cString_eq_iff, cString]
  intro hmem
  simpa using List.mem_takeWhile_imp hmem

/-! ### Reading what was bound -/

/-- An accepted leaf that is no enum gives its setter a value, that of the leaf if it reads
back. -/
lemma readValue_stored (stray : Stray) {row : List Column} {l : Leaf}
    (haccepted : l.accepted = true) (henum : l.field.type ≠ .enum) (hstored : Stored row l) :
    ∃ v, readValue stray l.field (cellNamed row l.name.chars) = some v
      ∧ v.cppType = l.field.type.cppType ∧ (v = l.value ↔ l.ReadsBack row) := by
  obtain ⟨v, cell, hbound, hcell, hkept⟩ := hstored
  rw [Leaf.ReadsBack, hcell]
  obtain ⟨⟨name, type, presence, oneof, defaultValue, htyped, hscalar⟩, hasBit, value, typed⟩ := l
  cases type <;> cases value <;>
    -- only values of the representation of the type are left
    first
      | (exfalso; simp [Scalar.cppType, FieldType.cppType] at typed; done)
      | (exfalso; exact henum rfl)
      | (exfalso; cases haccepted; done)
      | skip
  all_goals cases hbound
  case sfixed64.int64 t =>
    obtain ⟨hyear, hnative⟩ := hkept
    obtain ⟨t', ht', rfl⟩ := Option.map_eq_some_iff.mp hnative
    refine ⟨.int64 t', rfl, rfl, ?_⟩
    change Scalar.int64 t' = .int64 t ↔ localYear t.toInt ≠ 0
    rw [← getTimestamp_setTimestamp_iff hyear, ht', Option.some.injEq, Scalar.int64.injEq]
  case float.float x =>
    rcases hkept with rfl | ⟨-, f, rfl, rfl⟩
    · refine ⟨.float (Binary32.widen (Binary32.lowHalf x)), rfl, rfl, ?_⟩
      change Scalar.float _ = .float x ↔ _
      rw [Scalar.float.injEq, Binary32.widen_lowHalf_iff]
      simp
    · exact ⟨.float (Binary32.widen f), rfl, rfl, iff_of_true rfl (.inr ⟨f, rfl⟩)⟩
  case double.double x =>
    obtain rfl : cell = .double x := hkept.resolve_right fun h => by cases h.1
    exact ⟨_, rfl, rfl, iff_of_true rfl trivial⟩
  all_goals
    obtain rfl := hkept
    refine ⟨_, rfl, rfl, ?_⟩
    simp [getInt, getLLong, getBlob, getString, cString_cString, cString_eq_iff]

/-- What the setters behind a field leave of it. -/
lemma clearAll_singleton (ds : List FieldDecl) (f : Field) :
    clearAll ds [f]
      = [if f.oneof.isSome && ds.any (fun d => d.isWritten && decide (d.oneof = f.oneof))
          then f.cleared else f] := by
  induction ds generalizing f with
  | nil => simp [clearAll]
  | cons d ds ih =>
      have hcleared : f.cleared.cleared = f.cleared := by cases f <;> rfl
      cases hd : d.isWritten with
      | false => simp [clearAll, hd, ih]
      | true =>
          rw [clearAll, hd, if_pos rfl, List.map_singleton, ih, Field.clearOneof]
          cases ho : f.oneof with
          | none => cases hdo : d.oneof <;> simp [ho]
          | some o =>
              by_cases hsame : d.oneof = some o
              · simp [hsame, ho, Field.oneof_cleared, hcleared, hd]
              · have hother : ¬ some o = d.oneof := fun e => hsame e.symm
                simp [ho, hsame, hother]

/-- The declarations of the later fields tell which of them are written. -/
lemma overwritten_eq {pool : Pool} {rest : Message} {ds : List FieldDecl}
    (h : HasDecls pool rest ds) (o : Option ℕ) :
    overwritten o rest
      = (o.isSome && ds.any fun d => d.isWritten && decide (d.oneof = o)) := by
  have hany : (rest.any fun f => f.isWritten && decide (f.oneof = o))
      = ds.any fun d => d.isWritten && decide (d.oneof = o) := by
    induction rest generalizing ds with
    | nil =>
        rw [HasDecls] at h
        rw [h]
        rfl
    | cons f rest ih =>
        rw [HasDecls] at h
        obtain ⟨d, ds', rfl, hd, hrest⟩ := h
        rw [List.any_cons, List.any_cons, ih hrest]
        congr 1
        cases f with
        | leaf l => rw [Field.HasDecl] at hd; rw [hd]; rfl
        | unset f => rw [Field.HasDecl] at hd; rw [hd]; rfl
        | message f sub => rw [Field.HasDecl] at hd; rw [hd.1]; rfl
        | repeated name values => rw [Field.HasDecl] at hd; rw [hd]; rfl
        | repeatedMessage f elems => rw [Field.HasDecl] at hd; rw [hd]; rfl
  rw [overwritten, hany]

lemma clearAll_eq {pool : Pool} {rest : Message} {ds : List FieldDecl}
    (h : HasDecls pool rest ds) (f : Field) :
    clearAll ds [f] = [if overwritten f.oneof rest = true then f.cleared else f] := by
  rw [clearAll_singleton, overwritten_eq h]

section Survival

variable {pool : Pool} (stray : Stray) {row : List Column}

/-- A leaf comes back exactly if it survives. -/
lemma leaf_loadedAs_iff {l : Leaf} {rest : Message} {ds : List FieldDecl}
    (hdecls : HasDecls pool rest ds) (sub : Text → Message) (haccepted : l.accepted = true)
    (hstored : Stored row l) :
    (∃ l', clearAll ds [readDecl stray row sub (.leaf l.field)] = [.leaf l'] ∧ l'.field = l.field
        ∧ l'.value = l.value)
      ↔ l.Survives row rest := by
  -- an empty leaf holds the default
  have hunset : (∃ l', [Field.leaf l.field.unset] = [.leaf l'] ∧ l'.field = l.field
      ∧ l'.value = l.value) ↔ l.value = l.field.defaultValue := by
    simp only [List.cons.injEq, and_true, Field.leaf.injEq, exists_eq_left']
    exact ⟨fun h => h.2.symm, fun h => ⟨rfl, h.symm⟩⟩
  rw [Leaf.Survives]
  by_cases henum : l.field.type = .enum
  · have hread : readValue stray l.field (cellNamed row l.field.name.chars) = none := by
      rw [readValue, henum]
    have hclear : clearAll ds [.leaf l.field.unset] = [.leaf l.field.unset] := by
      rw [clearAll_eq hdecls]
      exact congrArg (fun f => [f]) (ite_self _)
    rw [if_pos (.inl henum), readDecl, hread, ← hunset, ← hclear]
    simp only [hclear]
  · obtain ⟨v, hread, hty, hv⟩ := readValue_stored stray haccepted henum hstored
    have hclear : clearAll ds [readDecl stray row sub (.leaf l.field)]
        = [if overwritten l.field.oneof rest = true then .leaf l.field.unset
            else .leaf ⟨l.field, true, v, hty⟩] := by
      have hread' : readValue stray l.field (cellNamed row l.field.name.chars) = some v := hread
      rw [readDecl, hread']
      simp only [dif_pos hty]
      exact clearAll_eq hdecls _
    rw [hclear]
    cases hlost : overwritten l.field.oneof rest with
    | true =>
        rw [if_pos rfl, if_pos (by simp)]
        exact hunset
    | false =>
        rw [if_neg (by simp), if_neg (by simp [henum])]
        simp only [List.cons.injEq, and_true, Field.leaf.injEq, exists_eq_left', true_and, hv]

/-- Field by field. -/
lemma loadedAs_cons {f f' : Field} {rest record : Message} :
    LoadedAs (f :: rest) ([f'] ++ record) ↔ f.LoadedAs f' ∧ LoadedAs rest record := by
  rw [LoadedAs]
  constructor
  · rintro ⟨g, record', heq, hf, hrest⟩
    cases heq
    exact ⟨hf, hrest⟩
  · rintro ⟨hf, hrest⟩
    exact ⟨f', record, rfl, hf, hrest⟩

/-- A field comes back from what the setters behind it leave of it. -/
lemma loadedAs_settled_cons {f : Field} {rest : Message} {ds : List FieldDecl}
    (hrest : HasDecls pool rest ds) (sub : Text → Message) (d : FieldDecl) :
    LoadedAs (f :: rest) (settled stray row sub (d :: ds))
      ↔ f.LoadedAs (if overwritten (readDecl stray row sub d).oneof rest = true
          then (readDecl stray row sub d).cleared else readDecl stray row sub d)
        ∧ LoadedAs rest (settled stray row sub ds) := by
  rw [settled, clearAll_eq hrest, loadedAs_cons]

/-- **The present fields come back exactly if they survive.** -/
theorem loadedAs_iff (m : Message) :
    ∀ (depth : ℕ) (ds : List FieldDecl), HasDecls pool m ds →
      (slotLoop (slots pool depth) ds).isSome = true → (∀ l ∈ leaves m, l.accepted = true) →
      (∀ l ∈ leaves m, Stored row l) →
      (LoadedAs m (settled stray row (loadedMessage pool stray row depth) ds)
        ↔ Survives row m) := by
  induction m using Message.ind with
  | nil =>
      intro depth ds _ _ _ _
      rw [LoadedAs, Survives]
  | leaf l rest ih =>
      intro depth ds hdecls hslots haccepted hstored
      rw [HasDecls] at hdecls
      obtain ⟨d, ds, rfl, hd, hrest⟩ := hdecls
      rw [Field.HasDecl] at hd
      subst hd
      have htail := ih depth ds hrest (slotLoop_isSome_tail hslots)
        (fun l' hl' => haccepted l' (by rw [leaves_cons]; exact List.mem_append_right _ hl'))
        (fun l' hl' => hstored l' (by rw [leaves_cons]; exact List.mem_append_right _ hl'))
      rw [loadedAs_settled_cons stray hrest, Survives, htail, Field.LoadedAs, Field.Survives]
      refine and_congr_left fun _ => forall_congr' fun hpresent => ?_
      have hmem : l ∈ leaves (.leaf l :: rest) := by simp [hpresent]
      have hleaf := leaf_loadedAs_iff stray hrest (loadedMessage pool stray row depth)
        (haccepted l hmem) (hstored l hmem)
      rw [clearAll_eq hrest] at hleaf
      simpa only [List.cons.injEq, and_true] using hleaf
  | unset f rest ih =>
      intro depth ds hdecls hslots haccepted hstored
      rw [HasDecls] at hdecls
      obtain ⟨d, ds, rfl, hd, hrest⟩ := hdecls
      rw [Field.HasDecl] at hd
      subst hd
      have htail := ih depth ds hrest (slotLoop_isSome_tail hslots) (by simpa using haccepted)
        (by simpa using hstored)
      rw [loadedAs_settled_cons stray hrest, Survives, htail, Field.LoadedAs, Field.Survives]
  | message f sub rest ihs ihr =>
      intro depth ds hdecls hslots haccepted hstored
      rw [HasDecls] at hdecls
      obtain ⟨d, ds, rfl, hd, hrest⟩ := hdecls
      rw [Field.HasDecl] at hd
      obtain ⟨rfl, hsub⟩ := hd
      have hsubSlots := (slotLoop_isSome_iff _ _).mp hslots f List.mem_cons_self
      rw [leaves_cons, Field.leaves_message] at haccepted hstored
      have htail := ihr depth ds hrest (slotLoop_isSome_tail hslots)
        (fun l hl => haccepted l (List.mem_append_right _ hl))
        (fun l hl => hstored l (List.mem_append_right _ hl))
      -- the message was read one level deeper
      obtain ⟨depth, rfl⟩ : ∃ k, depth = k + 1 := by
        cases depth with
        | zero => cases hsubSlots
        | succ k => exact ⟨k, rfl⟩
      have hinner := ihs depth (pool f.messageType) hsub hsubSlots
        (fun l hl => haccepted l (List.mem_append_left _ hl))
        (fun l hl => hstored l (List.mem_append_left _ hl))
      rw [loadedAs_settled_cons stray hrest, Survives, htail, Field.LoadedAs, Field.Survives,
        ← hinner, readDecl]
      refine and_congr_left fun _ => ?_
      change (∃ sub', (if overwritten f.oneof rest = true then _ else _) = _ ∧ _) ↔ _
      cases overwritten f.oneof rest with
      | true => simp [Field.cleared]
      | false => simp [loadedMessage]
  | repeated name values rest ih =>
      intro depth ds hdecls hslots haccepted hstored
      rw [HasDecls] at hdecls
      obtain ⟨d, ds, rfl, hd, hrest⟩ := hdecls
      rw [Field.HasDecl] at hd
      subst hd
      have htail := ih depth ds hrest hslots (by simpa using haccepted) (by simpa using hstored)
      rw [loadedAs_settled_cons stray hrest, Survives, htail, Field.LoadedAs, Field.Survives]
  | repeatedMessage f elems rest ih =>
      intro depth ds hdecls hslots haccepted hstored
      rw [HasDecls] at hdecls
      obtain ⟨d, ds, rfl, hd, hrest⟩ := hdecls
      rw [Field.HasDecl] at hd
      subst hd
      have htail := ih depth ds hrest hslots (by simpa using haccepted) (by simpa using hstored)
      rw [loadedAs_settled_cons stray hrest, Survives, htail, Field.LoadedAs, Field.Survives]

/-- An entity that was read comes back exactly if it survives. -/
lemma loadedMessage_iff {messageType : Text} {entity : Message} {depth : ℕ}
    {ws : List FieldDecl} (hdecls : HasDecls pool entity (pool messageType))
    (haccepted : ∀ l ∈ leaves entity, l.accepted = true)
    (hstored : ∀ l ∈ leaves entity, Stored row l)
    (hws : slots pool depth messageType = some ws) :
    LoadedAs entity (loadedMessage pool stray row depth messageType) ↔ Survives row entity := by
  cases depth with
  | zero => cases hws
  | succ depth =>
      rw [slots] at hws
      exact loadedAs_iff stray entity depth _ hdecls (by rw [hws]; rfl) haccepted hstored

end Survival

/-- Buffers that hold zeros. -/
def zeroStray : Stray :=
  ⟨fun _ => 0, fun _ => 0, fun _ => 0, fun _ => 0, fun _ => 0, fun _ => []⟩

/-- The rank of an account, an `enum` field. -/
def rank : FieldDescriptor where
  name := ⟨"rank".toList, List.all_eq_true.mp rfl⟩
  type := .enum
  presence := false
  oneof := none
  defaultValue := .enum 0
  typed := rfl
  scalar := by decide

/-- A rank with its value. -/
def rankLeaf (number : BitVec 32) : Leaf := ⟨rank, false, .enum number, rfl⟩

/-- **A time comes back from its column**: a `sfixed64` field binds its value, and
what the column makes of that value is read into the field again. -/
theorem timestamp_round_trip (stray : Stray) (l : Leaf) (t : BitVec 64)
    (hl : l.field.type = .sfixed64) (ht : l.value = .int64 t)
    (hyear : DatetimeYear ((gmtimeR (t.toInt + 28800)).tmYear + 1900)) :
    l.inputValue = .ok (some (.timestamp t))
      ∧ (MysqlTime.setTimestamp t).getTimestamp = some t
      ∧ (MysqlTime.setTimestamp t).native = some (.datetime t)
      ∧ readValue stray l.field (MysqlTime.setTimestamp t).native = some l.value := by
  have hget := getTimestamp_setTimestamp hyear
  have hnative : (MysqlTime.setTimestamp t).native = some (.datetime t) := by
    rw [MysqlTime.native, hget]
    rfl
  refine ⟨?_, hget, hnative, ?_⟩
  · rw [Leaf.inputValue, hl, ht]
    rfl
  · rw [hnative, readValue, hl, ht]
    rfl

/-- A field for a time. -/
def createdAt : FieldDescriptor where
  name := ⟨"created_at".toList, List.all_eq_true.mp rfl⟩
  type := .sfixed64
  presence := false
  oneof := none
  defaultValue := .int64 0
  typed := rfl
  scalar := by decide

/-- The last second of the leap day of the year 2000 in the zone of the column. -/
theorem leap_day_round_trip :
    (⟨createdAt, false, .int64 951839999, rfl⟩ : Leaf).inputValue
        = .ok (some (.timestamp 951839999))
      ∧ (MysqlTime.setTimestamp 951839999).getTimestamp = some 951839999
      ∧ (MysqlTime.setTimestamp 951839999).native = some (.datetime 951839999)
      ∧ readValue zeroStray createdAt (MysqlTime.setTimestamp 951839999).native
        = some (.int64 951839999) :=
  timestamp_round_trip zeroStray ⟨createdAt, false, .int64 951839999, rfl⟩ 951839999 rfl rfl
    (by decide +kernel)

end PbEntityDb
