import PbEntityDb.Engine.Cached

/-!
How far the two walks over a record type go.

* `walked` follows the types alone: how many entries of `arrIndex` a walk stores
  and what it comes to, its end, a setter that aborts, or the end of the stack.
  Neither the row nor the record has a say in this (`addFirst_halts`).
* `cacheInBounds_iff`: the entries stay inside `arrIndex` exactly if they are at
  most 256 for every size of the stack.
* `readReturns_iff`: the walks return exactly if the type does not contain itself
  along singular message fields, each of which is created before the walk goes
  into it (`slots_isSome_iff`), and nothing else stops them.
-/

namespace PbEntityDb

/-! ### Following the types -/

/-- What a walk comes to. -/
inductive Halt where
  | ended
  /-- at the setter of a `fixed32` or `fixed64` field -/
  | aborted
  /-- at the end of the stack -/
  | exhausted
  deriving DecidableEq, Repr

/-- How far a walk goes: the entries it stores and what it comes to. -/
structure Walked where
  count : ℕ
  halt : Halt
  deriving DecidableEq, Repr

/-- One more entry in front. -/
def Walked.stored (w : Walked) : Walked := ⟨w.count + 1, w.halt⟩

/-- One walk behind another one, if that comes to its end. -/
def Walked.andThen (w w' : Walked) : Walked :=
  if w.halt = .ended then ⟨w.count + w'.count, w'.halt⟩ else w

/-- The loop over the fields of a type; a message field takes its entry behind
those of its own fields. -/
def walkedLoop (sub : Text → Walked) : List FieldDecl → Walked
  | [] => ⟨0, .ended⟩
  | .leaf d :: ds => if d.isFixed then ⟨0, .aborted⟩ else (walkedLoop sub ds).stored
  | .message f :: ds => (sub f.messageType).andThen (walkedLoop sub ds).stored
  | .repeated _ :: ds => walkedLoop sub ds
  | .repeatedMessage _ :: ds => walkedLoop sub ds

/-- How far a walk over a type goes, with room for `stack` calls. -/
def walked (pool : Pool) : ℕ → Text → Walked
  | 0, _ => ⟨0, .exhausted⟩
  | stack + 1, messageType => walkedLoop (walked pool stack) (pool messageType)

/-! ### The walk by name -/

/-- The result of a walk that has come to this point with `n` entries stored. -/
def Halt.Shows (res : Except Fault (Message × ReadState)) (n : ℕ) : Halt → Prop
  | .ended => ∃ r st, res = .ok (r, st) ∧ st.nIndex = n
  | .aborted => res = .error .typeMismatch
  | .exhausted => res = .error .stackOverflow

/-- The walk from index `n` on goes as far as `w`, or leaves `arrIndex`. -/
def HaltsAs (res : Except Fault (Message × ReadState)) (w : Walked) (n : ℕ) : Prop :=
  if n + w.count ≤ arrIndexSize then w.halt.Shows res (n + w.count)
  else res = .error .bufferOverflow

/-- A walk that stores nothing. -/
lemma HaltsAs.of_zero {res : Except Fault (Message × ReadState)} {halt : Halt} {n : ℕ}
    (hn : n ≤ arrIndexSize) (h : halt.Shows res n) : HaltsAs res ⟨0, halt⟩ n := by
  show if n ≤ arrIndexSize then halt.Shows res n else _
  rw [if_pos hn]
  exact h

/-- An entry that is stored in front of a walk. -/
lemma HaltsAs.store {res : ReadState → Except Fault (Message × ReadState)} {w : Walked}
    (st : ReadState) (nFieldIndex : ℕ) (hst : st.nIndex ≤ arrIndexSize)
    (h : ∀ st', st'.nIndex = st.nIndex + 1 → st'.nIndex ≤ arrIndexSize →
      HaltsAs (res st') w st'.nIndex) :
    HaltsAs ((storeIndex st nFieldIndex).bind res) w.stored st.nIndex := by
  have hcount : st.nIndex + w.stored.count = st.nIndex + 1 + w.count := by
    show st.nIndex + (w.count + 1) = _
    omega
  rw [HaltsAs, hcount]
  by_cases hroom : st.nIndex < arrIndexSize
  · have hstore : storeIndex st nFieldIndex
        = .ok ⟨st.arrIndex.set st.nIndex nFieldIndex, st.nIndex + 1⟩ := if_pos hroom
    rw [hstore]
    exact h ⟨st.arrIndex.set st.nIndex nFieldIndex, st.nIndex + 1⟩ rfl hroom
  · have hstore : storeIndex st nFieldIndex = .error .bufferOverflow := if_neg hroom
    rw [hstore, if_neg (by omega)]
    rfl

/-- A walk in front of another one. -/
lemma HaltsAs.bind {res : Except Fault (Message × ReadState)}
    {next : Message × ReadState → Except Fault (Message × ReadState)} {w w' : Walked} {n : ℕ}
    (h : HaltsAs res w n)
    (hnext : ∀ r st, st.nIndex = n + w.count → st.nIndex ≤ arrIndexSize →
      HaltsAs (next (r, st)) w' st.nIndex) :
    HaltsAs (res.bind next) (w.andThen w') n := by
  rw [HaltsAs] at h
  by_cases hroom : n + w.count ≤ arrIndexSize
  · rw [if_pos hroom] at h
    rw [Walked.andThen]
    cases hhalt : w.halt with
    | ended =>
        rw [hhalt] at h
        obtain ⟨r, st, rfl, hst⟩ := h
        have hrest := hnext r st hst (by omega)
        rw [hst] at hrest
        rw [if_pos rfl, HaltsAs, ← Nat.add_assoc]
        exact hrest
    | aborted =>
        rw [hhalt] at h
        rw [if_neg (by simp), HaltsAs, if_pos hroom, hhalt, show res = _ from h]
        rfl
    | exhausted =>
        rw [hhalt] at h
        rw [if_neg (by simp), HaltsAs, if_pos hroom, hhalt, show res = _ from h]
        rfl
  · rw [if_neg hroom] at h
    have hlong : ¬ n + (w.andThen w').count ≤ arrIndexSize := by
      rw [Walked.andThen]
      split
      · show ¬ n + (w.count + w'.count) ≤ arrIndexSize
        omega
      · exact hroom
    rw [HaltsAs, if_neg hlong, h]
    rfl

section Walks

variable (pool : Pool) (stray : Stray) (row : List Column)

/-- **The loop by name** goes as far as the types say. -/
lemma firstLoop_halts {sub : Text → Message → ReadState → Except Fault (Message × ReadState)}
    {subWalked : Text → Walked}
    (hsub : ∀ messageType record st, st.nIndex ≤ arrIndexSize →
      HaltsAs (sub messageType record st) (subWalked messageType) st.nIndex)
    (ds : List FieldDecl) (i : ℕ) (record : Message) (nFieldIndex : ℕ) (st : ReadState)
    (hst : st.nIndex ≤ arrIndexSize) :
    HaltsAs (firstLoop pool stray row sub ds i record nFieldIndex st) (walkedLoop subWalked ds)
      st.nIndex := by
  induction ds generalizing i record nFieldIndex st with
  | nil => exact HaltsAs.of_zero hst ⟨record, st, rfl, rfl⟩
  | cons d ds ih =>
      cases d with
      | leaf d =>
          have hread := readValue_isSome stray d (cellNamed row d.name.chars)
          rw [firstLoop, walkedLoop]
          cases hv : readValue stray d (cellNamed row d.name.chars) with
          | none =>
              rw [hv] at hread
              have hd : d.isFixed = false := FieldDescriptor.not_isFixed hread.symm
              rw [hd, if_neg Bool.false_ne_true]
              exact HaltsAs.store st nFieldIndex hst fun st' _ hle => ih _ _ _ st' hle
          | some v =>
              obtain ⟨hfixed, hset⟩ := setter_readValue hv
              cases hd : d.isFixed with
              | true =>
                  rw [if_pos rfl]
                  simp only [hfixed hd]
                  exact HaltsAs.of_zero hst rfl
              | false =>
                  obtain ⟨hty, hok⟩ := hset hd
                  rw [if_neg Bool.false_ne_true]
                  simp only [hok]
                  exact HaltsAs.store st _ hst fun st' _ hle => ih _ _ _ st' hle
      | message f =>
          rw [firstLoop, walkedLoop]
          refine HaltsAs.bind (hsub f.messageType _ st hst) fun r st' _ hle => ?_
          exact HaltsAs.store st' _ hle fun st'' _ hle' => ih _ _ _ st'' hle'
      | repeated name => exact ih _ _ _ st hst
      | repeatedMessage f => exact ih _ _ _ st hst

/-- **How far `AddFirstReturnRecord` goes**, whatever the row and the record hold. -/
theorem addFirst_halts (stack : ℕ) (messageType : Text) (record : Message) (st : ReadState)
    (hst : st.nIndex ≤ arrIndexSize) :
    HaltsAs (addFirstReturnRecord pool stray row stack messageType record st)
      (walked pool stack messageType) st.nIndex := by
  induction stack generalizing messageType record st with
  | zero => exact HaltsAs.of_zero hst rfl
  | succ stack ih => exact firstLoop_halts pool stray row ih (pool messageType) 0 record 0 st hst

/-! ### The walk by index -/

/-- The walk reads inside `arrIndex`: it returns, or a getter raises an exception. -/
def ReadsInside (res : Except Fault (Message × ReadState)) (st : ReadState) : Prop :=
  res = .error .columnIndex ∨ ∃ r, res = .ok (r, st)

lemma ReadsInside.ne_overflow {res : Except Fault (Message × ReadState)} {st : ReadState}
    (h : ReadsInside res st) : res ≠ .error .bufferOverflow := by
  rcases h with rfl | ⟨r, rfl⟩
  · simp
  · simp

/-- **The loop by index** reads inside `arrIndex`, as far as the loop by name has
stored. -/
lemma returnLoop_reads {sub : Text → Message → ReadState → Except Fault (Message × ReadState)}
    {subWalked : Text → Walked} {arrIndex : List ℕ}
    (hsub : ∀ messageType record n, (subWalked messageType).halt = .ended →
      n + (subWalked messageType).count ≤ arrIndex.length →
        ReadsInside (sub messageType record ⟨arrIndex, n⟩)
          ⟨arrIndex, n + (subWalked messageType).count⟩)
    (ds : List FieldDecl) (i : ℕ) (record : Message) (n : ℕ)
    (hended : (walkedLoop subWalked ds).halt = .ended)
    (hroom : n + (walkedLoop subWalked ds).count ≤ arrIndex.length) :
    ReadsInside (returnLoop pool stray row sub ds i record ⟨arrIndex, n⟩)
      ⟨arrIndex, n + (walkedLoop subWalked ds).count⟩ := by
  induction ds generalizing i record n with
  | nil => exact .inr ⟨record, rfl⟩
  | cons d ds ih =>
      cases d with
      | leaf d =>
          rw [walkedLoop] at hended hroom ⊢
          have hd : d.isFixed = false := by
            by_contra hfixed
            rw [Bool.not_eq_false] at hfixed
            rw [if_pos hfixed] at hended
            cases hended
          rw [hd, if_neg Bool.false_ne_true] at hended hroom ⊢
          have hcount : n + (walkedLoop subWalked ds).stored.count
              = n + 1 + (walkedLoop subWalked ds).count := by
            show n + ((walkedLoop subWalked ds).count + 1) = _
            omega
          rw [hcount] at hroom ⊢
          have hn : arrIndex[n]? = some arrIndex[n] := List.getElem?_eq_getElem (by omega)
          by_cases hcell : d.isRead = true → ∃ cell, cellAt row arrIndex[n] = .ok cell
          · obtain ⟨record', hpass⟩ := returnLoop_passes pool stray row sub hd ds i record hn hcell
            rw [hpass]
            exact ih _ record' (n + 1) hended hroom
          · rw [Classical.not_imp] at hcell
            obtain ⟨hread, hno⟩ := hcell
            cases hget : cellAt row arrIndex[n] with
            | error e =>
                rw [returnLoop_raised pool stray row sub hread ds i record hn hget,
                  cellAt_error hget]
                exact .inl rfl
            | ok cell => exact absurd ⟨cell, hget⟩ hno
      | message f =>
          rw [walkedLoop, Walked.andThen] at hended hroom ⊢
          have hsubEnded : (subWalked f.messageType).halt = .ended := by
            by_contra hne
            rw [if_neg hne] at hended
            exact hne hended
          rw [if_pos hsubEnded] at hended hroom ⊢
          have hcount :
              n + ((subWalked f.messageType).count + (walkedLoop subWalked ds).stored.count)
              = n + (subWalked f.messageType).count + 1 + (walkedLoop subWalked ds).count := by
            show n + ((subWalked f.messageType).count + ((walkedLoop subWalked ds).count + 1)) = _
            omega
          rw [hcount] at hroom ⊢
          rw [returnLoop]
          rcases hsub f.messageType (mutableMessage pool i f record) n hsubEnded (by omega)
            with herror | ⟨pSub, hok⟩
          · rw [herror]
            exact .inl rfl
          · rw [hok]
            exact ih _ _ _ hended hroom
      | repeated name => exact ih _ _ _ hended hroom
      | repeatedMessage f => exact ih _ _ _ hended hroom

/-- **Where `AddReturnRecord` reads.** -/
theorem addReturn_reads (stack : ℕ) {messageType : Text} (record : Message) {arrIndex : List ℕ}
    (n : ℕ) (hended : (walked pool stack messageType).halt = .ended)
    (hroom : n + (walked pool stack messageType).count ≤ arrIndex.length) :
    ReadsInside (addReturnRecord pool stray row stack messageType record ⟨arrIndex, n⟩)
      ⟨arrIndex, n + (walked pool stack messageType).count⟩ := by
  induction stack generalizing messageType record n with
  | zero => cases hended
  | succ stack ih =>
      have hsub : ∀ messageType record n, (walked pool stack messageType).halt = .ended →
          n + (walked pool stack messageType).count ≤ arrIndex.length →
            ReadsInside (addReturnRecord pool stray row stack messageType record ⟨arrIndex, n⟩)
              ⟨arrIndex, n + (walked pool stack messageType).count⟩ :=
        fun _ record n hended hroom => ih record n hended hroom
      exact returnLoop_reads pool stray row hsub _ 0 record n hended hroom

/-- A first row that was read leaves room for the rows behind it. -/
lemma addReturn_behind {stack : ℕ} {messageType : Text} {first : List Column} {record r : Message}
    {st : ReadState}
    (h : addFirstReturnRecord pool stray first stack messageType record .start = .ok (r, st))
    (record' : Message) :
    ReadsInside (addReturnRecord pool stray row stack messageType record' ⟨st.arrIndex, 0⟩)
      ⟨st.arrIndex, (walked pool stack messageType).count⟩ := by
  have hlen : ReadState.start.arrIndex.length = arrIndexSize := List.length_replicate ..
  obtain ⟨hlen', -⟩ := addFirst_pushed pool stray first stack h hlen (Nat.zero_le _)
  have hhalts := addFirst_halts pool stray first stack messageType record .start (Nat.zero_le _)
  have hstart : ReadState.start.nIndex = 0 := rfl
  rw [HaltsAs, h, hstart, Nat.zero_add] at hhalts
  by_cases hroom : (walked pool stack messageType).count ≤ arrIndexSize
  · rw [if_pos hroom] at hhalts
    have hended : (walked pool stack messageType).halt = .ended := by
      cases hhalt : (walked pool stack messageType).halt with
      | ended => rfl
      | aborted => rw [hhalt] at hhalts; cases hhalts
      | exhausted => rw [hhalt] at hhalts; cases hhalts
    have hread : 0 + (walked pool stack messageType).count ≤ st.arrIndex.length := by omega
    have hreads := addReturn_reads pool stray row stack record' 0 hended hread
    rw [Nat.zero_add] at hreads
    exact hreads
  · rw [if_neg hroom] at hhalts
    cases hhalts

end Walks

/-! ### The entries of `arrIndex` -/

/-- Every entry that is stored for the first row, and every entry that is read
for a row behind it, is one of `arrIndex`. -/
def CacheInBounds (pool : Pool) (messageType : Text) : Prop :=
  ∀ stray stack first record,
    addFirstReturnRecord pool stray first stack messageType record .start ≠ .error .bufferOverflow
      ∧ ∀ r st,
        addFirstReturnRecord pool stray first stack messageType record .start = .ok (r, st) →
          ∀ row record', addReturnRecord pool stray row stack messageType record' ⟨st.arrIndex, 0⟩
            ≠ .error .bufferOverflow

/-- A first row overruns `arrIndex` exactly if the walk has too many entries. -/
lemma addFirst_overflow_iff (pool : Pool) (stray : Stray) (row : List Column) (stack : ℕ)
    (messageType : Text) (record : Message) :
    addFirstReturnRecord pool stray row stack messageType record .start = .error .bufferOverflow
      ↔ ¬ (walked pool stack messageType).count ≤ arrIndexSize := by
  have hhalts := addFirst_halts pool stray row stack messageType record .start (Nat.zero_le _)
  have hstart : ReadState.start.nIndex = 0 := rfl
  rw [HaltsAs, hstart, Nat.zero_add] at hhalts
  by_cases hroom : (walked pool stack messageType).count ≤ arrIndexSize
  · rw [if_pos hroom] at hhalts
    refine iff_of_false (fun h => ?_) (not_not_intro hroom)
    cases hhalt : (walked pool stack messageType).halt with
    | ended =>
        rw [hhalt] at hhalts
        obtain ⟨r, st, hok, -⟩ := hhalts
        rw [h] at hok
        cases hok
    | aborted =>
        rw [hhalt, h] at hhalts
        cases hhalts
    | exhausted =>
        rw [hhalt, h] at hhalts
        cases hhalts
  · rw [if_neg hroom] at hhalts
    exact iff_of_true hhalts hroom

/-- **When the cached indices stay in bounds**: the walk over the type stores at
most 256 entries, however large the stack is. -/
theorem cacheInBounds_iff (pool : Pool) (messageType : Text) :
    CacheInBounds pool messageType
      ↔ ∀ stack, (walked pool stack messageType).count ≤ arrIndexSize := by
  constructor
  · intro h stack
    by_contra hlong
    exact (h zeroStray stack [] []).1
      ((addFirst_overflow_iff pool zeroStray [] stack messageType []).mpr hlong)
  · intro h stray stack first record
    refine ⟨fun hover => ?_, fun r st hfirst row record' hover => ?_⟩
    · exact (addFirst_overflow_iff pool stray first stack messageType record).mp hover (h stack)
    · exact (addReturn_behind pool stray row hfirst record').ne_overflow hover

/-- A type with scalar fields only has one entry for each of them. -/
lemma walkedLoop_leaves (sub : Text → Walked) {ds : List FieldDescriptor}
    (h : ∀ d ∈ ds, d.isFixed = false) :
    walkedLoop sub (ds.map .leaf) = ⟨ds.length, .ended⟩ := by
  induction ds with
  | nil => rfl
  | cons d ds ih =>
      have hrest := ih fun d hd => h d (List.mem_cons_of_mem _ hd)
      rw [List.map_cons, walkedLoop, h d List.mem_cons_self, if_neg Bool.false_ne_true, hrest]
      rfl

/-- A field of the wide type. -/
def wideField (i : ℕ) : FieldDescriptor :=
  .ofInt32 ⟨List.replicate (i + 1) 'c', by simp [nameChar, backquote]⟩

/-- A type with 257 fields of type `int32`. -/
def wideFields : Pool := fun _ => ((List.range 257).map wideField).map .leaf

/-- The last one of them is stored behind the end of `arrIndex`. -/
theorem wide_overflows :
    addFirstReturnRecord wideFields zeroStray [] 1 "Wide".toList [] .start = .error .bufferOverflow
      ∧ ¬ CacheInBounds wideFields "Wide".toList := by
  have hfixed : ∀ d ∈ (List.range 257).map wideField, d.isFixed = false := by
    intro d hd
    obtain ⟨i, -, rfl⟩ := List.mem_map.mp hd
    rfl
  have hcount : (walked wideFields 1 "Wide".toList).count = 257 := by
    show (walkedLoop _ (((List.range 257).map wideField).map .leaf)).count = 257
    rw [walkedLoop_leaves _ hfixed, List.length_map, List.length_range]
  have hover : addFirstReturnRecord wideFields zeroStray [] 1 "Wide".toList [] .start
      = .error .bufferOverflow := by
    rw [addFirst_overflow_iff, hcount]
    decide
  exact ⟨hover, fun h => (h zeroStray 1 [] []).1 hover⟩

/-! ### Types that contain themselves -/

/-- A type is that of a singular message field of another one. -/
def Nested (pool : Pool) (inner messageType : Text) : Prop :=
  ∃ f, .message f ∈ pool messageType ∧ f.messageType = inner

/-- A loop that has its slots has the same ones with more depth. -/
lemma slotLoop_mono {sub sub' : Text → Option (List FieldDecl)}
    (hsub : ∀ messageType ws, sub messageType = some ws → sub' messageType = some ws)
    {ds ws : List FieldDecl} (h : slotLoop sub ds = some ws) : slotLoop sub' ds = some ws := by
  induction ds generalizing ws with
  | nil => exact h
  | cons d ds ih =>
      cases d with
      | leaf d =>
          obtain ⟨ws', hws', rfl⟩ := slotLoop_leaf h
          rw [slotLoop, ih hws']
          rfl
      | message f =>
          obtain ⟨xs, ws', hxs, hws', rfl⟩ := slotLoop_message h
          rw [slotLoop, hsub f.messageType xs hxs, ih hws']
          rfl
      | repeated name => exact ih h
      | repeatedMessage f => exact ih h

/-- The slots of a type do not depend on the depth. -/
lemma slots_mono (pool : Pool) {depth depth' : ℕ} (hle : depth ≤ depth') {messageType : Text}
    {ws : List FieldDecl} (h : slots pool depth messageType = some ws) :
    slots pool depth' messageType = some ws := by
  have hsucc : ∀ depth messageType ws, slots pool depth messageType = some ws →
      slots pool (depth + 1) messageType = some ws := by
    intro depth
    induction depth with
    | zero => exact fun _ _ h => by cases h
    | succ depth ih => exact fun messageType ws h => slotLoop_mono ih h
  induction depth', hle using Nat.le_induction with
  | base => exact h
  | succ depth' _ ih => exact hsucc depth' messageType ws ih

lemma slots_unique {pool : Pool} {depth depth' : ℕ} {messageType : Text} {ws ws' : List FieldDecl}
    (h : slots pool depth messageType = some ws) (h' : slots pool depth' messageType = some ws') :
    ws = ws' := by
  have hmax := slots_mono pool (le_max_left depth depth') h
  rw [slots_mono pool (le_max_right depth depth') h', Option.some.injEq] at hmax
  exact hmax.symm

lemma slots_isSome_mono (pool : Pool) {depth depth' : ℕ} (hle : depth ≤ depth')
    {messageType : Text} (h : (slots pool depth messageType).isSome = true) :
    (slots pool depth' messageType).isSome = true := by
  obtain ⟨ws, hws⟩ := Option.isSome_iff_exists.mp h
  rw [slots_mono pool hle hws]
  rfl

/-- One depth for all message fields of a list. -/
lemma exists_depth (pool : Pool) {ds : List FieldDecl}
    (h : ∀ f, .message f ∈ ds → ∃ depth, (slots pool depth f.messageType).isSome = true) :
    ∃ depth, ∀ f, .message f ∈ ds → (slots pool depth f.messageType).isSome = true := by
  induction ds with
  | nil => exact ⟨0, by simp⟩
  | cons d ds ih =>
      obtain ⟨depth, hdepth⟩ := ih fun f hf => h f (List.mem_cons_of_mem _ hf)
      by_cases hd : ∃ f, d = .message f
      · obtain ⟨f, rfl⟩ := hd
        obtain ⟨depth', hdepth'⟩ := h f List.mem_cons_self
        refine ⟨max depth depth', fun g hg => ?_⟩
        rcases List.mem_cons.mp hg with heq | hg
        · cases heq
          exact slots_isSome_mono pool (le_max_right ..) hdepth'
        · exact slots_isSome_mono pool (le_max_left ..) (hdepth g hg)
      · refine ⟨depth, fun g hg => ?_⟩
        rcases List.mem_cons.mp hg with heq | hg
        · exact absurd ⟨g, heq.symm⟩ hd
        · exact hdepth g hg

/-- **The slots of a type end exactly if its nesting is well-founded.** -/
theorem slots_isSome_iff (pool : Pool) (messageType : Text) :
    (∃ depth, (slots pool depth messageType).isSome = true) ↔ Acc (Nested pool) messageType := by
  constructor
  · rintro ⟨depth, h⟩
    induction depth generalizing messageType with
    | zero => cases h
    | succ depth ih =>
        rw [slots, slotLoop_isSome_iff] at h
        refine Acc.intro _ fun inner hnested => ?_
        obtain ⟨f, hf, rfl⟩ := hnested
        exact ih f.messageType (h f hf)
  · intro h
    induction h with
    | intro messageType _ ih =>
        obtain ⟨depth, hdepth⟩ := exists_depth pool fun f hf => ih f.messageType ⟨f, hf, rfl⟩
        refine ⟨depth + 1, ?_⟩
        rw [slots, slotLoop_isSome_iff]
        exact hdepth

/-! ### The walks that return -/

/-- Both walks return on every row, the one by index unless a getter raises an
exception. -/
def ReadReturns (pool : Pool) (messageType : Text) : Prop :=
  ∃ stack, ∀ stray first record, ∃ r st,
    addFirstReturnRecord pool stray first stack messageType record .start = .ok (r, st)
      ∧ ∀ row record', ∃ st',
        ReadsInside (addReturnRecord pool stray row stack messageType record' ⟨st.arrIndex, 0⟩) st'

/-- No leaf of a type is fixed exactly if no slot is. -/
lemma noFixed_iff {pool : Pool} {depth : ℕ} {messageType : Text} {ws : List FieldDecl}
    (hws : slots pool depth messageType = some ws) :
    noFixed ws = true ↔ ∀ d, HasLeaf pool messageType d → d.isFixed = false := by
  rw [noFixed, List.all_eq_true]
  constructor
  · intro h d hd
    have hleaf := h (.leaf d) ((mem_slots hws d).mpr hd)
    simpa using hleaf
  · intro h w hw
    cases w with
    | leaf d => simpa using h d ((mem_slots hws d).mp hw)
    | message f => rfl
    | repeated name => rfl
    | repeatedMessage f => rfl

/-- **When reading a row returns**: the type does not contain itself along
singular message fields, none of its leaves is a `fixed32` or `fixed64`, and its
fields fit in `arrIndex`. -/
theorem readReturns_iff (pool : Pool) (messageType : Text) :
    ReadReturns pool messageType
      ↔ Acc (Nested pool) messageType
        ∧ (∀ d, HasLeaf pool messageType d → d.isFixed = false)
        ∧ ∀ depth ws, slots pool depth messageType = some ws → ws.length ≤ arrIndexSize := by
  constructor
  · rintro ⟨stack, h⟩
    obtain ⟨r, st, hfirst, -⟩ := h zeroStray [] []
    obtain ⟨-, -, ws, hws, hlen, hfixed⟩ := addFirst_ok pool zeroStray hfirst
    refine ⟨(slots_isSome_iff pool messageType).mp ⟨stack, by rw [hws]; rfl⟩,
      (noFixed_iff hws).mp hfixed, fun depth ws' hws' => ?_⟩
    rw [← slots_unique hws hws']
    exact hlen
  · rintro ⟨hacc, hfixed, hroom⟩
    obtain ⟨stack, hsome⟩ := (slots_isSome_iff pool messageType).mpr hacc
    obtain ⟨ws, hws⟩ := Option.isSome_iff_exists.mp hsome
    refine ⟨stack, fun stray first record => ?_⟩
    obtain ⟨st, hfirst⟩ := addFirst_of_fits pool stray hws (hroom stack ws hws)
      ((noFixed_iff hws).mpr hfixed) first record
    exact ⟨_, st, hfirst, fun row record' => ⟨_, addReturn_behind pool stray row hfirst record'⟩⟩

/-- The name of the field that leads on. -/
def nextName : Name := ⟨"next".toList, List.all_eq_true.mp rfl⟩

/-- A type with a field of its own type. -/
def nodeFields : Pool := fun _ =>
  [.message ⟨nextName, none, "Node".toList⟩, .leaf (.ofInt32 accountId)]

/-- Each message is created before the walk goes into it, so it never comes back. -/
theorem node_never_returns :
    (∀ stack stray row record st,
      addFirstReturnRecord nodeFields stray row stack "Node".toList record st
        = .error .stackOverflow)
      ∧ ¬ ReadReturns nodeFields "Node".toList := by
  have hover : ∀ stack stray row record st,
      addFirstReturnRecord nodeFields stray row stack "Node".toList record st
        = .error .stackOverflow := by
    intro stack stray row
    induction stack with
    | zero => exact fun _ _ => rfl
    | succ stack ih =>
        intro record st
        show (addFirstReturnRecord nodeFields stray row stack "Node".toList _ st).bind _ = _
        rw [ih]
        rfl
  refine ⟨hover, ?_⟩
  rintro ⟨stack, h⟩
  obtain ⟨r, st, hfirst, -⟩ := h zeroStray [] []
  rw [hover] at hfirst
  cases hfirst

end PbEntityDb
