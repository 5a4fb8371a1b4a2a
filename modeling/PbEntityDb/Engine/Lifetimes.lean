import PbEntityDb.Library.Storage
import PbEntityDb.Engine.Values
import PbEntityDb.Engine.Walks

/-!
The buffers behind the bind array of libzdb, up to `Exec`.

* `Parameter` is a slot of the bind array: a number stands in `P->params` itself,
  of a text there are only the address and the length.
* The functions in the namespace `Memory` are those of `Engine.Bind` with the store
  that the addresses point into. For a `char *` the call of `AddInputParameter`
  goes to the overload with a `std::string`, a temporary that is released when the
  call returns.
* `addInputParams_bound` says what the loop leaves in the bind array,
  `addInputParams_sent` what the database gets of it, and `survives_iff` for which
  parameters the buffers survive until `Exec`.
* `string_dangles`: two strings, of which the first one is overwritten.
-/

namespace PbEntityDb.Memory

open Storage

/-! ### The bind array -/

/-- A slot of the bind array. -/
inductive Parameter where
  | int (v : BitVec 32)
  | llong (v : BitVec 64)
  | double (v : BitVec 64)
  | timestamp (t : BitVec 64)
  | string (buffer length : ℕ)
  | blob (buffer length : ℕ)
  deriving DecidableEq, Repr

/-- The buffer that a slot refers to. -/
def Parameter.buffer : Parameter → Option ℕ
  | .string buffer _ => some buffer
  | .blob buffer _ => some buffer
  | _ => none

/-- What `mysql_stmt_execute` sends for a slot. -/
def Parameter.sent (st : Store Text) : Parameter → Option BoundValue
  | .int v => some (.int v)
  | .llong v => some (.llong v)
  | .double v => some (.double v)
  | .timestamp t => some (.timestamp t)
  | .string buffer length => (st.read buffer).map fun bytes => .string (bytes.take length)
  | .blob buffer length => (st.read buffer).map fun bytes => .blob (bytes.take length)

/-- The bind array of a prepared statement, and the index of the last parameter that
was set. -/
structure BindArray where
  slots : List (Option Parameter)
  inParamIndex : ℕ
  deriving DecidableEq, Repr

/-- The bind array of a statement with `n` placeholders. -/
def BindArray.prepared (n : ℕ) : BindArray := ⟨List.replicate n none, 0⟩

/-- `MysqlPreparedStatement_set*` at the next index. -/
def BindArray.set (s : BindArray) (x : Parameter) : Except Fault BindArray := do
  let i ← ZdbStatement.checkAndSetParameterIndex (s.inParamIndex + 1) s.slots.length
  .ok ⟨s.slots.set i (some x), s.inParamIndex + 1⟩

/-! ### Binding -/

/-- A parameter that was collected, with the address of its string in the message. -/
structure Placed where
  leaf : Leaf
  home : ℕ

section Bind

variable (A : Allocator Text)

/-- The overloads of `AddInputParameter`, chosen by the types that the cases of
`AddOneInputParam` pass. -/
def addInputParameter (home : ℕ) (st : Store Text) (s : BindArray) :
    BoundValue → Except Fault (Store Text × BindArray)
  | .int v => do
      let s ← s.set (.int v)
      .ok (st, s)
  | .llong v => do
      let s ← s.set (.llong v)
      .ok (st, s)
  | .double v => do
      let s ← s.set (.double v)
      .ok (st, s)
  | .timestamp t => do
      let s ← s.set (.timestamp t)
      .ok (st, s)
  | .string str => do
      -- a `char *` is converted: the parameter `sStr` is a temporary of the caller
      let (sStr, st) := st.alloc A str
      let s ← s.set (.string sStr str.length)
      .ok (st.release sStr, s)
  | .blob str => do
      -- an `unsigned char *` is handed on
      let s ← s.set (.blob home str.length)
      .ok (st, s)

/-- `Protobuf2DbEngine::AddOneInputParam`. -/
def addOneInputParam (st : Store Text) (s : BindArray) (it : Placed) :
    Except Fault (Bool × Store Text × BindArray) := do
  match ← it.leaf.inputValue with
  | none => .ok (false, st, s)
  | some v =>
      let (st, s) ← addInputParameter A it.home st s v
      .ok (true, st, s)

/-- The loop over the collected parameters. -/
def addInputParams : Store Text → BindArray → List Placed → Except Fault (Store Text × BindArray)
  | st, s, [] => .ok (st, s)
  | st, s, it :: vInParam => do
      let (_, st, s) ← addOneInputParam A st s it
      addInputParams st s vInParam

/-- Collected parameters in memory: the strings of their message are live where they
are placed. -/
structure Params (ls : List Leaf) where
  store : Store Text
  placed : List Placed
  collected : placed.map Placed.leaf = ls
  holds : ∀ p ∈ placed, ∀ str, p.leaf.value.getStringReference = .ok str →
    store.live p.home = some str

/-- The parameters that `ParseInsertParams` binds, in their order. -/
def insertParams (pParams : Message) (vInKey vSet : List Name) : List Leaf :=
  let (vKeyParam, vSetParam) := collectEntityInputParams vInKey vSet pParams ([], [])
  vKeyParam ++ vSetParam

/-- `Protobuf2DbEngine::ParseInsertParams`. -/
def parseInsertParams (pS : BindArray) {pParams : Message} {vInKey vSet : List Name}
    (params : Params (insertParams pParams vInKey vSet)) : Except Fault (Store Text × BindArray) :=
  addInputParams A params.store pS params.placed

/-- `Protobuf2DbEngine::ParseEntityParams`. -/
def parseEntityParams (pS : BindArray) {pParams : Message} {vInKey vSet : List Name}
    (params : Params (entityParams pParams vInKey vSet)) : Except Fault (Store Text × BindArray) :=
  addInputParams A params.store pS params.placed

/-- `Protobuf2DbEngine::ParseProcParams`. -/
def parseProcParams (pS : BindArray) {pParams : Message}
    (params : Params (collectProcInputParams pParams [])) :
    Except Fault (Store Text × BindArray) :=
  addInputParams A params.store pS params.placed

end Bind

/-- **The buffers survive**: at `Exec` each of them is live, and what is sent for the
fields is what was given for them. -/
structure Survives (st : Store Text) (s : BindArray) (vs : List BoundValue) : Prop where
  live : ∀ x : Parameter, some x ∈ s.slots → ∀ a, x.buffer = some a →
    (st.live a).isSome = true
  sent : ∀ (i : ℕ) (v : BoundValue), vs[i]? = some v →
    ∃ x : Parameter, s.slots[i]? = some (some x) ∧ x.sent st = some v

/-! ### What the loop leaves behind -/

/-- The bind array of `n` slots of which the first ones are set. -/
def bound (n : ℕ) (xs : List Parameter) : BindArray :=
  ⟨xs.map some ++ List.replicate (n - xs.length) none, xs.length⟩

lemma set_bound {n : ℕ} {xs : List Parameter} (h : xs.length ≤ n) {x : Parameter} {s : BindArray}
    (hs : (bound n xs).set x = .ok s) : xs.length < n ∧ s = bound n (xs ++ [x]) := by
  have hlen : (bound n xs).slots.length = n := by
    simp only [bound, List.length_append, List.length_map, List.length_replicate]
    omega
  obtain ⟨i, hi, heq⟩ := bind_ok hs
  rw [ZdbStatement.checkAndSetParameterIndex, hlen] at hi
  by_cases hlt : xs.length < n
  · have hindex : (bound n xs).inParamIndex + 1 = xs.length + 1 := rfl
    rw [hindex, if_neg (by omega), Nat.add_sub_cancel, Except.ok.injEq] at hi
    cases heq
    obtain ⟨k, rfl⟩ : ∃ k, n = xs.length + (k + 1) := ⟨n - xs.length - 1, by omega⟩
    have hk : xs.length + (k + 1) - (xs.length + 1) = k := by omega
    refine ⟨hlt, ?_⟩
    simp [bound, ← hi, List.set_append_right, List.replicate_succ, hk]
  · have hindex : (bound n xs).inParamIndex + 1 = xs.length + 1 := rfl
    rw [hindex, if_pos (by omega)] at hi
    cases hi

/-- A value and the slot that it is handed over in. -/
inductive Handed (st : Store Text) : BoundValue → Parameter → Prop
  | int (v : BitVec 32) : Handed st (.int v) (.int v)
  | llong (v : BitVec 64) : Handed st (.llong v) (.llong v)
  | double (v : BitVec 64) : Handed st (.double v) (.double v)
  | timestamp (t : BitVec 64) : Handed st (.timestamp t) (.timestamp t)
  /-- the temporary is gone; something can still be read where it was -/
  | string {str bytes : Text} {a : ℕ} (hlive : st.live a = none) (hread : st.read a = some bytes) :
      Handed st (.string str) (.string a str.length)
  /-- the string of the message is still there -/
  | blob {str : Text} {a : ℕ} (hlive : st.live a = some str) :
      Handed st (.blob str) (.blob a str.length)

/-- The live blocks stay as they are, and what can be read can still be read. -/
structure Keeps (st st' : Store Text) : Prop where
  live : st'.live = st.live
  read : ∀ a, (st.read a).isSome = true → (st'.read a).isSome = true

lemma Keeps.refl (st : Store Text) : Keeps st st := ⟨rfl, fun _ => id⟩

lemma Keeps.trans {st st' st'' : Store Text} (h : Keeps st st') (h' : Keeps st' st'') :
    Keeps st st'' :=
  ⟨h'.live.trans h.live, fun a ha => h'.read a (h.read a ha)⟩

lemma Handed.keeps {st st' : Store Text} (hst : Keeps st st') {v : BoundValue} {x : Parameter}
    (h : Handed st v x) : Handed st' v x := by
  cases h with
  | int v => exact .int v
  | llong v => exact .llong v
  | double v => exact .double v
  | timestamp t => exact .timestamp t
  | @string str bytes a hlive hread =>
      obtain ⟨bytes', hread'⟩ := Option.isSome_iff_exists.mp (hst.read a (by rw [hread]; rfl))
      exact .string (by rw [hst.live, hlive]) hread'
  | blob hlive => exact .blob (by rw [hst.live, hlive])

/-- **One call of `AddInputParameter`** sets the next slot, and leaves the live blocks
as they were. -/
lemma addInputParameter_bound {A : Allocator Text} {home n : ℕ} {st st' : Store Text}
    {xs : List Parameter} {s : BindArray} {v : BoundValue} (hn : xs.length ≤ n)
    (hhome : ∀ str, v = .blob str → st.live home = some str)
    (h : addInputParameter A home st (bound n xs) v = .ok (st', s)) :
    ∃ x, xs.length < n ∧ s = bound n (xs ++ [x]) ∧ Keeps st st' ∧ Handed st' v x := by
  -- what all cases have in common: the slot is set, and the store is `st''` behind it
  have hset : ∀ {x : Parameter} {st'' : Store Text}, Keeps st st'' → Handed st'' v x →
      ((bound n xs).set x).bind (fun s => .ok (st'', s)) = .ok (st', s) →
        ∃ x, xs.length < n ∧ s = bound n (xs ++ [x]) ∧ Keeps st st' ∧ Handed st' v x := by
    intro x st'' hst hx h
    obtain ⟨s', hs, heq⟩ := bind_ok h
    cases heq
    obtain ⟨hlt, rfl⟩ := set_bound hn hs
    exact ⟨x, hlt, rfl, hst, hx⟩
  have hrefl := Keeps.refl st
  cases v with
  | int v => exact hset hrefl (.int v) h
  | llong v => exact hset hrefl (.llong v) h
  | double v => exact hset hrefl (.double v) h
  | timestamp t => exact hset hrefl (.timestamp t) h
  | string str =>
      have hst : Keeps st ((st.alloc A str).2.release (st.alloc A str).1) :=
        ⟨st.live_temporary A str, fun a ha => st.isSome_read_temporary A str (.inl ha)⟩
      obtain ⟨bytes, hread⟩ := Option.isSome_iff_exists.mp
        (st.isSome_read_temporary A str (.inr rfl))
      have hlive :
          ((st.alloc A str).2.release (st.alloc A str).1).live (st.alloc A str).1 = none := by
        rw [st.live_temporary]
        exact A.free st
      exact hset hst (.string hlive hread) h
  | blob str => exact hset hrefl (.blob (hhome str rfl)) h

/-- The value of a `bytes` field is its string. -/
lemma getStringReference_of_blob {l : Leaf} {str : Text} (h : l.boundValue = some (.blob str)) :
    l.value.getStringReference = .ok str := by
  obtain ⟨⟨name, type, presence, oneof, defaultValue, htyped, hscalar⟩, hasBit, value, typed⟩ := l
  cases type <;> cases value <;> cases h
  rfl

/-- **What the loop leaves behind**, if it returns: a slot for each parameter that has
a value, and the live blocks as they were. -/
theorem addInputParams_bound {A : Allocator Text} {n : ℕ} {st st' : Store Text}
    {xs : List Parameter} {s : BindArray} {ps : List Placed} (hn : xs.length ≤ n)
    (hholds : ∀ p ∈ ps, ∀ str, p.leaf.value.getStringReference = .ok str →
      st.live p.home = some str)
    (h : addInputParams A st (bound n xs) ps = .ok (st', s)) :
    ∃ ys, s = bound n (xs ++ ys) ∧ xs.length + ys.length ≤ n ∧ Keeps st st'
      ∧ (ps.map Placed.leaf).any Leaf.mistyped = false
      ∧ List.Forall₂ (Handed st') ((ps.map Placed.leaf).filterMap Leaf.boundValue) ys := by
  induction ps generalizing st xs with
  | nil =>
      cases h
      exact ⟨[], by rw [List.append_nil], hn, .refl _, rfl, .nil⟩
  | cons it ps ih =>
      have hrest : ∀ p ∈ ps, ∀ str, p.leaf.value.getStringReference = .ok str →
          st.live p.home = some str := fun p hp => hholds p (List.mem_cons_of_mem _ hp)
      obtain ⟨⟨b, st₁, s₁⟩, hone, h⟩ := bind_ok h
      obtain ⟨value, hvalue, hone⟩ := bind_ok hone
      have hbound : it.leaf.boundValue = value := by rw [Leaf.boundValue, hvalue]
      have htyped : it.leaf.mistyped = false := by
        rw [Leaf.inputValue_eq] at hvalue
        by_contra hm
        rw [if_pos (by simpa using hm)] at hvalue
        cases hvalue
      rw [List.map_cons, List.any_cons, htyped, Bool.false_or]
      cases value with
      | none =>
          cases hone
          rw [List.filterMap_cons_none hbound]
          exact ih hn hrest h
      | some v =>
          obtain ⟨⟨st₂, s₂⟩, hset, heq⟩ := bind_ok hone
          cases heq
          have hhome : ∀ str, v = .blob str → st.live it.home = some str := by
            rintro str rfl
            exact hholds it List.mem_cons_self str (getStringReference_of_blob hbound)
          obtain ⟨x, hlt, rfl, hst, hx⟩ := addInputParameter_bound hn hhome hset
          have hn' : (xs ++ [x]).length ≤ n := by
            rw [List.length_append, List.length_singleton]
            omega
          obtain ⟨ys, rfl, hlen, hst', htyped', hys⟩ := ih hn' (hst.live ▸ hrest) h
          rw [List.length_append, List.length_singleton] at hlen
          refine ⟨x :: ys, by rw [List.append_assoc, List.singleton_append], ?_,
            hst.trans hst', htyped', ?_⟩
          · rw [List.length_cons]
            omega
          rw [List.filterMap_cons_some hbound]
          exact .cons (hx.keeps hst') hys

/-! ### When the buffers survive -/

/-- The buffer of a string is that of a temporary. -/
lemma Handed.dangles {st : Store Text} {v : BoundValue} {x : Parameter} (h : Handed st v x)
    (hv : v.isString = true) : ∃ a, x.buffer = some a ∧ st.live a = none := by
  cases h with
  | string hdead _ => exact ⟨_, rfl, hdead⟩
  | int v => cases hv
  | llong v => cases hv
  | double v => cases hv
  | timestamp t => cases hv
  | blob hlive => cases hv

/-- Everything else is sent as it was given. -/
lemma Handed.sent {st : Store Text} {v : BoundValue} {x : Parameter} (h : Handed st v x)
    (hv : v.isString = false) :
    x.sent st = some v ∧ ∀ a, x.buffer = some a → (st.live a).isSome = true := by
  cases h with
  | string hdead _ => cases hv
  | int v => exact ⟨rfl, fun a ha => by cases ha⟩
  | llong v => exact ⟨rfl, fun a ha => by cases ha⟩
  | double v => exact ⟨rfl, fun a ha => by cases ha⟩
  | timestamp t => exact ⟨rfl, fun a ha => by cases ha⟩
  | @blob str a hlive =>
      constructor
      · show (st.read a).map _ = _
        rw [Store.read_of_live hlive, Option.map_some, List.take_length]
      · intro b hb
        cases hb
        rw [hlive]
        rfl

/-- Every slot was handed a value. -/
lemma Handed.exists_value {st : Store Text} {vs : List BoundValue} {xs : List Parameter}
    (h : List.Forall₂ (Handed st) vs xs) {x : Parameter} (hx : x ∈ xs) :
    ∃ v ∈ vs, Handed st v x := by
  induction h with
  | nil => cases hx
  | @cons v x' vs xs hvx _ ih =>
      rcases List.mem_cons.mp hx with rfl | hx
      · exact ⟨v, List.mem_cons_self, hvx⟩
      · obtain ⟨w, hw, hwx⟩ := ih hx
        exact ⟨w, List.mem_cons_of_mem _ hw, hwx⟩

/-- **What the database gets**: of a string what stands where the temporary was. -/
lemma Handed.sent_eq {st : Store Text} {v : BoundValue} {x : Parameter} (h : Handed st v x) :
    x.sent st = some (v.sentFrom ((x.buffer.bind st.read).getD [])) := by
  cases h with
  | @string str bytes a hlive hread =>
      show (st.read a).map _ = some (BoundValue.string (((st.read a).getD []).take str.length))
      rw [hread]
      rfl
  | blob hlive => exact (Handed.sent (.blob hlive) rfl).1
  | int v => rfl
  | llong v => rfl
  | double v => rfl
  | timestamp t => rfl

/-- A parameter holds a value exactly if its buffer is still there at `Exec`, and the value is
what is sent. -/
lemma Handed.holds_iff {st : Store Text} {v : BoundValue} {x : Parameter} (h : Handed st v x)
    (y : SqlValue) :
    v.Holds y ↔ (∀ a, x.buffer = some a → (st.live a).isSome = true)
      ∧ ∃ w, x.sent st = some w ∧ w.value = some y := by
  constructor
  · rintro ⟨hstring, hvalue⟩
    obtain ⟨hsent, hlive⟩ := h.sent hstring
    exact ⟨hlive, v, hsent, hvalue⟩
  · rintro ⟨hlive, w, hsent, hvalue⟩
    have hstring : v.isString = false := by
      by_contra hv
      obtain ⟨a, ha, hdead⟩ := h.dangles (by simpa using hv)
      have hisSome := hlive a ha
      rw [hdead] at hisSome
      cases hisSome
    rw [(h.sent hstring).1] at hsent
    cases hsent
    exact ⟨hstring, hvalue⟩

/-- What stands where the strings of the slots were. -/
def released (st : Store Text) (xs : List Parameter) (i : ℕ) : Text :=
  ((xs[i]?.bind Parameter.buffer).bind st.read).getD []

lemma Handed.map_sent {st : Store Text} {vs : List BoundValue} {xs : List Parameter}
    (h : List.Forall₂ (Handed st) vs xs) :
    xs.map (Parameter.sent st) = (sentValues (released st xs) vs).map some := by
  refine List.ext_getElem (by simp [h.length_eq]) fun i hi hi' => ?_
  have hx : i < xs.length := by simpa using hi
  have hv : i < vs.length := by simpa using hi'
  have hget : Handed st vs[i] xs[i] := h.get hv hx
  rw [List.getElem_map, List.getElem_map, hget.sent_eq]
  simp [sentValues, released, hx]

/-- **Only the slots of strings dangle.** -/
lemma survives_bound_iff {st : Store Text} {n : ℕ} {vs : List BoundValue} {xs : List Parameter}
    (h : List.Forall₂ (Handed st) vs xs) :
    Survives st (bound n xs) vs ↔ ∀ v ∈ vs, v.isString = false := by
  have hhanded : ∀ {v : BoundValue} {i : ℕ}, vs[i]? = some v →
      ∃ x, (bound n xs).slots[i]? = some (some x) ∧ Handed st v x := by
    intro v i hv
    obtain ⟨hi, rfl⟩ := List.getElem?_eq_some_iff.mp hv
    have hi' : i < xs.length := by
      rw [← h.length_eq]
      exact hi
    refine ⟨xs[i], ?_, h.get hi hi'⟩
    show (xs.map some ++ _)[i]? = some (some xs[i])
    rw [List.getElem?_append_left (by rw [List.length_map]; exact hi'), List.getElem?_map,
      List.getElem?_eq_getElem hi', Option.map_some]
  constructor
  · intro hsurvives v hv
    by_contra hstring
    rw [Bool.not_eq_false] at hstring
    obtain ⟨i, hi⟩ := List.getElem?_of_mem hv
    obtain ⟨x, hx, hvx⟩ := hhanded hi
    obtain ⟨a, ha, hdead⟩ := hvx.dangles hstring
    have hlive := hsurvives.live x (List.mem_of_getElem? hx) a ha
    rw [hdead] at hlive
    cases hlive
  · intro hnone
    constructor
    · intro x hx
      have hmem : x ∈ xs := by simpa [bound] using hx
      obtain ⟨v, hv, hvx⟩ := Handed.exists_value h hmem
      exact (hvx.sent (hnone v hv)).2
    · intro i v hv
      obtain ⟨x, hx, hvx⟩ := hhanded hv
      exact ⟨x, hx, (hvx.sent (hnone v (List.mem_of_getElem? hv))).1⟩

lemma boundValue_of_string {l : Leaf} (h : l.field.type = .string) :
    ∃ v, l.boundValue = some v := by
  obtain ⟨⟨name, type, presence, oneof, defaultValue, htyped, hscalar⟩, hasBit, value, typed⟩ := l
  cases h
  cases value with
  | string str => exact ⟨_, rfl⟩
  | _ => cases typed

lemma isString_values_iff (ls : List Leaf) :
    (∀ v ∈ ls.filterMap Leaf.boundValue, v.isString = false)
      ↔ ∀ l ∈ ls, l.field.type ≠ .string := by
  constructor
  · intro hnone l hl htype
    obtain ⟨v, hv⟩ := boundValue_of_string htype
    have hstring := (isString_boundValue hv).mpr htype
    rw [hnone v (List.mem_filterMap.mpr ⟨l, hl, hv⟩)] at hstring
    cases hstring
  · intro hnone v hv
    obtain ⟨l, hl, hlv⟩ := List.mem_filterMap.mp hv
    exact isString_eq_false hlv (hnone l hl)

section Run

variable {A : Allocator Text} {n : ℕ} {ls : List Leaf} {params : Params ls} {st : Store Text}
  {s : BindArray}

/-- **When the buffers of a run survive**: if none of the parameters is a string. -/
lemma survives_of_run
    (h : addInputParams A params.store (bound n []) params.placed = .ok (st, s)) :
    Survives st s (ls.filterMap Leaf.boundValue) ↔ ∀ l ∈ ls, l.field.type ≠ .string := by
  obtain ⟨ys, rfl, -, -, -, hys⟩ := addInputParams_bound (Nat.zero_le n) params.holds h
  rw [params.collected] at hys
  rw [List.nil_append, survives_bound_iff hys, isString_values_iff]

/-- **The model without addresses** has the same slots, and the database gets what they hold,
each string from where its temporary was. -/
theorem addInputParams_sent
    (h : addInputParams A params.store (bound n []) params.placed = .ok (st, s)) (sql : Text) :
    ∃ s' heap, PbEntityDb.addInputParams (.holding sql n []) ls = .ok s'
      ∧ s'.inParamIndex = s.inParamIndex
      ∧ (s'.sent heap).stmt = some ⟨s.slots.map fun x => x.bind (Parameter.sent st)⟩ := by
  obtain ⟨ys, rfl, hlen, -, htyped, hys⟩ := addInputParams_bound (Nat.zero_le n) params.holds h
  rw [params.collected] at hys htyped
  rw [List.length_nil, Nat.zero_add] at hlen
  rw [← boundValues_of_not_mistyped htyped] at hys
  have hsent := Handed.map_sent hys
  have hroom : (boundValues ls).length ≤ n := by
    rw [hys.length_eq]
    omega
  have hslots : (bound n ([] ++ ys)).slots.map (fun x => x.bind (Parameter.sent st))
      = ZdbStatement.filled n (sentValues (released st ys) (boundValues ls)) := by
    rw [ZdbStatement.filled, ← hsent, length_sentValues, hys.length_eq]
    simp [bound]
  refine ⟨.holding sql n (boundValues ls), released st ys, ?_, hys.length_eq, ?_⟩
  · rw [addInputParams_prepared, if_pos hroom, htyped, if_neg Bool.false_ne_true]
  · rw [ZdbStatement.sent_holding, hslots]
    rfl

end Run

/-- **When the buffers survive until `Exec`**, behind each of the three functions that
bind the parameters of a message: exactly if none of the fields that are bound is a
`string`. -/
theorem survives_iff (A : Allocator Text) (n : ℕ) (pParams : Message) (vInKey vSet : List Name)
    (st : Store Text) (s : BindArray) :
    (∀ params : Params (insertParams pParams vInKey vSet),
        parseInsertParams A (.prepared n) params = .ok (st, s) →
          (Survives st s ((insertParams pParams vInKey vSet).filterMap Leaf.boundValue)
            ↔ ∀ l ∈ leaves pParams, l.name ∈ vInKey ∨ l.name ∈ vSet → l.field.type ≠ .string))
      ∧ (∀ params : Params (entityParams pParams vInKey vSet),
        parseEntityParams A (.prepared n) params = .ok (st, s) →
          (Survives st s ((entityParams pParams vInKey vSet).filterMap Leaf.boundValue)
            ↔ ∀ l ∈ leaves pParams, l.name ∈ vInKey ∨ l.name ∈ vSet → l.field.type ≠ .string))
      ∧ ∀ params : Params (collectProcInputParams pParams []),
        parseProcParams A (.prepared n) params = .ok (st, s) →
          (Survives st s ((collectProcInputParams pParams []).filterMap Leaf.boundValue)
            ↔ ∀ l ∈ leaves pParams, l.field.type ≠ .string) := by
  have hnamed : ∀ {l : Leaf} {names : List Name},
      l ∈ leavesNamed names pParams ↔ l ∈ leaves pParams ∧ l.name ∈ names := by
    intro l names
    rw [leavesNamed, List.mem_filter, decide_eq_true_eq]
  refine ⟨fun params h => ?_, fun params h => ?_, fun params h => ?_⟩
  · rw [survives_of_run h, insertParams, collectEntityInputParams_eq]
    simp only [List.nil_append, List.mem_append, hnamed, or_imp, and_imp, forall_and]
  · rw [survives_of_run h, entityParams, collectEntityInputParams_eq]
    simp only [List.nil_append, List.mem_append, hnamed, or_imp, and_imp, forall_and, and_comm]
  · rw [survives_of_run h, collectProcInputParams_eq, List.nil_append]

/-! ### Two strings -/

/-- A field of type `string`. -/
def textLeaf (name : Name) (str : Text) : Leaf where
  field :=
    { name := name, type := .string, presence := false, oneof := none,
      defaultValue := .string [], typed := rfl, scalar := by decide }
  hasBit := false
  value := .string str
  typed := rfl

/-- The name that an account has. -/
def oldName : Leaf := textLeaf ⟨"old_name".toList, List.all_eq_true.mp rfl⟩ "ann".toList

/-- The name that it is to have. -/
def newName : Leaf := textLeaf ⟨"new_name".toList, List.all_eq_true.mp rfl⟩ "bob".toList

/-- The arguments of a procedure that renames an account. -/
def renameParam : Message := [.leaf oldName, .leaf newName]

/-- They stand at the first two addresses. -/
def renameInMemory : Params (collectProcInputParams renameParam []) where
  store := (Store.empty.write 0 "ann".toList).write 1 "bob".toList
  placed := [⟨oldName, 0⟩, ⟨newName, 1⟩]
  collected := rfl
  holds := by
    intro p hp str hstr
    simp only [List.mem_cons, List.not_mem_nil, or_false] at hp
    rcases hp with rfl | rfl <;> cases hstr <;> rfl

/-- **Strings that dangle**, wherever the temporaries stand; and where the storage of the
first one is handed out to the second one, the second string is sent twice. -/
theorem string_dangles :
    (∀ A, ∃ st s, parseProcParams A (.prepared 2) renameInMemory = .ok (st, s)
        ∧ ¬ Survives st s [.string "ann".toList, .string "bob".toList])
      ∧ ∃ st s, parseProcParams .lowest (.prepared 2) renameInMemory = .ok (st, s)
        ∧ s.slots.map (fun x => x.bind (Parameter.sent st))
          = [some (.string "bob".toList), some (.string "bob".toList)] := by
  refine ⟨fun A => ?_, _, _, rfl, rfl⟩
  obtain ⟨st, s, hrun⟩ : ∃ st s, parseProcParams A (.prepared 2) renameInMemory = .ok (st, s) :=
    ⟨_, _, rfl⟩
  refine ⟨st, s, hrun, fun hsurvives => ?_⟩
  have hloop : addInputParams A renameInMemory.store (bound 2 []) renameInMemory.placed
      = .ok (st, s) := hrun
  have hnone := (survives_of_run hloop).mp hsurvives
  exact hnone oldName List.mem_cons_self rfl

end PbEntityDb.Memory
