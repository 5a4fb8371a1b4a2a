import PbEntityDb.Engine.Raising
import PbEntityDb.Library.Checked

/-!
What an exception in a call of libzdb does to a statement and to a record.

* `Raising.BindsAs`: the calls that bind values are left by an exception.
* `Harmless` says of a walk over a message type that every accessor that raises
  belongs to a field for which this makes no difference.
* `addFirst_alike`: the walk by name goes on behind an exception, with the initial
  value of the variable in the record.
* `addReturn_checked`: the walk by index is left by an exception, and
  `addReturn_endsIf` says when it returns without one.
-/

namespace PbEntityDb

/-! ### Binding -/

namespace Raising

/-- What comes out of `x` is what comes out of `y`, if none of the calls that bind a
value raises. `n` values are bound before, and `index` counts those behind. -/
structure BindsAs {α : Type} (raises : ℕ → Bool) (n : ℕ) (index : α → ℕ) (x y : Except Fault α) :
    Prop where
  ok_iff : ∀ a, x = .ok a ↔ y = .ok a ∧ ∀ k, n ≤ k → k < index a → raises k = false
  le : ∀ a, y = .ok a → n ≤ index a

namespace BindsAs

variable {α β : Type} {raises : ℕ → Bool} {n : ℕ} {index : α → ℕ} {x y : Except Fault α}

/-- Nothing is bound. -/
lemma ok {a : α} (h : index a = n) : BindsAs raises n index (.ok a) (.ok a) := by
  constructor
  · intro b
    constructor
    · intro hb
      cases hb
      exact ⟨rfl, fun k hk hk' => by omega⟩
    · exact fun hb => hb.1
  · intro b hb
    cases hb
    exact h.ge

/-- Both end in an error. -/
lemma error (e e' : Fault) : BindsAs raises n index (.error e) (.error e') := by
  constructor
  · intro b
    constructor
    · intro hb
      cases hb
    · intro hb
      cases hb.1
  · intro b hb
    cases hb

/-- A part that binds nothing. -/
lemma same (h : ∀ a, x = .ok a → index a = n) : BindsAs raises n index x x := by
  cases x with
  | error e => exact error e e
  | ok a => exact ok (h a rfl)

/-- **One part behind another.** -/
lemma bind {index' : β → ℕ} {f g : α → Except Fault β} (h : BindsAs raises n index x y)
    (hnext : ∀ a, y = .ok a → BindsAs raises (index a) index' (f a) (g a)) :
    BindsAs raises n index' (x.bind f) (y.bind g) := by
  have hle : ∀ b a, y = .ok a → g a = .ok b → n ≤ index a ∧ index a ≤ index' b :=
    fun b a ha hb => ⟨h.le a ha, (hnext a ha).le b hb⟩
  constructor
  · intro b
    constructor
    · intro hx
      obtain ⟨a, ha, hb⟩ := bind_ok hx
      obtain ⟨hy, hquiet⟩ := (h.ok_iff a).mp ha
      obtain ⟨hg, hquiet'⟩ := ((hnext a hy).ok_iff b).mp hb
      refine ⟨by rw [hy]; exact hg, fun k hk hk' => ?_⟩
      by_cases hlt : k < index a
      · exact hquiet k hk hlt
      · exact hquiet' k (by omega) hk'
    · rintro ⟨hy, hquiet⟩
      obtain ⟨a, ha, hb⟩ := bind_ok hy
      obtain ⟨hna, hab⟩ := hle b a ha hb
      have hx := (h.ok_iff a).mpr ⟨ha, fun k hk hk' => hquiet k hk (by omega)⟩
      have hf := ((hnext a ha).ok_iff b).mpr ⟨hb, fun k hk hk' => hquiet k (by omega) hk'⟩
      rw [hx]
      exact hf
  · intro b hy
    obtain ⟨a, ha, hb⟩ := bind_ok hy
    obtain ⟨hna, hab⟩ := hle b a ha hb
    exact hna.trans hab

end BindsAs

/-- One value is bound. -/
lemma addInputParameter_binds (raises : ℕ → Bool) (s : ZdbStatement) (v : BoundValue) :
    BindsAs raises s.inParamIndex ZdbStatement.inParamIndex (addInputParameter raises s v)
      (s.addInputParameter v) := by
  have hindex : ∀ s', s.addInputParameter v = .ok s' → s'.inParamIndex = s.inParamIndex + 1 := by
    intro s' h
    rw [ZdbStatement.addInputParameter] at h
    cases hs : s.stmt with
    | none =>
        rw [hs] at h
        cases h
    | some p =>
        rw [hs] at h
        obtain ⟨i, -, heq⟩ := bind_ok h
        cases heq
        rfl
  refine ⟨fun s' => ?_, fun s' h => by rw [hindex s' h]; omega⟩
  rw [addInputParameter]
  by_cases hraises : raises s.inParamIndex = true
  · rw [if_pos hraises]
    constructor
    · intro h
      cases h
    · rintro ⟨h, hquiet⟩
      have hno := hquiet s.inParamIndex (le_refl _) (by rw [hindex s' h]; omega)
      rw [hraises] at hno
      cases hno
  · rw [if_neg hraises]
    refine ⟨fun h => ⟨h, fun k hk hk' => ?_⟩, fun h => h.1⟩
    rw [hindex s' h] at hk'
    obtain rfl : k = s.inParamIndex := by omega
    simpa using hraises

/-- The values are bound one by one. -/
lemma addInputParams_binds (raises : ℕ → Bool) (s : ZdbStatement) (ls : List Leaf) :
    BindsAs raises s.inParamIndex ZdbStatement.inParamIndex (addInputParams raises s ls)
      (PbEntityDb.addInputParams s ls) := by
  induction ls generalizing s with
  | nil => exact BindsAs.ok rfl
  | cons it ls ih =>
      rw [addInputParams, PbEntityDb.addInputParams, addOneInputParam]
      cases it.inputValue with
      | error e => exact BindsAs.error e e
      | ok v =>
          cases v with
          | none => exact ih s
          | some v =>
              have h := (addInputParameter_binds raises s v).bind fun s₁ _ => ih s₁
              cases hinput : s.addInputParameter v <;> simpa [bind, Except.bind, hinput] using h

/-- Preparing binds nothing. -/
lemma inParamIndex_prepare (db : Server) (s : ZdbStatement) (sql : Text) :
    (s.prepare db sql).2.inParamIndex = s.inParamIndex := by
  rw [ZdbStatement.prepare]
  split <;> rfl

lemma inParamIndex_prepare_eq {db : Server} {s : ZdbStatement} {sql : Text} {fits : Prop}
    [Decidable fits] {x : Except Fault (Bool × ZdbStatement)}
    (h : x = if fits then .ok (s.prepare db sql) else .error .bufferOverflow)
    (p : Bool × ZdbStatement) (hp : x = .ok p) : p.2.inParamIndex = s.inParamIndex := by
  rw [h] at hp
  by_cases hfits : fits
  · rw [if_pos hfits, Except.ok.injEq] at hp
    rw [← hp, inParamIndex_prepare]
  · rw [if_neg hfits] at hp
    cases hp

/-- **`ParseSelect`** does what it does without failures, if no call that binds a
value raises. -/
theorem parseSelect_binds (sch : Schedule) (db : Server) (entity : Message) (sTableName : Name)
    (vInKey : List Name) :
    BindsAs (fun k => sch (.bind k)) 0 (fun r => r.2.inParamIndex)
      (parseSelect sch db entity sTableName vInKey)
      (PbEntityDb.parseSelect (sch.server db) .new entity sTableName vInKey) := by
  have hprepare : BindsAs (fun k => sch (.bind k)) 0
      (fun p : Bool × ZdbStatement => p.2.inParamIndex)
      (ZdbStatement.new.prepareSelect (sch.server db) sTableName (validateKey vInKey entity []))
      _ :=
    BindsAs.same (inParamIndex_prepare_eq (Statement.prepare_eq (sch.server db) .new sTableName
      (.select (validateKey vInKey entity []))))
  refine hprepare.bind ?_
  rintro ⟨prepared, s⟩ -
  cases prepared with
  | false => exact BindsAs.ok rfl
  | true => exact (addInputParams_binds _ s _).bind fun s' _ => BindsAs.ok rfl

/-- **`ParseProc`** does what it does without failures, if no call that binds a
value raises. -/
theorem parseProcLoop_binds (sch : Schedule) (db : Server) (sProcName : ProcName)
    (fields : List Field) (s : ZdbStatement) :
    BindsAs (fun k => sch (.bind k)) s.inParamIndex (fun r => r.2.inParamIndex)
      (parseProcLoop sch db sProcName fields s)
      (PbEntityDb.parseProcLoop (sch.server db) sProcName fields s) := by
  induction fields generalizing s with
  | nil => exact BindsAs.ok rfl
  | cons f rest ih =>
      rw [parseProcLoop, PbEntityDb.parseProcLoop]
      by_cases hf : (f.isPresent && decide (f.name = paramName)) = true
      · rw [if_pos hf, if_pos hf]
        cases f.getMessage with
        | error e => exact BindsAs.error e e
        | ok param =>
            have hprepare : BindsAs (fun k => sch (.bind k)) s.inParamIndex
                (fun p : Bool × ZdbStatement => p.2.inParamIndex)
                (s.prepareStoredProcCall (sch.server db) sProcName (parseProcParamsCount param))
                _ :=
              BindsAs.same (inParamIndex_prepare_eq (ZdbStatement.prepareStoredProcCall_eq ..))
            refine hprepare.bind ?_
            rintro ⟨prepared, s₁⟩ -
            cases prepared with
            | false => exact BindsAs.ok rfl
            | true => exact (addInputParams_binds _ s₁ _).bind fun s₂ _ => ih s₂
      · rw [if_neg hf, if_neg hf]
        exact ih s

end Raising

/-! ### Harmless failures -/

section Harmless

variable (pool : Pool) (covered : List FieldDecl → Option ℕ → Bool) (ok : FieldDescriptor → Prop)

/-- The accessor for a field that raises, or one inside of its message, does no
harm. -/
def FieldDecl.Harmless (sub : Text → (List ℕ → Bool) → Prop) (raises : List ℕ → Bool) (i : ℕ) :
    FieldDecl → Prop
  | .leaf d => raises [i] = true → ok d
  | .message f => sub f.messageType fun path => raises (i :: path)
  | .repeated _ => True
  | .repeatedMessage _ => True

/-- The accessors for the fields from index `i` on do no harm; `covered` says that
the fields behind a field make up for it. -/
def harmlessLoop (sub : Text → (List ℕ → Bool) → Prop) (raises : List ℕ → Bool) :
    List FieldDecl → ℕ → Prop
  | [], _ => True
  | d :: ds, i =>
      (covered ds d.oneof = false → d.Harmless ok sub raises i) ∧ harmlessLoop sub raises ds (i + 1)

/-- **The accessors of a walk that raise do no harm**: they are those of fields
that are `ok` or `covered`. -/
def Harmless : ℕ → Text → (List ℕ → Bool) → Prop
  | 0, _, _ => True
  | stack + 1, messageType, raises =>
      harmlessLoop covered ok (Harmless stack) raises (pool messageType) 0

end Harmless

section Kept

variable (pool : Pool) (stray : Stray) (row : List Column)

/-- The column holds what the variable is initialised with. -/
def HoldsInitial (d : FieldDescriptor) : Prop :=
  readValue stray d none = readValue stray d (cellNamed row d.name.chars)

/-- The accessors by name that raise leave the record as the others would: the
column holds the initial value, or another member of the oneof is read behind it. -/
def Kept : ℕ → Text → (List ℕ → Bool) → Prop := Harmless pool overwrites (HoldsInitial stray row)

/-- No accessor by index raises. -/
def Quiet : ℕ → Text → (List ℕ → Bool) → Prop :=
  Harmless pool (fun _ _ => false) fun d => d.isRead = false

end Kept

/-! ### The walk by name -/

/-- Two walks do the same, and leave the same record exactly if `P` holds. -/
def AlikeIf (P : Prop) (x y : Except Fault (Message × ReadState)) : Prop :=
  (∃ e, x = .error e ∧ y = .error e)
    ∨ ∃ a b st, x = .ok (a, st) ∧ y = .ok (b, st) ∧ (a = b ↔ P)

namespace AlikeIf

variable {P Q : Prop} {x y : Except Fault (Message × ReadState)}

lemma congr (h : AlikeIf P x y) (hPQ : P ↔ Q) : AlikeIf Q x y := by
  rcases h with h | ⟨a, b, st, hx, hy, hab⟩
  · exact .inl h
  · exact .inr ⟨a, b, st, hx, hy, hab.trans hPQ⟩

/-- Walks behind the same step. -/
lemma step {z : Except Fault ReadState} {f g : ReadState → Except Fault (Message × ReadState)}
    (h : ∀ st, AlikeIf P (f st) (g st)) : AlikeIf P (z.bind f) (z.bind g) := by
  cases z with
  | error e => exact .inl ⟨e, rfl, rfl⟩
  | ok st => exact h st

end AlikeIf

section ByName

variable {pool : Pool} (stray : Stray) (row : List Column)

/-- Clearing keeps the type. -/
lemma hasDecls_map_clearOneof {m : Message} {ds : List FieldDecl} (h : HasDecls pool m ds)
    (o : Option ℕ) : HasDecls pool (m.map (Field.clearOneof o)) ds := by
  induction m generalizing ds with
  | nil => exact h
  | cons f m ih =>
      cases ds with
      | nil =>
          have hlen := length_of_hasDecls h
          cases hlen
      | cons d ds =>
          obtain ⟨hf, hm⟩ := hasDecls_cons.mp h
          refine hasDecls_cons.mpr ⟨?_, ih hm⟩
          rw [Field.clearOneof]
          split
          · exact hf.cleared
          · exact hf

/-- Two records agree on the fields that are done and on the next one. -/
lemma clearAll_concat_inj {ds : List FieldDecl} {a b : Message} {f g : Field} :
    clearAll ds (a ++ [f]) = clearAll ds (b ++ [g])
      ↔ clearAll ds a = clearAll ds b ∧ clearBy ds f = clearBy ds g := by
  rw [clearAll_append, clearAll_append, clearAll_eq_clearBy, clearAll_eq_clearBy]
  constructor
  · intro h
    obtain ⟨hinit, hlast⟩ := List.append_inj' h rfl
    exact ⟨hinit, List.singleton_inj.mp hlast⟩
  · rintro ⟨hinit, hlast⟩
    rw [hinit, hlast]

/-- Two fields of one kind that may be cleared. -/
lemma clearBy_inj {ds : List FieldDecl} {f g : Field} (ho : f.oneof = g.oneof)
    (hcleared : f.cleared = g.cleared) :
    clearBy ds f = clearBy ds g ↔ (overwrites ds g.oneof = false → f = g) := by
  rw [clearBy, clearBy, ho]
  cases overwrites ds g.oneof with
  | true => simp [hcleared]
  | false => simp

/-- The loops over `ds`, behind fields `a` and `b` that are done, leave the same record
exactly if the fields agree that are not overwritten and the failures are harmless. -/
def LoopsAlike (pool : Pool) (stray : Stray) (row : List Column)
    (subRaising : Text → (List ℕ → Bool) → Message → ReadState → Except Fault (Message × ReadState))
    (sub : Text → Message → ReadState → Except Fault (Message × ReadState))
    (subKept : Text → (List ℕ → Bool) → Prop) (raises : List ℕ → Bool) (ds : List FieldDecl) :
    Prop :=
  ∀ (a b rest : Message), a.length = b.length → HasDecls pool rest ds →
    ∀ (nFieldIndex : ℕ) (st : ReadState),
      AlikeIf (clearAll ds a = clearAll ds b
          ∧ harmlessLoop overwrites (HoldsInitial stray row) subKept raises ds a.length)
        (Raising.firstLoop pool stray row subRaising raises ds a.length (a ++ rest) nFieldIndex st)
        (firstLoop pool stray row sub ds b.length (b ++ rest) nFieldIndex st)

namespace LoopsAlike

variable {stray row}
  {subRaising : Text → (List ℕ → Bool) → Message → ReadState → Except Fault (Message × ReadState)}
  {sub : Text → Message → ReadState → Except Fault (Message × ReadState)}
  {subKept : Text → (List ℕ → Bool) → Prop} {raises : List ℕ → Bool} {ds : List FieldDecl}
  {a b rest : Message}

/-- Behind a field that is not written. -/
lemma kept (h : LoopsAlike pool stray row subRaising sub subKept raises ds)
    (hlen : a.length = b.length) (hrest : HasDecls pool rest ds) (f : Field) (d : FieldDecl)
    (hd : d.isWritten = false) (nFieldIndex : ℕ) (st : ReadState) :
    AlikeIf (clearAll (d :: ds) a = clearAll (d :: ds) b
        ∧ harmlessLoop overwrites (HoldsInitial stray row) subKept raises ds (a.length + 1))
      (Raising.firstLoop pool stray row subRaising raises ds (a.length + 1) (a ++ f :: rest)
        nFieldIndex st)
      (firstLoop pool stray row sub ds (b.length + 1) (b ++ f :: rest) nFieldIndex st) := by
  have hloop := h (a ++ [f]) (b ++ [f]) rest (by simp [hlen]) hrest nFieldIndex st
  rw [List.length_append, List.length_append, List.append_assoc, List.append_assoc,
    clearAll_concat_inj] at hloop
  refine hloop.congr (and_congr_left fun _ => ?_)
  rw [clearAll, clearAll, hd, if_neg (by simp), if_neg (by simp), and_iff_left rfl]

/-- Behind a field that becomes `g` and `g'`. -/
lemma written (h : LoopsAlike pool stray row subRaising sub subKept raises ds)
    (hlen : a.length = b.length) (hrest : HasDecls pool rest ds) (f : Field) (d : FieldDecl)
    (hd : d.isWritten = true) (g g' : Field) (ho : g.oneof = d.oneof) (ho' : g'.oneof = d.oneof)
    (hcleared : g.cleared = g'.cleared) (nFieldIndex : ℕ) (st : ReadState) :
    AlikeIf ((clearAll (d :: ds) a = clearAll (d :: ds) b
          ∧ (overwrites ds d.oneof = false → g = g'))
        ∧ harmlessLoop overwrites (HoldsInitial stray row) subKept raises ds (a.length + 1))
      (Raising.firstLoop pool stray row subRaising raises ds (a.length + 1)
        (setAt a.length g (a ++ f :: rest)) nFieldIndex st)
      (firstLoop pool stray row sub ds (b.length + 1) (setAt b.length g' (b ++ f :: rest))
        nFieldIndex st) := by
  have hlens : (a.map (Field.clearOneof d.oneof) ++ [g]).length
      = (b.map (Field.clearOneof d.oneof) ++ [g']).length := by simp [hlen]
  have hloop := h _ _ _ hlens (hasDecls_map_clearOneof hrest d.oneof) nFieldIndex st
  rw [List.length_append, List.length_append, List.length_map, List.length_map,
    List.append_assoc, List.append_assoc, clearAll_concat_inj,
    clearBy_inj (ho.trans ho'.symm) hcleared, ho'] at hloop
  rw [setAt_done, setAt_done, ho, ho']
  refine hloop.congr (and_congr_left fun _ => and_congr_left fun _ => ?_)
  rw [clearAll, clearAll, hd, if_pos rfl, if_pos rfl]

/-- A scalar field in front: its variable keeps its initial value if the accessor raises. -/
lemma leaf (h : LoopsAlike pool stray row subRaising sub subKept raises ds)
    (hlen : a.length = b.length) (hrest : HasDecls pool rest ds) (f : Field) (d : FieldDescriptor)
    (nFieldIndex : ℕ) (st : ReadState) :
    AlikeIf (clearAll (.leaf d :: ds) a = clearAll (.leaf d :: ds) b
        ∧ harmlessLoop overwrites (HoldsInitial stray row) subKept raises (.leaf d :: ds) a.length)
      (Raising.firstLoop pool stray row subRaising raises (.leaf d :: ds) a.length (a ++ f :: rest)
        nFieldIndex st)
      (firstLoop pool stray row sub (.leaf d :: ds) b.length (b ++ f :: rest) nFieldIndex st) := by
  have hraised := readValue_isSome stray d
    (if raises [a.length] then none else cellNamed row d.name.chars)
  have hread := readValue_isSome stray d (cellNamed row d.name.chars)
  rw [Raising.firstLoop, firstLoop, harmlessLoop]
  cases hv' : readValue stray d (cellNamed row d.name.chars) with
  | none =>
      have hd : d.isRead = false := by rw [← hread, hv', Option.isSome_none]
      have hv : readValue stray d (if raises [a.length] then none
          else cellNamed row d.name.chars) = none := by
        rw [hd, Option.isSome_eq_false_iff, Option.isNone_iff_eq_none] at hraised
        exact hraised
      have hinitial : HoldsInitial stray row d := by
        have h := readValue_isSome stray d none
        rw [hd, Option.isSome_eq_false_iff, Option.isNone_iff_eq_none] at h
        rw [HoldsInitial, hv', h]
      rw [hv]
      refine (AlikeIf.step fun st' => h.kept hlen hrest f (.leaf d) hd nFieldIndex st').congr ?_
      exact and_congr_right fun _ => (and_iff_right fun _ _ => hinitial).symm
  | some v' =>
      have hd : d.isRead = true := by rw [← hread, hv', Option.isSome_some]
      rw [hd, Option.isSome_iff_exists] at hraised
      obtain ⟨v, hv⟩ := hraised
      obtain ⟨hfixed, hset⟩ := setter_readValue hv
      obtain ⟨hfixed', hset'⟩ := setter_readValue hv'
      rw [hv]
      cases hdf : d.isFixed with
      | true =>
          simp only [hfixed hdf, hfixed' hdf]
          exact .inl ⟨.typeMismatch, rfl, rfl⟩
      | false =>
          obtain ⟨hty, hok⟩ := hset hdf
          obtain ⟨hty', hok'⟩ := hset' hdf
          simp only [hok, hok']
          refine (AlikeIf.step fun st' => h.written hlen hrest f (.leaf d) hd
            (.leaf ⟨d, true, v, hty⟩) (.leaf ⟨d, true, v', hty'⟩) rfl rfl rfl _ st').congr ?_
          rw [and_assoc]
          refine and_congr_right fun _ => and_congr_left fun _ => ?_
          refine forall_congr' fun _ => ?_
          -- the values agree if the accessor does not raise
          have hvalue : v = v' ↔ (raises [a.length] = true → HoldsInitial stray row d) := by
            rw [HoldsInitial, hv']
            cases hraises : raises [a.length] with
            | true =>
                rw [hraises, if_pos rfl] at hv
                simp [hv]
            | false =>
                rw [hraises, if_neg (by simp), hv'] at hv
                cases hv
                simp
          rw [FieldDecl.Harmless, ← hvalue, Field.leaf.injEq]
          simp

/-- A message field in front. -/
lemma message (h : LoopsAlike pool stray row subRaising sub subKept raises ds)
    (hsub : ∀ messageType raises record st, HasDecls pool record (pool messageType) →
      AlikeIf (subKept messageType raises) (subRaising messageType raises record st)
        (sub messageType record st))
    (hlen : a.length = b.length) (hrest : HasDecls pool rest ds) {f : Field} {mf : MessageField}
    (hf : f.HasDecl pool (.message mf)) (nFieldIndex : ℕ) (st : ReadState) :
    AlikeIf (clearAll (.message mf :: ds) a = clearAll (.message mf :: ds) b
        ∧ harmlessLoop overwrites (HoldsInitial stray row) subKept raises (.message mf :: ds)
          a.length)
      (Raising.firstLoop pool stray row subRaising raises (.message mf :: ds) a.length
        (a ++ f :: rest) nFieldIndex st)
      (firstLoop pool stray row sub (.message mf :: ds) b.length (b ++ f :: rest) nFieldIndex
        st) := by
  rw [Raising.firstLoop, firstLoop, mutableMessage_done, mutableMessage_done, harmlessLoop]
  rcases hsub mf.messageType (fun path => raises (a.length :: path))
    (subMessage pool mf f) st (hasDecls_subMessage hf) with
    ⟨e, hx, hy⟩ | ⟨sub₁, sub₂, st', hx, hy, heq⟩
  · rw [hx, hy]
    exact .inl ⟨e, rfl, rfl⟩
  · rw [hx, hy]
    refine (AlikeIf.step fun st'' => h.written hlen hrest f (.message mf) rfl (.message mf sub₁)
      (.message mf sub₂) rfl rfl rfl nFieldIndex st'').congr ?_
    rw [and_assoc]
    refine and_congr_right fun _ => and_congr_left fun _ => forall_congr' fun _ => ?_
    rw [FieldDecl.Harmless, ← heq]
    simp

end LoopsAlike

/-- **The loop by name goes on behind an exception**, and leaves the record that it
leaves without failures exactly if the ones before did and the failures are
harmless. -/
lemma firstLoop_alike
    {subRaising : Text → (List ℕ → Bool) → Message → ReadState → Except Fault (Message × ReadState)}
    {sub : Text → Message → ReadState → Except Fault (Message × ReadState)}
    {subKept : Text → (List ℕ → Bool) → Prop}
    (hsub : ∀ messageType raises record st, HasDecls pool record (pool messageType) →
      AlikeIf (subKept messageType raises) (subRaising messageType raises record st)
        (sub messageType record st))
    (raises : List ℕ → Bool) (ds : List FieldDecl) :
    LoopsAlike pool stray row subRaising sub subKept raises ds := by
  induction ds with
  | nil =>
      intro a b rest _ hrest _ st
      obtain rfl : rest = [] := List.eq_nil_of_length_eq_zero (length_of_hasDecls hrest)
      refine .inr ⟨_, _, st, rfl, rfl, ?_⟩
      rw [List.append_nil, List.append_nil, harmlessLoop, and_true]
      exact Iff.rfl
  | cons d ds ih =>
      intro a b rest hlen hrest nFieldIndex st
      cases rest with
      | nil => exact absurd hrest not_hasDecls_nil
      | cons f rest =>
          obtain ⟨hf, hrest'⟩ := hasDecls_cons.mp hrest
          cases d with
          | leaf d => exact ih.leaf hlen hrest' f d nFieldIndex st
          | message mf => exact ih.message hsub hlen hrest' hf nFieldIndex st
          | repeated name =>
              have hkept := ih.kept hlen hrest' f (.repeated name) rfl nFieldIndex st
              exact hkept.congr (and_congr_right fun _ => (and_iff_right fun _ => trivial).symm)
          | repeatedMessage mf =>
              have hkept := ih.kept hlen hrest' f (.repeatedMessage mf) rfl nFieldIndex st
              exact hkept.congr (and_congr_right fun _ => (and_iff_right fun _ => trivial).symm)

/-- **The walk by name goes on behind an exception**, and leaves the record that it
leaves without failures exactly if they are harmless. -/
theorem addFirst_alike (stack : ℕ) (messageType : Text) (raises : List ℕ → Bool) (record : Message)
    (st : ReadState) (hrecord : HasDecls pool record (pool messageType)) :
    AlikeIf (Kept pool stray row stack messageType raises)
      (Raising.addFirstReturnRecord pool stray row stack messageType raises record st)
      (addFirstReturnRecord pool stray row stack messageType record st) := by
  induction stack generalizing messageType raises record st with
  | zero => exact .inl ⟨.stackOverflow, rfl, rfl⟩
  | succ stack ih =>
      have hloop := firstLoop_alike stray row ih raises (pool messageType) [] [] record rfl hrecord
        0 st
      exact hloop.congr (and_iff_right rfl)

end ByName

/-! ### The walk by index -/

section ByIndex

variable (pool : Pool) (stray : Stray) (row : List Column)

/-- **The loop by index is left by an exception.** -/
lemma returnLoop_checked
    {subRaising : Text → (List ℕ → Bool) → Message → ReadState → Except Fault (Message × ReadState)}
    {sub : Text → Message → ReadState → Except Fault (Message × ReadState)}
    {subQuiet : Text → (List ℕ → Bool) → Prop}
    (hsub : ∀ messageType raises record st, Checked (subQuiet messageType raises)
      (subRaising messageType raises record st) (sub messageType record st))
    (raises : List ℕ → Bool) (ds : List FieldDecl) (i : ℕ) (record : Message) (st : ReadState) :
    Checked
      (harmlessLoop (fun _ _ => false) (fun d => d.isRead = false) subQuiet raises ds i)
      (Raising.returnLoop pool stray row subRaising raises ds i record st)
      (returnLoop pool stray row sub ds i record st) := by
  induction ds generalizing i record st with
  | nil => exact ⟨fun _ => rfl, fun h => absurd trivial h⟩
  | cons d ds ih =>
      rw [harmlessLoop]
      cases d with
      | leaf d =>
          rw [Raising.returnLoop, returnLoop]
          cases hd : d.isRead with
          | false =>
              rw [if_neg (by simp), if_neg (by simp)]
              exact (ih _ _ _).congr (and_iff_right fun _ _ => hd).symm
          | true =>
              have hharmless : ((false = false → (FieldDecl.leaf d).Harmless
                  (fun d => d.isRead = false) subQuiet raises i)) ↔ raises [i] = false := by
                rw [FieldDecl.Harmless, hd]
                simp
              rw [if_pos rfl, if_pos rfl, hharmless]
              cases st.arrIndex[st.nIndex]? with
              | none => exact Checked.error _
              | some nField =>
                  refine (Checked.stop (raises [i]) Fault.sqlException).bind fun cell _ => ?_
                  cases readValue stray d (some cell) with
                  | none => exact ih _ _ _
                  | some v =>
                      show Checked _ ((setter d v).bind _) ((setter d v).bind _)
                      cases setter d v with
                      | error e => exact Checked.error e
                      | ok f => exact ih _ _ _
      | message f =>
          rw [Raising.returnLoop, returnLoop]
          have hwalk := (hsub f.messageType (fun path => raises (i :: path))
            (mutableMessage pool i f record) st).bind fun p _ =>
              ih (i + 1) (setAt i (.message f p.1) record) ⟨p.2.arrIndex, p.2.nIndex + 1⟩
          exact hwalk.congr (and_congr_left fun _ => ⟨fun h _ => h, fun h => h rfl⟩)
      | repeated name => exact (ih _ _ _).congr (and_iff_right fun _ => trivial).symm
      | repeatedMessage f => exact (ih _ _ _).congr (and_iff_right fun _ => trivial).symm

/-- **The walk by index is left by an exception** of any of its accessors. -/
theorem addReturn_checked (stack : ℕ) (messageType : Text) (raises : List ℕ → Bool)
    (record : Message) (st : ReadState) :
    Checked (Quiet pool stack messageType raises)
      (Raising.addReturnRecord pool stray row stack messageType raises record st)
      (addReturnRecord pool stray row stack messageType record st) := by
  induction stack generalizing messageType raises record st with
  | zero => exact Checked.error _
  | succ stack ih =>
      exact returnLoop_checked pool stray row ih raises (pool messageType) 0 record st

/-- A field that is read has an index, and not the initial zero. -/
def HasIndex (w : FieldDecl) (i : ℕ) : Prop := ∀ d, w = .leaf d → d.isRead = true → i ≠ 0

/-- The fields that are read find an index behind the first row: in every message
the first one of them has a column. -/
def Indexed (stack : ℕ) (messageType : Text) : Prop :=
  ∀ ws, slots pool stack messageType = some ws →
    List.Forall₂ HasIndex ws (indices row pool stack messageType)

/-- The indices are those of columns, or zero. -/
lemma getIndex_le {name : Text} {i : ℕ} (h : getIndex row name = some i) : i ≤ row.length := by
  obtain ⟨j, hj, rfl⟩ := Option.map_eq_some_iff.mp h
  obtain ⟨hlt, -⟩ := List.findIdx?_eq_some_iff_getElem.mp hj
  exact hlt

lemma cellAt_ok_iff {i : ℕ} (hi : i ≤ row.length) : (∃ cell, cellAt row i = .ok cell) ↔ i ≠ 0 := by
  rw [cellAt]
  by_cases h : i = 0
  · simp [h]
  · have hlt : i - 1 < row.length := by omega
    rw [if_neg h, List.getElem?_eq_getElem hlt]
    exact ⟨fun _ => h, fun _ => ⟨_, rfl⟩⟩

/-- The index that is stored for a field of the first row. -/
lemma index_le {first : List Column} (hnames : columnNames row = columnNames first)
    (d : FieldDescriptor) {nFieldIndex : ℕ} (hbound : nFieldIndex ≤ row.length) :
    (if d.isRead then (getIndex first d.name.chars).getD nFieldIndex else nFieldIndex)
      ≤ row.length := by
  rw [← getIndex_eq hnames]
  split
  · cases hget : getIndex row d.name.chars with
    | none => exact hbound
    | some j => exact getIndex_le row hget
  · exact hbound

lemma not_hasIndex {d : FieldDescriptor} {i : ℕ} (h : ¬ HasIndex (.leaf d) i) :
    d.isRead = true ∧ i = 0 := by
  by_contra hno
  refine h fun d' heq hread => ?_
  cases heq
  exact fun hi => hno ⟨hread, hi⟩

/-- The indices of a message field stand in front of its own one. -/
lemma forall₂_hasIndex_message {xs ws : List FieldDecl} {is js : List ℕ} (f : MessageField) (i : ℕ)
    (hlen : xs.length = is.length) :
    List.Forall₂ HasIndex (xs ++ .message f :: ws) (is ++ i :: js)
      ↔ List.Forall₂ HasIndex xs is ∧ List.Forall₂ HasIndex ws js := by
  have hindex : HasIndex (.message f) i := by
    intro d heq
    cases heq
  constructor
  · intro h
    have htake := List.forall₂_take_append _ _ _ h
    have hdrop := List.forall₂_drop_append _ _ _ h
    rw [← hlen, List.take_left] at htake
    rw [← hlen, List.drop_left, List.forall₂_cons] at hdrop
    exact ⟨htake, hdrop.2⟩
  · rintro ⟨h, h'⟩
    exact List.rel_append h (.cons hindex h')

/-- A walk returns in the state `st` if `P` holds, and ends in an error otherwise. -/
def EndsIf (P : Prop) (st : ReadState) (x : Except Fault (Message × ReadState)) : Prop :=
  P ∧ (∃ r, x = .ok (r, st)) ∨ ¬ P ∧ ∃ e, x = .error e

lemma EndsIf.congr {P Q : Prop} {st : ReadState} {x : Except Fault (Message × ReadState)}
    (h : EndsIf P st x) (hPQ : P ↔ Q) : EndsIf Q st x := by
  rw [EndsIf, ← hPQ]
  exact h

/-- **When the loop by index returns**: if every field that is read has an index. -/
lemma returnLoop_endsIf {first : List Column} (hnames : columnNames row = columnNames first)
    {sub : Text → Message → ReadState → Except Fault (Message × ReadState)}
    {subSlots : Text → Option (List FieldDecl)} {subIndices : Text → List ℕ} {arrIndex : List ℕ}
    (hsub : ∀ messageType record ws n, subSlots messageType = some ws → noFixed ws = true →
      Holds arrIndex n (subIndices messageType) →
        EndsIf (List.Forall₂ HasIndex ws (subIndices messageType))
          ⟨arrIndex, n + (subIndices messageType).length⟩ (sub messageType record ⟨arrIndex, n⟩))
    (hsublen : ∀ messageType ws, subSlots messageType = some ws →
      ws.length = (subIndices messageType).length)
    (ds : List FieldDecl) (i : ℕ) (record : Message) {nFieldIndex : ℕ} (n : ℕ)
    {ws : List FieldDecl} (hbound : nFieldIndex ≤ row.length)
    (hws : slotLoop subSlots ds = some ws) (hfixed : noFixed ws = true)
    (hholds : Holds arrIndex n (indexLoop first subIndices ds nFieldIndex)) :
    EndsIf (List.Forall₂ HasIndex ws (indexLoop first subIndices ds nFieldIndex))
      ⟨arrIndex, n + (indexLoop first subIndices ds nFieldIndex).length⟩
      (returnLoop pool stray row sub ds i record ⟨arrIndex, n⟩) := by
  induction ds generalizing i record nFieldIndex n ws with
  | nil =>
      cases hws
      exact .inl ⟨.nil, record, rfl⟩
  | cons d ds ih =>
      cases d with
      | leaf d =>
          obtain ⟨ws', hws', rfl⟩ := slotLoop_leaf hws
          rw [← List.singleton_append, noFixed_append, Bool.and_eq_true] at hfixed
          rw [indexLoop] at hholds ⊢
          have hlen : ∀ (x : ℕ) (xs : List ℕ), n + (x :: xs).length = n + 1 + xs.length := by
            intro x xs
            rw [List.length_cons]
            omega
          have hdFixed : d.isFixed = false := by simpa [noFixed] using hfixed.1
          obtain ⟨hhead, htail⟩ := hholds.head
          generalize hx : (if d.isRead then (getIndex first d.name.chars).getD nFieldIndex
            else nFieldIndex) = x at hhead htail ⊢
          have hle : x ≤ row.length := hx ▸ index_le row hnames d hbound
          rw [hlen, List.forall₂_cons]
          by_cases hindex : HasIndex (.leaf d) x
          · have hcell : d.isRead = true → ∃ cell, cellAt row x = .ok cell :=
              fun hread => (cellAt_ok_iff row hle).mpr (hindex d rfl hread)
            obtain ⟨record', hpass⟩ :=
              returnLoop_passes pool stray row sub hdFixed ds i record hhead hcell
            rw [hpass]
            exact (ih _ record' _ hle hws' hfixed.2 htail).congr (and_iff_right hindex).symm
          · obtain ⟨hread, rfl⟩ : d.isRead = true ∧ x = 0 := not_hasIndex hindex
            exact .inr ⟨fun h => hindex h.1, .columnIndex,
              returnLoop_raised pool stray row sub hread ds i record hhead (if_pos rfl)⟩
      | message f =>
          obtain ⟨xs, ws', hxs, hws', rfl⟩ := slotLoop_message hws
          rw [noFixed_append, ← List.singleton_append, noFixed_append, Bool.and_eq_true,
            Bool.and_eq_true] at hfixed
          rw [indexLoop] at hholds ⊢
          obtain ⟨hinner, hrest⟩ := hholds.append
          obtain ⟨-, htail⟩ := hrest.head
          have hlen : n + (subIndices f.messageType ++ nFieldIndex
                :: indexLoop first subIndices ds nFieldIndex).length
              = n + (subIndices f.messageType).length + 1
                + (indexLoop first subIndices ds nFieldIndex).length := by
            rw [List.length_append, List.length_cons]
            omega
          rw [returnLoop, hlen, forall₂_hasIndex_message f nFieldIndex (hsublen _ _ hxs)]
          rcases hsub f.messageType (mutableMessage pool i f record) xs n hxs hfixed.1 hinner with
            ⟨hall, r, hrun⟩ | ⟨hnot, e, hrun⟩
          · rw [hrun]
            refine (ih _ _ _ hbound hws' hfixed.2.2 htail).congr ?_
            rw [and_iff_right hall]
          · rw [hrun]
            exact .inr ⟨fun h => hnot h.1, e, rfl⟩
      | repeated name => exact ih _ _ _ hbound hws hfixed hholds
      | repeatedMessage f => exact ih _ _ _ hbound hws hfixed hholds

/-- The slots of a type are as many as its indices. -/
lemma length_indices {stack : ℕ} {messageType : Text} {ws : List FieldDecl}
    (h : slots pool stack messageType = some ws) :
    ws.length = (indices row pool stack messageType).length := by
  have hloop : ∀ {sub : Text → Option (List FieldDecl)} {subIndices : Text → List ℕ},
      (∀ messageType ws, sub messageType = some ws → ws.length = (subIndices messageType).length) →
      ∀ (ds : List FieldDecl) (nFieldIndex : ℕ) (ws : List FieldDecl), slotLoop sub ds = some ws →
        ws.length = (indexLoop row subIndices ds nFieldIndex).length := by
    intro sub subIndices hsub ds
    induction ds with
    | nil =>
        intro _ ws hws
        cases hws
        rfl
    | cons d ds ih =>
        intro nFieldIndex ws hws
        cases d with
        | leaf d =>
            obtain ⟨ws', hws', rfl⟩ := slotLoop_leaf hws
            rw [indexLoop, List.length_cons, List.length_cons, ih _ ws' hws']
        | message f =>
            obtain ⟨xs, ws', hxs, hws', rfl⟩ := slotLoop_message hws
            rw [indexLoop, List.length_append, List.length_append, List.length_cons,
              List.length_cons, ih nFieldIndex ws' hws', hsub _ xs hxs]
        | repeated name => exact ih nFieldIndex ws hws
        | repeatedMessage f => exact ih nFieldIndex ws hws
  induction stack generalizing messageType ws with
  | zero => cases h
  | succ stack ih => exact hloop (fun _ _ hws => ih hws) _ 0 ws h

/-- **When the walk by index returns.** -/
theorem addReturn_endsIf {first : List Column} (hnames : columnNames row = columnNames first)
    (stack : ℕ) {messageType : Text} (record : Message) {ws : List FieldDecl} {arrIndex : List ℕ}
    (n : ℕ) (hws : slots pool stack messageType = some ws) (hfixed : noFixed ws = true)
    (hholds : Holds arrIndex n (indices first pool stack messageType)) :
    EndsIf (List.Forall₂ HasIndex ws (indices first pool stack messageType))
      ⟨arrIndex, n + (indices first pool stack messageType).length⟩
      (addReturnRecord pool stray row stack messageType record ⟨arrIndex, n⟩) := by
  induction stack generalizing messageType record ws n with
  | zero => cases hws
  | succ stack ih =>
      exact returnLoop_endsIf pool stray row hnames
        (fun _ record _ n hws h hh => ih record n hws h hh)
        (fun _ _ hws => length_indices pool first hws) _ 0 record n (Nat.zero_le _) hws hfixed
        hholds

end ByIndex

end PbEntityDb
