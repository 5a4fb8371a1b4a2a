import PbEntityDb.Proto.Merging

/-!
What the parser leaves of a message.

* `parseAndMergePartial_sound`: **what is parsed into a sound message** leaves it sound. The
  parser sets fields, adds to them and parses the messages in them; each of these keeps it.
-/

namespace PbEntityDb

open WireFormat Coded

/-! ### What is read is sound -/

section Inversion

variable {pool : Pool} {f : Field}

lemma Field.HasDecl.of_leaf {d : FieldDescriptor} (h : f.HasDecl pool (.leaf d)) :
    ∃ l, f = .leaf l := by
  cases f with
  | leaf l => exact ⟨l, rfl⟩
  | unset g => rw [Field.HasDecl] at h; cases h
  | message g sub => rw [Field.HasDecl] at h; cases h.1
  | repeated n values => rw [Field.HasDecl] at h; cases h
  | repeatedMessage g elems => rw [Field.HasDecl] at h; cases h

lemma Field.HasDecl.of_message {g : MessageField} (h : f.HasDecl pool (.message g)) :
    f = .unset g ∨ ∃ sub, f = .message g sub := by
  cases f with
  | leaf l => rw [Field.HasDecl] at h; cases h
  | unset g' =>
      rw [Field.HasDecl] at h
      cases h
      exact .inl rfl
  | message g' sub =>
      rw [Field.HasDecl] at h
      cases h.1
      exact .inr ⟨sub, rfl⟩
  | repeated n values => rw [Field.HasDecl] at h; cases h
  | repeatedMessage g' elems => rw [Field.HasDecl] at h; cases h

lemma Field.HasDecl.of_repeated {n : Name} (h : f.HasDecl pool (.repeated n)) :
    ∃ values, f = .repeated n values := by
  cases f with
  | leaf l => rw [Field.HasDecl] at h; cases h
  | unset g => rw [Field.HasDecl] at h; cases h
  | message g sub => rw [Field.HasDecl] at h; cases h.1
  | repeated n' values =>
      rw [Field.HasDecl] at h
      cases h
      exact ⟨values, rfl⟩
  | repeatedMessage g elems => rw [Field.HasDecl] at h; cases h

lemma Field.HasDecl.of_repeatedMessage {g : MessageField}
    (h : f.HasDecl pool (.repeatedMessage g)) : ∃ elems, f = .repeatedMessage g elems := by
  cases f with
  | leaf l => rw [Field.HasDecl] at h; cases h
  | unset g' => rw [Field.HasDecl] at h; cases h
  | message g' sub => rw [Field.HasDecl] at h; cases h.1
  | repeated n values => rw [Field.HasDecl] at h; cases h
  | repeatedMessage g' elems =>
      rw [Field.HasDecl] at h
      cases h
      exact ⟨elems, rfl⟩

end Inversion

section Accepted

variable {types : MessageTypes} {utf8 : List Byte → Bool} {sub : Text → Message → Prop}
  {name : Text} {m : Message} {i : ℕ} {w : WireField}

lemma not_isListed_empty (kind : FieldKind) : kind.decl.empty.isListed = false := by
  cases kind with
  | leaf d h => exact h.2
  | message f => rfl
  | repeated n type h => rfl
  | repeatedMessage f => rfl

/-- The fields of a message behind a setter: the new one, and others of other oneofs. -/
lemma mem_listFields_setAt (h : HasDecls types.pool m (types.pool name)) {f : Field} {e : Entry}
    (hi : i < m.length) (he : e ∈ listFields (types name).fields (setAt i f m)) :
    (e.index = i ∧ e.content = f) ∨ (e ∈ listFields (types name).fields m ∧
      (f.oneof.isSome = true → e.content.oneof ≠ f.oneof)) := by
  obtain ⟨hw, hf, hlisted⟩ := mem_listFields.mp he
  rw [getElem?_setAt hi] at hf
  by_cases heq : i = e.index
  · rw [if_pos heq] at hf
    cases hf
    exact .inl ⟨heq.symm, rfl⟩
  · rw [if_neg heq] at hf
    obtain ⟨g, hg, hcontent⟩ := Option.map_eq_some_iff.mp hf
    rw [Field.clearOneof] at hcontent
    split_ifs at hcontent with hclear
    · -- a member of the oneof was cleared, so that it is not listed
      obtain ⟨hsome, hsame⟩ := Bool.and_eq_true_iff.mp hclear
      have hdecl := (hasDecls_iff.mp h).2 _ _ _ hg (getElem?_pool hw)
      have honeof : e.field.kind.decl.oneof.isSome = true := by
        rw [← hdecl.oneof_eq, of_decide_eq_true hsame, hsome]
      rw [← hcontent, hdecl.cleared_eq honeof, not_isListed_empty] at hlisted
      cases hlisted
    · rw [← hcontent] at hlisted
      refine .inr ⟨mem_listFields.mpr ⟨hw, by rw [hg, hcontent], by rw [← hcontent, hlisted]⟩,
        fun hsome hsame => hclear ?_⟩
      rw [hsome, hcontent, hsame]
      simp

/-- A setter keeps a message sound. -/
lemma SoundWith.setAt (h : SoundWith types utf8 sub name m)
    (hw : (types name).fields[i]? = some w) {f : Field} (hdecl : f.HasDecl types.pool w.kind.decl)
    (hvalues : ∀ v ∈ f.values, Storable utf8 (types name).proto3 w v)
    (hsubs : ∀ s ∈ f.subs, sub s.1 s.2) : SoundWith types utf8 sub name (setAt i f m) := by
  have hd := getElem?_pool hw
  have hi : i < m.length := by
    rw [(hasDecls_iff.mp h.hasDecls).1]
    exact (List.getElem?_eq_some_iff.mp hd).1
  refine ⟨Raising.hasDecls_setAt h.hasDecls hd hdecl, ?_, ?_, ?_⟩
  · intro e he v hv
    rcases mem_listFields_setAt h.hasDecls hi he with ⟨hindex, hcontent⟩ | ⟨hold, -⟩
    · have hfield := (mem_listFields.mp he).1
      rw [hindex, hw] at hfield
      rw [hcontent] at hv
      cases hfield
      exact hvalues v hv
    · exact h.values e hold v hv
  · intro e he s hs
    rcases mem_listFields_setAt h.hasDecls hi he with ⟨-, hcontent⟩ | ⟨hold, -⟩
    · rw [hcontent] at hs
      exact hsubs s hs
    · exact h.subs e hold s hs
  · intro e he e' he' hsome hsame
    rcases mem_listFields_setAt h.hasDecls hi he with ⟨hindex, hcontent⟩ | ⟨hold, hother⟩
    · rcases mem_listFields_setAt h.hasDecls hi he' with ⟨hindex', -⟩ | ⟨-, hother'⟩
      · rw [hindex, hindex']
      · rw [hcontent] at hsome hsame
        exact absurd hsame (hother' hsome)
    · rcases mem_listFields_setAt h.hasDecls hi he' with ⟨-, hcontent'⟩ | ⟨hold', -⟩
      · rw [hcontent'] at hsame
        exact absurd hsame.symm (hother (by rw [hsame, hsome]))
      · exact h.oneofs e hold e' hold' hsome hsame

lemma Entry.of_getElem? {f : Field} (hw : (types name).fields[i]? = some w)
    (hf : m[i]? = some f) (hlisted : f.isListed = true) :
    (⟨i, w, f⟩ : Entry) ∈ listFields (types name).fields m :=
  mem_listFields.mpr ⟨hw, hf, hlisted⟩

/-- There is a field for each declaration. -/
lemma exists_field (h : HasDecls types.pool m (types.pool name))
    (hw : (types name).fields[i]? = some w) :
    ∃ f, m[i]? = some f ∧ f.HasDecl types.pool w.kind.decl := by
  have hd := getElem?_pool hw
  have hi : i < m.length := by
    rw [(hasDecls_iff.mp h).1]
    exact (List.getElem?_eq_some_iff.mp hd).1
  have hf := List.getElem?_eq_getElem hi
  exact ⟨_, hf, (hasDecls_iff.mp h).2 _ _ _ hf hd⟩

lemma SoundWith.addValue (h : SoundWith types utf8 sub name m)
    (hw : (types name).fields[i]? = some w) {n : Name} {type : FieldType} {ht}
    (hkind : w.kind = .repeated n type ht) {v : Scalar}
    (hv : Storable utf8 (types name).proto3 w v) :
    SoundWith types utf8 sub name (m.modify i (Field.addValue v)) := by
  obtain ⟨f, hf, hdecl⟩ := exists_field h.hasDecls hw
  have hrepeated := hdecl
  rw [hkind] at hrepeated
  obtain ⟨olds, rfl⟩ := Field.HasDecl.of_repeated hrepeated
  rw [modify_eq_set hf, ← setAt_of_oneof_none rfl]
  refine h.setAt hw (hdecl.addValue v) (fun u hu => ?_) fun s hs => by cases hs
  rcases List.mem_append.mp hu with hold | hnew
  · have hlisted : (Field.repeated n olds).isListed = true := by
      cases olds with
      | nil => cases hold
      | cons o olds => rfl
    exact h.values _ (Entry.of_getElem? hw hf hlisted) u hold
  · obtain rfl := List.mem_singleton.mp hnew
    exact hv

lemma SoundWith.addMessage (h : SoundWith types utf8 sub name m)
    (hw : (types name).fields[i]? = some w) {f : MessageField}
    (hkind : w.kind = .repeatedMessage f) {s : Message} (hs : sub f.messageType s) :
    SoundWith types utf8 sub name (m.modify i (Field.addMessage s)) := by
  obtain ⟨g, hg, hdecl⟩ := exists_field h.hasDecls hw
  have hrepeated := hdecl
  rw [hkind] at hrepeated
  obtain ⟨olds, rfl⟩ := Field.HasDecl.of_repeatedMessage hrepeated
  rw [modify_eq_set hg, ← setAt_of_oneof_none rfl]
  refine h.setAt hw (hdecl.addMessage s) (fun v hv => by cases hv) fun t ht => ?_
  obtain ⟨o, ho, rfl⟩ := List.mem_map.mp ht
  rcases List.mem_append.mp ho with hold | hnew
  · have hlisted : (Field.repeatedMessage f olds).isListed = true := by
      cases olds with
      | nil => cases hold
      | cons o olds => rfl
    exact h.subs _ (Entry.of_getElem? hw hg hlisted) _ (List.mem_map_of_mem hold)
  · obtain rfl := List.mem_singleton.mp hnew
    exact hs

lemma SoundWith.storeValue (h : SoundWith types utf8 sub name m)
    (hw : (types name).fields[i]? = some w) (v : Value w.kind.type)
    (hv : Storable utf8 (types name).proto3 w v.1) :
    SoundWith types utf8 sub name (storeValue i w.kind v m) := by
  obtain ⟨number, kind, known⟩ := w
  cases kind with
  | leaf d hd =>
      refine h.setAt hw (by rw [Field.HasDecl]; rfl) (fun u hu => ?_) fun s hs => by cases hs
      obtain rfl := List.mem_singleton.mp hu
      exact hv
  | repeated n type ht => exact h.addValue hw rfl hv
  | message f => exact h
  | repeatedMessage f => exact h

lemma parseValue_sound (h : SoundWith types utf8 sub name m)
    (hw : (types name).fields[i]? = some w) {m' : Message} {bs rest : List Byte}
    (hok : parseValue utf8 (types name).proto3 i w m bs = .ok (m', rest)) :
    SoundWith types utf8 sub name m' := by
  obtain ⟨v, hread, hverified, rfl⟩ := parseValue_eq_ok hok
  split_ifs with hstored
  · exact h.storeValue hw v ⟨v.2, (readPrimitive_spec hread).1, hstored, hverified⟩
  · exact h

lemma packedLoop_sound (hw : (types name).fields[i]? = some w) {fuel : ℕ} {m m' : Message}
    {bs : List Byte} (h : SoundWith types utf8 sub name m)
    (hok : packedLoop utf8 (types name).proto3 i w fuel m bs = .ok m') :
    SoundWith types utf8 sub name m' := by
  induction fuel generalizing m bs with
  | zero => cases hok
  | succ fuel ih =>
      rw [packedLoop] at hok
      split_ifs at hok with hempty
      · cases hok
        exact h
      · cases hvalue : parseValue utf8 (types name).proto3 i w m bs with
        | error m' =>
            rw [hvalue] at hok
            cases hok
        | ok r =>
            rw [hvalue] at hok
            exact ih (parseValue_sound h hw hvalue) hok

lemma parsePacked_sound (h : SoundWith types utf8 sub name m)
    (hw : (types name).fields[i]? = some w) {m' : Message} {bs rest : List Byte}
    (hok : parsePacked utf8 (types name).proto3 i w m bs = .ok (m', rest)) :
    SoundWith types utf8 sub name m' := by
  obtain ⟨length, bs', -, hloop, -⟩ := parsePacked_eq_ok hok
  exact packedLoop_sound hw h hloop

variable {merge : Text → Message → List Byte → Except Message (Message × Ended × List Byte)}
  {new : Text → Message → Prop}

lemma parseNormal_sound (h : SoundWith types utf8 sub name m)
    (hw : (types name).fields[i]? = some w)
    (hempty : ∀ t, new t (emptyMessage types.pool t)) (hold : ∀ t s, sub t s → new t s)
    (hdecls : ∀ t s, sub t s → HasDecls types.pool s (types.pool t))
    (hmerge : ∀ t s bs s' ended rest, new t s → merge t s bs = .ok (s', ended, rest) → sub t s')
    {m' : Message} {bs rest : List Byte}
    (hok : parseNormal types utf8 merge (types name).proto3 i w m bs = .ok (m', rest)) :
    SoundWith types utf8 sub name m' := by
  rw [parseNormal] at hok
  split at hok
  · rename_i f hkind
    obtain ⟨s, hs, rfl⟩ := putMessage_eq_ok hok
    obtain ⟨length, bs', rest', -, hone, -⟩ := readMessage_eq_ok hs
    have hstart : new f.messageType (mutableMessage types.pool i f m) := by
      obtain ⟨g, hg, hdecl⟩ := exists_field h.hasDecls hw
      rw [hkind] at hdecl
      rw [mutableMessage, hg]
      rcases Field.HasDecl.of_message hdecl with rfl | ⟨s, rfl⟩
      · exact hempty _
      · exact hold _ _ (h.subs _ (Entry.of_getElem? hw hg rfl) (f.messageType, s)
          (List.mem_singleton_self _))
    have hnew := hmerge _ _ _ _ _ _ hstart hone
    refine h.setAt hw ?_ (fun v hv => by cases hv) fun t ht => ?_
    · rw [hkind, Field.HasDecl]
      exact ⟨rfl, hdecls _ _ hnew⟩
    · obtain rfl := List.mem_singleton.mp ht
      exact hnew
  · rename_i f hkind
    obtain ⟨s, hs, rfl⟩ := putMessage_eq_ok hok
    obtain ⟨length, bs', rest', -, hone, -⟩ := readMessage_eq_ok hs
    exact h.addMessage hw hkind (hmerge _ _ _ _ _ _ (hempty _) hone)
  · exact parseValue_sound h hw hok

lemma parseAndMergeField_sound {budget : ℕ} (h : SoundWith types utf8 sub name m)
    (hempty : ∀ t, new t (emptyMessage types.pool t)) (hold : ∀ t s, sub t s → new t s)
    (hdecls : ∀ t s, sub t s → HasDecls types.pool s (types.pool t))
    (hmerge : ∀ t s bs s' ended rest, new t s → merge t s bs = .ok (s', ended, rest) → sub t s')
    {tag : BitVec 32} {m' : Message} {bs rest : List Byte}
    (hok : parseAndMergeField types utf8 budget merge (types name) m tag bs = .ok (m', rest)) :
    SoundWith types utf8 sub name m' := by
  have hunknown : parseUnknown budget m tag bs = .ok (m', rest) →
      SoundWith types utf8 sub name m' := by
    intro hskipped
    rw [parseUnknown] at hskipped
    cases hskip : skipField budget tag bs with
    | none =>
        rw [hskip] at hskipped
        cases hskipped
    | some r =>
        rw [hskip] at hskipped
        cases hskipped
        exact h
  rw [parseAndMergeField] at hok
  split at hok
  · exact hunknown hok
  · rename_i hfind
    have hw := (findFieldByNumber_spec hfind).1
    split_ifs at hok
    · exact parseNormal_sound h hw hempty hold hdecls hmerge hok
    · exact parsePacked_sound h hw hok
    · exact hunknown hok

/-- A new message is sound. -/
lemma sound_empty (types : MessageTypes) (utf8 : List Byte → Bool) (budget : ℕ) (name : Text) :
    Sound types utf8 budget name (emptyMessage types.pool name) := by
  have hnone : ∀ e, e ∉ listFields (types name).fields (emptyMessage types.pool name) := by
    intro e he
    obtain ⟨hw, hf, hlisted⟩ := mem_listFields.mp he
    rw [emptyMessage, List.getElem?_map, getElem?_pool hw, Option.map_some] at hf
    rw [← Option.some.inj hf, not_isListed_empty] at hlisted
    cases hlisted
  have hwith : ∀ sub, SoundWith types utf8 sub name (emptyMessage types.pool name) := fun sub =>
    ⟨hasDecls_empty _ _, fun e he => (hnone e he).elim, fun e he => (hnone e he).elim,
      fun e he => (hnone e he).elim⟩
  cases budget <;> exact hwith _

lemma Sound.fold {budget : ℕ} (h : SoundWith types utf8 (Within types utf8 budget) name m) :
    Sound types utf8 budget name m := by
  obtain ⟨hdecls, hvalues, hsubs, honeofs⟩ := h
  cases budget with
  | zero =>
      exact ⟨hdecls, hvalues, fun e he s hs => absurd (hsubs e he s hs).1 (lt_irrefl 0), honeofs⟩
  | succ budget => exact ⟨hdecls, hvalues, fun e he s hs => (hsubs e he s hs).2, honeofs⟩

/-- **What is parsed into a sound message** leaves it sound, the messages in it too. -/
theorem parseAndMergePartial_sound {budget : ℕ} {m' : Message} {ended : Ended}
    {bs rest : List Byte} (h : Sound types utf8 budget name m)
    (hok : parseAndMergePartial types utf8 budget name m bs = .ok (m', ended, rest)) :
    Sound types utf8 budget name m' := by
  induction budget using Nat.strong_induction_on generalizing name m m' ended bs rest with
  | _ budget ih =>
      have hmerge : ∀ t s bs s' ended rest, (0 < budget → Sound types utf8 (budget - 1) t s) →
          mergeNested types utf8 budget t s bs = .ok (s', ended, rest) →
          Within types utf8 budget t s' := by
        intro t s bs s' ended rest hs hread
        rw [mergeNested] at hread
        split_ifs at hread with hpos
        exact ⟨hpos, ih (budget - 1) (Nat.sub_lt hpos one_pos) (hs hpos) hread⟩
      have hstep : ∀ s tag bs rest s' rest',
          SoundWith types utf8 (Within types utf8 budget) name s → readTag bs = .tag tag rest →
          parseAndMergeField types utf8 budget (mergeNested types utf8 budget) (types name) s tag
            rest = .ok (s', rest') → SoundWith types utf8 (Within types utf8 budget) name s' :=
        fun s tag bs rest s' rest' hs _ hfield => parseAndMergeField_sound hs
          (fun t _ => sound_empty types utf8 (budget - 1) t) (fun t s hs _ => hs.2)
          (fun t s hs => hs.2.unfold.hasDecls) hmerge hfield
      rw [parseAndMergePartial_eq] at hok
      rcases WireFormat.readFields_cases (parseAndMergeField_reads (types name))
          (P := fun s _ => SoundWith types utf8 (Within types utf8 budget) name s)
          hstep h.unfold with
        ⟨s', _, _, _, hloop, hs', -⟩ | ⟨_, _, _, _, _, hloop, -⟩
      · rw [hloop] at hok
        cases hok
        exact Sound.fold hs'
      · rw [hloop] at hok
        cases hok

end Accepted

end PbEntityDb
