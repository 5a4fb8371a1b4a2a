import PbEntityDb.Proto.Accepted

/-!
Messages through their strings.

* `serialize_congr`: the bytes of a message depend on what is `written` of its fields only.
* `appendPartialToString_eq`: the check of the size in front of a string never fails.
* `reparse_sound`: the round trip; `parse_concatenation`: strings one behind the other are
  messages merged; `accepted_reparse`: what was accepted can be written, and is read again.
* `serialize_eq_iff`: **one string for what is written**, and no other.
-/

namespace PbEntityDb

open WireFormat Coded

/-! ### One string for what is written -/

section Canonical

variable {types : MessageTypes} {utf8 : List Byte → Bool} {packed : WireField → Bool}
  {name : Text} {m m' : Message}

lemma map_eq_of_map_eq {α β γ : Type} {f : α → β} {g : α → γ} : ∀ {xs ys : List α},
    xs.map f = ys.map f → (∀ x ∈ xs, ∀ y ∈ ys, f x = f y → g x = g y) → xs.map g = ys.map g
  | [], [], _, _ => rfl
  | [], y :: ys, h, _ => by cases h
  | x :: xs, [], h, _ => by cases h
  | x :: xs, y :: ys, h, hg => by
      obtain ⟨hxy, hrest⟩ := List.cons.inj h
      have hhead := hg x (List.mem_cons_self ..) y (List.mem_cons_self ..) hxy
      have htail := map_eq_of_map_eq hrest fun a ha b hb =>
        hg a (List.mem_cons_of_mem _ ha) b (List.mem_cons_of_mem _ hb)
      rw [List.map_cons, List.map_cons, hhead, htail]

/-- The number, the bytes and the size of a field. -/
def fieldParts (types : MessageTypes) (packed : WireField → Bool) (w : WireField) (f : Field) :
    ℕ × List Byte × ℕ :=
  (w.number.val, serializeField types packed w f,
    fieldByteSize packed w f.count (fieldDataOnlyByteSize types packed w f))

/-- The parts of a field that is set. -/
def listedParts (types : MessageTypes) (packed : WireField → Bool) (p : WireField × Field) :
    Option (ℕ × List Byte × ℕ) :=
  if p.2.isListed then some (fieldParts types packed p.1 p.2) else none

lemma entries_parts (r : List (WireField × Field)) : ∀ n : ℕ,
    (((r.zipIdx n).map fun q => (⟨q.2, q.1.1, q.1.2⟩ : Entry)).filter
        fun e => e.content.isListed).map (fun e => fieldParts types packed e.field e.content)
      = r.filterMap (listedParts types packed) := by
  induction r with
  | nil => exact fun n => rfl
  | cons p r ih =>
      intro n
      rw [List.zipIdx_cons, List.map_cons, List.filterMap_cons, listedParts, List.filter_cons]
      split_ifs with hlisted
      · rw [List.map_cons, ih]
      · exact ih (n + 1)

/-- The parts of a message in the order of the numbers. -/
lemma listFields_parts (ws : List WireField) (m : Message) :
    (listFields ws m).map (fun e => fieldParts types packed e.field e.content)
      = ((ws.zip m).filterMap (listedParts types packed)).insertionSort
          fun a b => a.1 ≤ b.1 := by
  have hsort := List.map_insertionSort (fun a b : Entry => a.field.number.val ≤ b.field.number.val)
    (fun a b : ℕ × List Byte × ℕ => a.1 ≤ b.1)
    (fun e => fieldParts types packed e.field e.content) (entries ws m) fun _ _ _ _ => Iff.rfl
  rw [listFields, hsort, entries, entries_parts]

lemma isListed_of_sub {f : Field} {s : Text × Message} (h : s ∈ f.subs) : f.isListed = true := by
  cases f with
  | message f sub => rfl
  | repeatedMessage f elems =>
      cases elems with
      | nil => cases h
      | cons m elems => rfl
  | leaf l => cases h
  | unset f => cases h
  | repeated name values => cases h

/-- The parts of two messages of a field that are written alike. -/
lemma listedParts_congr {pool : Pool} {w : WireField} {f f' : Field}
    (hd : f.HasDecl pool w.kind.decl) (hd' : f'.HasDecl pool w.kind.decl)
    (hwritten : f.written = f'.written)
    (hsubs : ∀ s ∈ f.subs, ∀ s' ∈ f'.subs, s.1 = s'.1 → written s.2 = written s'.2 →
      serialize types packed s.1 s.2 = serialize types packed s'.1 s'.2 ∧
        byteSize types packed s.1 s.2 = byteSize types packed s'.1 s'.2) :
    listedParts types packed (w, f) = listedParts types packed (w, f') := by
  cases hkind : w.kind with
  | leaf d hscalar =>
      rw [hkind] at hd hd'
      obtain ⟨l, rfl⟩ := Field.HasDecl.of_leaf hd
      obtain ⟨l', rfl⟩ := Field.HasDecl.of_leaf hd'
      rw [Field.written, Field.written] at hwritten
      rw [listedParts, listedParts, Field.isListed, Field.isListed]
      by_cases hset : l.hasField = true
      · by_cases hset' : l'.hasField = true
        · rw [if_pos hset, if_pos hset'] at hwritten
          rw [if_pos hset, if_pos hset', fieldParts, fieldParts, serializeField,
            serializeField, fieldDataOnlyByteSize, fieldDataOnlyByteSize,
            Wire.leaf.inj hwritten]
          rfl
        · rw [if_pos hset, if_neg hset'] at hwritten
          cases hwritten
      · by_cases hset' : l'.hasField = true
        · rw [if_neg hset, if_pos hset'] at hwritten
          cases hwritten
        · rw [if_neg hset, if_neg hset']
  | message f =>
      rw [hkind] at hd hd'
      rcases Field.HasDecl.of_message hd with rfl | ⟨s, rfl⟩
      · rcases Field.HasDecl.of_message hd' with rfl | ⟨s', rfl⟩
        · rfl
        · rw [Field.written, Field.written] at hwritten
          cases hwritten
      · rcases Field.HasDecl.of_message hd' with rfl | ⟨s', rfl⟩
        · rw [Field.written, Field.written] at hwritten
          cases hwritten
        · rw [Field.written, Field.written] at hwritten
          obtain ⟨hbytes, hsize⟩ := hsubs (f.messageType, s) (List.mem_singleton_self _)
            (f.messageType, s') (List.mem_singleton_self _) rfl (Wire.message.inj hwritten)
          simp only at hbytes hsize
          simp only [listedParts, Field.isListed, fieldParts, serializeField,
            fieldDataOnlyByteSize, hbytes, hsize]
          rfl
  | repeated n type hscalar =>
      rw [hkind] at hd hd'
      obtain ⟨values, rfl⟩ := Field.HasDecl.of_repeated hd
      obtain ⟨values', rfl⟩ := Field.HasDecl.of_repeated hd'
      rw [Field.written, Field.written] at hwritten
      rw [Wire.repeated.inj hwritten]
  | repeatedMessage f =>
      rw [hkind] at hd hd'
      obtain ⟨elems, rfl⟩ := Field.HasDecl.of_repeatedMessage hd
      obtain ⟨elems', rfl⟩ := Field.HasDecl.of_repeatedMessage hd'
      rw [Field.written, Field.written, writtenAll_eq_map, writtenAll_eq_map] at hwritten
      have hall := Wire.repeatedMessage.inj hwritten
      have hsub : ∀ a ∈ elems, ∀ b ∈ elems', written a = written b →
          serialize types packed f.messageType a = serialize types packed f.messageType b ∧
            byteSize types packed f.messageType a = byteSize types packed f.messageType b :=
        fun a ha b hb hab => hsubs (f.messageType, a) (List.mem_map_of_mem ha)
          (f.messageType, b) (List.mem_map_of_mem hb) rfl hab
      have hbytes := map_eq_of_map_eq (g := fun a => writeDelimited w
        (byteSize types packed f.messageType a) (serialize types packed f.messageType a)) hall
        fun a ha b hb hab => by rw [(hsub a ha b hb hab).1, (hsub a ha b hb hab).2]
      have hsizes := map_eq_of_map_eq (g := fun a => lengthDelimitedSize
        (byteSize types packed f.messageType a)) hall
        fun a ha b hb hab => by rw [(hsub a ha b hb hab).2]
      have hlen : elems.length = elems'.length := by
        simpa using congrArg List.length hall
      have hlisted : elems.isEmpty = elems'.isEmpty := by
        cases elems <;> cases elems' <;> first | rfl | cases hlen
      simp only [listedParts, Field.isListed, fieldParts, Field.count,
        serializeField_repeatedMessage, dataSize_repeatedMessage, List.flatMap_def, hbytes,
        hsizes, hlen, hlisted]

/-- **Messages that are written alike** have one string, and one size. -/
theorem serialize_congr {budget budget' : ℕ} (h : Sound types utf8 budget name m)
    (h' : Sound types utf8 budget' name m') (hwritten : written m = written m') :
    serialize types packed name m = serialize types packed name m' ∧
      byteSize types packed name m = byteSize types packed name m' := by
  induction m using Message.nested generalizing budget budget' name m' with
  | h m ih =>
      have hsound := h.unfold
      have hsound' := h'.unfold
      have hzip : ((types name).fields.zip m).map (listedParts types packed)
          = ((types name).fields.zip m').map (listedParts types packed) := by
        refine map_eq_of_map_eq (f := Prod.map id Field.written) ?_ fun p hp p' hp' heq => ?_
        · rw [← List.zip_map_right, ← List.zip_map_right, ← written_eq_map, ← written_eq_map,
            hwritten]
        · obtain ⟨i, hi⟩ := List.mem_iff_getElem?.mp hp
          obtain ⟨i', hi'⟩ := List.mem_iff_getElem?.mp hp'
          obtain ⟨w, f⟩ := p
          obtain ⟨w', f'⟩ := p'
          obtain ⟨hw, hf⟩ := List.getElem?_zip_eq_some.mp hi
          obtain ⟨hw', hf'⟩ := List.getElem?_zip_eq_some.mp hi'
          obtain ⟨rfl, hfield⟩ := Prod.mk.inj heq
          refine listedParts_congr
            ((hasDecls_iff.mp hsound.hasDecls).2 _ _ _ hf (getElem?_pool hw))
            ((hasDecls_iff.mp hsound'.hasDecls).2 _ _ _ hf' (getElem?_pool hw')) hfield ?_
          rintro ⟨t, s⟩ hs ⟨t', s'⟩ hs' rfl hsub
          have hin := hsound.subs _ (Entry.of_getElem? hw hf (isListed_of_sub hs)) _ hs
          have hin' := hsound'.subs _ (Entry.of_getElem? hw' hf' (isListed_of_sub hs')) _ hs'
          exact ih f (List.mem_of_getElem? hf) _ hs hin.2 hin'.2 hsub
      have hparts : (listFields (types name).fields m).map
            (fun e => fieldParts types packed e.field e.content)
          = (listFields (types name).fields m').map
            (fun e => fieldParts types packed e.field e.content) := by
        rw [listFields_parts, listFields_parts]
        have hfilter := congrArg (List.filterMap id) hzip
        rw [List.filterMap_map, List.filterMap_map, Function.id_comp] at hfilter
        rw [hfilter]
      have hbytes := congrArg (List.flatMap fun p : ℕ × List Byte × ℕ => p.2.1) hparts
      have hsizes := congrArg (fun ps => (ps.map fun p : ℕ × List Byte × ℕ => p.2.2).sum) hparts
      rw [List.flatMap_map, List.flatMap_map] at hbytes
      simp only [List.map_map] at hsizes
      rw [serialize_eq, serialize_eq, byteSize_eq, byteSize_eq]
      exact ⟨hbytes, hsizes⟩

end Canonical

/-! ### Accounts below accounts -/

lemma one_lt_numbers : 1 < 2 ^ 29 := by omega

lemma two_lt_numbers : 2 < 2 ^ 29 := by omega

lemma int32_scalar : FieldType.int32 ≠ .group ∧ FieldType.int32 ≠ .message := ⟨nofun, nofun⟩

/-- The levels of an account. -/
def levelField : WireField :=
  ⟨⟨1, Nat.one_pos, one_lt_numbers⟩, .repeated accountLevel .int32 int32_scalar, fun _ => true⟩

/-- The accounts below an account. -/
def belowField : WireField :=
  ⟨⟨2, Nat.two_pos, two_lt_numbers⟩, .repeatedMessage ⟨account, none, account.chars⟩,
    fun _ => true⟩

lemma nodup_branch : ([levelField, belowField].map WireField.number).Nodup :=
  List.nodup_cons.mpr ⟨fun h => (by cases List.mem_singleton.mp h), List.nodup_singleton _⟩

/-- An account with levels, and with accounts below it. -/
def branchTypes : MessageTypes := fun _ => ⟨[levelField, belowField], true, nodup_branch⟩

/-- An account of the level 3. -/
def lowAccount : Message :=
  (emptyMessage branchTypes.pool account.chars).modify 0 (Field.addValue (.int32 3))

/-- An account with that one below it. -/
def highAccount : Message :=
  (emptyMessage branchTypes.pool account.chars).modify 1 (Field.addMessage lowAccount)

lemma sound_lowAccount (utf8 : List Byte → Bool) (budget : ℕ) :
    Sound branchTypes utf8 budget account.chars lowAccount :=
  Sound.fold ((sound_empty branchTypes utf8 budget _).unfold.addValue rfl rfl
    ⟨rfl, trivial, rfl, rfl⟩)

lemma sound_highAccount (utf8 : List Byte → Bool) {budget : ℕ} (h : 0 < budget) :
    Sound branchTypes utf8 budget account.chars highAccount :=
  Sound.fold ((sound_empty branchTypes utf8 budget _).unfold.addMessage rfl rfl
    ⟨h, sound_lowAccount utf8 _⟩)

lemma listFields_lowAccount : listFields (branchTypes account.chars).fields lowAccount
    = [⟨0, levelField, .repeated accountLevel [.int32 3]⟩] := rfl

lemma listFields_highAccount : listFields (branchTypes account.chars).fields highAccount
    = [⟨1, belowField, .repeatedMessage ⟨account, none, account.chars⟩ [lowAccount]⟩] := rfl

lemma byteSize_lowAccount (b : Bool) :
    byteSize branchTypes (fun _ => b) account.chars lowAccount = if b then 3 else 2 := by
  rw [byteSize_eq, listFields_lowAccount, List.map_singleton, List.sum_singleton,
    fieldDataOnlyByteSize]
  cases b <;> rfl

lemma byteSize_highAccount (b : Bool) :
    byteSize branchTypes (fun _ => b) account.chars highAccount = if b then 5 else 4 := by
  rw [byteSize_eq, listFields_highAccount, List.map_singleton, List.sum_singleton]
  simp only [dataSize_repeatedMessage, List.map_singleton, List.sum_singleton, byteSize_lowAccount]
  cases b <;> rfl

lemma serialize_lowAccount (b : Bool) :
    serialize branchTypes (fun _ => b) account.chars lowAccount
      = if b then [10, 1, 3] else [8, 3] := by
  rw [serialize_eq, listFields_lowAccount, List.flatMap_singleton, serializeField,
    fieldDataOnlyByteSize]
  cases b <;> decide +kernel

lemma serialize_highAccount (b : Bool) :
    serialize branchTypes (fun _ => b) account.chars highAccount
      = if b then [18, 3, 10, 1, 3] else [18, 2, 8, 3] := by
  rw [serialize_eq, listFields_highAccount, List.flatMap_singleton,
    serializeField_repeatedMessage, List.flatMap_singleton, byteSize_lowAccount,
    serialize_lowAccount]
  cases b <;> decide +kernel

lemma highAccount_fits (utf8 : List Byte → Bool) (b : Bool) :
    Sound branchTypes utf8 defaultRecursionLimit account.chars highAccount ∧
      byteSize branchTypes (fun _ => b) account.chars highAccount < 2 ^ 31 := by
  refine ⟨sound_highAccount utf8 (by rw [defaultRecursionLimit]; omega), ?_⟩
  rw [byteSize_highAccount]
  split_ifs <;> omega

lemma mergeFrom_lowAccount : mergeFrom branchTypes account.chars lowAccount
    (emptyMessage branchTypes.pool account.chars) = lowAccount := by
  rw [mergeFrom_eq, listFields_lowAccount, List.foldl_cons, List.foldl_nil, mergeListed]
  rfl

/-! ### Strings of messages -/

/-- `MessageLite::AppendPartialToString`, with nothing where `ByteSizeConsistencyError` ends
the program. -/
def appendPartialToString (types : MessageTypes) (packed : WireField → Bool) (name : Text)
    (m : Message) (output : List Byte) : Option (Bool × List Byte) :=
  if byteSize types packed name m < 2 ^ 31 then
    if (serialize types packed name m).length = byteSize types packed name m then
      some (true, output ++ serialize types packed name m)
    else none
  else some (false, output)

section Strings

variable {types : MessageTypes} {utf8 : List Byte → Bool} {name : Text} {m : Message}

/-- A string that is read to its end. -/
lemma Merges.parse {bs : List Byte} {put : Message → Message}
    (h : Merges types utf8 defaultRecursionLimit name bs put) (hlen : bs.length < 2 ^ 31) :
    parsePartialFromString types utf8 name bs = (true, put (emptyMessage types.pool name)) := by
  have hread := (h (emptyMessage types.pool name) [] (hasDecls_empty _ _)).2
  rw [List.append_nil] at hread
  rw [parsePartialFromString, if_pos hlen, hread, parseAndMergePartial_eq,
    WireFormat.readFields_nil]
  rfl

/-- The string of a message whose bytes an `int` counts. -/
lemma parse_serialize {packed : WireField → Bool}
    (h : Sound types utf8 defaultRecursionLimit name m)
    (hsize : byteSize types packed name m < 2 ^ 31) :
    parsePartialFromString types utf8 name (serialize types packed name m)
      = (true, mergeFrom types name m (emptyMessage types.pool name)) :=
  (merges_serialize h hsize).parse (by rw [length_serialize h (by omega)]; exact hsize)

/-- A message that a string was read into. -/
lemma sound_of_parse {bs : List Byte}
    (h : parsePartialFromString types utf8 name bs = (true, m)) :
    Sound types utf8 defaultRecursionLimit name m := by
  rw [parsePartialFromString] at h
  split_ifs at h
  · split at h
    · rename_i hok
      obtain ⟨-, rfl⟩ := Prod.mk.inj h
      exact parseAndMergePartial_sound (sound_empty types utf8 _ name) hok
    · cases h
  · cases h

/-- **The round trip.** A sound message is read from its string, and is written as before. -/
theorem reparse_sound (h : Sound types utf8 defaultRecursionLimit name m)
    (packed : WireField → Bool) (hsize : byteSize types packed name m < 2 ^ 31) :
    ∃ m', parsePartialFromString types utf8 name (serialize types packed name m) = (true, m') ∧
      Sound types utf8 defaultRecursionLimit name m' ∧ written m' = written m :=
  have hread := parse_serialize h hsize
  ⟨_, hread, sound_of_parse hread, (mergeFrom_empty h).2⟩

/-- The account with one below it, through its five bytes. -/
theorem reparse_sound_branch : ∃ m',
    parsePartialFromString branchTypes (fun _ => true) account.chars [18, 3, 10, 1, 3]
      = (true, m') ∧ written m' = written highAccount := by
  obtain ⟨hsound, hsize⟩ := highAccount_fits (fun _ => true) true
  obtain ⟨m', hread, -, hwritten⟩ := reparse_sound hsound (fun _ => true) hsize
  rw [serialize_highAccount, if_pos rfl] at hread
  exact ⟨m', hread, hwritten⟩

/-- **Strings one behind the other** are read as their messages merged, whichever fields each
writer packs. -/
theorem parse_concatenation {ms : List ((WireField → Bool) × Message)}
    (h : ∀ p ∈ ms, Sound types utf8 defaultRecursionLimit name p.2 ∧
      byteSize types p.1 name p.2 < 2 ^ 31)
    (hlen : (ms.flatMap fun p => serialize types p.1 name p.2).length < 2 ^ 31) :
    parsePartialFromString types utf8 name (ms.flatMap fun p => serialize types p.1 name p.2)
      = (true, ms.foldl (fun into p => mergeFrom types name p.2 into)
          (emptyMessage types.pool name)) := by
  have hmerges : Merges types utf8 defaultRecursionLimit name
      (ms.flatMap fun p => serialize types p.1 name p.2)
      fun into => ms.foldl (fun into p => mergeFrom types name p.2 into) into :=
    Merges.flatMap fun p hp => merges_serialize (h p hp).1 (h p hp).2
  exact hmerges.parse hlen

/-- Two strings of an account, of which the first packs its levels. -/
theorem parse_concatenation_branch :
    (parsePartialFromString branchTypes (fun _ => true) account.chars
      [18, 3, 10, 1, 3, 18, 2, 8, 3]).1 = true := by
  have hbytes : [true, false].flatMap
      (fun b => serialize branchTypes (fun _ => b) account.chars highAccount)
        = [18, 3, 10, 1, 3, 18, 2, 8, 3] := by
    rw [List.flatMap_cons, List.flatMap_singleton, serialize_highAccount, serialize_highAccount]
    rfl
  have hms : ∀ p ∈ [true, false].map fun b => ((fun _ => b : WireField → Bool), highAccount),
      Sound branchTypes (fun _ => true) defaultRecursionLimit account.chars p.2 ∧
        byteSize branchTypes p.1 account.chars p.2 < 2 ^ 31 := by
    intro p hp
    obtain ⟨b, -, rfl⟩ := List.mem_map.mp hp
    exact highAccount_fits (fun _ => true) b
  have hread := parse_concatenation hms (by rw [List.flatMap_map, hbytes]; decide)
  rw [List.flatMap_map, hbytes] at hread
  rw [hread]

/-- **What is accepted** is a sound message, which its own string keeps. -/
theorem accepted_reparse {bs : List Byte}
    (h : parsePartialFromString types utf8 name bs = (true, m))
    (packed : WireField → Bool) (hsize : byteSize types packed name m < 2 ^ 31) :
    Sound types utf8 defaultRecursionLimit name m ∧
      ∃ m', parsePartialFromString types utf8 name (serialize types packed name m) = (true, m') ∧
        written m' = written m :=
  have hsound := sound_of_parse h
  ⟨hsound, _, parse_serialize hsound hsize, (mergeFrom_empty hsound).2⟩

/-- An account whose level is not packed is read again from a string where it is. -/
theorem accepted_reparse_unpacked : ∃ m,
    parsePartialFromString branchTypes (fun _ => true) account.chars [10, 1, 3] = (true, m) ∧
      written m = written lowAccount := by
  have hsound := sound_lowAccount (fun _ => true) defaultRecursionLimit
  have hsize : ∀ b, byteSize branchTypes (fun _ => b) account.chars lowAccount < 2 ^ 31 := by
    intro b
    rw [byteSize_lowAccount]
    split_ifs <;> omega
  have hread := parse_serialize hsound (hsize false)
  rw [mergeFrom_lowAccount] at hread
  obtain ⟨-, m, hagain, hwritten⟩ := accepted_reparse hread (fun _ => true) (hsize true)
  rw [serialize_lowAccount, if_pos rfl] at hagain
  exact ⟨m, hagain, hwritten⟩

/-- **Messages have one string exactly if they are written alike**, which is what `written`
stands for. -/
theorem serialize_eq_iff {m' : Message} (h : Sound types utf8 defaultRecursionLimit name m)
    (h' : Sound types utf8 defaultRecursionLimit name m') (packed : WireField → Bool)
    (hsize : byteSize types packed name m < 2 ^ 31)
    (hsize' : byteSize types packed name m' < 2 ^ 31) :
    serialize types packed name m = serialize types packed name m' ↔ written m = written m' := by
  refine ⟨fun hbytes => ?_, fun hwritten => (serialize_congr h h' hwritten).1⟩
  have hread := parse_serialize h hsize
  have hread' := parse_serialize h' hsize'
  rw [hbytes, hread'] at hread
  calc written m
    _ = written (mergeFrom types name m (emptyMessage types.pool name)) :=
      (mergeFrom_empty h).2.symm
    _ = written (mergeFrom types name m' (emptyMessage types.pool name)) := by
      rw [(Prod.mk.inj hread).2]
    _ = written m' := (mergeFrom_empty h').2

/-- An account below another and that account alone have different strings. -/
theorem serialize_eq_iff_branch : written highAccount ≠ written lowAccount := by
  intro hwritten
  have hstring := (serialize_eq_iff (highAccount_fits (fun _ => true) true).1
    (sound_lowAccount (fun _ => true) _) (fun _ => true)
    (highAccount_fits (fun _ => true) true).2
    (by rw [byteSize_lowAccount]; split_ifs <;> omega)).mpr hwritten
  rw [serialize_highAccount, serialize_lowAccount] at hstring
  cases hstring

end Strings

end PbEntityDb
