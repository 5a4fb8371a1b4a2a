import PbEntityDb.Proto.Wire

/-!
Messages and their strings.

* A `Codec` turns messages into strings and strings into messages. It promises
  what protobuf documents: an object is cleared before a string is parsed into
  it, and a message that is serialized and parsed again carries the same fields
  if the string is accepted.
* `Codec.plain`: the strings are what is written of the fields.
-/

namespace PbEntityDb

/-- The strings of the messages of a pool. A string may be refused: one with
invalid characters in a proto3 string is written, but not read. -/
structure Codec (pool : Pool) where
  /-- the strings -/
  Str : Type
  /-- the empty string -/
  nil : Str
  /-- `SerializePartialAsString` and `SerializeToString` -/
  serialize : Message → Str
  /-- `ParsePartialFromString` for an object of a type: its result, and the object
  behind it -/
  parse : Text → Str → Bool × Message
  /-- `IsInitialized`, which `ParseFromString` demands besides -/
  isInitialized : Text → Message → Bool
  typed : ∀ messageType s, HasDecls pool (parse messageType s).2 (pool messageType)
  parse_nil : ∀ messageType, parse messageType nil = (true, emptyMessage pool messageType)
  parse_serialize : ∀ messageType m, HasDecls pool m (pool messageType) →
    (parse messageType (serialize m)).1 = true →
      written (parse messageType (serialize m)).2 = written m

/-- **A message that came through a string** has its type and is written as before. -/
lemma Codec.parsed {pool : Pool} (codec : Codec pool) {messageType : Text} {m m' : Message}
    (hm : HasDecls pool m (pool messageType))
    (h : codec.parse messageType (codec.serialize m) = (true, m')) :
    HasDecls pool m' (pool messageType) ∧ written m' = written m := by
  have htyped := codec.typed messageType (codec.serialize m)
  have hwritten := codec.parse_serialize messageType m hm
  rw [h] at htyped hwritten
  exact ⟨htyped, hwritten rfl⟩

/-! ### Strings that are what is written -/

section Plain

variable (pool : Pool)

mutual

/-- The field of a declaration of which `w` is written. -/
def Wire.read (d : FieldDecl) : Wire → Option Field
  | .absent =>
      match d with
      | .leaf d => if d.unset.hasField then none else some (.leaf d.unset)
      | .message f => some (.unset f)
      | _ => none
  | .leaf v =>
      match d with
      | .leaf d =>
          if h : v.cppType = d.type.cppType then
            if (Leaf.mk d true v h).hasField then some (.leaf ⟨d, true, v, h⟩) else none
          else none
      | _ => none
  | .message fields =>
      match d with
      | .message f => (readFields (pool f.messageType) fields).map (.message f)
      | _ => none
  | .repeated values =>
      match d with
      | .repeated name => some (.repeated name values)
      | _ => none
  | .repeatedMessage elems =>
      match d with
      | .repeatedMessage f => (readElems (pool f.messageType) elems).map (.repeatedMessage f)
      | _ => none

/-- The message with the declared fields of which `ws` is written. -/
def readFields (ds : List FieldDecl) : List Wire → Option Message
  | [] => if ds.isEmpty then some [] else none
  | w :: ws =>
      match ds with
      | [] => none
      | d :: ds => (w.read d).bind fun f => (readFields ds ws).map (f :: ·)

/-- The messages of a repeated field. -/
def readElems (ds : List FieldDecl) : List (List Wire) → Option (List Message)
  | [] => some []
  | ws :: elems => (readFields ds ws).bind fun m => (readElems ds elems).map (m :: ·)

end

variable {pool}

mutual

/-- A field that was read has the declaration, and is written as it was read. -/
theorem Wire.read_sound : ∀ (w : Wire) {d : FieldDecl} {f : Field}, w.read pool d = some f →
    f.HasDecl pool d ∧ f.written = w
  | .absent, d, f, h => by
      cases d with
      | leaf d =>
          rw [Wire.read] at h
          by_cases hd : d.unset.hasField = true
          · simp [hd] at h
          · rw [if_neg hd, Option.some.injEq] at h
            rw [← h, Field.HasDecl, Field.written, if_neg hd]
            exact ⟨rfl, rfl⟩
      | message mf =>
          rw [Wire.read, Option.some.injEq] at h
          rw [← h, Field.HasDecl, Field.written]
          exact ⟨rfl, rfl⟩
      | repeated name => simp [Wire.read] at h
      | repeatedMessage mf => simp [Wire.read] at h
  | .leaf v, d, f, h => by
      cases d with
      | leaf d =>
          rw [Wire.read] at h
          by_cases hv : v.cppType = d.type.cppType
          · rw [dif_pos hv] at h
            by_cases hl : (Leaf.mk d true v hv).hasField = true
            · rw [if_pos hl, Option.some.injEq] at h
              rw [← h, Field.HasDecl, Field.written, if_pos hl]
              exact ⟨rfl, rfl⟩
            · simp [hl] at h
          · simp [hv] at h
      | message mf => simp [Wire.read] at h
      | repeated name => simp [Wire.read] at h
      | repeatedMessage mf => simp [Wire.read] at h
  | .message fields, d, f, h => by
      cases d with
      | message mf =>
          rw [Wire.read] at h
          obtain ⟨sub, hsub, rfl⟩ := Option.map_eq_some_iff.mp h
          obtain ⟨hdecls, hwritten⟩ := readFields_sound fields hsub
          rw [Field.HasDecl, Field.written, hwritten]
          exact ⟨⟨rfl, hdecls⟩, rfl⟩
      | leaf d => simp [Wire.read] at h
      | repeated name => simp [Wire.read] at h
      | repeatedMessage mf => simp [Wire.read] at h
  | .repeated values, d, f, h => by
      cases d with
      | repeated name =>
          rw [Wire.read, Option.some.injEq] at h
          rw [← h, Field.HasDecl, Field.written]
          exact ⟨rfl, rfl⟩
      | leaf d => simp [Wire.read] at h
      | message mf => simp [Wire.read] at h
      | repeatedMessage mf => simp [Wire.read] at h
  | .repeatedMessage elems, d, f, h => by
      cases d with
      | repeatedMessage mf =>
          rw [Wire.read] at h
          obtain ⟨ms, hms, rfl⟩ := Option.map_eq_some_iff.mp h
          rw [Field.HasDecl, Field.written, readElems_sound elems hms]
          exact ⟨rfl, rfl⟩
      | leaf d => simp [Wire.read] at h
      | message mf => simp [Wire.read] at h
      | repeated name => simp [Wire.read] at h

/-- **A message that was read** has the declared fields, and is written as it was
read. -/
theorem readFields_sound : ∀ (ws : List Wire) {ds : List FieldDecl} {m : Message},
    readFields pool ds ws = some m → HasDecls pool m ds ∧ written m = ws
  | [], ds, m, h => by
      cases ds with
      | nil =>
          rw [readFields, List.isEmpty_nil, if_pos rfl, Option.some.injEq] at h
          rw [← h, HasDecls, written_nil]
          exact ⟨rfl, rfl⟩
      | cons d ds => simp [readFields] at h
  | w :: ws, ds, m, h => by
      cases ds with
      | nil => simp [readFields] at h
      | cons d ds =>
          rw [readFields] at h
          obtain ⟨f, hf, h⟩ := Option.bind_eq_some_iff.mp h
          obtain ⟨rest, hrest, rfl⟩ := Option.map_eq_some_iff.mp h
          obtain ⟨hdecl, hwritten⟩ := Wire.read_sound w hf
          obtain ⟨hdecls, hwrittens⟩ := readFields_sound ws hrest
          rw [written_cons, hwritten, hwrittens]
          exact ⟨hasDecls_cons.mpr ⟨hdecl, hdecls⟩, rfl⟩

theorem readElems_sound : ∀ (elems : List (List Wire)) {ds : List FieldDecl} {ms : List Message},
    readElems pool ds elems = some ms → writtenAll ms = elems
  | [], ds, ms, h => by
      rw [readElems] at h
      cases h
      rw [writtenAll]
  | ws :: elems, ds, ms, h => by
      rw [readElems] at h
      obtain ⟨m, hm, h⟩ := Option.bind_eq_some_iff.mp h
      obtain ⟨rest, hrest, rfl⟩ := Option.map_eq_some_iff.mp h
      rw [writtenAll, (readFields_sound ws hm).2, readElems_sound elems hrest]

end

variable (pool)

/-- `ParsePartialFromString` for such a string. An object that is not read is left
empty. -/
def parsePlain (messageType : Text) (s : List Wire) : Bool × Message :=
  if s.isEmpty then (true, emptyMessage pool messageType)
  else
    match readFields pool (pool messageType) s with
    | some m => (true, m)
    | none => (false, emptyMessage pool messageType)

/-- **The strings that are what is written.** All fields of such messages are
optional. -/
def Codec.plain : Codec pool where
  Str := List Wire
  nil := []
  serialize := written
  parse := parsePlain pool
  isInitialized _ _ := true
  typed messageType s := by
    have hempty := hasDecls_empty pool (pool messageType)
    rw [parsePlain]
    split
    · exact hempty
    · split
      · rename_i m hread
        exact (readFields_sound s hread).1
      · exact hempty
  parse_nil _ := rfl
  parse_serialize messageType m hm hparsed := by
    rw [parsePlain] at hparsed ⊢
    cases hs : written m with
    | nil =>
        have hlen : m.length = 0 := by simpa [written_eq_map] using congrArg List.length hs
        obtain rfl := List.length_eq_zero_iff.mp hlen
        rw [HasDecls] at hm
        rw [List.isEmpty_nil, if_pos rfl, emptyMessage, hm, List.map_nil, written_nil]
    | cons w ws =>
        rw [hs] at hparsed
        simp only [List.isEmpty_cons, Bool.false_eq_true, if_false] at hparsed ⊢
        cases hread : readFields pool (pool messageType) (w :: ws) with
        | none => simp [hread] at hparsed
        | some m' => exact (readFields_sound _ hread).2

end Plain

end PbEntityDb
