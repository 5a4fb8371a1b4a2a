import PbEntityDb.Proto.WireFormatLite

/-!
The loop over the fields of a message, which `WireFormat::SkipMessage` and
`WireFormat::ParseAndMergePartial` share.

* `readFields step s bs` reads a tag and lets `step` read the field, until the stream is
  at its limit or at the end of a group; `s` is what the fields are merged into.
* The loop has one equation for each thing it may come upon: `readFields_nil`,
  `readFields_zero`, `readFields_endGroup`, `readFields_ok`, `readFields_error`.
* `readFields_cases`: **what each field keeps, the loop keeps**.
-/

namespace PbEntityDb

namespace WireFormat

open Coded

/-- Where a loop over fields comes to its end. -/
inductive Ended where
  /-- at the limit of the stream, where `ConsumedEntireMessage` holds -/
  | limit
  /-- at a tag that is zero -/
  | zero
  /-- at the end of a group, the tag that `LastTagWas` asks for -/
  | endGroup (tag : BitVec 32)
  deriving DecidableEq

variable {σ : Type}

/-- Reads the field behind a tag. An error leaves what was merged until then. -/
abbrev FieldStep (σ : Type) := σ → BitVec 32 → List Byte → Except σ (σ × List Byte)

/-- The loop over a stream of fewer than `fuel` bytes. -/
def fieldLoop (step : FieldStep σ) : ℕ → σ → List Byte → Except σ (σ × Ended × List Byte)
  | 0, s, _ => .error s
  | fuel + 1, s, bs =>
      match readTag bs with
      | .limit => .ok (s, .limit, [])
      | .zero => .ok (s, .zero, bs)
      | .tag tag rest =>
          if getTagWireType tag = WireType.endGroup.code then .ok (s, .endGroup tag, rest)
          else
            match step s tag rest with
            | .error s => .error s
            | .ok (s, rest) => fieldLoop step fuel s rest

/-- The loop over a stream: each tag has at least one byte. -/
def readFields (step : FieldStep σ) (s : σ) (bs : List Byte) : Except σ (σ × Ended × List Byte) :=
  fieldLoop step (bs.length + 1) s bs

/-- A field is read off the front of the stream. -/
def FieldStep.Reads (step : FieldStep σ) : Prop :=
  ∀ s tag bs s' rest, step s tag bs = .ok (s', rest) → rest <:+ bs

variable {step : FieldStep σ} {s s' : σ} {tag : BitVec 32} {bs rest rest' : List Byte}

lemma readTag_suffix (h : readTag bs = .tag tag rest) : rest <:+ bs ∧ rest.length < bs.length := by
  obtain ⟨-, front, rfl, hle⟩ := readTag_spec h
  refine ⟨List.suffix_append _ _, ?_⟩
  have hpos := List.length_pos_iff.mpr (writeVarint_ne_nil tag.toNat)
  rw [List.length_append]
  omega

/-- Only a stream without a byte is at its limit. -/
lemma eq_nil_of_readTag (h : readTag bs = .limit) : bs = [] := by
  cases bs with
  | nil => rfl
  | cons b bs =>
      rw [readTag_cons] at h
      cases hread : readVarint32 (b :: bs) with
      | none =>
          rw [hread] at h
          cases h
      | some r =>
          rw [hread, TagRead.ofRead] at h
          split_ifs at h

/-- There is fuel enough for each byte. -/
lemma fieldLoop_fuel (hstep : step.Reads) {fuel fuel' : ℕ} (h : bs.length < fuel)
    (h' : bs.length < fuel') : fieldLoop step fuel s bs = fieldLoop step fuel' s bs := by
  induction fuel generalizing fuel' s bs with
  | zero => omega
  | succ fuel ih =>
      obtain ⟨fuel', rfl⟩ := Nat.exists_eq_succ_of_ne_zero (Nat.ne_zero_of_lt h')
      rw [fieldLoop, fieldLoop]
      cases hread : readTag bs with
      | limit => rfl
      | zero => rfl
      | tag tag rest =>
          have hrest := (readTag_suffix hread).2
          simp only
          split_ifs with hend
          · rfl
          · cases hs : step s tag rest with
            | error s => rfl
            | ok r =>
                obtain ⟨s', rest'⟩ := r
                have hlen := (hstep _ _ _ _ _ hs).length_le
                exact ih (by omega) (by omega)

lemma readFields_nil (step : FieldStep σ) (s : σ) : readFields step s [] = .ok (s, .limit, []) :=
  rfl

lemma readFields_zero (h : readTag bs = .zero) : readFields step s bs = .ok (s, .zero, bs) := by
  rw [readFields, fieldLoop, h]

lemma readFields_endGroup (h : readTag bs = .tag tag rest)
    (hend : getTagWireType tag = WireType.endGroup.code) :
    readFields step s bs = .ok (s, .endGroup tag, rest) := by
  rw [readFields, fieldLoop, h]
  exact if_pos hend

lemma readFields_error (h : readTag bs = .tag tag rest)
    (hend : getTagWireType tag ≠ WireType.endGroup.code) (hs : step s tag rest = .error s') :
    readFields step s bs = .error s' := by
  rw [readFields, fieldLoop, h]
  simp only [if_neg hend, hs]

lemma readFields_ok (hstep : step.Reads) (h : readTag bs = .tag tag rest)
    (hend : getTagWireType tag ≠ WireType.endGroup.code)
    (hs : step s tag rest = .ok (s', rest')) :
    readFields step s bs = readFields step s' rest' := by
  have hlen := (hstep _ _ _ _ _ hs).length_le
  have hlt := (readTag_suffix h).2
  rw [readFields, fieldLoop, h]
  simp only [if_neg hend, hs]
  exact fieldLoop_fuel hstep (by omega) (by omega)

/-- What there is at the end of a loop, and what follows it. -/
inductive EndsAt : List Byte → Ended → List Byte → Prop
  | limit : EndsAt [] .limit []
  | zero {bs : List Byte} (h : readTag bs = .zero) : EndsAt bs .zero bs
  | endGroup {bs rest : List Byte} {tag : BitVec 32} (h : readTag bs = .tag tag rest)
      (hend : getTagWireType tag = WireType.endGroup.code) : EndsAt bs (.endGroup tag) rest

lemma EndsAt.suffix {ended : Ended} (h : EndsAt bs ended rest) : rest <:+ bs := by
  cases h with
  | limit => exact List.suffix_refl _
  | zero => exact List.suffix_refl _
  | endGroup h => exact (readTag_suffix h).1

/-- **What each field keeps, the loop keeps**, up to its end or to the field that fails. -/
theorem readFields_cases (hstep : step.Reads) {P : σ → List Byte → Prop}
    (hok : ∀ s tag bs rest s' rest', P s bs → readTag bs = .tag tag rest →
      step s tag rest = .ok (s', rest') → P s' rest') (hs : P s bs) :
    (∃ s' bs' ended rest, readFields step s bs = .ok (s', ended, rest) ∧ P s' bs' ∧
      EndsAt bs' ended rest) ∨
    ∃ s' bs' tag rest s'', readFields step s bs = .error s'' ∧ P s' bs' ∧
      readTag bs' = .tag tag rest ∧ step s' tag rest = .error s'' := by
  induction hlen : bs.length using Nat.strong_induction_on generalizing s bs with
  | _ n ih =>
      cases hread : readTag bs with
      | limit =>
          obtain rfl := eq_nil_of_readTag hread
          exact .inl ⟨s, [], .limit, [], rfl, hs, .limit⟩
      | zero => exact .inl ⟨s, bs, .zero, bs, readFields_zero hread, hs, .zero hread⟩
      | tag tag rest =>
          by_cases hend : getTagWireType tag = WireType.endGroup.code
          · exact .inl ⟨s, bs, _, rest, readFields_endGroup hread hend, hs, .endGroup hread hend⟩
          · cases hfield : step s tag rest with
            | error s' =>
                exact .inr ⟨s, bs, tag, rest, s', readFields_error hread hend hfield, hs, hread,
                  hfield⟩
            | ok r =>
                obtain ⟨s', rest'⟩ := r
                have hle := (hstep _ _ _ _ _ hfield).length_le
                have hlt := (readTag_suffix hread).2
                rw [readFields_ok hstep hread hend hfield]
                exact ih rest'.length (by omega) (hok _ _ _ _ _ _ hs hread hfield) rfl

/-- The loop leaves the end of the stream. -/
lemma readFields_suffix (hstep : step.Reads) {ended : Ended}
    (h : readFields step s bs = .ok (s', ended, rest)) : rest <:+ bs := by
  rcases readFields_cases hstep (P := fun _ bs' => bs' <:+ bs) (s := s)
      (fun s tag bs' rest s' rest' hsuffix hread hfield =>
        (hstep _ _ _ _ _ hfield).trans ((readTag_suffix hread).1.trans hsuffix))
      (List.suffix_refl bs) with
    ⟨_, _, _, _, hloop, hsuffix, hend⟩ | ⟨_, _, _, _, _, hloop, _⟩
  · rw [hloop] at h
    cases h
    exact hend.suffix.trans hsuffix
  · rw [hloop] at h
    cases h

end WireFormat

end PbEntityDb
