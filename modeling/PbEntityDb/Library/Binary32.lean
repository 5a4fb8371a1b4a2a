import Mathlib.Data.Nat.Log
import Mathlib.Tactic

/-!
Single precision numbers as double precision numbers, by their bits.

* `Parts` are sign, exponent and fraction; `unpack` takes a word apart, `pack` puts it
  together.
* `widen` is the number of double precision with the same value: a subnormal number
  becomes normal, and a signaling NaN becomes quiet. `narrow` goes back.
* `widen_narrow`: **a number that was widened is narrowed and widened without a change.**
* `widen_lowHalf_iff`: the low half of a number of double precision, taken as one of
  single precision, has its value only if it is zero.
-/

namespace Binary32

/-- The parts of a floating point number. -/
@[ext]
structure Parts where
  sign : ℕ
  exponent : ℕ
  fraction : ℕ
  deriving DecidableEq, Repr

/-- The parts of a word with `e` bits of exponent and `m` bits of fraction. -/
def unpack (e m n : ℕ) : Parts := ⟨n / 2 ^ (e + m), n / 2 ^ m % 2 ^ e, n % 2 ^ m⟩

/-- The word with these parts. -/
def pack (e m : ℕ) (p : Parts) : ℕ :=
  p.sign * 2 ^ (e + m) + p.exponent * 2 ^ m + p.fraction

/-- A NaN is quiet; other numbers stay as they are. -/
def Parts.quiet (p : Parts) : Parts :=
  if p.exponent = 255 ∧ p.fraction ≠ 0 then { p with fraction := 2 ^ 22 + p.fraction % 2 ^ 22 }
  else p

/-- The parts in double precision. -/
def Parts.widen (p : Parts) : Parts :=
  if p.exponent = 255 then ⟨p.sign, 2047, p.quiet.fraction * 2 ^ 29⟩
  else if p.exponent ≠ 0 then ⟨p.sign, p.exponent + 896, p.fraction * 2 ^ 29⟩
  else if p.fraction = 0 then ⟨p.sign, 0, 0⟩
  else
    let k := Nat.log 2 p.fraction
    ⟨p.sign, k + 874, (p.fraction - 2 ^ k) * 2 ^ (52 - k)⟩

/-- The parts in single precision, of a number that has one. -/
def Parts.narrow (p : Parts) : Parts :=
  if p.exponent = 2047 then ⟨p.sign, 255, p.fraction / 2 ^ 29⟩
  else if p.exponent > 896 then ⟨p.sign, p.exponent - 896, p.fraction / 2 ^ 29⟩
  else if p.exponent = 0 then ⟨p.sign, 0, 0⟩
  else
    let k := p.exponent - 874
    ⟨p.sign, 0, 2 ^ k + p.fraction / 2 ^ (52 - k)⟩

/-- The conversion of a `float` to a `double`. -/
def widen (f : BitVec 32) : BitVec 64 :=
  BitVec.ofNat 64 (pack 11 52 (unpack 8 23 f.toNat).widen)

/-- The conversion of a `double` to the `float` of the same value. -/
def narrow (d : BitVec 64) : BitVec 32 :=
  BitVec.ofNat 32 (pack 8 23 (unpack 11 52 d.toNat).narrow)

/-- The parts fit their fields. -/
structure Parts.Fits (p : Parts) (e m : ℕ) : Prop where
  sign : p.sign < 2
  exponent : p.exponent < 2 ^ e
  fraction : p.fraction < 2 ^ m

lemma unpack_fits {e m n : ℕ} (h : n < 2 ^ (e + m) * 2) : (unpack e m n).Fits e m :=
  ⟨Nat.div_lt_of_lt_mul h, Nat.mod_lt _ (by positivity), Nat.mod_lt _ (by positivity)⟩

lemma pack_lt {e m : ℕ} {p : Parts} (h : p.Fits e m) : pack e m p < 2 ^ (e + m) * 2 := by
  have hexp : p.exponent * 2 ^ m + p.fraction < 2 ^ (e + m) := calc
    p.exponent * 2 ^ m + p.fraction < (p.exponent + 1) * 2 ^ m := by
      rw [Nat.succ_mul]; exact Nat.add_lt_add_left h.fraction _
    _ ≤ 2 ^ e * 2 ^ m := Nat.mul_le_mul_right _ h.exponent
    _ = 2 ^ (e + m) := (pow_add _ _ _).symm
  have hsign := Nat.mul_le_mul_right (2 ^ (e + m)) (Nat.le_of_lt_succ h.sign)
  rw [pack, Nat.add_assoc]
  omega

lemma unpack_pack {e m : ℕ} {p : Parts} (h : p.Fits e m) : unpack e m (pack e m p) = p := by
  have hlow : pack e m p = 2 ^ m * (p.sign * 2 ^ e + p.exponent) + p.fraction := by
    rw [pack, pow_add]
    ring
  have hdiv : pack e m p / 2 ^ m = p.sign * 2 ^ e + p.exponent := by
    rw [hlow, Nat.mul_add_div (by positivity), Nat.div_eq_of_lt h.fraction, Nat.add_zero]
  ext
  · show pack e m p / 2 ^ (e + m) = p.sign
    rw [Nat.add_comm, pow_add, ← Nat.div_div_eq_div_mul, hdiv, Nat.mul_comm,
      Nat.mul_add_div (by positivity), Nat.div_eq_of_lt h.exponent, Nat.add_zero]
  · show pack e m p / 2 ^ m % 2 ^ e = p.exponent
    rw [hdiv, Nat.mul_comm, Nat.mul_add_mod, Nat.mod_eq_of_lt h.exponent]
  · show pack e m p % 2 ^ m = p.fraction
    rw [hlow, Nat.mul_add_mod, Nat.mod_eq_of_lt h.fraction]

lemma Parts.Fits.log_fraction {p : Parts} (h : p.Fits 8 23) (hne : p.fraction ≠ 0) :
    Nat.log 2 p.fraction < 23 := Nat.log_lt_of_lt_pow hne h.fraction

lemma Parts.Fits.quiet {p : Parts} (h : p.Fits 8 23) : p.quiet.Fits 8 23 := by
  rw [Parts.quiet]
  split_ifs
  · exact ⟨h.sign, h.exponent, by show 2 ^ 22 + p.fraction % 2 ^ 22 < 2 ^ 23; omega⟩
  · exact h

lemma Parts.Fits.widen {p : Parts} (h : p.Fits 8 23) : p.widen.Fits 11 52 := by
  have hquiet := h.quiet.fraction
  have hfraction := h.fraction
  have hexponent := h.exponent
  rw [Parts.widen]
  split_ifs with h255 h0 hzero
  · exact ⟨h.sign, by norm_num, by show p.quiet.fraction * 2 ^ 29 < 2 ^ 52; omega⟩
  · exact ⟨h.sign, by show p.exponent + 896 < 2 ^ 11; omega,
      by show p.fraction * 2 ^ 29 < 2 ^ 52; omega⟩
  · exact ⟨h.sign, by norm_num, by norm_num⟩
  · have hlog := h.log_fraction hzero
    set k := Nat.log 2 p.fraction with hk
    have hlt : p.fraction - 2 ^ k < 2 ^ k := by
      have := Nat.lt_pow_succ_log_self (b := 2) (by omega) p.fraction
      rw [← hk, Nat.succ_eq_add_one, pow_succ] at this
      omega
    have hpow : 2 ^ k * 2 ^ (52 - k) = 2 ^ 52 := by rw [← pow_add]; congr 1; omega
    refine ⟨h.sign, by show k + 874 < 2 ^ 11; omega, ?_⟩
    show (p.fraction - 2 ^ k) * 2 ^ (52 - k) < 2 ^ 52
    rw [← hpow]
    exact Nat.mul_lt_mul_of_pos_right hlt (by positivity)

/-- Back from double precision, only a NaN may have changed. -/
lemma Parts.narrow_widen {p : Parts} (h : p.Fits 8 23) : p.widen.narrow = p.quiet := by
  have hexponent := h.exponent
  rw [Parts.widen]
  split_ifs with h255 h0 hzero
  · rw [Parts.narrow, if_pos rfl]
    ext
    · rw [Parts.quiet]; split_ifs <;> rfl
    · rw [Parts.quiet]; split_ifs <;> exact h255.symm
    · exact Nat.mul_div_cancel _ (by positivity)
  · rw [Parts.narrow, if_neg (by show p.exponent + 896 ≠ 2047; omega),
      if_pos (by show p.exponent + 896 > 896; omega), Parts.quiet, if_neg fun h => h255 h.1]
    ext
    · rfl
    · exact Nat.add_sub_cancel _ _
    · exact Nat.mul_div_cancel _ (by positivity)
  · rw [Parts.narrow, if_neg (by norm_num), if_neg (by norm_num), if_pos rfl, Parts.quiet,
      if_neg fun h => h255 h.1]
    ext
    · rfl
    · exact (not_not.mp h0).symm
    · exact hzero.symm
  · have hlog := h.log_fraction hzero
    set k := Nat.log 2 p.fraction with hk
    have hle : 2 ^ k ≤ p.fraction := Nat.pow_log_le_self 2 hzero
    rw [Parts.narrow, if_neg (by show k + 874 ≠ 2047; omega),
      if_neg (by show ¬ k + 874 > 896; omega), if_neg (by show k + 874 ≠ 0; omega), Parts.quiet,
      if_neg fun h => h255 h.1]
    have hsub : k + 874 - 874 = k := Nat.add_sub_cancel _ _
    ext
    · rfl
    · exact (not_not.mp h0).symm
    · show 2 ^ (k + 874 - 874) + (p.fraction - 2 ^ k) * 2 ^ (52 - k) / 2 ^ (52 - (k + 874 - 874))
        = p.fraction
      rw [hsub, Nat.mul_div_cancel _ (by positivity)]
      omega

/-- A NaN that is made quiet has the same number in double precision. -/
lemma Parts.widen_quiet (p : Parts) : p.quiet.widen = p.widen := by
  rw [Parts.quiet]
  split_ifs with h
  · simp [Parts.widen, Parts.quiet, h.1, h.2]
  · rfl

/-- **A number that was widened** is narrowed and widened without a change. -/
theorem widen_narrow (f : BitVec 32) : widen (narrow (widen f)) = widen f := by
  set p := unpack 8 23 f.toNat with hp
  have hfits : p.Fits 8 23 := unpack_fits f.isLt
  have hwide : unpack 11 52 (widen f).toNat = p.widen := by
    have hlt : pack 11 52 p.widen < 2 ^ 64 := pack_lt hfits.widen
    rw [widen, ← hp, BitVec.toNat_ofNat, Nat.mod_eq_of_lt hlt, unpack_pack hfits.widen]
  have hnarrow : unpack 8 23 (narrow (widen f)).toNat = p.quiet := by
    have hlt : pack 8 23 p.quiet < 2 ^ 32 := pack_lt hfits.quiet
    rw [narrow, hwide, Parts.narrow_widen hfits, BitVec.toNat_ofNat, Nat.mod_eq_of_lt hlt,
      unpack_pack hfits.quiet]
  show BitVec.ofNat 64 (pack 11 52 (unpack 8 23 (narrow (widen f)).toNat).widen) = widen f
  rw [hnarrow, Parts.widen_quiet]
  rfl

lemma widen_zero : widen 0 = 0 := by simp [widen, unpack, Parts.widen, pack]

/-- The low half of a word of double precision. -/
def lowHalf (d : BitVec 64) : BitVec 32 := d.extractLsb' 0 32

lemma lowHalf_zero : lowHalf 0 = 0 := by simp [lowHalf]

/-- The fraction of a number that was widened ends in at least 29 zeros. -/
lemma Parts.Fits.widen_fraction {p : Parts} (h : p.Fits 8 23) :
    ∃ c, p.widen.fraction = c * 2 ^ 29 := by
  rw [Parts.widen]
  split_ifs with h255 h0 hzero
  · exact ⟨_, rfl⟩
  · exact ⟨_, rfl⟩
  · exact ⟨0, rfl⟩
  · have hlog := h.log_fraction hzero
    have hpow : 52 - Nat.log 2 p.fraction = 23 - Nat.log 2 p.fraction + 29 := by omega
    refine ⟨(p.fraction - 2 ^ Nat.log 2 p.fraction) * 2 ^ (23 - Nat.log 2 p.fraction), ?_⟩
    show (p.fraction - 2 ^ Nat.log 2 p.fraction) * 2 ^ (52 - Nat.log 2 p.fraction) = _
    rw [hpow, pow_add, Nat.mul_assoc]

/-- **The low half of a double has its value only if it is zero.** -/
theorem widen_lowHalf_iff (d : BitVec 64) : widen (lowHalf d) = d ↔ d = 0 := by
  refine ⟨fun h => ?_, fun h => by rw [h, lowHalf_zero, widen_zero]⟩
  set f := lowHalf d with hf
  set p := unpack 8 23 f.toNat with hp
  have hfits : p.Fits 8 23 := unpack_fits f.isLt
  have hlt : pack 11 52 p.widen < 2 ^ 64 := pack_lt hfits.widen
  have hd : d.toNat = pack 11 52 p.widen := by
    rw [← h, widen, ← hp, BitVec.toNat_ofNat, Nat.mod_eq_of_lt hlt]
  have hlow : f.toNat = d.toNat % 2 ^ 32 := by
    rw [hf, lowHalf, BitVec.extractLsb'_toNat, Nat.shiftRight_zero]
  obtain ⟨c, hc⟩ := hfits.widen_fraction
  have hbits : f.toNat = c * 2 ^ 29 % 2 ^ 32 := by
    rw [hlow, hd, pack, hc]
    omega
  -- the half has no fraction, and no sign or exponent of a number without one
  have hfraction : p.fraction = 0 := by
    show f.toNat % 2 ^ 23 = 0
    omega
  have hexponent : p.exponent = f.toNat / 2 ^ 23 % 2 ^ 8 := rfl
  have hsign : p.sign = f.toNat / 2 ^ (8 + 23) := rfl
  have hquiet : p.quiet.fraction = 0 := by
    rw [Parts.quiet, if_neg fun h => h.2 hfraction, hfraction]
  have hnone : p.widen.fraction = 0 := by
    rw [Parts.widen]
    split_ifs with h255 h0
    · show p.quiet.fraction * 2 ^ 29 = 0
      rw [hquiet, Nat.zero_mul]
    · show p.fraction * 2 ^ 29 = 0
      rw [hfraction, Nat.zero_mul]
    · rfl
  have hzero : f.toNat = 0 := by
    rw [hc] at hnone
    rw [hbits, hnone]
    norm_num
  have hf0 : f = 0 := BitVec.eq_of_toNat_eq hzero
  rw [← h, hf0, widen_zero]

end Binary32
