import Mathlib.Tactic
import Mathlib.Data.Nat.Digits.Defs

/-!
Integers in little-endian bytes.

* `bytes n v` are the lowest `n` bytes of an integer in two's complement, and
  `signed` reads bytes back (`signed_bytes`).
* `signed_append_iff`: bytes behind those of an integer change what is read, unless
  all of them repeat its sign.
-/

namespace TwosComplement

/-- The number in some bytes. -/
def unsigned (bs : List (BitVec 8)) : ℕ := Nat.ofDigits 256 (bs.map BitVec.toNat)

/-- The integer in some bytes. -/
def signed (bs : List (BitVec 8)) : ℤ := Int.bmod (unsigned bs) (256 ^ bs.length)

/-- The lowest bytes of an integer. -/
def bytes : ℕ → ℤ → List (BitVec 8)
  | 0, _ => []
  | n + 1, v => BitVec.ofInt 8 v :: bytes n (v / 256)

/-- The integers of `n` bytes. -/
def Fits (n : ℕ) (v : ℤ) : Prop := -(256 ^ n) ≤ v * 2 ∧ v * 2 < 256 ^ n

/-- The byte that repeats the sign. -/
def pad (v : ℤ) : BitVec 8 := if 0 ≤ v then 0 else 255

/-! ### Reading back -/

lemma length_bytes (n : ℕ) (v : ℤ) : (bytes n v).length = n := by
  induction n generalizing v with
  | zero => rfl
  | succ n ih => rw [bytes, List.length_cons, ih]

lemma unsigned_cons (b : BitVec 8) (bs : List (BitVec 8)) :
    unsigned (b :: bs) = b.toNat + 256 * unsigned bs := by
  rw [unsigned, List.map_cons, Nat.ofDigits_cons, unsigned]

lemma unsigned_lt (bs : List (BitVec 8)) : unsigned bs < 256 ^ bs.length := by
  have hlt := Nat.ofDigits_lt_base_pow_length (b := 256) (l := bs.map BitVec.toNat) (by omega)
    fun x hx => by
      obtain ⟨b, -, rfl⟩ := List.mem_map.mp hx
      exact b.isLt
  rwa [List.length_map] at hlt

/-- Reduction in two steps. -/
lemma emod_mul (v : ℤ) {a : ℤ} (ha : 0 ≤ a) (b : ℤ) :
    v % (a * b) = v % a + a * (v / a % b) := by
  rw [Int.emod_def, Int.emod_def, Int.emod_def, Int.ediv_ediv_of_nonneg ha]
  ring

lemma unsigned_bytes (n : ℕ) (v : ℤ) : (unsigned (bytes n v) : ℤ) = v % 256 ^ n := by
  induction n generalizing v with
  | zero =>
      rw [pow_zero, Int.emod_one]
      rfl
  | succ n ih =>
      have hbyte : ((BitVec.ofInt 8 v).toNat : ℤ) = v % 256 := by
        rw [BitVec.toNat_ofInt, Int.toNat_of_nonneg (Int.emod_nonneg v (by omega))]
        rfl
      calc (unsigned (bytes (n + 1) v) : ℤ)
          = (BitVec.ofInt 8 v).toNat + 256 * (unsigned (bytes n (v / 256)) : ℤ) := by
            rw [bytes, unsigned_cons]
            push_cast
            rfl
        _ = v % 256 + 256 * (v / 256 % 256 ^ n) := by rw [hbyte, ih]
        _ = v % 256 ^ (n + 1) := by rw [pow_succ', emod_mul v (by omega)]

/-- **An integer is read back.** -/
theorem signed_bytes {n : ℕ} {v : ℤ} (h : Fits n v) : signed (bytes n v) = v := by
  have hpow : ((256 ^ n : ℕ) : ℤ) = 256 ^ n := by push_cast; rfl
  rw [signed, length_bytes, unsigned_bytes, ← hpow, Int.emod_bmod]
  exact Int.bmod_eq_of_le_mul_two (by rw [hpow]; exact h.1) (by rw [hpow]; exact h.2)

/-- Bytes that are read as the same integer are the same. -/
lemma signed_injective {bs bs' : List (BitVec 8)} (hlen : bs.length = bs'.length)
    (h : signed bs = signed bs') : bs = bs' := by
  have hmod := congrArg (fun x : ℤ => x % (256 ^ bs.length : ℕ)) h
  have hnat : unsigned bs = unsigned bs' := by
    simp only [signed, hlen, Int.bmod_emod] at hmod
    have hlt := unsigned_lt bs
    have hlt' := unsigned_lt bs'
    rw [hlen] at hlt
    rw [Int.emod_eq_of_lt (by omega) (by exact_mod_cast hlt),
      Int.emod_eq_of_lt (by omega) (by exact_mod_cast hlt')] at hmod
    exact_mod_cast hmod
  have hdigits : ∀ bs : List (BitVec 8), ∀ x ∈ bs.map BitVec.toNat, x < 256 := by
    intro bs x hx
    obtain ⟨b, -, rfl⟩ := List.mem_map.mp hx
    exact b.isLt
  have hmap := Nat.ofDigits_inj_of_len_eq (by omega) (by simpa using hlen) (hdigits bs)
    (hdigits bs') hnat
  exact List.map_injective_iff.mpr (fun b b' => BitVec.eq_of_toNat_eq) hmap

/-! ### Bytes behind an integer -/

lemma bytes_add (m k : ℕ) (v : ℤ) : bytes (m + k) v = bytes m v ++ bytes k (v / 256 ^ m) := by
  induction m generalizing v with
  | zero => rw [Nat.zero_add, pow_zero, Int.ediv_one, bytes, List.nil_append]
  | succ m ih =>
      have hdiv : v / 256 / 256 ^ m = v / 256 ^ (m + 1) := by
        rw [Int.ediv_ediv_of_nonneg (by omega), ← pow_succ']
      rw [Nat.succ_add, bytes, ih, hdiv]
      rfl

/-- An integer of fewer bytes is continued by its sign. -/
lemma bytes_add_of_fits {m : ℕ} {v : ℤ} (h : Fits m v) (k : ℕ) :
    bytes (m + k) v = bytes m v ++ List.replicate k (pad v) := by
  have hpos : (0 : ℤ) < 256 ^ m := by positivity
  have hsame : ∀ (w : ℤ) (b : BitVec 8), w / 256 = w → BitVec.ofInt 8 w = b →
      bytes k w = List.replicate k b := by
    intro w b hw hb
    induction k with
    | zero => rfl
    | succ k ih => rw [bytes, hw, hb, ih, List.replicate_succ]
  obtain ⟨hle, hlt⟩ := h
  rw [bytes_add, pad]
  by_cases hv : 0 ≤ v
  · have hdiv : v / 256 ^ m = 0 := Int.ediv_eq_zero_of_lt hv (by omega)
    rw [if_pos hv, hdiv, hsame 0 0 (by decide) (by decide)]
  · have hdiv : v / 256 ^ m = -1 := by
      rw [Int.ediv_eq_iff_of_pos hpos]
      omega
    rw [if_neg hv, hdiv, hsame (-1) 255 (by decide) (by decide)]

lemma Fits.add {m : ℕ} {v : ℤ} (h : Fits m v) (k : ℕ) : Fits (m + k) v := by
  have hpow : (256 : ℤ) ^ m ≤ 256 ^ (m + k) := pow_le_pow_right₀ (by omega) (Nat.le_add_right m k)
  obtain ⟨hle, hlt⟩ := h
  exact ⟨by omega, by omega⟩

/-- **What stands behind an integer** does not change it exactly if it repeats the
sign. -/
theorem signed_append_iff {m : ℕ} {v : ℤ} (h : Fits m v) (rest : List (BitVec 8)) :
    signed (bytes m v ++ rest) = v ↔ ∀ b ∈ rest, b = pad v := by
  have hread := signed_bytes (h.add rest.length)
  rw [bytes_add_of_fits h] at hread
  rw [← List.eq_replicate_iff.trans (and_iff_right rfl)]
  constructor
  · intro hsigned
    have hlen : (bytes m v ++ rest).length
        = (bytes m v ++ List.replicate rest.length (pad v)).length := by
      rw [List.length_append, List.length_append, List.length_replicate]
    exact List.append_cancel_left (signed_injective hlen (hsigned.trans hread.symm))
  · intro hrest
    rw [hrest]
    exact hread

end TwosComplement
