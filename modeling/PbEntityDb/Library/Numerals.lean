import Mathlib.Data.Nat.Digits.Defs

/-!
Numerals: the digits of a number, the most significant one first.

* `numeral b n` are the digits of `n` in base `b`, a single zero for zero.
* `padded b k n` are its last `k` digits, with leading zeros.
* `dropWhile_grouped`: the digits in base `b ^ k`, each written with `k` digits in base
  `b`, are the digits in base `b` behind some zeros.
-/

namespace Numerals

variable {b : ℕ}

/-- The digits of a number. -/
def numeral (b n : ℕ) : List ℕ := if n = 0 then [0] else (b.digits n).reverse

/-- The last digits of a number. -/
def padded (b : ℕ) : ℕ → ℕ → List ℕ
  | 0, _ => []
  | k + 1, n => padded b k (n / b) ++ [n % b]

/-- The digits in base `b ^ k`, each with `k` digits in base `b`. -/
def grouped (b k n : ℕ) : List ℕ := (((b ^ k).digits n).reverse.map (padded b k)).flatten

lemma padded_mod (k n : ℕ) : padded b k (n % b ^ k) = padded b k n := by
  induction k generalizing n with
  | zero => rfl
  | succ k ih =>
      have hdiv : n % b ^ (k + 1) / b = n / b % b ^ k := by
        rw [pow_succ, mul_comm, Nat.mod_mul_right_div_self]
      have hmod : n % b ^ (k + 1) % b = n % b :=
        Nat.mod_mod_of_dvd n (dvd_pow_self b (by omega))
      rw [padded, padded, hdiv, hmod, ih]

/-- A number that has more digits. -/
lemma reverse_digits_append (hb : 1 < b) {k n : ℕ} (h : n / b ^ k ≠ 0) :
    (b.digits n).reverse = (b.digits (n / b ^ k)).reverse ++ padded b k n := by
  induction k generalizing n with
  | zero => simp [padded]
  | succ k ih =>
      have hpos : 0 < n := Nat.pos_of_ne_zero fun h0 => h (by rw [h0, Nat.zero_div])
      have hdiv : n / b ^ (k + 1) = n / b / b ^ k := by
        rw [Nat.div_div_eq_div_mul, pow_succ, mul_comm]
      rw [Nat.digits_def' hb hpos, List.reverse_cons, hdiv, padded, ← List.append_assoc,
        ih (by rwa [← hdiv])]

/-- A number that has no more digits. -/
lemma dropWhile_padded (hb : 1 < b) {k n : ℕ} (h : n < b ^ k) :
    (padded b k n).dropWhile (· = 0) = (b.digits n).reverse := by
  induction k generalizing n with
  | zero =>
      obtain rfl : n = 0 := by simpa using h
      simp [padded]
  | succ k ih =>
      have hlt : n / b < b ^ k := Nat.div_lt_of_lt_mul (by rwa [mul_comm, ← pow_succ])
      rw [padded, List.dropWhile_append, ih hlt]
      by_cases hzero : n = 0
      · subst hzero
        simp
      · rw [Nat.digits_def' hb (Nat.pos_of_ne_zero hzero), List.reverse_cons]
        by_cases hdiv : n / b = 0
        · have hmod : n % b ≠ 0 := by
            have := Nat.div_add_mod n b
            rw [hdiv, mul_zero] at this
            omega
          simp [hdiv, hmod]
        · have hne : (b.digits (n / b)).reverse.isEmpty = false := by
            simp [Nat.digits_eq_nil_iff_eq_zero, hdiv]
          rw [hne, if_neg Bool.false_ne_true]

/-- **Digits in groups** are the digits behind some zeros. -/
theorem dropWhile_grouped (hb : 1 < b) {k : ℕ} (hk : k ≠ 0) (n : ℕ) :
    (grouped b k n).dropWhile (· = 0) = (b.digits n).reverse := by
  have hbase : 1 < b ^ k := Nat.one_lt_pow hk hb
  induction n using Nat.strong_induction_on with
  | _ n ih =>
      by_cases hzero : n = 0
      · subst hzero
        simp [grouped]
      · have hgroup : grouped b k n = grouped b k (n / b ^ k) ++ padded b k n := by
          rw [grouped, Nat.digits_def' hbase (Nat.pos_of_ne_zero hzero), List.reverse_cons,
            List.map_append, List.flatten_append, ← grouped]
          simp [padded_mod]
        rw [hgroup]
        by_cases hdiv : n / b ^ k = 0
        · have hlt : n < b ^ k := (Nat.div_eq_zero_iff.mp hdiv).resolve_left (by omega)
          rw [hdiv, grouped, Nat.digits_zero]
          exact dropWhile_padded hb hlt
        · have hlt : n / b ^ k < n := Nat.div_lt_self (Nat.pos_of_ne_zero hzero) hbase
          have hne : (b.digits (n / b ^ k)).reverse.isEmpty = false := by
            simp [Nat.digits_eq_nil_iff_eq_zero, hdiv]
          rw [List.dropWhile_append, ih _ hlt, hne, if_neg Bool.false_ne_true,
            reverse_digits_append hb hdiv]

end Numerals
