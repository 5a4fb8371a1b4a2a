import Mathlib.Data.Nat.Log
import Mathlib.Tactic

/-!
Numbers of any length: digits in base `b`, the lowest first, and a mark on each cell but
the last.

* `encode b mk` writes a number, `decode b cell` reads one of at most `k` cells; `mk` and
  `cell` are the code of a digit, which is `b` more where another one follows.
* `decode_encode`: **what is written is read back**, whatever follows.
* `decode_spec`: what is read ends with its last digit, and no number is shorter than it
  is written.
-/

namespace Varint

variable {β : Type} {b : ℕ} {mk : ℕ → β} {cell : β → ℕ}

/-- The cells of a number. -/
def encode (b : ℕ) (mk : ℕ → β) (n : ℕ) : List β :=
  if n < b ∨ b ≤ 1 then [mk n] else mk (n % b + b) :: encode b mk (n / b)
termination_by n
decreasing_by exact Nat.div_lt_self (by omega) (by omega)

/-- Reads a number of `k` cells at most. -/
def decode (b : ℕ) (cell : β → ℕ) : ℕ → List β → Option (ℕ × List β)
  | 0, _ => none
  | _ + 1, [] => none
  | k + 1, c :: cs =>
      if cell c < b then some (cell c, cs)
      else (decode b cell k cs).map fun r => (cell c - b + b * r.1, r.2)

lemma encode_of_lt {n : ℕ} (h : n < b) : encode b mk n = [mk n] := by
  rw [encode, if_pos (.inl h)]

lemma encode_of_le (hb : 1 < b) {n : ℕ} (h : b ≤ n) :
    encode b mk n = mk (n % b + b) :: encode b mk (n / b) := by
  rw [encode, if_neg (by omega)]

lemma decode_zero (cs : List β) : decode b cell 0 cs = none := rfl

lemma decode_nil (k : ℕ) : decode b cell k [] = none := by cases k <;> rfl

lemma decode_cons_of_lt {c : β} (h : cell c < b) (k : ℕ) (cs : List β) :
    decode b cell (k + 1) (c :: cs) = some (cell c, cs) := if_pos h

lemma decode_cons_of_le {c : β} (h : b ≤ cell c) (k : ℕ) (cs : List β) :
    decode b cell (k + 1) (c :: cs)
      = (decode b cell k cs).map fun r => (cell c - b + b * r.1, r.2) :=
  if_neg (Nat.not_lt.mpr h)

/-! ### How many cells there are -/

/-- One cell for each digit. -/
lemma length_encode (hb : 1 < b) (n : ℕ) : (encode b mk n).length = Nat.log b n + 1 := by
  induction n using Nat.strong_induction_on with
  | _ n ih =>
      rcases Nat.lt_or_ge n b with h | h
      · rw [encode_of_lt h, Nat.log_of_lt h, List.length_singleton]
      · rw [encode_of_le hb h, List.length_cons, ih _ (Nat.div_lt_self (by omega) hb),
          Nat.log_of_one_lt_of_le hb h]

lemma encode_ne_nil (hb : 1 < b) (n : ℕ) : encode b mk n ≠ [] := by
  intro h
  have : (encode b mk n).length = Nat.log b n + 1 := length_encode hb n
  rw [h, List.length_nil] at this
  omega

lemma length_encode_le (hb : 1 < b) {k n : ℕ} (hk : 0 < k) (h : n < b ^ k) :
    (encode b mk n).length ≤ k := by
  rw [length_encode hb]
  exact Nat.log_lt_of_lt_pow' (by omega) h

lemma length_encode_mono (hb : 1 < b) {m n : ℕ} (h : m ≤ n) :
    (encode b mk m).length ≤ (encode b mk n).length := by
  rw [length_encode hb, length_encode hb]
  exact Nat.succ_le_succ (Nat.log_mono_right h)

/-! ### Reading -/

/-- **What is written is read back**, whatever follows. -/
theorem decode_encode (hb : 1 < b) (hmk : ∀ n < 2 * b, cell (mk n) = n) (cs : List β) {k n : ℕ}
    (h : (encode b mk n).length ≤ k) :
    decode b cell k (encode b mk n ++ cs) = some (n, cs) := by
  induction k generalizing n with
  | zero => exact absurd (List.length_eq_zero_iff.mp (Nat.le_zero.mp h)) (encode_ne_nil hb n)
  | succ k ih =>
      rcases Nat.lt_or_ge n b with hlt | hge
      · have hcell : cell (mk n) = n := hmk n (by omega)
        rw [encode_of_lt hlt, List.singleton_append, decode_cons_of_lt (by omega), hcell]
      · have hmod : n % b < b := Nat.mod_lt n (by omega)
        have hcell : cell (mk (n % b + b)) = n % b + b := hmk _ (by omega)
        rw [encode_of_le hb hge] at h ⊢
        rw [List.cons_append, decode_cons_of_le (by omega), ih (by simpa using h), hcell,
          Option.map_some, Nat.add_sub_cancel, Nat.mod_add_div]

/-- **What is read**: cells up to one without a mark, not more than `k`, and no fewer than
the number is written with. -/
theorem decode_spec (hb : 1 < b) (hcell : ∀ c, cell c < 2 * b) {k n : ℕ} {cs rest : List β}
    (h : decode b cell k cs = some (n, rest)) :
    ∃ front, cs = front ++ rest ∧ front.length ≤ k ∧ (encode b mk n).length ≤ front.length := by
  induction k generalizing n cs with
  | zero => cases h
  | succ k ih =>
      cases cs with
      | nil => cases h
      | cons c cs =>
          rcases Nat.lt_or_ge (cell c) b with hlt | hge
          · rw [decode_cons_of_lt hlt] at h
            obtain ⟨rfl, rfl⟩ := Prod.mk.inj (Option.some.inj h)
            refine ⟨[c], rfl, by simp, ?_⟩
            rw [encode_of_lt hlt, List.length_singleton, List.length_singleton]
          · rw [decode_cons_of_le hge] at h
            obtain ⟨⟨m, cs'⟩, hm, heq⟩ := Option.map_eq_some_iff.mp h
            obtain ⟨rfl, rfl⟩ := Prod.mk.inj heq
            obtain ⟨front, rfl, hlen, hle⟩ := ih hm
            refine ⟨c :: front, rfl, by simpa using hlen, ?_⟩
            -- the marks of the front say nothing about the size of the digits behind them
            have hdigit : cell c - b < b := by have := hcell c; omega
            rcases Nat.lt_or_ge (cell c - b + b * m) b with hsmall | hlarge
            · rw [encode_of_lt hsmall]
              simp
            · have hdiv : (cell c - b + b * m) / b = m := by
                rw [Nat.add_mul_div_left _ _ (by omega), Nat.div_eq_of_lt hdigit, Nat.zero_add]
              rw [encode_of_le hb hlarge, hdiv]
              simpa using hle

/-- A number is read if the last cell ends one and there are not too many. -/
lemma exists_decode {cs : List β} (hlast : ∃ c ∈ cs.getLast?, cell c < b) {k : ℕ}
    (hk : cs.length ≤ k) : ∃ r, decode b cell k cs = some r := by
  induction k generalizing cs with
  | zero =>
      obtain ⟨c, hc, -⟩ := hlast
      rw [List.eq_nil_of_length_eq_zero (Nat.le_zero.mp hk)] at hc
      cases hc
  | succ k ih =>
      cases cs with
      | nil =>
          obtain ⟨c, hc, -⟩ := hlast
          cases hc
      | cons c cs =>
          rcases Nat.lt_or_ge (cell c) b with hlt | hge
          · exact ⟨_, decode_cons_of_lt hlt k cs⟩
          · obtain ⟨c', hc', hlt⟩ := hlast
            cases cs with
            | nil =>
                obtain rfl : c = c' := by simpa using hc'
                exact absurd hlt (Nat.not_lt.mpr hge)
            | cons d cs =>
                rw [List.getLast?_cons_cons] at hc'
                obtain ⟨r, hr⟩ := ih ⟨c', hc', hlt⟩ (by simpa using hk)
                exact ⟨_, by rw [decode_cons_of_le hge, hr, Option.map_some]⟩

end Varint
