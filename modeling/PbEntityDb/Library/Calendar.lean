import Mathlib.Tactic

/-!
The proleptic Gregorian calendar.

* A `Date` is a year, a month counted from January, and a day of that month;
  the fields of the structure keep it inside the month.
* `dayNumber` counts the days from the first of January of the year one, and
  `ofDay` is the date of a day: `dayNumber_ofDay` and `ofDay_dayNumber`.
* `splitOff` finds the part of a row of parts that a position falls into; the
  months of a year are such a row.
-/

namespace Calendar

/-! ### A position in a row of parts -/

/-- The part a position falls into, and the position inside it. -/
def splitOff : List ℕ → ℕ → ℕ × ℕ
  | [], n => (0, n)
  | len :: lens, n =>
      if n < len then (0, n)
      else ((splitOff lens (n - len)).1 + 1, (splitOff lens (n - len)).2)

lemma splitOff_spec {lens : List ℕ} {n : ℕ} (h : n < lens.sum) :
    (splitOff lens n).1 < lens.length
      ∧ (splitOff lens n).2 < lens.getD (splitOff lens n).1 0
      ∧ (lens.take (splitOff lens n).1).sum + (splitOff lens n).2 = n := by
  induction lens generalizing n with
  | nil => cases h
  | cons len lens ih =>
      rw [splitOff]
      by_cases hlt : n < len
      · rw [if_pos hlt]
        exact ⟨Nat.succ_pos _, by simpa using hlt, by simp⟩
      · rw [List.sum_cons] at h
        obtain ⟨hpart, hinside, hsum⟩ := ih (n := n - len) (by omega)
        rw [if_neg hlt]
        refine ⟨by simpa using hpart, by simpa using hinside, ?_⟩
        show (len :: lens.take (splitOff lens (n - len)).1).sum + _ = n
        rw [List.sum_cons]
        omega

/-- What lies in front of a part and the part itself lie in front of every
later one. -/
lemma sum_take_add_getD_le (lens : List ℕ) {i j : ℕ} (h : i < j) (hj : j ≤ lens.length) :
    (lens.take i).sum + lens.getD i 0 ≤ (lens.take j).sum := by
  induction lens generalizing i j with
  | nil => simp at hj; omega
  | cons len lens ih =>
      obtain ⟨j, rfl⟩ := Nat.exists_eq_succ_of_ne_zero (by omega : j ≠ 0)
      rw [List.take_succ_cons, List.sum_cons]
      cases i with
      | zero => simp
      | succ i =>
          have hrest := ih (i := i) (j := j) (by omega) (by simpa using hj)
          rw [List.take_succ_cons, List.sum_cons, List.getD_cons_succ]
          omega

/-! ### Years and months -/

/-- A leap year: every fourth, of the full centuries only every fourth. -/
def isLeap (y : ℤ) : Bool := y % 4 = 0 ∧ (y % 100 ≠ 0 ∨ y % 400 = 0)

/-- The lengths of the months. -/
def monthLengths (leap : Bool) : List ℕ :=
  [31, if leap then 29 else 28, 31, 30, 31, 30, 31, 31, 30, 31, 30, 31]

/-- The days from the beginning of the year one to the beginning of a year. -/
def daysBeforeYear (y : ℤ) : ℤ := 365 * (y - 1) + (y - 1) / 4 - (y - 1) / 100 + (y - 1) / 400

/-- The days of a year in front of a month. -/
def daysBeforeMonth (y : ℤ) (m : ℕ) : ℕ := ((monthLengths (isLeap y)).take m).sum

lemma length_monthLengths (leap : Bool) : (monthLengths leap).length = 12 := rfl

lemma sum_monthLengths (leap : Bool) :
    (monthLengths leap).sum = if leap then 366 else 365 := by cases leap <;> rfl

lemma daysBeforeYear_succ (y : ℤ) :
    daysBeforeYear (y + 1) = daysBeforeYear y + (monthLengths (isLeap y)).sum := by
  rw [sum_monthLengths]
  by_cases h : isLeap y = true
  · rw [if_pos h]
    simp only [isLeap, decide_eq_true_eq] at h
    simp only [daysBeforeYear]
    omega
  · rw [if_neg h]
    simp only [isLeap, decide_eq_true_eq] at h
    simp only [daysBeforeYear]
    omega

lemma daysBeforeYear_mono {y z : ℤ} (h : y ≤ z) : daysBeforeYear y ≤ daysBeforeYear z := by
  simp only [daysBeforeYear]
  omega

/-! ### Dates -/

/-- A day of the calendar. -/
@[ext]
structure Date where
  year : ℤ
  /-- counted from January -/
  month : ℕ
  /-- counted from one -/
  day : ℕ
  month_lt : month < 12
  day_pos : 1 ≤ day
  day_le : day ≤ (monthLengths (isLeap year)).getD month 0
  deriving DecidableEq, Repr

/-- The number of a day; the first of January of the year one has the number zero. -/
def Date.dayNumber (d : Date) : ℤ :=
  daysBeforeYear d.year + daysBeforeMonth d.year d.month + (d.day - 1 : ℕ)

/-- The year of a day: the one its number over the mean length of a year gives,
or the one before or behind it. -/
def yearOfDay (n : ℤ) : ℤ :=
  let y := n * 400 / 146097 + 1
  if n < daysBeforeYear y then y - 1 else if daysBeforeYear (y + 1) ≤ n then y + 1 else y

lemma yearOfDay_spec (n : ℤ) :
    daysBeforeYear (yearOfDay n) ≤ n ∧ n < daysBeforeYear (yearOfDay n + 1) := by
  simp only [yearOfDay]
  split_ifs with hbefore hbehind
  · simp only [daysBeforeYear] at *
    omega
  · simp only [daysBeforeYear] at *
    omega
  · exact ⟨by omega, by omega⟩

/-- A year lies around exactly the days it has. -/
lemma yearOfDay_eq {n y : ℤ} (hle : daysBeforeYear y ≤ n) (hlt : n < daysBeforeYear (y + 1)) :
    yearOfDay n = y := by
  obtain ⟨hle', hlt'⟩ := yearOfDay_spec n
  by_contra hne
  by_cases h : yearOfDay n < y
  · have := daysBeforeYear_mono (show yearOfDay n + 1 ≤ y by omega)
    omega
  · have := daysBeforeYear_mono (show y + 1 ≤ yearOfDay n by omega)
    omega

/-- The day inside its year. -/
def dayOfYear (n : ℤ) : ℕ := (n - daysBeforeYear (yearOfDay n)).toNat

lemma dayOfYear_lt (n : ℤ) : dayOfYear n < (monthLengths (isLeap (yearOfDay n))).sum := by
  obtain ⟨hle, hlt⟩ := yearOfDay_spec n
  rw [daysBeforeYear_succ] at hlt
  rw [dayOfYear]
  omega

/-- The date of a day. -/
def Date.ofDay (n : ℤ) : Date where
  year := yearOfDay n
  month := (splitOff (monthLengths (isLeap (yearOfDay n))) (dayOfYear n)).1
  day := (splitOff (monthLengths (isLeap (yearOfDay n))) (dayOfYear n)).2 + 1
  month_lt := (splitOff_spec (dayOfYear_lt n)).1
  day_pos := Nat.succ_pos _
  day_le := (splitOff_spec (dayOfYear_lt n)).2.1

/-- **The date of a day has the number of the day.** -/
theorem Date.dayNumber_ofDay (n : ℤ) : (Date.ofDay n).dayNumber = n := by
  obtain ⟨hle, -⟩ := yearOfDay_spec n
  have hsum := (splitOff_spec (dayOfYear_lt n)).2.2
  calc (Date.ofDay n).dayNumber
      = daysBeforeYear (yearOfDay n)
          + (((monthLengths (isLeap (yearOfDay n))).take
                (splitOff (monthLengths (isLeap (yearOfDay n))) (dayOfYear n)).1).sum
            + (splitOff (monthLengths (isLeap (yearOfDay n))) (dayOfYear n)).2 : ℕ) := by
        simp only [Date.dayNumber, Date.ofDay, daysBeforeMonth, Nat.add_sub_cancel]
        push_cast
        ring
    _ = daysBeforeYear (yearOfDay n) + (dayOfYear n : ℤ) := by rw [hsum]
    _ = n := by
        rw [dayOfYear]
        omega

/-- A date lies inside its year. -/
lemma Date.lt_daysBeforeYear_succ (d : Date) :
    d.dayNumber < daysBeforeYear d.year + (monthLengths (isLeap d.year)).sum := by
  have hmonth := sum_take_add_getD_le (monthLengths (isLeap d.year)) d.month_lt le_rfl
  rw [← length_monthLengths (isLeap d.year), List.take_length] at hmonth
  have hpos := d.day_pos
  have hle := d.day_le
  simp only [Date.dayNumber, daysBeforeMonth]
  omega

/-- **A date is the date of its number.** -/
theorem Date.ofDay_dayNumber (d : Date) : Date.ofDay d.dayNumber = d := by
  have hyear : (Date.ofDay d.dayNumber).year = d.year := by
    refine yearOfDay_eq ?_ ?_
    · simp only [Date.dayNumber]
      omega
    · rw [daysBeforeYear_succ]
      exact d.lt_daysBeforeYear_succ
  have hnumber := Date.dayNumber_ofDay d.dayNumber
  generalize Date.ofDay d.dayNumber = e at hyear hnumber
  obtain ⟨y, m, k, hm, hpos, hle⟩ := d
  obtain ⟨y', m', k', hm', hpos', hle'⟩ := e
  dsimp only at hyear
  subst hyear
  simp only [Date.dayNumber, daysBeforeMonth] at hnumber
  have hmonth : m' = m := by
    by_contra hne
    by_cases h : m' < m
    · have := sum_take_add_getD_le (monthLengths (isLeap y')) h hm.le
      omega
    · have := sum_take_add_getD_le (monthLengths (isLeap y')) (show m < m' by omega)
        hm'.le
      omega
  subst hmonth
  ext
  · rfl
  · rfl
  · dsimp only
    omega

end Calendar
