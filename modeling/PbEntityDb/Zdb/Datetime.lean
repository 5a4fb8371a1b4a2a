import PbEntityDb.Library.Calendar

/-!
Times in a DATETIME column.

* `MysqlTime.setTimestamp` and `MysqlTime.getTimestamp` are the two accessors of
  libzdb with their shift of eight hours: the one takes a time apart with
  `gmtime_r`, the other puts it together with libzdb's own `timegm`.
* `MysqlTime.instant` is the time that the components of a DATETIME stand for, and
  `instant_setTimestamp` says for which times `setTimestamp` finds components.
* `timegm_eq` is the calendar between the accessors: in the year 0 `timegm` is a
  day ahead, and `getTimestamp_setTimestamp_stored` is what this makes of the round
  trip of a time. `getTimestamp_setTimestamp` and `setTimestamp_getTimestamp` are
  the two round trips in the years that the column is made for.

The `int` arithmetic behind `gmtime_r` is that of the integers: the years of a
DATETIME are far from its limits.
-/

namespace PbEntityDb

open Calendar

/-- `struct tm`. -/
structure Tm where
  tmYear : ℤ
  tmMon : ℤ
  tmMday : ℤ
  tmHour : ℤ
  tmMin : ℤ
  tmSec : ℤ
  deriving DecidableEq, Repr

/-- `MYSQL_TIME`, the components of a DATETIME. -/
@[ext]
structure MysqlTime where
  year : BitVec 32
  month : BitVec 32
  day : BitVec 32
  hour : BitVec 32
  minute : BitVec 32
  second : BitVec 32
  deriving DecidableEq, Repr

/-! ### The calendar functions -/

/-- The number of the first of January 1970. -/
def epochDay : ℤ := 719162

/-- The date and the time of day of a time, without a time zone. -/
def gmtimeR (x : ℤ) : Tm :=
  let date := Date.ofDay (x / 86400 + epochDay)
  let second := x % 86400
  { tmYear := date.year - 1900
    tmMon := date.month
    tmMday := date.day
    tmHour := second / 3600
    tmMin := second % 3600 / 60
    tmSec := second % 60 }

/-- A `struct tm` as `setTimestamp` initialises it. -/
def Tm.new : Tm := ⟨0, 0, 0, 0, 0, 0⟩

/-- `gmtime_r`; a year that is no `int` is an error, and the date is not set. -/
def Tm.gmtimeR (ts : Tm) (x : ℤ) : Tm :=
  if -2 ^ 31 ≤ (PbEntityDb.gmtimeR x).tmYear ∧ (PbEntityDb.gmtimeR x).tmYear < 2 ^ 31 then
    PbEntityDb.gmtimeR x
  else ts

/-- `count_leap_year`. -/
def countLeapYear (y : ℤ) : ℤ :=
  let y := y - 1
  y.tdiv 4 - y.tdiv 100 + y.tdiv 400

/-- `is_leap_year`. -/
def isLeapYear (y : ℤ) : Bool := y.tmod 4 = 0 ∧ (y.tmod 100 ≠ 0 ∨ y.tmod 400 = 0)

/-- The table `daysum`. -/
def daysum : List ℤ := [0, 31, 59, 90, 120, 151, 181, 212, 243, 273, 304, 334]

/-- `timegm`, `none` for a month in front of the table. -/
def timegm (tm : Tm) : Option (BitVec 64) :=
  if tm.tmMon > 11 then some (-1)
  else if tm.tmMon < 0 then none
  else
    let numLeapYear := countLeapYear (tm.tmYear + 1900) - countLeapYear 1970
    let days := (tm.tmYear - 70) * 365 + numLeapYear + daysum.getD tm.tmMon.toNat 0 + tm.tmMday - 1
    let days := if tm.tmMon ≥ 2 ∧ isLeapYear (tm.tmYear + 1900) then days + 1 else days
    some (BitVec.ofInt 64 ((days * 24 + tm.tmHour) * 3600 + tm.tmMin * 60 + tm.tmSec))

/-! ### The accessors -/

/-- `CHINA_TZ`. -/
def chinaTz : BitVec 64 := 28800

namespace MysqlTime

/-- `MysqlPreparedStatement_setTimestamp`. -/
def setTimestamp (x : BitVec 64) : MysqlTime :=
  let ts := Tm.new.gmtimeR (x + chinaTz).toInt
  { year := BitVec.ofInt 32 (ts.tmYear + 1900)
    month := BitVec.ofInt 32 (ts.tmMon + 1)
    day := BitVec.ofInt 32 ts.tmMday
    hour := BitVec.ofInt 32 ts.tmHour
    minute := BitVec.ofInt 32 ts.tmMin
    second := BitVec.ofInt 32 ts.tmSec }

/-- The `struct tm` that `MysqlResultSet_getTimestamp` fills in; the subtractions
are those of unsigned numbers. -/
def toTm (tmVal : MysqlTime) : Tm where
  tmYear := (tmVal.year - 1900).toInt
  tmMon := (tmVal.month - 1).toInt
  tmMday := tmVal.day.toInt
  tmHour := tmVal.hour.toInt
  tmMin := tmVal.minute.toInt
  tmSec := tmVal.second.toInt

/-- `MysqlResultSet_getTimestamp` of a column that is not null. -/
def getTimestamp (tmVal : MysqlTime) : Option (BitVec 64) :=
  (timegm tmVal.toTm).map (· - chinaTz)

/-- The components are those of a DATETIME. -/
def Valid (tmVal : MysqlTime) : Prop :=
  tmVal.year.toNat ≤ 9999 ∧ 1 ≤ tmVal.month.toNat ∧ tmVal.month.toNat ≤ 12
    ∧ 1 ≤ tmVal.day.toNat
    ∧ tmVal.day.toNat ≤ (monthLengths (isLeap tmVal.year.toNat)).getD (tmVal.month.toNat - 1) 0
    ∧ tmVal.hour.toNat < 24 ∧ tmVal.minute.toNat < 60 ∧ tmVal.second.toNat < 60

instance (tmVal : MysqlTime) : Decidable tmVal.Valid := inferInstanceAs (Decidable (_ ∧ _))

/-- The time that a DATETIME stands for in the zone of `CHINA_TZ`, in seconds since the
beginning of 1970. -/
def instant (tmVal : MysqlTime) : Option ℤ :=
  if tmVal.Valid then
    let day := daysBeforeYear tmVal.year.toNat
      + daysBeforeMonth tmVal.year.toNat (tmVal.month.toNat - 1) + (tmVal.day.toNat - 1 : ℕ)
    some (((day - epochDay) * 24 + tmVal.hour.toNat) * 3600 + tmVal.minute.toNat * 60
      + tmVal.second.toNat - 28800)
  else none

end MysqlTime

/-! ### From a count of seconds to the calendar and back -/

/-- The leap years in front of a year; the divisions truncate, so there is one too many in
front of the year 0. -/
lemma countLeapYear_eq {y : ℤ} (h : 0 ≤ y) :
    countLeapYear y
      = (y - 1) / 4 - (y - 1) / 100 + (y - 1) / 400 + if y = 0 then 1 else 0 := by
  by_cases hzero : y = 0
  · subst hzero
    decide
  · have hpos : 0 ≤ y - 1 := by omega
    simp only [countLeapYear, Int.tdiv_eq_ediv_of_nonneg hpos, if_neg hzero, add_zero]

lemma isLeapYear_eq {y : ℤ} (h : 0 ≤ y) : isLeapYear y = isLeap y := by
  simp only [isLeapYear, isLeap, Int.tmod_eq_emod_of_nonneg h]

/-- The table with the correction behind February. -/
lemma daysum_eq (y : ℤ) {m : ℕ} (hm : m < 12) :
    daysum.getD m 0 + (if 2 ≤ m ∧ isLeap y then 1 else 0) = (daysBeforeMonth y m : ℤ) := by
  have htable : ∀ leap : Bool, ∀ m < 12,
      daysum.getD m 0 + (if 2 ≤ m ∧ leap then 1 else 0)
        = (((monthLengths leap).take m).sum : ℤ) := by decide
  exact htable (isLeap y) m hm

/-- **`timegm` counts the days of the calendar**, and in the year 0 one more. -/
theorem timegm_eq (d : Date) (h : 0 ≤ d.year) (hour min sec : ℤ) :
    timegm ⟨d.year - 1900, d.month, d.day, hour, min, sec⟩
      = some (BitVec.ofInt 64
          (((d.dayNumber - epochDay + if d.year = 0 then 1 else 0) * 24 + hour) * 3600
            + min * 60 + sec)) := by
  have hle : ¬ (d.month : ℤ) > 11 := by
    have := d.month_lt
    omega
  have hday := d.day_pos
  have htable := daysum_eq d.year d.month_lt
  have hyear : d.year - 1900 + 1900 = d.year := by ring
  have hcount : countLeapYear 1970 = 477 := by decide
  simp only [timegm, if_neg hle, if_neg (Int.not_lt.mpr (Int.natCast_nonneg d.month)), hyear,
    Int.toNat_natCast, countLeapYear_eq h, isLeapYear_eq h, hcount]
  congr 3
  generalize (if d.year = 0 then (1 : ℤ) else 0) = ahead
  by_cases hfeb : 2 ≤ d.month ∧ isLeap d.year = true
  · rw [if_pos hfeb] at htable
    rw [if_pos ⟨by omega, hfeb.2⟩]
    simp only [Date.dayNumber, daysBeforeYear, epochDay]
    omega
  · rw [if_neg hfeb] at htable
    rw [if_neg fun hc => hfeb ⟨by omega, hc.2⟩]
    simp only [Date.dayNumber, daysBeforeYear, epochDay]
    omega

/-- **`timegm` undoes `gmtime_r`** behind the beginning of the calendar. -/
theorem timegm_gmtimeR {x : ℤ} (h : 1 ≤ (gmtimeR x).tmYear + 1900) :
    timegm (gmtimeR x) = some (BitVec.ofInt 64 x) := by
  have hyear : 1 ≤ (Date.ofDay (x / 86400 + epochDay)).year := by
    simp only [gmtimeR] at h
    omega
  rw [gmtimeR, timegm_eq _ (by omega), Date.dayNumber_ofDay, if_neg (by omega)]
  congr 2
  omega

/-- The last second of February in a leap year. -/
example : gmtimeR 951868799 = ⟨100, 1, 29, 23, 59, 59⟩
    ∧ timegm ⟨100, 1, 29, 23, 59, 59⟩ = some 951868799 := by decide +kernel

/-! ### Moments -/

/-- The years that fit into a DATETIME. -/
def StoredYear (y : ℤ) : Prop := 0 ≤ y ∧ y ≤ 9999

/-- The years that a DATETIME is made for. -/
def DatetimeYear (y : ℤ) : Prop := 1000 ≤ y ∧ y ≤ 9999

instance (y : ℤ) : Decidable (StoredYear y) := inferInstanceAs (Decidable (_ ∧ _))

instance (y : ℤ) : Decidable (DatetimeYear y) := inferInstanceAs (Decidable (_ ∧ _))

lemma DatetimeYear.stored {y : ℤ} (h : DatetimeYear y) : StoredYear y :=
  ⟨by have := h.1; omega, h.2⟩

/-- The year of a time in the zone of `CHINA_TZ`. -/
def localYear (t : ℤ) : ℤ := (gmtimeR (t + 28800)).tmYear + 1900

/-- A day with a time of day. -/
structure Moment where
  date : Date
  hour : ℕ
  minute : ℕ
  second : ℕ
  hour_lt : hour < 24
  minute_lt : minute < 60
  second_lt : second < 60

/-- What one side adds, the other takes away. -/
lemma ofInt_add_sub (w : ℕ) (v c : ℤ) :
    BitVec.ofInt w (v + c) - BitVec.ofInt w c = BitVec.ofInt w v := by
  rw [BitVec.ofInt_add]
  exact BitVec.add_sub_cancel _ _

lemma toInt_ofInt {v : ℤ} (hlow : -2 ^ 31 ≤ v) (hhigh : v < 2 ^ 31) :
    (BitVec.ofInt 32 v).toInt = v := by
  rw [BitVec.toInt_ofInt]
  exact Int.bmod_eq_of_le (by omega) (by omega)

lemma toNat_ofInt {v : ℤ} (hlow : 0 ≤ v) (hhigh : v < 2 ^ 32) :
    (BitVec.ofInt 32 v).toNat = v.toNat := by
  have hmod : v % ((2 ^ 32 : ℕ) : ℤ) = v := Int.emod_eq_of_lt hlow (by push_cast; exact hhigh)
  rw [BitVec.toNat_ofInt, hmod]

lemma day_le_31 (d : Date) : d.day ≤ 31 := by
  have hlen : ∀ leap : Bool, ∀ m < 12, (monthLengths leap).getD m 0 ≤ 31 := by decide
  exact d.day_le.trans (hlen _ _ d.month_lt)

namespace Moment

/-- The components of a moment. -/
def components (d : Moment) : MysqlTime where
  year := BitVec.ofInt 32 d.date.year
  month := BitVec.ofInt 32 (d.date.month + 1)
  day := BitVec.ofInt 32 d.date.day
  hour := BitVec.ofInt 32 d.hour
  minute := BitVec.ofInt 32 d.minute
  second := BitVec.ofInt 32 d.second

/-- The seconds since the beginning of 1970. -/
def instant (d : Moment) : ℤ :=
  ((d.date.dayNumber - epochDay) * 24 + d.hour) * 3600 + d.minute * 60 + d.second

/-- The moment of a time. -/
def ofInstant (x : ℤ) : Moment where
  date := Date.ofDay (x / 86400 + epochDay)
  hour := (x % 86400 / 3600).toNat
  minute := (x % 86400 % 3600 / 60).toNat
  second := (x % 86400 % 60).toNat
  hour_lt := by omega
  minute_lt := by omega
  second_lt := by omega

lemma instant_ofInstant (x : ℤ) : (ofInstant x).instant = x := by
  simp only [instant, ofInstant, Date.dayNumber_ofDay]
  omega

/-- The decomposition of the time of a moment. -/
lemma gmtimeR_instant (d : Moment) :
    gmtimeR d.instant
      = ⟨d.date.year - 1900, d.date.month, d.date.day, d.hour, d.minute, d.second⟩ := by
  have := d.hour_lt
  have := d.minute_lt
  have := d.second_lt
  have hday : d.instant / 86400 + epochDay = d.date.dayNumber := by
    simp only [instant]
    omega
  have hsecond : d.instant % 86400 = d.hour * 3600 + d.minute * 60 + d.second := by
    simp only [instant]
    omega
  rw [gmtimeR, hday, hsecond, Date.ofDay_dayNumber]
  congr 1
  · omega
  · omega
  · omega

lemma year_ofInstant (x : ℤ) : (ofInstant x).date.year = (gmtimeR x).tmYear + 1900 := by
  simp [ofInstant, gmtimeR]

section Stored

variable (d : Moment) (h : StoredYear d.date.year)

include h

/-- The times of the column are far from the limits of `time_t`. -/
lemma instant_bounds : -2 ^ 40 < d.instant ∧ d.instant < 2 ^ 40 := by
  obtain ⟨hlow, hhigh⟩ := h
  have hlt := d.date.lt_daysBeforeYear_succ
  have hyear : daysBeforeYear d.date.year ≤ d.date.dayNumber := by
    simp only [Date.dayNumber]
    omega
  have := d.hour_lt
  have := d.minute_lt
  have := d.second_lt
  rw [← daysBeforeYear_succ] at hlt
  simp only [daysBeforeYear] at hlt hyear
  simp only [instant, epochDay]
  omega

/-- The reader of the column fills in the decomposition. -/
lemma toTm_components : d.components.toTm = gmtimeR d.instant := by
  obtain ⟨hlow, hhigh⟩ := h
  have hmonth := d.date.month_lt
  have hday := day_le_31 d.date
  have := d.hour_lt
  have := d.minute_lt
  have := d.second_lt
  have hyear : BitVec.ofInt 32 d.date.year - 1900 = BitVec.ofInt 32 (d.date.year - 1900) := by
    have hshift := ofInt_add_sub 32 (d.date.year - 1900) 1900
    rwa [Int.sub_add_cancel] at hshift
  have hmon : BitVec.ofInt 32 (d.date.month + 1) - 1 = BitVec.ofInt 32 d.date.month :=
    ofInt_add_sub 32 d.date.month 1
  rw [gmtimeR_instant, MysqlTime.toTm]
  simp only [components, hyear, hmon]
  rw [toInt_ofInt (by omega) (by omega), toInt_ofInt (by omega) (by omega),
    toInt_ofInt (by omega) (by omega), toInt_ofInt (by omega) (by omega),
    toInt_ofInt (by omega) (by omega), toInt_ofInt (by omega) (by omega)]

/-- **A moment is read as its time**, eight hours back; a day behind it in the year 0. -/
theorem getTimestamp_components :
    d.components.getTimestamp
      = some (BitVec.ofInt 64 (d.instant - 28800 + if d.date.year = 0 then 86400 else 0)) := by
  have hseconds : ((d.date.dayNumber - epochDay + if d.date.year = 0 then 1 else 0) * 24 + d.hour)
        * 3600 + d.minute * 60 + d.second
      = d.instant - 28800 + (if d.date.year = 0 then 86400 else 0) + 28800 := by
    simp only [instant]
    split_ifs <;> ring
  rw [MysqlTime.getTimestamp, toTm_components d h, gmtimeR_instant, timegm_eq _ h.1, hseconds,
    Option.map_some]
  exact congrArg some (ofInt_add_sub 64 _ 28800)

/-- **A time is written as the moment it is.** -/
theorem setTimestamp_instant :
    MysqlTime.setTimestamp (BitVec.ofInt 64 (d.instant - 28800)) = d.components := by
  obtain ⟨hlow, hhigh⟩ := d.instant_bounds h
  have hx : (BitVec.ofInt 64 (d.instant - 28800) + chinaTz).toInt = d.instant := by
    have hsum : BitVec.ofInt 64 (d.instant - 28800) + chinaTz = BitVec.ofInt 64 d.instant := by
      have hadd := BitVec.ofInt_add (n := 64) (d.instant - 28800) 28800
      rw [Int.sub_add_cancel] at hadd
      exact hadd.symm
    rw [hsum, BitVec.toInt_ofInt]
    exact Int.bmod_eq_of_le (by omega) (by omega)
  have hfill : Tm.new.gmtimeR d.instant = gmtimeR d.instant := by
    obtain ⟨hyear, hyear'⟩ := h
    rw [Tm.gmtimeR, gmtimeR_instant, if_pos ⟨by dsimp only; omega, by dsimp only; omega⟩]
  rw [MysqlTime.setTimestamp, hx, hfill, gmtimeR_instant]
  simp only [components, Int.sub_add_cancel]

/-- The components stand for the time. -/
lemma instant_components : d.components.instant = some (d.instant - 28800) := by
  obtain ⟨hlow, hhigh⟩ := h
  have hmonth := d.date.month_lt
  have hday := day_le_31 d.date
  have hpos := d.date.day_pos
  have hhour := d.hour_lt
  have hminute := d.minute_lt
  have hsecond := d.second_lt
  have hyear : (BitVec.ofInt 32 d.date.year).toNat = d.date.year.toNat :=
    toNat_ofInt hlow (by omega)
  have hcast : ((d.date.year.toNat : ℕ) : ℤ) = d.date.year := Int.toNat_of_nonneg hlow
  have hmon : (BitVec.ofInt 32 (d.date.month + 1)).toNat = d.date.month + 1 := by
    rw [toNat_ofInt (by omega) (by omega)]
    omega
  have hnat : ∀ n : ℕ, n < 100 → (BitVec.ofInt 32 n).toNat = n := by
    intro n hn
    rw [toNat_ofInt (by omega) (by omega)]
    omega
  have hdayNat := hnat d.date.day (by omega)
  have hhourNat := hnat d.hour (by omega)
  have hminuteNat := hnat d.minute (by omega)
  have hsecondNat := hnat d.second (by omega)
  have hvalid : d.components.Valid := by
    simp only [MysqlTime.Valid, components, hyear, hmon, hcast, Nat.add_sub_cancel, hdayNat,
      hhourNat, hminuteNat, hsecondNat]
    exact ⟨by omega, by omega, by omega, hpos, d.date.day_le, hhour, hminute, hsecond⟩
  rw [MysqlTime.instant, if_pos hvalid]
  simp only [components, hyear, hmon, hcast, Nat.add_sub_cancel, hdayNat, hhourNat, hminuteNat,
    hsecondNat]
  rfl

end Stored

end Moment

/-! ### The round trips -/

/-- A time in a year of a DATETIME is written as its moment. -/
lemma setTimestamp_stored {t : BitVec 64} (h : StoredYear (localYear t.toInt)) :
    MysqlTime.setTimestamp t = (Moment.ofInstant (t.toInt + 28800)).components
      ∧ StoredYear (Moment.ofInstant (t.toInt + 28800)).date.year := by
  have hyear : StoredYear (Moment.ofInstant (t.toInt + 28800)).date.year := by
    rwa [Moment.year_ofInstant]
  have hset := Moment.setTimestamp_instant _ hyear
  rw [Moment.instant_ofInstant, Int.add_sub_cancel, BitVec.ofInt_toInt] at hset
  exact ⟨hset, hyear⟩

/-- **How a time comes back**: in the year 0 a day later. -/
theorem getTimestamp_setTimestamp_stored {t : BitVec 64} (h : StoredYear (localYear t.toInt)) :
    (MysqlTime.setTimestamp t).getTimestamp
      = some (BitVec.ofInt 64 (t.toInt + if localYear t.toInt = 0 then 86400 else 0)) := by
  obtain ⟨hset, hyear⟩ := setTimestamp_stored h
  rw [hset, Moment.getTimestamp_components _ hyear, Moment.instant_ofInstant,
    Moment.year_ofInstant, Int.add_sub_cancel]
  rfl

/-- It comes back as it was exactly behind the year 0. -/
lemma getTimestamp_setTimestamp_iff {t : BitVec 64} (h : StoredYear (localYear t.toInt)) :
    (MysqlTime.setTimestamp t).getTimestamp = some t ↔ localYear t.toInt ≠ 0 := by
  rw [getTimestamp_setTimestamp_stored h]
  by_cases hzero : localYear t.toInt = 0
  · rw [if_pos hzero]
    refine iff_of_false (fun hsome => ?_) (not_not.mpr hzero)
    -- a day is no multiple of the range of `time_t`
    have hint := congrArg BitVec.toInt (Option.some.inj hsome)
    rw [BitVec.toInt_ofInt, Int.bmod_def] at hint
    have hlow := BitVec.le_toInt t
    have hhigh := BitVec.toInt_lt (x := t)
    norm_num at hint hlow hhigh
    split_ifs at hint <;> omega
  · rw [if_neg hzero, add_zero, BitVec.ofInt_toInt]
    exact iff_of_true rfl hzero

/-- What is read from a DATETIME column and written back leaves the column as it
was. -/
theorem setTimestamp_getTimestamp (d : Moment) (h : DatetimeYear d.date.year) :
    ∃ t, d.components.getTimestamp = some t ∧ MysqlTime.setTimestamp t = d.components := by
  have hzero : d.date.year ≠ 0 := by
    obtain ⟨hlow, -⟩ := h
    omega
  refine ⟨_, d.getTimestamp_components h.stored, ?_⟩
  rw [if_neg hzero, add_zero]
  exact d.setTimestamp_instant h.stored

/-- A time is written as a value of the column that is read as the same time. -/
theorem getTimestamp_setTimestamp {t : BitVec 64}
    (h : DatetimeYear ((gmtimeR (t.toInt + 28800)).tmYear + 1900)) :
    (MysqlTime.setTimestamp t).getTimestamp = some t := by
  refine (getTimestamp_setTimestamp_iff h.stored).mpr fun hzero => ?_
  obtain ⟨hlow, -⟩ := h
  rw [localYear] at hzero
  omega

/-! ### The times that have components -/

/-- A date lies behind the beginning of its year. -/
lemma year_bound {x : ℤ} (h : -2 ^ 31 ≤ (gmtimeR x).tmYear) : -2 ^ 62 ≤ x := by
  have hnumber := Date.dayNumber_ofDay (x / 86400 + epochDay)
  have hyear : (Date.ofDay (x / 86400 + epochDay)).year = (gmtimeR x).tmYear + 1900 := by
    simp [gmtimeR]
  rw [Date.dayNumber, hyear] at hnumber
  simp only [daysBeforeYear, epochDay] at hnumber
  omega

/-- **For which times `setTimestamp` finds components**: those in the years of a DATETIME. -/
theorem instant_setTimestamp (t : BitVec 64) :
    (MysqlTime.setTimestamp t).instant
      = if StoredYear (localYear t.toInt) then some t.toInt else none := by
  by_cases h : StoredYear (localYear t.toInt)
  · obtain ⟨hset, hyear⟩ := setTimestamp_stored h
    rw [if_pos h, hset, Moment.instant_components _ hyear, Moment.instant_ofInstant,
      Int.add_sub_cancel]
  · rw [if_neg h, MysqlTime.instant]
    refine if_neg fun hvalid => h ?_
    obtain ⟨hyear, -, -, hday, -⟩ := hvalid
    simp only [MysqlTime.setTimestamp] at hyear hday
    rw [Tm.gmtimeR] at hyear hday
    by_cases hfits : -2 ^ 31 ≤ (gmtimeR (t + chinaTz).toInt).tmYear
        ∧ (gmtimeR (t + chinaTz).toInt).tmYear < 2 ^ 31
    · rw [if_pos hfits] at hyear
      -- the sum did not overflow, or the year would be far below
      have hsum : (t + chinaTz).toInt = t.toInt + 28800 := by
        have hbound := year_bound hfits.1
        have hlow := BitVec.le_toInt t
        have hhigh := BitVec.toInt_lt (x := t)
        have htz : chinaTz.toInt = 28800 := rfl
        rw [BitVec.toInt_add, htz, Int.bmod_def] at hbound ⊢
        norm_num at hbound hlow hhigh ⊢
        split_ifs at hbound ⊢ <;> omega
      rw [hsum] at hyear hfits
      rw [BitVec.toNat_ofInt] at hyear
      rw [localYear]
      constructor <;> omega
    · rw [if_neg hfits] at hday
      exact absurd hday (by decide)

end PbEntityDb
