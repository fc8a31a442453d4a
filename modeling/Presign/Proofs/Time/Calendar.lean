import Mathlib.Tactic.IntervalCases
import Presign.Time.Instant

/-!
# Dates and the days that they name

`Date.ofDayNumber` goes back from a day to its date.  It estimates the year and then corrects it by
one year at most (`yearOfDay_eq`), and it counts off the months (`monthOfDay_daysOfMonths`).  So a
date of the calendar is the date of the day that it names, and a clock reading is the reading at
its instant (`Reading.ofInstant_of_instant?`), in a leap second as well.

The dates of the calendar are those that the rules for months and leap years allow
(`Date.isValid_iff_isGregorian`).
-/

namespace Presign.Time

/-! ## Years -/

/-- The days of a year. -/
def daysOfYear (year : Int) : Nat := daysOfMonths 12 (monthLengths (isLeapYear year))

theorem daysOfYear_eq (year : Int) :
    daysOfYear year = if isLeapYear year = true then 366 else 365 := by
  unfold daysOfYear
  cases isLeapYear year <;> rfl

theorem isLeapYear_iff {year : Int} :
    isLeapYear year = true ↔ year % 4 = 0 ∧ (year % 100 ≠ 0 ∨ year % 400 = 0) := by
  simp [isLeapYear]

/-- A year lasts until the next one starts. -/
theorem daysBeforeYear_succ (year : Int) :
    daysBeforeYear (year + 1) = daysBeforeYear year + daysOfYear year := by
  rw [daysOfYear_eq]
  unfold daysBeforeYear
  split
  next hleap =>
    rw [isLeapYear_iff] at hleap
    omega
  next hleap =>
    rw [isLeapYear_iff] at hleap
    omega

/-- The mean length of a year leads to the year, or to one next to it. -/
theorem estimate_near {year day : Int} (hstart : daysBeforeYear year ≤ day)
    (hend : day < daysBeforeYear (year + 1)) :
    day * 400 / 146097 = year - 1 ∨ day * 400 / 146097 = year ∨ day * 400 / 146097 = year + 1 := by
  unfold daysBeforeYear at hstart hend
  omega

/-- The year that holds a day is found. -/
theorem yearOfDay_eq {year day : Int} (hstart : daysBeforeYear year ≤ day)
    (hend : day < daysBeforeYear (year + 1)) : yearOfDay day = year := by
  have hbefore := daysBeforeYear_succ (year - 1)
  rw [Int.sub_add_cancel] at hbefore
  unfold yearOfDay
  dsimp only
  obtain hyear | hyear | hyear := estimate_near hstart hend
  · rw [hyear, Int.sub_add_cancel, if_neg (by omega), if_pos hstart]
  · rw [hyear, if_neg (by omega), if_neg (by omega)]
  · rw [hyear, if_pos hend]
    omega

/-! ## Months -/

/-- The months are counted off up to the one that holds the day. -/
theorem monthOfDay_daysOfMonths {count day length : Nat} {lengths : List Nat}
    (hlength : lengths[count]? = some length) (hday : day < length) (month : Nat) :
    monthOfDay month lengths (daysOfMonths count lengths + day) = (month + count, day) := by
  induction count generalizing lengths month with
  | zero =>
      cases lengths with
      | nil => cases hlength
      | cons first lengths =>
          cases hlength
          simp [monthOfDay, daysOfMonths, hday]
  | succ count ih =>
      cases lengths with
      | nil => cases hlength
      | cons first lengths =>
          have hrest := ih hlength (month + 1)
          rw [daysOfMonths, monthOfDay, if_neg (by omega),
            show first + daysOfMonths count lengths + day - first
              = daysOfMonths count lengths + day by omega, hrest]
          congr 1
          omega

/-- A day of a month comes before the end of a later one. -/
theorem daysOfMonths_lt {count total day length : Nat} {lengths : List Nat}
    (hlength : lengths[count]? = some length) (hday : day < length) (htotal : count < total) :
    daysOfMonths count lengths + day < daysOfMonths total lengths := by
  induction count generalizing lengths total with
  | zero =>
      obtain ⟨total, rfl⟩ := Nat.exists_eq_add_of_lt htotal
      cases lengths with
      | nil => cases hlength
      | cons first lengths =>
          cases hlength
          rw [daysOfMonths, show daysOfMonths 0 (length :: lengths) = 0 from rfl]
          omega
  | succ count ih =>
      cases lengths with
      | nil => cases hlength
      | cons first lengths =>
          cases total with
          | zero => exact absurd htotal (Nat.not_lt_zero _)
          | succ total =>
              have hrest := ih hlength (Nat.lt_of_succ_lt_succ htotal)
              rw [daysOfMonths, daysOfMonths]
              omega

/-! ## Dates -/

namespace Date

theorem isValid_iff {d : Date} :
    d.isValid = true ↔ 1 ≤ d.month ∧ 1 ≤ d.day ∧
      ∃ length, (monthLengths (isLeapYear d.year))[d.month - 1]? = some length ∧
        d.day ≤ length := by
  rw [isValid, Bool.and_eq_true, Bool.and_eq_true, decide_eq_true_eq, decide_eq_true_eq, and_assoc,
    Option.any_eq_true]
  simp only [decide_eq_true_eq]

/-- The days of a month.  Every fourth year is a leap year, but of the full centuries only every
fourth. -/
def daysInMonth (year : Int) (month : Nat) : Nat :=
  if month = 2 then if 4 ∣ year ∧ (100 ∣ year → 400 ∣ year) then 29 else 28
  else if month = 4 ∨ month = 6 ∨ month = 9 ∨ month = 11 then 30
  else 31

/-- The rules of the Gregorian calendar allow a date. -/
structure IsGregorian (d : Date) : Prop where
  month_pos : 1 ≤ d.month
  month_le : d.month ≤ 12
  day_pos : 1 ≤ d.day
  day_le : d.day ≤ daysInMonth d.year d.month

theorem daysInMonth_le (year : Int) (month : Nat) : daysInMonth year month ≤ 31 := by
  unfold daysInMonth
  split <;> split <;> decide

theorem daysInMonth_pos (year : Int) (month : Nat) : 1 ≤ daysInMonth year month := by
  unfold daysInMonth
  split <;> split <;> decide

theorem getElem?_monthLengths (year : Int) {month : Nat} (hpos : 1 ≤ month) (hle : month ≤ 12) :
    (monthLengths (isLeapYear year))[month - 1]? = some (daysInMonth year month) := by
  have hleap : (4 ∣ year ∧ (100 ∣ year → 400 ∣ year)) ↔ isLeapYear year = true := by
    rw [isLeapYear_iff]
    omega
  unfold daysInMonth
  rw [if_congr hleap rfl rfl]
  cases isLeapYear year <;> interval_cases month <;> rfl

/-- The dates of the calendar are those that its rules allow. -/
theorem isValid_iff_isGregorian {d : Date} : d.isValid = true ↔ d.IsGregorian := by
  rw [isValid_iff]
  constructor
  · rintro ⟨hmonth, hday, length, hlength, hle⟩
    have hcount : d.month - 1 < 12 := (List.getElem?_eq_some_iff.mp hlength).1
    have hdays := getElem?_monthLengths d.year hmonth (by omega)
    rw [hlength, Option.some.injEq] at hdays
    exact ⟨hmonth, by omega, hday, hdays ▸ hle⟩
  · intro h
    exact ⟨h.month_pos, h.day_pos, _, getElem?_monthLengths d.year h.month_pos h.month_le, h.day_le⟩

/-- The place of a date in its year, counted from zero. -/
def dayOfYear (d : Date) : Nat :=
  daysOfMonths (d.month - 1) (monthLengths (isLeapYear d.year)) + (d.day - 1)

variable {d : Date} (h : d.isValid = true)
include h

theorem dayOfYear_lt : d.dayOfYear < daysOfYear d.year := by
  obtain ⟨-, hday, length, hlength, hle⟩ := isValid_iff.mp h
  exact daysOfMonths_lt hlength (by omega) (List.getElem?_eq_some_iff.mp hlength).1

theorem dayNumber_eq : d.dayNumber + epochDay = daysBeforeYear d.year + d.dayOfYear := by
  obtain ⟨-, hday, -⟩ := isValid_iff.mp h
  rw [dayNumber, dayOfYear]
  omega

/-- A date of the calendar is the date of the day that it names. -/
theorem ofDayNumber_dayNumber : ofDayNumber d.dayNumber = d := by
  obtain ⟨hmonth, hday, length, hlength, hle⟩ := isValid_iff.mp h
  have hlt := dayOfYear_lt h
  have hyear : yearOfDay (daysBeforeYear d.year + d.dayOfYear) = d.year := by
    refine yearOfDay_eq (by omega) ?_
    rw [daysBeforeYear_succ]
    omega
  have hcount := monthOfDay_daysOfMonths hlength (show d.day - 1 < length by omega) 0
  unfold ofDayNumber
  rw [dayNumber_eq h]
  dsimp only
  rw [hyear, show (daysBeforeYear d.year + d.dayOfYear - daysBeforeYear d.year).toNat
    = d.dayOfYear by omega, dayOfYear, hcount, Nat.zero_add, Nat.sub_add_cancel hmonth,
    Nat.sub_add_cancel hday]

end Date

/-! ## Clock readings -/

namespace Reading

theorem isValid_iff {r : Reading} :
    r.isValid = true ↔ Instant.minYear ≤ r.date.year ∧ r.date.year ≤ Instant.maxYear ∧
      r.date.isValid = true ∧ r.hour < 24 ∧ r.minute < 60 ∧ r.second ≤ 60 ∧
        r.nanos < nanosPerSecond := by
  simp only [isValid, Bool.and_eq_true, decide_eq_true_eq, and_assoc]

/-- The nanoseconds that a reading adds for second 60. -/
def leap (r : Reading) : Nat := if r.second = 60 then nanosPerSecond else 0

theorem nanos_add_leap_lt {r : Reading} (h : r.isValid = true) :
    r.nanos + r.leap < 2 * nanosPerSecond := by
  obtain ⟨-, -, -, -, -, -, hnanos⟩ := isValid_iff.mp h
  unfold leap
  split <;> omega

theorem instant?_eq_some_iff {r : Reading} {i : Instant} :
    r.instant? = some i ↔ r.isValid = true ∧
      i.seconds = r.date.dayNumber * secondsPerDay + r.secondOfDay ∧ i.nanos = r.nanos + r.leap := by
  change (if _ : _ ∧ r.nanos + r.leap < _ then _ else _) = _ ↔ _
  constructor
  · intro h
    by_cases hvalid : r.isValid = true ∧ r.nanos + r.leap < 2 * nanosPerSecond
    · cases (dif_pos hvalid).symm.trans h
      exact ⟨hvalid.1, rfl, rfl⟩
    · cases (dif_neg hvalid).symm.trans h
  · rintro ⟨hvalid, hseconds, hnanos⟩
    obtain ⟨seconds, nanos, bound⟩ := i
    cases hseconds
    cases hnanos
    exact dif_pos ⟨hvalid, nanos_add_leap_lt hvalid⟩

theorem exists_instant? {r : Reading} (h : r.isValid = true) : ∃ i, r.instant? = some i :=
  ⟨⟨_, _, nanos_add_leap_lt h⟩, instant?_eq_some_iff.mpr ⟨h, rfl, rfl⟩⟩

/-- A clock reading is the reading at its instant. -/
theorem ofInstant_of_instant? {r : Reading} {i : Instant} (h : r.instant? = some i) :
    ofInstant i = r := by
  obtain ⟨hvalid, hseconds, hnanos⟩ := instant?_eq_some_iff.mp h
  obtain ⟨-, -, hdate, hhour, hminute, hsecond, hfraction⟩ := isValid_iff.mp hvalid
  have hofDay : r.secondOfDay < secondsPerDay := by
    simp only [secondOfDay, secondsPerDay]
    omega
  have hday : i.seconds / secondsPerDay = r.date.dayNumber ∧
      (i.seconds % secondsPerDay).toNat = r.secondOfDay := by
    rw [hseconds]
    unfold secondsPerDay at hofDay ⊢
    omega
  unfold ofInstant
  rw [hday.1, hday.2, Date.ofDayNumber_dayNumber hdate, Instant.fraction, hnanos]
  obtain ⟨date, hour, minute, second, nanos⟩ := r
  simp only [secondOfDay, leap, nanosPerSecond, Reading.mk.injEq, true_and] at *
  by_cases hleap : second = 60
  · rw [if_pos hleap]
    omega
  · rw [if_neg hleap]
    omega

end Reading

end Presign.Time
