import Mathlib.Data.Int.Init
import Presign.Proofs.Time.Calendar

/-!
# Counting days

`Date.IsDay` counts days the way a calendar is used: 1970-01-01 is day 0, and going to the next
date adds one.  Every date of the calendar is counted, and its number is the one that is computed
from its fields (`Date.isDay_iff`).  Conversely every day has its date (`Date.isDay_ofDayNumber`).

So a clock reading outside of leap seconds names the instant that lies as many seconds after the
start of 1970 as are counted up to it (`Reading.instant?_eq_some_iff_shows`), and every instant of
the years that are read has its reading, but for leap seconds out of place
(`Reading.instant?_ofInstant`).
-/

namespace Presign.Time

/-! ## Every day has a date -/

/-- The year that is found for a day holds it. -/
theorem yearOfDay_spec (day : Int) :
    daysBeforeYear (yearOfDay day) ≤ day ∧ day < daysBeforeYear (yearOfDay day + 1) := by
  -- the estimate is off by one year at most
  have hbefore : daysBeforeYear (day * 400 / 146097 - 1) ≤ day := by
    unfold daysBeforeYear
    omega
  have hafter : day < daysBeforeYear (day * 400 / 146097 + 1 + 1) := by
    unfold daysBeforeYear
    omega
  unfold yearOfDay
  dsimp only
  split
  next hlate => exact ⟨hbefore, by rwa [Int.sub_add_cancel]⟩
  next hlate =>
    split
    next hearly => exact ⟨hearly, hafter⟩
    next hearly => exact ⟨Int.not_lt.mp hlate, Int.not_le.mp hearly⟩

/-- A day of a year lies in one of its months. -/
theorem exists_month {lengths : List Nat} {day : Nat}
    (h : day < daysOfMonths lengths.length lengths) :
    ∃ count length inMonth, lengths[count]? = some length ∧ inMonth < length ∧
      daysOfMonths count lengths + inMonth = day := by
  induction lengths generalizing day with
  | nil => exact absurd h (Nat.not_lt_zero _)
  | cons length lengths ih =>
      rw [List.length_cons, daysOfMonths] at h
      by_cases hfirst : day < length
      · exact ⟨0, length, day, rfl, hfirst, Nat.zero_add _⟩
      · obtain ⟨count, length', inMonth, hlength, hday, hsum⟩ :=
          ih (show day - length < daysOfMonths lengths.length lengths by omega)
        refine ⟨count + 1, length', inMonth, hlength, hday, ?_⟩
        rw [daysOfMonths]
        omega

namespace Date

/-- Every day has a date. -/
theorem exists_dayNumber (n : Int) : ∃ d : Date, d.isValid = true ∧ d.dayNumber = n := by
  obtain ⟨hstart, hend⟩ := yearOfDay_spec (n + epochDay)
  generalize yearOfDay (n + epochDay) = year at hstart hend
  rw [daysBeforeYear_succ] at hend
  have hwithin : (n + epochDay - daysBeforeYear year).toNat
      < daysOfMonths (monthLengths (isLeapYear year)).length (monthLengths (isLeapYear year)) := by
    change _ < daysOfYear year
    omega
  obtain ⟨count, length, inMonth, hlength, hday, hsum⟩ := exists_month hwithin
  have hvalid : (Date.mk year (count + 1) (inMonth + 1)).isValid = true :=
    isValid_iff.mpr ⟨by simp, by simp, length, hlength, hday⟩
  refine ⟨_, hvalid, ?_⟩
  have hnumber := dayNumber_eq hvalid
  rw [dayOfYear, Nat.add_sub_cancel, Nat.add_sub_cancel] at hnumber
  dsimp only at hnumber
  omega

theorem isValid_ofDayNumber (n : Int) : (ofDayNumber n).isValid = true := by
  obtain ⟨d, hvalid, rfl⟩ := exists_dayNumber n
  rwa [ofDayNumber_dayNumber hvalid]

theorem dayNumber_ofDayNumber (n : Int) : (ofDayNumber n).dayNumber = n := by
  obtain ⟨d, hvalid, rfl⟩ := exists_dayNumber n
  rw [ofDayNumber_dayNumber hvalid]

/-! ## The next day -/

/-- The date after a date: the next day of the month, or the first day of the next month, or the
first day of the next year. -/
def next (d : Date) : Date :=
  if d.day < daysInMonth d.year d.month then ⟨d.year, d.month, d.day + 1⟩
  else if d.month < 12 then ⟨d.year, d.month + 1, 1⟩
  else ⟨d.year + 1, 1, 1⟩

theorem daysOfMonths_succ {count length : Nat} {lengths : List Nat}
    (h : lengths[count]? = some length) :
    daysOfMonths (count + 1) lengths = daysOfMonths count lengths + length := by
  induction count generalizing lengths with
  | zero =>
      cases lengths with
      | nil => cases h
      | cons first lengths =>
          cases h
          simp [daysOfMonths]
  | succ count ih =>
      cases lengths with
      | nil => cases h
      | cons first lengths =>
          have hrest := ih h
          rw [daysOfMonths, hrest, daysOfMonths, Nat.add_assoc]

/-- The date after a date of the calendar is one of the calendar, and its number is the next. -/
theorem next_spec {d : Date} (h : d.IsGregorian) :
    d.next.IsGregorian ∧ d.next.dayNumber = d.dayNumber + 1 := by
  obtain ⟨hmonth, hmonths, hday, hdays⟩ := h
  have hsum := daysOfMonths_succ (getElem?_monthLengths d.year hmonth hmonths)
  rw [Nat.sub_add_cancel hmonth] at hsum
  unfold next
  split
  next hlast =>
    refine ⟨⟨hmonth, hmonths, by simp, hlast⟩, ?_⟩
    simp only [dayNumber]
    omega
  next hlast =>
    have hlast : d.day = daysInMonth d.year d.month := by omega
    split
    next hwithin =>
      refine ⟨⟨by simp, hwithin, Nat.le_refl 1, daysInMonth_pos ..⟩, ?_⟩
      simp only [dayNumber, Nat.add_sub_cancel, hsum]
      omega
    next hwithin =>
      refine ⟨⟨Nat.le_refl 1, by simp, Nat.le_refl 1, daysInMonth_pos ..⟩, ?_⟩
      have hyear := daysBeforeYear_succ d.year
      have hdecember : d.month = 12 := by omega
      have hnone (lengths : List Nat) : daysOfMonths 0 lengths = 0 := by cases lengths <;> rfl
      rw [hdecember, ← daysOfYear] at hsum
      rw [hdecember] at hlast
      simp only [dayNumber, hdecember, hyear, hsum, Nat.sub_self, hnone]
      omega

/-! ## Counting -/

/-- A date is a number of days after 1970-01-01, or as many before it. -/
inductive IsDay : Date → Int → Prop
  | epoch : IsDay ⟨1970, 1, 1⟩ 0
  | next {d : Date} {n : Int} (h : IsDay d n) : IsDay d.next (n + 1)
  | previous {d : Date} {n : Int} (hdate : d.IsGregorian) (h : IsDay d.next (n + 1)) : IsDay d n

theorem next_ofDayNumber (n : Int) : (ofDayNumber n).next = ofDayNumber (n + 1) := by
  obtain ⟨hdate, hnumber⟩ := next_spec (isValid_iff_isGregorian.mp (isValid_ofDayNumber n))
  rw [← ofDayNumber_dayNumber (isValid_iff_isGregorian.mpr hdate), hnumber, dayNumber_ofDayNumber]

/-- Every day is counted up to its date. -/
theorem isDay_ofDayNumber (n : Int) : IsDay (ofDayNumber n) n := by
  induction n using Int.induction_on with
  | zero => exact .epoch
  | succ n ih => exact next_ofDayNumber n ▸ ih.next
  | pred n ih =>
      refine .previous (isValid_iff_isGregorian.mp (isValid_ofDayNumber _)) ?_
      rwa [next_ofDayNumber, Int.sub_add_cancel]

/-- The dates that are counted are those of the calendar, and they are counted by their numbers. -/
theorem isDay_iff {d : Date} {n : Int} : IsDay d n ↔ d.isValid = true ∧ d.dayNumber = n := by
  rw [isValid_iff_isGregorian]
  constructor
  · intro h
    induction h with
    | epoch => exact ⟨⟨by decide, by decide, by decide, by decide⟩, by decide⟩
    | next _ ih =>
        obtain ⟨hdate, rfl⟩ := ih
        exact next_spec hdate
    | previous hdate _ ih =>
        refine ⟨hdate, ?_⟩
        have hnumber := (next_spec hdate).2
        omega
  · rintro ⟨hdate, rfl⟩
    have hday := isDay_ofDayNumber d.dayNumber
    rwa [ofDayNumber_dayNumber (isValid_iff_isGregorian.mpr hdate)] at hday

end Date

/-! ## Clock readings and their instants -/

/-- An instant that is in no leap second, or in one at the end of a minute. -/
def Instant.IsPlaced (i : Instant) : Prop := i.isLeap = true → i.seconds % 60 = 59

instance (i : Instant) : Decidable i.IsPlaced := inferInstanceAs (Decidable (_ → _))

namespace Reading

/-- A reading outside of leap seconds shows an instant in universal time: the day is counted by the
calendar, and each day before it has 86400 seconds. -/
def Shows (r : Reading) (i : Instant) : Prop :=
  ∃ day, r.date.IsDay day ∧
    i.seconds = day * 86400 + (r.hour * 3600 + r.minute * 60 + r.second : Nat) ∧ i.nanos = r.nanos

/-- Outside of leap seconds, a reading names the instant that it shows. -/
theorem instant?_eq_some_iff_shows {r : Reading} {i : Instant} (h : r.second < 60) :
    r.instant? = some i ↔ r.isValid = true ∧ r.Shows i := by
  have hleap : r.leap = 0 := if_neg (by omega)
  rw [instant?_eq_some_iff, hleap, Nat.add_zero]
  refine and_congr_right fun hvalid => ?_
  have hdate := (isValid_iff.mp hvalid).2.2.1
  simp only [Shows, Date.isDay_iff, hdate, true_and, exists_eq_left', secondOfDay, secondsPerDay,
    Nat.min_eq_left (Nat.le_of_lt_succ h)]
  rfl

/-- Every instant of the years that are read has its reading, if a leap second comes after the last
second of a minute. -/
theorem instant?_ofInstant {i : Instant} (hmin : Instant.minYear ≤ (ofInstant i).date.year)
    (hmax : (ofInstant i).date.year ≤ Instant.maxYear) (hplaced : i.IsPlaced) :
    (ofInstant i).instant? = some i := by
  have hbound := i.bound
  have hleap : nanosPerSecond ≤ i.nanos → i.seconds % 60 = 59 :=
    fun hlarge => hplaced (decide_eq_true hlarge)
  have hdate : (ofInstant i).date = Date.ofDayNumber (i.seconds / secondsPerDay) := rfl
  refine instant?_eq_some_iff.mpr ⟨isValid_iff.mpr ⟨hmin, hmax, ?_, ?_⟩, ?_, ?_⟩
  · rw [hdate]
    exact Date.isValid_ofDayNumber _
  · simp only [ofInstant, Instant.fraction, nanosPerSecond, secondsPerDay] at hbound hleap ⊢
    omega
  · rw [hdate, Date.dayNumber_ofDayNumber]
    simp only [ofInstant, secondOfDay, nanosPerSecond, secondsPerDay] at hbound hleap ⊢
    omega
  · have hsecond : (ofInstant i).second
        = (i.seconds % secondsPerDay).toNat % 60 + i.nanos / nanosPerSecond := rfl
    change i.nanos = i.fraction + (ofInstant i).leap
    rw [leap, Instant.fraction]
    split
    next hsixty =>
      rw [hsecond] at hsixty
      simp only [nanosPerSecond, secondsPerDay] at hbound hleap hsixty ⊢
      omega
    next hsixty =>
      rw [hsecond] at hsixty
      simp only [nanosPerSecond, secondsPerDay] at hbound hleap hsixty ⊢
      omega

/-- So has every instant of the years that are written in four digits. -/
theorem instant?_ofInstant_of_year {i : Instant} (hfirst : 0 ≤ (ofInstant i).date.year)
    (hlast : (ofInstant i).date.year ≤ 9999) (hplaced : i.IsPlaced) :
    (ofInstant i).instant? = some i :=
  instant?_ofInstant (Int.le_trans (by decide) hfirst) (Int.le_trans hlast (by decide)) hplaced

end Reading

end Presign.Time
