/-!
# Calendar

Dates of the Gregorian calendar, extended to all years, and the days that they
name.  Day 0 is 1970-01-01, and year 0 comes before year 1.

`dayNumber` counts the days before the year, before the month and before the
day.  `ofDayNumber` goes back: the mean length of a year gives an estimate of
the year that is off by one at most, and the months are counted off.
-/

namespace Presign.Time

/-! ## Years and months -/

/-- Whether a year has 366 days. -/
def isLeapYear (year : Int) : Bool :=
  year % 4 == 0 && (year % 100 != 0 || year % 400 == 0)

/-- The days from the start of year 0 to the start of a year. -/
def daysBeforeYear (year : Int) : Int :=
  365 * year + (year + 3) / 4 - (year + 99) / 100 + (year + 399) / 400

/-- The lengths of the months. -/
def monthLengths (leap : Bool) : List Nat :=
  [31, if leap then 29 else 28, 31, 30, 31, 30, 31, 31, 30, 31, 30, 31]

/-- The year that holds a day, which is counted from the start of year 0. -/
def yearOfDay (day : Int) : Int :=
  let estimate := day * 400 / 146097
  if day < daysBeforeYear estimate then estimate - 1
  else if daysBeforeYear (estimate + 1) ≤ day then estimate + 1
  else estimate

/-- The month that holds a day and the place of the day in it, both counted
from zero.  The lengths are those of the months from `month` on. -/
def monthOfDay (month : Nat) : (lengths : List Nat) → (day : Nat) → Nat × Nat
  | [], day => (month, day)
  | length :: lengths, day =>
    if day < length then (month, day) else monthOfDay (month + 1) lengths (day - length)

/-- The days of the first months, of which there are `count`. -/
def daysOfMonths : (count : Nat) → (lengths : List Nat) → Nat
  | count + 1, length :: lengths => length + daysOfMonths count lengths
  | _, _ => 0

/-! ## Dates -/

/-- A date.  Months and days are counted from one. -/
structure Date where
  year : Int
  month : Nat
  day : Nat
deriving DecidableEq, Repr

namespace Date

/-- Whether the calendar has a date. -/
def isValid (d : Date) : Bool :=
  1 ≤ d.month && 1 ≤ d.day
    && (monthLengths (isLeapYear d.year))[d.month - 1]?.any (d.day ≤ ·)

/-- The day number of 1970-01-01, counted from the start of year 0. -/
def epochDay : Int := 719528

/-- The day that a date names. -/
def dayNumber (d : Date) : Int :=
  daysBeforeYear d.year + daysOfMonths (d.month - 1) (monthLengths (isLeapYear d.year)) + d.day - 1
    - epochDay

/-- The date of a day. -/
def ofDayNumber (n : Int) : Date :=
  let day := n + epochDay
  let year := yearOfDay day
  let (month, inMonth) :=
    monthOfDay 0 (monthLengths (isLeapYear year)) (day - daysBeforeYear year).toNat
  ⟨year, month + 1, inMonth + 1⟩

end Date

end Presign.Time
