import Presign.Time.Calendar

/-!
# Instants

An instant is a number of seconds since 1970-01-01T00:00:00Z and a number of
nanoseconds.  A leap second has no number of its own.  It counts as the second
half of the second before it, so the nanoseconds run up to two seconds.
Instants are ordered by seconds and then by nanoseconds, so a leap second lies
between its neighbours.

A clock reading is an instant as it is written: a date, and hours, minutes,
seconds and nanoseconds, with second 60 for a leap second.

Spans of time are numbers of nanoseconds.  They are added and subtracted within
the years from `minYear` to `maxYear`.  A span that leaves a leap second
backwards is counted from the second after it, and one that leaves it forwards
from the second before it, as if the leap second itself took no time.
-/

namespace Presign.Time

/-- The nanoseconds of a second. -/
def nanosPerSecond : Nat := 1000000000

/-- The span of a number of seconds. -/
def ofSeconds (count : Nat) : Nat := count * nanosPerSecond

/-- The seconds of a day. -/
def secondsPerDay : Nat := 86400

/-- An instant. -/
structure Instant where
  /-- The seconds since the start of 1970, leap seconds left out. -/
  seconds : Int
  /-- The nanoseconds since the start of the second. -/
  nanos : Nat
  /-- A second and a leap second after it are two seconds at most. -/
  bound : nanos < 2 * nanosPerSecond
deriving DecidableEq, Repr

namespace Instant

/-- Whether an instant lies in a leap second. -/
def isLeap (i : Instant) : Bool := nanosPerSecond ≤ i.nanos

/-- Whether an instant comes before another. -/
def before (i j : Instant) : Bool :=
  i.seconds < j.seconds || (i.seconds == j.seconds && i.nanos < j.nanos)

/-! ## Range -/

/-- The first year of the range. -/
def minYear : Int := -262143

/-- The last year of the range. -/
def maxYear : Int := 262142

/-- The first second of the range. -/
def minSecond : Int := (Date.mk minYear 1 1).dayNumber * secondsPerDay

/-- The first second after the range. -/
def endSecond : Int := (Date.mk (maxYear + 1) 1 1).dayNumber * secondsPerDay

/-- An instant, if it lies in the range. -/
def inRange? (i : Instant) : Option Instant :=
  if minSecond ≤ i.seconds ∧ i.seconds < endSecond then some i else none

/-- The nanoseconds of an instant without those of a leap second. -/
def fraction (i : Instant) : Nat := i.nanos % nanosPerSecond

/-- The instant at a number of nanoseconds since the start of 1970, leap seconds
left out. -/
def ofNanos (n : Int) : Instant where
  seconds := n / nanosPerSecond
  nanos := (n % nanosPerSecond).toNat
  bound := by
    unfold nanosPerSecond
    omega

/-- The instant a span later. -/
def plus (i : Instant) (span : Nat) : Instant :=
  if h : i.isLeap ∧ i.nanos + span < 2 * nanosPerSecond then ⟨i.seconds, i.nanos + span, h.2⟩
  else ofNanos (i.seconds * nanosPerSecond + i.fraction + span)

/-- The instant a span earlier. -/
def minus (i : Instant) (span : Nat) : Instant :=
  if nanosPerSecond + span ≤ i.nanos then
    ⟨i.seconds, i.nanos - span, Nat.lt_of_le_of_lt (Nat.sub_le ..) i.bound⟩
  else ofNanos (i.seconds * nanosPerSecond + i.nanos - span)

/-- The instant a span later, if it lies in the range. -/
def later? (i : Instant) (span : Nat) : Option Instant := (i.plus span).inRange?

/-- The instant a span earlier, if it lies in the range. -/
def earlier? (i : Instant) (span : Nat) : Option Instant := (i.minus span).inRange?

end Instant

/-! ## Clock readings -/

/-- A date and a time of day. -/
structure Reading where
  date : Date
  hour : Nat
  minute : Nat
  /-- The second, 60 in a leap second. -/
  second : Nat
  nanos : Nat
deriving DecidableEq, Repr

namespace Reading

/-- Whether there is such a reading. -/
def isValid (r : Reading) : Bool :=
  Instant.minYear ≤ r.date.year && r.date.year ≤ Instant.maxYear && r.date.isValid
    && r.hour < 24 && r.minute < 60 && r.second ≤ 60 && r.nanos < nanosPerSecond

/-- The second of the day, where second 60 counts as second 59. -/
def secondOfDay (r : Reading) : Nat := r.hour * 3600 + r.minute * 60 + min r.second 59

/-- The instant of a reading. -/
def instant? (r : Reading) : Option Instant :=
  let leap := if r.second = 60 then nanosPerSecond else 0
  if h : r.isValid ∧ r.nanos + leap < 2 * nanosPerSecond then
    some ⟨r.date.dayNumber * secondsPerDay + r.secondOfDay, r.nanos + leap, h.2⟩
  else none

/-- The reading at an instant. -/
def ofInstant (i : Instant) : Reading :=
  let ofDay := (i.seconds % secondsPerDay).toNat
  { date := Date.ofDayNumber (i.seconds / secondsPerDay)
    hour := ofDay / 3600
    minute := ofDay / 60 % 60
    second := ofDay % 60 + i.nanos / nanosPerSecond
    nanos := i.fraction }

end Reading

end Presign.Time
