import Presign.Time.Pattern

/-!
# RFC 3339

The form of instants with fields of fixed width and an offset.  `read?` reads
an instant with any offset and any fraction.  `render` writes one in universal
time with three digits of fraction.  Further digits are cut off.

A leap second is written as second 60 and is read in any minute.
-/

namespace Presign.Time.Rfc3339

/-! ## Reading -/

/-- Reads a number of exactly `width` digits at the front of a text. -/
def fixed? (width : Nat) (cs : List Char) : Option (Nat × List Char) :=
  let digits := cs.take width
  if digits.length = width ∧ digits.all isDigit then
    (Text.natural? digits).map fun n => (n, cs.drop width)
  else none

/-- Takes one of some characters off the front of a text. -/
def oneOf? (allowed : List Char) : List Char → Option (List Char)
  | [] => none
  | c :: cs => if c ∈ allowed then some cs else none

/-- Reads a date at the front of a text. -/
def date? (cs : List Char) : Option (Date × List Char) := do
  let (year, cs) ← fixed? 4 cs
  let (month, cs) ← fixed? 2 (← oneOf? ['-'] cs)
  let (day, cs) ← fixed? 2 (← oneOf? ['-'] cs)
  return (⟨year, month, day⟩, cs)

/-- Reads a date and a time of day at the front of a text. -/
def reading? (cs : List Char) : Option (Reading × List Char) := do
  let (date, cs) ← date? cs
  let (hour, cs) ← fixed? 2 (← oneOf? ['T', 't', ' '] cs)
  let (minute, cs) ← fixed? 2 (← oneOf? [':'] cs)
  let (second, cs) ← fixed? 2 (← oneOf? [':'] cs)
  let (nanos, cs) ← fraction? cs
  return (⟨date, hour, minute, second, nanos⟩, cs)

/-- Reads hours and minutes that make up a text, as seconds. -/
def offsetSize? (cs : List Char) : Option Nat := do
  let (hours, cs) ← fixed? 2 cs
  let (minutes, cs) ← fixed? 2 (← oneOf? [':'] cs)
  if hours < 24 ∧ minutes < 60 ∧ cs.isEmpty then return hours * 3600 + minutes * 60 else none

/-- Reads an offset that makes up a text, in seconds. -/
def offset? : List Char → Option Int
  | ['Z'] => some 0
  | ['z'] => some 0
  | '+' :: cs => (offsetSize? cs).map fun n => (n : Int)
  | '-' :: cs => (offsetSize? cs).map fun n => -(n : Int)
  | '\u2212' :: cs => (offsetSize? cs).map fun n => -(n : Int)
  | _ => none

/-- The instant that a text names. -/
def read? (cs : List Char) : Option Instant := do
  let (reading, cs) ← reading? cs
  let offset ← offset? cs
  let i ← reading.instant?
  return { i with seconds := i.seconds - offset }

/-! ## Writing -/

/-- The last `width` decimal digits of a number. -/
def digits : (width : Nat) → Nat → List Char
  | 0, _ => []
  | width + 1, n => digits width (n / 10) ++ [Char.ofNat (48 + n % 10)]

/-- A year.  Outside of 0 to 9999 it has a sign and at least four digits. -/
def yearChars (year : Int) : List Char :=
  let n := year.natAbs
  let written := if n < 10000 then digits 4 n else (toString n).toList
  if 0 ≤ year ∧ year ≤ 9999 then written else (if year < 0 then '-' else '+') :: written

/-- The characters of a reading in universal time. -/
def readingChars (r : Reading) : List Char :=
  yearChars r.date.year ++ '-' :: digits 2 r.date.month ++ '-' :: digits 2 r.date.day
    ++ 'T' :: digits 2 r.hour ++ ':' :: digits 2 r.minute ++ ':' :: digits 2 r.second
    ++ '.' :: digits 3 (r.nanos / 1000000) ++ ['Z']

/-- The text of an instant. -/
def render (i : Instant) : String := String.ofList (readingChars (.ofInstant i))

end Presign.Time.Rfc3339
