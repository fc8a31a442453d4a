import Presign.Text.Blank
import Presign.Text.Numeral
import Presign.Time.Instant

/-!
# Patterns of clock readings

A pattern is a list of pieces: fields of a reading, single characters, and a
fraction of a second.  `Pattern.read?` reads a text by a pattern, and nothing
may be left over.

Reading is tolerant.  Blanks may stand before every number, and a number may
have fewer digits than its field has.  A year may have a sign, and then any
number of digits.  A fraction may be missing, and has a point and one or more
digits else, of which nine count.
-/

namespace Presign.Time

/-! ## Numbers -/

/-- Whether a character is a digit. -/
def isDigit (c : Char) : Bool := (Text.digit? c).isSome

/-- Reads one to `width` digits at the front of a text. -/
def digitsUpTo? (width : Nat) (cs : List Char) : Option (Nat × List Char) :=
  let digits := (cs.take width).takeWhile isDigit
  (Text.natural? digits).map fun n => (n, cs.drop digits.length)

/-- The number of nanoseconds that digits after a decimal point write.  Only the
first nine count, and missing ones are zeros. -/
def nanosOfDigits (digits : List Char) : Nat :=
  (Text.digits? 0 ((digits ++ List.replicate 9 '0').take 9)).getD 0

/-- Reads an optional fraction at the front of a text, in nanoseconds. -/
def fraction? : List Char → Option (Nat × List Char)
  | '.' :: cs =>
    let digits := cs.takeWhile isDigit
    if digits.isEmpty then none else some (nanosOfDigits digits, cs.dropWhile isDigit)
  | cs => some (0, cs)

/-! ## Fields -/

/-- A field of a reading that is written as a number. -/
inductive Field where
  | year
  | month
  | day
  | hour
  | minute
  | second
deriving DecidableEq, Repr

namespace Field

/-- The number of digits that a field has at most without a sign. -/
def width : Field → Nat
  | .year => 4
  | _ => 2

/-- Sets a field. -/
def set (f : Field) (n : Nat) (r : Reading) : Reading :=
  match f with
  | .year => { r with date := { r.date with year := n } }
  | .month => { r with date := { r.date with month := n } }
  | .day => { r with date := { r.date with day := n } }
  | .hour => { r with hour := n }
  | .minute => { r with minute := n }
  | .second => { r with second := n }

/-- Reads a field at the front of a text. -/
def read? (f : Field) (r : Reading) (cs : List Char) : Option (Reading × List Char) :=
  match f, Text.trimStart cs with
  | .year, '-' :: rest =>
    (digitsUpTo? rest.length rest).map fun (n, rest) =>
      ({ r with date := { r.date with year := -n } }, rest)
  | .year, '+' :: rest => (digitsUpTo? rest.length rest).map fun (n, rest) => (f.set n r, rest)
  | _, rest => (digitsUpTo? f.width rest).map fun (n, rest) => (f.set n r, rest)

end Field

/-! ## Patterns -/

/-- A piece of a pattern. -/
inductive Piece where
  | field (f : Field)
  | literal (c : Char)
  | fraction
deriving DecidableEq, Repr

/-- A pattern. -/
abbrev Pattern := List Piece

namespace Pattern

/-- The reading before anything has been read. -/
def blank : Reading := ⟨⟨0, 0, 0⟩, 0, 0, 0, 0⟩

/-- Reads a text by a pattern and adds what it says to a reading. -/
def readInto? (r : Reading) : Pattern → List Char → Option Reading
  | [], cs => if cs.isEmpty then some r else none
  | .field f :: pieces, cs => do
    let (r, rest) ← f.read? r cs
    readInto? r pieces rest
  | .literal c :: pieces, cs =>
    match cs with
    | d :: rest => if d = c then readInto? r pieces rest else none
    | [] => none
  | .fraction :: pieces, cs => do
    let (nanos, rest) ← fraction? cs
    readInto? { r with nanos } pieces rest

/-- The instant in universal time that a text names. -/
def read? (p : Pattern) (cs : List Char) : Option Instant :=
  (readInto? blank p cs).bind Reading.instant?

end Pattern

end Presign.Time
