import Presign.Der.Element
import Presign.Text.Utf8
import Presign.Time.Pattern

/-!
# Signing times

The time of signing is written in one of two forms.  The short form has two
digits for the year, which name a year from 1950 to 2049.  The long form has
all digits of the year and may have a fraction.  Both are in universal time,
and both are read with the tolerance of patterns.
-/

namespace Presign.Cms.SigningTime

/-- What the reader calls the element it reads. -/
def elementName : String := "signing time"

/-- The fields of both forms, with what stands between the seconds and the
final letter. -/
def pattern (behindSeconds : Time.Pattern) : Time.Pattern :=
  [.field .year, .field .month, .field .day, .field .hour, .field .minute, .field .second]
    ++ behindSeconds ++ [.literal 'Z']

/-- The first two digits of the year that two last digits name. -/
def century (tens : Nat) : List Char := if 5 ≤ tens then ['1', '9'] else ['2', '0']

/-- Reads the short form. -/
def readShort (cs : List Char) : Except Der.Fault Time.Instant :=
  match (cs.take 2).mapM Text.digit? with
  | some [tens, _] =>
    match (pattern []).read? (century tens ++ cs) with
    | some i => .ok i
    | none => .error .malformedTime
  | _ => .error (.missing "UTCTime year")

/-- Reads the long form. -/
def readLong (cs : List Char) : Except Der.Fault Time.Instant :=
  match (pattern [.fraction]).read? cs with
  | some i => .ok i
  | none => .error .malformedTime

/-- Reads the form that a tag announces. -/
def readContent (tag : UInt8) (content : Octets) : Except Der.Fault Time.Instant :=
  match Text.decode? content with
  | none => .error .malformedTime
  | some text =>
    if tag = Der.Tag.utcTime then readShort text.toList
    else if tag = Der.Tag.generalizedTime then readLong text.toList
    else .error (.notTime tag)

/-- Reads an encoding. -/
def ofDer (bs : Octets) : Except Der.Error Time.Instant := do
  let s ← Der.split elementName bs
  if s.rest ≠ [] then .error (.invalid elementName (.trailing s.rest.length))
  else (readContent s.tag s.content).mapError (.invalid elementName)

end Presign.Cms.SigningTime
