import Presign.Octets

/-!
# Faults of encoded elements

A fault says what is wrong with the octets of an element.  An error is a fault
together with the name of the element it was found in.  The strict header
check names its faults; what the reader behind it refuses carries no further
detail.
-/

namespace Presign.Der

/-- What is wrong with the octets of an element. -/
inductive Fault where
  /-- There are no octets. -/
  | empty
  /-- The tag number does not fit the first octet. -/
  | highTag
  /-- No octet follows the tag. -/
  | truncatedLength
  /-- The length is indefinite, has more than four octets, or is cut off. -/
  | badLength
  /-- The content is shorter than the length says. -/
  | truncatedContent (expected found : Nat)
  /-- Another tag was expected. -/
  | unexpectedTag (found expected : UInt8)
  /-- Only two tags write a time, and this is neither. -/
  | notTime (found : UInt8)
  /-- Octets follow the element. -/
  | trailing (count : Nat)
  /-- An integer without octets. -/
  | emptyInteger
  /-- The number of elements inside is not the expected one. -/
  | elementCount (expected : String) (found : Nat)
  /-- A part is not there. -/
  | missing (part : String)
  /-- An attribute without values. -/
  | noAttributeValue
  /-- The content is no text of a date and time. -/
  | malformedTime
deriving DecidableEq, Repr

/-- Two upper case hexadecimal digits. -/
def hexOctet (b : UInt8) : String :=
  String.ofList [(Octets.hexDigit (b.toNat / 16)).toUpper, (Octets.hexDigit (b.toNat % 16)).toUpper]

/-- The text of a fault. -/
def Fault.message : Fault → String
  | .empty => "empty input"
  | .highTag => "high tag numbers are not supported"
  | .truncatedLength => "truncated length"
  | .badLength => "unsupported or truncated length"
  | .truncatedContent expected found =>
    s!"content truncated (expected {expected} bytes, got {found})"
  | .unexpectedTag found expected =>
    "unexpected tag 0x" ++ hexOctet found ++ " (expected 0x" ++ hexOctet expected ++ ")"
  | .notTime found => "unexpected tag 0x" ++ hexOctet found
  | .trailing count => s!"{count} trailing bytes"
  | .emptyInteger => "empty integer"
  | .elementCount expected found => s!"expected {expected} elements, got {found}"
  | .missing part => "missing " ++ part
  | .noAttributeValue => "no attribute value"
  | .malformedTime => ""

/-- Why an element was refused. -/
inductive Error where
  /-- The element is structurally wrong. -/
  | invalid (element : String) (fault : Fault)
  /-- The header is right, but the content cannot be read. -/
  | unreadable (element : String)
deriving DecidableEq, Repr

/-- The text of an error. -/
def Error.message : Error → String
  | .invalid element fault => "(ASN1) invalid " ++ element ++ ": " ++ fault.message
  | .unreadable element => "(ASN1) couldn't deserialize " ++ element ++ ": "

end Presign.Der
