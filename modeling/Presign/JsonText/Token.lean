import Presign.JsonText.Value
import Presign.Octets
import Presign.Text.Numeral

/-!
# Tokens of JSON

A text falls into brackets, separators and simple values, with blanks between
them.  A string is read as a sequence of units: characters, and UTF-16 code
units where escapes name them.  It has a text if the code units form pairs.
-/

namespace Presign.JsonText

/-- A token. -/
inductive Token where
  | beginArray
  | endArray
  | beginObject
  | endObject
  | comma
  | colon
  /-- A value that is neither an array nor an object. -/
  | simple (v : Value)

namespace Token

/-- The white space of JSON. -/
def isBlank (c : Char) : Bool := c == ' ' || c == '\t' || c == '\n' || c == '\r'

/-- Whether a character is a digit. -/
def isDigit (c : Char) : Bool := '0' ≤ c && c ≤ '9'

/-! ## Strings -/

/-- A unit of a string. -/
inductive StringUnit where
  | char (c : Char)
  /-- A UTF-16 code unit. -/
  | code (n : Nat)

/-- The character that an escape with one letter names. -/
def escape? (c : Char) : Option Char :=
  if c = '\x22' ∨ c = '\\' ∨ c = '/' then some c
  else if c = 'b' then some '\x08'
  else if c = 'f' then some '\x0C'
  else if c = 'n' then some '\n'
  else if c = 'r' then some '\r'
  else if c = 't' then some '\t'
  else none

/-- The code unit that four hexadecimal digits write. -/
def codeUnit? (a b c d : Char) : Option Nat := do
  return (((← Octets.hexValue? a) * 16 + (← Octets.hexValue? b)) * 16 + (← Octets.hexValue? c))
    * 16 + (← Octets.hexValue? d)

/-- The units of a string behind its opening quote, and what follows it. -/
def units? : List Char → Option (List StringUnit × List Char)
  | [] => none
  | '\\' :: 'u' :: a :: b :: c :: d :: cs => do
    let n ← codeUnit? a b c d
    let (units, rest) ← units? cs
    return (.code n :: units, rest)
  | '\\' :: c :: cs => do
    let e ← escape? c
    let (units, rest) ← units? cs
    return (.char e :: units, rest)
  | c :: cs =>
    if c = '\x22' then some ([], cs)
    else if c = '\\' ∨ c.toNat < 32 then none
    else (units? cs).map fun (units, rest) => (.char c :: units, rest)

/-- Whether a code unit is the first half of a pair. -/
def isHigh (n : Nat) : Bool := 0xD800 ≤ n && n < 0xDC00

/-- Whether a code unit is the second half of a pair. -/
def isLow (n : Nat) : Bool := 0xDC00 ≤ n && n < 0xE000

/-- The characters that units write. -/
def charsOf? : List StringUnit → Option (List Char)
  | [] => some []
  | .char c :: units => (charsOf? units).map (c :: ·)
  | .code n :: .code m :: units =>
    if isHigh n ∧ isLow m then
      (charsOf? units).map (Char.ofNat (0x10000 + (n - 0xD800) * 1024 + (m - 0xDC00)) :: ·)
    else if isHigh n ∨ isLow n then none
    else (charsOf? (.code m :: units)).map (Char.ofNat n :: ·)
  | .code n :: units =>
    if isHigh n ∨ isLow n then none else (charsOf? units).map (Char.ofNat n :: ·)

/-- The value of a string. -/
def ofUnits (units : List StringUnit) : Value := .string ((charsOf? units).map String.ofList)

/-! ## Numbers -/

/-- Whether a text begins with a digit. -/
def startsWithDigit (cs : List Char) : Bool := cs.head?.any isDigit

/-- What follows an optional fraction. -/
def skipFraction? : List Char → Option (List Char)
  | '.' :: cs => if startsWithDigit cs then some (cs.dropWhile isDigit) else none
  | cs => some cs

/-- A text without a sign in front. -/
def skipSign : List Char → List Char
  | '+' :: cs => cs
  | '-' :: cs => cs
  | cs => cs

/-- What follows an optional exponent. -/
def skipExponent? : List Char → Option (List Char)
  | [] => some []
  | c :: cs =>
    if c = 'e' ∨ c = 'E' then
      let cs := skipSign cs
      if startsWithDigit cs then some (cs.dropWhile isDigit) else none
    else some (c :: cs)

/-- The integer digits at the front of a text, and what follows.  Nothing
follows a leading zero. -/
def integerDigits? : List Char → Option (List Char × List Char)
  | '0' :: cs => some (['0'], cs)
  | cs => if startsWithDigit cs then some (cs.takeWhile isDigit, cs.dropWhile isDigit) else none

/-- The value of a number without a sign, given what follows its integer digits
and what follows all of it. -/
def wholeValue (digits afterDigits rest : List Char) : Value :=
  match Text.natural? digits with
  | some n => if afterDigits = rest ∧ n < UInt64.size then .whole n else .number
  | none => .number

/-- The number at the front of a text without a sign, and what follows. -/
def unsigned? (cs : List Char) : Option (Value × List Char) := do
  let (digits, afterDigits) ← integerDigits? cs
  let rest ← skipExponent? (← skipFraction? afterDigits)
  return (wholeValue digits afterDigits rest, rest)

/-! ## All tokens -/

/-- The simple value at the front of a text, and what follows. -/
def simple? : List Char → Option (Value × List Char)
  | 'n' :: 'u' :: 'l' :: 'l' :: cs => some (.null, cs)
  | 't' :: 'r' :: 'u' :: 'e' :: cs => some (.bool true, cs)
  | 'f' :: 'a' :: 'l' :: 's' :: 'e' :: cs => some (.bool false, cs)
  | '\x22' :: cs => (units? cs).map fun (units, rest) => (ofUnits units, rest)
  | '-' :: cs => (unsigned? cs).map fun (_, rest) => (.number, rest)
  | cs => unsigned? cs

/-- The token at the front of a text, and what follows. -/
def next? : List Char → Option (Token × List Char)
  | '[' :: cs => some (.beginArray, cs)
  | ']' :: cs => some (.endArray, cs)
  | '\x7b' :: cs => some (.beginObject, cs)
  | '\x7d' :: cs => some (.endObject, cs)
  | ',' :: cs => some (.comma, cs)
  | ':' :: cs => some (.colon, cs)
  | cs => (simple? cs).map fun (v, rest) => (.simple v, rest)

/-- All tokens of a text. -/
def scan? (cs : List Char) : Option (List Token) :=
  match cs with
  | [] => some []
  | c :: more =>
    if isBlank c then scan? more
    else
      match next? (c :: more) with
      | none => none
      | some (token, rest) =>
        if _shorter : rest.length ≤ more.length then (scan? rest).map (token :: ·) else none
termination_by cs.length

end Token

end Presign.JsonText
