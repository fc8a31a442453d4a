/-!
# Numerals

Decimal numerals of bounded numbers.  A numeral has an optional plus sign and
one or more ASCII digits; leading zeros are allowed, and a value at or above
the bound is refused.
-/

namespace Presign.Text

/-- The value of an ASCII digit. -/
def digit? (c : Char) : Option Nat :=
  if '0' ≤ c ∧ c ≤ '9' then some (c.toNat - 48) else none

/-- The value of ASCII digits after a number already read. -/
def digits? (n : Nat) : List Char → Option Nat
  | [] => some n
  | c :: cs => (digit? c).bind fun d => digits? (10 * n + d) cs

/-- Reads one or more ASCII digits. -/
def natural? (cs : List Char) : Option Nat := if cs.isEmpty then none else digits? 0 cs

/-- Reads a numeral of a number below `bound`. -/
def numeral? (bound : Nat) (cs : List Char) : Option Nat :=
  let body := match cs with
    | '+' :: rest => rest
    | rest => rest
  (natural? body).filter (· < bound)

/-- The pieces of a text between the occurrences of a character. -/
def splitAt (sep : Char) : List Char → List (List Char)
  | [] => [[]]
  | c :: cs =>
    if c = sep then [] :: splitAt sep cs
    else match splitAt sep cs with
      | [] => [[c]]
      | piece :: pieces => (c :: piece) :: pieces

end Presign.Text
