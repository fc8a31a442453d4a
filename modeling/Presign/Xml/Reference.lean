import Presign.Octets
import Presign.Text.Numeral

/-!
# References

Character data and attribute values may hold references to characters: the
five named ones, and numbers in decimal or hexadecimal digits.  `expand?`
replaces them.  An ampersand that begins no reference makes the text ill
formed, while a semicolon may stand alone.

A number has at most seven decimal or six hexadecimal digits and is a
character other than NUL.  The other control characters are allowed.
-/

namespace Presign.Xml

/-- The character with a number, other than NUL. -/
def charOfNumber? (n : Nat) : Option Char :=
  if n ≠ 0 ∧ n.isValidChar then some (Char.ofNat n) else none

/-- The number that hexadecimal digits write after a number already read. -/
def hexNumber? (n : Nat) : List Char → Option Nat
  | [] => some n
  | c :: cs => (Octets.hexValue? c).bind fun d => hexNumber? (16 * n + d) cs

/-- The character that a reference stands for, given what stands between the
ampersand and the semicolon. -/
def reference? : List Char → Option Char
  | '#' :: 'x' :: digits =>
    if digits.length ≤ 6 then (hexNumber? 0 digits).bind charOfNumber? else none
  | '#' :: digits =>
    if digits.length ≤ 7 then (Text.digits? 0 digits).bind charOfNumber? else none
  | name =>
    if name = ['l', 't'] then some '<'
    else if name = ['g', 't'] then some '>'
    else if name = ['a', 'm', 'p'] then some '&'
    else if name = ['a', 'p', 'o', 's'] then some '\x27'
    else if name = ['q', 'u', 'o', 't'] then some '\x22'
    else none

/-- Whether a character belongs to what stands between the ampersand and the
semicolon. -/
def isReferenceChar (c : Char) : Bool := c ≠ '&' && c ≠ ';'

/-- A text with its references replaced. -/
def expand? : List Char → Option (List Char)
  | [] => some []
  | c :: cs =>
    if c = '&' then
      match _rest : cs.dropWhile isReferenceChar with
      | ';' :: rest => do
        let value ← reference? (cs.takeWhile isReferenceChar)
        return value :: (← expand? rest)
      | _ => none
    else (expand? cs).map (c :: ·)
termination_by cs => cs.length
decreasing_by
  · have := (List.dropWhile_sublist isReferenceChar (l := cs)).length_le
    rw [_rest] at this
    simp only [List.length_cons] at this ⊢
    omega
  · simp

end Presign.Xml
