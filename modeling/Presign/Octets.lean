/-!
# Octets

Everything that is hashed, encoded or signed here is a finite sequence of
octets.  A sequence is a list, so that readers recurse on it and laws are
proved by induction.

A sequence is also a number written in base 256, most significant octet first.
`toNat` reads it.  `ofNat` writes a number without leading zero octets, and
`ofNatWidth` writes its last `width` octets.
-/

namespace Presign

/-- A finite sequence of octets. -/
abbrev Octets := List UInt8

namespace Octets

/-! ## Numbers -/

/-- The number a sequence writes in base 256, most significant octet first. -/
def toNat (bs : Octets) : Nat := bs.foldl (fun n b => n * 256 + b.toNat) 0

/-- The octets of a number without leading zeros.  Zero has none. -/
def ofNat (n : Nat) : Octets :=
  if n = 0 then [] else ofNat (n / 256) ++ [UInt8.ofNat (n % 256)]
termination_by n
decreasing_by omega

/-- The last `width` octets of a number. -/
def ofNatWidth : (width : Nat) → Nat → Octets
  | 0, _ => []
  | width + 1, n => ofNatWidth width (n / 256) ++ [UInt8.ofNat (n % 256)]

/-- The number of octets that hold a number.  Zero needs none. -/
def natSize (n : Nat) : Nat := (ofNat n).length

/-- A sequence without its leading zero octets. -/
def significant (bs : Octets) : Octets := bs.dropWhile (· == 0)

/-- A sequence with zero octets in front of it, up to `width` octets. -/
def padLeft (width : Nat) (bs : Octets) : Octets :=
  List.replicate (width - bs.length) 0 ++ bs

theorem length_ofNatWidth (width n : Nat) : (ofNatWidth width n).length = width := by
  induction width generalizing n with
  | zero => rfl
  | succ width ih => simp [ofNatWidth, ih]

/-! ## Order and classes -/

/-- Octet sequences in dictionary order: the first difference decides, and a
sequence comes before what extends it. -/
def le : Octets → Octets → Bool
  | [], _ => true
  | _ :: _, [] => false
  | a :: as, b :: bs => if a = b then le as bs else a < b

/-- The white space of ASCII: space, tab, line feed, form feed and carriage
return. -/
def isBlank (b : UInt8) : Bool := b == 0x20 || b == 0x09 || b == 0x0A || b == 0x0C || b == 0x0D

/-! ## Hexadecimal -/

/-- The lower case hexadecimal digit of a number below sixteen. -/
def hexDigit (n : Nat) : Char := if n < 10 then Char.ofNat (48 + n) else Char.ofNat (87 + n)

/-- The value of a hexadecimal digit of either case. -/
def hexValue? (c : Char) : Option Nat :=
  if '0' ≤ c ∧ c ≤ '9' then some (c.toNat - 48)
  else if 'a' ≤ c ∧ c ≤ 'f' then some (c.toNat - 87)
  else if 'A' ≤ c ∧ c ≤ 'F' then some (c.toNat - 55)
  else none

/-- The two lower case hexadecimal digits of every octet. -/
def hex (bs : Octets) : String :=
  String.ofList (bs.flatMap fun b => [hexDigit (b.toNat / 16), hexDigit (b.toNat % 16)])

/-- Reads pairs of hexadecimal digits. -/
def ofHexDigits? : List Char → Option Octets
  | [] => some []
  | [_] => none
  | high :: low :: cs => do
    let h ← hexValue? high
    let l ← hexValue? low
    let bs ← ofHexDigits? cs
    return UInt8.ofNat (16 * h + l) :: bs

/-- Reads a text of hexadecimal digits, two for every octet. -/
def ofHex? (s : String) : Option Octets := ofHexDigits? s.toList

end Octets

end Presign
