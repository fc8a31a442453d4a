import Presign.Octets

/-!
# Base64

The standard alphabet with padding.  Reading is canonical: the length is a
multiple of four, the padding is complete, and the unused bits of the last
digit are zero.  So every sequence of octets has one written form.
-/

namespace Presign.Base64

/-- The octet that writes a number below 64. -/
def symbol (n : Nat) : UInt8 :=
  if n < 26 then UInt8.ofNat (65 + n)
  else if n < 52 then UInt8.ofNat (71 + n)
  else if n < 62 then UInt8.ofNat (n - 4)
  else if n = 62 then 0x2B
  else 0x2F

/-- The number that an octet of the alphabet writes. -/
def value? (b : UInt8) : Option Nat :=
  let n := b.toNat
  if 65 ≤ n ∧ n ≤ 90 then some (n - 65)
  else if 97 ≤ n ∧ n ≤ 122 then some (n - 71)
  else if 48 ≤ n ∧ n ≤ 57 then some (n + 4)
  else if n = 0x2B then some 62
  else if n = 0x2F then some 63
  else none

/-- The padding octet. -/
def pad : UInt8 := 0x3D

/-- Writes octets in groups of three. -/
def encode : Octets → Octets
  | [] => []
  | [a] =>
    let n := a.toNat * 16
    [symbol (n / 64), symbol (n % 64), pad, pad]
  | [a, b] =>
    let n := (a.toNat * 256 + b.toNat) * 4
    [symbol (n / 4096), symbol (n / 64 % 64), symbol (n % 64), pad]
  | a :: b :: c :: rest =>
    let n := (a.toNat * 256 + b.toNat) * 256 + c.toNat
    symbol (n / 262144) :: symbol (n / 4096 % 64) :: symbol (n / 64 % 64) :: symbol (n % 64)
      :: encode rest

/-- Reads groups of four.  Only the last group may be padded. -/
def decode? : Octets → Option Octets
  | [] => some []
  | [w, x, y, z] => do
    let a ← value? w
    let b ← value? x
    if y = pad then
      if z = pad ∧ b % 16 = 0 then return [UInt8.ofNat (a * 4 + b / 16)]
      else none
    else
      let c ← value? y
      if z = pad then
        if c % 4 = 0 then
          return [UInt8.ofNat (a * 4 + b / 16), UInt8.ofNat (b % 16 * 16 + c / 4)]
        else none
      else
        let d ← value? z
        return [UInt8.ofNat (a * 4 + b / 16), UInt8.ofNat (b % 16 * 16 + c / 4),
          UInt8.ofNat (c % 4 * 64 + d)]
  | w :: x :: y :: z :: rest => do
    let a ← value? w
    let b ← value? x
    let c ← value? y
    let d ← value? z
    let bs ← decode? rest
    return UInt8.ofNat (a * 4 + b / 16) :: UInt8.ofNat (b % 16 * 16 + c / 4)
      :: UInt8.ofNat (c % 4 * 64 + d) :: bs
  | _ => none

/-- The Base64 text of octets. -/
def text (bs : Octets) : String :=
  String.ofList ((encode bs).map fun b => Char.ofNat b.toNat)

end Presign.Base64
