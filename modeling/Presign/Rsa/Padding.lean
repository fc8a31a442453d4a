import Presign.Rsa.DigestInfo

/-!
# Signature padding

The block that an RSA signature of PKCS #1 version 1.5 is made of: a zero and
a one, at least eight octets 255, a zero, and the carried value.
-/

namespace Presign.Rsa

/-- The least number of octets in the padding. -/
def minPadding : Nat := 8

/-- The block of a given size that carries a value, if it fits. -/
def pad? (size : Nat) (value : Octets) : Option Octets :=
  if value.length + 3 + minPadding ≤ size then
    some (0 :: 1 :: List.replicate (size - 3 - value.length) 255 ++ 0 :: value)
  else none

/-- The value that a block carries. -/
def unpad : Octets → Except PaddingError Octets
  | 0 :: 1 :: bs =>
    match bs.dropWhile (· == 255) with
    | [] => .error .noSeparator
    | b :: value =>
      if b ≠ 0 then .error .unexpectedOctet
      else if (bs.takeWhile (· == 255)).length < minPadding then .error .short
      else .ok value
  | _ => .error .noHeader

end Presign.Rsa
