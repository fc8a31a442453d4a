import Presign.Ecdsa.Nonce
import Presign.Ecdsa.Value

/-!
# ECDSA signatures

Signing and verifying over a digest.  Only as many octets of the digest count
as a coordinate has: a longer digest is cut at its end, and a shorter one gets
zeros in front, which leaves its number as it is.
-/

namespace Presign.Ecdsa

/-- A digest brought to the field size. -/
def fieldDigest (c : Curve) (digest : Octets) : Octets :=
  Octets.padLeft c.fieldSize (digest.take c.fieldSize)

/-- The signature over a digest, from a secret scalar.  There is none if the
nonce search fails or a component comes to zero. -/
def sign? (c : Curve) (scalar : Nat) (digest : Octets) : Option Value := do
  let z := fieldDigest c digest
  let n := c.order
  let k ← nonce? c scalar z
  let r := (c.multiply k c.generator).x % n
  let inv ← Modular.inverse? k n
  let s := inv * ((z.toNat + r * scalar) % n) % n
  if r = 0 ∨ s = 0 then none else return ⟨r, s⟩

/-- Whether a signature over a digest fits a public point.  A component that
is zero or not below the order fits none. -/
def verify (c : Curve) (point : Curve.Point) (digest : Octets) (v : Value) : Bool :=
  let n := c.order
  if v.r = 0 ∨ n ≤ v.r ∨ v.s = 0 ∨ n ≤ v.s then false
  else
    match Modular.inverse? v.s n with
    | none => false
    | some inv =>
      let z := (fieldDigest c digest).toNat
      let sum := c.add (c.multiply (z * inv % n) c.generator) (c.multiply (v.r * inv % n) point)
      sum.x % n == v.r

end Presign.Ecdsa
