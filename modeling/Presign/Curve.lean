import Presign.Modular
import Presign.Oid.Known

/-!
# Elliptic curves

The curves P-256 and P-384, `y² = x³ - 3x + b` over a prime field.  A point is
the point at infinity or a pair of coordinates below the prime.  Points are
added by chords and tangents and multiplied by doubling.

The octets of a point begin with a form octet: both coordinates, or the first
one and which of the two roots the second one is.  The root is chosen by its
parity, or is the smaller one.
-/

namespace Presign

/-- A supported curve. -/
inductive Curve where
  | p256
  | p384
deriving DecidableEq, Repr

namespace Curve

/-! ## Parameters -/

/-- The prime of the field. -/
def prime : Curve → Nat
  | .p256 => 0xffffffff00000001000000000000000000000000ffffffffffffffffffffffff
  | .p384 => 0xfffffffffffffffffffffffffffffffffffffffffffffffffffffffffffffffeffffffff0000000000000000ffffffff

/-- The constant term of the equation. -/
def constant : Curve → Nat
  | .p256 => 0x5ac635d8aa3a93e7b3ebbd55769886bc651d06b0cc53b0f63bce3c3e27d2604b
  | .p384 => 0xb3312fa7e23ee7e4988e056be3f82d19181d9c6efe8141120314088f5013875ac656398d8a2ed19d2a85c8edd3ec2aef

/-- The number of points. -/
def order : Curve → Nat
  | .p256 => 0xffffffff00000000ffffffffffffffffbce6faada7179e84f3b9cac2fc632551
  | .p384 => 0xffffffffffffffffffffffffffffffffffffffffffffffffc7634d81f4372ddf581a0db248b0a77aecec196accc52973

/-- The number of octets of a coordinate. -/
def fieldSize : Curve → Nat
  | .p256 => 32
  | .p384 => 48

/-- The object identifier. -/
def oid : Curve → Oid
  | .p256 => Oid.p256
  | .p384 => Oid.p384

/-- The curve with an object identifier. -/
def ofOid? (o : Oid) : Option Curve := [p256, p384].find? fun c => c.oid == o

/-- The curve with a dotted object identifier. -/
def ofOidText? (s : String) : Option Curve := [p256, p384].find? fun c => c.oid.text == s

/-- The display name. -/
def text : Curve → String
  | .p256 => "NIST-P256"
  | .p384 => "NIST-P384"

/-! ## Points -/

/-- A point of a curve. -/
inductive Point where
  | infinity
  | affine (x y : Nat)
deriving DecidableEq, Repr

/-- The point that generates all points. -/
def generator : Curve → Point
  | .p256 => .affine
      0x6b17d1f2e12c4247f8bce6e563a440f277037d812deb33a0f4a13945d898c296
      0x4fe342e2fe1a7f9b8ee7eb4a7c0f9e162bce33576b315ececbb6406837bf51f5
  | .p384 => .affine
      0xaa87ca22be8b05378eb1c71ef320ad746e1d3b628ba79b9859f741e082542a385502f25dbf55296c3a545e3872760ab7
      0x3617de4a96262c6f5d9e98bf9292dc29f8f41dbd289a147ce9da3113b5f0b8c00a60b1ce1d7e819d7a431d7c90ea0e5f

/-- The right side of the equation at `x`. -/
def rightSide (c : Curve) (x : Nat) : Nat :=
  (x * x % c.prime * x + (c.prime - 3) * x + c.constant) % c.prime

/-- Whether a pair of coordinates is a point of the curve. -/
def contains (c : Curve) (x y : Nat) : Bool :=
  x < c.prime && y < c.prime && y * y % c.prime == c.rightSide x

/-- The inverse in the field, with zero for zero. -/
def invert (c : Curve) (a : Nat) : Nat := (Modular.inverse? a c.prime).getD 0

/-- The third point on the line with a slope through two points, mirrored. -/
def third (c : Curve) (slope x y x' : Nat) : Point :=
  let p := c.prime
  let z := (slope * slope + (p - x) + (p - x')) % p
  .affine z ((slope * ((x + (p - z)) % p) + (p - y)) % p)

/-- The sum of two points. -/
def add (c : Curve) : Point → Point → Point
  | .infinity, q => q
  | q, .infinity => q
  | .affine x y, .affine x' y' =>
    let p := c.prime
    if x = x' then
      if (y + y') % p = 0 then .infinity
      else c.third ((3 * x * x + (p - 3)) % p * c.invert (2 * y % p) % p) x y x'
    else c.third ((y' + (p - y)) % p * c.invert ((x' + (p - x)) % p) % p) x y x'

/-- A multiple of a point. -/
def multiply (c : Curve) (k : Nat) (q : Point) : Point :=
  if k = 0 then .infinity
  else
    let half := c.multiply (k / 2) q
    let double := c.add half half
    if k % 2 = 1 then c.add double q else double
termination_by k
decreasing_by omega

/-- The first coordinate, and zero for the point at infinity. -/
def Point.x : Point → Nat
  | .infinity => 0
  | .affine x _ => x

/-! ## Octets of points -/

/-- The two roots of the right side at `x`, if they exist.  Both primes leave
three when divided by four. -/
def roots? (c : Curve) (x : Nat) : Option (Nat × Nat) :=
  if c.prime ≤ x then none
  else
    let y := Modular.pow (c.rightSide x) ((c.prime + 1) / 4) c.prime
    if y * y % c.prime = c.rightSide x then some (y, (c.prime - y) % c.prime) else none

/-- Reads the octets of a pair of coordinates. -/
def readPoint? (c : Curve) : Octets → Option (Nat × Nat)
  | [] => none
  | form :: bs =>
    if form = 4 then
      let x := Octets.toNat (bs.take c.fieldSize)
      let y := Octets.toNat (bs.drop c.fieldSize)
      if bs.length = 2 * c.fieldSize ∧ c.contains x y then some (x, y) else none
    else if bs.length = c.fieldSize ∧ (form = 2 ∨ form = 3 ∨ form = 5) then do
      let x := Octets.toNat bs
      let (y, z) ← c.roots? x
      if form = 5 then return (x, min y z)
      else if y % 2 = form.toNat % 2 then return (x, y)
      else return (x, z)
    else none

/-- The octets of both coordinates. -/
def writePoint (c : Curve) (x y : Nat) : Octets :=
  4 :: Octets.ofNatWidth c.fieldSize x ++ Octets.ofNatWidth c.fieldSize y

/-- The octets of the first coordinate and the parity of the second. -/
def writeCompressed (c : Curve) (x y : Nat) : Octets :=
  UInt8.ofNat (2 + y % 2) :: Octets.ofNatWidth c.fieldSize x

end Curve

end Presign
