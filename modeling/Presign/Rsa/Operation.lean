import Presign.Digest.Stream
import Presign.Rsa.Key

/-!
# The private operation of RSA

The operation raises a number to the private exponent, modulo each factor on
its own, and joins the two results.  If the factors have a common divisor, it
works modulo the modulus.

It does so on a blinded number.  The number is multiplied by a power of a
random factor, so that the result comes multiplied by the factor itself, which
is then divided out.  In the end the public operation checks the result.  So
what the operation gives always verifies.

For distinct prime factors blinding changes nothing.  For others the factor is
not divided out in general, and the check fails.
-/

namespace Presign.Rsa

/-! ## Blinding -/

/-- A number that blinds others, and its inverse. -/
structure Blinding (modulus : Nat) where
  factor : Nat
  inverse : Nat
  /-- The two numbers undo each other. -/
  inverts : factor * inverse % modulus = 1 % modulus

namespace Blinding

/-- The blinding that changes nothing. -/
def trivial (modulus : Nat) : Blinding modulus := ⟨1, 1, rfl⟩

/-- The blinding by a number, if that has an inverse. -/
def ofFactor? (modulus factor : Nat) : Option (Blinding modulus) := do
  let inverse ← Modular.inverse? factor modulus
  if h : factor * inverse % modulus = 1 % modulus then return ⟨factor, inverse, h⟩ else none

/-- The first blinding that the stream of a seed gives, in a given number of
draws from a place on.  If there is none, it is the trivial one. -/
def draw (modulus : Nat) (seed : Octets) : (draws place : Nat) → Blinding modulus
  | 0, _ => trivial modulus
  | draws + 1, place =>
    let n := (Digest.stream seed place (Octets.natSize modulus + 8)).toNat % modulus
    match ofFactor? modulus n with
    | some b => b
    | none => draw modulus seed draws (place + 1)

/-- The number of draws.  A draw fails if it shares a divisor with the modulus,
which is likely for a small modulus only. -/
def maxDraws : Nat := 64

end Blinding

namespace PrivateKey

/-! ## The operation -/

/-- The blinding of a number under a key. -/
def blinding (k : PrivateKey) (m : Nat) : Blinding k.modulus :=
  .draw k.modulus (Octets.ofNatWidth k.size k.secret ++ Octets.ofNatWidth k.size m)
    Blinding.maxDraws 0

/-- The power of a number modulo a factor of the modulus. -/
def powerModulo (k : PrivateKey) (factor m : Nat) : Nat :=
  Modular.pow m (k.secret % (factor - 1)) factor

/-- The power of a number by the private exponent. -/
def plainPower (k : PrivateKey) (m : Nat) : Nat :=
  (Modular.join? (k.powerModulo k.firstFactor m) k.firstFactor
    (k.powerModulo k.secondFactor m) k.secondFactor).getD (Modular.pow m k.secret k.modulus)

/-- The power of a number, taken under a blinding. -/
def blindPower (k : PrivateKey) (b : Blinding k.modulus) (m : Nat) : Nat :=
  k.plainPower (m * k.toPublic.power b.factor % k.modulus) * b.inverse % k.modulus

/-- The private operation on a number, checked with the public one. -/
def power? (k : PrivateKey) (m : Nat) : Option Nat :=
  let s := k.blindPower (k.blinding m) m
  if k.toPublic.power s = m then some s else none

end PrivateKey

end Presign.Rsa
