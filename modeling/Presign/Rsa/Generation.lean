import Presign.Digest.Stream
import Presign.Rsa.Key

/-!
# RSA key generation

A key is made from a seed.  Numbers are drawn from the stream of the seed.  A
draw becomes a candidate for a factor by setting its two highest bits and its
lowest one, so that two candidates multiply to a modulus of the full size.

The two factors together have the asked number of bits.  Below 64 bits there
must be enough factors to choose from, and the modulus must come out above the
exponent, or there is no key.
-/

namespace Presign.Rsa

/-- The public exponent of generated keys. -/
def generatedExponent : Nat := 65537

/-- The candidate of a given number of bits, at least two, at a place of the
stream. -/
def candidate (seed : Octets) (bits place : Nat) : Nat :=
  let quarter := 1 <<< (bits - 2)
  let n := 3 * quarter + (Digest.stream seed place (bits / 8 + 1)).toNat % quarter
  if n % 2 = 0 then n + 1 else n

/-- Whether a number may be a factor: it is prime as far as tests tell, it is
not `other`, and one less than it shares no divisor with the exponent. -/
def isFactor (n other : Nat) : Bool :=
  Modular.isProbablePrime n && n != other && Nat.gcd generatedExponent (n - 1) == 1

/-- The first factor among `count` candidates from a place on, and the place
after it. -/
def factor? (seed : Octets) (bits other : Nat) : (count place : Nat) → Option (Nat × Nat)
  | 0, _ => none
  | count + 1, place =>
    let n := candidate seed bits place
    if isFactor n other then some (n, place + 1) else factor? seed bits other count (place + 1)

/-- Whether a factor of half the size leaves enough primes to choose from. -/
def hasEnoughPrimes (bits : Nat) : Bool := 6 ≤ bits / 2

/-- The key of a given number of bits from a seed. -/
def generate? (bits : Nat) (seed : Octets) : Option PrivateKey := do
  if !hasEnoughPrimes bits then none
  let tries := 200 * bits
  let (p, place) ← factor? seed (bits / 2) 0 tries 0
  let (q, _) ← factor? seed (bits - bits / 2) p tries place
  let d ← Modular.inverse? generatedExponent ((p - 1) * (q - 1))
  PrivateKey.of? (p * q) generatedExponent d p q

end Presign.Rsa
