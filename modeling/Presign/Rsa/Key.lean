import Presign.Der.Strict
import Presign.Modular

/-!
# RSA keys

A public key is a modulus and an exponent.  A private key also has the private
exponent and two factors of the modulus.  Both are only formed from numbers
that pass a check: the modulus and the exponent are odd, the exponent has at
most 33 bits and lies below the modulus, the factors multiply to the modulus,
and the private exponent undoes the public one modulo each factor less one.
The factors are not tested for being prime.
-/

namespace Presign.Rsa

/-! ## Keys -/

/-- Whether a modulus and an exponent make a public key. -/
def isPublic (n e : Nat) : Bool :=
  n % 2 == 1 && e % 2 == 1 && 2 ≤ e && e.log2 < 33 && e < n

/-- Whether the numbers make a private key. -/
def isPrivate (n e d p q : Nat) : Bool :=
  isPublic n e && 1 < p && 1 < q && p * q == n
    && d * e % (p - 1) == 1 && d * e % (q - 1) == 1

/-- A public key. -/
structure PublicKey where
  modulus : Nat
  exponent : Nat
  /-- The numbers make a public key. -/
  valid : isPublic modulus exponent = true
deriving DecidableEq

/-- A private key. -/
structure PrivateKey where
  modulus : Nat
  exponent : Nat
  secret : Nat
  firstFactor : Nat
  secondFactor : Nat
  /-- The numbers make a private key. -/
  valid : isPrivate modulus exponent secret firstFactor secondFactor = true
deriving DecidableEq

namespace PublicKey

/-- The public key that two numbers make. -/
def of? (n e : Nat) : Option PublicKey := if h : isPublic n e then some ⟨n, e, h⟩ else none

/-- The number of octets of the modulus. -/
def size (k : PublicKey) : Nat := Octets.natSize k.modulus

/-- The public operation on a number. -/
def power (k : PublicKey) (m : Nat) : Nat := Modular.pow m k.exponent k.modulus

/-- The number of bits that a modulus read from a file may have. -/
def maxBits : Nat := 4096

/-- Reads a sequence of the modulus and the exponent. -/
def ofDer? (bs : Octets) : Option PublicKey := do
  let inner ← Der.Strict.only? Der.Tag.sequence bs
  match ← Der.Strict.unsignedList? 2 inner with
  | ([n, e], []) => if n.log2 < maxBits then of? n e else none
  | _ => none

end PublicKey

namespace PrivateKey

/-- The private key that five numbers make. -/
def of? (n e d p q : Nat) : Option PrivateKey :=
  if h : isPrivate n e d p q then some ⟨n, e, d, p, q, h⟩ else none

/-- The public half. -/
def toPublic (k : PrivateKey) : PublicKey :=
  ⟨k.modulus, k.exponent, by
    have h := k.valid
    simp only [isPrivate, Bool.and_eq_true] at h
    exact h.1.1.1.1.1⟩

/-- The number of octets of the modulus. -/
def size (k : PrivateKey) : Nat := k.toPublic.size

/-- Reads a sequence of the version zero and eight numbers: the modulus, both
exponents, the factors and three numbers that follow from them and are not
used. -/
def ofDer? (bs : Octets) : Option PrivateKey := do
  let inner ← Der.Strict.only? Der.Tag.sequence bs
  match ← Der.Strict.unsignedList? 9 inner with
  | ([0, n, e, d, p, q, _, _, _], []) => of? n e d p q
  | _ => none

end PrivateKey

end Presign.Rsa
