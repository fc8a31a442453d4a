import Presign.Digest.Method

/-!
# DigestInfo

The value that an RSA signature of PKCS #1 version 1.5 carries: a digest and
the algorithm that made it.  It is written with the parameters NULL for every
digest method.  It is compared by the name of the algorithm and the digest, so
any parameters pass.
-/

namespace Presign.Rsa

/-- Why a padded block carries no digest. -/
inductive PaddingError where
  /-- The block does not begin with zero and one. -/
  | noHeader
  /-- Nothing ends the padding. -/
  | noSeparator
  /-- Another octet than zero ends the padding. -/
  | unexpectedOctet
  /-- The padding has less than eight octets. -/
  | short
  /-- The carried value is no sequence of two elements. -/
  | elementCount (found : Nat)
  /-- The carried value or a part of it cannot be read. -/
  | element (error : Der.Error)
deriving DecidableEq, Repr

/-- The text of a padding error. -/
def PaddingError.message (e : PaddingError) : String :=
  "malformed PKCS#1 padding: " ++ match e with
    | .noHeader => "block type 1 header not found"
    | .noSeparator => "separator not found"
    | .unexpectedOctet => "unexpected padding byte"
    | .short => "padding string too short"
    | .elementCount found => s!"expected 2 elements, got {found}"
    | .element error => error.message

/-- A digest and the algorithm that made it. -/
structure DigestInfo where
  /-- The algorithm. -/
  algorithm : AlgorithmIdentifier
  /-- The digest. -/
  digest : Octets
deriving DecidableEq

namespace DigestInfo

/-- The value for a digest made by a digest method. -/
def of (method : DigestMethod) (digest : Octets) : DigestInfo := ⟨.withNull method.oid, digest⟩

/-- The encoding. -/
def toDer (d : DigestInfo) : Octets :=
  Der.sequence [d.algorithm.toDer, Der.octetString d.digest]

/-- What the reader calls the element it reads. -/
def elementName : String := "digest info"

/-- Reads an encoding. -/
def ofDer (bs : Octets) : Except PaddingError DigestInfo := do
  match ← (Der.readSequence elementName bs).mapError .element with
  | [algorithm, digest] =>
    let algorithm ← (AlgorithmIdentifier.ofDer algorithm).mapError .element
    let digest ← (Der.readOctetString elementName digest).mapError .element
    return ⟨algorithm, digest⟩
  | elements => .error (.elementCount elements.length)

/-- Whether the value names a digest method and holds a digest. -/
def isFor (d : DigestInfo) (digest : Octets) (method : DigestMethod) : Bool :=
  d.digest == digest && d.algorithm.algorithm == method.oid

/-- Whether an encoded value names a digest method and holds a digest.  Only
what cannot be read is an error. -/
def verify (encoded digest : Octets) (method : DigestMethod) : Except PaddingError Bool :=
  (ofDer encoded).map fun d => d.isFor digest method

end DigestInfo

end Presign.Rsa
