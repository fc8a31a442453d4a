import Presign.Cms.Attribute
import Presign.Signature.Algorithm

/-!
# Algorithm protection

The attribute that names the digest method and the signature algorithm of the
signature it belongs to, so that neither can be replaced.  The signature
algorithm is a field with the context tag 1 in place of its own tag.
-/

namespace Presign.Cms

/-- The algorithms that an attribute protects. -/
structure Protection where
  /-- The digest method. -/
  digest : AlgorithmIdentifier
  /-- The signature algorithm, if it is named. -/
  signature : Option AlgorithmIdentifier
deriving DecidableEq

namespace Protection

/-- What the reader calls the element it reads. -/
def elementName : String := "CMS algorithm protection"

/-- The tag of the signature algorithm. -/
def signatureTag : UInt8 := Der.Tag.context 1

/-- The protection for a signature algorithm with a given identifier. -/
def of (a : SignatureAlgorithm) (identifier : AlgorithmIdentifier) : Protection :=
  ⟨a.digest.algorithmIdentifier, some identifier⟩

/-- The encoding. -/
def toDer (p : Protection) : Octets :=
  Der.sequence
    (p.digest.toDer :: (p.signature.map fun s => Der.retag signatureTag s.toDer).toList)

/-- The attribute with the protection as its value. -/
def toAttribute (p : Protection) : Attribute := .of Oid.algorithmProtection [p.toDer]

/-- Reads an encoding.  The first field with the right tag is the signature
algorithm, and other fields are ignored. -/
def ofDer (bs : Octets) : Except Der.Error Protection := do
  match ← Der.readSequence elementName bs with
  | [] => .error (.invalid elementName (.missing "digest algorithm"))
  | digest :: fields =>
    let digest ← AlgorithmIdentifier.ofDer digest
    match fields.find? fun field => field.head? == some signatureTag with
    | none => return ⟨digest, none⟩
    | some field =>
      return ⟨digest, some (← AlgorithmIdentifier.ofDer (Der.retag Der.Tag.sequence field))⟩

/-- Reads the first value of an attribute. -/
def ofAttribute (a : Attribute) : Except Der.Error Protection :=
  match a.values with
  | [] => .error (.invalid elementName .noAttributeValue)
  | value :: _ => ofDer value

end Protection

end Presign.Cms
