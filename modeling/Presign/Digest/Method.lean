import Presign.AlgorithmIdentifier
import Presign.Digest.Sha1
import Presign.Digest.Sha2
import Presign.Oid.Known

/-!
# Digest methods

The hash functions a signature may use, with the names that signature formats
give them: a short name, a URI in XML signatures and an object identifier in
CMS.  SHA-1 is identified with the parameters NULL and the SHA-2 functions
without parameters.
-/

namespace Presign

/-- A hash function. -/
inductive DigestMethod where
  | sha1
  | sha224
  | sha256
  | sha384
  | sha512
deriving DecidableEq, Repr

namespace DigestMethod

/-- All digest methods, by size. -/
def all : List DigestMethod := [.sha1, .sha224, .sha256, .sha384, .sha512]

/-- The digest of a message. -/
def digest : DigestMethod → Octets → Octets
  | .sha1 => Digest.Sha1.digest
  | .sha224 => Digest.Sha2.digest224
  | .sha256 => Digest.Sha2.digest256
  | .sha384 => Digest.Sha2.digest384
  | .sha512 => Digest.Sha2.digest512

/-- The number of octets in a digest. -/
def size : DigestMethod → Nat
  | .sha1 => 20
  | .sha224 => 28
  | .sha256 => 32
  | .sha384 => 48
  | .sha512 => 64

theorem length_digest (m : DigestMethod) (bs : Octets) : (m.digest bs).length = m.size := by
  cases m
  · exact Digest.Sha1.length_digest bs
  · exact Digest.Sha2.length_digest224 bs
  · exact Digest.Sha2.length_digest256 bs
  · exact Digest.Sha2.length_digest384 bs
  · exact Digest.Sha2.length_digest512 bs

/-! ## Names -/

/-- The short name. -/
def name : DigestMethod → String
  | .sha1 => "SHA1"
  | .sha224 => "SHA2_224"
  | .sha256 => "SHA2_256"
  | .sha384 => "SHA2_384"
  | .sha512 => "SHA2_512"

/-- The method with a short name. -/
def ofName? (s : String) : Option DigestMethod := all.find? fun m => m.name == s

/-- The object identifier. -/
def oid : DigestMethod → Oid
  | .sha1 => Oid.sha1
  | .sha224 => Oid.sha224
  | .sha256 => Oid.sha256
  | .sha384 => Oid.sha384
  | .sha512 => Oid.sha512

/-- The method with an object identifier. -/
def ofOid? (o : Oid) : Option DigestMethod := all.find? fun m => m.oid == o

/-- The URI of the method in XML signatures. -/
def uri : DigestMethod → String
  | .sha1 => "http://www.w3.org/2000/09/xmldsig#sha1"
  | .sha224 => "http://www.w3.org/2001/04/xmldsig-more#sha224"
  | .sha256 => "http://www.w3.org/2001/04/xmlenc#sha256"
  | .sha384 => "http://www.w3.org/2001/04/xmldsig-more#sha384"
  | .sha512 => "http://www.w3.org/2001/04/xmlenc#sha512"

/-- The method with a URI. -/
def ofUri? (s : String) : Option DigestMethod := all.find? fun m => m.uri == s

/-- The algorithm identifier that CMS structures use. -/
def algorithmIdentifier : DigestMethod → AlgorithmIdentifier
  | .sha1 => .withNull Oid.sha1
  | m => .bare m.oid

end DigestMethod

end Presign
