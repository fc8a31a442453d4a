import Presign.Oid

/-!
# Known object identifiers

The identifiers of the curves, keys, hash functions, signature algorithms and
signed attributes that this library knows.
-/

namespace Presign.Oid

/-! ## Keys and curves -/

/-- The key type of elliptic curves, 1.2.840.10045.2.1. -/
def ecPublicKey : Oid := ⟨1, 2, [840, 10045, 2, 1]⟩

/-- The key type of RSA, 1.2.840.113549.1.1.1. -/
def rsaEncryption : Oid := ⟨1, 2, [840, 113549, 1, 1, 1]⟩

/-- The curve P-256, 1.2.840.10045.3.1.7. -/
def p256 : Oid := ⟨1, 2, [840, 10045, 3, 1, 7]⟩

/-- The curve P-384, 1.3.132.0.34. -/
def p384 : Oid := ⟨1, 3, [132, 0, 34]⟩

/-! ## Hash functions -/

/-- SHA-1, 1.3.14.3.2.26. -/
def sha1 : Oid := ⟨1, 3, [14, 3, 2, 26]⟩

/-- The SHA-2 function with a given last arc, below 2.16.840.1.101.3.4.2. -/
def sha2 (arc : UInt64) : Oid := ⟨2, 16, [840, 1, 101, 3, 4, 2, arc]⟩

/-- SHA-256. -/
def sha256 : Oid := sha2 1

/-- SHA-384. -/
def sha384 : Oid := sha2 2

/-- SHA-512. -/
def sha512 : Oid := sha2 3

/-- SHA-224. -/
def sha224 : Oid := sha2 4

/-! ## Signature algorithms -/

/-- The RSA algorithm with a given last arc, below 1.2.840.113549.1.1. -/
def pkcs1 (arc : UInt64) : Oid := ⟨1, 2, [840, 113549, 1, 1, arc]⟩

/-- ECDSA with SHA-1, 1.2.840.10045.4.1. -/
def ecdsaWithSha1 : Oid := ⟨1, 2, [840, 10045, 4, 1]⟩

/-- The ECDSA algorithm with a given last arc, below 1.2.840.10045.4.3. -/
def ecdsaWithSha2 (arc : UInt64) : Oid := ⟨1, 2, [840, 10045, 4, 3, arc]⟩

/-! ## Signed attributes -/

/-- The attribute with given last arcs, below 1.2.840.113549.1.9. -/
def pkcs9 (arcs : List UInt64) : Oid := ⟨1, 2, [840, 113549, 1, 9] ++ arcs⟩

/-- Plain data as a content type, 1.2.840.113549.1.7.1. -/
def idData : Oid := ⟨1, 2, [840, 113549, 1, 7, 1]⟩

/-- The content type attribute. -/
def contentType : Oid := pkcs9 [3]

/-- The message digest attribute. -/
def messageDigest : Oid := pkcs9 [4]

/-- The signing time attribute. -/
def signingTime : Oid := pkcs9 [5]

/-- The algorithm protection attribute. -/
def algorithmProtection : Oid := pkcs9 [52]

/-- The signing certificate attribute of version 1, which uses SHA-1. -/
def signingCertificate : Oid := pkcs9 [16, 2, 12]

/-- The signing certificate attribute of version 2, which names its hash. -/
def signingCertificateV2 : Oid := pkcs9 [16, 2, 47]

end Presign.Oid
