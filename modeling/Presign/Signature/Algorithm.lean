import Presign.Digest.Method

/-!
# Signature algorithms

A signature algorithm pairs a key type with a digest method.  It is named by
its URI in XML signatures.  Its object identifier is optional, since some
algorithms are for XML signatures only, and it is kept as text that may turn
out to name nothing.

A registry is a list of algorithms.  `resolve?` picks the preferred one for a
digest method and a key type: the one of lowest order, and of those the first.
-/

namespace Presign

/-- The kind of key an algorithm works with. -/
inductive KeyType where
  | rsa
  | ec
deriving DecidableEq, Repr

/-- The name of a key type as messages show it. -/
def KeyType.text : KeyType → String
  | .rsa => "RSA"
  | .ec => "EC"

/-- A signature algorithm. -/
structure SignatureAlgorithm where
  /-- The URI that names it. -/
  uri : String
  /-- The key type. -/
  keyType : KeyType
  /-- The digest method. -/
  digest : DigestMethod
  /-- The preference, lower first. -/
  order : Nat
  /-- The dotted object identifier, if there is one. -/
  oid : Option String
deriving DecidableEq

namespace SignatureAlgorithm

/-- The identifier that CMS structures use.  RSA has the parameters NULL, and
ECDSA has none. -/
def algorithmIdentifier? (a : SignatureAlgorithm) : Option AlgorithmIdentifier := do
  let oid ← Oid.parse? (← a.oid)
  return match a.keyType with
    | .rsa => .withNull oid
    | .ec => .bare oid

end SignatureAlgorithm

/-- The algorithms that are known. -/
abbrev AlgorithmRegistry := List SignatureAlgorithm

namespace AlgorithmRegistry

/-- The first algorithm with a URI. -/
def byUri? (r : AlgorithmRegistry) (uri : String) : Option SignatureAlgorithm :=
  r.find? fun a => a.uri == uri

/-- The first algorithm with an object identifier, compared as text. -/
def byOid? (r : AlgorithmRegistry) (oid : String) : Option SignatureAlgorithm :=
  r.find? fun a => a.oid == some oid

/-- The first algorithm of lowest order. -/
def preferred? : List SignatureAlgorithm → Option SignatureAlgorithm
  | [] => none
  | a :: as =>
    match preferred? as with
    | none => some a
    | some b => if b.order < a.order then some b else some a

/-- The preferred algorithm for a digest method and a key type. -/
def resolve? (r : AlgorithmRegistry) (digest : DigestMethod) (keyType : KeyType) :
    Option SignatureAlgorithm :=
  preferred? (r.filter fun a => a.digest == digest && a.keyType == keyType)

/-- An algorithm whose URI lies in the namespace of later XML signature
algorithms. -/
def entry (order : Nat) (keyType : KeyType) (digest : DigestMethod) (name : String) (oid : Oid) :
    SignatureAlgorithm :=
  ⟨"http://www.w3.org/2001/04/xmldsig-more#" ++ name, keyType, digest, order, some oid.text⟩

/-- The RSA and ECDSA algorithms over SHA-1 and SHA-2.  RSA with SHA-1 comes
last, and its URI lies in the first namespace of XML signatures. -/
def standard : AlgorithmRegistry := [
  entry 1 .rsa .sha256 "rsa-sha256" (Oid.pkcs1 11),
  entry 2 .rsa .sha384 "rsa-sha384" (Oid.pkcs1 12),
  entry 3 .rsa .sha512 "rsa-sha512" (Oid.pkcs1 13),
  entry 4 .rsa .sha224 "rsa-sha224" (Oid.pkcs1 14),
  entry 5 .ec .sha256 "ecdsa-sha256" (Oid.ecdsaWithSha2 2),
  entry 6 .ec .sha384 "ecdsa-sha384" (Oid.ecdsaWithSha2 3),
  entry 7 .ec .sha512 "ecdsa-sha512" (Oid.ecdsaWithSha2 4),
  entry 8 .ec .sha224 "ecdsa-sha224" (Oid.ecdsaWithSha2 1),
  entry 9 .ec .sha1 "ecdsa-sha1" Oid.ecdsaWithSha1,
  ⟨"http://www.w3.org/2000/09/xmldsig#rsa-sha1", .rsa, .sha1, 100, some (Oid.pkcs1 5).text⟩]

end AlgorithmRegistry

end Presign
