import Presign.Cms.Protection
import Presign.Cms.SigningCertificate
import Presign.Cms.SigningTime
import Presign.Policy

/-!
# Preparing signed attributes

The data of a PDF signature is its set of signed attributes.  `check` reads
the attributes and checks them.  There must be a content type, which is plain
data, and a message digest.  A time of signing must be there and lie in the
window, except in an advanced signature, where it does not belong.  Protected
algorithms must be those of the request.

`build` makes the set to sign.  An advanced signature loses the times of
signing, and gets an algorithm protection and a reference to the certificate
of the signer.  Any other signature gets the reference if it had one.
-/

namespace Presign.Cms

/-- The refusal of a request whose attributes are at fault. -/
def invalid (f : Fault) : Refusal := .invalid (.attributes f)

/-! ## Checks -/

/-- Checks that the content type is plain data. -/
def checkContentType (as : Attributes) : Except Fault Unit :=
  match as.find? Oid.contentType with
  | none => .error .noContentType
  | some a =>
    match a.values.head?.map (Der.readOid "content type") with
    | some (.ok type) => if type = Oid.idData then .ok () else .error .otherContentType
    | _ => .error .malformedContentType

/-- Checks that there is a message digest. -/
def checkMessageDigest (as : Attributes) : Except Fault Unit :=
  if (as.find? Oid.messageDigest).isSome then .ok () else .error .noMessageDigest

/-- The time that an attribute holds. -/
def timeOf (a : Attribute) : Except Fault Time.Instant :=
  match a.values.head?.map SigningTime.ofDer with
  | some (.ok time) => .ok time
  | _ => .error .malformedTime

/-- Checks the time of signing. -/
def checkTime (p : Policy) (now : Time.Instant) (advanced : Bool) (as : Attributes) :
    Except Refusal Unit :=
  match as.find? Oid.signingTime, advanced with
  | some _, true => if p.strict then .error (invalid .forbiddenTime) else .ok ()
  | none, true => .ok ()
  | none, false => .error (invalid .noTime)
  | some a, false => do p.checkTime now (← (timeOf a).mapError invalid)

/-- The identifier of a signature algorithm. -/
def identifierOf (a : SignatureAlgorithm) : Except Refusal AlgorithmIdentifier :=
  match a.algorithmIdentifier? with
  | some i => .ok i
  | none => .error ⟨.programming, .noIdentifier a⟩

/-- Checks that protected algorithms are those of a signature algorithm with a
given identifier. -/
def Protection.check (p : Protection) (a : SignatureAlgorithm) (i : AlgorithmIdentifier) :
    Except Fault Unit :=
  if p.digest.algorithm ≠ a.digest.oid then .error (.otherDigest p.digest.algorithm a)
  else
    match p.signature with
    | none => .error .noSignature
    | some s =>
      if s.sameAlgorithm i then .ok () else .error (.otherSignature s.algorithm a)

/-- Checks an algorithm protection attribute. -/
def checkProtectionAttribute (found : Attribute) (a : SignatureAlgorithm) :
    Except Refusal Unit := do
  let i ← identifierOf a
  let p ← (Protection.ofAttribute found).mapError fun e => invalid (.unreadable e)
  (p.check a i).mapError invalid

/-- Checks the algorithm protection, if there is one. -/
def checkProtection (a : SignatureAlgorithm) (as : Attributes) : Except Refusal Unit :=
  match as.find? Oid.algorithmProtection with
  | none => .ok ()
  | some found => checkProtectionAttribute found a

/-- A request that has passed the checks. -/
structure Checked where
  type : SignatureType
  attributes : Attributes

/-- Checks a request. -/
def check (p : Policy) (now : Time.Instant) (r : Request) (a : SignatureAlgorithm) :
    Except Refusal Checked := do
  let essentials ← r.essentials
  let attributes ← (Attributes.ofDer essentials.data).mapError fun e => invalid (.unreadable e)
  (checkContentType attributes).mapError invalid
  (checkMessageDigest attributes).mapError invalid
  checkTime p now r.profile.isAdvanced attributes
  checkProtection a attributes
  return ⟨essentials.type, attributes⟩

/-! ## Building -/

/-- The attributes with the reference to the certificate of the signer in
place of all others. -/
def withCertificate (p : Policy) (c : Certificate) (a : SignatureAlgorithm) (as : Attributes) :
    Attributes :=
  as.without SigningCertificate.types
    ++ [SigningCertificate.attributeFor a.digest c p.includeIssuerSerial]

/-- Whether there is a reference to a certificate. -/
def hasCertificate (as : Attributes) : Bool :=
  as.any fun a => SigningCertificate.types.contains a.type

/-- The attributes of an advanced signature. -/
def advance (p : Policy) (c : Certificate) (a : SignatureAlgorithm) (i : AlgorithmIdentifier)
    (as : Attributes) : Attributes :=
  withCertificate p c a
    ((as.without [Oid.signingTime]).put (Protection.of a i).toAttribute)

/-- The attributes to sign. -/
def build (p : Policy) (advanced : Bool) (c : Certificate) (a : SignatureAlgorithm)
    (as : Attributes) : Except Refusal Attributes :=
  if advanced then (identifierOf a).map fun i => advance p c a i as
  else if hasCertificate as then .ok (withCertificate p c a as)
  else .ok as

/-- Checks a request and prepares the data to sign. -/
def prepare (p : Policy) (now : Time.Instant) (r : Request) (c : Certificate)
    (a : SignatureAlgorithm) : Except Refusal Prepared := do
  let checked ← (check p now r a).mapError Refusal.onSigning
  p.allow r.rule checked.type .pdf
  let attributes ← build p r.profile.isAdvanced c a checked.attributes
  return ⟨attributes.toDer, r.rule, none⟩

end Presign.Cms
