import Presign.Certificate
import Presign.Policy
import Presign.SignedInfo.Reference

/-!
# Preparing signed information

The data of an XML signature is its `SignedInfo` element.  `check` reads it,
and the object that comes with it, and checks both.  The signature algorithm
must be that of the request, there must be a reference, and at most one may be
to signed properties.  A time that the object claims must lie in the window.

Without an advanced signature the data is signed as it is.  For an advanced
one, the properties in the object are completed, a reference covers them, and
the canonical form of the result is signed, under the method that the data
itself names.
-/

namespace Presign.SignedInfo

/-- The refusal of a request whose signed information is at fault. -/
def invalid (f : Fault) : Refusal := .invalid (.signedInfo f)

/-- The refusal of a request that is at fault in processing. -/
def violation (f : Fault) : Refusal := .violation (.signedInfo f)

/-! ## Checks -/

/-- The identifier of the signature, which an advanced one must have. -/
def advancedId (r : Request) : Except Fault (Option String) :=
  if r.profile.isAdvanced then
    match r.adesObject with
    | none => .error .noAdesObject
    | some o =>
      match o.signatureId with
      | none => .error .noSignatureId
      | some id => .ok (some id)
  else .ok none

/-- Reads the object that comes with a request and checks the time that it
claims. -/
def readObject (p : Policy) (now : Time.Instant) (r : Request) :
    Except Refusal (Option Xades.Object) := do
  match r.adesObject.bind AdesObject.object with
  | none => return none
  | some bs =>
    let o ← (Xades.Object.read bs).mapError fun e => invalid (.object e)
    match ← o.signingTime?.mapError fun e => invalid (.object e) with
    | none => return some o
    | some claimed =>
      p.checkTime now claimed
      return some o

/-- Reads signed information. -/
def read (bs : Octets) : Except Fault Xml.Element := do
  let e ← (Xml.Element.read bs).mapError .xml
  if e.is Xml.signatureSpace "SignedInfo" then return e
  else .error (.notSignedInfo e.name.qualified)

/-- Checks the signature algorithm. -/
def checkMethod (e : Xml.Element) (a : SignatureAlgorithm) : Except Fault Unit :=
  match (e.findChild? Xml.signatureSpace "SignatureMethod").bind
      fun method => method.attribute? "Algorithm" with
  | none => .error .noMethod
  | some uri => if uri = a.uri then .ok () else .error .otherMethod

/-- Checks the references. -/
def checkReferences (e : Xml.Element) : Except Fault Unit :=
  if (references e).isEmpty then .error .noReference
  else if 1 < ((references e).filter hasPropertiesType).length then
    .error .severalPropertyReferences
  else .ok ()

/-- A request that has passed the checks. -/
structure Checked where
  type : SignatureType
  data : Octets
  /-- The signed information. -/
  element : Xml.Element
  /-- The object that came with the request. -/
  object : Option Xades.Object
  /-- The identifier of an advanced signature. -/
  advancedId : Option String

/-- Checks a request. -/
def check (p : Policy) (now : Time.Instant) (r : Request) (a : SignatureAlgorithm) :
    Except Refusal Checked := do
  let essentials ← r.essentials
  let id ← (advancedId r).mapError invalid
  let object ← readObject p now r
  let element ← (read essentials.data).mapError invalid
  (checkMethod element a).mapError invalid
  (checkReferences element).mapError invalid
  return ⟨essentials.type, essentials.data, element, object, id⟩

/-! ## Building -/

/-- The identifier of signed properties that have none.  It depends on the
request alone, so that equal requests give equal data to sign. -/
def propertiesId (signatureId : String) (data : Octets) : String :=
  let digest := DigestMethod.sha256.digest (Text.encode signatureId ++ 0 :: data)
  "xades-id-" ++ Octets.hex (digest.take 16)

/-- The canonicalization method that signed information names. -/
def canonicalMethod (e : Xml.Element) : Except Fault Xml.CanonicalMethod :=
  match e.findChild? Xml.signatureSpace "CanonicalizationMethod" with
  | none => .error .noCanonicalization
  | some method =>
    match method.attribute? "Algorithm" with
    | none => .error .noCanonicalizationMethod
    | some uri => (Xml.CanonicalMethod.ofUri uri).mapError .xml

/-- What the signer vouches for. -/
def updateFor (p : Policy) (now : Time.Instant) (c : Certificate) (a : SignatureAlgorithm)
    (signatureId : String) (data : Octets) : Xades.Update where
  signatureId
  defaultId := propertiesId signatureId data
  time := now
  method := a.digest
  certificateDigest := c.digest a.digest
  issuerSerial := if p.includeIssuerSerial then some c.issuerSerial else none

/-- The canonical form of signed information. -/
def canonical (e : Xml.Element) : Except Fault String := do
  return e.canonical (← canonicalMethod e)

/-- The signed information of an advanced signature, and the object that
belongs to it. -/
def advance (e : Xml.Element) (o : Xades.Object) (u : Xades.Update) :
    Except Fault (Xml.Element × Xades.Object) := do
  let updated := o.update u
  let properties ← updated.canonicalSignedProperties.mapError .object
  let digest := u.method.digest (Text.encode properties)
  return (coverProperties e (o.idAfter u) u.method digest, updated)

/-- The data to sign and the object of an advanced signature. -/
def build (p : Policy) (now : Time.Instant) (c : Certificate) (a : SignatureAlgorithm)
    (checked : Checked) (signatureId : String) : Except Fault (Octets × AdesObject) := do
  let o := checked.object.getD .empty
  if p.strict ∧ o.hasSigningCertificateV1 then .error .certificateV1
  else
    let (element, o) ← advance checked.element o (updateFor p now c a signatureId checked.data)
    return (Text.encode (← canonical element), ⟨some signatureId, some o.octets⟩)

/-- Checks a request and prepares the data to sign. -/
def prepare (p : Policy) (now : Time.Instant) (r : Request) (c : Certificate)
    (a : SignatureAlgorithm) : Except Refusal Prepared := do
  let checked ← (check p now r a).mapError Refusal.onSigning
  p.allow r.rule checked.type .xml
  match checked.advancedId with
  | none => return ⟨checked.data, r.rule, none⟩
  | some id =>
    let (data, object) ← (build p now c a checked id).mapError violation
    return ⟨data, r.rule, some object⟩

end Presign.SignedInfo
