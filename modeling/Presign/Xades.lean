import Presign.Base64
import Presign.Digest.Method
import Presign.Time.Rfc3339
import Presign.Xml.Canonical
import Presign.Xml.Document
import Presign.Xml.Edit

/-!
# XAdES objects

A XAdES object is the `Object` of an XML signature around qualifying
properties.  The signed ones among them hold the time of signing and the
certificate of the signer, and a reference covers them.

`update` sets what the signer vouches for and removes what the client claimed
in its place.  Missing elements are created, each before all its siblings.
The properties are looked up along the first children with the right names.
`canonicalSignedProperties` gives the text that the reference covers.  It
takes the first `SignedProperties` of the whole object.
-/

namespace Presign.Xades

/-! ## Names -/

def qualifyingProperties : String := "QualifyingProperties"
def signedProperties : String := "SignedProperties"
def signedSignatureProperties : String := "SignedSignatureProperties"
def signingTime : String := "SigningTime"
def signingCertificate : String := "SigningCertificate"
def signingCertificateV2 : String := "SigningCertificateV2"

/-- The type of the reference that covers the signed properties. -/
def referenceType : String := "http://uri.etsi.org/01903#SignedProperties"

/-! ## Errors -/

/-- Why a document is no XAdES object, or lacks what is asked of it. -/
inductive Error where
  /-- The document cannot be read. -/
  | xml (error : Xml.Error)
  /-- The root element has another name. -/
  | notObject (name : String)
  /-- The root element has no qualifying properties. -/
  | noQualifyingProperties
  /-- There are no signed properties. -/
  | noSignedProperties
  /-- The time of signing is no date and time. -/
  | malformedTime (text : String)
deriving DecidableEq, Repr

/-- The text of an error. -/
def Error.message : Error → String
  | .xml error => error.message
  | .notObject name =>
    "malformed XML: AdES object must be a ds:Object element, got " ++ name
  | .noQualifyingProperties =>
    "malformed XML: No QualifyingProperties element found in XAdES object"
  | .noSignedProperties => "malformed XML: No SignedProperties element found in XAdES object"
  | .malformedTime text => "malformed XML: invalid SigningTime \x60" ++ text ++ "\x60: "

/-! ## Objects -/

/-- A XAdES object. -/
structure Object where
  /-- The root element. -/
  element : Xml.Element
  /-- The root element has the right name. -/
  isObject : element.is Xml.signatureSpace "Object" = true
  /-- The root element has qualifying properties. -/
  qualifies : (element.findChild? Xml.xadesSpace qualifyingProperties).isSome = true
deriving DecidableEq

namespace Object

/-- The object with empty qualifying properties. -/
def empty : Object where
  element :=
    let properties := (Xml.Element.bare (some "xades") qualifyingProperties
      (some Xml.xadesSpace)).declare (some "xades") Xml.xadesSpace
    ((Xml.Element.bare (some "ds") "Object" (some Xml.signatureSpace)).declare
      (some "ds") Xml.signatureSpace).push properties
  isObject := by decide
  qualifies := by decide

/-- Reads a document. -/
def read (bs : Octets) : Except Error Object := do
  let element ← (Xml.Element.read bs).mapError .xml
  if isObject : element.is Xml.signatureSpace "Object" then
    if qualifies : (element.findChild? Xml.xadesSpace qualifyingProperties).isSome then
      return ⟨element, isObject, qualifies⟩
    else .error .noQualifyingProperties
  else .error (.notObject element.name.qualified)

/-- The octets of the object. -/
def octets (o : Object) : Octets := Text.encode o.element.render

/-! ## Properties -/

/-- The signed properties. -/
def signedProperties? (o : Object) : Option Xml.Element := do
  let qualifying ← o.element.findChild? Xml.xadesSpace qualifyingProperties
  qualifying.findChild? Xml.xadesSpace signedProperties

/-- The properties of the signature among the signed ones. -/
def signatureProperties? (o : Object) : Option Xml.Element := do
  (← o.signedProperties?).findChild? Xml.xadesSpace signedSignatureProperties

/-- The identifier of the signed properties. -/
def id? (o : Object) : Option String := do (← o.signedProperties?).attribute? "Id"

/-- A date and a time of day in universal time. -/
def plainDateTime : Time.Pattern :=
  [.field .year, .literal '-', .field .month, .literal '-', .field .day, .literal 'T',
    .field .hour, .literal ':', .field .minute, .literal ':', .field .second, .fraction]

/-- Reads a date and a time of day.  Without an offset they are in universal
time. -/
def readDateTime? (text : String) : Option Time.Instant :=
  (Time.Rfc3339.read? text.toList).or (plainDateTime.read? text.toList)

/-- The time of signing, if it is there. -/
def signingTime? (o : Object) : Except Error (Option Time.Instant) :=
  match o.signatureProperties?.bind fun e => e.findChild? Xml.xadesSpace signingTime with
  | none => .ok none
  | some e =>
    let text := String.ofList (Text.trim e.text.toList)
    match readDateTime? text with
    | some i => .ok (some i)
    | none => .error (.malformedTime text)

/-- Whether the certificate is referred to in the form of version 1. -/
def hasSigningCertificateV1 (o : Object) : Bool :=
  o.signatureProperties?.any fun e =>
    (e.findChild? Xml.xadesSpace signingCertificate).isSome

/-- The signed properties in exclusive canonical form. -/
def canonicalSignedProperties (o : Object) : Except Error String :=
  match o.element.findDescendant? Xml.xadesSpace signedProperties with
  | some (e, inherited) => .ok (e.canonicalInScope .exclusive inherited)
  | none => .error .noSignedProperties

end Object

/-! ## Updates -/

/-- What the signer vouches for. -/
structure Update where
  /-- The identifier of the signature. -/
  signatureId : String
  /-- The identifier that signed properties without one get. -/
  defaultId : String
  /-- The time of signing. -/
  time : Time.Instant
  /-- The digest method for the certificate. -/
  method : DigestMethod
  /-- The digest of the certificate. -/
  certificateDigest : Octets
  /-- The encoded issuer and serial number of the certificate. -/
  issuerSerial : Option Octets
deriving DecidableEq

namespace Update

/-- The element that holds the time of signing. -/
def timeElement (u : Update) (qualifier : Option String) : Xml.Element :=
  (Xml.Element.within Xml.xadesSpace qualifier signingTime).addText (Time.Rfc3339.render u.time)

/-- The element that refers to the certificate.  The names of the signature
namespace have a qualifier of their own. -/
def certificateElement (u : Update) (qualifier signatureQualifier : Option String) :
    Xml.Element :=
  let method := (Xml.Element.within Xml.signatureSpace signatureQualifier
    "DigestMethod").setAttribute "Algorithm" u.method.uri
  let value := (Xml.Element.within Xml.signatureSpace signatureQualifier
    "DigestValue").addText (Base64.text u.certificateDigest)
  let digest := ((Xml.Element.within Xml.xadesSpace qualifier "CertDigest").push method).push value
  let cert := (Xml.Element.within Xml.xadesSpace qualifier "Cert").push digest
  let cert :=
    match u.issuerSerial with
    | some bs => cert.push
        ((Xml.Element.within Xml.xadesSpace qualifier "IssuerSerialV2").addText (Base64.text bs))
    | none => cert
  (Xml.Element.within Xml.xadesSpace qualifier signingCertificateV2).push cert

/-- Updates the properties of the signature.  The time comes first and the
certificate second. -/
def signatureProperties (u : Update) (qualifier signatureQualifier : Option String)
    (e : Xml.Element) : Xml.Element :=
  let others := ((e.removeChildren Xml.xadesSpace signingTime).removeChildren
    Xml.xadesSpace signingCertificate).removeChildren Xml.xadesSpace signingCertificateV2
  (others.insertElement 0 (u.timeElement qualifier)).insertElement 1
    (u.certificateElement qualifier signatureQualifier)

/-- Updates the signed properties. -/
def signedProperties (u : Update) (qualifier signatureQualifier : Option String)
    (e : Xml.Element) : Xml.Element :=
  let named := if (e.attribute? "Id").isSome then e else e.setAttribute "Id" u.defaultId
  named.changeOrInsert Xml.xadesSpace signedSignatureProperties
    (.within Xml.xadesSpace qualifier signedSignatureProperties)
    (u.signatureProperties qualifier signatureQualifier)

/-- Updates the qualifying properties.  New elements take their qualifier. -/
def qualifyingProperties (u : Update) (signatureQualifier : Option String) (e : Xml.Element) :
    Xml.Element :=
  let qualifier := e.name.qualifier
  (e.setAttribute "Target" ("#" ++ u.signatureId)).changeOrInsert Xml.xadesSpace
    Xades.signedProperties (.within Xml.xadesSpace qualifier Xades.signedProperties)
    (u.signedProperties qualifier signatureQualifier)

@[simp] theorem name_qualifyingProperties (u : Update) (signatureQualifier : Option String)
    (e : Xml.Element) : (u.qualifyingProperties signatureQualifier e).name = e.name := by
  simp [qualifyingProperties]

end Update

namespace Object

/-- Updates the properties. -/
def update (o : Object) (u : Update) : Object where
  element := o.element.changeChild Xml.xadesSpace qualifyingProperties
    (u.qualifyingProperties o.element.name.qualifier)
  isObject := by
    rw [Xml.Element.is, Xml.Element.name_changeChild]
    exact o.isObject
  qualifies := by
    rw [Xml.Element.findChild?_changeChild _ (u.name_qualifyingProperties _), Option.isSome_map]
    exact o.qualifies

/-- The identifier that the signed properties have after an update. -/
def idAfter (o : Object) (u : Update) : String := o.id?.getD u.defaultId

end Object

end Presign.Xades
