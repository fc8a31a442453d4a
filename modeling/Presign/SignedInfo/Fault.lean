import Presign.Xades

/-!
# Faults of XML signatures

What is wrong with the signed information of a request, or with the object
that comes with it.
-/

namespace Presign.SignedInfo

/-- What is wrong with the signed information of a request. -/
inductive Fault where
  /-- An advanced signature comes without an object. -/
  | noAdesObject
  /-- An advanced signature has no identifier. -/
  | noSignatureId
  /-- The object cannot be used. -/
  | object (error : Xades.Error)
  /-- The document cannot be read or canonicalized. -/
  | xml (error : Xml.Error)
  /-- The root element has another name. -/
  | notSignedInfo (name : String)
  /-- No signature algorithm is named. -/
  | noMethod
  /-- Another signature algorithm is named. -/
  | otherMethod
  /-- There are no references. -/
  | noReference
  /-- Several references cover signed properties. -/
  | severalPropertyReferences
  /-- The certificate is referred to in the form of version 1. -/
  | certificateV1
  /-- There is no element for the canonicalization method. -/
  | noCanonicalization
  /-- The element for the canonicalization method names none. -/
  | noCanonicalizationMethod
deriving DecidableEq, Repr

/-- The text of a fault. -/
def Fault.message : Fault → String
  | .noAdesObject =>
    "the AdESObject must not be null when the signature is an AdES XML signature"
  | .noSignatureId => "Signature ID must not be null in a XAdES signature"
  | .object error => error.message
  | .xml error => error.message
  | .notSignedInfo name =>
    "malformed XML: XML to be signed data must be a ds:SignedInfo element, got " ++ name
  | .noMethod => "SignedInfo does not have a specified signature algorithm"
  | .otherMethod => "Signature algorithm of request does not match provided data to be signed"
  | .noReference => "Input SignedInfo does not contain any reference data"
  | .severalPropertyReferences => "SignedInfo has more than one XAdES reference"
  | .certificateV1 => "XAdES SigningCertificate (V1) is not allowed in strict processing"
  | .noCanonicalization => "SignedInfo has no canonicalization algorithm element"
  | .noCanonicalizationMethod => "SignedInfo has no canonicalization algorithm"

end Presign.SignedInfo
