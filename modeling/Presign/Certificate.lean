import Presign.Key

/-!
# Signer certificates

A certificate is issued and validated elsewhere.  Here it is referred to, so
only its octets, its issuer, its serial number and its public key are read.
The fields are kept as they are encoded.
-/

namespace Presign

/-- Why octets are no certificate. -/
inductive CertificateError where
  /-- An element cannot be read. -/
  | element (error : Der.Error)
  /-- The label does not announce a certificate. -/
  | invalidLabel (label : String)
  /-- The text is no envelope. -/
  | pem (error : PemError)
  /-- The outer sequence has no elements. -/
  | empty
  /-- The certified fields are too few. -/
  | fieldCount (found : Nat)
deriving DecidableEq, Repr

/-- The text of a certificate error. -/
def CertificateError.message : CertificateError → String
  | .element error => error.message
  | .invalidLabel label => "invalid PEM label: " ++ label
  | .pem error => "invalid PEM provided: " ++ error.message
  | .empty => "invalid certificate: empty certificate sequence"
  | .fieldCount found =>
    s!"invalid certificate: tbs certificate has only {found} fields"

/-- A certificate. -/
structure Certificate where
  /-- All its octets. -/
  encoded : Octets
  /-- The encoded serial number. -/
  serialNumber : Octets
  /-- The encoded name of the issuer. -/
  issuer : Octets
  /-- The encoded public key. -/
  publicKeyInfo : Octets
deriving DecidableEq

namespace Certificate

/-- The certified fields without an explicit version in front. -/
def withoutVersion (fields : List Octets) : List Octets :=
  match fields with
  | (tag :: _) :: rest => if tag = Der.Tag.context 0 then rest else fields
  | _ => fields

/-- Reads the octets of a certificate.  The fields are the serial number, the
signature algorithm, the issuer, the validity, the subject and the public key,
and any number of others. -/
def ofDer (bs : Octets) : Except CertificateError Certificate := do
  let outer ← (Der.readSequence "certificate" bs).mapError .element
  let some certified := outer.head? | .error .empty
  let fields ← (Der.readSequence "tbs certificate" certified).mapError .element
  match withoutVersion fields with
  | serialNumber :: _ :: issuer :: _ :: _ :: publicKeyInfo :: _ =>
    let _ ← (Der.readInteger "certificate serial number" serialNumber).mapError .element
    let _ ← (Der.content Der.Tag.sequence "certificate issuer" issuer).mapError .element
    return ⟨bs, serialNumber, issuer, publicKeyInfo⟩
  | fields => .error (.fieldCount fields.length)

/-- Reads an envelope that announces a certificate. -/
def ofPem (p : Pem) : Except CertificateError Certificate :=
  if p.label = "CERTIFICATE" then ofDer p.data else .error (.invalidLabel p.label)

/-- Reads the text of an envelope. -/
def ofPemText (text : Octets) : Except CertificateError Certificate := do
  ofPem (← (Pem.parse text).mapError .pem)

/-- The public key of the subject. -/
def publicKey (c : Certificate) : Except KeyError PublicKey := PublicKey.ofDer c.publicKeyInfo

/-- The digest of all octets, which references to the certificate hold. -/
def digest (c : Certificate) (m : DigestMethod) : Octets := m.digest c.encoded

/-- The issuer as a single directory name, and the serial number.  The tag of
the directory name stands outside the name, since a name is a choice. -/
def issuerSerial (c : Certificate) : Octets :=
  let directoryName := Der.element (Der.Tag.context 4) c.issuer
  Der.sequence [Der.sequence [directoryName], c.serialNumber]

end Certificate

end Presign
