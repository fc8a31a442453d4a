import Presign.Certificate
import Presign.Cms.Attribute

/-!
# Signing certificates

The attribute that refers to the certificate of the signer by its digest, and
by issuer and serial number if that is asked for.  A digest made with SHA-1
goes into version 1 of the attribute, and any other into version 2.  There the
digest method is named, except for SHA-256, which is the default.
-/

namespace Presign.Cms.SigningCertificate

/-- The types of both versions. -/
def types : List Oid := [Oid.signingCertificate, Oid.signingCertificateV2]

/-- The type of the version that a digest method needs. -/
def typeFor (m : DigestMethod) : Oid :=
  if m = .sha1 then Oid.signingCertificate else Oid.signingCertificateV2

/-- The element that names a digest method, if it is needed. -/
def methodElement? (m : DigestMethod) : Option Octets :=
  if m = .sha1 ∨ m = .sha256 then none else some m.algorithmIdentifier.toDer

/-- The element that refers to one certificate. -/
def certificateId (m : DigestMethod) (c : Certificate) (includeIssuerSerial : Bool) : Octets :=
  Der.sequence ((methodElement? m).toList ++ [Der.octetString (c.digest m)]
    ++ if includeIssuerSerial then [c.issuerSerial] else [])

/-- The attribute that refers to a certificate. -/
def attributeFor (m : DigestMethod) (c : Certificate) (includeIssuerSerial : Bool) : Attribute :=
  .of (typeFor m)
    [Der.sequence [Der.sequence [certificateId m c includeIssuerSerial]]]

end Presign.Cms.SigningCertificate
