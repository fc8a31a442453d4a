import Presign.Proofs.Xades.SignedProperties
import Presign.Proofs.Xml.Content
import Presign.Proofs.Xml.Edited

/-!
# The reference to a certificate

An update refers to the certificate of the signer by its digest.  `RefersTo` says so of any element.
It is about the tree that a verifier reads: it looks at names with their namespaces, and at texts
however they are cut (`refersTo_joined_iff`).
-/

namespace Presign.Xades

open Xml (Element xadesSpace signatureSpace)

/-- An element that refers to one certificate, by its digest. -/
def RefersTo (m : DigestMethod) (digest : Octets) (e : Element) : Prop :=
  ∃ cert certDigest method value,
    e.findChildren xadesSpace "Cert" = [cert] ∧
    cert.findChildren xadesSpace "CertDigest" = [certDigest] ∧
    certDigest.findChildren signatureSpace "DigestMethod" = [method] ∧
    method.attribute? "Algorithm" = some m.uri ∧
    certDigest.findChildren signatureSpace "DigestValue" = [value] ∧
    value.text = Base64.text digest

/-- Texts may be cut in any way. -/
theorem refersTo_joined_iff {m : DigestMethod} {digest : Octets} {e : Element} :
    RefersTo m digest e.joined ↔ RefersTo m digest e := by
  constructor
  · rintro ⟨_, _, _, _, hcert, hdigest, hmethod, huri, hvalue, htext⟩
    rw [Element.findChildren_joined, List.map_eq_singleton_iff] at hcert
    obtain ⟨cert, hcert, rfl⟩ := hcert
    rw [Element.findChildren_joined, List.map_eq_singleton_iff] at hdigest
    obtain ⟨certDigest, hdigest, rfl⟩ := hdigest
    rw [Element.findChildren_joined, List.map_eq_singleton_iff] at hmethod hvalue
    obtain ⟨method, hmethod, rfl⟩ := hmethod
    obtain ⟨value, hvalue, rfl⟩ := hvalue
    rw [Element.text_joined] at htext
    exact ⟨cert, certDigest, method, value, hcert, hdigest, hmethod, huri, hvalue, htext⟩
  · rintro ⟨cert, certDigest, method, value, hcert, hdigest, hmethod, huri, hvalue, htext⟩
    refine ⟨cert.joined, certDigest.joined, method.joined, value.joined, ?_, ?_, ?_, huri, ?_,
      value.text_joined.trans htext⟩
    · rw [Element.findChildren_joined, hcert, List.map_singleton]
    · rw [Element.findChildren_joined, hdigest, List.map_singleton]
    · rw [Element.findChildren_joined, hmethod, List.map_singleton]
    · rw [Element.findChildren_joined, hvalue, List.map_singleton]

namespace Update

variable (u : Update) (qualifier signatureQualifier : Option String)

/-- The digest in the element that refers to the certificate. -/
def digestElement : Element :=
  ((Element.within xadesSpace qualifier "CertDigest").push
    ((Element.within signatureSpace signatureQualifier "DigestMethod").setAttribute "Algorithm"
      u.method.uri)).push
    ((Element.within signatureSpace signatureQualifier "DigestValue").addText
      (Base64.text u.certificateDigest))

/-- The reference to a certificate holds its digest, and perhaps its issuer and serial number. -/
theorem certificateElement_cases :
    ∃ cert : Element,
      u.certificateElement qualifier signatureQualifier
          = (Element.within xadesSpace qualifier signingCertificateV2).push cert ∧
        (cert = (Element.within xadesSpace qualifier "Cert").push
            (u.digestElement qualifier signatureQualifier) ∨
          ∃ text, cert = ((Element.within xadesSpace qualifier "Cert").push
            (u.digestElement qualifier signatureQualifier)).push
              ((Element.within xadesSpace qualifier "IssuerSerialV2").addText text)) := by
  unfold certificateElement
  cases u.issuerSerial with
  | none => exact ⟨_, rfl, Or.inl rfl⟩
  | some bs => exact ⟨_, rfl, Or.inr ⟨_, rfl⟩⟩

/-- An update refers to the certificate by the digest that it was given. -/
theorem refersTo_certificateElement :
    RefersTo u.method u.certificateDigest (u.certificateElement qualifier signatureQualifier) := by
  obtain ⟨cert, heq, hcases⟩ := u.certificateElement_cases qualifier signatureQualifier
  have hcert : cert.is xadesSpace "Cert" = true ∧ cert.findChildren xadesSpace "CertDigest"
      = [u.digestElement qualifier signatureQualifier] := by
    have hone : ((Element.within xadesSpace qualifier "Cert").push
        (u.digestElement qualifier signatureQualifier)).findChildren xadesSpace "CertDigest"
        = [u.digestElement qualifier signatureQualifier] := by
      rw [Element.findChildren_push_of_pos _ (by exact Element.is_within ..),
        Xml.findChildren_within, List.nil_append]
    rcases hcases with rfl | ⟨text, rfl⟩
    · exact ⟨Element.is_within .., hone⟩
    · refine ⟨Element.is_within .., ?_⟩
      rw [Element.findChildren_push_of_neg _ (by exact Element.is_within_of_ne (by decide) ..),
        hone]
  refine ⟨cert, _, (Element.within signatureSpace signatureQualifier "DigestMethod").setAttribute
    "Algorithm" u.method.uri, (Element.within signatureSpace signatureQualifier
      "DigestValue").addText (Base64.text u.certificateDigest), ?_, hcert.2, ?_,
    Element.attribute?_setAttribute .., ?_, Xml.text_addText_within ..⟩
  · rw [heq, Element.findChildren_push_of_pos _ hcert.1, Xml.findChildren_within, List.nil_append]
  · rw [digestElement, Element.findChildren_push_of_neg _
      (by exact Element.is_within_of_ne (by decide) ..), Element.findChildren_push_of_pos _
        (by exact Element.is_within ..), Xml.findChildren_within, List.nil_append]
  · rw [digestElement, Element.findChildren_push_of_pos _ (by exact Element.is_within ..),
      Element.findChildren_push_of_neg _ (by exact Element.is_within_of_ne (by decide) ..),
      Xml.findChildren_within, List.nil_append]

end Update

end Presign.Xades
