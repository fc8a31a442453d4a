import Presign.Proofs.SignedInfo.Independence
import Presign.Proofs.Xades.Strays

/-!
# What a signed object claims

A signer vouches for the time of signing and for its own certificate, and an answer to a request
for an advanced signature says so in the properties that are signed.  They claim nothing else
exactly if the client's object has no strays (`prepare_claimsOnly_iff`).  Strays are signed like
all the rest, and a strict policy does not look for them either (`prepare_straying`).
-/

namespace Presign.SignedInfo

open Xml (Element IsResolved signatureSpace xadesSpace)

variable {p : Policy} {now : Time.Instant} {r : Request} {c : Certificate} {a : SignatureAlgorithm}
  {checked : Checked}

/-- Among all properties of the signature in the signed properties of an answer, one claims the
time of the request, one refers to the certificate by its digest, and none does so in the form of
version 1, exactly if the object to update has no strays.  If no signed properties come before
them, these are the ones that are digested.

The document of the object is read with the same claims, if the names in the client's object are
well formed and the qualifiers of the new elements stand for their namespaces. -/
theorem prepare_claimsOnly_iff {out : Prepared} (hadvanced : r.profile.isAdvanced = true)
    (hcheck : check p now r a = .ok checked) (hprepare : prepare p now r c a = .ok out) :
    ∃ signatureId updated properties,
      out.adesObject = some ⟨some signatureId, some (Xades.Object.octets updated)⟩ ∧
      updated.signedProperties? = some properties ∧
      (Xades.ClaimsOnly now a.digest (c.digest a.digest) properties ↔
        checked.objectToUpdate.strays = []) ∧
      (checked.objectToUpdate.earlierProperties? = none → ∃ inherited,
        updated.element.findDescendant? xadesSpace Xades.signedProperties
          = some (properties, inherited)) ∧
      (checked.objectToUpdate.element.IsWellNamed → checked.objectToUpdate.Resolves →
        ∃ o read, Xades.Object.read updated.octets = .ok o ∧ o.signedProperties? = some read ∧
          (Xades.ClaimsOnly now a.digest (c.digest a.digest) read ↔
            checked.objectToUpdate.strays = [])) := by
  obtain ⟨signatureId, text, m, bs, -, hout, hbuilt⟩ := built_of_prepare hadvanced hcheck hprepare
  rw [hbuilt.object] at hout
  have hproperties := checked.objectToUpdate.signedProperties?_update
    (updateFor p now c a signatureId checked.data)
  have hclaims := checked.objectToUpdate.claimsOnly_update_iff
    (updateFor p now c a signatureId checked.data)
  refine ⟨signatureId, _, _, hout, hproperties, hclaims, fun hearlier => ?_,
    fun hnames hresolves => ?_⟩
  · exact Xades.Object.findDescendant?_of_signedProperties? hproperties
      ((checked.objectToUpdate.earlierProperties?_update _).trans hearlier)
  · have ho := isResolved_objectToUpdate hcheck fun o ho => by
      rw [Checked.objectToUpdate, ho] at hnames
      exact hnames
    obtain ⟨o, hread, hjoined⟩ := Xades.Object.exists_read_octets
      (Xades.Object.allHold_isResolved_update ho
        (updateFor p now c a signatureId checked.data) hresolves)
    exact ⟨o, _, hread, (Xades.Object.follows_of_element hjoined).properties,
      Xades.claimsOnly_joined_iff.trans hclaims⟩

/-- For example, the time and the certificate that `claimingObject` claims give way to those of the
signer, and nothing else is claimed. -/
theorem prepare_claimsOnly_iff_claiming :
    ∃ out signatureId bs o properties,
      prepare {} ⟨1654724220, 0, by decide⟩
        (plainRequest (Text.encode plainInformation.render) claimingObject)
        shortCertificate ecdsaSha256 = .ok out ∧
      out.adesObject = some ⟨some signatureId, some bs⟩ ∧ Xades.Object.read bs = .ok o ∧
      o.signedProperties? = some properties ∧
      Xades.ClaimsOnly ⟨1654724220, 0, by decide⟩ .sha256
        (shortCertificate.digest .sha256) properties := by
  have hinfo := (read_eq_ok_iff.mp read_plainInformation).1
  have htimely : IsTimely {} ⟨1654724220, 0, by decide⟩ claimingObject :=
    isTimely_iff.mpr ⟨some ⟨1654724214, 0, by decide⟩, by decide +kernel, fun time ht => by
      cases ht
      decide +kernel⟩
  have hcheck := check_timely hinfo read_claimingObject htimely
  obtain ⟨out, hout⟩ := exists_prepare_timely hinfo read_claimingObject htimely
    (fun h => by cases h.1) shortCertificate
  have hstrays : claimingObject.strays = [] := by decide +kernel
  have hresolves : claimingObject.Resolves :=
    ⟨fun q hq => by cases hq; rfl, fun q hq => by cases hq; rfl⟩
  obtain ⟨signatureId, updated, -, hobject, -, -, -, hread⟩ :=
    prepare_claimsOnly_iff (by rfl) hcheck hout
  obtain ⟨o, properties, hread, hproperties, hclaims⟩ := hread (by decide +kernel) hresolves
  exact ⟨out, signatureId, _, o, properties, hout, hobject, hread, hproperties,
    hclaims.mpr hstrays⟩

/-- For example, a strict policy grants a request with the object `straying`, and the time and the
certificate that it claims are signed. -/
theorem prepare_straying :
    ∃ out signatureId bs o properties inherited,
      prepare { strict := true } ⟨1654724220, 0, by decide⟩
        (plainRequest (Text.encode plainInformation.render) .straying)
        shortCertificate ecdsaSha256 = .ok out ∧
      out.adesObject = some ⟨some signatureId, some bs⟩ ∧ Xades.Object.read bs = .ok o ∧
      o.signedProperties? = some properties ∧
      o.element.findDescendant? xadesSpace Xades.signedProperties = some (properties, inherited) ∧
      (Xades.allClaims Xades.signingTime properties).length = 2 ∧
      Xades.allClaims Xades.signingCertificate properties ≠ [] := by
  have hinfo := (read_eq_ok_iff.mp read_plainInformation).1
  have hread := Xades.Object.read_eq_ok_iff.mp
    (Xades.Object.read_octets_of_joined Xades.Object.straying_isResolved (by rfl))
  have htimely : IsTimely { strict := true } ⟨1654724220, 0, by decide⟩ .straying :=
    isTimely_iff.mpr ⟨none, by rfl, fun time ht => by cases ht⟩
  have hcheck := check_timely hinfo hread htimely
  obtain ⟨out, hout⟩ := exists_prepare_timely hinfo hread htimely
    (by decide +kernel) shortCertificate
  obtain ⟨signatureId, text, m, bs, -, hobject, hbuilt⟩ := built_of_prepare (by rfl) hcheck hout
  have hupdated := hbuilt.object
  rw [objectToUpdate_plainChecked] at hupdated
  generalize updateFor _ _ _ _ _ _ = u at hupdated
  have hresolves : Xades.Object.straying.Resolves :=
    ⟨fun q hq => by cases hq; rfl, fun q hq => by cases hq; rfl⟩
  obtain ⟨o, hread', hjoined⟩ := Xades.Object.exists_read_octets
    (Xades.Object.allHold_isResolved_update Xades.Object.straying_isResolved u hresolves)
  have hfollows := Xades.Object.follows_of_element hjoined
  obtain ⟨properties, hproperties, htwo, hlegacy⟩ := hfollows.claims_straying
  obtain ⟨inherited, hfound⟩ := Xades.Object.findDescendant?_of_signedProperties? hproperties
    (hfollows.earlier.trans (by rfl))
  exact ⟨out, signatureId, bs, o, properties, inherited, hout, hobject, hupdated ▸ hread',
    hproperties, hfound, htwo, hlegacy⟩

end Presign.SignedInfo
