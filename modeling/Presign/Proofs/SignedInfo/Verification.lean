import Presign.Proofs.AlgorithmIdentifier
import Presign.Proofs.Certificate
import Presign.Proofs.SignedInfo.Coverage
import Presign.Proofs.SignedInfo.Preparation

/-!
# What a verifier reads

A signer gets two documents: the data to sign and the object that belongs to
it.  They are written from trees in memory, and a verifier has only the
documents.  `prepare_covers` says what a verifier reads in them, if the client
leaves the qualifiers of three elements alone.  `prepare_reread_iff` says
exactly when the trees that are read mean what the trees in memory meant.
-/

namespace Presign.SignedInfo

open Xml (Element Scope IsResolved signatureSpace xadesSpace)

variable {p : Policy} {now : Time.Instant} {r : Request} {c : Certificate} {a : SignatureAlgorithm}
  {checked : Checked}

/-! ## The reference covers the properties -/

/-- Signed information without a reference to signed properties, for inclusive
canonicalization. -/
def plainInformation : Element :=
  let within := Element.within signatureSpace (some "ds")
  ((((Element.bare (some "ds") "SignedInfo" (some signatureSpace)).declare (some "ds")
    signatureSpace).push ((within "CanonicalizationMethod").setAttribute "Algorithm"
      (Xml.CanonicalMethod.ruleUri .inclusive10))).push
    ((within "SignatureMethod").setAttribute "Algorithm" ecdsaSha256.uri)).push
    ((within "Reference").setAttribute "URI" "#data")

/-- A request with data and an object. -/
def plainRequest (data : Octets) (o : Xades.Object) : Request :=
  ⟨some .xml, some data, .bes, some ⟨some "sig", some o.octets⟩, none⟩

/-- What the checks leave of the request, if the data is `plainInformation`. -/
def plainChecked (data : Octets) (o : Xades.Object) : Checked :=
  ⟨.xml, data, plainInformation, some o, some "sig"⟩

theorem data_plainChecked (data : Octets) (o : Xades.Object) : (plainChecked data o).data = data :=
  rfl

theorem objectToUpdate_plainChecked (data : Octets) (o : Xades.Object) :
    (plainChecked data o).objectToUpdate = o := rfl

/-- An element of the signature namespace with one attribute, inside of an element that declares
the qualifier. -/
theorem allHold_within_ds {localPart key : String} (hl : Xml.IsNamePart localPart)
    (hkey : Xml.IsNamePart key ∧ key ≠ "xmlns") (value : String) :
    ((Element.within signatureSpace (some "ds") localPart).setAttribute key value).AllHold
      IsResolved [[⟨some "ds", signatureSpace⟩]] :=
  (Element.allHold_within (by decide) (by decide) hl
    (Xml.gives_declared (by decide) (by decide))).setAttribute Xml.stable_isResolved hkey value

theorem plainInformation_isResolved : plainInformation.AllHold IsResolved [] := by
  have hroot : ((Element.bare (some "ds") "SignedInfo" (some signatureSpace)).declare (some "ds")
      signatureSpace).AllHold IsResolved [] :=
    Element.allHold_declared (by decide) (by decide) (by decide) (by decide)
  exact ((hroot.push (allHold_within_ds (by decide) (by decide) _)).push
    (allHold_within_ds (by decide) (by decide) _)).push
      (allHold_within_ds (by decide) (by decide) _)

theorem plainInformation_isWellNamed : plainInformation.IsWellNamed := by
  refine Element.isWellNamed_of_leaves (by decide) fun n hn => ?_
  rcases List.mem_cons.mp hn with rfl | hn
  · exact ⟨_, rfl, by decide⟩
  · rcases List.mem_cons.mp hn with rfl | hn
    · exact ⟨_, rfl, by decide⟩
    · rw [List.mem_singleton.mp hn]
      exact ⟨_, rfl, by decide⟩

theorem plainInformation_keeps : plainInformation.DeclaresBelow
    (Xml.Declaration.Keeps plainInformation.name.qualifier signatureSpace) := by
  refine Element.declaresBelow_of_leaves fun c hc => ?_
  have hleaf : ∀ c ∈ plainInformation.childElements, c.children = [] ∧ c.tag.declarations = [] := by
    decide
  obtain ⟨hchildren, hdeclarations⟩ := hleaf c hc
  rw [hdeclarations]
  exact ⟨hchildren, fun d hd => by cases hd⟩

theorem read_plainInformation :
    read (Text.encode plainInformation.render) = .ok plainInformation :=
  Except.bind_eq_ok.mpr ⟨plainInformation, Except.mapError_eq_ok.mpr
    (Element.read_render plainInformation_isResolved.isReadable), if_pos (by rfl)⟩

section Plain

variable {data : Octets} {o : Xades.Object} (hinfo : read data = .ok plainInformation)
  (hread : Xades.Object.read o.octets = .ok o) (htime : o.signingTime? = .ok none)
include hinfo hread htime

theorem check_plainRequest (p : Policy) (now : Time.Instant) :
    check p now (plainRequest data o) ecdsaSha256 = .ok (plainChecked data o) := by
  have hessentials : (plainRequest data o).essentials = .ok ⟨data, .xml⟩ := rfl
  have hid : advancedId (plainRequest data o) = .ok (some "sig") := rfl
  have hobject : readObject p now (plainRequest data o) = .ok (some o) :=
    Except.bind_eq_ok.mpr ⟨o, Except.mapError_eq_ok.mpr hread,
      Except.bind_eq_ok.mpr ⟨none, Except.mapError_eq_ok.mpr htime, rfl⟩⟩
  have hmethod : checkMethod plainInformation ecdsaSha256 = .ok () := by rfl
  have hreferences : checkReferences plainInformation = .ok () := by rfl
  exact check_of hessentials hid hobject hinfo hmethod hreferences

/-- The request is answered. -/
theorem exists_prepare_plainRequest (now : Time.Instant) (c : Certificate) :
    ∃ out, prepare {} now (plainRequest data o) c ecdsaSha256 = .ok out :=
  exists_prepare c (check_plainRequest hinfo hread htime {} now) rfl rfl (fun h => by cases h.1)
    (by rfl)

end Plain

/-- The two documents mean what was built in memory under two conditions.

The object is read as one with the canonical form that was digested if and only
if signed properties come before those that the update edits, or the qualifiers
of the new elements stand for their namespaces where they are put in.

The new elements of the reference are read as elements of the signature
namespace if and only if the canonicalization is exclusive, or the qualifier of
the root stands for that namespace inside of the reference. -/
theorem prepare_reread_iff {out : Prepared} (hadvanced : r.profile.isAdvanced = true)
    (hcheck : check p now r a = .ok checked) (hprepare : prepare p now r c a = .ok out)
    (hinfo : checked.element.IsWellNamed)
    (hobject : ∀ o, checked.object = some o → o.element.IsWellNamed) :
    ∃ signatureId text m bs o e reference,
      out.adesObject = some ⟨some signatureId, some bs⟩ ∧
      Built checked (updateFor p now c a signatureId checked.data) text m out.data bs ∧
      Xades.Object.read bs = .ok o ∧
      (o.canonicalSignedProperties = .ok text ↔
        checked.objectToUpdate.earlierProperties?.isSome = true ∨
          checked.objectToUpdate.Resolves) ∧
      Element.read out.data = .ok e ∧
      (references e).filter hasPropertiesType = [reference] ∧
      (reference.childElements.map fun c => c.name.localPart)
        = ["Transforms", "DigestMethod", "DigestValue"] ∧
      ((∀ c ∈ reference.childElements, c.name.space = some signatureSpace) ↔
        m.rule = .exclusive ∨
          (referenceScope checked.element).Gives checked.element.name.qualifier
            signatureSpace) := by
  obtain ⟨signatureId, text, m, bs, -, hout, hbuilt⟩ := built_of_prepare hadvanced hcheck hprepare
  have hsound := isSound_of_check hcheck hinfo
  have ho := isResolved_objectToUpdate hcheck hobject
  have hnames := objectToUpdate_of (P := fun o => o.element.IsWellNamed)
    Xades.Object.empty_isWellNamed hobject
  obtain ⟨o, hread, ho'⟩ := Xades.Object.exists_read_octets_update ho hnames
    (updateFor p now c a signatureId checked.data)
  have hmeaning := Xades.Object.canonicalSignedProperties_eq_iff ho hnames _ ho'
  rw [hbuilt.digested] at hmeaning
  obtain ⟨-, b, written, hreferences⟩ := hsound.exists_references_reread
    (checked.objectToUpdate.idAfter (updateFor p now c a signatureId checked.data)) a.digest
    (a.digest.digest (Text.encode text)) m
  obtain ⟨hlocal, hspaces⟩ := hsound.names_reread
    (checked.objectToUpdate.idAfter (updateFor p now c a signatureId checked.data)) a.digest
    (a.digest.digest (Text.encode text)) m b written
  refine ⟨signatureId, text, m, bs, o, _, _, hout, hbuilt, hbuilt.object ▸ hread, hmeaning, ?_,
    hreferences, hlocal, hspaces⟩
  rw [hbuilt.data]
  exact (hsound.allHold_coverProperties _ _ _).read_canonical m

/-- For example, the object that is read has another canonical form if the client
gave `rebound`, while all names in the reference are as they were. -/
theorem prepare_reread_iff_rebound :
    ∃ out signatureId text m bs o e reference,
      prepare {} ⟨1654724214, 0, by decide⟩
          (plainRequest (Text.encode plainInformation.render) .rebound)
          shortCertificate ecdsaSha256 = .ok out ∧
      out.adesObject = some ⟨some signatureId, some bs⟩ ∧
      Built (plainChecked (Text.encode plainInformation.render) .rebound)
        (updateFor {} ⟨1654724214, 0, by decide⟩ shortCertificate
          ecdsaSha256 signatureId (Text.encode plainInformation.render)) text m out.data bs ∧
      Xades.Object.read bs = .ok o ∧ o.canonicalSignedProperties ≠ .ok text ∧
      Element.read out.data = .ok e ∧ (references e).filter hasPropertiesType = [reference] ∧
      ∀ c ∈ reference.childElements, c.name.space = some signatureSpace := by
  have hread := Xades.Object.read_octets_of_joined Xades.Object.rebound_isResolved (by rfl)
  have hcheck := check_plainRequest read_plainInformation hread (by rfl) {}
    ⟨1654724214, 0, by decide⟩
  obtain ⟨out, hout⟩ := exists_prepare_plainRequest read_plainInformation hread (by rfl)
    ⟨1654724214, 0, by decide⟩ shortCertificate
  obtain ⟨signatureId, text, m, bs, o, e, reference, hobject, hbuilt, hread', hmeaning, hread'',
    hreferences, -, hspaces⟩ := prepare_reread_iff (by rfl) hcheck hout plainInformation_isWellNamed
      fun o ho => by
        cases ho
        exact Xades.Object.rebound_isWellNamed
  rw [data_plainChecked] at hbuilt
  refine ⟨out, signatureId, text, m, bs, o, e, reference, hout, hobject, hbuilt, hread', ?_,
    hread'', hreferences, hspaces.mpr (Or.inr ?_)⟩
  · intro heq
    rcases hmeaning.mp heq with hearlier | hresolves
    · cases hearlier
    · exact Xades.Object.not_resolves_rebound hresolves
  · exact (isSound_of_check hcheck plainInformation_isWellNamed).gives_referenceScope
      plainInformation_keeps

end Presign.SignedInfo
