import Presign.Proofs.SignedInfo.Acceptance
import Presign.Proofs.SignedInfo.Verification
import Presign.Proofs.Xades.Claims

/-!
# What the client claims does not show

Two requests whose objects differ only in the times of signing and the references to certificates
that they claim get the same answer (`prepare_eq_of_unclaimed`).  How many claims there are, where
they stand and what they say leaves no trace in the data to sign, nor in the object.  It only bears
on whether a request is granted.
-/

namespace Presign.SignedInfo

open Xml (Element CanonicalMethod IsResolved signatureSpace xadesSpace)

variable {p : Policy} {now : Time.Instant} {r : Request} {c : Certificate} {a : SignatureAlgorithm}

/-- What is built depends on the object only without its claims. -/
theorem Built.eq_of_unclaimed {checked checked' : Checked} {u : Xades.Update} {text text' : String}
    {m m' : CanonicalMethod} {data data' object object' : Octets}
    (helement : checked'.element = checked.element)
    (hobject : checked'.objectToUpdate.unclaimed = checked.objectToUpdate.unclaimed)
    (h : Built checked u text m data object) (h' : Built checked' u text' m' data' object') :
    data' = data ∧ object' = object := by
  have hm : m' = m := by
    have hmethod := h'.method
    rw [helement, h.method] at hmethod
    exact (Except.ok.inj hmethod).symm
  have htext : text' = text := by
    have hdigested := h'.digested
    rw [← Xades.Object.canonicalSignedProperties_update_unclaimed, hobject,
      Xades.Object.canonicalSignedProperties_update_unclaimed, h.digested] at hdigested
    exact (Except.ok.inj hdigested).symm
  have hid : checked'.objectToUpdate.idAfter u = checked.objectToUpdate.idAfter u := by
    rw [Xades.Object.idAfter, Xades.Object.idAfter, ← Xades.Object.id?_unclaimed, hobject,
      Xades.Object.id?_unclaimed]
  constructor
  · rw [h'.data, h.data, Checked.covered, Checked.covered, helement, hid, hm, htext]
  · rw [h'.object, h.object, ← Xades.Object.octets_update_unclaimed, hobject,
      Xades.Object.octets_update_unclaimed]

/-- Two granted requests that are the same but for their objects get the same answer, if the
objects are the same without what they claim in their first properties of the signature. -/
theorem prepare_eq_of_unclaimed {id : Option String} {bs bs' : Octets} {o o' : Xades.Object}
    {out out' : Prepared} (hread : Element.read bs = .ok o.element)
    (hread' : Element.read bs' = .ok o'.element) (hsame : o'.unclaimed = o.unclaimed)
    (h : prepare p now { r with adesObject := some ⟨id, some bs⟩ } c a = .ok out)
    (h' : prepare p now { r with adesObject := some ⟨id, some bs'⟩ } c a = .ok out') :
    out' = out := by
  obtain ⟨checked, hcheck, -, hout⟩ := prepare_eq_ok_iff.mp h
  obtain ⟨checked', hcheck', -, hout'⟩ := prepare_eq_ok_iff.mp h'
  obtain ⟨hdata, -, hid, ⟨hsupplies, -⟩, hinfo, -⟩ := check_eq_ok_iff.mp hcheck
  obtain ⟨hdata', -, hid', ⟨hsupplies', -⟩, hinfo', -⟩ := check_eq_ok_iff.mp hcheck'
  have hdatas : checked'.data = checked.data := Option.some.inj (hdata'.symm.trans hdata)
  have helement : checked'.element = checked.element := by
    rw [hdatas, hinfo] at hinfo'
    exact (Except.ok.inj hinfo').symm
  have hids : checked'.advancedId = checked.advancedId :=
    Except.ok.inj (hid'.symm.trans (Eq.trans rfl hid))
  have hobject : checked'.objectToUpdate.unclaimed = checked.objectToUpdate.unclaimed := by
    rw [Checked.objectToUpdate, Checked.objectToUpdate, hsupplies.eq_some rfl hread,
      hsupplies'.eq_some rfl hread']
    exact hsame
  rw [hids] at hout'
  cases hadvanced : checked.advancedId with
  | none =>
      rw [hadvanced] at hout hout'
      rw [hout, hout', hdatas]
  | some signatureId =>
      rw [hadvanced] at hout hout'
      obtain ⟨⟨data, object⟩, hbuild, rfl⟩ := hout
      obtain ⟨⟨data', object'⟩, hbuild', rfl⟩ := hout'
      obtain ⟨text, m, octets, rfl, hbuilt⟩ := built_of_build hbuild
      obtain ⟨text', m', octets', rfl, hbuilt'⟩ := built_of_build hbuild'
      rw [hdatas] at hbuilt'
      obtain ⟨rfl, rfl⟩ := hbuilt.eq_of_unclaimed helement hobject hbuilt'
      rfl

/-! ## For example -/

/-- An object with these properties of the signature. -/
def holding (properties : Element) : Xades.Object where
  element :=
    let qualifying := ((Element.bare (some "xades") Xades.qualifyingProperties
      (some xadesSpace)).declare (some "xades") xadesSpace).push
        ((Element.within xadesSpace (some "xades") Xades.signedProperties).push properties)
    ((Element.bare (some "ds") "Object" (some signatureSpace)).declare (some "ds")
      signatureSpace).push qualifying
  isObject := by rfl
  qualifies := by rfl

/-- An element of the XAdES namespace with a text. -/
def xadesText (localPart text : String) : Element :=
  (Element.within xadesSpace (some "xades") localPart).addText text

/-- An object that claims a time and a certificate, with text between them. -/
def claimingObject : Xades.Object :=
  holding (((((xadesText Xades.signedSignatureProperties "\n").push
    (xadesText Xades.signingTime "2022-06-08T21:36:54Z")).addText "\n").push
      (xadesText Xades.signingCertificate "?")).push (xadesText "SignaturePolicyIdentifier" "!"))

/-- An object that claims nothing. -/
def quietObject : Xades.Object :=
  holding ((xadesText Xades.signedSignatureProperties "\n\n").push
    (xadesText "SignaturePolicyIdentifier" "!"))

theorem unclaimed_claimingObject : claimingObject.unclaimed = quietObject.unclaimed := by
  decide +kernel

theorem allHold_xadesText {scope : Xml.Scope} {localPart : String} (hl : Xml.IsNamePart localPart)
    (hgives : scope.Gives (some "xades") xadesSpace) (text : String) :
    (xadesText localPart text).AllHold IsResolved scope :=
  (Element.allHold_within (by decide) (by decide) hl hgives).addText text

theorem holding_isResolved {properties : Element}
    (h : ∀ scope : Xml.Scope, scope.Gives (some "xades") xadesSpace →
      properties.AllHold IsResolved scope) :
    (holding properties).element.AllHold IsResolved [] := by
  have hgives : Xml.Scope.Gives [[⟨some "xades", xadesSpace⟩], [⟨some "ds", signatureSpace⟩]]
      (some "xades") xadesSpace := Xml.gives_declared (by decide) (by decide)
  have hsigned : ((Element.within xadesSpace (some "xades") Xades.signedProperties).push
      properties).AllHold IsResolved
        [[⟨some "xades", xadesSpace⟩], [⟨some "ds", signatureSpace⟩]] :=
    (Element.allHold_within (by decide) (by decide) (by decide) hgives).push
      (h _ (Xml.gives_within_iff.mpr hgives))
  exact (Element.allHold_declared (by decide) (by decide) (by decide) (by decide)).push
    ((Element.allHold_declared (by decide) (by decide) (by decide) (by decide)).push hsigned)

theorem read_claimingObject : Element.read claimingObject.octets = .ok claimingObject.element := by
  refine Xades.Object.read_eq_ok_iff.mp (Xades.Object.read_octets_of_joined
    (holding_isResolved fun scope hscope => ?_) (by rfl))
  have hinside : Xml.Scope.Gives
      ((xadesText Xades.signedSignatureProperties "\n").tag.declarations :: scope) (some "xades")
        xadesSpace := Xml.gives_within_iff.mpr hscope
  exact ((((allHold_xadesText (by decide) hscope _).push
    (allHold_xadesText (by decide) hinside _)).addText _).push
      (allHold_xadesText (by decide) hinside _)).push (allHold_xadesText (by decide) hinside _)

theorem read_quietObject : Element.read quietObject.octets = .ok quietObject.element := by
  refine Xades.Object.read_eq_ok_iff.mp (Xades.Object.read_octets_of_joined
    (holding_isResolved fun scope hscope => ?_) (by rfl))
  have hinside : Xml.Scope.Gives
      ((xadesText Xades.signedSignatureProperties "\n").tag.declarations :: scope) (some "xades")
        xadesSpace := Xml.gives_within_iff.mpr hscope
  exact (allHold_xadesText (by decide) hscope _).push (allHold_xadesText (by decide) hinside _)

theorem plainInformation_isSignable : IsSignable ecdsaSha256 plainInformation where
  root := by rfl
  method := ⟨_, rfl, by rfl⟩
  refers := by decide
  refersOnce := by decide

section Timely

variable {data : Octets} {o : Xades.Object} (hinfo : Element.read data = .ok plainInformation)
  (hread : Element.read o.octets = .ok o.element) (htimely : IsTimely p now o)
include hinfo hread htimely

theorem check_timely : check p now (plainRequest data o) ecdsaSha256 = .ok (plainChecked data o) :=
  check_eq_ok_iff.mpr ⟨rfl, rfl, rfl, ⟨.object rfl hread, fun _ ho => by cases ho; exact htimely⟩,
    hinfo, plainInformation_isSignable⟩

/-- A request for an advanced signature is granted if its object can be read, claims no time outside
of the window and, under a strict policy, does not refer to the certificate in the form of
version 1. -/
theorem exists_prepare_timely (hstrict : ¬ (p.strict ∧ o.hasSigningCertificateV1))
    (c : Certificate) : ∃ out, prepare p now (plainRequest data o) c ecdsaSha256 = .ok out :=
  exists_prepare c (check_timely hinfo hread htimely) rfl rfl hstrict (by rfl)

end Timely

/-- For example, the object that claims a time and a certificate gets the same answer as the one
that claims nothing. -/
theorem prepare_eq_of_unclaimed_claiming :
    ∃ out,
      prepare {} ⟨1654724214, 0, by decide⟩
        (plainRequest (Text.encode plainInformation.render) quietObject)
        shortCertificate ecdsaSha256 = .ok out ∧
      prepare {} ⟨1654724214, 0, by decide⟩
        (plainRequest (Text.encode plainInformation.render) claimingObject)
        shortCertificate ecdsaSha256 = .ok out := by
  have hinfo := (read_eq_ok_iff.mp read_plainInformation).1
  have hquiet : IsTimely {} ⟨1654724214, 0, by decide⟩ quietObject :=
    isTimely_iff.mpr ⟨none, by rfl, fun time ht => by cases ht⟩
  have hclaiming : IsTimely {} ⟨1654724214, 0, by decide⟩ claimingObject :=
    isTimely_iff.mpr ⟨some ⟨1654724214, 0, by decide⟩, by decide +kernel, fun time ht => by
      cases ht
      decide +kernel⟩
  obtain ⟨out, h⟩ := exists_prepare_timely hinfo read_quietObject hquiet (fun h => by cases h.1)
    shortCertificate
  obtain ⟨out', h'⟩ := exists_prepare_timely hinfo read_claimingObject hclaiming
    (fun h => by cases h.1) shortCertificate
  have heq : out' = out := prepare_eq_of_unclaimed (r := plainRequest _ quietObject)
    read_quietObject read_claimingObject unclaimed_claimingObject h h'
  exact ⟨out, h, heq ▸ h'⟩

end Presign.SignedInfo
