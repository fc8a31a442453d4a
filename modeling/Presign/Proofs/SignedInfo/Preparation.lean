import Presign.Proofs.SignedInfo.Reference
import Presign.Proofs.Xades.Reread

/-!
# How prepared documents come about

What the checks of a request leave, and which trees the data and the object of
an advanced signature are written from.
-/

namespace Presign.SignedInfo

open Xml (Element Scope IsResolved CanonicalMethod signatureSpace xadesSpace)

variable {p : Policy} {now : Time.Instant} {r : Request} {c : Certificate} {a : SignatureAlgorithm}
  {checked : Checked}

/-! ## Checks -/

/-- The object that is updated for an advanced signature. -/
def Checked.objectToUpdate (checked : Checked) : Xades.Object := checked.object.getD .empty

theorem read_of_readObject {o : Xades.Object} (h : readObject p now r = .ok (some o)) :
    ∃ bs, Xades.Object.read bs = .ok o := by
  unfold readObject at h
  split at h
  · cases h
  · rename_i bs _
    obtain ⟨o', hread, h⟩ := Except.bind_eq_ok.mp h
    obtain ⟨claimed, -, h⟩ := Except.bind_eq_ok.mp h
    have heq : o' = o := by
      split at h
      · cases h
        rfl
      · obtain ⟨_, -, h⟩ := Except.bind_eq_ok.mp h
        cases h
        rfl
    exact ⟨bs, heq ▸ Except.mapError_eq_ok.mp hread⟩

theorem read_element {bs : Octets} {o : Xades.Object} (h : Xades.Object.read bs = .ok o) :
    Element.read bs = .ok o.element := by
  obtain ⟨e, hread, h⟩ := Except.bind_eq_ok.mp h
  rw [Except.mapError_eq_ok.mp hread]
  split at h
  · split at h
    · cases h
      rfl
    · cases h
  · cases h

theorem read_root {bs : Octets} {e : Element} (h : read bs = .ok e) :
    Element.read bs = .ok e ∧ e.is signatureSpace "SignedInfo" = true := by
  obtain ⟨e', hread, h⟩ := Except.bind_eq_ok.mp h
  split at h
  · rename_i his
    cases h
    exact ⟨Except.mapError_eq_ok.mp hread, his⟩
  · cases h

theorem count_of_checkReferences {e : Element} (h : checkReferences e = .ok ()) :
    ((references e).filter hasPropertiesType).length ≤ 1 := by
  unfold checkReferences at h
  split at h
  · cases h
  · split at h
    · cases h
    · rename_i hcount
      exact Nat.le_of_not_lt hcount

/-- What the checks leave of a request. -/
theorem of_check (h : check p now r a = .ok checked) :
    advancedId r = .ok checked.advancedId ∧ readObject p now r = .ok checked.object ∧
      (∃ bs, read bs = .ok checked.element) ∧ checkReferences checked.element = .ok () := by
  obtain ⟨essentials, -, h⟩ := Except.bind_eq_ok.mp h
  obtain ⟨id, hid, h⟩ := Except.bind_eq_ok.mp h
  obtain ⟨object, hobject, h⟩ := Except.bind_eq_ok.mp h
  obtain ⟨e, he, h⟩ := Except.bind_eq_ok.mp h
  obtain ⟨_, -, h⟩ := Except.bind_eq_ok.mp h
  obtain ⟨_, hreferences, h⟩ := Except.bind_eq_ok.mp h
  cases h
  exact ⟨Except.mapError_eq_ok.mp hid, hobject, ⟨_, Except.mapError_eq_ok.mp he⟩,
    Except.mapError_eq_ok.mp hreferences⟩

/-- A request passes if every check does. -/
theorem check_of {essentials : Essentials} {id : Option String} {object : Option Xades.Object}
    {e : Element} (hessentials : r.essentials = .ok essentials) (hid : advancedId r = .ok id)
    (hobject : readObject p now r = .ok object) (hread : read essentials.data = .ok e)
    (hmethod : checkMethod e a = .ok ()) (hreferences : checkReferences e = .ok ()) :
    check p now r a = .ok ⟨essentials.type, essentials.data, e, object, id⟩ :=
  Except.bind_eq_ok.mpr ⟨essentials, hessentials, Except.bind_eq_ok.mpr
    ⟨id, Except.mapError_eq_ok.mpr hid, Except.bind_eq_ok.mpr ⟨object, hobject,
      Except.bind_eq_ok.mpr ⟨e, Except.mapError_eq_ok.mpr hread, Except.bind_eq_ok.mpr
        ⟨(), Except.mapError_eq_ok.mpr hmethod, Except.bind_eq_ok.mpr
          ⟨(), Except.mapError_eq_ok.mpr hreferences, rfl⟩⟩⟩⟩⟩⟩

/-- Checked signed information is sound, if no name in it can be cut. -/
theorem isSound_of_check (h : check p now r a = .ok checked)
    (hnames : checked.element.IsWellNamed) : IsSound checked.element := by
  obtain ⟨-, -, ⟨bs, hread⟩, hreferences⟩ := of_check h
  obtain ⟨hread, hroot⟩ := read_root hread
  exact ⟨Element.allHold_of_read hread hnames, hroot, hnames, count_of_checkReferences hreferences⟩

/-- A property of the client's object, and of the empty one, is one of the
object that is updated. -/
theorem objectToUpdate_of {P : Xades.Object → Prop} (hempty : P .empty)
    (h : ∀ o, checked.object = some o → P o) : P checked.objectToUpdate := by
  rw [Checked.objectToUpdate]
  cases ho : checked.object with
  | none => exact hempty
  | some o => exact h o ho

theorem isResolved_objectToUpdate (h : check p now r a = .ok checked)
    (hnames : ∀ o, checked.object = some o → o.element.IsWellNamed) :
    checked.objectToUpdate.element.AllHold IsResolved [] := by
  refine objectToUpdate_of (P := fun o => o.element.AllHold IsResolved [])
    Xades.Object.empty_isResolved fun o ho => ?_
  obtain ⟨-, hobject, -⟩ := of_check h
  rw [ho] at hobject
  obtain ⟨bs, hread⟩ := read_of_readObject hobject
  exact Element.allHold_of_read (read_element hread) (hnames o ho)

/-! ## Building -/

/-- The signed information with a reference that covers a text. -/
def Checked.covered (checked : Checked) (u : Xades.Update) (text : String) : Element :=
  coverProperties checked.element (checked.objectToUpdate.idAfter u) u.method
    (u.method.digest (Text.encode text))

/-- The data and the object are written from an update of what was checked, and
the reference covers a text. -/
structure Built (checked : Checked) (u : Xades.Update) (text : String) (m : CanonicalMethod)
    (data object : Octets) : Prop where
  method : canonicalMethod checked.element = .ok m
  digested : (checked.objectToUpdate.update u).canonicalSignedProperties = .ok text
  data : data = Text.encode ((checked.covered u text).canonical m)
  object : object = (checked.objectToUpdate.update u).octets

theorem of_advance {e e' : Element} {o o' : Xades.Object} {u : Xades.Update}
    (h : advance e o u = .ok (e', o')) :
    ∃ text, (o.update u).canonicalSignedProperties = .ok text ∧
      e' = coverProperties e (o.idAfter u) u.method (u.method.digest (Text.encode text)) ∧
      o' = o.update u := by
  obtain ⟨text, htext, h⟩ := Except.bind_eq_ok.mp h
  obtain ⟨he, ho⟩ := Prod.mk.inj (Except.ok.inj h)
  exact ⟨text, Except.mapError_eq_ok.mp htext, he.symm, ho.symm⟩

theorem of_canonical {e : Element} {text : String} (h : canonical e = .ok text) :
    ∃ m, canonicalMethod e = .ok m ∧ text = e.canonical m := by
  obtain ⟨m, hm, h⟩ := Except.bind_eq_ok.mp h
  exact ⟨m, hm, (Except.ok.inj h).symm⟩

theorem built_of_build {id : String} {data : Octets} {object : AdesObject}
    (h : build p now c a checked id = .ok (data, object)) :
    ∃ text m bs, object = ⟨some id, some bs⟩ ∧
      Built checked (updateFor p now c a id checked.data) text m data bs := by
  unfold build at h
  dsimp only at h
  split at h
  · cases h
  · obtain ⟨⟨e, o⟩, hadvance, h⟩ := Except.bind_eq_ok.mp h
    obtain ⟨canonicalText, hcanonical, h⟩ := Except.bind_eq_ok.mp h
    obtain ⟨text, hdigested, he, ho⟩ := of_advance hadvance
    obtain ⟨m, hm, hcanonical⟩ := of_canonical hcanonical
    obtain ⟨hdata, hobject⟩ := Prod.mk.inj (Except.ok.inj h)
    dsimp only at hm hcanonical hobject
    rw [he, canonicalMethod_coverProperties] at hm
    refine ⟨text, m, _, hobject.symm, hm, hdigested, ?_, by rw [ho]; rfl⟩
    rw [← hdata, hcanonical, he]
    rfl

/-- What an advanced request is answered with. -/
theorem built_of_prepare {out : Prepared} (hadvanced : r.profile.isAdvanced = true)
    (hcheck : check p now r a = .ok checked) (h : prepare p now r c a = .ok out) :
    ∃ id text m bs, r.adesObject.bind AdesObject.signatureId = some id ∧
      out.adesObject = some ⟨some id, some bs⟩ ∧
      Built checked (updateFor p now c a id checked.data) text m out.data bs := by
  obtain ⟨hid, -, -, -⟩ := of_check hcheck
  obtain ⟨checked', hcheck', h⟩ := Except.bind_eq_ok.mp h
  rw [hcheck] at hcheck'
  cases hcheck'
  obtain ⟨_, -, h⟩ := Except.bind_eq_ok.mp h
  unfold advancedId at hid
  rw [if_pos hadvanced] at hid
  split at hid
  · cases hid
  · rename_i object hobject
    split at hid
    · cases hid
    · rename_i id hsignature
      rw [← Except.ok.inj hid] at h
      obtain ⟨⟨data, built⟩, hbuild, h⟩ := Except.bind_eq_ok.mp h
      obtain ⟨text, m, bs, rfl, hbuilt⟩ := built_of_build (Except.mapError_eq_ok.mp hbuild)
      cases h
      refine ⟨id, text, m, bs, ?_, rfl, hbuilt⟩
      rw [hobject]
      exact hsignature

/-! ## Reading again -/

/-- A checked request for an advanced signature is answered, if the policy allows
it, the canonicalization method is known, and in strict processing the
certificate is not referred to in the form of version 1. -/
theorem exists_prepare {id : String} {m : CanonicalMethod} (c : Certificate)
    (hcheck : check p now r a = .ok checked) (hid : checked.advancedId = some id)
    (hallow : p.allow r.rule checked.type .xml = .ok ())
    (hstrict : ¬ (p.strict ∧ checked.objectToUpdate.hasSigningCertificateV1))
    (hm : canonicalMethod checked.element = .ok m) : ∃ out, prepare p now r c a = .ok out := by
  obtain ⟨text, htext⟩ := checked.objectToUpdate.exists_canonicalSignedProperties
    (updateFor p now c a id checked.data)
  have hadvance : advance checked.element checked.objectToUpdate
      (updateFor p now c a id checked.data)
      = .ok (checked.covered (updateFor p now c a id checked.data) text,
          checked.objectToUpdate.update (updateFor p now c a id checked.data)) := by
    rw [advance, htext]
    rfl
  have hcanonical : canonical (checked.covered (updateFor p now c a id checked.data) text)
      = .ok ((checked.covered (updateFor p now c a id checked.data) text).canonical m) := by
    rw [canonical, Checked.covered, canonicalMethod_coverProperties, hm]
    rfl
  have hbuild : build p now c a checked id
      = .ok (Text.encode ((checked.covered (updateFor p now c a id checked.data) text).canonical m),
          ⟨some id, some (checked.objectToUpdate.update (updateFor p now c a id
            checked.data)).octets⟩) := by
    unfold build
    exact (if_neg hstrict).trans
      (Except.bind_eq_ok.mpr ⟨_, hadvance, Except.bind_eq_ok.mpr ⟨_, hcanonical, rfl⟩⟩)
  obtain ⟨⟨data, object⟩, hbuilt⟩ : ∃ built, build p now c a checked id = .ok built := ⟨_, hbuild⟩
  refine ⟨⟨data, r.rule, some object⟩, Except.bind_eq_ok.mpr
    ⟨checked, Except.mapError_eq_ok.mpr hcheck, Except.bind_eq_ok.mpr ⟨(), hallow, ?_⟩⟩⟩
  have hviolation : (build p now c a checked id).mapError violation = .ok (data, object) :=
    Except.mapError_eq_ok.mpr hbuilt
  rw [hid]
  exact Except.bind_eq_ok.mpr ⟨(data, object), hviolation, rfl⟩

end Presign.SignedInfo
