import Presign.Proofs.Xades.Strays
import Presign.Proofs.Xml.Frame

/-!
# What an update leaves alone

An update sets the target of the first qualifying properties.  In the first signed properties it
adds an identifier, if there is none.  In the first properties of the signature it replaces the
claims of the client by the time and the certificate.  Signed properties and properties of the
signature that are missing are created as empty elements before it edits them, and stand before the
other elements around them.  Everything else stays as it is, in its order (`Object.IsUpdate`).

Of the updated object, the same is read that the update was given: the identifier, the target, and a
certificate in the form of version 2 (`Object.update_frame`).  The time is read as a clock shows it,
to the millisecond.  So a time in a leap second that is out of place is read as a later one, and text
in front of the elements stays in front of those that are created (`Object.update_spaced_displaced`).
-/

namespace Presign.Xades

open Xml (Element Node signatureSpace xadesSpace)
open Xml.Element (DiffersIn)

variable (u : Update) (qualifier signatureQualifier : Option String)

/-! ## What an update does to each element -/

namespace Update

/-- Properties of the signature after an update.  The time and the certificate come first, and all
claims are gone. -/
def RenewsSignature : Element → Element → Prop :=
  DiffersIn Eq fun ns => Xml.PutsFirst
    [↑(u.timeElement qualifier), ↑(u.certificateElement qualifier signatureQualifier)]
    (ns.filter fun n => !isClaim n)

/-- Signed properties after an update.  They have an identifier, and their first properties of the
signature are updated. -/
def RenewsSigned : Element → Element → Prop :=
  DiffersIn (Xml.AddsAttribute "Id" u.defaultId)
    (Xml.ChangesOrCreates (fun c => c.is xadesSpace signedSignatureProperties)
      (.within xadesSpace qualifier signedSignatureProperties)
      (u.RenewsSignature qualifier signatureQualifier))

/-- Qualifying properties after an update.  They have a target, and their first signed properties
are updated. -/
def RenewsQualifying (old : Element) : Element → Prop :=
  DiffersIn (Xml.SetsAttribute "Target" ("#" ++ u.signatureId))
    (Xml.ChangesOrCreates (fun c => c.is xadesSpace Xades.signedProperties)
      (.within xadesSpace old.name.qualifier Xades.signedProperties)
      (u.RenewsSigned old.name.qualifier signatureQualifier)) old

theorem renewsSignature (e : Element) :
    u.RenewsSignature qualifier signatureQualifier e
      (u.signatureProperties qualifier signatureQualifier e) where
  name := rfl
  declarations := rfl
  attributes := rfl
  children := by
    rw [u.signatureProperties_eq, withoutClaims_eq]
    exact Xml.putsFirst_insertIn_insertIn ..

theorem renewsSigned (e : Element) :
    u.RenewsSigned qualifier signatureQualifier e
      (u.signedProperties qualifier signatureQualifier e) := by
  have hnamed : DiffersIn (Xml.AddsAttribute "Id" u.defaultId) Eq e
      (if (e.attribute? "Id").isSome then e else e.setAttribute "Id" u.defaultId) := by
    refine ⟨?_, ?_, Xml.addsAttribute_setAttribute e "Id" u.defaultId, ?_⟩
    all_goals split <;> rfl
  exact hnamed.changeOrInsert xadesSpace signedSignatureProperties _
    (u.renewsSignature qualifier signatureQualifier)

theorem renewsQualifying (e : Element) :
    u.RenewsQualifying signatureQualifier e (u.qualifyingProperties signatureQualifier e) := by
  have htarget : DiffersIn (Xml.SetsAttribute "Target" ("#" ++ u.signatureId)) Eq e
      (e.setAttribute "Target" ("#" ++ u.signatureId)) :=
    ⟨rfl, rfl, Xml.setsAttribute_setIn .., rfl⟩
  exact htarget.changeOrInsert xadesSpace Xades.signedProperties _
    (u.renewsSigned e.name.qualifier signatureQualifier)

end Update

/-! ## Objects -/

namespace Object

variable (o : Object)

/-- The root element of an object after an update.  Its first qualifying properties are updated. -/
def IsUpdate : Element → Prop :=
  DiffersIn Eq (Xml.ChangesFirst (fun c => c.is xadesSpace qualifyingProperties)
    (u.RenewsQualifying o.element.name.qualifier)) o.element

theorem isUpdate_update : o.IsUpdate u (o.update u).element := by
  obtain ⟨q, hqualifying, hq⟩ := o.exists_update_eq u
  rw [hq, ← hqualifying]
  exact ⟨rfl, rfl, rfl, q.changesFirst (u.renewsQualifying o.element.name.qualifier q.element)⟩

theorem qualifying_update : (o.update u).qualifying
    = u.qualifyingProperties o.element.name.qualifier o.qualifying := by
  have hfound : (o.update u).element.findChild? xadesSpace qualifyingProperties
      = some (u.qualifyingProperties o.element.name.qualifier o.qualifying) := by
    rw [element_update, Element.findChild?_changeChild _ (u.name_qualifyingProperties _),
      o.findChild?_qualifying, Option.map_some]
  exact Option.some.inj ((o.update u).findChild?_qualifying.symm.trans hfound)

theorem id?_update : (o.update u).id? = some (o.idAfter u) := by
  rw [id?, o.signedProperties?_update]
  change (u.signedProperties o.qualifier o.element.name.qualifier o.propertiesToEdit).attribute?
    "Id" = _
  rw [Update.attribute?_signedProperties, attribute?_propertiesToEdit]
  rfl

theorem signatureProperties?_update : (o.update u).signatureProperties?
    = some (u.signatureProperties o.qualifier o.element.name.qualifier
        (Update.signaturePropertiesToEdit o.qualifier o.propertiesToEdit)) := by
  rw [signatureProperties?, o.signedProperties?_update]
  exact u.findChild?_signedProperties ..

theorem hasSigningCertificateV1_update : (o.update u).hasSigningCertificateV1 = false := by
  rw [hasSigningCertificateV1, o.signatureProperties?_update, Option.any_some,
    (u.findChild?_signatureProperties _ _ _).2]
  rfl

theorem attribute?_target_update :
    (o.update u).qualifying.attribute? "Target" = some ("#" ++ u.signatureId) := by
  rw [qualifying_update, Update.qualifyingProperties, Element.attribute?,
    Element.tag_changeOrInsert]
  exact Element.attribute?_setAttribute ..

/-- The time that a clock shows of an update is claimed in milliseconds, in a leap second as
well. -/
theorem signingTime?_update (hyear : 0 ≤ (Time.Reading.ofInstant u.time).date.year ∧
    (Time.Reading.ofInstant u.time).date.year ≤ 9999) :
    (o.update u).signingTime? = .ok (some u.time.shown.inMillis) := by
  refine signingTime?_of_text (e := u.timeElement o.qualifier) ?_ (u.text_timeElement o.qualifier)
    hyear
  rw [o.signatureProperties?_update, Option.bind_some, (u.findChild?_signatureProperties _ _ _).1]

/-- Of an updated object, the same is read that the update was given.  The identifier is the one
that there was, or else the default.  The time and the certificate are the first elements of the
properties of the signature, and there is no certificate in the form of version 1.  Everything else
is as it was, but for the target and for what was created.

In the years from 0 to 9999, the time is the one that a clock shows, without what is below a
millisecond.  It is the time of the update exactly if that is not in a leap second out of place. -/
theorem update_frame :
    (o.update u).id? = some (o.idAfter u) ∧ o.idAfter u = o.id?.getD u.defaultId ∧
    (0 ≤ (Time.Reading.ofInstant u.time).date.year →
      (Time.Reading.ofInstant u.time).date.year ≤ 9999 →
      (o.update u).signingTime? = .ok (some u.time.shown.inMillis) ∧
      ((o.update u).signingTime? = .ok (some u.time.inMillis) ↔ u.time.IsPlaced)) ∧
    (o.update u).hasSigningCertificateV1 = false ∧
    (o.update u).signatureProperties?.map (fun e => e.childElements.take 2)
      = some [u.timeElement o.qualifier,
          u.certificateElement o.qualifier o.element.name.qualifier] ∧
    (o.update u).qualifying.attribute? "Target" = some ("#" ++ u.signatureId) ∧
    o.IsUpdate u (o.update u).element := by
  refine ⟨o.id?_update u, rfl, fun hfirst hlast => ?_, o.hasSigningCertificateV1_update u, ?_,
    o.attribute?_target_update u, o.isUpdate_update u⟩
  · have htime := o.signingTime?_update u ⟨hfirst, hlast⟩
    refine ⟨htime, ?_⟩
    rw [htime, Except.ok.injEq, Option.some.injEq, Time.Instant.inMillis_shown_iff]
  · rw [o.signatureProperties?_update, Option.map_some, Update.childElements_signatureProperties]
    rfl

/-- An update in the last leap second of 2016. -/
def leapUpdate : Update where
  signatureId := "sig"
  defaultId := "xades-sig"
  time := ⟨1483228799, 1999999999, by decide⟩
  method := .sha256
  certificateDigest := [7]
  issuerSerial := none

/-- For example, the leap second is read of an updated `straying`, to the millisecond. -/
theorem update_frame_straying :
    (straying.update leapUpdate).id? = some "xades-sig" ∧
    (straying.update leapUpdate).signingTime?
      = .ok (some ⟨1483228799, 1999000000, by decide⟩) ∧
    straying.IsUpdate leapUpdate (straying.update leapUpdate).element := by
  obtain ⟨hid, hafter, htime, -, -, -, hframe⟩ := straying.update_frame leapUpdate
  have hplaced : leapUpdate.time.IsPlaced := by decide
  refine ⟨hid.trans ?_, (htime (by decide +kernel) (by decide +kernel)).2.mpr hplaced, hframe⟩
  rw [hafter]
  rfl

/-- An object without signed properties, with a line break where they belong. -/
def spaced : Object where
  element :=
    ((Element.bare (some "ds") "Object" (some signatureSpace)).declare (some "ds")
      signatureSpace).push (((Element.bare (some "xades") qualifyingProperties
        (some xadesSpace)).declare (some "xades") xadesSpace).addText "\n")
  isObject := by rfl
  qualifies := by rfl

/-- An update in a leap second that is out of place. -/
def displacedUpdate : Update := { leapUpdate with time := .displaced }

/-- A time in a leap second that is out of place is read as a later one.  Signed properties that are
created stand behind the text in front of the elements. -/
theorem update_spaced_displaced :
    0 ≤ (Time.Reading.ofInstant displacedUpdate.time).date.year ∧
    (Time.Reading.ofInstant displacedUpdate.time).date.year ≤ 9999 ∧
    (spaced.update displacedUpdate).signingTime?
      = .ok (some ⟨1654724215, 500000000, by decide⟩) ∧
    (spaced.update displacedUpdate).signingTime? ≠ .ok (some displacedUpdate.time.inMillis) ∧
    spaced.signedProperties? = none ∧
    ∃ created, (spaced.update displacedUpdate).signedProperties? = some created ∧
      (spaced.update displacedUpdate).qualifying.children = [.text "\n", ↑created] := by
  have hyear : 0 ≤ (Time.Reading.ofInstant displacedUpdate.time).date.year ∧
      (Time.Reading.ofInstant displacedUpdate.time).date.year ≤ 9999 := by decide +kernel
  have htime : (spaced.update displacedUpdate).signingTime?
      = .ok (some ⟨1654724215, 500000000, by decide⟩) := spaced.signingTime?_update _ hyear
  refine ⟨hyear.1, hyear.2, htime, ?_, by rfl, _, spaced.signedProperties?_update _, by rfl⟩
  rw [htime]
  decide

end Object

end Presign.Xades
