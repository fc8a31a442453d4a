import Presign.Proofs.Xades.SignedProperties
import Presign.Proofs.Xml.Runs

/-!
# What the client claims

A client may name a time of signing and certificates of the signer in the properties of the
signature.  An update takes these claims out before it puts in what the signer vouches for, and
looks at nothing else of them.  So what it leaves is alike for every object with the same rest
(`alike_update`), and has the same identifier and the same canonical signed properties.

Where claims stood between texts, the texts are next to each other without them.  The places of the
new elements are counted in elements, so it does not matter how the text around them is cut.
-/

namespace Presign.Xades

open Xml (Element Node joinRuns xadesSpace)

/-! ## Objects without claims -/

/-- The local parts of what a client may claim. -/
def claimed : List String := [signingTime, signingCertificate, signingCertificateV2]

/-- Whether a node among the properties of the signature is a claim. -/
def isClaim (n : Node) : Bool :=
  claimed.any fun localPart => Element.isNamed xadesSpace localPart n

/-- Properties of the signature without claims. -/
def withoutClaims (e : Element) : Element :=
  ((e.removeChildren xadesSpace signingTime).removeChildren xadesSpace
    signingCertificate).removeChildren xadesSpace signingCertificateV2

/-- Properties of the signature without claims and with the texts around these joined. -/
def unclaimed (e : Element) : Element := { e with children := joinRuns (withoutClaims e).children }

/-- An object without the claims in its first properties of the signature. -/
def Object.unclaimed (o : Object) : Object where
  element := o.element.changeChild xadesSpace qualifyingProperties fun qualifying =>
    qualifying.changeChild xadesSpace signedProperties fun properties =>
      properties.changeChild xadesSpace signedSignatureProperties Xades.unclaimed
  isObject := by
    rw [Element.is, Element.name_changeChild]
    exact o.isObject
  qualifies := by
    rw [Element.findChild?_changeChild _ (fun _ => Element.name_changeChild ..), Option.isSome_map]
    exact o.qualifies

/-! ## Claims are taken out -/

theorem isClaim_of_not_element {n : Node} (h : n.element? = none) : isClaim n = false := by
  rw [isClaim, List.any_eq_false]
  intro localPart _
  rw [Element.isNamed, h]
  exact Bool.false_ne_true

/-- All claims are taken out, and nothing else. -/
theorem withoutClaims_eq (e : Element) :
    withoutClaims e = { e with children := e.children.filter fun n => !isClaim n } := by
  simp only [withoutClaims, Element.removeChildren, List.filter_filter]
  refine congrArg _ (List.filter_congr fun n _ => ?_)
  simp only [isClaim, claimed, List.any_cons, List.any_nil, Bool.or_false, Bool.not_or]
  ac_rfl

theorem isClaim_of_mem_withoutClaims {e : Element} {n : Node} (h : n ∈ (withoutClaims e).children) :
    isClaim n = false := by
  rw [withoutClaims_eq] at h
  simpa using (List.mem_filter.mp h).2

/-- Where nothing is claimed, nothing is taken out. -/
theorem withoutClaims_eq_self {e : Element} (h : ∀ n ∈ e.children, isClaim n = false) :
    withoutClaims e = e := by
  have hfilter : e.children.filter (fun n => !isClaim n) = e.children :=
    List.filter_eq_self.mpr fun n hn => by rw [h n hn]; rfl
  rw [withoutClaims_eq, hfilter]

theorem withoutClaims_unclaimed (e : Element) : withoutClaims (unclaimed e) = unclaimed e := by
  refine withoutClaims_eq_self fun n hn => ?_
  rcases Xml.mem_joinRuns hn with hn | hn
  · exact isClaim_of_mem_withoutClaims hn
  · exact isClaim_of_not_element hn

/-! ## Updates do not look at claims -/

section Update

variable (u : Update) (qualifier signatureQualifier : Option String)

namespace Update

theorem signatureProperties_eq (e : Element) :
    u.signatureProperties qualifier signatureQualifier e
      = ((withoutClaims e).insertElement 0 (u.timeElement qualifier)).insertElement 1
          (u.certificateElement qualifier signatureQualifier) := rfl

theorem alike_signatureProperties (e : Element) :
    Element.Alike (u.signatureProperties qualifier signatureQualifier (unclaimed e))
      (u.signatureProperties qualifier signatureQualifier e) := by
  refine .of_joinRuns rfl ?_
  rw [signatureProperties_eq, signatureProperties_eq, withoutClaims_unclaimed]
  simp only [Element.insertElement, Xml.joinRuns_insertIn, unclaimed, Xml.joinRuns_joinRuns]

theorem alike_signedProperties (e : Element) :
    Element.Alike
      (u.signedProperties qualifier signatureQualifier
        (e.changeChild xadesSpace signedSignatureProperties unclaimed))
      (u.signedProperties qualifier signatureQualifier e) := by
  have hnamed : (if ((e.changeChild xadesSpace signedSignatureProperties unclaimed).attribute?
        "Id").isSome then e.changeChild xadesSpace signedSignatureProperties unclaimed
      else (e.changeChild xadesSpace signedSignatureProperties unclaimed).setAttribute "Id"
        u.defaultId)
      = (if (e.attribute? "Id").isSome then e else e.setAttribute "Id" u.defaultId).changeChild
          xadesSpace signedSignatureProperties unclaimed := by
    rw [Element.attribute?_changeChild, Element.setAttribute_changeChild]
    split <;> rfl
  rw [signedProperties, hnamed]
  exact .changeOrInsert_changeChild _ _ _ _ (fun _ => rfl)
    fun c => u.alike_signatureProperties qualifier signatureQualifier c

theorem alike_qualifyingProperties (e : Element) :
    Element.Alike
      (u.qualifyingProperties signatureQualifier
        (e.changeChild xadesSpace Xades.signedProperties fun properties =>
          properties.changeChild xadesSpace signedSignatureProperties unclaimed))
      (u.qualifyingProperties signatureQualifier e) := by
  rw [qualifyingProperties, Element.setAttribute_changeChild, Element.name_changeChild]
  exact .changeOrInsert_changeChild _ _ _ _ (fun _ => Element.name_changeChild ..)
    fun c => u.alike_signedProperties _ signatureQualifier c

end Update

end Update

namespace Object

variable (o : Object)

theorem element_update (u : Update) :
    (o.update u).element = o.element.changeChild xadesSpace qualifyingProperties
      (u.qualifyingProperties o.element.name.qualifier) := rfl

/-- An update does not look at what is claimed. -/
theorem alike_update (u : Update) :
    Element.Alike (o.unclaimed.update u).element (o.update u).element := by
  have hname : o.unclaimed.element.name = o.element.name := Element.name_changeChild ..
  rw [element_update, element_update, hname]
  exact .changeChild_changeChild _ _ _ (fun _ => Element.name_changeChild ..)
    fun c => u.alike_qualifyingProperties o.element.name.qualifier c

theorem octets_update_unclaimed (u : Update) :
    (o.unclaimed.update u).octets = (o.update u).octets :=
  congrArg (fun cs => Text.encode (String.ofList cs)) (o.alike_update u).chars

/-- The canonical signed properties are found in the object as a whole. -/
theorem canonicalSignedProperties_eq :
    o.canonicalSignedProperties
      = match Element.foundText? .exclusive xadesSpace signedProperties [] [↑o.element] with
        | some text => .ok text
        | none => .error .noSignedProperties := by
  have hobject : o.element.is xadesSpace signedProperties = false := by
    have his := o.isObject
    simp only [Element.is, Xml.Name.is, Bool.and_eq_true, beq_iff_eq] at his
    rw [Element.is, Xml.Name.is, his.1]
    rfl
  rw [Element.foundText?_coe, hobject, if_neg Bool.false_ne_true, List.nil_append,
    Element.foundText?, canonicalSignedProperties, Element.findDescendant?]
  cases Element.findInNodes? xadesSpace signedProperties o.element.tag.declarations
      o.element.children with
  | none => rfl
  | some found => rfl

theorem canonicalSignedProperties_update_unclaimed (u : Update) :
    (o.unclaimed.update u).canonicalSignedProperties
      = (o.update u).canonicalSignedProperties := by
  rw [canonicalSignedProperties_eq, canonicalSignedProperties_eq, (o.alike_update u).found]

/-- Claims have no bearing on the identifier. -/
theorem id?_unclaimed : o.unclaimed.id? = o.id? := by
  have hqualifying : o.unclaimed.element.findChild? xadesSpace qualifyingProperties
      = (o.element.findChild? xadesSpace qualifyingProperties).map fun qualifying =>
          qualifying.changeChild xadesSpace Xades.signedProperties fun properties =>
            properties.changeChild xadesSpace signedSignatureProperties Xades.unclaimed :=
    Element.findChild?_changeChild _ fun _ => Element.name_changeChild ..
  rw [id?, id?, signedProperties?, signedProperties?, hqualifying]
  cases o.element.findChild? xadesSpace qualifyingProperties with
  | none => rfl
  | some qualifying =>
      have hproperties : (qualifying.changeChild xadesSpace Xades.signedProperties fun properties =>
            properties.changeChild xadesSpace signedSignatureProperties Xades.unclaimed).findChild?
              xadesSpace Xades.signedProperties
          = (qualifying.findChild? xadesSpace Xades.signedProperties).map fun properties =>
              properties.changeChild xadesSpace signedSignatureProperties Xades.unclaimed :=
        Element.findChild?_changeChild _ fun _ => Element.name_changeChild ..
      dsimp only [Option.map_some, Option.bind_eq_bind, Option.bind_some]
      rw [hproperties]
      cases qualifying.findChild? xadesSpace Xades.signedProperties with
      | none => rfl
      | some properties => exact Element.attribute?_changeChild ..

end Object

end Presign.Xades
