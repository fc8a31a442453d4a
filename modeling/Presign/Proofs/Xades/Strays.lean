import Presign.Proofs.Xades.Reference
import Presign.Proofs.Xades.Renewal

/-!
# Claims that an update does not find

An update takes claims out of the first properties of the signature, and looks for these among the
children of the signed properties only.  Signed properties may hold more properties of the
signature, beside the first or at any depth.  What those claim are strays, and a signature covers
them like all the rest.

So the claims after an update are those that the signer vouches for, and the strays
(`Update.perm_allClaims`).  They are just those of the signer exactly if there are no strays
(`Update.claimsOnly_signedProperties_iff`).
-/

namespace Presign.Xades

open Xml (Element Node Declaration IsResolved elementsIn xadesSpace signatureSpace)

/-! ## All claims -/

/-- Whether an element is properties of the signature. -/
def isSignatureProperties (found : Element × List Declaration) : Bool :=
  found.1.is xadesSpace signedSignatureProperties

/-- What the properties of the signature among nodes claim under a local part, at any depth. -/
def claimsIn (localPart : String) (inherited : List Declaration) (ns : List Node) : List Element :=
  ((elementsIn inherited ns).filter isSignatureProperties).flatMap fun found =>
    found.1.findChildren xadesSpace localPart

/-- What all properties of the signature inside of signed properties claim under a local part. -/
def allClaims (localPart : String) (properties : Element) : List Element :=
  (properties.descendants.filter isSignatureProperties).flatMap fun found =>
    found.1.findChildren xadesSpace localPart

/-- The claims in signed properties but for those in the first properties of the signature. -/
def strays (localPart : String) (properties : Element) : List Element :=
  allClaims localPart (properties.changeChild xadesSpace signedSignatureProperties withoutClaims)

/-- The strays in the signed properties that an update edits. -/
def Object.strays (o : Object) : List Element :=
  claimed.flatMap fun localPart => Xades.strays localPart o.propertiesToEdit

section Claims

variable {localPart : String} {inherited : List Declaration}

theorem claimsIn_append (ns ms : List Node) :
    claimsIn localPart inherited (ns ++ ms)
      = claimsIn localPart inherited ns ++ claimsIn localPart inherited ms := by
  rw [claimsIn, Xml.elementsIn_append, List.filter_append, List.flatMap_append]
  rfl

/-- What properties of the signature claim comes before what is claimed inside of them. -/
theorem claimsIn_coe_cons_of_pos {e : Element}
    (h : e.is xadesSpace signedSignatureProperties = true) (ns : List Node) :
    claimsIn localPart inherited (↑e :: ns)
      = e.findChildren xadesSpace localPart ++
        (claimsIn localPart (inherited ++ e.tag.declarations) e.children ++
          claimsIn localPart inherited ns) := by
  rw [claimsIn, Xml.elementsIn_coe_cons, List.filter_cons_of_pos (by exact h), List.flatMap_cons,
    List.filter_append, List.flatMap_append]
  rfl

theorem claimsIn_coe_cons_of_neg {e : Element}
    (h : e.is xadesSpace signedSignatureProperties = false) (ns : List Node) :
    claimsIn localPart inherited (↑e :: ns)
      = claimsIn localPart (inherited ++ e.tag.declarations) e.children ++
          claimsIn localPart inherited ns := by
  have hneg : ¬ isSignatureProperties (e, inherited) = true := by
    rw [isSignatureProperties, h]
    exact Bool.false_ne_true
  rw [claimsIn, Xml.elementsIn_coe_cons, List.filter_cons_of_neg hneg, List.filter_append,
    List.flatMap_append]
  rfl

/-- An element without properties of the signature in it adds no claims. -/
theorem claimsIn_insertIn {c : Element} (hc : ∀ inherited, claimsIn localPart inherited [↑c] = [])
    (i : Nat) (ns : List Node) :
    claimsIn localPart inherited (Element.insertIn c i ns) = claimsIn localPart inherited ns := by
  have hcons (n : Node) (ms : List Node) : claimsIn localPart inherited (n :: ms)
      = claimsIn localPart inherited [n] ++ claimsIn localPart inherited ms :=
    claimsIn_append [n] ms
  induction ns generalizing i with
  | nil => exact hc inherited
  | cons n ns ih =>
      cases he : n.element? with
      | none =>
          simp only [Element.insertIn, he]
          rw [hcons, ih, ← hcons]
      | some d =>
          cases i with
          | zero =>
              simp only [Element.insertIn, he]
              rw [hcons, hc, List.nil_append]
          | succ i =>
              simp only [Element.insertIn, he]
              rw [hcons, ih, ← hcons]

theorem allClaims_eq (e : Element) :
    allClaims localPart e = claimsIn localPart e.tag.declarations e.children := rfl

/-- Attributes make no claims. -/
theorem allClaims_setAttribute (e : Element) (key value : String) :
    allClaims localPart (e.setAttribute key value) = allClaims localPart e := rfl

/-- Joining texts joins them in the claims, and makes no others. -/
theorem allClaims_joined (e : Element) :
    allClaims localPart e.joined = (allClaims localPart e).map Element.joined := by
  have hdescendants : e.joined.descendants
      = e.descendants.map fun found => (found.1.joined, found.2) :=
    Xml.elementsIn_joinFrom e.children "" e.tag.declarations
  rw [allClaims, allClaims, hdescendants, List.filter_map, List.flatMap_map, List.map_flatMap]
  exact congrArg (List.flatMap · _) (funext fun found => found.1.findChildren_joined ..)

theorem findChildren_withoutClaims (h : localPart ∈ claimed) (e : Element) :
    (withoutClaims e).findChildren xadesSpace localPart = [] := by
  refine List.filter_eq_nil_iff.mpr fun c hc his => ?_
  have hclaim := isClaim_of_mem_withoutClaims (Element.mem_of_mem_childElements hc)
  rw [isClaim_of_is h his] at hclaim
  cases hclaim

end Claims

/-! ## Elements without properties of the signature -/

/-- An element that is no properties of the signature and has none inside. -/
structure LacksSignatureProperties (e : Element) : Prop where
  name : e.is xadesSpace signedSignatureProperties = false
  inside : ∀ inherited, ∀ found ∈ elementsIn inherited e.children,
    isSignatureProperties found = false

namespace LacksSignatureProperties

variable {e c : Element}

theorem within {localPart : String} (h : localPart ≠ signedSignatureProperties) (space : String)
    (qualifier : Option String) : LacksSignatureProperties (.within space qualifier localPart) where
  name := Element.is_within_of_ne h ..
  inside := by
    rw [Xml.children_within]
    exact fun inherited found hfound => by cases hfound

theorem setAttribute (h : LacksSignatureProperties e) (key value : String) :
    LacksSignatureProperties (e.setAttribute key value) :=
  ⟨h.name, h.inside⟩

theorem addText (h : LacksSignatureProperties e) (s : String) :
    LacksSignatureProperties (e.addText s) where
  name := h.name
  inside := by
    intro inherited found hfound
    rw [Element.addText, Element.push, Xml.elementsIn_append] at hfound
    rcases List.mem_append.mp hfound with hfound | hfound
    · exact h.inside inherited found hfound
    · cases hfound

theorem push (h : LacksSignatureProperties e) (hc : LacksSignatureProperties c) :
    LacksSignatureProperties (e.push c) where
  name := h.name
  inside := by
    intro inherited found hfound
    rw [Element.push, Xml.elementsIn_append, Xml.elementsIn_coe_cons] at hfound
    rcases List.mem_append.mp hfound with hfound | hfound
    · exact h.inside inherited found hfound
    · rcases List.mem_cons.mp hfound with rfl | hfound
      · exact hc.name
      · exact hc.inside _ found (List.append_nil _ ▸ hfound)

/-- Such an element adds no claims. -/
theorem claimsIn_eq_nil (h : LacksSignatureProperties e) (localPart : String)
    (inherited : List Declaration) : claimsIn localPart inherited [↑e] = [] := by
  have hinside : (elementsIn (inherited ++ e.tag.declarations) e.children).filter
      isSignatureProperties = [] :=
    List.filter_eq_nil_iff.mpr fun found hfound => Bool.eq_false_iff.mp (h.inside _ found hfound)
  rw [claimsIn_coe_cons_of_neg h.name, claimsIn, hinside]
  rfl

end LacksSignatureProperties

/-! ## Claims of the signer -/

/-- Signed properties that claim one time and refer to one certificate, in the form of version 2,
and claim nothing else, whichever properties of the signature in them do so. -/
structure ClaimsOnly (time : Time.Instant) (m : DigestMethod) (digest : Octets)
    (properties : Element) : Prop where
  time : ∃ e, allClaims signingTime properties = [e] ∧ e.text = Time.Rfc3339.render time
  lacksV1 : allClaims signingCertificate properties = []
  certificate : ∃ e, allClaims signingCertificateV2 properties = [e] ∧ RefersTo m digest e

section Joined

variable {m : DigestMethod} {digest : Octets} {e : Element}

/-- Joining texts does not change what is claimed. -/
theorem claimsOnly_joined_iff {time : Time.Instant} :
    ClaimsOnly time m digest e.joined ↔ ClaimsOnly time m digest e := by
  constructor
  · rintro ⟨⟨_, htime, htext⟩, hlacks, ⟨_, hcertificate, hrefers⟩⟩
    rw [allClaims_joined, List.map_eq_singleton_iff] at htime hcertificate
    obtain ⟨c, htime, rfl⟩ := htime
    obtain ⟨d, hcertificate, rfl⟩ := hcertificate
    rw [allClaims_joined, List.map_eq_nil_iff] at hlacks
    exact ⟨⟨c, htime, c.text_joined.symm.trans htext⟩, hlacks,
      ⟨d, hcertificate, refersTo_joined_iff.mp hrefers⟩⟩
  · rintro ⟨⟨c, htime, htext⟩, hlacks, ⟨d, hcertificate, hrefers⟩⟩
    refine ⟨⟨c.joined, ?_, c.text_joined.trans htext⟩, ?_,
      ⟨d.joined, ?_, refersTo_joined_iff.mpr hrefers⟩⟩
    · rw [allClaims_joined, htime, List.map_singleton]
    · rw [allClaims_joined, hlacks, List.map_nil]
    · rw [allClaims_joined, hcertificate, List.map_singleton]

end Joined

/-! ## After an update -/

namespace Update

variable (u : Update) (qualifier signatureQualifier : Option String) {localPart : String}

theorem lacks_timeElement : LacksSignatureProperties (u.timeElement qualifier) :=
  .addText (.within (by decide) _ _) _

theorem lacks_certificateElement :
    LacksSignatureProperties (u.certificateElement qualifier signatureQualifier) := by
  have hdigest : LacksSignatureProperties (u.digestElement qualifier signatureQualifier) :=
    .push (.push (.within (by decide) _ _) (.setAttribute (.within (by decide) _ _) _ _))
      (.addText (.within (by decide) _ _) _)
  have hcert : LacksSignatureProperties ((Element.within xadesSpace qualifier "Cert").push
      (u.digestElement qualifier signatureQualifier)) := .push (.within (by decide) _ _) hdigest
  obtain ⟨cert, heq, hcases⟩ := u.certificateElement_cases qualifier signatureQualifier
  rw [heq]
  refine .push (.within (by decide) _ _) ?_
  rcases hcases with rfl | ⟨text, rfl⟩
  · exact hcert
  · exact .push hcert (.addText (.within (by decide) _ _) _)

/-- Inside of the properties of the signature, an update adds no claims. -/
theorem claimsIn_signatureProperties (inherited : List Declaration) (e : Element) :
    claimsIn localPart inherited (u.signatureProperties qualifier signatureQualifier e).children
      = claimsIn localPart inherited (withoutClaims e).children := by
  rw [signatureProperties_eq, Element.insertElement, claimsIn_insertIn fun _ =>
    (u.lacks_certificateElement qualifier signatureQualifier).claimsIn_eq_nil localPart _,
    Element.insertElement, claimsIn_insertIn fun _ =>
      (u.lacks_timeElement qualifier).claimsIn_eq_nil localPart _]

theorem allClaims_signedProperties (e : Element) :
    allClaims localPart (u.signedProperties qualifier signatureQualifier e)
      = allClaims localPart (e.changeOrInsert xadesSpace signedSignatureProperties
          (.within xadesSpace qualifier signedSignatureProperties)
          (u.signatureProperties qualifier signatureQualifier)) := by
  unfold signedProperties
  dsimp only
  split
  · rfl
  · rw [← Element.setAttribute_changeOrInsert, allClaims_setAttribute]

/-- The claims after an update are those of the signer and the strays, in some order. -/
theorem perm_allClaims (h : localPart ∈ claimed) (e : Element) :
    (allClaims localPart (u.signedProperties qualifier signatureQualifier e)).Perm
      ((u.signatureProperties qualifier signatureQualifier
          (signaturePropertiesToEdit qualifier e)).findChildren xadesSpace localPart ++
        strays localPart e) := by
  have his {c : Element} (hc : c.is xadesSpace signedSignatureProperties = true) :
      (u.signatureProperties qualifier signatureQualifier c).is xadesSpace
        signedSignatureProperties = true := hc
  rw [allClaims_signedProperties, strays, allClaims_eq, allClaims_eq, Element.tag_changeOrInsert,
    Element.tag_changeChild]
  rcases e.changeOrInsert_cases xadesSpace signedSignatureProperties
    (.within xadesSpace qualifier signedSignatureProperties)
    (u.signatureProperties qualifier signatureQualifier) with ⟨p, hp⟩ | ⟨hnone, hp⟩
  · -- the claims in the first properties of the signature give way to those of the signer
    have hfound : e.findChild? xadesSpace signedSignatureProperties = some p.element := p.find?
    have hkeeps : (withoutClaims p.element).is xadesSpace signedSignatureProperties = true :=
      p.holds
    rw [hp, Element.changeChild_eq p, claimsIn_append, claimsIn_append,
      claimsIn_coe_cons_of_pos (his p.holds), claimsIn_coe_cons_of_pos hkeeps,
      findChildren_withoutClaims h, claimsIn_signatureProperties, signaturePropertiesToEdit, hfound,
      List.nil_append]
    exact List.perm_append_comm_assoc ..
  · have hfound : e.findChild? xadesSpace signedSignatureProperties = none :=
      Xml.find?_of_noElement hnone
    have hempty : (withoutClaims (.within xadesSpace qualifier signedSignatureProperties)).children
        = [] := by
      rw [withoutClaims_eq, Xml.children_within, List.filter_nil]
    obtain ⟨before, after, hchildren, hinsert, -⟩ := Element.insertIn_zero
      (u.signatureProperties qualifier signatureQualifier
        (.within xadesSpace qualifier signedSignatureProperties)) e.children
    rw [hp, Element.changeChild_of_noElement hnone, Element.insertElement, hinsert, hchildren,
      claimsIn_append, claimsIn_append, claimsIn_coe_cons_of_pos (his (Element.is_within ..)),
      claimsIn_signatureProperties, hempty, signaturePropertiesToEdit, hfound]
    exact List.perm_append_comm_assoc ..

/-- Updated signed properties claim what the signer vouches for and nothing else, exactly if there
are no strays. -/
theorem claimsOnly_signedProperties_iff (e : Element) :
    ClaimsOnly u.time u.method u.certificateDigest
        (u.signedProperties qualifier signatureQualifier e)
      ↔ ∀ localPart ∈ claimed, strays localPart e = [] := by
  obtain ⟨htime, hcertificate⟩ := u.findChildren_signatureProperties qualifier signatureQualifier
    (signaturePropertiesToEdit qualifier e)
  have hlacks : (u.signatureProperties qualifier signatureQualifier
      (signaturePropertiesToEdit qualifier e)).findChildren xadesSpace signingCertificate = [] :=
    List.filter_eq_nil_iff.mpr (List.find?_eq_none.mp (u.findChild?_signatureProperties ..).2)
  have hmem : signingTime ∈ claimed ∧ signingCertificate ∈ claimed ∧
      signingCertificateV2 ∈ claimed := by decide
  have htimes := u.perm_allClaims qualifier signatureQualifier hmem.1 e
  have hlegacy := u.perm_allClaims qualifier signatureQualifier hmem.2.1 e
  have hcertificates := u.perm_allClaims qualifier signatureQualifier hmem.2.2 e
  rw [htime] at htimes
  rw [hlacks] at hlegacy
  rw [hcertificate] at hcertificates
  constructor
  · rintro ⟨⟨_, hone, -⟩, hnone, ⟨_, hone', -⟩⟩ localPart h
    rw [hone] at htimes
    rw [hnone] at hlegacy
    rw [hone'] at hcertificates
    simp only [claimed, List.mem_cons, List.not_mem_nil, or_false] at h
    rcases h with rfl | rfl | rfl
    · exact List.eq_nil_of_length_eq_zero (by simpa using htimes.length_eq)
    · exact List.nil_perm.mp hlegacy
    · exact List.eq_nil_of_length_eq_zero (by simpa using hcertificates.length_eq)
  · intro h
    rw [h _ hmem.1, List.append_nil] at htimes
    rw [h _ hmem.2.1, List.append_nil] at hlegacy
    rw [h _ hmem.2.2, List.append_nil] at hcertificates
    exact ⟨⟨_, List.perm_singleton.mp htimes, u.text_timeElement qualifier⟩, hlegacy.eq_nil,
      ⟨_, List.perm_singleton.mp hcertificates,
        u.refersTo_certificateElement qualifier signatureQualifier⟩⟩

end Update

/-! ## Objects -/

namespace Object

variable (o : Object)

theorem strays_eq_nil_iff :
    o.strays = [] ↔ ∀ localPart ∈ claimed, Xades.strays localPart o.propertiesToEdit = [] :=
  List.flatMap_eq_nil_iff

/-- Updated signed properties claim just what the signer vouches for, exactly if there are no
strays. -/
theorem claimsOnly_update_iff (u : Update) :
    ClaimsOnly u.time u.method u.certificateDigest
        (u.signedProperties o.qualifier o.element.name.qualifier o.propertiesToEdit)
      ↔ o.strays = [] := by
  rw [o.strays_eq_nil_iff, Update.claimsOnly_signedProperties_iff]

theorem signedProperties?_update (u : Update) :
    (o.update u).signedProperties?
      = some (u.signedProperties o.qualifier o.element.name.qualifier o.propertiesToEdit) := by
  obtain ⟨p, hp⟩ := o.exists_edited u
  rw [signedProperties?_of_place _ p, hp.element]

/-- Signed properties are found by a search, if no others come before them. -/
theorem findDescendant?_of_signedProperties? {o : Object} {e : Element}
    (h : o.signedProperties? = some e) (hearlier : o.earlierProperties? = none) :
    ∃ inherited, o.element.findDescendant? xadesSpace signedProperties = some (e, inherited) := by
  obtain ⟨outer, houter⟩ := Xml.exists_firstElement o.findChild?_qualifying
  rw [o.signedProperties?_eq, ← houter] at h
  obtain ⟨inner, rfl⟩ := Xml.exists_firstElement h
  let p : Place o.element := ⟨outer, inner⟩
  refine ⟨p.inherited, ?_⟩
  rw [p.findDescendant?_eq, ← o.earlierProperties?_of_place p, hearlier]
  rfl

theorem earlierProperties?_update (u : Update) :
    (o.update u).earlierProperties? = o.earlierProperties? := by
  obtain ⟨p, hp⟩ := o.exists_edited u
  rw [earlierProperties?_of_place _ p, hp.earlier]

/-- If an object held no signed properties but those that an update edits, a search in the updated
object finds these. -/
theorem exists_findDescendant?_update (u : Update)
    (h : o.element.descendants.countP isSignedProperties
      = if o.signedProperties?.isSome then 1 else 0) :
    ∃ inherited, (o.update u).element.findDescendant? xadesSpace signedProperties
      = some (u.signedProperties o.qualifier o.element.name.qualifier o.propertiesToEdit,
          inherited) :=
  findDescendant?_of_signedProperties? (o.signedProperties?_update u)
    ((o.earlierProperties?_update u).trans (earlierProperties?_eq_none h))

/-- Properties of the signature that claim a time and a certificate. -/
def claimingProperties : Element :=
  ((Element.within xadesSpace (some "xades") signedSignatureProperties).push
    ((Element.within xadesSpace (some "xades") signingTime).addText "2022-06-08T21:36:54Z")).push
    ((Element.within xadesSpace (some "xades") signingCertificate).addText "?")

/-- An object in which the first properties of the signature are empty, and others follow. -/
def straying : Object where
  element :=
    let properties := ((Element.within xadesSpace (some "xades") signedProperties).push
      (Element.within xadesSpace (some "xades") signedSignatureProperties)).push claimingProperties
    let qualifying := ((Element.bare (some "xades") qualifyingProperties
      (some xadesSpace)).declare (some "xades") xadesSpace).push properties
    ((Element.bare (some "ds") "Object" (some signatureSpace)).declare (some "ds")
      signatureSpace).push qualifying
  isObject := by rfl
  qualifies := by rfl

theorem straying_isResolved : straying.element.AllHold IsResolved [] := by
  have hgives : Xml.Scope.Gives [[⟨some "xades", xadesSpace⟩], [⟨some "ds", signatureSpace⟩]]
      (some "xades") xadesSpace := Xml.gives_declared (by decide) (by decide)
  have hwithin {scope : Xml.Scope} {localPart : String} (hl : Xml.IsNamePart localPart)
      (h : scope.Gives (some "xades") xadesSpace) :
      (Element.within xadesSpace (some "xades") localPart).AllHold IsResolved scope :=
    Element.allHold_within (by decide) (by decide) hl h
  have hclaiming {scope : Xml.Scope} (h : scope.Gives (some "xades") xadesSpace) :
      claimingProperties.AllHold IsResolved scope :=
    ((hwithin (by decide) h).push ((hwithin (by decide) (Xml.gives_within_iff.mpr h)).addText
      _)).push ((hwithin (by decide) (Xml.gives_within_iff.mpr h)).addText _)
  have hproperties := ((hwithin (show Xml.IsNamePart signedProperties by decide) hgives).push
    (hwithin (show Xml.IsNamePart signedSignatureProperties by decide)
      (Xml.gives_within_iff.mpr hgives))).push (hclaiming (Xml.gives_within_iff.mpr hgives))
  exact (Element.allHold_declared (by decide) (by decide) (by decide) (by decide)).push
    ((Element.allHold_declared (by decide) (by decide) (by decide) (by decide)).push hproperties)

/-- What is read of an updated `straying` claims two times, and still refers to the certificate in
the form of version 1. -/
theorem Follows.claims_straying {u : Update} {o : Object} (h : straying.Follows u o) :
    ∃ properties, o.signedProperties? = some properties ∧
      (allClaims signingTime properties).length = 2 ∧
      allClaims signingCertificate properties ≠ [] := by
  obtain ⟨htime, -⟩ := u.findChildren_signatureProperties straying.qualifier
    straying.element.name.qualifier
    (Update.signaturePropertiesToEdit straying.qualifier straying.propertiesToEdit)
  have htimes := u.perm_allClaims straying.qualifier straying.element.name.qualifier
    (show signingTime ∈ claimed by decide) straying.propertiesToEdit
  have hlegacy := u.perm_allClaims straying.qualifier straying.element.name.qualifier
    (show signingCertificate ∈ claimed by decide) straying.propertiesToEdit
  have hstray : (Xades.strays signingTime straying.propertiesToEdit).length = 1 ∧
      Xades.strays signingCertificate straying.propertiesToEdit ≠ [] := by decide +kernel
  refine ⟨_, h.properties, ?_, fun hnone => ?_⟩
  · rw [allClaims_joined, List.length_map, htimes.length_eq, htime, List.length_append, hstray.1]
    rfl
  · rw [allClaims_joined, List.map_eq_nil_iff] at hnone
    rw [hnone] at hlegacy
    exact hstray.2 (List.append_eq_nil_iff.mp (List.nil_perm.mp hlegacy)).2

end Object

end Presign.Xades
