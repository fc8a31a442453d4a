import Presign.Proofs.Time.Rfc3339
import Presign.Proofs.Xades.Claims
import Presign.Proofs.Xades.Reread
import Presign.Proofs.Xml.Replacement

/-!
# Updating an object again

An updated object has an identifier, a time and a certificate.  An update of what is read of it
keeps the identifier, and takes the time and the certificate out to put the same in again, in the
same place.  So the canonical signed properties are the same
(`Object.Follows.canonicalSignedProperties_renew`), although texts are joined where they were not before.

An update renews another one if it puts in the same elements.  Their default identifiers may differ
(`Update.Renews`).
-/

namespace Presign.Xades

open Xml (Element Node Scope FirstElement CanonicalMethod Bindings IsResolved xadesSpace
  signatureSpace)

/-! ## Properties of the signature -/

/-- Whether a node is a claim does not change when texts are joined inside of it. -/
theorem isClaim_joined (n : Node) : isClaim n.joined = isClaim n := by
  cases n <;> rfl

theorem isClaim_of_is {c : Element} {localPart : String} (h : localPart ∈ claimed)
    (hc : c.is xadesSpace localPart = true) : isClaim c = true :=
  List.any_eq_true.mpr ⟨localPart, h, hc⟩

/-- Joining texts makes no claims. -/
theorem isClaim_of_mem_joinFrom {s : String} {ns : List Node} (h : ∀ n ∈ ns, isClaim n = false) :
    ∀ n ∈ Xml.joinFrom s ns, isClaim n = false := by
  intro n hn
  cases hc : n.element? with
  | none => exact isClaim_of_not_element hc
  | some c =>
      obtain ⟨d, hd, rfl⟩ := Xml.exists_of_mem_joinFrom hn hc
      rw [Node.eq_coe_of_element? hc]
      exact (isClaim_joined d).trans (h _ hd)

namespace Update

variable {u u' : Update} {m : CanonicalMethod} {qualifier signatureQualifier : Option String}

theorem text_timeElement (u : Update) (qualifier : Option String) :
    (u.timeElement qualifier).text = Time.Rfc3339.render u.time := Xml.text_addText_within ..

/-- An update puts in the same elements as another one. -/
structure Renews (u' u : Update) : Prop where
  time : u'.time = u.time
  method : u'.method = u.method
  certificateDigest : u'.certificateDigest = u.certificateDigest
  issuerSerial : u'.issuerSerial = u.issuerSerial

theorem Renews.signatureProperties_eq (h : u'.Renews u) :
    u'.signatureProperties qualifier signatureQualifier
      = u.signatureProperties qualifier signatureQualifier := by
  obtain ⟨htime, hmethod, hdigest, hserial⟩ := h
  funext e
  rw [signatureProperties, signatureProperties, timeElement, timeElement, certificateElement,
    certificateElement, htime, hmethod, hdigest, hserial]

section SignatureProperties

variable (u qualifier signatureQualifier) {e : Element} {before after : List Node}

/-- The time and the certificate come where what is left is parted. -/
theorem children_signatureProperties (hsplit : (withoutClaims e).children = before ++ after)
    (h : Element.Leading before after) :
    (u.signatureProperties qualifier signatureQualifier e).children
      = before ++ ↑(u.timeElement qualifier) ::
        ↑(u.certificateElement qualifier signatureQualifier) :: after := by
  rw [signatureProperties_eq]
  simp only [Element.insertElement, hsplit, h.insertIn_zero, h.insertIn_one]

theorem children_signatureProperties_joined
    (hsplit : (withoutClaims e).children = before ++ after) (h : Element.Leading before after) :
    (u.signatureProperties qualifier signatureQualifier e).joined.children
      = Xml.joinFrom "" before ++ ↑(u.timeElement qualifier).joined ::
        ↑(u.certificateElement qualifier signatureQualifier).joined :: Xml.joinFrom "" after := by
  have hnext := Xml.joinFrom_append_coe "" [] (u.certificateElement qualifier signatureQualifier)
    after
  rw [Element.joined, children_signatureProperties u qualifier signatureQualifier hsplit h,
    Xml.joinFrom_append_coe, ← List.nil_append (_ :: after), hnext]
  rfl

/-- Just the time and the certificate are taken out again. -/
theorem withoutClaims_joined (hsplit : (withoutClaims e).children = before ++ after)
    (h : Element.Leading before after) :
    (withoutClaims (u.signatureProperties qualifier signatureQualifier e).joined).children
      = Xml.joinFrom "" before ++ Xml.joinFrom "" after := by
  have hkeep {ns : List Node} (hns : ∀ n ∈ ns, n ∈ before ++ after) :
      (Xml.joinFrom "" ns).filter (fun n => !isClaim n) = Xml.joinFrom "" ns := by
    refine List.filter_eq_self.mpr fun n hn => ?_
    have hclaim := isClaim_of_mem_joinFrom
      (fun n hn => isClaim_of_mem_withoutClaims (hsplit ▸ hns n hn)) n hn
    rw [hclaim]
    rfl
  have htime : isClaim ↑(u.timeElement qualifier).joined = true :=
    isClaim_of_is (show signingTime ∈ claimed by decide) (Element.is_within ..)
  have hcertificate : isClaim ↑(u.certificateElement qualifier signatureQualifier).joined = true :=
    isClaim_of_is (show signingCertificateV2 ∈ claimed by decide) (Element.is_within ..)
  rw [withoutClaims_eq, children_signatureProperties_joined u _ _ hsplit h, List.filter_append,
    List.filter_cons_of_neg (by rw [htime]; decide),
    List.filter_cons_of_neg (by rw [hcertificate]; decide),
    hkeep fun n hn => List.mem_append_left _ hn, hkeep fun n hn => List.mem_append_right _ hn]

/-- An update of updated properties of the signature keeps their canonical text. -/
theorem canonicalChars_signatureProperties_joined (e : Element) (b written : Bindings) :
    Node.canonicalChars m b written (u.signatureProperties qualifier signatureQualifier
        (u.signatureProperties qualifier signatureQualifier e).joined)
      = Node.canonicalChars m b written
          (u.signatureProperties qualifier signatureQualifier e) := by
  obtain ⟨before, after, hsplit, hleading⟩ := Element.exists_leading (withoutClaims e).children
  refine Node.canonicalChars_congr_children (fun b written => ?_) b written
  rw [children_signatureProperties u _ _ (withoutClaims_joined u _ _ hsplit hleading)
    hleading.joinFrom, children_signatureProperties u _ _ hsplit hleading]
  simp only [Xml.canonicalNodes_append, Xml.canonicalNodes, Xml.canonicalNodes_joinFrom_empty]

end SignatureProperties

/-! ## Signed properties -/

/-- An update of updated signed properties keeps their canonical text, if it puts in the same
elements. -/
theorem Renews.canonicalChars_signedProperties (h : u'.Renews u) (e : Element)
    (b written : Bindings) :
    Node.canonicalChars m b written (u'.signedProperties qualifier signatureQualifier
        (u.signedProperties qualifier signatureQualifier e).joined)
      = Node.canonicalChars m b written (u.signedProperties qualifier signatureQualifier e) := by
  have hid : ((u.signedProperties qualifier signatureQualifier e).joined.attribute? "Id").isSome
      = true := by
    change ((u.signedProperties qualifier signatureQualifier e).attribute? "Id").isSome = true
    rw [attribute?_signedProperties]
    rfl
  obtain ⟨p, hp⟩ := Xml.exists_firstElement
    (u.findChild?_signedProperties qualifier signatureQualifier e)
  have hchange : u'.signedProperties qualifier signatureQualifier
        (u.signedProperties qualifier signatureQualifier e).joined
      = ⟨(u.signedProperties qualifier signatureQualifier e).tag,
          (p.joined fun _ => rfl).before ++ ↑(u.signatureProperties qualifier signatureQualifier
            p.element.joined) :: (p.joined fun _ => rfl).after⟩ := by
    rw [signedProperties, if_pos hid, h.signatureProperties_eq]
    exact Element.changeOrInsert_eq (e := Element.joined _) (p.joined fun _ => rfl) _ _
  rw [hchange]
  refine p.canonicalChars_joined (fun _ => rfl) (fun b written => ?_) b written
  rw [hp]
  exact canonicalChars_signatureProperties_joined u _ _ _ b written

end Update

/-! ## Objects -/

namespace Place

variable {root : Element} (p : Place root)

/-- The same place with texts joined. -/
def joined : Place root.joined where
  outer := p.outer.joined fun _ => rfl
  inner := p.inner.joined fun _ => rfl

theorem find?_earlier_joined :
    p.joined.earlier.find? isSignedProperties
      = (p.earlier.find? isSignedProperties).map fun found => (found.1.joined, found.2) := by
  have hmap : p.joined.earlier = p.earlier.map fun found => (found.1.joined, found.2) := by
    rw [earlier, earlier, List.map_append, List.map_cons, ← Xml.elementsIn_joinFrom _ "",
      ← Xml.elementsIn_joinFrom _ ""]
    rfl
  rw [hmap, List.find?_map]
  rfl

end Place

namespace Object

variable {o o' : Object} {u u' : Update}

theorem qualifying_of_place (p : Place o.element) : o.qualifying = p.outer.element :=
  Option.some.inj (o.findChild?_qualifying.symm.trans p.outer.find?)

/-- A time that is claimed in the text of an instant is read as what a clock shows of it, in
milliseconds. -/
theorem signingTime?_of_text {e : Element} {i : Time.Instant}
    (hclaim : (o.signatureProperties?.bind fun e => e.findChild? xadesSpace signingTime) = some e)
    (htext : e.text = Time.Rfc3339.render i)
    (hyear : 0 ≤ (Time.Reading.ofInstant i).date.year ∧
      (Time.Reading.ofInstant i).date.year ≤ 9999) :
    o.signingTime? = .ok (some i.shown.inMillis) := by
  rw [signingTime?, hclaim]
  dsimp only
  rw [htext, Time.Rfc3339.trim_render rfl hyear, String.ofList_toList, readDateTime?,
    Time.Rfc3339.read?_render rfl hyear]
  rfl

/-- An object is another one after an update and with texts joined, as far as another update looks
at it. -/
structure Follows (o : Object) (u : Update) (o' : Object) : Prop where
  root : o'.element.tag = o.element.tag
  qualifying : o'.qualifying.tag = (o.qualifying.setAttribute "Target" ("#" ++ u.signatureId)).tag
  properties : o'.signedProperties?
    = some (u.signedProperties o.qualifier o.element.name.qualifier o.propertiesToEdit).joined
  earlier : o'.earlierProperties? = o.earlierProperties?.map fun found => (found.1.joined, found.2)

theorem follows_of_element (hread : o'.element = (o.update u).element.joined) :
    o.Follows u o' := by
  obtain ⟨p, hp⟩ := o.exists_edited u
  obtain ⟨element, isObject, qualifies⟩ := o'
  subst hread
  let read : Object := ⟨(o.update u).element.joined, isObject, qualifies⟩
  let q : Place (o.update u).element.joined := p.joined
  constructor
  · exact hp.root
  · rw [qualifying_of_place q]
    exact hp.qualifying
  · rw [← hp.element]
    exact signedProperties?_of_place read q
  · have hfound := p.find?_earlier_joined
    rw [hp.earlier] at hfound
    exact (earlierProperties?_of_place read q).trans hfound

namespace Follows

variable (h : o.Follows u o')
include h

theorem qualifier_eq : o'.qualifier = o.qualifier :=
  congrArg (fun tag => tag.name.qualifier) h.qualifying

theorem name_eq : o'.element.name = o.element.name := congrArg Xml.Tag.name h.root

theorem declarations_eq : o'.qualifying.tag.declarations = o.qualifying.tag.declarations :=
  (congrArg Xml.Tag.declarations h.qualifying).trans rfl

theorem propertiesToEdit_eq : o'.propertiesToEdit
    = (u.signedProperties o.qualifier o.element.name.qualifier o.propertiesToEdit).joined :=
  propertiesToEdit_of_signedProperties? h.properties

/-- Updated signed properties have an identifier, which another update keeps. -/
theorem id?_eq : o'.id? = some (o.idAfter u) := by
  have hid := u.attribute?_signedProperties o.qualifier o.element.name.qualifier o.propertiesToEdit
  rw [attribute?_propertiesToEdit] at hid
  rw [id?, h.properties]
  exact hid

theorem idAfter_eq (u' : Update) : o'.idAfter u' = o.idAfter u := by
  rw [idAfter, h.id?_eq, Option.getD_some]

/-- New elements are put in the same scope again. -/
theorem resolves (ho : o.Resolves) : o'.Resolves := by
  have hproperties : o'.propertiesToEdit.tag.declarations
      = o.propertiesToEdit.tag.declarations := by
    rw [h.propertiesToEdit_eq]
    exact u.declarations_signedProperties o.propertiesToEdit
  have hsignature : (Update.signaturePropertiesToEdit o'.qualifier
        o'.propertiesToEdit).tag.declarations
      = (Update.signaturePropertiesToEdit o.qualifier o.propertiesToEdit).tag.declarations := by
    rw [h.propertiesToEdit_eq, Update.signaturePropertiesToEdit, Element.findChild?_joined,
      Update.findChild?_signedProperties]
    rfl
  have hscope : o'.signatureScope = o.signatureScope := by
    rw [signatureScope, signatureScope, hproperties, hsignature, h.declarations_eq, h.root]
  rw [Resolves, hscope, h.qualifier_eq, h.name_eq]
  exact ho

/-- An update that puts in the same elements keeps the canonical signed properties, if no others
come before them. -/
theorem canonicalSignedProperties_renew (hu : u'.Renews u) (hearlier : o.earlierProperties? = none) :
    (o'.update u').canonicalSignedProperties = (o.update u).canonicalSignedProperties := by
  obtain ⟨p, hp⟩ := o.exists_edited u
  obtain ⟨p', hp'⟩ := o'.exists_edited u'
  have hearlier' : o'.earlierProperties? = none := by
    rw [h.earlier, hearlier]
    rfl
  rw [canonicalSignedProperties, canonicalSignedProperties, p.findDescendant?_eq,
    p'.findDescendant?_eq, hp.earlier, hp'.earlier, hearlier, hearlier']
  have helement : p'.element = u'.signedProperties o.qualifier o.element.name.qualifier
      p.element.joined := by
    rw [hp'.element, h.qualifier_eq, h.name_eq, h.propertiesToEdit_eq, hp.element]
  have hinherited : p'.inherited = p.inherited := by
    rw [hp.inherited_eq, hp'.inherited_eq, h.root, h.declarations_eq]
  simp only [Option.getD_none]
  rw [helement, hinherited, Element.canonicalInScope, Element.canonicalInScope, hp.element,
    hu.canonicalChars_signedProperties]

/-- Updated properties of the signature are there. -/
theorem signatureProperties?_eq : o'.signatureProperties?
    = some (u.signatureProperties o.qualifier o.element.name.qualifier
        (Update.signaturePropertiesToEdit o.qualifier o.propertiesToEdit)).joined := by
  rw [signatureProperties?, h.properties]
  change Element.findChild? (Element.joined _) _ _ = _
  rw [Element.findChild?_joined, Update.findChild?_signedProperties]
  rfl

/-- The time that a clock shows of an update is claimed in milliseconds, in the years from 0 to
9999. -/
theorem signingTime?_eq (hyear : 0 ≤ (Time.Reading.ofInstant u.time).date.year ∧
    (Time.Reading.ofInstant u.time).date.year ≤ 9999) :
    o'.signingTime? = .ok (some u.time.shown.inMillis) := by
  refine signingTime?_of_text (e := (u.timeElement o.qualifier).joined) ?_ ?_ hyear
  · rw [h.signatureProperties?_eq, Option.bind_some, Element.findChild?_joined,
      (u.findChild?_signatureProperties _ _ _).1]
    rfl
  · rw [Element.text_joined, Update.text_timeElement]

end Follows

end Object

end Presign.Xades
