import Presign.Proofs.Xml.Descendant
import Presign.Xades

/-!
# The signed properties that a reference covers

An update edits the signed properties along the first children with the right
names.  `canonicalSignedProperties` takes the first signed properties of the
whole object instead.  Both are the same element unless other signed properties
stand earlier in the document, where an update does not look
(`Object.earlierProperties?`).
-/

namespace Presign.Xades

open Xml (Element Declaration FirstElement elementsIn xadesSpace)

/-! ## Places -/

/-- Whether an element is signed properties. -/
def isSignedProperties (p : Element × List Declaration) : Bool :=
  p.1.is xadesSpace signedProperties

/-- The place of signed properties among the first children with the right
names. -/
structure Place (root : Element) where
  outer : FirstElement (fun c => c.is xadesSpace qualifyingProperties) root.children
  inner : FirstElement (fun c => c.is xadesSpace signedProperties) outer.element.children

namespace Place

variable {root : Element} (p : Place root)

/-- The element at the place. -/
def element : Element := p.inner.element

/-- The qualifier of the qualifying properties around it. -/
def qualifier : Option String := p.outer.element.name.qualifier

/-- The declarations that the element inherits. -/
def inherited : List Declaration := root.tag.declarations ++ p.outer.element.tag.declarations

/-- The descendants that come before the element. -/
def earlier : List (Element × List Declaration) :=
  elementsIn root.tag.declarations p.outer.before ++
    (p.outer.element, root.tag.declarations) :: elementsIn p.inherited p.inner.before

/-- The descendants that come after the element. -/
def later : List (Element × List Declaration) :=
  elementsIn (p.inherited ++ p.element.tag.declarations) p.element.children ++
    elementsIn p.inherited p.inner.after ++ elementsIn root.tag.declarations p.outer.after

theorem descendants_eq : root.descendants = p.earlier ++ (p.element, p.inherited) :: p.later := by
  have houter : root.descendants = elementsIn root.tag.declarations p.outer.before ++
      ((p.outer.element, root.tag.declarations) ::
        (elementsIn p.inherited p.outer.element.children ++
          elementsIn root.tag.declarations p.outer.after)) := by
    rw [Element.descendants, congrArg (elementsIn root.tag.declarations) p.outer.split,
      Xml.elementsIn_append, Xml.elementsIn_coe_cons]
    rfl
  have hinner : elementsIn p.inherited p.outer.element.children
      = elementsIn p.inherited p.inner.before ++ ((p.element, p.inherited) ::
        (elementsIn (p.inherited ++ p.element.tag.declarations) p.element.children ++
          elementsIn p.inherited p.inner.after)) := by
    rw [congrArg (elementsIn p.inherited) p.inner.split, Xml.elementsIn_append,
      Xml.elementsIn_coe_cons]
    rfl
  rw [houter, hinner, earlier, later]
  simp only [List.append_assoc, List.cons_append]

theorem isSignedProperties_element : isSignedProperties (p.element, p.inherited) = true :=
  p.inner.holds

/-- A search through the whole tree finds the element of the place, unless
there are signed properties before it. -/
theorem findDescendant?_eq :
    root.findDescendant? xadesSpace signedProperties
      = some ((p.earlier.find? isSignedProperties).getD (p.element, p.inherited)) := by
  rw [Element.findDescendant?_eq, p.descendants_eq]
  change (p.earlier ++ _).find? isSignedProperties = _
  rw [List.find?_append, List.find?_cons_of_pos p.isSignedProperties_element]
  cases p.earlier.find? isSignedProperties <;> rfl

/-- The qualifying properties themselves are no signed properties. -/
theorem find?_earlier :
    p.earlier.find? isSignedProperties
      = ((elementsIn root.tag.declarations p.outer.before).find? isSignedProperties).or
          ((elementsIn p.inherited p.inner.before).find? isSignedProperties) := by
  have hnot : ¬ isSignedProperties (p.outer.element, root.tag.declarations) = true := by
    have hholds := p.outer.holds
    intro h
    simp only [isSignedProperties, Element.is, Xml.Name.is, Bool.and_eq_true, beq_iff_eq]
      at h hholds
    exact absurd (h.2.symm.trans hholds.2) (by decide)
  rw [earlier, List.find?_append, List.find?_cons_of_neg hnot]

end Place

namespace Object

/-- The signed properties that come before those that an update edits. -/
def earlierProperties? (o : Object) : Option (Element × List Declaration) :=
  let declarations := o.element.tag.declarations
  (o.element.elementsBefore declarations xadesSpace qualifyingProperties ++
    match o.element.findChild? xadesSpace qualifyingProperties with
    | some e => e.elementsBefore (declarations ++ e.tag.declarations) xadesSpace signedProperties
    | none => []).find? isSignedProperties

theorem signedProperties?_of_place (o : Object) (p : Place o.element) :
    o.signedProperties? = some p.element := by
  have houter : o.element.findChild? xadesSpace qualifyingProperties = some p.outer.element :=
    p.outer.find?
  have hinner : p.outer.element.findChild? xadesSpace signedProperties = some p.element :=
    p.inner.find?
  rw [signedProperties?, houter]
  exact hinner

theorem earlierProperties?_of_place (o : Object) (p : Place o.element) :
    o.earlierProperties? = p.earlier.find? isSignedProperties := by
  have houter : o.element.findChild? xadesSpace qualifyingProperties = some p.outer.element :=
    p.outer.find?
  have hinner : p.outer.element.findChild? xadesSpace signedProperties = some p.element :=
    p.inner.find?
  rw [p.find?_earlier, earlierProperties?, Element.elementsBefore, houter, Option.isSome_some,
    if_pos rfl, p.outer.beforeFirst_eq, List.find?_append]
  dsimp only
  rw [Element.elementsBefore, hinner, Option.isSome_some, if_pos rfl, p.inner.beforeFirst_eq]
  rfl

/-- No signed properties come before those that an update edits, if those are
the only ones, or if there are none at all. -/
theorem earlierProperties?_eq_none {o : Object}
    (h : o.element.descendants.countP isSignedProperties
      = if o.signedProperties?.isSome then 1 else 0) : o.earlierProperties? = none := by
  obtain ⟨e, he⟩ := Option.isSome_iff_exists.mp o.qualifies
  obtain ⟨outer, rfl⟩ := Xml.exists_firstElement he
  cases hproperties : outer.element.findChild? xadesSpace signedProperties with
  | some c =>
      obtain ⟨inner, rfl⟩ := Xml.exists_firstElement hproperties
      let p : Place o.element := ⟨outer, inner⟩
      rw [o.signedProperties?_of_place p, Option.isSome_some, if_pos rfl, p.descendants_eq,
        List.countP_append, List.countP_cons_of_pos p.isSignedProperties_element] at h
      rw [o.earlierProperties?_of_place p, List.find?_eq_none]
      exact List.countP_eq_zero.mp (by omega)
  | none =>
      have hnone : o.signedProperties? = none := by
        rw [signedProperties?, he]
        exact hproperties
      rw [hnone, Option.isSome_none, if_neg Bool.false_ne_true, Element.descendants,
        congrArg (elementsIn o.element.tag.declarations) outer.split, Xml.elementsIn_append,
        List.countP_append] at h
      have hbefore := List.countP_eq_zero.mp (Nat.eq_zero_of_add_eq_zero h).1
      rw [earlierProperties?, Element.elementsBefore, he, Option.isSome_some, if_pos rfl,
        outer.beforeFirst_eq]
      dsimp only
      rw [Element.elementsBefore, hproperties, Option.isSome_none, if_neg Bool.false_ne_true,
        List.append_nil, List.find?_eq_none]
      exact hbefore

end Object

/-! ## What an update edits -/

namespace Update

@[simp] theorem name_timeElement (u : Update) (qualifier : Option String) :
    (u.timeElement qualifier).name = ⟨qualifier, signingTime, some xadesSpace⟩ :=
  Element.name_within xadesSpace qualifier signingTime

@[simp] theorem name_certificateElement (u : Update)
    (qualifier signatureQualifier : Option String) :
    (u.certificateElement qualifier signatureQualifier).name
      = ⟨qualifier, signingCertificateV2, some xadesSpace⟩ :=
  Element.name_within xadesSpace qualifier signingCertificateV2

@[simp] theorem name_signedProperties (u : Update) (qualifier signatureQualifier : Option String)
    (e : Element) : (u.signedProperties qualifier signatureQualifier e).name = e.name := by
  unfold signedProperties
  dsimp only
  rw [Element.name_changeOrInsert]
  split <;> rfl

/-- The time and the certificate come first, and what the client claimed in
their place is gone. -/
theorem childElements_signatureProperties (u : Update)
    (qualifier signatureQualifier : Option String) (e : Element) :
    (u.signatureProperties qualifier signatureQualifier e).childElements
      = u.timeElement qualifier :: u.certificateElement qualifier signatureQualifier ::
        (((e.childElements.filter fun c => !c.is xadesSpace signingTime).filter
          fun c => !c.is xadesSpace signingCertificate).filter
            fun c => !c.is xadesSpace signingCertificateV2) := by
  rw [signatureProperties, Element.childElements_insertElement,
    Element.childElements_insertElement, Element.childElements_removeChildren,
    Element.childElements_removeChildren, Element.childElements_removeChildren]
  rfl

/-- The first time is the one that was put in, and no certificate is referred to in the form of
version 1. -/
theorem findChild?_signatureProperties (u : Update) (qualifier signatureQualifier : Option String)
    (e : Element) :
    (u.signatureProperties qualifier signatureQualifier e).findChild? xadesSpace signingTime
        = some (u.timeElement qualifier) ∧
      (u.signatureProperties qualifier signatureQualifier e).findChild? xadesSpace
        signingCertificate = none := by
  rw [Element.findChild?, Element.findChild?, childElements_signatureProperties]
  constructor
  · exact List.find?_cons_of_pos (Element.is_within xadesSpace qualifier signingTime)
  · rw [List.find?_eq_none]
    intro c hc
    rcases List.mem_cons.mp hc with rfl | hc
    · rw [Element.is, name_timeElement, Xml.Name.is, beq_self_eq_true, Bool.true_and]
      exact show ¬(signingTime == signingCertificate) = true by decide
    · rcases List.mem_cons.mp hc with rfl | hc
      · rw [Element.is, name_certificateElement, Xml.Name.is, beq_self_eq_true, Bool.true_and]
        exact show ¬(signingCertificateV2 == signingCertificate) = true by decide
      · have hnot := (List.mem_filter.mp (List.mem_of_mem_filter hc)).2
        simpa using hnot

theorem findChildren_signatureProperties (u : Update) (qualifier signatureQualifier : Option String)
    (e : Element) :
    (u.signatureProperties qualifier signatureQualifier e).findChildren xadesSpace signingTime
        = [u.timeElement qualifier] ∧
      (u.signatureProperties qualifier signatureQualifier e).findChildren xadesSpace
          signingCertificateV2
        = [u.certificateElement qualifier signatureQualifier] := by
  have htime (localPart : String) :
      (u.timeElement qualifier).is xadesSpace localPart = (signingTime == localPart) := by
    rw [Element.is, name_timeElement, Xml.Name.is, beq_self_eq_true, Bool.true_and]
  have hcertificate (localPart : String) :
      (u.certificateElement qualifier signatureQualifier).is xadesSpace localPart
        = (signingCertificateV2 == localPart) := by
    rw [Element.is, name_certificateElement, Xml.Name.is, beq_self_eq_true, Bool.true_and]
  rw [Element.findChildren, Element.findChildren, childElements_signatureProperties]
  constructor
  · rw [List.filter_cons_of_pos (by rw [htime]; decide),
      List.filter_cons_of_neg (by rw [hcertificate]; decide)]
    simp only [List.filter_filter, List.cons.injEq, List.filter_eq_nil_iff, true_and]
    simp +contextual
  · rw [List.filter_cons_of_neg (by rw [htime]; decide),
      List.filter_cons_of_pos (by rw [hcertificate]; decide)]
    simp only [List.filter_filter, List.cons.injEq, List.filter_eq_nil_iff, true_and]
    simp +contextual

/-- Edited signed properties have an identifier: the one they had, or else the
default. -/
theorem attribute?_signedProperties (u : Update) (qualifier signatureQualifier : Option String)
    (e : Element) :
    (u.signedProperties qualifier signatureQualifier e).attribute? "Id"
      = some ((e.attribute? "Id").getD u.defaultId) := by
  unfold signedProperties
  dsimp only
  rw [Element.attribute?, Element.tag_changeOrInsert]
  change (if _ then e else e.setAttribute "Id" u.defaultId).attribute? "Id" = _
  cases h : e.attribute? "Id" with
  | some id => simp [h]
  | none => simp [Element.attribute?_setAttribute]

/-- Edited signed properties have edited properties of the signature. -/
theorem findChild?_signedProperties (u : Update) (qualifier signatureQualifier : Option String)
    (e : Element) :
    (u.signedProperties qualifier signatureQualifier e).findChild? xadesSpace
        signedSignatureProperties
      = some (u.signatureProperties qualifier signatureQualifier
          ((e.findChild? xadesSpace signedSignatureProperties).getD
            (.within xadesSpace qualifier signedSignatureProperties))) := by
  have hchildren (e' : Element) :
      (e'.changeOrInsert xadesSpace signedSignatureProperties
        (.within xadesSpace qualifier signedSignatureProperties)
        (u.signatureProperties qualifier signatureQualifier)).findChild? xadesSpace
          signedSignatureProperties
        = some (u.signatureProperties qualifier signatureQualifier
            ((e'.findChild? xadesSpace signedSignatureProperties).getD
              (.within xadesSpace qualifier signedSignatureProperties))) := by
    obtain ⟨p, hp, -⟩ := e'.exists_changeOrInsert
      (.within xadesSpace qualifier signedSignatureProperties)
      (u.signatureProperties qualifier signatureQualifier)
      (Element.is_within ..) (fun _ => rfl)
    rw [← hp]
    exact p.find?
  unfold signedProperties
  dsimp only
  rw [hchildren]
  split <;> rfl

end Update

namespace Object

/-- The qualifying properties. -/
def qualifying (o : Object) : Element :=
  (o.element.findChild? xadesSpace qualifyingProperties).get o.qualifies

/-- The qualifier that new XAdES elements borrow. -/
def qualifier (o : Object) : Option String := o.qualifying.name.qualifier

theorem findChild?_qualifying (o : Object) :
    o.element.findChild? xadesSpace qualifyingProperties = some o.qualifying :=
  (Option.some_get o.qualifies).symm

/-- The signed properties that an update edits.  Missing ones are created. -/
def propertiesToEdit (o : Object) : Element :=
  (o.qualifying.findChild? xadesSpace signedProperties).getD
    (.within xadesSpace o.qualifier signedProperties)

theorem signedProperties?_eq (o : Object) :
    o.signedProperties? = o.qualifying.findChild? xadesSpace signedProperties := by
  rw [signedProperties?, o.findChild?_qualifying]
  rfl

theorem propertiesToEdit_of_signedProperties? {o : Object} {e : Element}
    (h : o.signedProperties? = some e) : o.propertiesToEdit = e := by
  rw [propertiesToEdit, ← o.signedProperties?_eq, h, Option.getD_some]

theorem attribute?_propertiesToEdit (o : Object) :
    o.propertiesToEdit.attribute? "Id" = o.id? := by
  rw [propertiesToEdit, id?, o.signedProperties?_eq]
  cases o.qualifying.findChild? xadesSpace signedProperties with
  | some e => rfl
  | none =>
      rw [Option.getD_none]
      unfold Element.within
      dsimp only
      split <;> rfl

/-- An update changes the first qualifying properties in their place. -/
theorem exists_update_eq (o : Object) (u : Update) :
    ∃ q : FirstElement (fun c => c.is xadesSpace qualifyingProperties) o.element.children,
      q.element = o.qualifying ∧
        (o.update u).element = ⟨o.element.tag, q.before ++
          ↑(u.qualifyingProperties o.element.name.qualifier o.qualifying) :: q.after⟩ := by
  have hchange := Element.changeFirst?_cases (fun c => c.is xadesSpace qualifyingProperties)
    (u.qualifyingProperties o.element.name.qualifier) o.element.children
  rcases hchange with ⟨-, hnone⟩ | ⟨q, hq⟩
  · have hqualifies := o.qualifies
    rw [Element.findChild?, Element.childElements, Xml.find?_of_noElement hnone] at hqualifies
    cases hqualifies
  · have hqualifying : q.element = o.qualifying :=
      Option.some.inj ((show _ = some q.element from q.find?).symm.trans o.findChild?_qualifying)
    refine ⟨q, hqualifying, ?_⟩
    change o.element.changeChild _ _ _ = _
    rw [Element.changeChild, Element.changeChild?, Element.changeWhere?, hq, hqualifying]
    rfl

/-- The place of the signed properties after an update.  They have been edited
there.  Around and before them, the update leaves what there is, but for an
attribute of the qualifying properties. -/
structure Edited (o : Object) (u : Update) {root : Element} (p : Place root) : Prop where
  element : p.element = u.signedProperties o.qualifier o.element.name.qualifier o.propertiesToEdit
  root : root.tag = o.element.tag
  qualifying : p.outer.element.tag = (o.qualifying.setAttribute "Target" ("#" ++ u.signatureId)).tag
  before : ∀ n ∈ p.outer.before, n ∈ o.element.children
  inside : ∀ n ∈ p.inner.before, n ∈ o.qualifying.children
  earlier : p.earlier.find? isSignedProperties = o.earlierProperties?

theorem exists_edited (o : Object) (u : Update) :
    ∃ p : Place (o.update u).element, o.Edited u p := by
  obtain ⟨q, hqualifying, hq⟩ := o.exists_update_eq u
  have houter := o.findChild?_qualifying
  have hname : (u.qualifyingProperties o.element.name.qualifier o.qualifying).name
      = o.qualifying.name := u.name_qualifyingProperties _ _
  have htag : (u.qualifyingProperties o.element.name.qualifier o.qualifying).tag
      = (o.qualifying.setAttribute "Target" ("#" ++ u.signatureId)).tag :=
    Element.tag_changeOrInsert ..
  have hholds : (u.qualifyingProperties o.element.name.qualifier o.qualifying).is xadesSpace
      qualifyingProperties = true := by
    rw [Element.is, hname, ← hqualifying]
    exact q.holds
  obtain ⟨inner, helement, hinside, hbefore⟩ := Element.exists_changeOrInsert
    (o.qualifying.setAttribute "Target" ("#" ++ u.signatureId))
    (.within xadesSpace o.qualifier signedProperties)
    (u.signedProperties o.qualifier o.element.name.qualifier)
    (Element.is_within ..) (fun c => u.name_signedProperties _ _ c)
  rw [hq]
  refine ⟨⟨⟨q.before, _, q.after, rfl, hholds, q.absent⟩, inner⟩, helement, rfl, htag,
    fun n hn => q.split ▸ List.mem_append_left _ hn, hinside, ?_⟩
  rw [Place.find?_earlier, earlierProperties?, houter, Element.elementsBefore, houter,
    Option.isSome_some, if_pos rfl, q.beforeFirst_eq, List.find?_append]
  dsimp only [Place.inherited]
  rw [hbefore, htag]
  rfl

/-- There are signed properties after an update, so they have a canonical
form. -/
theorem exists_canonicalSignedProperties (o : Object) (u : Update) :
    ∃ text, (o.update u).canonicalSignedProperties = .ok text := by
  obtain ⟨p, -⟩ := o.exists_edited u
  rw [canonicalSignedProperties, p.findDescendant?_eq]
  exact ⟨_, rfl⟩

/-- The canonical form is that of the signed properties that the update edits,
in their place, if and only if no signed properties come before them.  Else it
is that of the first of those, which the update leaves as they are.

The edited ones have the identifier of the update and hold the new time and
certificate, and no others. -/
theorem canonicalSignedProperties_update (o : Object) (u : Update) :
    ∃ (p : Place (o.update u).element) (e : Element),
      p.element.attribute? "Id" = some (o.idAfter u) ∧
      p.element.findChild? xadesSpace signedSignatureProperties = some e ∧
      e.findChildren xadesSpace signingTime = [u.timeElement p.qualifier] ∧
      e.findChildren xadesSpace signingCertificateV2
        = [u.certificateElement p.qualifier o.element.name.qualifier] ∧
      ((o.update u).element.descendants.findIdx? isSignedProperties = some p.earlier.length ↔
        o.earlierProperties? = none) ∧
      (o.update u).canonicalSignedProperties
        = .ok (match o.earlierProperties? with
          | none => p.element.canonicalInScope .exclusive p.inherited
          | some (earlier, inherited) => earlier.canonicalInScope .exclusive inherited) := by
  obtain ⟨p, hp⟩ := o.exists_edited u
  have hqualifier : p.qualifier = o.qualifier := congrArg (fun t => t.name.qualifier) hp.qualifying
  have helement : p.element
      = u.signedProperties p.qualifier o.element.name.qualifier o.propertiesToEdit :=
    hqualifier ▸ hp.element
  obtain ⟨htime, hcertificate⟩ := u.findChildren_signatureProperties p.qualifier
    o.element.name.qualifier ((o.propertiesToEdit.findChild? xadesSpace
      signedSignatureProperties).getD (.within xadesSpace p.qualifier signedSignatureProperties))
  refine ⟨p, _, ?_, ?_, htime, hcertificate, ?_, ?_⟩
  · rw [helement, Update.attribute?_signedProperties, attribute?_propertiesToEdit, idAfter]
  · rw [helement, Update.findChild?_signedProperties]
  · rw [p.descendants_eq, Xml.findIdx?_eq_length_iff p.isSignedProperties_element, hp.earlier]
  · rw [canonicalSignedProperties, p.findDescendant?_eq, hp.earlier]
    cases o.earlierProperties? with
    | none => rfl
    | some r => rfl

/-- Signed properties without children. -/
def emptyProperties (id : String) : Element :=
  (Element.bare (some "xades") signedProperties (some xadesSpace)).setAttribute "Id" id

/-- An object with signed properties before its qualifying properties. -/
def twofold : Object where
  element :=
    let qualifying := (Element.bare (some "xades") qualifyingProperties
      (some xadesSpace)).push (emptyProperties "late")
    ((((Element.bare (some "ds") "Object" (some Xml.signatureSpace)).declare (some "ds")
      Xml.signatureSpace).declare (some "xades") xadesSpace).push (emptyProperties "early")).push
        qualifying
  isObject := by decide
  qualifies := by decide

/-- An update of `twofold` edits the second signed properties, but the canonical
form is that of the first. -/
theorem canonicalSignedProperties_twofold :
    let updated := twofold.update ⟨"sig", "new", ⟨1700000000, 0, by decide⟩, .sha256, [0], none⟩
    updated.id? = some "late" ∧
      updated.canonicalSignedProperties = .ok
        ("<xades:SignedProperties xmlns:xades=\"http://uri.etsi.org/01903/v1.3.2#\" Id=\"early\">" ++
          "</xades:SignedProperties>") := by
  intro updated
  have hfound : updated.element.findDescendant? xadesSpace signedProperties
      = some (emptyProperties "early", twofold.element.tag.declarations) := by rfl
  refine ⟨by rfl, ?_⟩
  rw [canonicalSignedProperties, hfound]
  decide +kernel

end Object

end Presign.Xades
