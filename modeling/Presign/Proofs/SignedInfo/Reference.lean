import Presign.Proofs.Xml.CanonicalReading
import Presign.Proofs.Xml.Qualifier
import Presign.SignedInfo.Preparation

/-!
# References that are read again

`coverProperties` changes the first reference to signed properties, or adds one,
and leaves all other nodes.  So if there was at most one, there is exactly one
now.  It keeps its place and its tag, and what it has inside is new.

The new elements borrow the qualifier of the root.  They are read again as
elements of the signature namespace if the canonicalization is exclusive, or if
the qualifier stands for that namespace inside of the reference.
-/

namespace Presign.SignedInfo

open Xml (Element Node Scope Tag NoElement Insertable IsResolved IsLoose CanonicalMethod
  signatureSpace)

/-! ## Covering references -/

theorem filter_references (e : Element) :
    (references e).filter hasPropertiesType = e.childElements.filter isPropertiesReference := by
  rw [references, Element.findChildren, List.filter_filter]
  refine List.filter_congr fun c _ => ?_
  rw [isPropertiesReference, Bool.and_comm]

/-- The reference that is to cover signed properties.  A missing one is
created. -/
def referenceToCover (e : Element) : Element :=
  (e.childElements.find? isPropertiesReference).getD
    ((Element.within signatureSpace e.name.qualifier "Reference").setAttribute "Type"
      Xades.referenceType)

theorem referenceToCover_cases (e : Element) :
    referenceToCover e = (Element.within signatureSpace e.name.qualifier "Reference").setAttribute
        "Type" Xades.referenceType ∨
      (referenceToCover e : Node) ∈ e.children := by
  rw [referenceToCover]
  cases h : e.childElements.find? isPropertiesReference with
  | none => exact Or.inl rfl
  | some c => exact Or.inr (Element.mem_of_mem_childElements (List.mem_of_find?_eq_some h))

/-- What holds of all declarations below signed information holds of those of
the reference. -/
theorem declared_referenceToCover {p : Xml.Declaration → Prop} {e : Element}
    (h : e.DeclaresBelow p) (hp : ∀ d : Xml.Declaration, d.qualifier = none → p d) :
    ∀ d ∈ (referenceToCover e).tag.declarations, p d := by
  rcases referenceToCover_cases e with heq | hmem
  · rw [heq]
    exact fun d hd => hp d (Xml.qualifier_of_mem_within hd)
  · exact (h.child hmem).1

section Cover

variable (qualifier : Option String) (id : String) (m : DigestMethod) (digest : Octets)
  (reference : Element)

/-- The transform of a covering reference. -/
def transform : Element :=
  (Element.within signatureSpace qualifier "Transform").setAttribute "Algorithm"
    CanonicalMethod.exclusive.uri

/-- The transforms of a covering reference. -/
def transforms : Element :=
  (Element.within signatureSpace qualifier "Transforms").push (transform qualifier)

/-- The element for the digest method of a covering reference. -/
def methodElement : Element :=
  (Element.within signatureSpace qualifier "DigestMethod").setAttribute "Algorithm" m.uri

/-- The element for the digest of a covering reference. -/
def valueElement : Element :=
  (Element.within signatureSpace qualifier "DigestValue").addText (Base64.text digest)

theorem cover_eq :
    cover qualifier id m digest reference
      = ((((reference.setAttribute "URI" ("#" ++ id)).clear.push (transforms qualifier)).push
          (methodElement qualifier m)).push (valueElement qualifier digest)) := rfl

/-- The children of a covering reference. -/
def newElements : List Element :=
  [transforms qualifier, methodElement qualifier m, valueElement qualifier digest]

theorem childElements_cover :
    (cover qualifier id m digest reference).childElements = newElements qualifier m digest := by
  rw [cover_eq, Element.childElements_push, Element.childElements_push, Element.childElements_push]
  rfl

/-- A reference to signed properties stays one. -/
theorem isPropertiesReference_cover :
    isPropertiesReference (cover qualifier id m digest reference)
      = isPropertiesReference reference := by
  have htype : (cover qualifier id m digest reference).attribute? "Type"
      = reference.attribute? "Type" :=
    Element.attribute?_setAttribute_of_ne reference (by decide) _
  rw [isPropertiesReference, isPropertiesReference, hasPropertiesType, hasPropertiesType, htype]
  rfl

end Cover

theorem isPropertiesReference_referenceToCover (e : Element) :
    isPropertiesReference (referenceToCover e) = true := by
  rw [referenceToCover]
  cases h : e.childElements.find? isPropertiesReference with
  | some c => exact List.find?_some h
  | none =>
      have his : ((Element.within signatureSpace e.name.qualifier "Reference").setAttribute "Type"
          Xades.referenceType).is signatureSpace "Reference" = true :=
        Element.is_within signatureSpace e.name.qualifier "Reference"
      rw [Option.getD_none, isPropertiesReference, his, hasPropertiesType,
        Element.attribute?_setAttribute, Option.any_some, beq_self_eq_true]
      rfl

/-- The reference that covers signed properties. -/
def coveringReference (e : Element) (id : String) (m : DigestMethod) (digest : Octets) : Element :=
  cover e.name.qualifier id m digest (referenceToCover e)

theorem isPropertiesReference_coveringReference (e : Element) (id : String) (m : DigestMethod)
    (digest : Octets) : isPropertiesReference (coveringReference e id m digest) = true :=
  (isPropertiesReference_cover ..).trans (isPropertiesReference_referenceToCover e)

/-- The covering reference in its place, among nodes that were there before. -/
structure Covering (e : Element) (id : String) (m : DigestMethod) (digest : Octets)
    (before after : List Node) : Prop where
  eq : coverProperties e id m digest
    = ⟨e.tag, before ++ ↑(coveringReference e id m digest) :: after⟩
  split : e.children = before ++ after ∨
    e.children = before ++ ↑(referenceToCover e) :: after
  absent : ((references e).filter hasPropertiesType).length ≤ 1 →
    NoElement isPropertiesReference (before ++ after)

/-- The nodes around the covering reference were there before. -/
theorem Covering.old {e : Element} {id : String} {m : DigestMethod} {digest : Octets}
    {before after : List Node} (h : Covering e id m digest before after) :
    ∀ n ∈ before ++ after, n ∈ e.children := by
  intro n hn
  rcases h.split with hsplit | hsplit
  · rw [hsplit]
    exact hn
  · rw [hsplit]
    rcases List.mem_append.mp hn with hn | hn
    · exact List.mem_append_left _ hn
    · exact List.mem_append_right _ (List.mem_cons_of_mem _ hn)

theorem exists_covering (e : Element) (id : String) (m : DigestMethod) (digest : Octets) :
    ∃ before after, Covering e id m digest before after := by
  rcases Element.changeFirst?_cases isPropertiesReference (cover e.name.qualifier id m digest)
    e.children with ⟨hnone, habsent⟩ | ⟨p, hp⟩
  · have hfind : e.childElements.find? isPropertiesReference = none :=
      Xml.find?_of_noElement habsent
    refine ⟨e.children, [], ?_, Or.inl (List.append_nil _).symm, fun _ => ?_⟩
    · rw [coverProperties, Element.changeWhere?, hnone, coveringReference, referenceToCover, hfind]
      rfl
    · rw [List.append_nil]
      exact habsent
  · have hfind : e.childElements.find? isPropertiesReference = some p.element := p.find?
    have hreference : referenceToCover e = p.element := by
      rw [referenceToCover, hfind, Option.getD_some]
    refine ⟨p.before, p.after, ?_, Or.inr (hreference ▸ p.split), fun hcount => ?_⟩
    · rw [coverProperties, Element.changeWhere?, hp, coveringReference, hreference]
      rfl
    · rw [filter_references] at hcount
      exact p.noElement_around hcount

section Covering

variable {e : Element} {id : String} {m : DigestMethod} {digest : Octets}

theorem tag_coverProperties : (coverProperties e id m digest).tag = e.tag := by
  obtain ⟨before, after, hcovering⟩ := exists_covering e id m digest
  rw [hcovering.eq]

/-- Every child was there before, except for the covering reference. -/
theorem mem_childElements_coverProperties {c : Element}
    (h : c ∈ (coverProperties e id m digest).childElements) :
    (c : Node) ∈ e.children ∨ c = coveringReference e id m digest := by
  obtain ⟨before, after, hcovering⟩ := exists_covering e id m digest
  rw [hcovering.eq, Element.childElements, List.filterMap_append,
    List.filterMap_cons_some (Element.element?_coe _)] at h
  have hold {ns : List Node} (hns : ∀ n ∈ ns, n ∈ before ++ after)
      (hc : c ∈ ns.filterMap Node.element?) : (c : Node) ∈ e.children :=
    hcovering.old c (hns c (Xml.mem_of_mem_elements hc))
  rcases List.mem_append.mp h with h | h
  · exact Or.inl (hold (fun n hn => List.mem_append_left _ hn) h)
  · rcases List.mem_cons.mp h with h | h
    · exact Or.inr h
    · exact Or.inl (hold (fun n hn => List.mem_append_right _ hn) h)

/-- The covering reference is the only one to signed properties, if there was at
most one. -/
theorem filter_coverProperties (hcount : ((references e).filter hasPropertiesType).length ≤ 1) :
    (coverProperties e id m digest).childElements.filter isPropertiesReference
      = [coveringReference e id m digest] := by
  obtain ⟨before, after, hcovering⟩ := exists_covering e id m digest
  have habsent := hcovering.absent hcount
  have hreference := isPropertiesReference_coveringReference e id m digest
  rw [hcovering.eq, Element.childElements, List.filterMap_append,
    List.filterMap_cons_some (Element.element?_coe _), List.filter_append,
    List.filter_cons_of_pos hreference,
    Xml.filter_of_noElement fun n hn => habsent n (List.mem_append_left _ hn),
    Xml.filter_of_noElement fun n hn => habsent n (List.mem_append_right _ hn), List.nil_append]

/-- Other children are found as before. -/
theorem findChild?_coverProperties {localPart : String} (hne : "Reference" ≠ localPart) :
    (coverProperties e id m digest).findChild? signatureSpace localPart
      = e.findChild? signatureSpace localPart := by
  obtain ⟨before, after, hcovering⟩ := exists_covering e id m digest
  have hnot {c : Element} (hc : isPropertiesReference c = true) :
      ¬ c.is signatureSpace localPart = true := by
    simp only [isPropertiesReference, Element.is, Xml.Name.is, Bool.and_eq_true, beq_iff_eq] at hc ⊢
    exact fun hl => hne (hc.1.2.symm.trans hl.2)
  have hskip {c : Element} (hc : isPropertiesReference c = true) :
      ((before ++ ↑c :: after).filterMap Node.element?).find?
          (fun c => c.is signatureSpace localPart)
        = ((before ++ after).filterMap Node.element?).find?
            fun c => c.is signatureSpace localPart := by
    rw [List.filterMap_append, List.filterMap_append,
      List.filterMap_cons_some (Element.element?_coe _), List.find?_append, List.find?_append,
      List.find?_cons_of_neg (p := fun c => Element.is c signatureSpace localPart) (hnot hc)]
  have hnew := hskip (isPropertiesReference_coveringReference e id m digest)
  rw [hcovering.eq, Element.findChild?, Element.findChild?, Element.childElements,
    Element.childElements, hnew]
  rcases hcovering.split with hsplit | hsplit
  · rw [hsplit]
  · rw [hsplit, hskip (isPropertiesReference_referenceToCover e)]

theorem canonicalMethod_coverProperties :
    canonicalMethod (coverProperties e id m digest) = canonicalMethod e := by
  rw [canonicalMethod, canonicalMethod, findChild?_coverProperties (by decide)]

end Covering

/-! ## Names -/

section Names

variable {N : Scope → Tag → Prop} {B : Scope → Prop} {scope : Scope} {e : Element} {id : String}
  {m : DigestMethod} {digest : Octets}

/-- Covering keeps what holds in a reference, if it holds for new elements
inside. -/
theorem allHold_cover {qualifier : Option String} {reference : Element} (hN : Xml.Stable N)
    (h : Insertable N B qualifier signatureSpace) (hr : reference.AllHold N scope)
    (hB : B (reference.tag.declarations :: scope)) :
    (cover qualifier id m digest reference).AllHold N scope := by
  have halgorithm : Xml.IsNamePart "Algorithm" ∧ "Algorithm" ≠ "xmlns" := by decide
  have hinside := (h.inside _ signatureSpace qualifier "Transforms").mpr hB
  have htransform := (h.allHold (show Xml.IsNamePart "Transform" by decide) hinside).setAttribute
    hN halgorithm CanonicalMethod.exclusive.uri
  have htransforms := (h.allHold (show Xml.IsNamePart "Transforms" by decide) hB).push htransform
  have hmethod := (h.allHold (show Xml.IsNamePart "DigestMethod" by decide) hB).setAttribute
    hN halgorithm m.uri
  have hvalue := (h.allHold (show Xml.IsNamePart "DigestValue" by decide) hB).addText
    (Base64.text digest)
  have huri := hr.setAttribute hN (show Xml.IsNamePart "URI" ∧ "URI" ≠ "xmlns" by decide)
    ("#" ++ id)
  rw [cover_eq]
  exact ((huri.clear.push htransforms).push hmethod).push hvalue

/-- The scope inside of the covering reference. -/
def referenceScope (e : Element) : Scope :=
  [(referenceToCover e).tag.declarations, e.tag.declarations]

/-- Signed information keeps what holds in it when a reference covers signed
properties. -/
theorem allHold_coverProperties (hN : Xml.Stable N)
    (h : Insertable N B e.name.qualifier signatureSpace) (he : e.AllHold N [])
    (hB : B (referenceScope e)) : (coverProperties e id m digest).AllHold N [] := by
  obtain ⟨before, after, hcovering⟩ := exists_covering e id m digest
  have hchildren := Xml.allNodes_iff.mp (Element.allHold_iff.mp he).2
  have hreference : (referenceToCover e).AllHold N [e.tag.declarations] := by
    rcases referenceToCover_cases e with heq | hmem
    · rw [referenceScope, heq] at hB
      rw [heq]
      exact (h.allHold (by decide) ((h.inside _ _ _ _).mp hB)).setAttribute hN (by decide) _
    · exact he.child hmem
  rw [hcovering.eq]
  refine Element.allHold_iff.mpr
    ⟨(Element.allHold_iff.mp he).1, Xml.allNodes_iff.mpr fun n hn => ?_⟩
  rcases List.mem_append.mp hn with hn | hn
  · exact hchildren n (hcovering.old n (List.mem_append_left _ hn))
  · rcases List.mem_cons.mp hn with rfl | hn
    · exact allHold_cover hN h hreference hB
    · exact hchildren n (hcovering.old n (List.mem_append_right _ hn))

end Names

/-! ## Signed information -/

/-- Signed information that was read, that has at most one reference to signed
properties, and in which no name can be cut. -/
structure IsSound (e : Element) : Prop where
  resolved : e.AllHold IsResolved []
  root : e.is signatureSpace "SignedInfo" = true
  names : e.IsWellNamed
  count : ((references e).filter hasPropertiesType).length ≤ 1

namespace IsSound

variable {e : Element}

/-- The qualifier of the root is written where it stands for the signature
namespace. -/
theorem gives_qualifier (h : IsSound e) :
    Scope.Gives [e.tag.declarations] e.name.qualifier signatureSpace := by
  have hroot := h.root
  simp only [Element.is, Xml.Name.is, Bool.and_eq_true, beq_iff_eq] at hroot
  exact Xml.gives_of_isResolved (Element.allHold_iff.mp h.resolved).1.holds hroot.1

/-- The reference to cover has its namespace. -/
theorem isResolved_referenceToCover (h : IsSound e) :
    IsResolved [e.tag.declarations] (referenceToCover e).tag := by
  rcases referenceToCover_cases e with heq | hmem
  · rw [heq]
    exact Xml.isResolved_within (by decide) h.gives_qualifier "Reference"
  · exact (Element.allHold_iff.mp (h.resolved.child hmem)).1.holds

/-- The qualifier of the root stands for something inside of the covering
reference. -/
theorem allHold_coverProperties (h : IsSound e) (id : String) (m : DigestMethod)
    (digest : Octets) : (coverProperties e id m digest).AllHold IsLoose [] := by
  have hgives := h.gives_qualifier
  have hxml : e.name.qualifier ≠ some "xml" := by
    intro hq
    exact absurd (Except.ok.inj (hgives _ hq)) (by decide)
  have hinsertable : Insertable IsLoose (fun scope => scope.Binds e.name.qualifier)
      e.name.qualifier signatureSpace :=
    .isLoose (Element.allHold_iff.mp h.resolved).1.printable.name.2 (by decide) hxml
      (fun _ _ _ _ => Xml.binds_within_iff) fun _ hB => hB
  refine SignedInfo.allHold_coverProperties Xml.stable_isLoose hinsertable h.resolved.isLoose
    (hgives.binds.cons ?_)
  exact declared_referenceToCover h.names.declaresBelow
    fun d hd q hq => absurd (hd.symm.trans hq) (by simp)

theorem allHold_coveringReference (h : IsSound e) (id : String) (m : DigestMethod)
    (digest : Octets) : (coveringReference e id m digest).AllHold IsLoose [e.tag.declarations] := by
  have hmem : coveringReference e id m digest ∈
      (coverProperties e id m digest).childElements.filter isPropertiesReference := by
    rw [filter_coverProperties h.count]
    exact List.mem_singleton.mpr rfl
  have hchild := (h.allHold_coverProperties id m digest).child
    (Element.mem_of_mem_childElements (List.mem_filter.mp hmem).1)
  rw [tag_coverProperties] at hchild
  exact hchild

/-- The qualifier of the root stands for the signature namespace inside of the
covering reference, if nothing inside makes it stand for another. -/
theorem gives_referenceScope (h : IsSound e)
    (hkeeps : e.DeclaresBelow (Xml.Declaration.Keeps e.name.qualifier signatureSpace)) :
    (referenceScope e).Gives e.name.qualifier signatureSpace :=
  h.gives_qualifier.cons (declared_referenceToCover hkeeps
    fun d hd q _ hq => absurd (hd.symm.trans hq) (by simp))

end IsSound

end Presign.SignedInfo
