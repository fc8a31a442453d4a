import Presign.Proofs.SignedInfo.Reference

/-!
# What a covering reference says

`Covers` says of a reference that it covers signed properties with an
identifier and a digest, and that it says nothing else.  It is about the tree
that a verifier reads, and looks at names with their namespaces.
-/

namespace Presign.SignedInfo

open Xml (Element Node Scope IsResolved IsLoose Bindings CanonicalMethod signatureSpace)

section New

variable {qualifier : Option String} {m : DigestMethod} {digest : Octets}

theorem space_newElements {c : Element} (h : c ∈ newElements qualifier m digest) :
    c.name.space = some signatureSpace := by
  have hname (localPart : String) :
      (Element.within signatureSpace qualifier localPart).name.space = some signatureSpace :=
    congrArg Xml.Name.space (Element.name_within ..)
  rcases List.mem_cons.mp h with rfl | h
  · exact hname "Transforms"
  · rcases List.mem_cons.mp h with rfl | h
    · exact hname "DigestMethod"
    · rw [List.mem_singleton.mp h]
      exact hname "DigestValue"

/-- New elements have their namespace exactly where the qualifier stands for
it. -/
theorem isResolved_newElements {c : Element} (h : c ∈ newElements qualifier m digest)
    (scope : Scope) : IsResolved scope c.tag ↔ scope.Gives qualifier signatureSpace := by
  have hresolved (localPart : String) :
      IsResolved scope (Element.within signatureSpace qualifier localPart).tag ↔
        scope.Gives qualifier signatureSpace :=
    Xml.isResolved_within_iff (by decide) localPart
  rcases List.mem_cons.mp h with rfl | h
  · exact hresolved "Transforms"
  · rcases List.mem_cons.mp h with rfl | h
    · exact hresolved "DigestMethod"
    · rw [List.mem_singleton.mp h]
      exact hresolved "DigestValue"

theorem localPart_newElement (qualifier : Option String) (m : DigestMethod) (digest : Octets) :
    (transforms qualifier).name.localPart = "Transforms" ∧
      (methodElement qualifier m).name.localPart = "DigestMethod" ∧
      (valueElement qualifier digest).name.localPart = "DigestValue" := by
  have hname (localPart : String) :
      (Element.within signatureSpace qualifier localPart).name.localPart = localPart :=
    congrArg Xml.Name.localPart (Element.name_within ..)
  exact ⟨hname "Transforms", hname "DigestMethod", hname "DigestValue"⟩

theorem localPart_newElements (qualifier : Option String) (m : DigestMethod) (digest : Octets) :
    (newElements qualifier m digest).map (fun c => c.name.localPart)
      = ["Transforms", "DigestMethod", "DigestValue"] := by
  obtain ⟨ht, hm, hv⟩ := localPart_newElement qualifier m digest
  rw [newElements, List.map_cons, List.map_cons, List.map_singleton, ht, hm, hv]

end New

/-! ## Reading again -/

theorem isPropertiesReference_reread {method : CanonicalMethod} {scope : Scope} {c : Element}
    (h : c.AllHold IsLoose scope) (hname : IsResolved scope c.tag) (b written : Bindings) :
    isPropertiesReference (c.reread method scope b written) = isPropertiesReference c := by
  rw [isPropertiesReference, isPropertiesReference, hasPropertiesType, hasPropertiesType,
    Element.attribute?_reread h, Element.is, Element.is, Element.name_reread_of_isResolved h hname]

namespace IsSound

variable {e : Element} (h : IsSound e) (id : String) (m : DigestMethod) (digest : Octets)
  (method : CanonicalMethod)
include h

/-- What is read of the prepared data is signed information, in which just the
covering reference is one to signed properties. -/
theorem exists_references_reread :
    ((coverProperties e id m digest).reread method [] [] []).is signatureSpace "SignedInfo" = true ∧
      ∃ b written, (references ((coverProperties e id m digest).reread method [] [] [])).filter
          hasPropertiesType
        = [(coveringReference e id m digest).reread method [e.tag.declarations] b written] := by
  have hloose := h.allHold_coverProperties id m digest
  have htag : (coverProperties e id m digest).tag = e.tag := tag_coverProperties
  have hsame : ∀ (b written : Bindings), ∀ c ∈ (coverProperties e id m digest).childElements,
      isPropertiesReference (c.reread method [e.tag.declarations] b written)
        = isPropertiesReference c := by
    intro b written c hc
    have hchild := hloose.child (Element.mem_of_mem_childElements hc)
    rw [htag] at hchild
    refine isPropertiesReference_reread hchild ?_ b written
    rcases mem_childElements_coverProperties hc with hold | heq
    · exact (Element.allHold_iff.mp (h.resolved.child hold)).1.holds
    · rw [heq]
      exact h.isResolved_referenceToCover
  constructor
  · have hresolved : IsResolved [] (coverProperties e id m digest).tag := by
      rw [htag]
      exact (Element.allHold_iff.mp h.resolved).1.holds
    rw [Element.is, Element.name_reread_of_isResolved hloose hresolved, Element.name, htag]
    exact h.root
  · obtain ⟨b, written, hchildren⟩ := Element.exists_childElements_reread (m := method) []
      [] (coverProperties e id m digest)
    rw [htag] at hchildren
    have hfilter : (coverProperties e id m digest).childElements.filter
        (isPropertiesReference ∘ Element.reread method [e.tag.declarations] b written)
        = [coveringReference e id m digest] :=
      (List.filter_congr (hsame b written)).trans (filter_coverProperties h.count)
    refine ⟨b, written, ?_⟩
    rw [filter_references, hchildren, List.filter_map, hfilter, List.map_singleton]

theorem allHold_newElements :
    ∀ c ∈ newElements e.name.qualifier m digest, c.AllHold IsLoose (referenceScope e) := by
  intro c hc
  rw [← childElements_cover e.name.qualifier "" m digest (referenceToCover e)] at hc
  exact (h.allHold_coveringReference "" m digest).child (Element.mem_of_mem_childElements hc)

omit h in
/-- The children of the covering reference that is read are the new elements. -/
theorem exists_childElements_reread (b written : Bindings) :
    ∃ b' written',
      ((coveringReference e id m digest).reread method [e.tag.declarations] b written).childElements
        = (newElements e.name.qualifier m digest).map
            (Element.reread method (referenceScope e) b' written') := by
  obtain ⟨b', written', hchildren⟩ := Element.exists_childElements_reread (m := method)
    b written (coveringReference e id m digest)
  rw [coveringReference, childElements_cover] at hchildren
  exact ⟨b', written', hchildren⟩

/-- The children of the covering reference that is read have the right local
parts.  They are in the signature namespace if and only if the canonicalization
is exclusive, or the qualifier of the root stands for that namespace there. -/
theorem names_reread (b written : Bindings) :
    (((coveringReference e id m digest).reread method [e.tag.declarations] b
        written).childElements.map fun c => c.name.localPart)
        = ["Transforms", "DigestMethod", "DigestValue"] ∧
      ((∀ c ∈ ((coveringReference e id m digest).reread method [e.tag.declarations] b
          written).childElements, c.name.space = some signatureSpace) ↔
        method.rule = .exclusive ∨
          (referenceScope e).Gives e.name.qualifier signatureSpace) := by
  obtain ⟨b', written', hchildren⟩ := exists_childElements_reread id m digest method b written
  have hloose := h.allHold_newElements m digest
  rw [hchildren, List.map_map, List.forall_mem_map]
  constructor
  · rw [← localPart_newElements e.name.qualifier m digest]
    refine List.map_congr_left fun c _ => ?_
    exact (c.tag_settledUnder method.rule (referenceScope e)).2.1
  · constructor
    · intro hspaces
      have hmem : transforms e.name.qualifier ∈ newElements e.name.qualifier m digest :=
        List.mem_cons_self ..
      have hspace := (hspaces _ hmem).trans (space_newElements hmem).symm
      rw [Element.name_reread, Element.space_settledUnder_iff (hloose _ hmem),
        isResolved_newElements hmem] at hspace
      exact hspace
    · intro hgives c hc
      rw [← isResolved_newElements hc, ← Element.space_settledUnder_iff (hloose c hc)] at hgives
      rw [Element.name_reread, hgives]
      exact space_newElements hc

section Gives

variable (hgives : (referenceScope e).Gives e.name.qualifier signatureSpace)
include hgives

end Gives

end IsSound

end Presign.SignedInfo
