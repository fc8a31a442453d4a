import Presign.Proofs.SignedInfo.Acceptance
import Presign.Proofs.SignedInfo.Coverage
import Presign.Proofs.Xml.Replacement

/-!
# Covering signed properties again

Prepared data is signed information itself.  What is read of it has the reference to signed
properties in its place, so covering the same properties again renews just this reference.  Its
attributes are as they were, and the elements in it are put in once more.  So the canonical text is
the same (`IsSound.canonical_coverProperties_reread`), although the tree is not: the elements that
are put in declare nothing that was written for those before them.

What the checks ask of signed information has not been touched (`IsSound.isSignable_reread`).
-/

namespace Presign.SignedInfo

open Xml (Element Node Scope FirstElement IsResolved Insertable Bindings CanonicalMethod Rereads
  signatureSpace)

variable {e : Element} {id : String} {m : DigestMethod} {digest : Octets} {method : CanonicalMethod}

/-- What is covered is the first reference to signed properties. -/
theorem coverProperties_eq (p : FirstElement isPropertiesReference e.children) (id : String)
    (m : DigestMethod) (digest : Octets) :
    coverProperties e id m digest
      = ⟨e.tag, p.before ++ ↑(cover e.name.qualifier id m digest p.element) :: p.after⟩ := by
  rw [coverProperties, Element.changeWhere?, Element.changeFirst?_eq p]
  rfl

variable (id m digest) in
/-- The place of the covering reference. -/
theorem exists_place (hcount : ((references e).filter hasPropertiesType).length ≤ 1) :
    ∃ p : FirstElement isPropertiesReference (coverProperties e id m digest).children,
      p.element = coveringReference e id m digest := by
  obtain ⟨before, after, hcovering⟩ := exists_covering e id m digest
  rw [hcovering.eq]
  exact ⟨⟨before, _, after, rfl, isPropertiesReference_coveringReference e id m digest,
    fun n hn => hcovering.absent hcount n (List.mem_append_left _ hn)⟩, rfl⟩

/-- What is read is a reference to signed properties where the document has one. -/
theorem isPropertiesReference_canonicalTree {c : Element} {scope : Scope}
    (h : c.AllHold IsResolved scope) (b written : Bindings) :
    isPropertiesReference (c.canonicalTree method b written).joined = isPropertiesReference c := by
  rw [← h.reread_eq]
  exact isPropertiesReference_reread h.isLoose (Element.allHold_iff.mp h).1.holds b written

/-- Covering what is read of a covering reference puts its elements in again. -/
theorem cover_reread {qualifier : Option String} {old : Element} {scope : Scope}
    (h : (cover qualifier id m digest old).AllHold IsResolved scope) (b written : Bindings) :
    cover qualifier id m digest
        ((cover qualifier id m digest old).canonicalTree method b written).joined
      = ⟨((cover qualifier id m digest old).canonicalTree method b written).tag,
          (cover qualifier id m digest old).children⟩ := by
  have huri := Element.attribute?_reread (m := method) h.isLoose b written "URI"
  rw [h.reread_eq, show (cover qualifier id m digest old).attribute? "URI" = some ("#" ++ id) from
    Element.attribute?_setAttribute old "URI" _] at huri
  rw [cover_eq, Element.setAttribute_eq_self huri]
  rfl

namespace IsSound

variable (h : IsSound e)
include h

section Gives

variable (hgives : (referenceScope e).Gives e.name.qualifier signatureSpace)
include hgives

variable (id m digest) in
/-- All names of covered signed information have their namespaces, where the qualifier of the root
stands for the signature namespace. -/
theorem allHold_isResolved_coverProperties :
    (coverProperties e id m digest).AllHold IsResolved [] :=
  SignedInfo.allHold_coverProperties Xml.stable_isResolved
    (Insertable.isResolved (Element.allHold_iff.mp h.resolved).1.printable.name.2 (by decide)
      (fun _ _ _ _ => Xml.gives_within_iff) fun _ hB => hB) h.resolved hgives

/-- What is read of covered signed information has the same canonical text when it covers the same
properties. -/
theorem canonical_coverProperties_reread :
    (coverProperties ((coverProperties e id m digest).reread method [] [] []) id m
        digest).canonical method
      = (coverProperties e id m digest).canonical method := by
  have hresolved := h.allHold_isResolved_coverProperties id m digest hgives
  have hfits : Node.All Node.Fits [] (coverProperties e id m digest) :=
    Node.All.imp (fun _ _ hn => hn.2) hresolved.isReadable
  have hrereads : Rereads method.rule [] [] [] := ⟨.nil, .nil, rfl, fun _ => rfl⟩
  have hsame (b written : Bindings) (c : Element)
      (hc : (c : Node) ∈ (coverProperties e id m digest).children) :
      isPropertiesReference (c.canonicalTree method b written).joined = isPropertiesReference c :=
    isPropertiesReference_canonicalTree (hresolved.child hc) b written
  have hname : ((coverProperties e id m digest).canonicalTree method [] []).joined.name = e.name :=
    show (coverProperties e id m digest).name = e.name from
      congrArg Xml.Tag.name tag_coverProperties
  obtain ⟨p, hp⟩ := exists_place id m digest h.count
  rw [hresolved.reread_eq, coverProperties_eq (p.reread method _ _ (hsame _ _)), hname]
  refine congrArg String.ofList (Element.canonicalChars_canonicalTag (Node.all_element.mp hfits).1
    hrereads fun b' hb' => ?_)
  refine p.canonicalNodes_reread (Node.all_element.mp hfits).2 hb' (hsame _ _) ?_
  -- what the covering reference held is read and gives way to what was put in in memory
  have hplace := hresolved.child p.mem
  have hfitsPlace := (Xml.allNodes_iff.mp (Node.all_element.mp hfits).2 _ p.mem).here
  change Node.canonicalChars method b' _ (cover e.name.qualifier id m digest
    (p.element.canonicalTree method _ _).joined) = _
  rw [hp] at hplace hfitsPlace ⊢
  rw [coveringReference, cover_reread hplace]
  exact Element.canonicalChars_canonicalTag hfitsPlace hb' fun b'' hb'' =>
    Element.canonicalNodes_children hb''

/-- What is read of covered signed information names the algorithms that it named before. -/
theorem exists_algorithm_reread_iff {localPart uri : String} (hne : "Reference" ≠ localPart) :
    (∃ c, ((coverProperties e id m digest).reread method [] [] []).findChild? signatureSpace localPart
        = some c ∧ c.attribute? "Algorithm" = some uri)
      ↔ ∃ c, e.findChild? signatureSpace localPart = some c ∧
        c.attribute? "Algorithm" = some uri := by
  have hresolved := h.allHold_isResolved_coverProperties id m digest hgives
  have hattribute := hresolved.attribute?_findChild?_reread (m := method) [] [] signatureSpace
    localPart "Algorithm"
  rw [findChild?_coverProperties hne] at hattribute
  rw [← Option.bind_eq_some_iff, ← Option.bind_eq_some_iff, hattribute]

theorem canonicalMethod_reread (hm : canonicalMethod e = .ok method) :
    canonicalMethod ((coverProperties e id m digest).reread method [] [] []) = .ok method :=
  canonicalMethod_eq_ok_iff.mpr ((h.exists_algorithm_reread_iff hgives (by decide)).mpr
    (canonicalMethod_eq_ok_iff.mp hm))

end Gives

end IsSound

end Presign.SignedInfo
