import Presign.Proofs.Xml.Settled

/-!
# What a canonical text is read as

Under the exclusive rule a canonical text tells the namespace of every name, so
the tree that is read has the names of the tree in memory.  Under an inclusive
rule the text tells qualifiers only, and the tree that is read has the names of
the settled tree.  `Element.reread` is that tree, for an element anywhere in the
document.
-/

namespace Presign.Xml

variable {m : CanonicalMethod} {scope : Scope}

/-- The element whose names a canonical text tells. -/
def Element.settledUnder (rule : CanonicalRule) (scope : Scope) (e : Element) : Element :=
  match rule with
  | .exclusive => e
  | _ => e.settled scope

/-- The element that is read where a canonical text has an element, given the
bindings in scope and those written around it. -/
def Element.reread (m : CanonicalMethod) (scope : Scope) (b written : Bindings) (e : Element) :
    Element := ((e.settledUnder m.rule scope).canonicalTree m b written).joined

/-! ## Settled elements -/

theorem Element.settledUnder_eq {rule : CanonicalRule} (h : rule ≠ .exclusive) (e : Element) :
    e.settledUnder rule scope = e.settled scope := by
  cases rule with
  | exclusive => exact absurd rfl h
  | inclusive10 => rfl
  | inclusive11 => rfl

theorem Element.childElements_settledUnder (rule : CanonicalRule) (e : Element) :
    (e.settledUnder rule scope).childElements
      = e.childElements.map (Element.settledUnder rule (e.tag.declarations :: scope)) := by
  cases rule with
  | exclusive => exact (List.map_id _).symm
  | inclusive10 => exact e.childElements_settled
  | inclusive11 => exact e.childElements_settled

/-- Apart from the namespace of its name, settling leaves a tag as it is. -/
theorem Element.tag_settledUnder (rule : CanonicalRule) (scope : Scope) (e : Element) :
    (e.settledUnder rule scope).tag.name.qualifier = e.tag.name.qualifier ∧
      (e.settledUnder rule scope).tag.name.localPart = e.tag.name.localPart ∧
      (e.settledUnder rule scope).tag.attributes = e.tag.attributes := by
  obtain ⟨hqualifier, hlocal, -, hattributes⟩ := e.tag.settled_spec scope
  cases rule with
  | exclusive => exact ⟨rfl, rfl, rfl⟩
  | inclusive10 => exact ⟨hqualifier, hlocal, hattributes⟩
  | inclusive11 => exact ⟨hqualifier, hlocal, hattributes⟩

/-- A canonical text tells the name of an element under the exclusive rule, and
else if the name has its namespace. -/
theorem Element.name_settledUnder_iff {e : Element} (h : e.AllHold IsLoose scope)
    (rule : CanonicalRule) :
    (e.settledUnder rule scope).name = e.name ↔ rule = .exclusive ∨ IsResolved scope e.tag := by
  obtain ⟨⟨n, hn⟩, -⟩ := (Element.allHold_iff.mp h).1.holds
  have hsettled : (e.settled scope).name = e.name ↔ IsResolved scope e.tag := by
    rw [Element.name, Element.settled, Tag.settled_eq_of_ok hn, IsResolved, hn, Except.ok.injEq]
    rfl
  by_cases hrule : rule = .exclusive
  · rw [hrule]
    exact ⟨fun _ => Or.inl rfl, fun _ => rfl⟩
  · rw [Element.settledUnder_eq hrule, hsettled]
    exact ⟨Or.inr, fun h => h.resolve_left hrule⟩

theorem Element.space_settledUnder_iff {e : Element} (h : e.AllHold IsLoose scope)
    (rule : CanonicalRule) :
    (e.settledUnder rule scope).name.space = e.name.space ↔
      rule = .exclusive ∨ IsResolved scope e.tag := by
  obtain ⟨hqualifier, hlocal, -⟩ := e.tag_settledUnder rule scope
  rw [← Element.name_settledUnder_iff h rule]
  constructor
  · intro hspace
    exact Name.eq_of_parts hqualifier hlocal hspace
  · intro hname
    rw [hname]

/-- Settled names are kept under the rule that they are settled for. -/
theorem Element.AllHold.isKept_settledUnder {e : Element} (h : e.AllHold IsLoose scope)
    (rule : CanonicalRule) : Node.All (Node.IsKept rule) scope (e.settledUnder rule scope) := by
  cases rule with
  | exclusive => exact h.isKept_exclusive
  | inclusive10 => exact h.settled.isKept .inclusive10
  | inclusive11 => exact h.settled.isKept .inclusive11

/-! ## Reading -/

/-- What the canonical text of an element is read as. -/
theorem Element.AllHold.read_canonical {e : Element} (h : e.AllHold IsLoose [])
    (m : CanonicalMethod) :
    Element.read (Text.encode (e.canonical m)) = .ok (e.reread m [] [] []) := by
  have htext : e.canonical m = (e.settledUnder m.rule []).canonicalInScope m [] := by
    by_cases hm : m.rule = .exclusive
    · rw [hm]
      rfl
    · rw [Element.settledUnder_eq hm]
      exact congrArg String.ofList (Node.canonicalChars_settled hm e [] [] []).symm
  have hnamed : NamedDeclarations [] := fun d hd => by cases hd
  rw [htext, Element.read_canonicalInScope (h.isKept_settledUnder m.rule) hnamed
    (fun _ => Mirrors.nil)]
  rfl

/-- The children of what is read are read in their places. -/
theorem Element.exists_childElements_reread (b written : Bindings) (e : Element) :
    ∃ b' written', (e.reread m scope b written).childElements
      = e.childElements.map (Element.reread m (e.tag.declarations :: scope) b' written') := by
  refine ⟨(e.settledUnder m.rule scope).bindingsInside b,
    (e.settledUnder m.rule scope).writtenInside m b written, ?_⟩
  rw [Element.reread, Element.childElements_joined, Element.childElements_canonicalTree,
    Element.childElements_settledUnder, List.map_map, List.map_map]
  rfl

theorem Element.attribute?_reread {e : Element} (h : e.AllHold IsLoose scope) (b written : Bindings)
    (localPart : String) :
    (e.reread m scope b written).attribute? localPart = e.attribute? localPart := by
  have hkept := (h.isKept_settledUnder m.rule).here
  change ((e.settledUnder m.rule scope).canonicalTree m b written).attribute? localPart = _
  rw [Element.attribute?_canonicalTree hkept, Element.attribute?,
    (e.tag_settledUnder m.rule scope).2.2]
  rfl

theorem Element.name_reread (b written : Bindings) (e : Element) :
    (e.reread m scope b written).name = (e.settledUnder m.rule scope).name := rfl

/-- Where all names have their namespaces, what is read is the canonical tree. -/
theorem Element.AllHold.reread_eq {e : Element} (h : e.AllHold IsResolved scope)
    (b written : Bindings) :
    e.reread m scope b written = (e.canonicalTree m b written).joined := by
  rw [Element.reread]
  by_cases hm : m.rule = .exclusive
  · rw [hm]
    rfl
  · rw [Element.settledUnder_eq hm, h.settled_eq_self]

theorem Element.name_reread_of_isResolved {e : Element} (h : e.AllHold IsLoose scope)
    (hname : IsResolved scope e.tag) (b written : Bindings) :
    (e.reread m scope b written).name = e.name :=
  (Element.name_settledUnder_iff h m.rule).mpr (Or.inr hname)

/-- The children of what is read are found by the names that they have in memory. -/
theorem Element.AllHold.exists_findChild?_reread {e : Element} (h : e.AllHold IsResolved scope)
    (b written : Bindings) :
    ∃ b' written', ∀ space localPart, (e.reread m scope b written).findChild? space localPart
      = (e.findChild? space localPart).map
          (Element.reread m (e.tag.declarations :: scope) b' written') := by
  obtain ⟨b', written', hchildren⟩ : ∃ b' written', (e.reread m scope b written).childElements
      = e.childElements.map (Element.reread m (e.tag.declarations :: scope) b' written') :=
    Element.exists_childElements_reread b written e
  refine ⟨b', written', fun space localPart => ?_⟩
  rw [Element.findChild?, Element.findChild?, hchildren, List.find?_map, ← List.head?_filter,
    ← List.head?_filter]
  refine congrArg _ (congrArg _ (List.filter_congr fun c hc => ?_))
  have hchild := h.child (Element.mem_of_mem_childElements hc)
  rw [Function.comp_apply, Element.is, Element.is,
    Element.name_reread_of_isResolved hchild.isLoose (Element.allHold_iff.mp hchild).1.holds]

/-- The attributes of its children are found by their names, too. -/
theorem Element.AllHold.attribute?_findChild?_reread {e : Element} (h : e.AllHold IsResolved scope)
    (b written : Bindings) (space localPart key : String) :
    ((e.reread m scope b written).findChild? space localPart).bind (fun c => c.attribute? key)
      = (e.findChild? space localPart).bind fun c => c.attribute? key := by
  obtain ⟨b', written', hfind⟩ := h.exists_findChild?_reread (m := m) b written
  rw [hfind]
  cases hc : e.findChild? space localPart with
  | none => rfl
  | some c =>
      have hchild := h.child (Element.mem_of_findChild? hc)
      exact Element.attribute?_reread hchild.isLoose b' written' key

end Presign.Xml
