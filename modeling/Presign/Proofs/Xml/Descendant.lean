import Presign.Proofs.Xml.Edit

/-!
# Descendants in document order

`elementsIn` lists the elements of nodes in document order, each with the
declarations that it inherits.  A search for a descendant is a search in this
list (`findDescendant?_eq`).  The search keeps the declarations on the way in one
list.  Where it turns back, it leaves the list as it was (`searchNodes_eq`).
-/

namespace Presign.Xml

/-! ## The list of elements -/

mutual

/-- The elements of a node in document order, with the declarations that each
inherits. -/
def Node.elements (inherited : List Declaration) : Node → List (Element × List Declaration)
  | .element tag children =>
    (⟨tag, children⟩, inherited) :: elementsIn (inherited ++ tag.declarations) children
  | .text _ => []
  | .comment _ => []
  | .instruction _ _ => []

/-- The elements of nodes in document order, with the declarations that each
inherits. -/
def elementsIn (inherited : List Declaration) : List Node → List (Element × List Declaration)
  | [] => []
  | n :: ns => n.elements inherited ++ elementsIn inherited ns

end

/-- The descendants of an element in document order, with the declarations that
each inherits. -/
def Element.descendants (e : Element) : List (Element × List Declaration) :=
  elementsIn e.tag.declarations e.children

variable {inherited : List Declaration}

theorem elementsIn_append (ns ms : List Node) :
    elementsIn inherited (ns ++ ms) = elementsIn inherited ns ++ elementsIn inherited ms := by
  induction ns with
  | nil => rfl
  | cons n ns ih => rw [List.cons_append, elementsIn, elementsIn, ih, List.append_assoc]

theorem elementsIn_coe_cons (e : Element) (ns : List Node) :
    elementsIn inherited (↑e :: ns)
      = (e, inherited) :: (elementsIn (inherited ++ e.tag.declarations) e.children
          ++ elementsIn inherited ns) := by
  rw [elementsIn, Node.elements, List.cons_append]

theorem elementsIn_of_not_element {ns : List Node} (h : ∀ n ∈ ns, n.element? = none) :
    elementsIn inherited ns = [] := by
  induction ns with
  | nil => rfl
  | cons n ns ih =>
      have hn := h n (List.mem_cons_self ..)
      rw [elementsIn, ih fun m hm => h m (List.mem_cons_of_mem _ hm)]
      cases n with
      | element tag children => cases hn
      | text s => rfl
      | comment s => rfl
      | instruction target data => rfl

/-! ## Search -/

/-- What a search returns: what is found, with the declarations that it
inherits, or nothing, with those that the search began with. -/
def searchResult (inherited : List Declaration) :
    Option (Element × List Declaration) → Option Element × List Declaration
  | some (e, declarations) => (some e, declarations)
  | none => (none, inherited)

mutual

/-- A search of a node is a search in the list of its elements.  If it is in vain,
the declarations are left as they were. -/
theorem searchNode_eq (space localPart : String) :
    ∀ (n : Node) (inherited : List Declaration),
      Element.searchNode space localPart inherited n
        = searchResult inherited
            ((n.elements inherited).find? fun p => p.1.is space localPart)
  | .element tag children, inherited => by
      rw [Element.searchNode, Node.elements]
      split
      · rename_i h
        rw [List.find?_cons_of_pos (by exact h)]
        rfl
      · rename_i h
        rw [List.find?_cons_of_neg (by exact h), searchNodes_eq]
        cases (elementsIn (inherited ++ tag.declarations) children).find?
            fun p => p.1.is space localPart with
        | some found => rfl
        | none =>
            -- what is cut off is what the element added
            simp only [searchResult, List.take_left]
  | .text _, _ => by rw [Element.searchNode, Node.elements, List.find?_nil, searchResult]
  | .comment _, _ => by rw [Element.searchNode, Node.elements, List.find?_nil, searchResult]
  | .instruction _ _, _ => by rw [Element.searchNode, Node.elements, List.find?_nil, searchResult]

theorem searchNodes_eq (space localPart : String) :
    ∀ (ns : List Node) (inherited : List Declaration),
      Element.searchNodes space localPart inherited ns
        = searchResult inherited
            ((elementsIn inherited ns).find? fun p => p.1.is space localPart)
  | [], _ => by rw [Element.searchNodes, elementsIn, List.find?_nil, searchResult]
  | n :: ns, inherited => by
      rw [Element.searchNodes, elementsIn, List.find?_append, searchNode_eq]
      cases (n.elements inherited).find? fun p => p.1.is space localPart with
      | some found => rfl
      | none => exact searchNodes_eq space localPart ns inherited

end

theorem findInNodes?_eq (space localPart : String) (ns : List Node)
    (inherited : List Declaration) :
    Element.findInNodes? space localPart inherited ns
      = (elementsIn inherited ns).find? fun p => p.1.is space localPart := by
  rw [Element.findInNodes?, searchNodes_eq]
  cases (elementsIn inherited ns).find? fun p => p.1.is space localPart with
  | some found => rfl
  | none => rfl

/-- A search for a descendant finds the first one in document order. -/
theorem Element.findDescendant?_eq (e : Element) (space localPart : String) :
    e.findDescendant? space localPart
      = e.descendants.find? fun p => p.1.is space localPart :=
  findInNodes?_eq space localPart e.children e.tag.declarations

/-- An element of a list is the first that satisfies a test if and only if none
before it does. -/
theorem findIdx?_eq_length_iff {α : Type} {p : α → Bool} {x : α} (hx : p x = true)
    (before after : List α) :
    (before ++ x :: after).findIdx? p = some before.length ↔ before.find? p = none := by
  rw [List.findIdx?_append, List.findIdx?_cons, if_pos hx]
  cases h : before.findIdx? p with
  | none =>
      rw [List.findIdx?_eq_none_iff] at h
      simp only [Option.none_or, Option.map_some, Nat.zero_add, true_iff, List.find?_eq_none]
      intro y hy
      rw [h y hy]
      exact Bool.false_ne_true
  | some i =>
      rw [List.findIdx?_eq_some_iff_getElem] at h
      obtain ⟨hlt, hp, -⟩ := h
      rw [Option.some_or, Option.some.injEq, List.find?_eq_none]
      constructor
      · intro he
        omega
      · intro hnone
        exact absurd hp (hnone _ (List.getElem_mem hlt))

/-! ## What stands before a child -/

/-- The nodes before the first element with a name, or all nodes. -/
def beforeFirst (space localPart : String) (ns : List Node) : List Node :=
  ns.takeWhile fun n => !Element.isNamed space localPart n

theorem FirstElement.beforeFirst_eq {space localPart : String} {ns : List Node}
    (p : FirstElement (fun c => c.is space localPart) ns) :
    beforeFirst space localPart ns = p.before := by
  obtain ⟨before, element, after, split, holds, absent⟩ := p
  subst split
  have hbefore : ∀ n ∈ before, (!Element.isNamed space localPart n) = true := by
    intro n hn
    unfold Element.isNamed
    cases he : n.element? with
    | none => rfl
    | some c => simpa using absent n hn c he
  have helement : Element.isNamed space localPart element = true := holds
  rw [beforeFirst, List.takeWhile_append_of_pos hbefore,
    List.takeWhile_cons_of_neg (by simp [helement]), List.append_nil]

/-- The elements that stand before the first child with a name, if there is
one. -/
def Element.elementsBefore (inherited : List Declaration) (e : Element)
    (space localPart : String) : List (Element × List Declaration) :=
  if (e.findChild? space localPart).isSome then
    elementsIn inherited (beforeFirst space localPart e.children)
  else []

/-- A child that is changed or inserted is the first with its name.  The nodes
before it stood there before the change, and so did the elements among them. -/
theorem Element.exists_changeOrInsert (e : Element) {space localPart : String} (fresh : Element)
    (f : Element → Element) (hfresh : fresh.is space localPart = true)
    (keeps : ∀ c, (f c).name = c.name) :
    ∃ p : FirstElement (fun c => c.is space localPart)
        (e.changeOrInsert space localPart fresh f).children,
      p.element = f ((e.findChild? space localPart).getD fresh) ∧
        (∀ n ∈ p.before, n ∈ e.children) ∧
        ∀ inherited,
          elementsIn inherited p.before = e.elementsBefore inherited space localPart := by
  have hkeeps : ∀ c : Element, c.is space localPart = true → (f c).is space localPart = true := by
    intro c hc
    rw [Element.is, keeps]
    exact hc
  rcases e.changeOrInsert_cases space localPart fresh f with ⟨p, h⟩ | ⟨hnone, h⟩
  · have hfound : e.findChild? space localPart = some p.element := p.find?
    rw [h, hfound]
    refine ⟨⟨p.before, f p.element, p.after, rfl, hkeeps _ p.holds, p.absent⟩, rfl,
      fun n hn => p.split ▸ List.mem_append_left _ hn, fun _ => ?_⟩
    rw [elementsBefore, hfound, Option.isSome_some, if_pos rfl, p.beforeFirst_eq]
  · have hfound : e.findChild? space localPart = none := find?_of_noElement hnone
    obtain ⟨before, after, hchildren, hinsert, hbefore⟩ :=
      Element.insertIn_zero (f fresh) e.children
    rw [h, hfound, Element.insertElement]
    refine ⟨⟨before, f fresh, after, hinsert, hkeeps _ hfresh, fun n hn c hc => ?_⟩, rfl,
      fun n hn => hchildren ▸ List.mem_append_left _ hn, fun _ => ?_⟩
    · rw [hbefore n hn] at hc
      cases hc
    · rw [elementsBefore, hfound, elementsIn_of_not_element hbefore]
      rfl

end Presign.Xml
