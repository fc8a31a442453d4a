import Presign.Proofs.Xml.Canonical
import Presign.Proofs.Xml.Descendant

/-!
# What is found again

Joining texts and putting into canonical form change a tree, but not what is
asked of it: the names of its elements, the values of attributes without
namespace, the text of an element, and which descendant is found first.  The
canonical text does not depend on how texts are cut.
-/

namespace Presign.Xml

/-! ## Joined text -/

section Joined

theorem Node.text?_eq_some {n : Node} {t : String} (h : n.text? = some t) : n = .text t := by
  cases n <;> cases h
  rfl

theorem filterMap_element?_textNode (s : String) :
    (textNode s).filterMap Node.element? = [] := by
  unfold textNode
  split <;> rfl

theorem element?_joined (n : Node) : n.joined.element? = n.element?.map Element.joined := by
  cases n <;> rfl

theorem childElements_joinFrom (ns : List Node) (s : String) :
    (joinFrom s ns).filterMap Node.element?
      = (ns.filterMap Node.element?).map Element.joined := by
  induction ns generalizing s with
  | nil => rw [joinFrom, filterMap_element?_textNode]; rfl
  | cons n ns ih =>
      cases ht : n.text? with
      | some t =>
          rw [n.text?_eq_some ht, joinFrom_text, ih]
          rfl
      | none =>
          rw [joinFrom_of_not_text ht, List.filterMap_append, filterMap_element?_textNode,
            List.nil_append, List.filterMap_cons, List.filterMap_cons, element?_joined, ih]
          cases n.element? <;> rfl

/-- Texts are joined on both sides of an element. -/
theorem joinFrom_append_coe (s : String) (ns : List Node) (c : Element) (ms : List Node) :
    joinFrom s (ns ++ ↑c :: ms) = joinFrom s ns ++ ↑c.joined :: joinFrom "" ms := by
  induction ns generalizing s with
  | nil => exact joinFrom_of_not_text rfl s ms
  | cons n ns ih =>
      cases ht : n.text? with
      | some t => rw [n.text?_eq_some ht, List.cons_append, joinFrom_text, joinFrom_text, ih]
      | none =>
          rw [List.cons_append, joinFrom_of_not_text ht, joinFrom_of_not_text ht, ih,
            List.append_assoc, List.cons_append]

theorem exists_of_mem_joinFrom {n : Node} {c : Element} {s : String} {ns : List Node}
    (hn : n ∈ joinFrom s ns) (hc : n.element? = some c) :
    ∃ d : Element, ↑d ∈ ns ∧ c = d.joined := by
  have hmem := List.mem_filterMap.mpr ⟨n, hn, hc⟩
  rw [childElements_joinFrom] at hmem
  obtain ⟨d, hd, rfl⟩ := List.mem_map.mp hmem
  exact ⟨d, mem_of_mem_elements hd, rfl⟩

/-- Joining texts keeps where nodes are parted. -/
theorem Element.Leading.joinFrom {before after : List Node} (h : Leading before after) :
    Leading (joinFrom "" before) (joinFrom "" after) := by
  constructor
  · intro n hn
    cases hc : n.element? with
    | none => rfl
    | some c =>
        obtain ⟨d, hd, -⟩ := exists_of_mem_joinFrom hn hc
        cases h.before _ hd
  · cases after with
    | nil => exact fun n hn => by cases hn
    | cons n after =>
        obtain ⟨d, hd⟩ := Option.ne_none_iff_exists'.mp (h.after n rfl)
        rw [Node.eq_coe_of_element? hd, joinFrom_of_not_text rfl]
        exact fun m hm hnone => by cases hm; cases hnone

/-- The first element that satisfies a test is the first among joined nodes, too, if the test does
not look at texts. -/
def FirstElement.joined {test : Element → Bool} {ns : List Node} (p : FirstElement test ns)
    (htest : ∀ c : Element, test c.joined = test c) : FirstElement test (joinFrom "" ns) where
  before := joinFrom "" p.before
  element := p.element.joined
  after := joinFrom "" p.after
  split := by rw [congrArg (joinFrom "") p.split, joinFrom_append_coe]
  holds := (htest p.element).trans p.holds
  absent := by
    intro n hn c hc
    obtain ⟨d, hd, rfl⟩ := exists_of_mem_joinFrom hn hc
    rw [htest]
    exact p.absent _ hd d rfl

/-- The children of a joined element are the joined children. -/
theorem Element.childElements_joined (e : Element) :
    e.joined.childElements = e.childElements.map Element.joined :=
  childElements_joinFrom e.children ""

theorem Element.is_joined (e : Element) (space localPart : String) :
    e.joined.is space localPart = e.is space localPart := rfl

theorem Element.findChild?_joined (e : Element) (space localPart : String) :
    e.joined.findChild? space localPart = (e.findChild? space localPart).map Element.joined := by
  rw [findChild?, findChild?, e.childElements_joined, List.find?_map]
  rfl

theorem Element.findChildren_joined (e : Element) (space localPart : String) :
    e.joined.findChildren space localPart
      = (e.findChildren space localPart).map Element.joined := by
  rw [findChildren, findChildren, e.childElements_joined, List.filter_map]
  rfl

theorem join_textNode (s : String) (ss : List String) :
    String.join ((textNode s).map Element.textOf ++ ss) = s ++ String.join ss := by
  unfold textNode
  split
  · rename_i hs
    rw [hs]
    simp
  · simp [Element.textOf]

theorem textOf_of_not_text {n : Node} (h : n.text? = none) : Element.textOf n.joined = "" ∧
    Element.textOf n = "" := by
  cases n with
  | text s => cases h
  | element tag children => exact ⟨rfl, rfl⟩
  | comment s => exact ⟨rfl, rfl⟩
  | instruction target data => exact ⟨rfl, rfl⟩

theorem text_joinFrom (ns : List Node) (s : String) :
    String.join ((joinFrom s ns).map Element.textOf)
      = s ++ String.join (ns.map Element.textOf) := by
  induction ns generalizing s with
  | nil =>
      have h := join_textNode s []
      rw [List.append_nil] at h
      rw [joinFrom, h]
      rfl
  | cons n ns ih =>
      cases ht : n.text? with
      | some t =>
          rw [n.text?_eq_some ht, joinFrom_text, ih]
          simp [Element.textOf, String.append_assoc]
      | none =>
          obtain ⟨hj, hn⟩ := textOf_of_not_text ht
          rw [joinFrom_of_not_text ht, List.map_append, join_textNode, List.map_cons,
            List.map_cons, hj, hn, String.join_cons, ih, String.join_cons]
          simp

/-- Joining texts does not change the text of an element. -/
theorem Element.text_joined (e : Element) : e.joined.text = e.text := by
  rw [Element.text, Element.text]
  change String.join ((joinFrom "" e.children).map Element.textOf) = _
  rw [text_joinFrom]
  simp

theorem elementsIn_textNode (inherited : List Declaration) (s : String) (ns : List Node) :
    elementsIn inherited (textNode s ++ ns) = elementsIn inherited ns := by
  unfold textNode
  split <;> rfl

mutual

theorem Node.elements_joined :
    ∀ (n : Node) (inherited : List Declaration),
      n.joined.elements inherited
        = (n.elements inherited).map fun p => (p.1.joined, p.2)
  | .element tag children, inherited => by
      rw [Node.joined, Node.elements, Node.elements, elementsIn_joinFrom children, List.map_cons]
      rfl
  | .text _, _ => rfl
  | .comment _, _ => rfl
  | .instruction _ _, _ => rfl

/-- The elements of joined nodes are the joined elements. -/
theorem elementsIn_joinFrom :
    ∀ (ns : List Node) (s : String) (inherited : List Declaration),
      elementsIn inherited (joinFrom s ns)
        = (elementsIn inherited ns).map fun p => (p.1.joined, p.2)
  | [], s, inherited => by
      have h := elementsIn_textNode inherited s []
      rw [List.append_nil] at h
      rw [joinFrom, h]
      rfl
  | n :: ns, s, inherited => by
      cases ht : n.text? with
      | some t =>
          rw [n.text?_eq_some ht, joinFrom_text, elementsIn_joinFrom ns]
          rfl
      | none =>
          rw [joinFrom_of_not_text ht, elementsIn_textNode, elementsIn, elementsIn, List.map_append,
            Node.elements_joined n, elementsIn_joinFrom ns]

end

/-- The same descendant is found, joined. -/
theorem Element.findDescendant?_joined (e : Element) (space localPart : String) :
    e.joined.findDescendant? space localPart
      = (e.findDescendant? space localPart).map fun p => (p.1.joined, p.2) := by
  rw [Element.findDescendant?_eq, Element.findDescendant?_eq, Element.descendants]
  change List.find? _ (elementsIn e.tag.declarations (joinFrom "" e.children)) = _
  rw [elementsIn_joinFrom, List.find?_map]
  rfl

variable {m : CanonicalMethod}

theorem canonicalNodes_textNode (b written : Bindings) (s : String) (ns : List Node) :
    canonicalNodes m b written (textNode s ++ ns)
      = escapeText s ++ canonicalNodes m b written ns := by
  unfold textNode
  split
  · rename_i hs
    rw [hs]
    rfl
  · rw [List.singleton_append, canonicalNodes, Node.canonicalChars]

mutual

theorem Node.canonicalChars_joined :
    ∀ (n : Node) (b written : Bindings),
      n.joined.canonicalChars m b written = n.canonicalChars m b written
  | .element tag children, b, written => by
      rw [Node.joined, Node.canonicalChars, Node.canonicalChars,
        canonicalNodes_joinFrom children, escapeText_empty, List.nil_append]
  | .text _, _, _ => rfl
  | .comment _, _, _ => rfl
  | .instruction _ _, _, _ => rfl

/-- The canonical text of nodes does not change when texts are joined. -/
theorem canonicalNodes_joinFrom :
    ∀ (ns : List Node) (s : String) (b written : Bindings),
      canonicalNodes m b written (joinFrom s ns)
        = escapeText s ++ canonicalNodes m b written ns
  | [], s, b, written => by
      have h := canonicalNodes_textNode (m := m) b written s []
      rw [List.append_nil] at h
      rw [joinFrom, h]
  | n :: ns, s, b, written => by
      cases ht : n.text? with
      | some t =>
          rw [n.text?_eq_some ht, joinFrom_text, canonicalNodes_joinFrom ns, canonicalNodes,
            Node.canonicalChars, escapeText_append, List.append_assoc]
      | none =>
          rw [joinFrom_of_not_text ht, canonicalNodes_textNode, canonicalNodes, canonicalNodes,
            Node.canonicalChars_joined n, canonicalNodes_joinFrom ns, escapeText_empty,
            List.nil_append]

end

theorem canonicalNodes_joinFrom_empty (b written : Bindings) (ns : List Node) :
    canonicalNodes m b written (joinFrom "" ns) = canonicalNodes m b written ns :=
  canonicalNodes_joinFrom ns "" b written

/-- The canonical form of an element does not change when texts are joined. -/
theorem Element.canonicalInScope_joined (e : Element) (inherited : List Declaration) :
    e.joined.canonicalInScope m inherited = e.canonicalInScope m inherited :=
  congrArg String.ofList (Node.canonicalChars_joined (m := m) e _ _)

end Joined

/-! ## Canonical trees -/

section Canonical

variable {m : CanonicalMethod}

theorem element?_canonicalTrees (b written : Bindings) (n : Node) :
    (n.canonicalTrees m b written).filterMap Node.element?
      = (n.element?.map fun c => c.canonicalTree m b written).toList := by
  cases n with
  | element tag children => rfl
  | text s => rfl
  | comment s =>
      rw [Node.canonicalTrees]
      split <;> rfl
  | instruction target data => rfl

theorem childElements_canonicalForest (b written : Bindings) (ns : List Node) :
    (canonicalForest m b written ns).filterMap Node.element?
      = (ns.filterMap Node.element?).map fun c => c.canonicalTree m b written := by
  induction ns with
  | nil => rfl
  | cons n ns ih =>
      rw [canonicalForest, List.filterMap_append, element?_canonicalTrees, ih,
        List.filterMap_cons]
      cases n.element? <;> rfl

theorem canonicalForest_append (b written : Bindings) (ns ms : List Node) :
    canonicalForest m b written (ns ++ ms)
      = canonicalForest m b written ns ++ canonicalForest m b written ms := by
  induction ns with
  | nil => rfl
  | cons n ns ih => rw [List.cons_append, canonicalForest, canonicalForest, ih, List.append_assoc]

/-- The bindings in scope inside of an element. -/
def Element.bindingsInside (b : Bindings) (e : Element) : Bindings :=
  b.declareAll e.tag.declarations

/-- The bindings written around the children of an element. -/
def Element.writtenInside (m : CanonicalMethod) (b written : Bindings) (e : Element) : Bindings :=
  written.update (e.tag.canonicalBindings m.rule (e.bindingsInside b) written)

/-- The children of a canonical tree are the canonical trees of the children. -/
theorem Element.childElements_canonicalTree (b written : Bindings) (e : Element) :
    (e.canonicalTree m b written).childElements
      = e.childElements.map fun c =>
          c.canonicalTree m (e.bindingsInside b) (e.writtenInside m b written) :=
  childElements_canonicalForest _ _ e.children

/-- Two attributes without namespace and with the same local part are one, where
the names of the tag have their namespaces. -/
theorem Tag.eq_of_isPlain {t : Tag} {scope : Scope} (h : t.IsPrintable) (hfits : t.Fits scope)
    {a a' : Attribute} (ha : a ∈ t.attributes) (ha' : a' ∈ t.attributes) {localPart : String}
    (hp : Element.isPlain localPart a = true) (hp' : Element.isPlain localPart a' = true) :
    a = a' := by
  have hkey : ∀ a ∈ t.attributes, Element.isPlain localPart a = true →
      a.name.qualified = localPart := by
    intro a ha hp
    simp only [Element.isPlain, Bool.and_eq_true, beq_iff_eq, Option.isNone_iff_eq_none] at hp
    have hname := attributeName_eq_ok_iff.mp (hfits.attributes a ha)
    cases hq : a.name.qualifier with
    | none => rw [Name.qualified, hq, hp.2]
    | some q =>
        rw [hq] at hname
        obtain ⟨u, hu, -⟩ := hname
        rw [hp.1] at hu
        cases hu
  have hnodup : (t.attributes.map fun a => a.name.qualified).Nodup := by
    have hwritten := h.nodup
    rw [Tag.written, List.map_append, List.nodup_append, List.map_map, List.map_map] at hwritten
    exact hwritten.2.1
  exact List.inj_on_of_nodup_map hnodup ha ha'
    ((hkey a ha hp).trans (hkey a' ha' hp').symm)

/-- The order of the attributes does not matter for the values of those without
namespace. -/
theorem Tag.find?_canonicalAttributes {t : Tag} {scope : Scope} (h : t.IsPrintable)
    (hfits : t.Fits scope) (localPart : String) :
    (canonicalAttributes t.attributes).find? (Element.isPlain localPart)
      = t.attributes.find? (Element.isPlain localPart) := by
  cases hc : (canonicalAttributes t.attributes).find? (Element.isPlain localPart) with
  | none =>
      rw [List.find?_eq_none] at hc
      exact (List.find?_eq_none.mpr fun a ha => hc a (mem_canonicalAttributes.mpr ha)).symm
  | some a =>
      have ha := mem_canonicalAttributes.mp (List.mem_of_find?_eq_some hc)
      cases ht : t.attributes.find? (Element.isPlain localPart) with
      | none => exact absurd (List.find?_some hc) (List.find?_eq_none.mp ht a ha)
      | some a' =>
          rw [Tag.eq_of_isPlain h hfits ha (List.mem_of_find?_eq_some ht) (List.find?_some hc)
            (List.find?_some ht)]

theorem Tag.IsKept.exists_fits {rule : CanonicalRule} {scope : Scope} {t : Tag}
    (h : t.IsKept rule scope) : ∃ scope, t.Fits scope := by
  cases rule with
  | inclusive10 => exact ⟨scope, h⟩
  | inclusive11 => exact ⟨scope, h⟩
  | exclusive => exact h

/-- A canonical tree has the attributes of its element. -/
theorem Element.attribute?_canonicalTree {scope : Scope} {e : Element}
    (h : Node.IsKept m.rule scope e) (b written : Bindings) (localPart : String) :
    (e.canonicalTree m b written).attribute? localPart = e.attribute? localPart := by
  obtain ⟨scope', hfits⟩ := Tag.IsKept.exists_fits h.2
  exact congrArg (Option.map Attribute.value)
    (Tag.find?_canonicalAttributes (t := e.tag) h.1 hfits localPart)

end Canonical

/-! ## Names -/

mutual

/-- The names of all elements of a node, in document order. -/
def Node.names : Node → List Name
  | .element tag children => tag.name :: namesIn children
  | .text _ => []
  | .comment _ => []
  | .instruction _ _ => []

/-- The names of all elements of nodes, in document order. -/
def namesIn : List Node → List Name
  | [] => []
  | n :: ns => n.names ++ namesIn ns

end

theorem namesIn_append (ns ms : List Node) : namesIn (ns ++ ms) = namesIn ns ++ namesIn ms := by
  induction ns with
  | nil => rfl
  | cons n ns ih => rw [List.cons_append, namesIn, namesIn, ih, List.append_assoc]

theorem namesIn_textNode (s : String) (ns : List Node) :
    namesIn (textNode s ++ ns) = namesIn ns := by
  unfold textNode
  split <;> rfl

mutual

theorem Node.names_joined : ∀ n : Node, n.joined.names = n.names
  | .element tag children => by
      rw [Node.joined, Node.names, Node.names, namesIn_joinFrom children]
  | .text _ => rfl
  | .comment _ => rfl
  | .instruction _ _ => rfl

theorem namesIn_joinFrom : ∀ (ns : List Node) (s : String), namesIn (joinFrom s ns) = namesIn ns
  | [], s => by
      have h := namesIn_textNode s []
      rw [List.append_nil] at h
      rw [joinFrom, h]
  | n :: ns, s => by
      cases ht : n.text? with
      | some t =>
          rw [n.text?_eq_some ht, joinFrom_text, namesIn_joinFrom ns]
          rfl
      | none =>
          rw [joinFrom_of_not_text ht, namesIn_textNode, namesIn, namesIn, Node.names_joined n,
            namesIn_joinFrom ns]

end

mutual

theorem Node.names_canonicalTrees {m : CanonicalMethod} :
    ∀ (n : Node) (b written : Bindings), namesIn (n.canonicalTrees m b written) = n.names
  | .element tag children, b, written => by
      rw [Node.canonicalTrees, namesIn, namesIn, List.append_nil, Node.names, Node.names,
        namesIn_canonicalForest children]
      rfl
  | .text _, _, _ => rfl
  | .comment _, _, _ => by
      rw [Node.canonicalTrees]
      split <;> rfl
  | .instruction _ _, _, _ => rfl

theorem namesIn_canonicalForest {m : CanonicalMethod} :
    ∀ (ns : List Node) (b written : Bindings),
      namesIn (canonicalForest m b written ns) = namesIn ns
  | [], _, _ => rfl
  | n :: ns, b, written => by
      rw [canonicalForest, namesIn_append, Node.names_canonicalTrees n,
        namesIn_canonicalForest ns, namesIn]

end

/-- A canonical text that keeps namespaces tells the names of all elements. -/
theorem Element.names_of_canonicalInScope_eq {m : CanonicalMethod} {e e' : Element}
    {scope scope' : Scope} {inherited inherited' : List Declaration}
    (h : Node.All (Node.IsKept m.rule) scope e) (h' : Node.All (Node.IsKept m.rule) scope' e')
    (hnamed : NamedDeclarations inherited) (hnamed' : NamedDeclarations inherited')
    (hm : m.rule = .exclusive)
    (he : e.canonicalInScope m inherited = e'.canonicalInScope m inherited') :
    Node.names e = Node.names e' := by
  have hread := Element.read_canonicalInScope h hnamed (fun hne => absurd hm hne)
  rw [he, Element.read_canonicalInScope h' hnamed' (fun hne => absurd hm hne)] at hread
  have hnames (e : Element) (b : Bindings) :
      Node.names (e.canonicalTree m b []).joined = Node.names e := by
    have htree := Node.names_canonicalTrees (m := m) e b []
    rw [Element.canonicalTrees_coe, namesIn, namesIn, List.append_nil] at htree
    exact (Node.names_joined _).trans htree
  have hjoined := Except.ok.inj hread
  rw [← hnames e, ← hnames e', hjoined]

end Presign.Xml
