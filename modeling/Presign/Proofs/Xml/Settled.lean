import Presign.Proofs.Xml.Content
import Presign.Proofs.Xml.Edited
import Presign.Proofs.Xml.Reading

/-!
# Names as the scope settles them

A tree is written with qualifiers only.  So what is read back has the
namespaces that the qualifiers stand for where they are written, whatever the
names in memory say.  `Node.settled scope` is the tree with these namespaces.
Both trees are written alike, and they are equal exactly if all names of
elements have their namespaces already.
-/

namespace Presign.Xml

/-! ## Settled trees -/

/-- A tag whose name has the namespace that its qualifier stands for. -/
def Tag.settled (scope : Scope) (t : Tag) : Tag :=
  match Scope.elementName (t.declarations :: scope) t.name.qualifier t.name.localPart with
  | .ok n => { t with name := n }
  | .error _ => t

mutual

/-- A node whose elements have the namespaces that their qualifiers stand
for. -/
def Node.settled (scope : Scope) : Node → Node
  | .element tag children =>
    .element (tag.settled scope) (settledNodes (tag.declarations :: scope) children)
  | .text s => .text s
  | .comment s => .comment s
  | .instruction target data => .instruction target data

/-- Nodes whose elements have the namespaces that their qualifiers stand for. -/
def settledNodes (scope : Scope) : List Node → List Node
  | [] => []
  | n :: ns => n.settled scope :: settledNodes scope ns

end

/-- An element in which all elements have the namespaces that their qualifiers
stand for. -/
def Element.settled (scope : Scope) (e : Element) : Element :=
  ⟨e.tag.settled scope, settledNodes (e.tag.declarations :: scope) e.children⟩

variable {scope : Scope}

/-! ## Tags -/

theorem Tag.settled_eq_of_ok {t : Tag} {n : Name}
    (h : Scope.elementName (t.declarations :: scope) t.name.qualifier t.name.localPart = .ok n) :
    t.settled scope = { t with name := n } := by
  rw [Tag.settled, h]

theorem Tag.settled_eq_self {t : Tag} (h : IsResolved scope t) : t.settled scope = t :=
  Tag.settled_eq_of_ok h

/-- Settling leaves everything of a tag but the namespace of its name. -/
theorem Tag.settled_spec (scope : Scope) (t : Tag) :
    (t.settled scope).name.qualifier = t.name.qualifier ∧
      (t.settled scope).name.localPart = t.name.localPart ∧
      (t.settled scope).declarations = t.declarations ∧
      (t.settled scope).attributes = t.attributes := by
  unfold Tag.settled
  split
  · rename_i n hn
    obtain ⟨hq, hl⟩ := parts_of_elementName hn
    exact ⟨hq, hl, rfl, rfl⟩
  · exact ⟨rfl, rfl, rfl, rfl⟩

theorem Tag.qualified_settled (scope : Scope) (t : Tag) :
    (t.settled scope).name.qualified = t.name.qualified := by
  obtain ⟨hq, hl, -, -⟩ := t.settled_spec scope
  rw [Name.qualified, Name.qualified, hq, hl]

theorem Tag.written_settled (scope : Scope) (t : Tag) : (t.settled scope).written = t.written := by
  obtain ⟨-, -, hd, ha⟩ := t.settled_spec scope
  rw [Tag.written, Tag.written, hd, ha]

theorem Tag.chars_settled (scope : Scope) (t : Tag) : (t.settled scope).chars = t.chars := by
  rw [Tag.chars_eq, Tag.chars_eq, Tag.inside, Tag.inside, t.written_settled, t.qualified_settled]

theorem Tag.endChars_settled (scope : Scope) (t : Tag) :
    (t.settled scope).endChars = t.endChars := by
  rw [Tag.endChars, Tag.endChars, t.qualified_settled]

theorem Tag.settled_holds {t : Tag} (h : t.Holds IsLoose scope) :
    (t.settled scope).Holds IsResolved scope := by
  obtain ⟨⟨n, hn⟩, -⟩ := h.holds
  obtain ⟨hq, hl, hd, ha⟩ := t.settled_spec scope
  refine ⟨⟨?_, ?_, ?_, ?_⟩, ?_, ?_⟩
  · exact ⟨hl ▸ h.printable.name.1, hq ▸ h.printable.name.2⟩
  · exact hd ▸ h.printable.declared
  · exact ha ▸ h.printable.attributes
  · exact t.written_settled scope ▸ h.printable.nodup
  · rw [ha, hd]
    exact h.attributes
  · rw [IsResolved, hq, hl, hd, hn, Tag.settled_eq_of_ok hn]

theorem IsResolved.isLoose {t : Tag} (h : t.Holds IsResolved scope) : t.Holds IsLoose scope :=
  ⟨h.printable, h.attributes, ⟨_, h.holds⟩, scope, h.fits⟩

/-! ## Trees -/

mutual

theorem Node.settled_eq_self :
    ∀ {n : Node} {scope : Scope}, n.All (Node.Holds IsResolved) scope → n.settled scope = n
  | .element tag children, _, h => by
      rw [Node.settled, Tag.settled_eq_self h.here.holds, settledNodes_eq_self h.children]
  | .text _, _, _ => rfl
  | .comment _, _, _ => rfl
  | .instruction _ _, _, _ => rfl

theorem settledNodes_eq_self :
    ∀ {ns : List Node} {scope : Scope}, AllNodes (Node.Holds IsResolved) scope ns →
      settledNodes scope ns = ns
  | [], _, _ => rfl
  | n :: ns, _, h => by
      rw [AllNodes] at h
      rw [settledNodes, Node.settled_eq_self h.1, settledNodes_eq_self h.2]

end

theorem settledNodes_append (ns ms : List Node) :
    settledNodes scope (ns ++ ms) = settledNodes scope ns ++ settledNodes scope ms := by
  induction ns with
  | nil => rfl
  | cons n ns ih => rw [List.cons_append, settledNodes, settledNodes, ih, List.cons_append]

mutual

/-- Settled names have their namespaces. -/
theorem Node.all_settled :
    ∀ {n : Node} {scope : Scope}, n.All (Node.Holds IsLoose) scope →
      (n.settled scope).All (Node.Holds IsResolved) scope
  | .element tag children, scope, h => by
      rw [Node.settled, Node.all_element, (tag.settled_spec scope).2.2.1]
      exact ⟨Tag.settled_holds h.here, allNodes_settledNodes h.children⟩
  | .text _, _, h => by rw [Node.settled, Node.All]; trivial
  | .comment _, _, h => by rw [Node.settled, Node.All]; exact h.here
  | .instruction _ _, _, h => by rw [Node.settled, Node.All]; exact h.here

theorem allNodes_settledNodes :
    ∀ {ns : List Node} {scope : Scope}, AllNodes (Node.Holds IsLoose) scope ns →
      AllNodes (Node.Holds IsResolved) scope (settledNodes scope ns)
  | [], _, _ => by rw [settledNodes, AllNodes]; trivial
  | n :: ns, _, h => by
      rw [AllNodes] at h
      rw [settledNodes, AllNodes]
      exact ⟨Node.all_settled h.1, allNodes_settledNodes h.2⟩

end

mutual

/-- A settled tree is written as the tree itself. -/
theorem Node.chars_settled :
    ∀ (n : Node) (scope : Scope), (n.settled scope).chars = n.chars
  | .element tag children, scope => by
      have hempty : (settledNodes (tag.declarations :: scope) children).isEmpty
          = children.isEmpty := by
        cases children <;> rfl
      rw [Node.settled, Node.chars, Node.chars, elementChars, elementChars, hempty,
        tag.chars_settled, tag.qualified_settled, nodesChars_settledNodes children]
  | .text _, _ => rfl
  | .comment _, _ => rfl
  | .instruction _ _, _ => rfl

theorem nodesChars_settledNodes :
    ∀ (ns : List Node) (scope : Scope), nodesChars (settledNodes scope ns) = nodesChars ns
  | [], _ => rfl
  | n :: ns, scope => by
      rw [settledNodes, nodesChars, nodesChars, Node.chars_settled n, nodesChars_settledNodes ns]

end

/-- Under an inclusive rule, the canonical tag does not look at the namespace of
the name. -/
theorem Tag.canonicalChars_settled (scope : Scope) (t : Tag) (declared : Bindings) :
    (t.settled scope).canonicalChars declared = t.canonicalChars declared := by
  obtain ⟨-, -, -, ha⟩ := t.settled_spec scope
  rw [Tag.canonicalChars, Tag.canonicalChars, t.qualified_settled, ha]

mutual

/-- Under an inclusive rule, a settled tree has the canonical text of the tree
itself. -/
theorem Node.canonicalChars_settled {m : CanonicalMethod} (hm : m.rule ≠ .exclusive) :
    ∀ (n : Node) (scope : Scope) (b written : Bindings),
      (n.settled scope).canonicalChars m b written = n.canonicalChars m b written
  | .element tag children, scope, b, written => by
      obtain ⟨-, -, hd, -⟩ := tag.settled_spec scope
      have hbindings (b' : Bindings) : (tag.settled scope).canonicalBindings m.rule b' written
          = tag.canonicalBindings m.rule b' written := by
        cases hr : m.rule with
        | exclusive => exact absurd hr hm
        | inclusive10 => rfl
        | inclusive11 => rfl
      rw [Node.settled, Node.canonicalChars, Node.canonicalChars, hd, hbindings,
        tag.canonicalChars_settled, tag.endChars_settled, canonicalNodes_settledNodes hm children]
  | .text _, _, _, _ => rfl
  | .comment _, _, _, _ => rfl
  | .instruction _ _, _, _, _ => rfl

theorem canonicalNodes_settledNodes {m : CanonicalMethod} (hm : m.rule ≠ .exclusive) :
    ∀ (ns : List Node) (scope : Scope) (b written : Bindings),
      canonicalNodes m b written (settledNodes scope ns) = canonicalNodes m b written ns
  | [], _, _, _ => rfl
  | n :: ns, scope, b, written => by
      rw [settledNodes, canonicalNodes, canonicalNodes, Node.canonicalChars_settled hm n,
        canonicalNodes_settledNodes hm ns]

end

mutual

theorem Node.length_names_settled :
    ∀ (n : Node) (scope : Scope), (n.settled scope).names.length = n.names.length
  | .element tag children, scope => by
      rw [Node.settled, Node.names, Node.names, List.length_cons, List.length_cons,
        length_namesIn_settledNodes children]
  | .text _, _ => rfl
  | .comment _, _ => rfl
  | .instruction _ _, _ => rfl

theorem length_namesIn_settledNodes :
    ∀ (ns : List Node) (scope : Scope),
      (namesIn (settledNodes scope ns)).length = (namesIn ns).length
  | [], _ => rfl
  | n :: ns, scope => by
      rw [settledNodes, namesIn, namesIn, List.length_append, List.length_append,
        Node.length_names_settled n, length_namesIn_settledNodes ns]

end

mutual

/-- If settling changes no name, then all names have their namespaces. -/
theorem Node.all_isResolved_of_names :
    ∀ {n : Node} {scope : Scope}, n.All (Node.Holds IsLoose) scope →
      (n.settled scope).names = n.names → n.All (Node.Holds IsResolved) scope
  | .element tag children, scope, h, hnames => by
      rw [Node.settled, Node.names, Node.names, List.cons.injEq] at hnames
      have htag : tag.Holds IsLoose scope := h.here
      obtain ⟨⟨n, hn⟩, -⟩ := htag.holds
      rw [Tag.settled_eq_of_ok hn] at hnames
      have hresolved : IsResolved scope tag := by
        rw [IsResolved, hn]
        exact congrArg Except.ok hnames.1
      exact Node.all_element.mpr ⟨⟨htag.printable, htag.attributes, hresolved⟩,
        allNodes_isResolved_of_names h.children hnames.2⟩
  | .text _, _, h, _ => by rw [Node.All]; trivial
  | .comment _, _, h, _ => by rw [Node.All]; exact h.here
  | .instruction _ _, _, h, _ => by rw [Node.All]; exact h.here

theorem allNodes_isResolved_of_names :
    ∀ {ns : List Node} {scope : Scope}, AllNodes (Node.Holds IsLoose) scope ns →
      namesIn (settledNodes scope ns) = namesIn ns → AllNodes (Node.Holds IsResolved) scope ns
  | [], _, _, _ => by rw [AllNodes]; trivial
  | n :: ns, scope, h, hnames => by
      rw [AllNodes] at h ⊢
      rw [settledNodes, namesIn, namesIn] at hnames
      obtain ⟨hn, hns⟩ := List.append_inj hnames (n.length_names_settled scope)
      exact ⟨Node.all_isResolved_of_names h.1 hn, allNodes_isResolved_of_names h.2 hns⟩

end

/-! ## Elements -/

theorem Element.childElements_settled (e : Element) :
    (e.settled scope).childElements
      = e.childElements.map fun c => c.settled (e.tag.declarations :: scope) := by
  rw [Element.childElements, Element.childElements]
  change (settledNodes _ e.children).filterMap _ = _
  induction e.children with
  | nil => rfl
  | cons n ns ih =>
      rw [settledNodes, List.filterMap_cons, List.filterMap_cons, ih]
      cases n <;> rfl

/-- All names of a document have their namespaces. -/
theorem Element.allHold_of_read {bs : Octets} {e : Element} (h : Element.read bs = .ok e)
    (hnames : e.IsWellNamed) : e.AllHold IsResolved [] :=
  ((Element.all_wasRead h).and hnames).imp fun _ _ hn =>
    Node.holds_isResolved_iff.mpr (Node.isReadable_of_wasRead hn.1 hn.2)

theorem Element.AllHold.isReadable {e : Element} (h : e.AllHold IsResolved scope) :
    Node.All Node.IsReadable scope e := h.imp fun _ _ => Node.holds_isResolved_iff.mp

theorem Element.AllHold.settled {e : Element} (h : e.AllHold IsLoose scope) :
    (e.settled scope).AllHold IsResolved scope := Node.all_settled h

theorem Element.AllHold.isLoose {e : Element} (h : e.AllHold IsResolved scope) :
    e.AllHold IsLoose scope := by
  refine h.imp fun _ n hn => ?_
  cases n with
  | element tag children => exact IsResolved.isLoose hn
  | text s => trivial
  | comment s => exact hn
  | instruction target data => exact hn

theorem Element.render_settled (e : Element) : (e.settled scope).render = e.render :=
  congrArg String.ofList (Node.chars_settled e scope)

/-- A written tree is read as the settled tree. -/
theorem Element.AllHold.read_render {e : Element} (h : e.AllHold IsLoose []) :
    Element.read (Text.encode e.render) = .ok (e.settled []).joined := by
  have hrender : (e.settled []).render = e.render := e.render_settled
  rw [← hrender]
  exact Element.read_render h.settled.isReadable

/-- Names that have their namespaces keep them under every rule. -/
theorem Element.AllHold.isKept {e : Element} (h : e.AllHold IsResolved scope)
    (rule : CanonicalRule) : Node.All (Node.IsKept rule) scope e := by
  refine h.imp fun s n hn => ?_
  cases n with
  | element tag children =>
      refine ⟨hn.printable, ?_⟩
      have hfits : tag.Fits s := Tag.Holds.fits hn
      cases rule with
      | inclusive10 => exact hfits
      | inclusive11 => exact hfits
      | exclusive => exact ⟨s, hfits⟩
  | text s => exact ⟨trivial, trivial⟩
  | comment s => exact ⟨hn, trivial⟩
  | instruction target data => exact ⟨hn, trivial⟩

/-- Loose names are kept under the exclusive rule. -/
theorem Element.AllHold.isKept_exclusive {e : Element} (h : e.AllHold IsLoose scope) :
    Node.All (Node.IsKept .exclusive) scope e := by
  refine h.imp fun s n hn => ?_
  cases n with
  | element tag children => exact ⟨hn.printable, hn.holds.2⟩
  | text s => exact ⟨trivial, trivial⟩
  | comment s => exact ⟨hn, trivial⟩
  | instruction target data => exact ⟨hn, trivial⟩

theorem Element.AllHold.settled_eq_self {e : Element} (h : e.AllHold IsResolved scope) :
    e.settled scope = e := by
  rw [Element.allHold_iff] at h
  rw [Element.settled, Tag.settled_eq_self h.1.holds, settledNodes_eq_self h.2]

/-- The canonical text of an element in exclusive form is that of the settled
element exactly if all names have their namespaces. -/
theorem Element.canonicalInScope_settled_iff {m : CanonicalMethod} {e : Element}
    {inherited : List Declaration} (h : e.AllHold IsLoose scope)
    (hnamed : NamedDeclarations inherited) (hm : m.rule = .exclusive) :
    (e.settled scope).canonicalInScope m inherited = e.canonicalInScope m inherited
      ↔ e.AllHold IsResolved scope := by
  constructor
  · intro he
    refine Node.all_isResolved_of_names h ?_
    have hsettled := h.settled.isLoose.isKept_exclusive
    have hkept := h.isKept_exclusive
    rw [← hm] at hsettled hkept
    exact Element.names_of_canonicalInScope_eq hsettled hkept hnamed hnamed hm he
  · intro hresolved
    rw [hresolved.settled_eq_self]

end Presign.Xml
