import Presign.Proofs.Xml.Content

/-!
# What a tree means

Two trees mean the same if they differ in their namespace declarations and in
the order of attributes only.  Every name carries its namespace, so it is the
namespaces that are compared, not the declarations that give them
(`Node.Matches`).

The content of an element is what a canonicalization method may not change: its
tree without comments, if the method drops them, and with joined texts.  A
canonical tree has the content of its element.
-/

namespace Presign.Xml

/-! ## Trees that mean the same -/

/-- Tags that differ in their declarations and in the order of their attributes
only. -/
structure Tag.Matches (t t' : Tag) : Prop where
  name : t.name = t'.name
  attributes : t.attributes.Perm t'.attributes

theorem Tag.Matches.symm {t t' : Tag} (h : t.Matches t') : t'.Matches t :=
  ⟨h.name.symm, h.attributes.symm⟩

mutual

/-- Nodes whose tags match, and that are the same otherwise. -/
inductive Node.Matches : Node → Node → Prop where
  | element {tag tag' : Tag} {children children' : List Node} (htag : tag.Matches tag')
      (hchildren : NodesMatch children children') :
      Node.Matches (.element tag children) (.element tag' children')
  | text (s : String) : Node.Matches (.text s) (.text s)
  | comment (s : String) : Node.Matches (.comment s) (.comment s)
  | instruction (target data : String) :
      Node.Matches (.instruction target data) (.instruction target data)

/-- Lists of nodes that match one by one. -/
inductive NodesMatch : List Node → List Node → Prop where
  | nil : NodesMatch [] []
  | cons {n n' : Node} {ns ns' : List Node} (hn : n.Matches n') (hns : NodesMatch ns ns') :
      NodesMatch (n :: ns) (n' :: ns')

end

/-- Elements that match. -/
def Element.Matches (e e' : Element) : Prop := Node.Matches e e'

theorem NodesMatch.append {ns ns' ms ms' : List Node} (h : NodesMatch ns ns')
    (hms : NodesMatch ms ms') : NodesMatch (ns ++ ms) (ns' ++ ms') := by
  induction ns generalizing ns' with
  | nil =>
      cases h
      exact hms
  | cons n ns ih =>
      cases h with
      | cons hn hns => exact .cons hn (ih hns)

theorem Node.Matches.text?_eq {n n' : Node} (h : n.Matches n') : n.text? = n'.text? := by
  cases h <;> rfl

theorem NodesMatch.textNode (s : String) : NodesMatch (textNode s) (textNode s) := by
  unfold Xml.textNode
  split
  · exact .nil
  · exact .cons (.text s) .nil

mutual

/-- Joining texts keeps nodes that match. -/
theorem Node.Matches.joined : ∀ {n n' : Node}, n.Matches n' → n.joined.Matches n'.joined
  | _, _, .element htag hchildren => .element htag (hchildren.joinFrom "")
  | _, _, .text s => .text s
  | _, _, .comment s => .comment s
  | _, _, .instruction target data => .instruction target data

theorem NodesMatch.joinFrom :
    ∀ {ns ns' : List Node}, NodesMatch ns ns' →
      ∀ s : String, NodesMatch (joinFrom s ns) (joinFrom s ns')
  | _, _, .nil, s => .textNode s
  | _, _, @NodesMatch.cons n n' _ _ hn hns, s => by
      cases ht : n.text? with
      | some t =>
          have ht' : n'.text? = some t := hn.text?_eq.symm.trans ht
          rw [n.text?_eq_some ht, n'.text?_eq_some ht', joinFrom_text, joinFrom_text]
          exact hns.joinFrom (s ++ t)
      | none =>
          have ht' : n'.text? = none := hn.text?_eq.symm.trans ht
          rw [joinFrom_of_not_text ht, joinFrom_of_not_text ht']
          exact (NodesMatch.textNode s).append (.cons hn.joined (hns.joinFrom ""))

end

/-! ## Content -/

mutual

/-- What is left of a node when comments are dropped, unless they are kept. -/
def Node.pruned (comments : Bool) : Node → List Node
  | .element tag children => [.element tag (prunedNodes comments children)]
  | .text s => [.text s]
  | .comment s => if comments then [.comment s] else []
  | .instruction target data => [.instruction target data]

/-- What is left of nodes when comments are dropped, unless they are kept. -/
def prunedNodes (comments : Bool) : List Node → List Node
  | [] => []
  | n :: ns => n.pruned comments ++ prunedNodes comments ns

end

/-- The content of an element: comments are dropped, unless they are kept, and
texts next to each other are joined. -/
def Element.content (comments : Bool) (e : Element) : Element :=
  Element.joined ⟨e.tag, prunedNodes comments e.children⟩

section Canonical

variable {m : CanonicalMethod}

theorem Tag.canonicalTag_matches (t : Tag) (declared : Bindings) :
    (t.canonicalTag declared).Matches t := ⟨rfl, perm_canonicalAttributes t.attributes⟩

mutual

/-- A canonical tree drops comments as its method says, and keeps all else. -/
theorem Node.canonicalTrees_match :
    ∀ (n : Node) (b written : Bindings),
      NodesMatch (n.canonicalTrees m b written) (n.pruned m.comments)
  | .element tag children, b, written => by
      rw [Node.canonicalTrees, Node.pruned]
      exact .cons (.element (tag.canonicalTag_matches _) (canonicalForest_match children _ _)) .nil
  | .text s, _, _ => .cons (.text s) .nil
  | .comment s, _, _ => by
      rw [Node.canonicalTrees, Node.pruned]
      split
      · exact .cons (.comment s) .nil
      · exact .nil
  | .instruction target data, _, _ => .cons (.instruction target data) .nil

theorem canonicalForest_match :
    ∀ (ns : List Node) (b written : Bindings),
      NodesMatch (canonicalForest m b written ns) (prunedNodes m.comments ns)
  | [], _, _ => .nil
  | n :: ns, b, written => by
      rw [canonicalForest, prunedNodes]
      exact (n.canonicalTrees_match b written).append (canonicalForest_match ns b written)

end

/-- A canonical tree has the content of its element. -/
theorem Element.canonicalTree_matches (b written : Bindings) (e : Element) :
    (e.canonicalTree m b written).joined.Matches (e.content m.comments) :=
  Node.Matches.joined
    (.element (e.tag.canonicalTag_matches _) (canonicalForest_match e.children _ _))

theorem canonicalNodes_append (b written : Bindings) (ns ms : List Node) :
    canonicalNodes m b written (ns ++ ms)
      = canonicalNodes m b written ns ++ canonicalNodes m b written ms := by
  induction ns with
  | nil => rfl
  | cons n ns ih =>
      rw [List.cons_append, canonicalNodes, canonicalNodes, ih, List.append_assoc]

mutual

theorem Node.canonicalChars_pruned :
    ∀ (n : Node) (b written : Bindings),
      canonicalNodes m b written (n.pruned m.comments) = n.canonicalChars m b written
  | .element tag children, b, written => by
      rw [Node.pruned, canonicalNodes, canonicalNodes, List.append_nil, Node.canonicalChars,
        Node.canonicalChars, canonicalNodes_prunedNodes children]
  | .text s, b, written => by
      rw [Node.pruned, canonicalNodes, canonicalNodes, List.append_nil]
  | .comment s, b, written => by
      rw [Node.pruned, Node.canonicalChars]
      split
      · rename_i hm
        rw [canonicalNodes, canonicalNodes, List.append_nil, Node.canonicalChars, if_pos hm]
      · rw [canonicalNodes]
  | .instruction target data, b, written => by
      rw [Node.pruned, canonicalNodes, canonicalNodes, List.append_nil]

theorem canonicalNodes_prunedNodes :
    ∀ (ns : List Node) (b written : Bindings),
      canonicalNodes m b written (prunedNodes m.comments ns) = canonicalNodes m b written ns
  | [], _, _ => by rw [prunedNodes]
  | n :: ns, b, written => by
      rw [prunedNodes, canonicalNodes_append, canonicalNodes, n.canonicalChars_pruned,
        canonicalNodes_prunedNodes ns]

end

/-- The canonical form of an element is that of its content. -/
theorem Element.canonicalInScope_content (e : Element) (inherited : List Declaration) :
    (e.content m.comments).canonicalInScope m inherited = e.canonicalInScope m inherited := by
  rw [Element.content, Element.canonicalInScope_joined]
  refine congrArg String.ofList ?_
  have h := Node.canonicalChars_pruned (m := m) e (Bindings.declareAll [] inherited) []
  rw [Node.pruned, canonicalNodes, canonicalNodes, List.append_nil] at h
  exact h

end Canonical

/-! ## Properties of the tags -/

/-- A property of nodes that looks at their tags only. -/
structure OfTags (P : Scope → Node → Prop) : Prop where
  element {scope : Scope} {tag : Tag} {children children' : List Node} :
    P scope (.element tag children) → P scope (.element tag children')
  text (scope : Scope) (s : String) : P scope (.text s)

section OfTags

variable {P : Scope → Node → Prop}

theorem OfTags.textNode (hP : OfTags P) (scope : Scope) (s : String) :
    AllNodes P scope (textNode s) := by
  unfold Xml.textNode
  split
  · rw [AllNodes]
    trivial
  · rw [AllNodes, AllNodes]
    exact ⟨hP.text scope s, trivial⟩

mutual

theorem OfTags.joined (hP : OfTags P) :
    ∀ {n : Node} {scope : Scope}, n.All P scope → n.joined.All P scope
  | .element _ _, _, h => by
      rw [Node.joined]
      exact Node.all_element.mpr ⟨hP.element h.here, hP.joinFrom h.children ""⟩
  | .text _, _, h => h
  | .comment _, _, h => h
  | .instruction _ _, _, h => h

theorem OfTags.joinFrom (hP : OfTags P) :
    ∀ {ns : List Node} {scope : Scope}, AllNodes P scope ns →
      ∀ s : String, AllNodes P scope (joinFrom s ns)
  | [], scope, _, s => hP.textNode scope s
  | n :: ns, scope, h, s => by
      rw [AllNodes] at h
      cases ht : n.text? with
      | some t =>
          rw [n.text?_eq_some ht, joinFrom_text]
          exact hP.joinFrom h.2 (s ++ t)
      | none =>
          rw [joinFrom_of_not_text ht]
          refine (hP.textNode scope s).append ?_
          rw [AllNodes]
          exact ⟨hP.joined h.1, hP.joinFrom h.2 ""⟩

end

mutual

theorem OfTags.pruned (hP : OfTags P) (comments : Bool) :
    ∀ {n : Node} {scope : Scope}, n.All P scope → AllNodes P scope (n.pruned comments)
  | .element _ _, _, h => by
      rw [Node.pruned, AllNodes, AllNodes]
      exact ⟨Node.all_element.mpr ⟨hP.element h.here, hP.prunedNodes comments h.children⟩,
        trivial⟩
  | .text _, _, h => by
      rw [Node.pruned, AllNodes, AllNodes]
      exact ⟨h, trivial⟩
  | .comment _, _, h => by
      rw [Node.pruned]
      split
      · rw [AllNodes, AllNodes]
        exact ⟨h, trivial⟩
      · rw [AllNodes]
        trivial
  | .instruction _ _, _, h => by
      rw [Node.pruned, AllNodes, AllNodes]
      exact ⟨h, trivial⟩

theorem OfTags.prunedNodes (hP : OfTags P) (comments : Bool) :
    ∀ {ns : List Node} {scope : Scope}, AllNodes P scope ns →
      AllNodes P scope (prunedNodes comments ns)
  | [], _, h => h
  | _ :: _, _, h => by
      rw [AllNodes] at h
      rw [Xml.prunedNodes]
      exact (hP.pruned comments h.1).append (hP.prunedNodes comments h.2)

end

/-- What holds of all tags of an element holds of those of its content. -/
theorem OfTags.content (hP : OfTags P) {e : Element} {scope : Scope} (comments : Bool)
    (h : Node.All P scope e) : Node.All P scope (e.content comments) := by
  have hpruned := hP.pruned comments h
  rw [Node.pruned, AllNodes] at hpruned
  exact hP.joined hpruned.1

end OfTags

end Presign.Xml
