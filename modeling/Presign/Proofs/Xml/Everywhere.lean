import Presign.Xml.Scope

/-!
# Properties of all nodes

`Node.All P scope n` says that `P` holds of the node `n`, which stands in
`scope`, and of every node inside of it, in the scope where that one stands.
-/

namespace Presign.Xml

variable {P Q : Scope → Node → Prop} {scope : Scope}

mutual

/-- A property holds of a node in a scope and of all nodes inside of it. -/
def Node.All (P : Scope → Node → Prop) (scope : Scope) : Node → Prop
  | .element tag children =>
    P scope (.element tag children) ∧ AllNodes P (tag.declarations :: scope) children
  | .text s => P scope (.text s)
  | .comment s => P scope (.comment s)
  | .instruction target data => P scope (.instruction target data)

/-- A property holds of nodes in a scope and of all nodes inside of them. -/
def AllNodes (P : Scope → Node → Prop) (scope : Scope) : List Node → Prop
  | [] => True
  | n :: ns => n.All P scope ∧ AllNodes P scope ns

end

theorem allNodes_iff {ns : List Node} : AllNodes P scope ns ↔ ∀ n ∈ ns, n.All P scope := by
  induction ns with
  | nil => simp [AllNodes]
  | cons n ns ih => rw [AllNodes, ih, List.forall_mem_cons]

theorem Node.All.here {n : Node} (h : n.All P scope) : P scope n := by
  cases n with
  | element tag children => rw [Node.All] at h; exact h.1
  | text s => rwa [Node.All] at h
  | comment s => rwa [Node.All] at h
  | instruction target data => rwa [Node.All] at h

theorem Node.All.children {tag : Tag} {children : List Node}
    (h : (Node.element tag children).All P scope) :
    AllNodes P (tag.declarations :: scope) children := by
  rw [Node.All] at h
  exact h.2

theorem Node.all_element {tag : Tag} {children : List Node} :
    (Node.element tag children).All P scope
      ↔ P scope (.element tag children) ∧ AllNodes P (tag.declarations :: scope) children := by
  rw [Node.All]

theorem Node.All.child {e c : Element} (h : Node.All P scope e) (hc : (c : Node) ∈ e.children) :
    Node.All P (e.tag.declarations :: scope) c :=
  allNodes_iff.mp (Node.all_element.mp h).2 _ hc

theorem AllNodes.append {ns ms : List Node} (h : AllNodes P scope ns) (h' : AllNodes P scope ms) :
    AllNodes P scope (ns ++ ms) := by
  rw [allNodes_iff] at h h' ⊢
  intro n hn
  rcases List.mem_append.mp hn with hn | hn
  · exact h n hn
  · exact h' n hn

theorem AllNodes.subset {ns ms : List Node} (h : AllNodes P scope ns) (hsub : ∀ n ∈ ms, n ∈ ns) :
    AllNodes P scope ms := by
  rw [allNodes_iff] at h ⊢
  exact fun n hn => h n (hsub n hn)

mutual

/-- What follows from a property at every node follows from it everywhere. -/
theorem Node.All.imp (h : ∀ scope n, P scope n → Q scope n) :
    ∀ {n : Node} {scope : Scope}, n.All P scope → n.All Q scope
  | .element _ _, _, hn => by
      rw [Node.All] at hn ⊢
      exact ⟨h _ _ hn.1, AllNodes.imp h hn.2⟩
  | .text _, _, hn => by rw [Node.All] at hn ⊢; exact h _ _ hn
  | .comment _, _, hn => by rw [Node.All] at hn ⊢; exact h _ _ hn
  | .instruction _ _, _, hn => by rw [Node.All] at hn ⊢; exact h _ _ hn

theorem AllNodes.imp (h : ∀ scope n, P scope n → Q scope n) :
    ∀ {ns : List Node} {scope : Scope}, AllNodes P scope ns → AllNodes Q scope ns
  | [], _, _ => by rw [AllNodes]; trivial
  | _ :: _, _, hns => by
      rw [AllNodes] at hns ⊢
      exact ⟨Node.All.imp h hns.1, AllNodes.imp h hns.2⟩

end

mutual

theorem Node.All.and :
    ∀ {n : Node} {scope : Scope}, n.All P scope → n.All Q scope →
      n.All (fun scope n => P scope n ∧ Q scope n) scope
  | .element _ _, _, h, h' => by
      rw [Node.All] at h h' ⊢
      exact ⟨⟨h.1, h'.1⟩, AllNodes.and h.2 h'.2⟩
  | .text _, _, h, h' => by rw [Node.All] at h h' ⊢; exact ⟨h, h'⟩
  | .comment _, _, h, h' => by rw [Node.All] at h h' ⊢; exact ⟨h, h'⟩
  | .instruction _ _, _, h, h' => by rw [Node.All] at h h' ⊢; exact ⟨h, h'⟩

theorem AllNodes.and :
    ∀ {ns : List Node} {scope : Scope}, AllNodes P scope ns → AllNodes Q scope ns →
      AllNodes (fun scope n => P scope n ∧ Q scope n) scope ns
  | [], _, _, _ => by rw [AllNodes]; trivial
  | _ :: _, _, h, h' => by
      rw [AllNodes] at h h' ⊢
      exact ⟨Node.All.and h.1 h'.1, AllNodes.and h.2 h'.2⟩

end

mutual

/-- A property of all nodes can be decided if that of one node can. -/
def Node.decideAll [∀ scope n, Decidable (P scope n)] :
    (n : Node) → (scope : Scope) → Decidable (n.All P scope)
  | .element tag children, scope =>
    have := decideAllNodes children (tag.declarations :: scope)
    decidable_of_iff
      (P scope (.element tag children) ∧ AllNodes P (tag.declarations :: scope) children)
      Node.all_element.symm
  | .text s, scope => decidable_of_iff (P scope (.text s)) (by rw [Node.All])
  | .comment s, scope => decidable_of_iff (P scope (.comment s)) (by rw [Node.All])
  | .instruction target data, scope =>
    decidable_of_iff (P scope (.instruction target data)) (by rw [Node.All])

def decideAllNodes [∀ scope n, Decidable (P scope n)] :
    (ns : List Node) → (scope : Scope) → Decidable (AllNodes P scope ns)
  | [], scope => .isTrue (by rw [AllNodes]; trivial)
  | n :: ns, scope =>
    have := n.decideAll scope
    have := decideAllNodes ns scope
    decidable_of_iff (n.All P scope ∧ AllNodes P scope ns) (by rw [AllNodes])

end

instance [∀ scope n, Decidable (P scope n)] (scope : Scope) (n : Node) :
    Decidable (n.All P scope) := n.decideAll scope

/-! ## Elements inside of an element -/

/-- An element stands somewhere below another one. -/
inductive Element.IsBelow (c : Element) : Element → Prop where
  | child {e : Element} (h : (c : Node) ∈ e.children) : IsBelow c e
  | deeper {d e : Element} (h : (d : Node) ∈ e.children) (hc : IsBelow c d) : IsBelow c e

theorem Node.All.below {e c : Element} (h : Node.All P scope e) (hc : c.IsBelow e) :
    ∃ scope, Node.All P scope c := by
  induction hc generalizing scope with
  | child hc => exact ⟨_, h.child hc⟩
  | deeper hd _ ih => exact ih (h.child hd)

/-- Every declaration below an element satisfies a condition. -/
def Element.DeclaresBelow (p : Declaration → Prop) (e : Element) : Prop :=
  ∀ c : Element, c.IsBelow e → ∀ d ∈ c.tag.declarations, p d

theorem Element.DeclaresBelow.child {p : Declaration → Prop} {e c : Element}
    (h : e.DeclaresBelow p) (hc : (c : Node) ∈ e.children) :
    (∀ d ∈ c.tag.declarations, p d) ∧ c.DeclaresBelow p :=
  ⟨h c (.child hc), fun c' hc' => h c' (.deeper hc hc')⟩

end Presign.Xml
