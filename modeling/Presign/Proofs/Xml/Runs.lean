import Presign.Proofs.Xml.Meaning

/-!
# Runs of text

Texts next to each other are one text when a document is written and read again.  `joinRuns`
joins them among the children of one element.  Unlike `Element.joined` it keeps empty texts,
so that an element with an empty text does not become one without children, which is written in
another way.

`Alike` says of two elements that no document tells them apart: they are written alike, have the
same canonical forms, and a search finds elements with the same canonical forms in them.  Elements
with the same runs are alike, and so are elements around such elements.
-/

namespace Presign.Xml

/-! ## Joining runs -/

/-- Nodes with one more before them.  Text is joined to text. -/
def joinTo : Node → List Node → List Node
  | .text s, .text t :: ns => .text (s ++ t) :: ns
  | n, ns => n :: ns

/-- Nodes with every run of texts joined. -/
def joinRuns : List Node → List Node
  | [] => []
  | n :: ns => joinTo n (joinRuns ns)

/-- A node is joined to what comes next if both are text. -/
theorem joinTo_cases (n : Node) (ns : List Node) :
    (∃ s t ms, n = .text s ∧ ns = .text t :: ms ∧ joinTo n ns = .text (s ++ t) :: ms) ∨
      (n.text? = none ∨ ∀ m ∈ ns.head?, m.text? = none) ∧ joinTo n ns = n :: ns := by
  unfold joinTo
  split
  next s t ms => exact Or.inl ⟨s, t, ms, rfl, rfl, rfl⟩
  next hne =>
    refine Or.inr ⟨?_, rfl⟩
    cases hn : n.text? with
    | none => exact Or.inl rfl
    | some s =>
        refine Or.inr fun m hm => ?_
        obtain ⟨ms, rfl⟩ := List.head?_eq_some_iff.mp hm
        cases ht : m.text? with
        | none => rfl
        | some t => exact (hne s t ms (n.text?_eq_some hn) (m.text?_eq_some ht ▸ rfl)).elim

theorem joinTo_eq_cons {n : Node} {ns : List Node}
    (h : n.text? = none ∨ ∀ m ∈ ns.head?, m.text? = none) : joinTo n ns = n :: ns := by
  rcases joinTo_cases n ns with ⟨s, t, ms, rfl, rfl, -⟩ | ⟨-, hjoin⟩
  · rcases h with h | h
    · cases h
    · cases h _ rfl
  · exact hjoin

/-- What is put together from the nodes, and from two texts as from one, does not change. -/
theorem map_joinRuns {β : Type} (f : List Node → List β)
    (hcons : ∀ n ns, f (n :: ns) = f [n] ++ f ns)
    (htext : ∀ s t, f [.text (s ++ t)] = f [.text s] ++ f [.text t]) (ns : List Node) :
    f (joinRuns ns) = f ns := by
  have hjoin (n : Node) (ms : List Node) : f (joinTo n ms) = f (n :: ms) := by
    rcases joinTo_cases n ms with ⟨s, t, rest, rfl, rfl, h⟩ | ⟨-, h⟩
    · rw [h, hcons, htext, List.append_assoc, ← hcons (.text t), ← hcons (.text s)]
    · rw [h]
  induction ns with
  | nil => rfl
  | cons n ns ih => rw [joinRuns, hjoin, hcons, ih, ← hcons]

theorem mem_joinRuns {n : Node} {ns : List Node} (h : n ∈ joinRuns ns) :
    n ∈ ns ∨ n.element? = none := by
  induction ns with
  | nil => cases h
  | cons m ms ih =>
      rw [joinRuns] at h
      rcases joinTo_cases m (joinRuns ms) with ⟨s, t, rest, -, hrest, hjoin⟩ | ⟨-, hjoin⟩
      · rw [hjoin] at h
        rw [hrest] at ih
        rcases List.mem_cons.mp h with rfl | h
        · exact Or.inr rfl
        · exact (ih (List.mem_cons_of_mem _ h)).imp_left (List.mem_cons_of_mem _)
      · rw [hjoin] at h
        rcases List.mem_cons.mp h with rfl | h
        · exact Or.inl (List.mem_cons_self ..)
        · exact (ih h).imp_left (List.mem_cons_of_mem _)

/-- No two texts are next to each other. -/
def HasRuns (ns : List Node) : Prop :=
  ns.IsChain fun n m => n.text? = none ∨ m.text? = none

theorem hasRuns_cons {n : Node} {ns : List Node} :
    HasRuns (n :: ns) ↔ (n.text? = none ∨ ∀ m ∈ ns.head?, m.text? = none) ∧ HasRuns ns := by
  cases ns with
  | nil => simp [HasRuns]
  | cons m ms => simp [HasRuns]

theorem hasRuns_joinRuns (ns : List Node) : HasRuns (joinRuns ns) := by
  induction ns with
  | nil => exact .nil
  | cons n ns ih =>
      rw [joinRuns]
      rcases joinTo_cases n (joinRuns ns) with ⟨s, t, rest, -, hrest, hjoin⟩ | ⟨hfirst, hjoin⟩
      · -- what came after the second text still comes after a text
        rw [hrest, hasRuns_cons] at ih
        rw [hjoin, hasRuns_cons]
        exact ⟨ih.1.imp_left (fun h => by cases h), ih.2⟩
      · rw [hjoin, hasRuns_cons]
        exact ⟨hfirst, ih⟩

theorem joinRuns_of_hasRuns {ns : List Node} (h : HasRuns ns) : joinRuns ns = ns := by
  induction ns with
  | nil => rfl
  | cons n ns ih =>
      obtain ⟨hfirst, hns⟩ := hasRuns_cons.mp h
      rw [joinRuns, ih hns, joinTo_eq_cons hfirst]

theorem joinRuns_joinRuns (ns : List Node) : joinRuns (joinRuns ns) = joinRuns ns :=
  joinRuns_of_hasRuns (hasRuns_joinRuns ns)

/-- An element is put in behind text, or before an element, so it parts no run. -/
theorem joinRuns_insertIn (c : Element) (i : Nat) (ns : List Node) :
    joinRuns (Element.insertIn c i ns) = Element.insertIn c i (joinRuns ns) := by
  have hbehind {n : Node} (hn : n.element? = none) (i : Nat) (ms : List Node) :
      Element.insertIn c i (n :: ms) = n :: Element.insertIn c i ms := by
    simp only [Element.insertIn, hn]
  have hhead (i : Nat) (ms : List Node) (h : ∀ m ∈ ms.head?, m.text? = none) :
      ∀ m ∈ (Element.insertIn c i ms).head?, m.text? = none := by
    cases ms with
    | nil => exact fun m hm => by cases hm; rfl
    | cons m ms =>
        unfold Element.insertIn
        split
        next => exact h
        next => exact fun m hm => by cases hm; rfl
        next => exact h
  have hjoin {n : Node} (hn : n.element? = none) (i : Nat) (ms : List Node) :
      joinTo n (Element.insertIn c i ms) = Element.insertIn c i (joinTo n ms) := by
    rcases joinTo_cases n ms with ⟨s, t, rest, rfl, rfl, h⟩ | ⟨hfirst, h⟩
    · rw [h, hbehind rfl, hbehind rfl]
      rfl
    · rw [h, hbehind hn, joinTo_eq_cons (hfirst.imp_right (hhead i ms))]
  induction ns generalizing i with
  | nil => rfl
  | cons n ns ih =>
      cases he : n.element? with
      | none => rw [hbehind he, joinRuns, joinRuns, ih, hjoin he]
      | some d =>
          have hd : n.text? = none := by rw [Node.eq_coe_of_element? he]; rfl
          rw [joinRuns, joinTo_eq_cons (Or.inl hd)]
          cases i with
          | zero =>
              simp only [Element.insertIn, he, joinRuns]
              rw [joinTo_eq_cons (Or.inl hd), joinTo_eq_cons (Or.inl rfl)]
          | succ i =>
              simp only [Element.insertIn, he, joinRuns]
              rw [joinTo_eq_cons (Or.inl hd), ih]

/-! ## What does not depend on how text is cut -/

theorem nodesChars_append (ns ms : List Node) :
    nodesChars (ns ++ ms) = nodesChars ns ++ nodesChars ms := by
  induction ns with
  | nil => rfl
  | cons n ns ih => rw [List.cons_append, nodesChars, nodesChars, ih, List.append_assoc]

theorem nodesChars_joinRuns (ns : List Node) : nodesChars (joinRuns ns) = nodesChars ns :=
  map_joinRuns nodesChars (fun n ns => nodesChars_append [n] ns)
    (fun s t => by simp [nodesChars, Node.chars, escapeText_append]) ns

theorem canonicalNodes_joinRuns (m : CanonicalMethod) (b written : Bindings) (ns : List Node) :
    canonicalNodes m b written (joinRuns ns) = canonicalNodes m b written ns :=
  map_joinRuns (canonicalNodes m b written) (fun n ns => canonicalNodes_append b written [n] ns)
    (fun s t => by simp [canonicalNodes, Node.canonicalChars, escapeText_append]) ns

theorem elementsIn_joinRuns (inherited : List Declaration) (ns : List Node) :
    elementsIn inherited (joinRuns ns) = elementsIn inherited ns :=
  map_joinRuns (elementsIn inherited) (fun n ns => elementsIn_append [n] ns)
    (fun _ _ => rfl) ns

theorem isEmpty_joinRuns (ns : List Node) : (joinRuns ns).isEmpty = ns.isEmpty := by
  cases ns with
  | nil => rfl
  | cons n ns =>
      rw [joinRuns]
      rcases joinTo_cases n (joinRuns ns) with ⟨s, t, ms, -, -, h⟩ | ⟨-, h⟩
      · rw [h]
        rfl
      · rw [h]
        rfl

/-! ## Elements that no document tells apart -/

namespace Element

/-- The canonical form of the first element with a name, in an element or below it. -/
def foundText? (m : CanonicalMethod) (space localPart : String) (inherited : List Declaration)
    (ns : List Node) : Option String :=
  (findInNodes? space localPart inherited ns).map fun p => p.1.canonicalInScope m p.2

theorem foundText?_append (m : CanonicalMethod) (space localPart : String)
    (inherited : List Declaration) (ns ms : List Node) :
    foundText? m space localPart inherited (ns ++ ms)
      = (foundText? m space localPart inherited ns).or
          (foundText? m space localPart inherited ms) := by
  rw [foundText?, foundText?, foundText?, findInNodes?_eq, findInNodes?_eq, findInNodes?_eq,
    elementsIn_append, List.find?_append, Option.map_or]

/-- An element is found before anything in it. -/
theorem foundText?_coe (m : CanonicalMethod) (space localPart : String)
    (inherited : List Declaration) (e : Element) :
    foundText? m space localPart inherited [↑e]
      = if e.is space localPart then some (e.canonicalInScope m inherited)
        else foundText? m space localPart (inherited ++ e.tag.declarations) e.children := by
  rw [foundText?, foundText?, findInNodes?_eq, findInNodes?_eq, elementsIn_coe_cons]
  split
  next h => rw [List.find?_cons_of_pos (by exact h)]; rfl
  next h => rw [List.find?_cons_of_neg (by exact h), elementsIn, List.append_nil]

theorem foundText?_joinRuns (m : CanonicalMethod) (space localPart : String)
    (inherited : List Declaration) (ns : List Node) :
    foundText? m space localPart inherited (joinRuns ns)
      = foundText? m space localPart inherited ns := by
  rw [foundText?, foundText?, findInNodes?_eq, findInNodes?_eq, elementsIn_joinRuns]

/-- Two elements that no document tells apart. -/
structure Alike (e e' : Element) : Prop where
  tag : e.tag = e'.tag
  /-- They are written alike. -/
  chars : Node.chars e = Node.chars e'
  canonical : ∀ m b written,
    Node.canonicalChars m b written e = Node.canonicalChars m b written e'
  found : ∀ m space localPart inherited,
    foundText? m space localPart inherited [↑e] = foundText? m space localPart inherited [↑e']

namespace Alike

variable {e e' : Element}

theorem refl (e : Element) : Alike e e := ⟨rfl, rfl, fun _ _ _ => rfl, fun _ _ _ _ => rfl⟩

theorem symm (h : Alike e e') : Alike e' e :=
  ⟨h.tag.symm, h.chars.symm, fun m b written => (h.canonical m b written).symm,
    fun m space localPart inherited => (h.found m space localPart inherited).symm⟩

theorem trans {e'' : Element} (h : Alike e e') (h' : Alike e' e'') : Alike e e'' :=
  ⟨h.tag.trans h'.tag, h.chars.trans h'.chars,
    fun m b written => (h.canonical m b written).trans (h'.canonical m b written),
    fun m space localPart inherited =>
      (h.found m space localPart inherited).trans (h'.found m space localPart inherited)⟩

/-- Elements are alike if their tags are the same and their children are told apart by nothing. -/
theorem of_children (htag : e.tag = e'.tag) (hempty : e.children.isEmpty = e'.children.isEmpty)
    (hchars : nodesChars e.children = nodesChars e'.children)
    (hcanonical : ∀ m b written,
      canonicalNodes m b written e.children = canonicalNodes m b written e'.children)
    (hfound : ∀ m space localPart inherited,
      foundText? m space localPart inherited e.children
        = foundText? m space localPart inherited e'.children) : Alike e e' := by
  have hcanonical' (m : CanonicalMethod) (b written : Bindings) :
      Node.canonicalChars m b written e = Node.canonicalChars m b written e' := by
    rw [Node.canonicalChars, Node.canonicalChars, htag, hcanonical]
  refine ⟨htag, ?_, hcanonical', fun m space localPart inherited => ?_⟩
  · rw [Node.chars, Node.chars, elementChars, elementChars, htag, hempty, hchars]
  · rw [foundText?_coe, foundText?_coe, Element.is, Element.is, Element.name, Element.name, htag,
      canonicalInScope, canonicalInScope, hcanonical', hfound]

/-- Elements with the same runs are alike. -/
theorem of_joinRuns (htag : e.tag = e'.tag) (h : joinRuns e.children = joinRuns e'.children) :
    Alike e e' := by
  refine of_children htag ?_ ?_ (fun m b written => ?_) fun m space localPart inherited => ?_
  · rw [← isEmpty_joinRuns, h, isEmpty_joinRuns]
  · rw [← nodesChars_joinRuns, h, nodesChars_joinRuns]
  · rw [← canonicalNodes_joinRuns, h, canonicalNodes_joinRuns]
  · rw [← foundText?_joinRuns, h, foundText?_joinRuns]

/-- Elements are alike if they are the same but for alike children. -/
theorem replace {c c' : Element} (h : Alike c c') (tag : Tag) (before after : List Node) :
    Alike ⟨tag, before ++ ↑c :: after⟩ ⟨tag, before ++ ↑c' :: after⟩ := by
  refine of_children rfl (by cases before <;> rfl) ?_ (fun m b written => ?_) fun m space localPart inherited => ?_
  · simp only [nodesChars_append, nodesChars, h.chars]
  · simp only [canonicalNodes_append, canonicalNodes, h.canonical]
  · have hsplit (c : Element) : before ++ (c : Node) :: after = before ++ ([(c : Node)] ++ after) :=
      rfl
    rw [hsplit, hsplit, foundText?_append, foundText?_append, foundText?_append,
      foundText?_append, h.found]

/-- A change of a child after another one is alike to the change alone, if it is so of the
child. -/
theorem changeOrInsert_changeChild {f g : Element → Element} (e : Element) (space localPart : String)
    (fresh : Element) (keeps : ∀ c, (g c).name = c.name) (h : ∀ c, Alike (f (g c)) (f c)) :
    Alike ((e.changeChild space localPart g).changeOrInsert space localPart fresh f)
      (e.changeOrInsert space localPart fresh f) := by
  rcases changeFirst?_cases (fun c => c.is space localPart) g e.children with
    ⟨-, hnone⟩ | ⟨p, -⟩
  · rw [changeChild_of_noElement hnone]
    exact refl _
  · have hholds : (g p.element).is space localPart = true := by
      rw [Element.is, keeps]
      exact p.holds
    rw [changeChild_eq p, changeOrInsert_eq p, changeOrInsert_eq (p.replace _ hholds)]
    exact (h p.element).replace ..

theorem changeChild_changeChild {f g : Element → Element} (e : Element) (space localPart : String)
    (keeps : ∀ c, (g c).name = c.name) (h : ∀ c, Alike (f (g c)) (f c)) :
    Alike ((e.changeChild space localPart g).changeChild space localPart f)
      (e.changeChild space localPart f) := by
  rcases changeFirst?_cases (fun c => c.is space localPart) g e.children with
    ⟨-, hnone⟩ | ⟨p, -⟩
  · rw [changeChild_of_noElement hnone]
    exact refl _
  · have hholds : (g p.element).is space localPart = true := by
      rw [Element.is, keeps]
      exact p.holds
    rw [changeChild_eq p, changeChild_eq p, changeChild_eq (p.replace _ hholds)]
    exact (h p.element).replace ..

end Alike

end Element

end Presign.Xml
