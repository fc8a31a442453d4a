import Presign.Proofs.Xml.Meaning
import Presign.Proofs.Xml.Settled

/-!
# Canonical texts keep the meaning

What is canonicalized is the root of a document, or a descendant that a search
finds together with the declarations that it inherits.  Its canonical text is a
document of its own, which is read as an element with the same content.

The declarations that a descendant inherits are those of the scope where it
stands.  So declaring them mirrors this scope, and that is all that canonical
texts need to know of what is around.
-/

namespace Presign.Xml

/-! ## Inherited declarations -/

/-- The declarations of a scope, those of the outermost element first. -/
def Scope.inherited (scope : Scope) : List Declaration := scope.reverse.flatten

theorem Scope.inherited_cons (ds : List Declaration) (scope : Scope) :
    Scope.inherited (ds :: scope) = scope.inherited ++ ds := by
  simp [Scope.inherited]

theorem NamedDeclarations.append {ds ds' : List Declaration} (h : NamedDeclarations ds)
    (h' : NamedDeclarations ds') : NamedDeclarations (ds ++ ds') := by
  intro d hd
  rcases List.mem_append.mp hd with hd | hd
  · exact h d hd
  · exact h' d hd

/-- Declaring what is inherited in a scope mirrors the scope. -/
theorem Mirrors.inherited {scope : Scope} (h : NamedDeclarations scope.inherited) :
    Mirrors scope (Bindings.declareAll [] scope.inherited) := by
  induction scope with
  | nil => exact Mirrors.nil
  | cons ds scope ih =>
      rw [Scope.inherited_cons] at h ⊢
      have houter := ih fun d hd => h d (List.mem_append_left _ hd)
      have hds : NamedDeclarations ds := fun d hd => h d (List.mem_append_right _ hd)
      rw [Bindings.declareAll, List.foldl_append]
      exact houter.declareAll hds

/-! ## Places in a document -/

/-- An element stands in a scope whose declarations it inherits, and keeps its
namespaces there. -/
structure Element.StandsIn (rule : CanonicalRule) (scope : Scope) (inherited : List Declaration)
    (d : Element) : Prop where
  inherited_eq : inherited = scope.inherited
  named : NamedDeclarations inherited
  isKept : Node.All (Node.IsKept rule) scope d

theorem Element.StandsIn.mirrors {rule : CanonicalRule} {scope : Scope}
    {inherited : List Declaration} {d : Element} (h : d.StandsIn rule scope inherited) :
    Mirrors scope (Bindings.declareAll [] inherited) := by
  have hnamed := h.named
  rw [h.inherited_eq] at hnamed ⊢
  exact .inherited hnamed

mutual

/-- Every element of a node stands in a scope, where it keeps what holds of all
nodes. -/
theorem Node.All.exists_scope {P : Scope → Node → Prop}
    (hP : ∀ {scope tag children}, P scope (.element tag children) →
      NamedDeclarations tag.declarations) :
    ∀ {n : Node} {scope : Scope} {p : Element × List Declaration},
      n.All P scope → NamedDeclarations scope.inherited → p ∈ n.elements scope.inherited →
      ∃ scope : Scope, p.2 = scope.inherited ∧ NamedDeclarations p.2 ∧ Node.All P scope p.1
  | .element tag children, scope, p, h, hnamed, hp => by
      rw [Node.elements, ← Scope.inherited_cons] at hp
      rcases List.mem_cons.mp hp with rfl | hp
      · exact ⟨scope, rfl, hnamed, h⟩
      · refine AllNodes.exists_scope hP h.children ?_ hp
        rw [Scope.inherited_cons]
        exact hnamed.append (hP h.here)
  | .text _, _, _, _, _, hp => by cases hp
  | .comment _, _, _, _, _, hp => by cases hp
  | .instruction _ _, _, _, _, _, hp => by cases hp

theorem AllNodes.exists_scope {P : Scope → Node → Prop}
    (hP : ∀ {scope tag children}, P scope (.element tag children) →
      NamedDeclarations tag.declarations) :
    ∀ {ns : List Node} {scope : Scope} {p : Element × List Declaration},
      AllNodes P scope ns → NamedDeclarations scope.inherited → p ∈ elementsIn scope.inherited ns →
      ∃ scope : Scope, p.2 = scope.inherited ∧ NamedDeclarations p.2 ∧ Node.All P scope p.1
  | [], _, _, _, _, hp => by cases hp
  | n :: ns, _, _, h, hnamed, hp => by
      rw [AllNodes] at h
      rw [elementsIn] at hp
      rcases List.mem_append.mp hp with hp | hp
      · exact Node.All.exists_scope hP h.1 hnamed hp
      · exact AllNodes.exists_scope hP h.2 hnamed hp

end

/-- Every element of a node stands in a scope. -/
theorem Node.exists_standsIn {rule : CanonicalRule} {n : Node} {scope : Scope}
    {p : Element × List Declaration} (h : n.All (Node.IsKept rule) scope)
    (hnamed : NamedDeclarations scope.inherited) (hp : p ∈ n.elements scope.inherited) :
    ∃ scope, p.1.StandsIn rule scope p.2 := by
  have hdeclared : ∀ {scope tag children}, Node.IsKept rule scope (.element tag children) →
      NamedDeclarations tag.declarations := fun h => Tag.IsPrintable.declared h.1
  obtain ⟨scope, heq, hnamed, hkept⟩ := Node.All.exists_scope hdeclared h hnamed hp
  exact ⟨scope, heq, hnamed, hkept⟩

/-- What is canonicalized of an element: it itself, or a descendant that a search
finds, with the declarations that the search returns. -/
inductive Element.IsApexOf (e : Element) : Element → List Declaration → Prop where
  | root : IsApexOf e e []
  | descendant {space localPart : String} {d : Element} {inherited : List Declaration}
      (h : e.findDescendant? space localPart = some (d, inherited)) : IsApexOf e d inherited

theorem Element.IsApexOf.mem_elements {e d : Element} {inherited : List Declaration}
    (h : e.IsApexOf d inherited) : (d, inherited) ∈ Node.elements [] e := by
  rw [Node.elements]
  cases h with
  | root => exact List.mem_cons_self ..
  | descendant h =>
      rw [Element.findDescendant?_eq] at h
      exact List.mem_cons_of_mem _ (List.mem_of_find?_eq_some h)

/-! ## Meaning -/

/-- The canonical text of an element in a document is read as an element with the
same content. -/
theorem Element.exists_read_canonicalInScope {bs : Octets} {e d : Element}
    {inherited : List Declaration} (h : Element.read bs = .ok e) (hnames : e.IsWellNamed)
    (hd : e.IsApexOf d inherited) (m : CanonicalMethod) :
    ∃ e', Element.read (Text.encode (d.canonicalInScope m inherited)) = .ok e' ∧
      e'.Matches (d.content m.comments) := by
  have hkept := (Element.allHold_of_read h hnames).isKept m.rule
  have hnamed : NamedDeclarations (Scope.inherited []) := fun d hd => by cases hd
  obtain ⟨scope, hd⟩ := Node.exists_standsIn hkept hnamed hd.mem_elements
  exact ⟨_, Element.read_canonicalInScope hd.isKept hd.named fun _ => hd.mirrors,
    d.canonicalTree_matches _ _⟩

/-- A document with a default namespace that is undone, and a descendant that uses
a qualifier from further outside. -/
def nested : Element :=
  ⟨⟨⟨none, "a", some "urn:a"⟩, [⟨none, "urn:a"⟩, ⟨some "p", "urn:p"⟩], []⟩,
    [.comment "c",
      .element ⟨⟨none, "b", none⟩, [⟨none, ""⟩], [⟨⟨some "p", "x", some "urn:p"⟩, "1"⟩]⟩
        [.text "s", .element ⟨⟨some "p", "d", some "urn:p"⟩, [], [⟨⟨none, "y", none⟩, "<"⟩]⟩
          [.text "&"]]]⟩

theorem read_nested :
    Element.read (Text.encode ("<a xmlns='urn:a' xmlns:p='urn:p'><!--c--><b xmlns='' p:x='1'>s"
      ++ "<p:d y='&lt;'><![CDATA[&]]></p:d></b></a>")) = .ok nested := by
  decide +kernel

theorem nested_isWellNamed : nested.IsWellNamed := by decide

/-- For example, the inner element of `nested` keeps its content. -/
theorem Element.exists_read_canonicalInScope_nested :
    ∃ d inherited e', nested.findDescendant? "urn:p" "d" = some (d, inherited) ∧
      Element.read (Text.encode (d.canonicalInScope .exclusive inherited)) = .ok e' ∧
      e'.Matches (d.content false) := by
  obtain ⟨⟨d, inherited⟩, hd⟩ :=
    Option.isSome_iff_exists.mp (by rfl : (nested.findDescendant? "urn:p" "d").isSome)
  obtain ⟨e', hread, hmatches⟩ := Element.exists_read_canonicalInScope read_nested
    nested_isWellNamed (.descendant hd) .exclusive
  exact ⟨d, inherited, e', hd, hread, hmatches⟩

end Presign.Xml
