import Presign.Proofs.Xml.CanonicalOrder
import Presign.Proofs.Xml.Reading

/-!
# The exclusive rule looks at content only

Under the exclusive rule a tag declares what it uses and what is not written
around it.  Neither looks at the declarations of the document, so elements with
the same content have the same canonical text, whatever they inherit.

The exception are two attributes with the same namespace and local part, which
stay in the order of the document.
-/

namespace Presign.Xml

/-- An element whose attributes differ in their names. -/
def Node.HasDistinctAttributes : Node → Prop
  | .element tag _ => tag.HasDistinctAttributes
  | _ => True

instance : (n : Node) → Decidable n.HasDistinctAttributes
  | .element tag _ => inferInstanceAs (Decidable tag.HasDistinctAttributes)
  | .text _ => .isTrue trivial
  | .comment _ => .isTrue trivial
  | .instruction _ _ => .isTrue trivial

/-- No element has two attributes with the same namespace and local part. -/
def Element.HasDistinctAttributes (e : Element) : Prop :=
  Node.All (fun _ n => n.HasDistinctAttributes) [] e

instance (e : Element) : Decidable e.HasDistinctAttributes :=
  inferInstanceAs (Decidable (Node.All (fun _ n => n.HasDistinctAttributes) [] e))

/-- A node whose tag says one thing under the exclusive rule: its names have the
namespaces of a scope, and its attributes differ in their names. -/
def Node.IsDefinite (scope : Scope) (n : Node) : Prop := n.Fits scope ∧ n.HasDistinctAttributes

theorem ofTags_isDefinite : OfTags Node.IsDefinite := ⟨id, fun _ _ => ⟨trivial, trivial⟩⟩

/-! ## Matching nodes -/

variable {m : CanonicalMethod}

theorem Tag.Matches.canonicalChars_eq {t t' : Tag} {scope : Scope} (h : t.Matches t')
    (hfits : t.Fits scope) (hdistinct : t.HasDistinctAttributes) (declared : Bindings) :
    t.canonicalChars declared = t'.canonicalChars declared := by
  rw [Tag.canonicalChars, Tag.canonicalChars, h.name, h.canonicalAttributes_eq hfits hdistinct]

theorem Tag.canonicalBindings_exclusive (hm : m.rule = .exclusive) (t : Tag)
    (b written : Bindings) : t.canonicalBindings m.rule b written = t.used.changed written := by
  rw [hm, Tag.canonicalBindings]

mutual

/-- Nodes that match have the same canonical text under the exclusive rule,
whatever is in scope. -/
theorem Node.Matches.canonicalChars_eq (hm : m.rule = .exclusive) :
    ∀ {n n' : Node}, n.Matches n' → ∀ {scope : Scope}, n.All Node.IsDefinite scope →
      ∀ b b' written : Bindings,
        n.canonicalChars m b written = n'.canonicalChars m b' written
  | _, _, @Node.Matches.element tag tag' _ _ htag hchildren, _, h, b, b', written => by
      obtain ⟨hfits, hdistinct⟩ := h.here
      have hdeclared : tag.canonicalBindings m.rule (b.declareAll tag.declarations) written
          = tag'.canonicalBindings m.rule (b'.declareAll tag'.declarations) written := by
        rw [Tag.canonicalBindings_exclusive hm, Tag.canonicalBindings_exclusive hm,
          htag.used_eq hfits]
      have hend : tag.endChars = tag'.endChars := by
        rw [Tag.endChars, Tag.endChars, htag.name]
      rw [Node.canonicalChars, Node.canonicalChars, hdeclared,
        htag.canonicalChars_eq hfits hdistinct, hend,
        hchildren.canonicalNodes_eq hm h.children _ (b'.declareAll tag'.declarations)]
  | _, _, .text _, _, _, _, _, _ => by rw [Node.canonicalChars, Node.canonicalChars]
  | _, _, .comment _, _, _, _, _, _ => by rw [Node.canonicalChars, Node.canonicalChars]
  | _, _, .instruction _ _, _, _, _, _, _ => by rw [Node.canonicalChars, Node.canonicalChars]

theorem NodesMatch.canonicalNodes_eq (hm : m.rule = .exclusive) :
    ∀ {ns ns' : List Node}, NodesMatch ns ns' → ∀ {scope : Scope},
      AllNodes Node.IsDefinite scope ns → ∀ b b' written : Bindings,
        canonicalNodes m b written ns = canonicalNodes m b' written ns'
  | _, _, .nil, _, _, _, _, _ => by rw [canonicalNodes, canonicalNodes]
  | _, _, .cons hn hns, _, h, b, b', written => by
      rw [AllNodes] at h
      rw [canonicalNodes, canonicalNodes, hn.canonicalChars_eq hm h.1 b b',
        hns.canonicalNodes_eq hm h.2 b b']

end

/-- Under the exclusive rule a document has the canonical text of every tree with
the same content, be it another document or not, whatever declarations are
inherited. -/
theorem Element.canonicalInScope_eq_of_matches {bs : Octets} {e e' : Element}
    (hm : m.rule = .exclusive) (h : Element.read bs = .ok e) (hdistinct : e.HasDistinctAttributes)
    (hmatches : (e.content m.comments).Matches (e'.content m.comments))
    (inherited inherited' : List Declaration) :
    e.canonicalInScope m inherited = e'.canonicalInScope m inherited' := by
  have hdefinite := ofTags_isDefinite.content m.comments
    ((Element.all_fits_of_read h).and hdistinct)
  rw [← e.canonicalInScope_content, ← e'.canonicalInScope_content]
  exact congrArg String.ofList (hmatches.canonicalChars_eq hm hdefinite _ _ _)

/-- A document with a comment, a CDATA section and an empty tag. -/
def loose : Element :=
  ⟨⟨⟨none, "a", some "urn:a"⟩, [⟨none, "urn:a"⟩, ⟨some "p", "urn:p"⟩],
      [⟨⟨some "p", "x", some "urn:p"⟩, "1"⟩, ⟨⟨none, "y", none⟩, "2"⟩]⟩,
    [.text "s", .comment "c", .text "<", .element ⟨⟨none, "b", none⟩, [⟨none, ""⟩], []⟩ []]⟩

theorem read_loose :
    Element.read (Text.encode ("<a xmlns='urn:a' xmlns:p='urn:p' p:x='1' y='2'>s<!--c-->"
      ++ "<![CDATA[<]]><b xmlns=''/></a>")) = .ok loose := by
  decide +kernel

/-- The same document with its attributes and declarations in another order, and
one declaration more. -/
def tight : Element :=
  ⟨⟨⟨none, "a", some "urn:a"⟩,
      [⟨some "q", "urn:q"⟩, ⟨some "p", "urn:p"⟩, ⟨none, "urn:a"⟩],
      [⟨⟨none, "y", none⟩, "2"⟩, ⟨⟨some "p", "x", some "urn:p"⟩, "1"⟩]⟩,
    [.text "s<", .element ⟨⟨none, "b", none⟩, [⟨none, ""⟩], []⟩ []]⟩

theorem read_tight :
    Element.read (Text.encode ("<a y='2' xmlns:q='urn:q' p:x='1' xmlns:p='urn:p' xmlns='urn:a'>"
      ++ "s&lt;<b xmlns=''></b></a>")) = .ok tight := by
  decide +kernel

theorem loose_matches_tight : (loose.content false).Matches (tight.content false) := by
  have hloose : loose.content false = ⟨loose.tag, tight.children⟩ := by decide +kernel
  have htight : tight.content false = tight := by decide +kernel
  rw [hloose, htight]
  exact .element ⟨rfl, .swap ..⟩ (.cons (.text _) (.cons (.element ⟨rfl, .refl _⟩ .nil) .nil))

/-- For example, both documents have the same canonical text, also where one of
them inherits a declaration. -/
theorem Element.canonicalInScope_eq_of_matches_loose :
    ∃ bs bs', Element.read bs = .ok loose ∧ Element.read bs' = .ok tight ∧
      loose.canonicalInScope .exclusive [] = tight.canonicalInScope .exclusive [⟨none, "urn:z"⟩] :=
  ⟨_, _, read_loose, read_tight,
    Element.canonicalInScope_eq_of_matches rfl read_loose (by decide) loose_matches_tight _ _⟩

end Presign.Xml
