import Presign.Proofs.Xml.CanonicalMeaning
import Presign.Proofs.Xml.CanonicalOrder

/-!
# Canonical texts are their own canonical form

A canonical text is read as the canonical tree, and this tree has the same
canonical text.  The induction follows the tree of the document.  Under an
inclusive rule, what is in scope in the canonical tree is what was written, so
what differs is again what was written.  Under the exclusive rule, what a tag uses
does not change with the order of its attributes.
-/

namespace Presign.Xml

namespace Bindings

/-- Declaring bindings that are written as declarations updates with them, if the
qualifier of XML itself is not among them. -/
theorem declareAll_map_bindingDeclaration {declared : Bindings} (h : "xml" ∉ declared.map Prod.fst)
    (b : Bindings) : b.declareAll (declared.map bindingDeclaration) = b.update declared := by
  induction declared generalizing b with
  | nil => rfl
  | cons p declared ih =>
      rw [List.map_cons, List.mem_cons, not_or] at h
      have hname : (bindingDeclaration p).qualifier.getD "" = p.1 := by
        unfold bindingDeclaration
        by_cases hp : p.1 = "" <;> simp [hp]
      have hdeclare : b.declare (bindingDeclaration p) = insert p.1 p.2 b := by
        rw [declare, hname, if_neg (Ne.symm h.1)]
        rfl
      rw [List.map_cons, declareAll, List.foldl_cons, hdeclare]
      exact ih h.2 _

theorem get?_xml_declareAll {b : Bindings} (h : b.get? "xml" = none) (ds : List Declaration) :
    (b.declareAll ds).get? "xml" = none := by
  induction ds generalizing b with
  | nil => exact h
  | cons d ds ih =>
      refine ih ?_
      rw [get?_declare, if_neg fun hd => hd.2 rfl, h]

end Bindings

/-- What a canonical tree is put into canonical form with, next to what its
document was: under an inclusive rule the bindings in scope are those that were
written. -/
structure Rereads (rule : CanonicalRule) (b b' written : Bindings) : Prop where
  sorted : b.Sorted
  sortedWritten : written.Sorted
  unreserved : b.get? "xml" = none
  inScope : rule ≠ .exclusive → b' = written

section Step

variable {rule : CanonicalRule} {b b' written : Bindings}

/-- A canonical tag declares the same bindings again, and this is kept inside of
it. -/
theorem Rereads.enter (h : Rereads rule b b' written) {t : Tag} {scope : Scope}
    (hfits : t.Fits scope) {declared : Bindings}
    (hdeclared : declared = t.canonicalBindings rule (b.declareAll t.declarations) written) :
    (t.canonicalTag declared).canonicalBindings rule
        (b'.declareAll (t.canonicalTag declared).declarations) written = declared ∧
      Rereads rule (b.declareAll t.declarations)
        (b'.declareAll (t.canonicalTag declared).declarations) (written.update declared) := by
  have hsorted := h.sorted.declareAll t.declarations
  have hxml := Bindings.get?_xml_declareAll h.unreserved t.declarations
  have hupdate : rule ≠ .exclusive →
      b'.declareAll (t.canonicalTag declared).declarations = written.update declared := by
    intro hrule
    rw [h.inScope hrule]
    refine Bindings.declareAll_map_bindingDeclaration ?_ written
    rw [hdeclared, canonicalBindings_of_ne hrule]
    exact Bindings.get?_eq_none_iff.mp (Bindings.get?_changed_of_none hxml written)
  refine ⟨?_, hsorted, h.sortedWritten.update declared, hxml, hupdate⟩
  by_cases hrule : rule = .exclusive
  · rw [hrule] at hdeclared ⊢
    have hused : (t.canonicalTag declared).used = t.used :=
      ((t.canonicalTag_matches declared).symm.used_eq hfits).symm
    rw [Tag.canonicalBindings, hused, hdeclared, Tag.canonicalBindings]
  · rw [hupdate hrule, canonicalBindings_of_ne hrule, hdeclared, canonicalBindings_of_ne hrule,
      Bindings.changed_update_changed hsorted h.sortedWritten]

/-- A canonical tag is written as its tag was. -/
theorem Tag.canonicalChars_canonicalTag (t : Tag) (declared : Bindings) :
    (t.canonicalTag declared).canonicalChars declared = t.canonicalChars declared := by
  rw [Tag.canonicalChars, Tag.canonicalChars, Tag.canonicalTag,
    canonicalAttributes_canonicalAttributes]

end Step

variable {m : CanonicalMethod}

mutual

/-- A canonical tree has the canonical text of its node. -/
theorem Node.canonicalChars_canonicalTrees :
    ∀ {n : Node} {scope : Scope} {b b' written : Bindings}, n.All Node.Fits scope →
      Rereads m.rule b b' written →
      canonicalNodes m b' written (n.canonicalTrees m b written) = n.canonicalChars m b written
  | .element tag children, scope, b, b', written, h, hrereads => by
      obtain ⟨hdeclared, hinside⟩ := hrereads.enter h.here rfl
      rw [Node.canonicalTrees, canonicalNodes, canonicalNodes, List.append_nil,
        Node.canonicalChars, Node.canonicalChars, hdeclared, tag.canonicalChars_canonicalTag,
        canonicalNodes_canonicalForest h.children hinside]
      rfl
  | .text s, _, _, _, _, _, _ => by
      rw [Node.canonicalTrees, canonicalNodes, canonicalNodes, List.append_nil,
        Node.canonicalChars, Node.canonicalChars]
  | .comment s, _, _, _, _, _, _ => by
      rw [Node.canonicalTrees, Node.canonicalChars]
      split
      · rename_i hm
        rw [canonicalNodes, canonicalNodes, List.append_nil, Node.canonicalChars, if_pos hm]
      · rw [canonicalNodes]
  | .instruction target data, _, _, _, _, _, _ => by
      rw [Node.canonicalTrees, canonicalNodes, canonicalNodes, List.append_nil,
        Node.canonicalChars, Node.canonicalChars]

theorem canonicalNodes_canonicalForest :
    ∀ {ns : List Node} {scope : Scope} {b b' written : Bindings}, AllNodes Node.Fits scope ns →
      Rereads m.rule b b' written →
      canonicalNodes m b' written (canonicalForest m b written ns)
        = canonicalNodes m b written ns
  | [], _, _, _, _, _, _ => by rw [canonicalForest, canonicalNodes, canonicalNodes]
  | n :: ns, _, _, _, _, h, hrereads => by
      rw [AllNodes] at h
      rw [canonicalForest, canonicalNodes_append, canonicalNodes,
        Node.canonicalChars_canonicalTrees h.1 hrereads,
        canonicalNodes_canonicalForest h.2 hrereads]

end

/-- The canonical text of a document is read, and what is read has the same
canonical text. -/
theorem Element.exists_read_canonical_eq {bs : Octets} {e : Element}
    (h : Element.read bs = .ok e) (hnames : e.IsWellNamed) (m : CanonicalMethod) :
    ∃ e', Element.read (Text.encode (e.canonical m)) = .ok e' ∧
      e'.canonical m = e.canonical m := by
  have hkept := (Element.allHold_of_read h hnames).isKept m.rule
  have hnamed : NamedDeclarations [] := fun d hd => by cases hd
  refine ⟨_, Element.read_canonicalInScope hkept hnamed fun _ => Mirrors.nil, ?_⟩
  have hrereads : Rereads m.rule [] [] [] := ⟨.nil, .nil, rfl, fun _ => rfl⟩
  have htree := Node.canonicalChars_canonicalTrees (m := m) (Element.all_fits_of_read h) hrereads
  rw [Element.canonicalTrees_coe, canonicalNodes, canonicalNodes, List.append_nil] at htree
  rw [Element.canonical, Element.canonicalInScope_joined]
  exact congrArg String.ofList htree

/-- For example, the inclusive form of `nested` with comments is its own canonical
form. -/
theorem Element.exists_read_canonical_eq_nested :
    ∃ e', Element.read (Text.encode (nested.canonical ⟨.inclusive10, true⟩)) = .ok e' ∧
      e'.canonical ⟨.inclusive10, true⟩ = nested.canonical ⟨.inclusive10, true⟩ :=
  Element.exists_read_canonical_eq read_nested nested_isWellNamed _

end Presign.Xml
