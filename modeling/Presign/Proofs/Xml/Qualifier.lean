import Presign.Proofs.Xml.Edited
import Presign.Proofs.Xml.Reading

/-!
# What qualifiers stand for

A new element borrows its qualifier from an element around it.  It has its
namespace when it is read again if the qualifier still stands for that
namespace where the element is put in (`Scope.Gives`).  It can be read at all if
the qualifier stands for something there (`Scope.Binds`).

Both pass to the inside of an element, as long as the element does not declare
the qualifier otherwise.
-/

namespace Presign.Xml

/-! ## Qualifiers in scope -/

theorem exists_of_declaredUri? {ds : List Declaration} {qualifier : Option String} {uri : String}
    (h : declaredUri? ds qualifier = some uri) :
    ∃ d ∈ ds, d.qualifier = qualifier ∧ d.uri = uri := by
  obtain ⟨d, hd, huri⟩ := Option.map_eq_some_iff.mp h
  exact ⟨d, List.mem_reverse.mp (List.mem_of_find?_eq_some hd),
    by simpa using List.find?_some hd, huri⟩

/-- A declaration does not make a qualifier, if it is one, stand for another
namespace. -/
def Declaration.Keeps (qualifier : Option String) (space : String) (d : Declaration) : Prop :=
  ∀ q, qualifier = some q → d.qualifier = some q → d.uri = space

/-- A declaration does not undo a qualifier. -/
def Declaration.Binds (d : Declaration) : Prop := ∀ q, d.qualifier = some q → d.uri ≠ ""

/-- A qualifier, if it is one, stands for a namespace in a scope. -/
def Scope.Gives (scope : Scope) (qualifier : Option String) (space : String) : Prop :=
  ∀ q, qualifier = some q → scope.spaceOf q = .ok space

/-- A qualifier, if it is one, stands for some namespace in a scope. -/
def Scope.Binds (scope : Scope) (qualifier : Option String) : Prop :=
  ∀ q, qualifier = some q → ∃ u, scope.spaceOf q = .ok u

theorem Scope.Gives.binds {scope : Scope} {qualifier : Option String} {space : String}
    (h : scope.Gives qualifier space) : scope.Binds qualifier := fun q hq => ⟨space, h q hq⟩

/-- A qualifier that an element declares for the same namespace only, or not at
all, stands for it inside of the element. -/
theorem Scope.Gives.cons {scope : Scope} {qualifier : Option String} {space : String}
    (h : scope.Gives qualifier space) {ds : List Declaration}
    (hds : ∀ d ∈ ds, d.Keeps qualifier space) :
    Scope.Gives (ds :: scope) qualifier space := by
  intro q hq
  have hspace := h q hq
  rw [spaceOf_eq_ok_iff] at hspace ⊢
  rcases hspace with hxml | ⟨hne, hlookup, huri⟩
  · exact Or.inl hxml
  · refine Or.inr ⟨hne, ?_, huri⟩
    rw [lookup?_cons, ← hq]
    cases hd : declaredUri? ds qualifier with
    | none => rw [hq, Option.none_or, hlookup]
    | some uri =>
        obtain ⟨d, hmem, hdq, rfl⟩ := exists_of_declaredUri? hd
        rw [hds d hmem q hq (hdq.trans hq), Option.some_or]

/-- A qualifier that stands for something still does inside of an element that
declares no qualifier away. -/
theorem Scope.Binds.cons {scope : Scope} {qualifier : Option String} (h : scope.Binds qualifier)
    {ds : List Declaration} (hds : ∀ d ∈ ds, d.Binds) : Scope.Binds (ds :: scope) qualifier := by
  intro q hq
  obtain ⟨space, hspace⟩ := h q hq
  cases hd : declaredUri? ds qualifier with
  | none =>
      refine ⟨space, ?_⟩
      rw [spaceOf_eq_ok_iff] at hspace ⊢
      rw [lookup?_cons, ← hq, hd, Option.none_or, hq]
      exact hspace
  | some uri =>
      by_cases hxml : q = "xml"
      · exact ⟨xmlSpace, spaceOf_eq_ok_iff.mpr (Or.inl ⟨hxml, rfl⟩)⟩
      · obtain ⟨d, hmem, hdq, rfl⟩ := exists_of_declaredUri? hd
        refine ⟨d.uri, spaceOf_eq_ok_iff.mpr (Or.inr ⟨hxml, ?_, hds d hmem q (hdq.trans hq)⟩)⟩
        rw [lookup?_cons, ← hq, hd, Option.some_or]

/-- What new elements declare has no bearing on what qualifiers stand for. -/
theorem gives_within_iff {scope : Scope} {qualifier qualifier' : Option String}
    {space space' localPart : String} :
    Scope.Gives ((Element.within space' qualifier' localPart).tag.declarations :: scope) qualifier
      space ↔ scope.Gives qualifier space := by
  simp only [Scope.Gives, spaceOf_within]

theorem binds_within_iff {scope : Scope} {qualifier qualifier' : Option String}
    {space' localPart : String} :
    Scope.Binds ((Element.within space' qualifier' localPart).tag.declarations :: scope) qualifier
      ↔ scope.Binds qualifier := by
  simp only [Scope.Binds, spaceOf_within]

/-! ## Declarations of new elements -/

theorem qualifier_of_mem_within {space : String} {qualifier : Option String} {localPart : String}
    {d : Declaration} (hd : d ∈ (Element.within space qualifier localPart).tag.declarations) :
    d.qualifier = none := by
  rw [tag_within] at hd
  dsimp only at hd
  split at hd
  · rw [List.mem_singleton.mp hd]
  · cases hd

/-- What is declared in a child, and below it, satisfies a condition, if what is
declared below the parent does.  A missing child may be created, if the
condition is about qualifiers. -/
theorem Element.DeclaresBelow.childOrNew {p : Declaration → Prop} {e : Element}
    (h : e.DeclaresBelow p) (hp : ∀ d : Declaration, d.qualifier = none → p d) (space : String)
    (qualifier : Option String) (localPart : String) :
    (∀ d ∈ ((e.findChild? space localPart).getD
        (.within space qualifier localPart)).tag.declarations, p d) ∧
      ((e.findChild? space localPart).getD
        (.within space qualifier localPart)).DeclaresBelow p := by
  cases hc : e.findChild? space localPart with
  | some c => exact h.child (Element.mem_of_findChild? hc)
  | none =>
      refine ⟨fun d hd => hp d (qualifier_of_mem_within hd), fun c hc => ?_⟩
      rw [Option.getD_none] at hc
      cases hc with
      | child hmem => rw [children_within] at hmem; cases hmem
      | deeper hmem _ => rw [children_within] at hmem; cases hmem

/-- If the children have no children, only what they declare themselves
counts. -/
theorem Element.declaresBelow_of_leaves {p : Declaration → Prop} {e : Element}
    (h : ∀ c ∈ e.childElements, c.children = [] ∧ ∀ d ∈ c.tag.declarations, p d) :
    e.DeclaresBelow p := by
  have hchild {c : Element} (hmem : (c : Node) ∈ e.children) :
      c.children = [] ∧ ∀ d ∈ c.tag.declarations, p d :=
    h c (List.mem_filterMap.mpr ⟨c, hmem, Element.element?_coe c⟩)
  intro c hc
  cases hc with
  | child hmem => exact (hchild hmem).2
  | deeper hmem hc =>
      have hleaf := (hchild hmem).1
      cases hc with
      | child hinner => rw [hleaf] at hinner; cases hinner
      | deeper hinner _ => rw [hleaf] at hinner; cases hinner

/-- An element whose children are elements without children is well named if
they and itself are. -/
theorem Element.isWellNamed_of_leaves {scope : Scope} {e : Element} (htag : e.tag.IsWellNamed)
    (h : ∀ n ∈ e.children, ∃ tag, n = .element tag [] ∧ tag.IsWellNamed) :
    Node.All (fun _ n => n.IsWellNamed) scope e := by
  refine Node.all_element.mpr ⟨htag, allNodes_iff.mpr fun n hn => ?_⟩
  obtain ⟨tag, rfl, hwell⟩ := h n hn
  exact Node.all_element.mpr ⟨hwell, by rw [AllNodes]; trivial⟩

/-- In a document that is well formed, no qualifier is undone. -/
theorem Element.IsWellNamed.declaresBelow {e : Element} (h : e.IsWellNamed) :
    e.DeclaresBelow Declaration.Binds := by
  intro c hc d hd q hq
  obtain ⟨scope, hall⟩ := Node.All.below h hc
  have hwell : c.tag.IsWellNamed := hall.here
  exact (hwell.declared d hd q hq).2

/-! ## Names of new elements -/

theorem isResolved_within {scope : Scope} {qualifier : Option String} {space : String}
    (hspace : space ≠ "") (h : scope.Gives qualifier space) (localPart : String) :
    IsResolved scope (Element.within space qualifier localPart).tag := by
  rw [tag_within, IsResolved, elementName_eq_ok_iff]
  cases qualifier with
  | none =>
      change some space = Scope.defaultSpace ([⟨none, space⟩] :: scope)
      unfold Scope.defaultSpace
      rw [lookup?_cons]
      change some space = Option.filter _ (some space)
      rw [Option.filter_some, if_pos (by simpa using hspace)]
  | some q => exact ⟨space, rfl, (spaceOf_within space (some q) localPart q scope).trans (h q rfl)⟩

/-- A new element is loose wherever its qualifier stands for something. -/
theorem isLoose_within {scope : Scope} {qualifier : Option String} {space : String}
    (hspace : space ≠ "") (hxml : qualifier ≠ some "xml") (h : scope.Binds qualifier)
    (localPart : String) : IsLoose scope (Element.within space qualifier localPart).tag := by
  have hfits : ∃ s, (Element.within space qualifier localPart).tag.Fits s := by
    -- the scope that declares just the qualifier
    refine ⟨[[⟨qualifier, space⟩]], isResolved_within hspace (fun q hq => ?_) localPart,
      fun a ha => ?_⟩
    · refine spaceOf_eq_ok_iff.mpr (Or.inr ⟨fun he => hxml (he ▸ hq), ?_, hspace⟩)
      rw [lookup?_cons, hq]
      simp [declaredUri?]
    · rw [tag_within] at ha
      cases ha
  refine ⟨?_, hfits⟩
  rw [tag_within]
  cases qualifier with
  | none => exact ⟨_, rfl⟩
  | some q =>
      obtain ⟨u, hu⟩ := h q rfl
      have hspaceOf := (spaceOf_within space (some q) localPart q scope).trans hu
      rw [tag_within] at hspaceOf
      exact ⟨⟨some q, localPart, some u⟩, by rw [Scope.elementName, hspaceOf]; rfl⟩

/-- The qualifier of an element that has its namespace stands for it. -/
theorem gives_of_isResolved {scope : Scope} {t : Tag} {space : String} (h : IsResolved scope t)
    (hspace : t.name.space = some space) :
    Scope.Gives (t.declarations :: scope) t.name.qualifier space := by
  intro q hq
  have hname := elementName_eq_ok_iff.mp h
  rw [hq] at hname
  obtain ⟨u, hu, hok⟩ := hname
  rw [hspace] at hu
  cases hu
  exact hok

/-- A new element has its namespace exactly where its qualifier stands for
it. -/
theorem isResolved_within_iff {scope : Scope} {qualifier : Option String} {space : String}
    (hspace : space ≠ "") (localPart : String) :
    IsResolved scope (Element.within space qualifier localPart).tag ↔
      scope.Gives qualifier space := by
  constructor
  · intro h
    have hname : (Element.within space qualifier localPart).tag.name.space = some space := by
      rw [tag_within]
    have hgives := gives_of_isResolved h hname
    rw [gives_within_iff, tag_within] at hgives
    exact hgives
  · intro h
    exact isResolved_within hspace h localPart

/-! ## Conditions on new elements -/

theorem Insertable.isResolved {B : Scope → Prop} {qualifier : Option String} {space : String}
    (hnamed : ∀ q, qualifier = some q → IsNamePart q) (hspace : space ≠ "")
    (hinside : ∀ scope space' qualifier' localPart',
      B ((Element.within space' qualifier' localPart').tag.declarations :: scope) ↔ B scope)
    (hgives : ∀ scope : Scope, B scope → scope.Gives qualifier space) :
    Insertable IsResolved B qualifier space :=
  ⟨hnamed, hinside, fun scope localPart hB => isResolved_within hspace (hgives scope hB) localPart⟩

/-- A new element has its namespace where its qualifier stands for it. -/
theorem Element.allHold_within {scope : Scope} {q space localPart : String} (hq : IsNamePart q)
    (hspace : space ≠ "") (hl : IsNamePart localPart) (h : scope.Gives (some q) space) :
    (Element.within space (some q) localPart).AllHold IsResolved scope :=
  Insertable.allHold (B := fun scope => scope.Gives (some q) space)
    (.isResolved (fun q' hq' => by cases hq'; exact hq) hspace (fun _ _ _ _ => gives_within_iff)
      fun _ hB => hB) hl h

theorem Insertable.isLoose {B : Scope → Prop} {qualifier : Option String} {space : String}
    (hnamed : ∀ q, qualifier = some q → IsNamePart q) (hspace : space ≠ "")
    (hxml : qualifier ≠ some "xml")
    (hinside : ∀ scope space' qualifier' localPart',
      B ((Element.within space' qualifier' localPart').tag.declarations :: scope) ↔ B scope)
    (hbinds : ∀ scope : Scope, B scope → scope.Binds qualifier) :
    Insertable IsLoose B qualifier space :=
  ⟨hnamed, hinside,
    fun scope localPart hB => isLoose_within hspace hxml (hbinds scope hB) localPart⟩

/-! ## Elements that declare their own qualifier -/

theorem gives_declared {scope : Scope} {q uri : String} (hxml : q ≠ "xml") (huri : uri ≠ "") :
    Scope.Gives ([⟨some q, uri⟩] :: scope) (some q) uri := by
  intro q' hq
  cases hq
  refine spaceOf_eq_ok_iff.mpr (Or.inr ⟨hxml, ?_, huri⟩)
  rw [lookup?_cons]
  simp [declaredUri?]

/-- An element that declares its own qualifier has its namespace in every
scope. -/
theorem Element.allHold_declared {scope : Scope} {q localPart uri : String} (hq : IsNamePart q)
    (hl : IsNamePart localPart) (hxml : q ≠ "xml") (huri : uri ≠ "") :
    ((Element.bare (some q) localPart (some uri)).declare (some q) uri).AllHold IsResolved
      scope := by
  rw [Element.allHold_iff]
  refine ⟨⟨⟨⟨hl, fun q' hq' => by cases hq'; exact hq⟩, fun d hd q' hq' => ?_,
    fun a ha => (by cases ha), List.nodup_singleton _⟩, fun a ha => (by cases ha), ?_⟩, ?_⟩
  · rw [List.mem_singleton.mp hd] at hq'
    cases hq'
    exact hq
  · exact elementName_eq_ok_iff.mpr ⟨uri, rfl, gives_declared hxml huri q rfl⟩
  · rw [Element.declare, Element.bare, AllNodes]
    trivial

end Presign.Xml
