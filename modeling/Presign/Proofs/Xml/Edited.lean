import Presign.Proofs.Xml.Canonical
import Presign.Proofs.Xml.Descendant

/-!
# What changes keep

`Node.Holds N` says of a node that it can be written and read, that its
attributes have their namespaces, and that its tag satisfies `N`.  Where this
holds everywhere in a tree, it still does after a change, if it holds for what
is put in.

Two conditions on tags matter.  `IsResolved` says that the name of the tag has
the namespace that its qualifier stands for.  `IsLoose` says only that the
qualifier stands for something, and that the tag does not contradict itself.
-/

namespace Presign.Xml

/-! ## Conditions on tags -/

/-- The name of a tag has its namespace in a scope. -/
def IsResolved (scope : Scope) (t : Tag) : Prop :=
  Scope.elementName (t.declarations :: scope) t.name.qualifier t.name.localPart = .ok t.name

/-- The name of a tag has some namespace, or none, in a scope, and the names in
the tag have their namespaces in some scope. -/
def IsLoose (scope : Scope) (t : Tag) : Prop :=
  (∃ n, Scope.elementName (t.declarations :: scope) t.name.qualifier t.name.localPart = .ok n) ∧
    ∃ scope, t.Fits scope

/-- A condition that does not depend on attributes without namespace. -/
def Stable (N : Scope → Tag → Prop) : Prop :=
  ∀ scope t localPart value, N scope t →
    N scope { t with attributes := Element.setIn localPart value t.attributes }

/-- A tag that can be written, and that satisfies a condition. -/
structure Tag.Holds (N : Scope → Tag → Prop) (scope : Scope) (t : Tag) : Prop where
  printable : t.IsPrintable
  attributes : ∀ a ∈ t.attributes,
    Scope.attributeName (t.declarations :: scope) a.name.qualifier a.name.localPart = .ok a.name
  holds : N scope t

/-- A node that can be written, and whose tag satisfies a condition. -/
def Node.Holds (N : Scope → Tag → Prop) (scope : Scope) : Node → Prop
  | .element tag _ => tag.Holds N scope
  | .text _ => True
  | .comment s => IsComment s
  | .instruction target data => IsInstruction target data

theorem Tag.Holds.fits {scope : Scope} {t : Tag} (h : t.Holds IsResolved scope) :
    t.Fits scope := ⟨h.holds, h.attributes⟩

theorem Node.holds_isResolved_iff {scope : Scope} {n : Node} :
    n.Holds IsResolved scope ↔ n.IsReadable scope := by
  cases n with
  | element tag children =>
      exact ⟨fun h => ⟨h.printable, h.fits⟩, fun h => ⟨h.1, h.2.attributes, h.2.name⟩⟩
  | text s => exact ⟨fun _ => ⟨trivial, trivial⟩, fun _ => trivial⟩
  | comment s => exact ⟨fun h => ⟨h, trivial⟩, fun h => h.1⟩
  | instruction target data => exact ⟨fun h => ⟨h, trivial⟩, fun h => h.1⟩

/-- A condition holds of an element in a scope and of all elements inside. -/
def Element.AllHold (N : Scope → Tag → Prop) (scope : Scope) (e : Element) : Prop :=
  Node.All (Node.Holds N) scope e

section Changes

variable {N : Scope → Tag → Prop} {scope : Scope}

theorem Element.allHold_iff {e : Element} :
    e.AllHold N scope ↔
      e.tag.Holds N scope ∧ AllNodes (Node.Holds N) (e.tag.declarations :: scope) e.children :=
  Node.all_element

theorem Element.AllHold.child {e c : Element} (h : e.AllHold N scope)
    (hc : (c : Node) ∈ e.children) : c.AllHold N (e.tag.declarations :: scope) :=
  Node.All.child h hc

/-! ## Attributes -/

/-- Setting an attribute changes its value, or adds it last. -/
theorem Element.setIn_cases (localPart value : String) (as : List Attribute) :
    (∃ before a after, as = before ++ a :: after ∧ isPlain localPart a = true ∧
      setIn localPart value as = before ++ { a with value } :: after) ∨
    ((∀ a ∈ as, isPlain localPart a = false) ∧
      setIn localPart value as = as ++ [⟨⟨none, localPart, none⟩, value⟩]) := by
  induction as with
  | nil => exact Or.inr ⟨fun a ha => (by cases ha), rfl⟩
  | cons a as ih =>
      rw [setIn]
      by_cases h : isPlain localPart a = true
      · rw [if_pos h]
        exact Or.inl ⟨[], a, as, rfl, h, rfl⟩
      · rw [if_neg h]
        rcases ih with ⟨before, a', after, hs, hp, he⟩ | ⟨hno, he⟩
        · exact Or.inl ⟨a :: before, a', after, by rw [hs]; rfl, hp, by rw [he]; rfl⟩
        · refine Or.inr ⟨fun b hb => ?_, by rw [he]; rfl⟩
          rcases List.mem_cons.mp hb with rfl | hb
          · simpa using h
          · exact hno b hb

/-- A name that is no declaration is no key of one. -/
theorem Declaration.key_ne_qualified {d : Declaration}
    (h : ∀ q, d.qualifier = some q → IsNamePart q) {n : Name} (hn : n.IsPlain)
    (hdeclares : n.declares = false) : d.key ≠ n.qualified := by
  intro he
  have hsome := declaration?_key h
  have hnone : declaration? n.qualified d.uri = none := by
    rw [declaration?_eq_none_iff _ _ n.space, splitName_qualified hn]
    exact hdeclares
  rw [he, hnone] at hsome
  cases hsome

/-- The key of an attribute that is not plain differs from every local part. -/
theorem qualified_ne_of_not_isPlain {a : Attribute} {localPart : String} (ha : a.name.IsPlain)
    (hl : IsNamePart localPart)
    (hfits : Scope.attributeName scope a.name.qualifier a.name.localPart = .ok a.name)
    (hp : Element.isPlain localPart a = false) : a.name.qualified ≠ localPart := by
  intro he
  have hplain : (Name.mk none localPart none).IsPlain := ⟨hl, fun q hq => by cases hq⟩
  have hsplit := splitName_qualified ha
  rw [he, show localPart = (Name.mk none localPart none).qualified from rfl,
    splitName_qualified hplain] at hsplit
  have hq : a.name.qualifier = none := (Prod.mk.inj hsplit).1.symm
  have hlocal : a.name.localPart = localPart := (Prod.mk.inj hsplit).2.symm
  have hname := attributeName_eq_ok_iff.mp hfits
  rw [hq] at hname
  have hspace : a.name.space = none := hname
  simp [Element.isPlain, hspace, hlocal] at hp

/-- The names of attributes stay when one is set, or the name that was set
comes along. -/
theorem Element.name_of_mem_setIn {localPart value : String} {as : List Attribute} {b : Attribute}
    (hb : b ∈ setIn localPart value as) :
    (∃ a ∈ as, b.name = a.name) ∨ b.name = ⟨none, localPart, none⟩ := by
  rcases setIn_cases localPart value as with ⟨before, a, after, hs, -, he⟩ | ⟨-, he⟩
  · rw [he] at hb
    rw [hs]
    rcases List.mem_append.mp hb with hb | hb
    · exact Or.inl ⟨b, List.mem_append_left _ hb, rfl⟩
    · rcases List.mem_cons.mp hb with rfl | hb
      · exact Or.inl ⟨a, by simp, rfl⟩
      · exact Or.inl ⟨b, List.mem_append_right _ (List.mem_cons_of_mem _ hb), rfl⟩
  · rw [he] at hb
    rcases List.mem_append.mp hb with hb | hb
    · exact Or.inl ⟨b, hb, rfl⟩
    · rw [List.mem_singleton.mp hb]
      exact Or.inr rfl

theorem attributes_setIn {t : Tag} (h : ∀ a ∈ t.attributes,
      Scope.attributeName (t.declarations :: scope) a.name.qualifier a.name.localPart = .ok a.name)
    (localPart value : String) : ∀ a ∈ Element.setIn localPart value t.attributes,
      Scope.attributeName (t.declarations :: scope) a.name.qualifier a.name.localPart
        = .ok a.name := by
  intro a ha
  rcases Element.name_of_mem_setIn ha with ⟨b, hb, hn⟩ | hn
  · rw [hn]
    exact h b hb
  · rw [hn]
    rfl

theorem stable_isResolved : Stable IsResolved := fun _ _ _ _ h => h

theorem stable_isLoose : Stable IsLoose := by
  rintro scope t localPart value ⟨hbound, s, hfits⟩
  exact ⟨hbound, s, hfits.name, attributes_setIn hfits.attributes localPart value⟩

/-- No name stands twice after an attribute is set. -/
theorem Element.nodup_setIn {t : Tag} (h : t.IsPrintable)
    (hattributes : ∀ a ∈ t.attributes,
      Scope.attributeName (t.declarations :: scope) a.name.qualifier a.name.localPart = .ok a.name)
    {localPart : String} (hl : IsNamePart localPart ∧ localPart ≠ "xmlns") (value : String) :
    ((Tag.written { t with attributes := setIn localPart value t.attributes }).map
      Prod.fst).Nodup := by
  have hplain : (Name.mk none localPart none).IsPlain := ⟨hl.1, fun q hq => by cases hq⟩
  have hdeclares : (Name.mk none localPart none).declares = false := by
    simp [Name.declares, hl.2]
  have hnodup := h.nodup
  rw [Tag.written, List.map_append, List.map_map, List.map_map] at hnodup ⊢
  rcases setIn_cases localPart value t.attributes with ⟨before, a, after, hs, -, he⟩ | ⟨hno, he⟩
  · rw [hs] at hnodup
    dsimp only
    rw [he]
    simpa using hnodup
  · obtain ⟨-, -, hdisjoint⟩ := List.nodup_append.mp hnodup
    dsimp only
    rw [he, List.map_append, ← List.append_assoc, List.map_singleton, List.nodup_append]
    refine ⟨hnodup, List.nodup_singleton _, fun key hk key' hk' hkey => ?_⟩
    rw [List.mem_singleton] at hk'
    rw [hkey, hk'] at hk
    rcases List.mem_append.mp hk with hk | hk
    · obtain ⟨d, hd, hkd⟩ := List.mem_map.mp hk
      exact Declaration.key_ne_qualified (h.declared d hd) hplain hdeclares hkd
    · obtain ⟨b, hb, hkb⟩ := List.mem_map.mp hk
      exact qualified_ne_of_not_isPlain (h.attributes b hb).1 hl.1 (hattributes b hb) (hno b hb) hkb

theorem Element.holds_setAttribute {e : Element} (hN : Stable N) (h : e.tag.Holds N scope)
    {localPart : String} (hl : IsNamePart localPart ∧ localPart ≠ "xmlns") (value : String) :
    (e.setAttribute localPart value).tag.Holds N scope := by
  refine ⟨⟨h.printable.name, h.printable.declared, fun b hb => ?_,
    Element.nodup_setIn h.printable h.attributes hl value⟩,
    attributes_setIn h.attributes localPart value, hN _ _ _ _ h.holds⟩
  rcases Element.name_of_mem_setIn hb with ⟨a, ha, hn⟩ | hn
  · rw [hn]
    exact h.printable.attributes a ha
  · rw [hn]
    exact ⟨⟨hl.1, fun q hq => by cases hq⟩, by simp [Name.declares, hl.2]⟩

theorem Element.AllHold.setAttribute {e : Element} (h : e.AllHold N scope) (hN : Stable N)
    {localPart : String} (hl : IsNamePart localPart ∧ localPart ≠ "xmlns") (value : String) :
    (e.setAttribute localPart value).AllHold N scope := by
  rw [Element.allHold_iff] at h ⊢
  exact ⟨Element.holds_setAttribute hN h.1 hl value, h.2⟩

/-! ## Children -/

theorem Element.AllHold.push {e c : Element} (h : e.AllHold N scope)
    (hc : c.AllHold N (e.tag.declarations :: scope)) : (e.push c).AllHold N scope := by
  rw [Element.allHold_iff] at h ⊢
  exact ⟨h.1, h.2.append (by rw [AllNodes, AllNodes]; exact ⟨hc, trivial⟩)⟩

theorem Element.AllHold.addText {e : Element} (h : e.AllHold N scope) (s : String) :
    (e.addText s).AllHold N scope := by
  rw [Element.allHold_iff] at h ⊢
  exact ⟨h.1, h.2.append (by rw [AllNodes, AllNodes]; exact ⟨trivial, trivial⟩)⟩

theorem Element.AllHold.clear {e : Element} (h : e.AllHold N scope) : e.clear.AllHold N scope := by
  rw [Element.allHold_iff] at h ⊢
  exact ⟨h.1, by rw [Element.clear, AllNodes]; trivial⟩

theorem Element.AllHold.removeChildren {e : Element} (h : e.AllHold N scope)
    (space localPart : String) : (e.removeChildren space localPart).AllHold N scope := by
  rw [Element.allHold_iff] at h ⊢
  exact ⟨h.1, h.2.subset fun n hn => (List.mem_filter.mp hn).1⟩

theorem Element.mem_insertIn {n m : Node} {i : Nat} {ns : List Node} (h : m ∈ insertIn n i ns) :
    m = n ∨ m ∈ ns := by
  induction ns generalizing i with
  | nil =>
      rw [insertIn, List.mem_singleton] at h
      exact Or.inl h
  | cons k ns ih =>
      cases he : k.element? with
      | none =>
          simp only [insertIn, he] at h
          rcases List.mem_cons.mp h with h | h
          · exact Or.inr (h ▸ List.mem_cons_self ..)
          · rcases ih h with h | h
            · exact Or.inl h
            · exact Or.inr (List.mem_cons_of_mem _ h)
      | some c =>
          cases i with
          | zero =>
              simp only [insertIn, he] at h
              exact List.mem_cons.mp h
          | succ i =>
              simp only [insertIn, he] at h
              rcases List.mem_cons.mp h with h | h
              · exact Or.inr (h ▸ List.mem_cons_self ..)
              · rcases ih h with h | h
                · exact Or.inl h
                · exact Or.inr (List.mem_cons_of_mem _ h)

theorem Element.AllHold.insertElement {e c : Element} (h : e.AllHold N scope)
    (hc : c.AllHold N (e.tag.declarations :: scope)) (i : Nat) :
    (e.insertElement i c).AllHold N scope := by
  rw [Element.allHold_iff] at h ⊢
  refine ⟨h.1, allNodes_iff.mpr fun n hn => ?_⟩
  rcases Element.mem_insertIn hn with rfl | hn
  · exact hc
  · exact allNodes_iff.mp h.2 n hn

/-- A change of one child keeps what holds, if it does for the child. -/
theorem Element.AllHold.replace {e : Element} (h : e.AllHold N scope) {test : Element → Bool}
    (p : FirstElement test e.children) {c : Element}
    (hc : c.AllHold N (e.tag.declarations :: scope)) :
    Element.AllHold N scope { e with children := p.before ++ ↑c :: p.after } := by
  rw [Element.allHold_iff] at h ⊢
  refine ⟨h.1, allNodes_iff.mpr fun n hn => ?_⟩
  have hold := allNodes_iff.mp h.2
  rcases List.mem_append.mp hn with hn | hn
  · exact hold n (by rw [p.split]; exact List.mem_append_left _ hn)
  · rcases List.mem_cons.mp hn with rfl | hn
    · exact hc
    · exact hold n (by rw [p.split]; exact List.mem_append_right _ (List.mem_cons_of_mem _ hn))

theorem FirstElement.mem {test : Element → Bool} {ns : List Node} (p : FirstElement test ns) :
    (p.element : Node) ∈ ns := by
  obtain ⟨before, element, after, split, holds, absent⟩ := p
  subst split
  simp

theorem Element.AllHold.changeOrInsert {e : Element} (h : e.AllHold N scope)
    {space localPart : String} {fresh : Element} {f : Element → Element}
    (hfresh : e.findChild? space localPart = none →
      fresh.AllHold N (e.tag.declarations :: scope))
    (hf : ((e.findChild? space localPart).getD fresh).AllHold N (e.tag.declarations :: scope) →
      (f ((e.findChild? space localPart).getD fresh)).AllHold N (e.tag.declarations :: scope)) :
    (e.changeOrInsert space localPart fresh f).AllHold N scope := by
  rcases e.changeOrInsert_cases space localPart fresh f with ⟨p, hp⟩ | ⟨hnone, hp⟩
  · have hfound : e.findChild? space localPart = some p.element := p.find?
    rw [hfound] at hf
    rw [hp]
    exact h.replace p (hf (h.child p.mem))
  · have hfound : e.findChild? space localPart = none := find?_of_noElement hnone
    rw [hfound] at hf
    rw [hp]
    exact h.insertElement (hf (hfresh hfound)) 0

/-! ## New elements -/

theorem tag_within (space : String) (qualifier : Option String) (localPart : String) :
    (Element.within space qualifier localPart).tag
      = ⟨⟨qualifier, localPart, some space⟩,
          if qualifier.isNone then [⟨none, space⟩] else [], []⟩ := by
  unfold Element.within
  dsimp only
  cases qualifier <;> rfl

theorem children_within (space : String) (qualifier : Option String) (localPart : String) :
    (Element.within space qualifier localPart).children = [] := by
  unfold Element.within
  dsimp only
  split <;> rfl

theorem findChildren_within (space : String) (qualifier : Option String)
    (localPart space' other : String) :
    (Element.within space qualifier localPart).findChildren space' other = [] := by
  rw [Element.findChildren, Element.childElements, children_within]
  rfl

/-- A new element has the text that is added to it. -/
theorem text_addText_within (space : String) (qualifier : Option String) (localPart s : String) :
    ((Element.within space qualifier localPart).addText s).text = s := by
  rw [Element.addText, Element.push, Element.text, children_within]
  simp [Element.textOf]

/-- What new elements declare has no bearing on qualifiers. -/
theorem spaceOf_within (space : String) (qualifier : Option String) (localPart q : String)
    (scope : Scope) :
    Scope.spaceOf ((Element.within space qualifier localPart).tag.declarations :: scope) q
      = scope.spaceOf q := by
  have hlookup : Scope.lookup?
      ((Element.within space qualifier localPart).tag.declarations :: scope) (some q)
        = scope.lookup? (some q) := by
    rw [lookup?_cons, tag_within]
    cases qualifier <;> rfl
  unfold Scope.spaceOf
  rw [hlookup]

/-- New elements of a namespace under a qualifier satisfy a condition in every
scope of a kind, and new elements do not change the kind of the scope. -/
structure Insertable (N : Scope → Tag → Prop) (B : Scope → Prop) (qualifier : Option String)
    (space : String) : Prop where
  named : ∀ q, qualifier = some q → IsNamePart q
  inside : ∀ scope space' qualifier' localPart',
    B ((Element.within space' qualifier' localPart').tag.declarations :: scope) ↔ B scope
  holds : ∀ scope localPart, B scope → N scope (Element.within space qualifier localPart).tag

theorem Insertable.allHold {B : Scope → Prop} {qualifier : Option String} {space : String}
    (h : Insertable N B qualifier space) {localPart : String} (hl : IsNamePart localPart)
    (hB : B scope) : (Element.within space qualifier localPart).AllHold N scope := by
  have hholds := h.holds scope localPart hB
  rw [Element.allHold_iff, children_within, AllNodes]
  refine ⟨?_, trivial⟩
  rw [tag_within] at hholds ⊢
  refine ⟨⟨⟨hl, h.named⟩, fun d hd q hq => ?_, fun a ha => (by cases ha), ?_⟩,
    fun a ha => (by cases ha), hholds⟩
  · dsimp only at hd
    split at hd
    · rw [List.mem_singleton.mp hd] at hq
      cases hq
    · cases hd
  · rw [Tag.written]
    dsimp only
    split
    · exact List.nodup_singleton _
    · exact List.nodup_nil

end Changes

end Presign.Xml
