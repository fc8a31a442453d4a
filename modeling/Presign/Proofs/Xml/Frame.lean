import Presign.Proofs.Xml.Edit

/-!
# What changes leave alone

A change is told by a relation between what was there and what is there after it.  Each relation
names the one place where something differs, and says of all the rest that it is the same and in
the same order.

* `SetsAttribute`: an attribute has a new value in its place, or is new and comes last.
* `AddsAttribute`: an attribute that was missing comes last.
* `ChangesFirst`: the first element that satisfies a test is another one.
* `PutsFirst`: there are new nodes before the first element, behind what is no element there.
* `ChangesOrCreates`: either of the last two, as an element that satisfies a test is there or not.

`Element.DiffersIn` puts such relations together for an element.  Its name and its declarations are
the same.
-/

namespace Presign.Xml

/-! ## Attributes -/

variable {localPart value : String}

/-- Attributes of which the first one with a local part and without a namespace has a value.  If
there was none, it comes last. -/
inductive SetsAttribute (localPart value : String) : List Attribute → List Attribute → Prop
  | changed {before after : List Attribute} {a : Attribute}
      (hfirst : ∀ b ∈ before, Element.isPlain localPart b = false)
      (ha : Element.isPlain localPart a = true) :
      SetsAttribute localPart value (before ++ a :: after) (before ++ { a with value } :: after)
  | added {as : List Attribute} (hnone : ∀ a ∈ as, Element.isPlain localPart a = false) :
      SetsAttribute localPart value as (as ++ [⟨⟨none, localPart, none⟩, value⟩])

/-- Attributes among which there is one with a local part and without a namespace.  If there was
none, it comes last, with a value. -/
inductive AddsAttribute (localPart value : String) : List Attribute → List Attribute → Prop
  | kept {as : List Attribute} {a : Attribute} (hmem : a ∈ as)
      (ha : Element.isPlain localPart a = true) : AddsAttribute localPart value as as
  | added {as : List Attribute} (hnone : ∀ a ∈ as, Element.isPlain localPart a = false) :
      AddsAttribute localPart value as (as ++ [⟨⟨none, localPart, none⟩, value⟩])

theorem SetsAttribute.cons {a : Attribute} {as bs : List Attribute}
    (ha : Element.isPlain localPart a = false) (h : SetsAttribute localPart value as bs) :
    SetsAttribute localPart value (a :: as) (a :: bs) := by
  cases h with
  | @changed before _ b hfirst hb =>
      have hfirst : ∀ b ∈ a :: before, Element.isPlain localPart b = false :=
        List.forall_mem_cons.mpr ⟨ha, hfirst⟩
      exact .changed hfirst hb
  | added hnone => exact .added (List.forall_mem_cons.mpr ⟨ha, hnone⟩)

theorem setsAttribute_setIn (localPart value : String) (as : List Attribute) :
    SetsAttribute localPart value as (Element.setIn localPart value as) := by
  induction as with
  | nil => exact .added fun a ha => by cases ha
  | cons a as ih =>
      rw [Element.setIn]
      by_cases ha : Element.isPlain localPart a = true
      · rw [if_pos ha]
        have hfirst : ∀ b ∈ ([] : List Attribute), Element.isPlain localPart b = false :=
          fun b hb => by cases hb
        exact .changed hfirst ha
      · rw [if_neg ha]
        exact ih.cons (Bool.eq_false_iff.mpr ha)

theorem SetsAttribute.addsAttribute {as bs : List Attribute}
    (h : SetsAttribute localPart value as bs)
    (hnone : ∀ a ∈ as, Element.isPlain localPart a = false) :
    AddsAttribute localPart value as bs := by
  cases h with
  | added => exact .added hnone
  | @changed before after a _ ha =>
      rw [hnone a (List.mem_append_right _ (List.mem_cons_self ..))] at ha
      cases ha

/-- An attribute that is set only where it is missing. -/
theorem addsAttribute_setAttribute (e : Element) (localPart value : String) :
    AddsAttribute localPart value e.tag.attributes
      (if (e.attribute? localPart).isSome then e
        else e.setAttribute localPart value).tag.attributes := by
  rw [Element.attribute?, Option.isSome_map]
  split
  next hsome =>
    obtain ⟨a, ha⟩ := Option.isSome_iff_exists.mp hsome
    exact .kept (List.mem_of_find?_eq_some ha) (List.find?_some ha)
  next hnone =>
    have habsent := List.find?_eq_none.mp (Option.not_isSome_iff_eq_none.mp hnone)
    exact (setsAttribute_setIn localPart value e.tag.attributes).addsAttribute
      fun a ha => Bool.eq_false_iff.mpr (habsent a ha)

/-! ## Children -/

variable {test : Element → Bool} {fresh : Element} {R : Element → Element → Prop}

/-- Nodes of which the first element that satisfies a test is another one, in its place. -/
inductive ChangesFirst (test : Element → Bool) (R : Element → Element → Prop) :
    List Node → List Node → Prop
  | mk {before after : List Node} {c d : Element} (hfirst : NoElement test before)
      (hc : test c = true) (h : R c d) :
      ChangesFirst test R (before ++ ↑c :: after) (before ++ ↑d :: after)

/-- Nodes with new ones before their first element, or behind all of them if none is an element. -/
inductive PutsFirst (new : List Node) : List Node → List Node → Prop
  | mk {before after : List Node} (h : Element.Leading before after) :
      PutsFirst new (before ++ after) (before ++ (new ++ after))

/-- Nodes of which the first element that satisfies a test is another one.  If there was none, one
that comes from a fresh element stands before all other elements. -/
inductive ChangesOrCreates (test : Element → Bool) (fresh : Element)
    (R : Element → Element → Prop) : List Node → List Node → Prop
  | changed {ns ms : List Node} (h : ChangesFirst test R ns ms) :
      ChangesOrCreates test fresh R ns ms
  | created {ns ms : List Node} {d : Element} (hnone : NoElement test ns) (h : R fresh d)
      (hput : PutsFirst [↑d] ns ms) : ChangesOrCreates test fresh R ns ms

/-- An element with the name and the declarations of another one. -/
structure Element.DiffersIn (attributes : List Attribute → List Attribute → Prop)
    (children : List Node → List Node → Prop) (old new : Element) : Prop where
  name : new.tag.name = old.tag.name
  declarations : new.tag.declarations = old.tag.declarations
  attributes : attributes old.tag.attributes new.tag.attributes
  children : children old.children new.children

theorem FirstElement.changesFirst {ns : List Node} (p : FirstElement test ns) {d : Element}
    (h : R p.element d) : ChangesFirst test R ns (p.before ++ ↑d :: p.after) := by
  have hchange : ChangesFirst test R (p.before ++ ↑p.element :: p.after)
      (p.before ++ ↑d :: p.after) := .mk p.absent p.holds h
  rwa [← p.split] at hchange

theorem putsFirst_insertIn (c : Node) (ns : List Node) :
    PutsFirst [c] ns (Element.insertIn c 0 ns) := by
  obtain ⟨before, after, rfl, h⟩ := Element.exists_leading ns
  rw [h.insertIn_zero]
  exact .mk h

/-- What comes second comes behind what has been put in first. -/
theorem putsFirst_insertIn_insertIn (c : Element) (d : Node) (ns : List Node) :
    PutsFirst [↑c, d] ns (Element.insertIn d 1 (Element.insertIn c 0 ns)) := by
  obtain ⟨before, after, rfl, h⟩ := Element.exists_leading ns
  rw [h.insertIn_zero, h.insertIn_one]
  exact .mk h

/-- A change of a child, which is created if it is missing, after a change of attributes. -/
theorem Element.DiffersIn.changeOrInsert {attributes : List Attribute → List Attribute → Prop}
    {e e' : Element} (hset : DiffersIn attributes Eq e e') (space localPart : String)
    (fresh : Element) {f : Element → Element} (h : ∀ c, R c (f c)) :
    DiffersIn attributes (ChangesOrCreates (fun c => c.is space localPart) fresh R) e
      (e'.changeOrInsert space localPart fresh f) where
  name := by rw [tag_changeOrInsert, hset.name]
  declarations := by rw [tag_changeOrInsert, hset.declarations]
  attributes := by
    rw [tag_changeOrInsert]
    exact hset.attributes
  children := by
    rw [hset.children]
    rcases e'.changeOrInsert_cases space localPart fresh f with ⟨p, hp⟩ | ⟨hnone, hcreated⟩
    · rw [hp]
      exact .changed (p.changesFirst (h p.element))
    · rw [hcreated]
      exact .created hnone (h fresh) (putsFirst_insertIn ..)

end Presign.Xml
