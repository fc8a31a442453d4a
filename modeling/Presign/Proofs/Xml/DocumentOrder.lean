import Mathlib.Data.List.Lex
import Presign.Proofs.Xml.Descendant

/-!
# Places in document order

A place in a tree is a path: the indexes of the children on the way to it, where
only elements count.  Paths are in lexicographic order, so an element comes
before those inside it, and these before its later siblings.  The shorter
beginnings of a path are the places of the ancestors.

A search for a descendant finds the first place with its name, and returns what
the ancestors of this place declare (`findDescendant?_exact`).  The proof is by
induction on the tree.  A search of an element comes to what a search inside it
comes to, unless the element itself is found (`Outcome.here`).  A search inside
an element stops at the first child where it is not in vain (`Outcome.inside`).
-/

namespace Presign.Xml

/-! ## Elements by their children -/

theorem Element.sizeOf_lt {e c : Element} (h : c ∈ e.childElements) : sizeOf c < sizeOf e := by
  have hlt := List.sizeOf_lt_of_mem (Element.mem_of_mem_childElements h)
  obtain ⟨tag, children⟩ := e
  obtain ⟨tag', children'⟩ := c
  simp only [Element.mk.sizeOf_spec, Node.element.sizeOf_spec] at hlt ⊢
  omega

/-- Induction on a tree, from the children of an element to the element. -/
@[elab_as_elim]
theorem Element.induction_children {P : Element → Prop}
    (step : ∀ e, (∀ c ∈ e.childElements, P c) → P e) (e : Element) : P e :=
  step e fun c hc =>
    have := Element.sizeOf_lt hc
    Element.induction_children step c
termination_by sizeOf e

/-- The elements inside an element are those of its children, one after the
other. -/
theorem Element.elementsIn_children (e : Element) (inherited : List Declaration) :
    elementsIn inherited e.children
      = e.childElements.flatMap fun c : Element => Node.elements inherited c := by
  rw [childElements]
  induction e.children with
  | nil => rfl
  | cons n ns ih =>
      rw [elementsIn, ih]
      cases n with
      | element tag children => rfl
      | text s => rfl
      | comment s => rfl
      | instruction target data => rfl

/-! ## Places -/

namespace Element

/-- The proper descendant of an element that a path leads to. -/
def descendantAt? (e : Element) : (path : List Nat) → Option Element
  | [] => none
  | i :: path => (e.childElements[i]?).bind fun c => c.at? path

/-- The proper ancestors of the place that a path leads to, outermost first. -/
def ancestors (e : Element) (path : List Nat) : List Element :=
  (List.range path.length).filterMap fun k => e.at? (path.take k)

/-- What the proper ancestors of a place declare, the outermost first. -/
def declarationsAbove (e : Element) (path : List Nat) : List Declaration :=
  (e.ancestors path).flatMap fun a => a.tag.declarations

section Child

variable {e c : Element} {i : Nat}

theorem at?_cons (h : e.childElements[i]? = some c) (path : List Nat) :
    e.at? (i :: path) = c.at? path := by
  rw [at?, h, Option.bind_some]

theorem descendantAt?_cons (h : e.childElements[i]? = some c) (path : List Nat) :
    e.descendantAt? (i :: path) = c.at? path := by
  rw [descendantAt?, h, Option.bind_some]

/-- The outermost ancestor is the element itself, and the others are those of the
place in the child. -/
theorem ancestors_cons (h : e.childElements[i]? = some c) (path : List Nat) :
    e.ancestors (i :: path) = e :: c.ancestors path := by
  have hinner : ∀ k, e.at? ((i :: path).take (k + 1)) = c.at? (path.take k) :=
    fun k => at?_cons h (path.take k)
  rw [ancestors, List.length_cons, List.range_succ_eq_map,
    List.filterMap_cons_some (f := fun k => e.at? ((i :: path).take k)) (b := e) rfl,
    List.filterMap_map]
  exact congrArg (e :: ·) (List.filterMap_congr fun k _ => hinner k)

theorem declarationsAbove_cons (h : e.childElements[i]? = some c) (path : List Nat) :
    e.declarationsAbove (i :: path) = e.tag.declarations ++ c.declarationsAbove path := by
  rw [declarationsAbove, ancestors_cons h, List.flatMap_cons, declarationsAbove]

end Child

end Element

/-! ## The first place -/

/-- The first place in document order that has an element which satisfies a
test. -/
structure IsFirst (places : List Nat → Option Element) (test : Element → Bool) (path : List Nat)
    (d : Element) : Prop where
  place : places path = some d
  holds : test d = true
  earlier : ∀ path' < path, ∀ d', places path' = some d' → test d' = false

/-- No place has an element that satisfies a test. -/
def IsAbsent (places : List Nat → Option Element) (test : Element → Bool) : Prop :=
  ∀ path d, places path = some d → test d = false

section

variable {places : List Nat → Option Element} {test : Element → Bool} {path : List Nat}
  {d e c : Element}

theorem IsAbsent.not_isFirst (h : IsAbsent places test) : ¬ IsFirst places test path d :=
  fun hfirst => Bool.false_ne_true ((h path d hfirst.place).symm.trans hfirst.holds)

/-- Of two places only one is the first. -/
theorem IsFirst.unique {path' : List Nat} {d' : Element} (h : IsFirst places test path d)
    (h' : IsFirst places test path' d') : path = path' := by
  rcases lt_trichotomy path path' with hlt | heq | hgt
  · exact absurd ((h'.earlier path hlt d h.place).symm.trans h.holds) Bool.false_ne_true
  · exact heq
  · exact absurd ((h.earlier path' hgt d' h'.place).symm.trans h'.holds) Bool.false_ne_true

/-! ### From the inside of an element to the element -/

theorem IsFirst.self (h : test e = true) : IsFirst e.at? test [] e :=
  ⟨rfl, h, fun path' hlt => absurd hlt (List.not_lt_nil path')⟩

theorem IsFirst.at? (h : IsFirst e.descendantAt? test path d) (he : test e = false) :
    IsFirst e.at? test path d := by
  cases path with
  | nil => cases h.place
  | cons i path =>
      refine ⟨h.place, h.holds, fun path' hlt d' hd' => ?_⟩
      cases path' with
      | nil =>
          cases hd'
          exact he
      | cons j path' => exact h.earlier (j :: path') hlt d' hd'

theorem IsAbsent.at? (h : IsAbsent e.descendantAt? test) (he : test e = false) :
    IsAbsent e.at? test := by
  intro path d hd
  cases path with
  | nil =>
      cases hd
      exact he
  | cons i path => exact h (i :: path) d hd

/-! ### From the children of an element to its inside -/

/-- The first place in a child is the first inside the element if there is none
in the children before. -/
theorem IsFirst.descendantAt? {before after : List Element} (h : IsFirst c.at? test path d)
    (hsplit : e.childElements = before ++ c :: after)
    (hbefore : ∀ c' ∈ before, IsAbsent c'.at? test) :
    IsFirst e.descendantAt? test (before.length :: path) d := by
  have hc : e.childElements[before.length]? = some c := by simp [hsplit]
  refine ⟨(Element.descendantAt?_cons hc path).trans h.place, h.holds, fun path' hlt d' hd' => ?_⟩
  cases path' with
  | nil => cases hd'
  | cons j path' =>
      rcases List.cons_lt_cons_iff.mp hlt with hj | ⟨rfl, hlt'⟩
      · -- in an earlier child
        obtain ⟨c', hc', hd'⟩ := Option.bind_eq_some_iff.mp hd'
        rw [hsplit, List.getElem?_append_left hj] at hc'
        exact hbefore c' (List.mem_of_getElem? hc') path' d' hd'
      · -- earlier in the same child
        rw [Element.descendantAt?_cons hc] at hd'
        exact h.earlier path' hlt' d' hd'

theorem IsAbsent.descendantAt? (h : ∀ c ∈ e.childElements, IsAbsent c.at? test) :
    IsAbsent e.descendantAt? test := by
  intro path d hd
  cases path with
  | nil => cases hd
  | cons i path =>
      obtain ⟨c, hc, hd⟩ := Option.bind_eq_some_iff.mp hd
      exact h c (List.mem_of_getElem? hc) path d hd

end

/-! ## Searches -/

/-- What a search among places comes to, where `above` tells what is declared
above each place. -/
inductive Outcome (places : List Nat → Option Element) (above : List Nat → List Declaration)
    (test : Element → Bool) : Option (Element × List Declaration) → Prop where
  | found {path : List Nat} {d : Element} (h : IsFirst places test path d) :
      Outcome places above test (some (d, above path))
  | vain (h : IsAbsent places test) : Outcome places above test none

namespace Outcome

variable {places : List Nat → Option Element} {above : List Nat → List Declaration}
  {test : Element → Bool} {r : Option (Element × List Declaration)} {e : Element}
  {inherited : List Declaration}

theorem eq_some_iff (h : Outcome places above test r) (d : Element)
    (inherited : List Declaration) :
    r = some (d, inherited) ↔ ∃ path, IsFirst places test path d ∧ inherited = above path := by
  cases h with
  | found hfirst =>
      constructor
      · intro heq
        cases heq
        exact ⟨_, hfirst, rfl⟩
      · rintro ⟨path, hpath, rfl⟩
        obtain rfl := hfirst.unique hpath
        rw [Option.some.inj (hfirst.place.symm.trans hpath.place)]
  | vain habsent =>
      constructor
      · intro heq
        cases heq
      · rintro ⟨path, hpath, -⟩
        exact absurd hpath habsent.not_isFirst

theorem eq_none_iff (h : Outcome places above test r) : r = none ↔ IsAbsent places test := by
  cases h with
  | found hfirst =>
      constructor
      · intro heq
        cases heq
      · intro habsent
        exact absurd hfirst habsent.not_isFirst
  | vain habsent => exact iff_of_true rfl habsent

theorem at? (h : Outcome e.descendantAt? above test r) (he : test e = false) :
    Outcome e.at? above test r := by
  cases h with
  | found hfirst => exact found (hfirst.at? he)
  | vain habsent => exact vain (habsent.at? he)

/-- A search of an element finds the element itself or what a search inside it
finds. -/
theorem here
    (h : Outcome e.descendantAt? (fun path => inherited ++ e.declarationsAbove path) test
      ((elementsIn (inherited ++ e.tag.declarations) e.children).find? fun p => test p.1)) :
    Outcome e.at? (fun path => inherited ++ e.declarationsAbove path) test
      ((Node.elements inherited e).find? fun p => test p.1) := by
  rw [Node.elements]
  by_cases he : test e = true
  · rw [List.find?_cons_of_pos (by exact he)]
    have hself : Outcome e.at? (fun path => inherited ++ e.declarationsAbove path) test
        (some (e, inherited ++ [])) := found (.self he)
    rwa [List.append_nil] at hself
  · rw [List.find?_cons_of_neg (by exact he)]
    exact h.at? (Bool.eq_false_iff.mpr he)

/-- A search inside an element stops at the first child where it finds
something. -/
theorem inside
    (h : ∀ c ∈ e.childElements, Outcome c.at?
      (fun path => inherited ++ e.tag.declarations ++ c.declarationsAbove path) test
      ((Node.elements (inherited ++ e.tag.declarations) c).find? fun p => test p.1)) :
    Outcome e.descendantAt? (fun path => inherited ++ e.declarationsAbove path) test
      ((elementsIn (inherited ++ e.tag.declarations) e.children).find? fun p => test p.1) := by
  rw [Element.elementsIn_children, List.find?_flatMap]
  cases hr : e.childElements.findSome? fun c : Element =>
      (Node.elements (inherited ++ e.tag.declarations) c).find? fun p => test p.1 with
  | none =>
      rw [List.findSome?_eq_none_iff] at hr
      exact vain (.descendantAt? fun c hc => (h c hc).eq_none_iff.mp (hr c hc))
  | some r =>
      obtain ⟨before, c, after, hsplit, hfound, hbefore⟩ := List.findSome?_eq_some_iff.mp hr
      rw [hsplit] at h
      have habsent : ∀ c' ∈ before, IsAbsent c'.at? test := fun c' hc' =>
        (h c' (List.mem_append_left _ hc')).eq_none_iff.mp (hbefore c' hc')
      have hc := h c List.mem_append_cons_self
      rw [hfound] at hc
      cases hc with
      | @found path d hfirst =>
          have hplace : e.childElements[before.length]? = some c := by simp [hsplit]
          rw [List.append_assoc, ← Element.declarationsAbove_cons hplace]
          exact found (hfirst.descendantAt? hsplit habsent)

end Outcome

/-- A search inside an element comes to the first place there. -/
theorem Element.outcome_elementsIn (e : Element) (test : Element → Bool)
    (inherited : List Declaration) :
    Outcome e.descendantAt? (fun path => inherited ++ e.declarationsAbove path) test
      ((elementsIn (inherited ++ e.tag.declarations) e.children).find? fun p => test p.1) := by
  induction e using Element.induction_children generalizing inherited with
  | step e ih => exact .inside fun c hc => .here (ih c hc (inherited ++ e.tag.declarations))

/-- A search for a descendant finds the first place in document order that has the
name.  It returns what the proper ancestors of this place declare, from the
outermost to the innermost, and nothing else.  It finds nothing if and only if no
proper descendant has the name. -/
theorem Element.findDescendant?_exact (e : Element) (space localPart : String) :
    (∀ d inherited, e.findDescendant? space localPart = some (d, inherited) ↔
      ∃ path, IsFirst e.descendantAt? (fun c => c.is space localPart) path d ∧
        inherited = e.declarationsAbove path) ∧
    (e.findDescendant? space localPart = none ↔
      IsAbsent e.descendantAt? fun c => c.is space localPart) := by
  have houtcome := e.outcome_elementsIn (fun c => c.is space localPart) []
  simp only [List.nil_append] at houtcome
  rw [Element.findDescendant?_eq, Element.descendants]
  exact ⟨houtcome.eq_some_iff, houtcome.eq_none_iff⟩

/-- For example, a child that is searched in vain leaves no declarations behind,
and what is found does not inherit its own. -/
example :
    let passed := ((Element.bare none "a" none).declare (some "p") "urn:p").push
      ((Element.bare none "b" none).declare (some "q") "urn:q")
    let sought := (Element.bare none "d" (some "urn:d")).declare none "urn:d"
    let entered := ((Element.bare none "c" none).declare (some "q") "urn:s").push sought
    let root := (((Element.bare none "r" none).declare none "urn:r").push passed).push entered
    root.findDescendant? "urn:d" "d" = some (sought, [⟨none, "urn:r"⟩, ⟨some "q", "urn:s"⟩]) := by
  decide

end Presign.Xml
