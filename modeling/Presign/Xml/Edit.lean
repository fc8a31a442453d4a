import Presign.Xml.Tree

/-!
# Looking into trees and changing them

Children and descendants are found by namespace and local part.  Every change
gives a new tree, and what it does not name stays as it is.

Attributes are addressed by local part and have no namespace.  A descendant is
found together with the declarations of its ancestors, which it needs to be
canonicalized on its own.
-/

namespace Presign.Xml.Element

/-- An element without declarations, attributes and children. -/
def bare (qualifier : Option String) (localPart : String) (space : Option String) : Element :=
  ⟨⟨⟨qualifier, localPart, space⟩, [], []⟩, []⟩

/-! ## Declarations and attributes -/

/-- Declares a namespace, in place of an earlier declaration of the same
qualifier. -/
def declare (e : Element) (qualifier : Option String) (uri : String) : Element :=
  let others := e.tag.declarations.filter fun d => d.qualifier ≠ qualifier
  { e with tag := { e.tag with declarations := others ++ [⟨qualifier, uri⟩] } }

/-- Whether an attribute has no namespace and a given local part. -/
def isPlain (localPart : String) (a : Attribute) : Bool :=
  a.name.space.isNone && a.name.localPart == localPart

/-- The value of an attribute without namespace. -/
def attribute? (e : Element) (localPart : String) : Option String :=
  (e.tag.attributes.find? (isPlain localPart)).map Attribute.value

/-- The attributes with one of them set.  It keeps its place if it is there,
and else comes last. -/
def setIn (localPart value : String) : List Attribute → List Attribute
  | [] => [⟨⟨none, localPart, none⟩, value⟩]
  | a :: as => if isPlain localPart a then { a with value } :: as else a :: setIn localPart value as

/-- Sets an attribute without namespace. -/
def setAttribute (e : Element) (localPart value : String) : Element :=
  { e with tag := { e.tag with attributes := setIn localPart value e.tag.attributes } }

@[simp] theorem name_setAttribute (e : Element) (localPart value : String) :
    (e.setAttribute localPart value).name = e.name := rfl

/-! ## Children -/

/-- The children that are elements. -/
def childElements (e : Element) : List Element := e.children.filterMap Node.element?

/-- The children with a name. -/
def findChildren (e : Element) (space localPart : String) : List Element :=
  e.childElements.filter fun c => c.is space localPart

/-- The first child with a name. -/
def findChild? (e : Element) (space localPart : String) : Option Element :=
  e.childElements.find? fun c => c.is space localPart

/-- Whether a node is an element with a name. -/
def isNamed (space localPart : String) (n : Node) : Bool :=
  n.element?.any fun c => c.is space localPart

/-- Nodes of which the first element that satisfies a test is changed, if there
is one. -/
def changeFirst? (test : Element → Bool) (f : Element → Element) : List Node → Option (List Node)
  | [] => none
  | n :: ns =>
    match n.element? with
    | some c =>
      if test c then some (↑(f c) :: ns) else (changeFirst? test f ns).map (n :: ·)
    | none => (changeFirst? test f ns).map (n :: ·)

/-- Changes the first child element that satisfies a test, if there is one. -/
def changeWhere? (e : Element) (test : Element → Bool) (f : Element → Element) :
    Option Element :=
  (changeFirst? test f e.children).map fun children => { e with children }

/-- Changes the first child with a name, if there is one. -/
def changeChild? (e : Element) (space localPart : String) (f : Element → Element) :
    Option Element :=
  e.changeWhere? (fun c => c.is space localPart) f

/-- Changes the first child with a name.  If there is none, the element stays
as it is. -/
def changeChild (e : Element) (space localPart : String) (f : Element → Element) : Element :=
  (e.changeChild? space localPart f).getD e

/-- Removes the children with a name. -/
def removeChildren (e : Element) (space localPart : String) : Element :=
  { e with children := e.children.filter fun n => !isNamed space localPart n }

theorem find?_changeFirst? {test : Element → Bool} {f : Element → Element}
    (keeps : ∀ c, test c = true → test (f c) = true) {ns ms : List Node}
    (h : changeFirst? test f ns = some ms) :
    (ms.filterMap Node.element?).find? test = ((ns.filterMap Node.element?).find? test).map f := by
  induction ns generalizing ms with
  | nil => cases h
  | cons n ns ih =>
    simp only [changeFirst?] at h
    split at h
    · rename_i c isElement
      split at h
      · rename_i named
        cases h
        have : (f c : Node).element? = some (f c) := rfl
        rw [List.filterMap_cons_some this, List.filterMap_cons_some isElement,
          List.find?_cons_of_pos (keeps c named), List.find?_cons_of_pos named]
        rfl
      · rename_i notNamed
        obtain ⟨found, inner, e⟩ := Option.map_eq_some_iff.1 h
        rw [← e, List.filterMap_cons_some isElement, List.filterMap_cons_some isElement,
          List.find?_cons_of_neg notNamed, List.find?_cons_of_neg notNamed]
        exact ih inner
    · rename_i notElement
      obtain ⟨found, inner, e⟩ := Option.map_eq_some_iff.1 h
      rw [← e, List.filterMap_cons_none notElement, List.filterMap_cons_none notElement]
      exact ih inner

theorem find?_of_changeFirst?_eq_none {test : Element → Bool} {f : Element → Element}
    {ns : List Node} (h : changeFirst? test f ns = none) :
    (ns.filterMap Node.element?).find? test = none := by
  induction ns with
  | nil => rfl
  | cons n ns ih =>
    simp only [changeFirst?] at h
    split at h
    · rename_i c isElement
      split at h
      · cases h
      · rename_i notNamed
        rw [List.filterMap_cons_some isElement, List.find?_cons_of_neg notNamed]
        exact ih (Option.map_eq_none_iff.1 h)
    · rename_i notElement
      rw [List.filterMap_cons_none notElement]
      exact ih (Option.map_eq_none_iff.1 h)

/-- A change that keeps names shows in the child that it is made to. -/
theorem findChild?_changeChild (e : Element) {space localPart : String} {f : Element → Element}
    (keeps : ∀ c, (f c).name = c.name) :
    (e.changeChild space localPart f).findChild? space localPart
      = (e.findChild? space localPart).map f := by
  unfold changeChild changeChild? changeWhere? findChild? childElements
  cases h : changeFirst? (fun c => c.is space localPart) f e.children with
  | some children =>
    refine find?_changeFirst? (fun c named => ?_) h
    rw [Element.is, keeps]
    exact named
  | none =>
    rw [Option.map_none, Option.getD_none, find?_of_changeFirst?_eq_none h]
    rfl

@[simp] theorem name_changeChild (e : Element) (space localPart : String)
    (f : Element → Element) : (e.changeChild space localPart f).name = e.name := by
  unfold changeChild changeChild? changeWhere?
  cases changeFirst? (fun c => c.is space localPart) f e.children <;> rfl

/-- Adds a node after all children. -/
def push (e : Element) (n : Node) : Element := { e with children := e.children ++ [n] }

/-- Nodes with one more before the element of a given index, or after all
nodes. -/
def insertIn (n : Node) : (index : Nat) → List Node → List Node
  | _, [] => [n]
  | index, m :: ms =>
    match m.element?, index with
    | none, _ => m :: insertIn n index ms
    | some _, 0 => n :: m :: ms
    | some _, index + 1 => m :: insertIn n index ms

/-- Inserts an element before the child element of a given index, or after all
children. -/
def insertElement (e : Element) (index : Nat) (c : Element) : Element :=
  { e with children := insertIn c index e.children }

/-- Changes the first child with a name.  If there is none, `fresh` is changed
and inserted before all child elements. -/
def changeOrInsert (e : Element) (space localPart : String) (fresh : Element)
    (f : Element → Element) : Element :=
  match e.changeChild? space localPart f with
  | some e => e
  | none => e.insertElement 0 (f fresh)

@[simp] theorem name_changeOrInsert (e : Element) (space localPart : String) (fresh : Element)
    (f : Element → Element) : (e.changeOrInsert space localPart fresh f).name = e.name := by
  unfold changeOrInsert changeChild? changeWhere?
  cases changeFirst? (fun c => c.is space localPart) f e.children <;> rfl

/-- Removes all children. -/
def clear (e : Element) : Element := { e with children := [] }

/-- Adds character data after all children.  It is not joined to text before
it. -/
def addText (e : Element) (s : String) : Element := e.push (.text s)

/-- The text of a node that is text, and nothing else. -/
def textOf : Node → String
  | .text s => s
  | _ => ""

/-- The text of the children, without that of elements inside. -/
def text (e : Element) : String := String.join (e.children.map textOf)

/-! ## Elements of a namespace -/

/-- An empty element of a namespace.  It declares the namespace itself if it
has no qualifier. -/
def within (space : String) (qualifier : Option String) (localPart : String) : Element :=
  let e := bare qualifier localPart (some space)
  if qualifier.isNone then e.declare none space else e

/-! ## Elements at a path -/

/-- The element that a list of child indexes leads to, counting elements
only. -/
def at? (e : Element) : (path : List Nat) → Option Element
  | [] => some e
  | i :: path => (e.childElements[i]?).bind fun c => c.at? path

/-- Nodes of which the element with an index is changed, if there is one and
the change succeeds. -/
def changeNth? (f : Element → Option Element) : (index : Nat) → List Node → Option (List Node)
  | _, [] => none
  | index, n :: ns =>
    match n.element?, index with
    | none, _ => (changeNth? f index ns).map (n :: ·)
    | some c, 0 => (f c).map fun c => ↑c :: ns
    | some _, index + 1 => (changeNth? f index ns).map (n :: ·)

/-- Changes the element that a list of child indexes leads to. -/
def changeAt? (f : Element → Element) : (path : List Nat) → Element → Option Element
  | [], e => some (f e)
  | i :: path, e =>
    (changeNth? (changeAt? f path) i e.children).map fun children => { e with children }

/-! ## Descendants -/

mutual

/-- Searches a node for the first element with a name.  `inherited` holds the
declarations on the way to the node, and is returned as the search leaves it.
An element that is entered adds its declarations, which stay if something is
found inside and are cut off again if not. -/
def searchNode (space localPart : String) (inherited : List Declaration) :
    Node → Option Element × List Declaration
  | .element tag children =>
    if tag.name.is space localPart then (some ⟨tag, children⟩, inherited)
    else
      match searchNodes space localPart (inherited ++ tag.declarations) children with
      | (some found, entered) => (some found, entered)
      | (none, entered) => (none, entered.take inherited.length)
  | .text _ => (none, inherited)
  | .comment _ => (none, inherited)
  | .instruction _ _ => (none, inherited)

/-- Searches nodes, one after the other, for the first element with a name.
Each starts from the declarations that the one before it left. -/
def searchNodes (space localPart : String) (inherited : List Declaration) :
    List Node → Option Element × List Declaration
  | [] => (none, inherited)
  | n :: ns =>
    match searchNode space localPart inherited n with
    | (some found, left) => (some found, left)
    | (none, left) => searchNodes space localPart left ns

end

/-- The first element with a name in nodes, together with the declarations
inherited by the nodes and those on the way. -/
def findInNodes? (space localPart : String) (inherited : List Declaration) (ns : List Node) :
    Option (Element × List Declaration) :=
  match searchNodes space localPart inherited ns with
  | (some found, left) => some (found, left)
  | (none, _) => none

/-- The first descendant with a name in document order, together with the
declarations of its ancestors, outermost first. -/
def findDescendant? (e : Element) (space localPart : String) :
    Option (Element × List Declaration) :=
  findInNodes? space localPart e.tag.declarations e.children

end Presign.Xml.Element
