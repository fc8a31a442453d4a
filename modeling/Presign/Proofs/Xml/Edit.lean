import Mathlib.Data.List.Basic
import Presign.Xml.Edit

/-!
# What changes do

Where a search among nodes finds its first element, what stands there after a
change, and what children and attributes an element has then.

`FirstElement test ns` is a place in `ns`: the first element that satisfies the
test, with the nodes around it.
-/

namespace Presign.Xml

/-! ## The first element that satisfies a test -/

/-- The first element among nodes that satisfies a test, in its place. -/
structure FirstElement (test : Element → Bool) (ns : List Node) where
  before : List Node
  element : Element
  after : List Node
  split : ns = before ++ ↑element :: after
  holds : test element = true
  absent : ∀ n ∈ before, ∀ c, n.element? = some c → test c = false

/-- No element among nodes satisfies a test. -/
def NoElement (test : Element → Bool) (ns : List Node) : Prop :=
  ∀ n ∈ ns, ∀ c, n.element? = some c → test c = false

theorem Node.eq_coe_of_element? {n : Node} {c : Element} (h : n.element? = some c) : n = ↑c := by
  cases n <;> cases h
  rfl

theorem mem_of_mem_elements {c : Element} {ns : List Node} (h : c ∈ ns.filterMap Node.element?) :
    (c : Node) ∈ ns := by
  obtain ⟨n, hn, he⟩ := List.mem_filterMap.mp h
  rw [← Node.eq_coe_of_element? he]
  exact hn

theorem Element.mem_of_mem_childElements {e c : Element} (h : c ∈ e.childElements) :
    (c : Node) ∈ e.children := mem_of_mem_elements h

theorem Element.mem_of_findChild? {e c : Element} {space localPart : String}
    (h : e.findChild? space localPart = some c) : (c : Node) ∈ e.children :=
  Element.mem_of_mem_childElements (List.mem_of_find?_eq_some h)

theorem Element.is_of_findChild? {e c : Element} {space localPart : String}
    (h : e.findChild? space localPart = some c) : c.is space localPart = true :=
  List.find?_some (p := fun c => Element.is c space localPart) h

@[simp] theorem Element.element?_coe (c : Element) : (c : Node).element? = some c := rfl

theorem find?_of_noElement {test : Element → Bool} {ns : List Node} (h : NoElement test ns) :
    (ns.filterMap Node.element?).find? test = none := by
  rw [List.find?_eq_none]
  intro c hc
  obtain ⟨n, hn, he⟩ := List.mem_filterMap.mp hc
  rw [h n hn c he]
  exact Bool.false_ne_true

theorem filter_of_noElement {test : Element → Bool} {ns : List Node} (h : NoElement test ns) :
    (ns.filterMap Node.element?).filter test = [] := by
  rw [List.filter_eq_nil_iff]
  intro c hc
  obtain ⟨n, hn, he⟩ := List.mem_filterMap.mp hc
  rw [h n hn c he]
  exact Bool.false_ne_true

theorem FirstElement.find? {test : Element → Bool} {ns : List Node} (f : FirstElement test ns) :
    (ns.filterMap Node.element?).find? test = some f.element := by
  obtain ⟨before, element, after, split, holds, absent⟩ := f
  subst split
  rw [List.filterMap_append, List.find?_append, find?_of_noElement absent, Option.none_or,
    List.filterMap_cons_some (Element.element?_coe _), List.find?_cons_of_pos holds]

/-- Another element that satisfies the test, in the same place. -/
def FirstElement.replace {test : Element → Bool} {ns : List Node} (p : FirstElement test ns)
    (c : Element) (h : test c = true) : FirstElement test (p.before ++ ↑c :: p.after) :=
  ⟨p.before, c, p.after, rfl, h, p.absent⟩

/-- Around the only element that satisfies a test, no other does. -/
theorem FirstElement.noElement_around {test : Element → Bool} {ns : List Node}
    (p : FirstElement test ns) (h : ((ns.filterMap Node.element?).filter test).length ≤ 1) :
    NoElement test (p.before ++ p.after) := by
  obtain ⟨before, element, after, split, holds, absent⟩ := p
  subst split
  rw [List.filterMap_append, List.filterMap_cons_some (Element.element?_coe element),
    List.filter_append, List.filter_cons_of_pos holds, List.length_append, List.length_cons] at h
  have hafter : (after.filterMap Node.element?).filter test = [] :=
    List.eq_nil_of_length_eq_zero (by omega)
  intro n hn c hc
  rcases List.mem_append.mp hn with hn | hn
  · exact absent n hn c hc
  · have hnone := List.filter_eq_nil_iff.mp hafter c (List.mem_filterMap.mpr ⟨n, hn, hc⟩)
    simpa using hnone

namespace Element

/-- A change of the first element that satisfies a test changes it in its
place, and fails only where there is none. -/
theorem changeFirst?_cases (test : Element → Bool) (f : Element → Element) (ns : List Node) :
    (changeFirst? test f ns = none ∧ NoElement test ns) ∨
      ∃ p : FirstElement test ns,
        changeFirst? test f ns = some (p.before ++ ↑(f p.element) :: p.after) := by
  induction ns with
  | nil => exact Or.inl ⟨rfl, fun n hn => by cases hn⟩
  | cons n ns ih =>
      have hskip (hn : ∀ c, n.element? = some c → test c = false)
          (hstep : changeFirst? test f (n :: ns) = (changeFirst? test f ns).map (n :: ·)) :
          (changeFirst? test f (n :: ns) = none ∧ NoElement test (n :: ns)) ∨
            ∃ p : FirstElement test (n :: ns),
              changeFirst? test f (n :: ns) = some (p.before ++ ↑(f p.element) :: p.after) := by
        rcases ih with ⟨hnone, habsent⟩ | ⟨p, hp⟩
        · refine Or.inl ⟨by rw [hstep, hnone]; rfl, fun m hm => ?_⟩
          rcases List.mem_cons.mp hm with rfl | hm
          · exact hn
          · exact habsent m hm
        · refine Or.inr ⟨⟨n :: p.before, p.element, p.after, ?_, p.holds, fun m hm => ?_⟩, ?_⟩
          · rw [List.cons_append, ← p.split]
          · rcases List.mem_cons.mp hm with rfl | hm
            · exact hn
            · exact p.absent m hm
          · exact hstep.trans (congrArg _ hp)
      cases he : n.element? with
      | none => exact hskip (fun c hc => by rw [he] at hc; cases hc) (by rw [changeFirst?, he])
      | some c =>
          by_cases hc : test c = true
          · refine Or.inr ⟨⟨[], c, ns, by rw [Node.eq_coe_of_element? he]; rfl, hc,
              fun m hm => by cases hm⟩, ?_⟩
            rw [changeFirst?, he]
            dsimp only
            rw [if_pos hc]
            rfl
          · refine hskip (fun c' hc' => ?_) ?_
            · rw [he] at hc'
              cases hc'
              simpa using hc
            · rw [changeFirst?, he]
              dsimp only
              rw [if_neg hc]

/-! ## Children -/

theorem childElements_push (e c : Element) :
    (e.push c).childElements = e.childElements ++ [c] := by
  rw [childElements, push, List.filterMap_append]
  rfl

theorem findChildren_push_of_pos (e : Element) {c : Element} {space localPart : String}
    (h : c.is space localPart = true) :
    (e.push c).findChildren space localPart = e.findChildren space localPart ++ [c] := by
  rw [findChildren, childElements_push, List.filter_append, List.filter_cons_of_pos (by exact h)]
  rfl

theorem findChildren_push_of_neg (e : Element) {c : Element} {space localPart : String}
    (h : c.is space localPart = false) :
    (e.push c).findChildren space localPart = e.findChildren space localPart := by
  have hneg : ¬ c.is space localPart = true := Bool.eq_false_iff.mp h
  rw [findChildren, childElements_push, List.filter_append, List.filter_cons_of_neg (by exact hneg),
    List.filter_nil, List.append_nil]
  rfl

theorem mem_push (e c : Element) : (c : Node) ∈ (e.push c).children :=
  List.mem_append_right _ (List.mem_singleton.mpr rfl)

theorem mem_push_of_mem {e c : Element} {n : Node} (h : (c : Node) ∈ e.children) :
    (c : Node) ∈ (e.push n).children := List.mem_append_left _ h

theorem filterMap_insertIn (c : Element) (i : Nat) (ns : List Node) :
    (insertIn c i ns).filterMap Node.element?
      = (ns.filterMap Node.element?).take i ++ c :: (ns.filterMap Node.element?).drop i := by
  induction ns generalizing i with
  | nil =>
      rw [insertIn, List.filterMap_nil, List.take_nil, List.drop_nil]
      rfl
  | cons n ns ih =>
      cases he : n.element? with
      | none =>
          simp only [insertIn, he]
          rw [List.filterMap_cons_none he, List.filterMap_cons_none he, ih]
      | some d =>
          cases i with
          | zero =>
              simp only [insertIn, he]
              rw [List.filterMap_cons_some (Element.element?_coe c)]
              rfl
          | succ i =>
              simp only [insertIn, he]
              rw [List.filterMap_cons_some he, List.filterMap_cons_some he, ih]
              rfl

theorem childElements_insertElement (e c : Element) (i : Nat) :
    (e.insertElement i c).childElements
      = e.childElements.take i ++ c :: e.childElements.drop i :=
  filterMap_insertIn c i e.children

/-- Nodes that are parted before their first element, or at their end. -/
structure Leading (before after : List Node) : Prop where
  before : ∀ n ∈ before, n.element? = none
  after : ∀ n ∈ after.head?, n.element? ≠ none

theorem exists_leading (ns : List Node) :
    ∃ before after, ns = before ++ after ∧ Leading before after := by
  induction ns with
  | nil => exact ⟨[], [], rfl, fun n hn => (by cases hn), fun n hn => by cases hn⟩
  | cons n ns ih =>
      cases he : n.element? with
      | some c =>
          refine ⟨[], n :: ns, rfl, fun m hm => (by cases hm), fun m hm => ?_⟩
          cases hm
          simp [he]
      | none =>
          obtain ⟨before, after, rfl, hbefore, hafter⟩ := ih
          refine ⟨n :: before, after, rfl, fun m hm => ?_, hafter⟩
          rcases List.mem_cons.mp hm with rfl | hm
          · exact he
          · exact hbefore m hm

/-- What is inserted first comes where the nodes are parted. -/
theorem Leading.insertIn_zero {before after : List Node} (h : Leading before after) (c : Node) :
    insertIn c 0 (before ++ after) = before ++ c :: after := by
  obtain ⟨hbefore, hafter⟩ := h
  induction before with
  | nil =>
      cases after with
      | nil => rfl
      | cons n after =>
          cases he : n.element? with
          | none => exact absurd he (hafter n rfl)
          | some d => simp [insertIn, he]
  | cons n before ih =>
      have hrest := ih fun m hm => hbefore m (List.mem_cons_of_mem _ hm)
      simp only [List.cons_append, insertIn, hbefore n (List.mem_cons_self ..), hrest]

/-- What is inserted second comes behind an element there. -/
theorem Leading.insertIn_one {before after : List Node} (h : Leading before after) (d : Element)
    (c : Node) : insertIn c 1 (before ++ ↑d :: after) = before ++ ↑d :: c :: after := by
  obtain ⟨hbefore, hafter⟩ := h
  induction before with
  | nil =>
      have hrest : insertIn c 0 ([] ++ after) = [] ++ c :: after :=
        Leading.insertIn_zero ⟨fun n hn => (by cases hn), hafter⟩ c
      rw [List.nil_append, List.nil_append] at hrest
      simp only [List.nil_append, insertIn, element?_coe, hrest]
  | cons n before ih =>
      have hrest := ih fun m hm => hbefore m (List.mem_cons_of_mem _ hm)
      simp only [List.cons_append, insertIn, hbefore n (List.mem_cons_self ..), hrest]

/-- An element that is inserted first stands behind nodes that are no
elements. -/
theorem insertIn_zero (c : Node) (ns : List Node) :
    ∃ before after, ns = before ++ after ∧ insertIn c 0 ns = before ++ c :: after ∧
      ∀ n ∈ before, n.element? = none := by
  obtain ⟨before, after, rfl, hleading⟩ := exists_leading ns
  exact ⟨before, after, rfl, hleading.insertIn_zero c, hleading.before⟩

theorem childElements_removeChildren (e : Element) (space localPart : String) :
    (e.removeChildren space localPart).childElements
      = e.childElements.filter fun c => !c.is space localPart := by
  rw [childElements, childElements, removeChildren]
  dsimp only
  induction e.children with
  | nil => rfl
  | cons n ns ih =>
      cases he : n.element? with
      | none =>
          rw [List.filter_cons_of_pos (by simp [isNamed, he]), List.filterMap_cons_none he,
            List.filterMap_cons_none he, ih]
      | some c =>
          rw [List.filterMap_cons_some he]
          by_cases hc : c.is space localPart = true
          · rw [List.filter_cons_of_neg (by simp [isNamed, he, hc]),
              List.filter_cons_of_neg (by simp [hc]), ih]
          · rw [List.filter_cons_of_pos (by simp [isNamed, he, hc]),
              List.filter_cons_of_pos (by simp [hc]), List.filterMap_cons_some he, ih]

/-- The two forms of a change that inserts what is missing. -/
theorem changeOrInsert_cases (e : Element) (space localPart : String) (fresh : Element)
    (f : Element → Element) :
    (∃ p : FirstElement (fun c => c.is space localPart) e.children,
      e.changeOrInsert space localPart fresh f
        = { e with children := p.before ++ ↑(f p.element) :: p.after }) ∨
      (NoElement (fun c => c.is space localPart) e.children ∧
        e.changeOrInsert space localPart fresh f = e.insertElement 0 (f fresh)) := by
  unfold changeOrInsert changeChild? changeWhere?
  rcases changeFirst?_cases (fun c => c.is space localPart) f e.children with
    ⟨hnone, habsent⟩ | ⟨p, hp⟩
  · exact Or.inr ⟨habsent, by rw [hnone]; rfl⟩
  · exact Or.inl ⟨p, by rw [hp]; rfl⟩

/-- What is changed is the element in the first place. -/
theorem changeFirst?_eq {test : Element → Bool} {ns : List Node} (p : FirstElement test ns)
    (f : Element → Element) :
    changeFirst? test f ns = some (p.before ++ ↑(f p.element) :: p.after) := by
  obtain ⟨before, element, after, split, holds, absent⟩ := p
  subst split
  induction before with
  | nil => simp [changeFirst?, holds]
  | cons n before ih =>
      have hn := absent n (List.mem_cons_self ..)
      have hrest := ih fun m hm => absent m (List.mem_cons_of_mem _ hm)
      cases he : n.element? with
      | none => simp [changeFirst?, he, hrest]
      | some c => simp [changeFirst?, he, hn c he, hrest]

theorem changeFirst?_of_noElement {test : Element → Bool} {ns : List Node}
    (h : NoElement test ns) (f : Element → Element) : changeFirst? test f ns = none := by
  rcases changeFirst?_cases test f ns with ⟨hnone, -⟩ | ⟨p, -⟩
  · exact hnone
  · have hfound := p.find?
    rw [find?_of_noElement h] at hfound
    cases hfound

theorem changeChild_eq {e : Element} {space localPart : String}
    (p : FirstElement (fun c => c.is space localPart) e.children) (f : Element → Element) :
    e.changeChild space localPart f = ⟨e.tag, p.before ++ ↑(f p.element) :: p.after⟩ := by
  rw [changeChild, changeChild?, changeWhere?, changeFirst?_eq p]
  rfl

theorem changeChild_of_noElement {e : Element} {space localPart : String}
    (h : NoElement (fun c => c.is space localPart) e.children) (f : Element → Element) :
    e.changeChild space localPart f = e := by
  rw [changeChild, changeChild?, changeWhere?, changeFirst?_of_noElement h]
  rfl

@[simp] theorem tag_changeChild (e : Element) (space localPart : String)
    (f : Element → Element) : (e.changeChild space localPart f).tag = e.tag := by
  unfold changeChild changeChild? changeWhere?
  cases changeFirst? (fun c => c.is space localPart) f e.children <;> rfl

@[simp] theorem attribute?_changeChild (e : Element) (space localPart : String)
    (f : Element → Element) (key : String) :
    (e.changeChild space localPart f).attribute? key = e.attribute? key := by
  rw [attribute?, tag_changeChild, ← attribute?]

/-- A change of a child does not touch attributes. -/
theorem setAttribute_changeChild (e : Element) (space localPart : String) (f : Element → Element)
    (key value : String) :
    (e.changeChild space localPart f).setAttribute key value
      = (e.setAttribute key value).changeChild space localPart f := by
  unfold changeChild changeChild? changeWhere?
  rw [show (e.setAttribute key value).children = e.children from rfl]
  cases changeFirst? (fun c => c.is space localPart) f e.children <;> rfl

theorem setAttribute_changeOrInsert (e : Element) (space localPart : String) (fresh : Element)
    (f : Element → Element) (key value : String) :
    (e.changeOrInsert space localPart fresh f).setAttribute key value
      = (e.setAttribute key value).changeOrInsert space localPart fresh f := by
  unfold changeOrInsert changeChild? changeWhere?
  rw [show (e.setAttribute key value).children = e.children from rfl]
  cases changeFirst? (fun c => c.is space localPart) f e.children <;> rfl

theorem changeOrInsert_eq {e : Element} {space localPart : String}
    (p : FirstElement (fun c => c.is space localPart) e.children) (fresh : Element)
    (f : Element → Element) :
    e.changeOrInsert space localPart fresh f
      = ⟨e.tag, p.before ++ ↑(f p.element) :: p.after⟩ := by
  rw [changeOrInsert, changeChild?, changeWhere?, changeFirst?_eq p]
  rfl

@[simp] theorem tag_changeOrInsert (e : Element) (space localPart : String) (fresh : Element)
    (f : Element → Element) : (e.changeOrInsert space localPart fresh f).tag = e.tag := by
  rcases e.changeOrInsert_cases space localPart fresh f with ⟨p, h⟩ | ⟨-, h⟩
  · rw [h]
  · rw [h]
    rfl

/-! ## New elements -/

@[simp] theorem name_within (space : String) (qualifier : Option String) (localPart : String) :
    (within space qualifier localPart).name = ⟨qualifier, localPart, some space⟩ := by
  unfold within
  dsimp only
  split <;> rfl

theorem is_within (space : String) (qualifier : Option String) (localPart : String) :
    (within space qualifier localPart).is space localPart = true := by
  rw [Element.is, name_within, Name.is, beq_self_eq_true, beq_self_eq_true]
  rfl

theorem is_within_of_ne {localPart other : String} (h : localPart ≠ other) (space space' : String)
    (qualifier : Option String) : (within space qualifier localPart).is space' other = false := by
  rw [Element.is, name_within, Name.is, beq_eq_false_iff_ne.mpr h, Bool.and_false]

/-! ## Attributes -/

theorem find?_setIn_same (localPart value : String) (as : List Attribute) :
    ((setIn localPart value as).find? (isPlain localPart)).map Attribute.value = some value := by
  induction as with
  | nil =>
      rw [setIn, List.find?_cons_of_pos (by simp [isPlain])]
      rfl
  | cons a as ih =>
      rw [setIn]
      by_cases h : isPlain localPart a = true
      · rw [if_pos h, List.find?_cons_of_pos (by exact h)]
        rfl
      · rw [if_neg h, List.find?_cons_of_neg h, ih]

theorem find?_setIn_of_ne {localPart other : String} (h : other ≠ localPart) (value : String)
    (as : List Attribute) :
    (setIn localPart value as).find? (isPlain other) = as.find? (isPlain other) := by
  induction as with
  | nil => rw [setIn, List.find?_cons_of_neg (by simp [isPlain, Ne.symm h])]
  | cons a as ih =>
      rw [setIn]
      by_cases ha : isPlain localPart a = true
      · have hother : ¬ isPlain other a = true := by
          simp only [isPlain, Bool.and_eq_true, beq_iff_eq] at ha ⊢
          rintro ⟨-, ho⟩
          exact h (ho.symm.trans ha.2)
        rw [if_pos ha, List.find?_cons_of_neg hother, List.find?_cons_of_neg (by exact hother)]
      · rw [if_neg ha]
        by_cases ho : isPlain other a = true
        · rw [List.find?_cons_of_pos ho, List.find?_cons_of_pos ho]
        · rw [List.find?_cons_of_neg ho, List.find?_cons_of_neg ho, ih]

/-- The other attributes stay, in their order. -/
theorem filter_setIn (localPart value : String) (as : List Attribute) :
    (setIn localPart value as).filter (fun a => !isPlain localPart a)
      = as.filter fun a => !isPlain localPart a := by
  induction as with
  | nil => simp [setIn, isPlain]
  | cons a as ih =>
      rw [setIn]
      by_cases ha : isPlain localPart a = true
      · have hset : isPlain localPart { a with value } = true := ha
        rw [if_pos ha, List.filter_cons_of_neg (by simp [hset]),
          List.filter_cons_of_neg (by simp [ha])]
      · rw [if_neg ha, List.filter_cons_of_pos (by simp [ha]),
          List.filter_cons_of_pos (by simp [ha]), ih]

/-- An attribute that was set has the value. -/
theorem attribute?_setAttribute (e : Element) (localPart value : String) :
    (e.setAttribute localPart value).attribute? localPart = some value :=
  find?_setIn_same localPart value e.tag.attributes

theorem setIn_eq_self {localPart value : String} {as : List Attribute}
    (h : (as.find? (isPlain localPart)).map Attribute.value = some value) :
    setIn localPart value as = as := by
  induction as with
  | nil => cases h
  | cons a as ih =>
      rw [setIn]
      by_cases ha : isPlain localPart a = true
      · rw [List.find?_cons_of_pos ha] at h
        cases h
        rw [if_pos ha]
      · rw [List.find?_cons_of_neg ha] at h
        rw [if_neg ha, ih h]

/-- Setting an attribute to the value that it has changes nothing. -/
theorem setAttribute_eq_self {e : Element} {localPart value : String}
    (h : e.attribute? localPart = some value) : e.setAttribute localPart value = e := by
  rw [setAttribute, setIn_eq_self h]

/-- The other attributes stay. -/
theorem attribute?_setAttribute_of_ne (e : Element) {localPart other : String}
    (h : other ≠ localPart) (value : String) :
    (e.setAttribute localPart value).attribute? other = e.attribute? other := by
  rw [attribute?, attribute?, setAttribute]
  dsimp only
  rw [find?_setIn_of_ne h]

end Element

/-! ## Places of what is found -/

theorem exists_firstElement {test : Element → Bool} {ns : List Node} {c : Element}
    (h : (ns.filterMap Node.element?).find? test = some c) :
    ∃ p : FirstElement test ns, p.element = c := by
  rcases Element.changeFirst?_cases test id ns with ⟨-, habsent⟩ | ⟨p, -⟩
  · rw [find?_of_noElement habsent] at h
    cases h
  · exact ⟨p, Option.some.inj (p.find?.symm.trans h)⟩

end Presign.Xml
