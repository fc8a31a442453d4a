import Presign.Proofs.Except
import Presign.Proofs.Xades.Update

/-!
# Objects that are read again

The digest of a reference is taken over a tree in memory.  A verifier has only
the octets of the object.  What it reads is the settled tree, since the octets
tell qualifiers and no namespaces.

An update changes names in the edited signed properties only.  So a search in
the settled tree finds the same place.  The canonical forms at the place agree
exactly if the qualifiers of new elements stand for their namespaces there
(`Object.Resolves`).
-/

namespace Presign.Xml

/-! ## Places in a settled tree -/

section Settled

variable {scope : Scope}

theorem Element.settled_tag_of_isResolved {e : Element} (h : IsResolved scope e.tag) :
    (e.settled scope).tag = e.tag := Tag.settled_eq_self h

theorem Element.is_settled_of_isResolved {e : Element} (h : IsResolved scope e.tag)
    (space localPart : String) : (e.settled scope).is space localPart = e.is space localPart := by
  rw [Element.is, Element.name, Element.settled_tag_of_isResolved h]
  rfl

theorem Element.declarations_settled (e : Element) :
    (e.settled scope).tag.declarations = e.tag.declarations :=
  (e.tag.settled_spec scope).2.2.1

/-- The first element that satisfies a test is the first in the settled nodes,
too, if settling does not change the nodes before it. -/
def FirstElement.settled {test : Element → Bool} {ns : List Node} (f : FirstElement test ns)
    (hbefore : AllNodes (Node.Holds IsResolved) scope f.before)
    (htest : test (f.element.settled scope) = true) :
    FirstElement test (settledNodes scope ns) where
  before := f.before
  element := f.element.settled scope
  after := settledNodes scope f.after
  split := by
    rw [congrArg (settledNodes scope) f.split, settledNodes_append, settledNodes_eq_self hbefore]
    rfl
  holds := htest
  absent := f.absent

end Settled

end Presign.Xml

namespace Presign.Xades

open Xml (Element Declaration Scope FirstElement IsResolved IsLoose NamedDeclarations xadesSpace
  signatureSpace)

namespace Place

variable {root : Element} (p : Place root)

/-- The scope where the element of a place stands. -/
def scope : Scope := [p.outer.element.tag.declarations, root.tag.declarations]

/-- The names of the element, of the element around it and of what stands before
them have their namespaces. -/
structure Resolved : Prop where
  before : Xml.AllNodes (Xml.Node.Holds IsResolved) [root.tag.declarations] p.outer.before
  outer : IsResolved [root.tag.declarations] p.outer.element.tag
  inside : Xml.AllNodes (Xml.Node.Holds IsResolved) p.scope p.inner.before
  element : IsResolved p.scope p.element.tag

variable {p} (h : p.Resolved)

/-- The same place in the settled tree. -/
def settled : Place (root.settled []) where
  outer := p.outer.settled h.before
    ((Element.is_settled_of_isResolved h.outer ..).trans p.outer.holds)
  inner := p.inner.settled h.inside
    ((Element.is_settled_of_isResolved h.element ..).trans p.inner.holds)

theorem element_settled : (p.settled h).element = p.element.settled p.scope := rfl

theorem inherited_settled : (p.settled h).inherited = p.inherited := by
  change (root.settled []).tag.declarations ++ (p.outer.element.settled _).tag.declarations = _
  rw [root.declarations_settled, p.outer.element.declarations_settled]
  rfl

theorem find?_earlier_settled :
    (p.settled h).earlier.find? isSignedProperties = p.earlier.find? isSignedProperties := by
  rw [find?_earlier, find?_earlier, inherited_settled, root.declarations_settled]
  rfl

end Place

namespace Object

variable {o : Object} {u : Update}

section Edited

variable {root : Element} {p : Place root}

/-- The signed properties to edit have their namespace. -/
theorem isResolved_propertiesToEdit (ho : o.element.AllHold IsResolved []) :
    IsResolved [o.qualifying.tag.declarations, o.element.tag.declarations]
      o.propertiesToEdit.tag := by
  rw [propertiesToEdit]
  cases hc : o.qualifying.findChild? xadesSpace signedProperties with
  | none => exact Xml.isResolved_within (by decide) (gives_qualifiers ho).1 signedProperties
  | some c =>
      have hchild := (ho.child o.mem_qualifying).child (Element.mem_of_findChild? hc)
      exact (Element.allHold_iff.mp hchild).1.holds

theorem isResolved_signedProperties {scope : Scope} {qualifier signatureQualifier : Option String}
    {e : Element} (h : IsResolved scope e.tag) :
    IsResolved scope (u.signedProperties qualifier signatureQualifier e).tag := by
  unfold Update.signedProperties
  dsimp only
  rw [Element.tag_changeOrInsert]
  split
  · exact h
  · exact h

/-- The scope of the edited signed properties. -/
theorem Edited.scope_eq (hp : o.Edited u p) :
    [p.outer.element.tag.declarations, root.tag.declarations]
      = [o.qualifying.tag.declarations, o.element.tag.declarations] := by
  rw [hp.qualifying, hp.root]
  rfl

/-- An update changes no names but those of the edited signed properties and
what is in them. -/
theorem Edited.resolved (hp : o.Edited u p) (ho : o.element.AllHold IsResolved []) :
    p.Resolved := by
  have hchild := ho.child o.mem_qualifying
  constructor
  · rw [hp.root]
    exact (Element.allHold_iff.mp ho).2.subset hp.before
  · rw [hp.qualifying, hp.root]
    exact (Element.allHold_iff.mp hchild).1.holds
  · rw [Place.scope, hp.scope_eq]
    exact (Element.allHold_iff.mp hchild).2.subset hp.inside
  · rw [Place.scope, hp.element, hp.scope_eq]
    exact isResolved_signedProperties (isResolved_propertiesToEdit ho)

/-- The place of the edited signed properties, in the settled tree. -/
theorem Edited.exists_settled (hp : o.Edited u p) (ho : o.element.AllHold IsResolved []) :
    ∃ p' : Place (root.settled []),
      p'.element = p.element.settled [o.qualifying.tag.declarations, o.element.tag.declarations] ∧
        p'.inherited = p.inherited ∧
        p'.earlier.find? isSignedProperties = o.earlierProperties? := by
  have hresolved := hp.resolved ho
  refine ⟨p.settled hresolved, ?_, Place.inherited_settled hresolved, ?_⟩
  · rw [Place.element_settled, Place.scope, hp.scope_eq]
  · rw [Place.find?_earlier_settled, hp.earlier]

/-- The declarations that the edited signed properties inherit. -/
theorem Edited.inherited_eq (hp : o.Edited u p) :
    p.inherited = o.element.tag.declarations ++ o.qualifying.tag.declarations := by
  rw [Place.inherited, hp.root, hp.qualifying]
  rfl

theorem namedDeclarations_inherited (ho : o.element.AllHold IsResolved []) :
    NamedDeclarations (o.element.tag.declarations ++ o.qualifying.tag.declarations) := by
  have hchild := ho.child o.mem_qualifying
  intro d hd
  rcases List.mem_append.mp hd with hd | hd
  · exact (Element.allHold_iff.mp ho).1.printable.declared d hd
  · exact (Element.allHold_iff.mp hchild).1.printable.declared d hd

end Edited

/-! ## Reading again -/

theorem exists_read_octets_of {e : Element}
    (hread : Element.read (Text.encode o.element.render) = .ok e)
    (isObject : e.is signatureSpace "Object" = true)
    (qualifies : (e.findChild? xadesSpace qualifyingProperties).isSome = true) :
    ∃ o', Object.read o.octets = .ok o' ∧ o'.element = e := by
  refine ⟨⟨e, isObject, qualifies⟩, ?_, rfl⟩
  rw [Object.read, octets, hread]
  change (if _ : _ then _ else _) = _
  rw [dif_pos isObject, dif_pos qualifies]
  rfl

/-- An object with all its namespaces is read again, with its texts joined. -/
theorem exists_read_octets (ho : o.element.AllHold IsResolved []) :
    ∃ o', Object.read o.octets = .ok o' ∧ o'.element = o.element.joined := by
  refine exists_read_octets_of (Element.read_render ho.isReadable) o.isObject ?_
  rw [Element.findChild?_joined, Option.isSome_map]
  exact o.qualifies

/-- An object without texts is read again as it is. -/
theorem read_octets_of_joined (ho : o.element.AllHold IsResolved [])
    (hjoined : o.element.joined = o.element) : Object.read o.octets = .ok o := by
  obtain ⟨o', hread, ho'⟩ := exists_read_octets ho
  obtain ⟨e, isObject, qualifies⟩ := o
  obtain ⟨e', isObject', qualifies'⟩ := o'
  cases ho'.trans hjoined
  exact hread

section Read

variable (ho : o.element.AllHold IsResolved []) (hnames : o.element.IsWellNamed)
include ho hnames

/-- An updated object is read again, as the settled tree. -/
theorem exists_read_octets_update (u : Update) :
    ∃ o', Object.read (o.update u).octets = .ok o' ∧
      o'.element = ((o.update u).element.settled []).joined := by
  obtain ⟨p, hp⟩ := o.exists_edited u
  obtain ⟨p', -, -, -⟩ := hp.exists_settled ho
  have hroot : IsResolved [] (o.update u).element.tag :=
    hp.root ▸ (Element.allHold_iff.mp ho).1.holds
  have htag := Element.settled_tag_of_isResolved hroot
  have isObject : ((o.update u).element.settled []).joined.is signatureSpace "Object" = true := by
    rw [Element.is_joined, Element.is, Element.name, htag]
    exact (o.update u).isObject
  have qualifies : (((o.update u).element.settled []).joined.findChild? xadesSpace
      qualifyingProperties).isSome = true := by
    rw [Element.findChild?_joined, show ((o.update u).element.settled []).findChild? xadesSpace
      qualifyingProperties = some p'.outer.element from p'.outer.find?]
    rfl
  exact exists_read_octets_of (allHold_isLoose_update ho u hnames).read_render isObject qualifies

omit hnames in
/-- All names in the edited signed properties have their namespaces if and only
if those of the new elements do. -/
theorem Edited.allHold_iff {root : Element} {p : Place root} (hp : o.Edited u p)
    (hroot : root = (o.update u).element) :
    p.element.AllHold IsResolved [o.qualifying.tag.declarations, o.element.tag.declarations] ↔
      o.Resolves := by
  subst hroot
  constructor
  · intro h
    rw [hp.element] at h
    exact u.gives_of_allHold h
  · intro h
    rw [← hp.scope_eq]
    exact ((allHold_isResolved_update ho u h).child p.outer.mem).child p.inner.mem

/-- What is read again has the canonical form of what was in memory, if and only
if new elements have their namespaces there, or no new elements are in it. -/
theorem canonicalSignedProperties_eq_iff (u : Update) {o' : Object}
    (hread : o'.element = ((o.update u).element.settled []).joined) :
    o'.canonicalSignedProperties = (o.update u).canonicalSignedProperties ↔
      o.earlierProperties?.isSome = true ∨ o.Resolves := by
  obtain ⟨p, hp⟩ := o.exists_edited u
  obtain ⟨p', helement, hinherited, hearlier⟩ := hp.exists_settled ho
  have hloose : p.element.AllHold IsLoose
      [o.qualifying.tag.declarations, o.element.tag.declarations] := by
    rw [← hp.scope_eq]
    exact ((allHold_isLoose_update ho u hnames).child p.outer.mem).child p.inner.mem
  have hfound := p'.findDescendant?_eq
  rw [hearlier, helement, hinherited] at hfound
  rw [canonicalSignedProperties, canonicalSignedProperties, hread, Element.findDescendant?_joined,
    hfound, p.findDescendant?_eq, hp.earlier]
  cases o.earlierProperties? with
  | some earlier => simp [Element.canonicalInScope_joined]
  | none =>
      have hsettled := Element.canonicalInScope_settled_iff (m := .exclusive) hloose
        (hp.inherited_eq ▸ namedDeclarations_inherited ho) rfl
      rw [hp.allHold_iff ho rfl] at hsettled
      simp only [Option.map_some, Option.getD_none, Element.canonicalInScope_joined,
        Except.ok.injEq, Option.isSome_none, Bool.false_eq_true, false_or, hsettled]

end Read

/-- An object in which the signed properties make the qualifier of the qualifying
properties stand for another namespace. -/
def rebound : Object where
  element :=
    let properties := ((Element.bare (some "x") signedProperties (some xadesSpace)).declare
      (some "x") xadesSpace).declare (some "xades") "urn:other"
    let qualifying := ((Element.bare (some "xades") qualifyingProperties
      (some xadesSpace)).declare (some "xades") xadesSpace).push properties
    ((Element.bare (some "ds") "Object" (some signatureSpace)).declare (some "ds")
      signatureSpace).push qualifying
  isObject := by decide
  qualifies := by decide

theorem rebound_isResolved : rebound.element.AllHold IsResolved [] := by
  have hqualifying : ((Element.bare (some "xades") qualifyingProperties (some xadesSpace)).declare
      (some "xades") xadesSpace).AllHold IsResolved [[⟨some "ds", signatureSpace⟩]] :=
    Element.allHold_declared (by decide) (by decide) (by decide) (by decide)
  refine (Element.allHold_declared (by decide) (by decide) (by decide) (by decide)).push
    (hqualifying.push (Element.allHold_iff.mpr ⟨⟨⟨by decide, by decide, by decide, by decide⟩,
      by decide, by rfl⟩, ?_⟩))
  exact Xml.allNodes_iff.mpr fun n hn => by cases hn

theorem rebound_isWellNamed : rebound.element.IsWellNamed := by
  refine Xml.Node.all_element.mpr ⟨?_, Xml.allNodes_iff.mpr fun n hn => ?_⟩
  · exact (by decide : rebound.element.tag.IsWellNamed)
  · rw [List.mem_singleton.mp hn]
    refine Element.isWellNamed_of_leaves (by decide) fun n hn => ?_
    exact ⟨_, List.mem_singleton.mp hn, by decide⟩

theorem not_resolves_rebound : ¬ rebound.Resolves := by
  intro h
  have hspace : rebound.signatureScope.spaceOf "xades" = .ok "urn:other" := by rfl
  have hgives := h.1 "xades" rfl
  rw [hspace] at hgives
  exact absurd (Except.ok.inj hgives) (by decide)

/-- After an update of `rebound`, what is read again has another canonical form. -/
theorem canonicalSignedProperties_rebound :
    let updated := rebound.update ⟨"sig", "new", ⟨1700000000, 0, by decide⟩, .sha256, [0], none⟩
    ∃ o, Object.read updated.octets = .ok o ∧
      o.canonicalSignedProperties ≠ updated.canonicalSignedProperties := by
  intro updated
  obtain ⟨o, hread, ho⟩ := exists_read_octets_update rebound_isResolved rebound_isWellNamed
    ⟨"sig", "new", ⟨1700000000, 0, by decide⟩, .sha256, [0], none⟩
  refine ⟨o, hread, fun heq => ?_⟩
  rcases (canonicalSignedProperties_eq_iff rebound_isResolved rebound_isWellNamed _ ho).mp heq with
    hearlier | hresolves
  · cases hearlier
  · exact not_resolves_rebound hresolves

/-! ## The empty object -/

theorem empty_isResolved : Object.empty.element.AllHold IsResolved [] :=
  (Element.allHold_declared (by decide) (by decide) (by decide) (by decide)).push
    (Element.allHold_declared (by decide) (by decide) (by decide) (by decide))

theorem empty_isWellNamed : Object.empty.element.IsWellNamed := by
  refine Element.isWellNamed_of_leaves (by decide) fun n hn => ?_
  exact ⟨_, List.mem_singleton.mp hn, by decide⟩

end Object

end Presign.Xades
