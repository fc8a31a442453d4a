import Presign.Proofs.Xml.CanonicalReading
import Presign.Proofs.Xml.FixedPoint

/-!
# Changes to what was read

What is read of a canonical text is the canonical tree, with its texts joined.  A change to one of
its children leads back to a text that the tree in memory has as well, if the new child has the
canonical text of the old one there (`FirstElement.canonicalNodes_reread`).  The same is so where
just texts were joined (`FirstElement.canonicalChars_joined`).

A child that was put together in memory does not look like what was read in its place.  It declares
nothing, since it counts on what is in scope.  Under an inclusive rule its canonical text is the
same with the bindings of the document in scope and with just those that were written
(`canonicalNodes_congr`): both differ alike from what is written, and no more is looked at.
-/

namespace Presign.Xml

/-! ## What differs from what is written -/

namespace Bindings

variable {b b' written : Bindings}

theorem get?_changed_congr (h : b.Sorted) (h' : b'.Sorted) {q : String}
    (hq : b.get? q = b'.get? q) : (b.changed written).get? q = (b'.changed written).get? q := by
  cases hb : b.get? q with
  | none => rw [get?_changed_of_none hb, get?_changed_of_none (hq.symm.trans hb)]
  | some u => rw [get?_changed h.nodup hb, get?_changed h'.nodup (hq.symm.trans hb)]

/-- Nothing differs from what is written if all of it has been written. -/
theorem changed_eq_nil_of (h : b.Sorted) (hwritten : ∀ q u, b.get? q = some u →
      written.get? q = some u ∨ (q = "" ∧ u = "" ∧ written.get? q = none)) :
    b.changed written = [] := by
  refine List.filter_eq_nil_iff.mpr fun ⟨q, u⟩ hp => ?_
  rcases hwritten q u (get?_of_mem h.nodup hp) with hq | ⟨rfl, rfl, hq⟩
  · simp [hq]
  · simp [hq]

theorem changed_self (h : b.Sorted) : b.changed b = [] :=
  changed_eq_nil_of h fun _ _ hq => Or.inl hq

/-- Once what differs is written too, nothing differs. -/
theorem changed_update_self (h : b.Sorted) (written : Bindings) :
    b.changed (written.update (b.changed written)) = [] :=
  changed_eq_nil_of h fun _ _ hq => get?_update_changed h hq

end Bindings

/-- Two bindings that differ alike from what is written. -/
structure DifferAlike (written b b' : Bindings) : Prop where
  sorted : b.Sorted
  sorted' : b'.Sorted
  changed : b.changed written = b'.changed written

section DifferAlike

variable {written b b' : Bindings}

theorem DifferAlike.declare (h : DifferAlike written b b') (d : Declaration) :
    DifferAlike written (b.declare d) (b'.declare d) := by
  have hsorted : (b.declare d).Sorted := h.sorted.declareAll [d]
  have hsorted' : (b'.declare d).Sorted := h.sorted'.declareAll [d]
  refine ⟨hsorted, hsorted', (hsorted.changed written).ext (hsorted'.changed written) fun q => ?_⟩
  by_cases hq : d.qualifier.getD "" = q ∧ q ≠ "xml"
  · refine Bindings.get?_changed_congr hsorted hsorted' ?_
    rw [Bindings.get?_declare, Bindings.get?_declare, if_pos hq, if_pos hq]
  · have hget (b : Bindings) : (b.declare d).get? q = b.get? q := by
      rw [Bindings.get?_declare, if_neg hq]
    rw [Bindings.get?_changed_congr hsorted h.sorted (hget b), h.changed,
      Bindings.get?_changed_congr h.sorted' hsorted' (hget b').symm]

theorem DifferAlike.declareAll (h : DifferAlike written b b') (ds : List Declaration) :
    DifferAlike written (b.declareAll ds) (b'.declareAll ds) := by
  induction ds generalizing b b' with
  | nil => exact h
  | cons d ds ih => exact ih (h.declare d)

/-- Inside of an element, what differs has been written. -/
theorem DifferAlike.update (h : DifferAlike written b b') :
    DifferAlike (written.update (b.changed written)) b b' := by
  refine ⟨h.sorted, h.sorted', ?_⟩
  rw [Bindings.changed_update_self h.sorted, h.changed, Bindings.changed_update_self h.sorted']

end DifferAlike

variable {m : CanonicalMethod}

mutual

/-- Under an inclusive rule, no more of the bindings in scope shows than what differs from what is
written.  Under the exclusive rule nothing of them shows. -/
theorem Node.canonicalChars_congr :
    ∀ (n : Node) {written b b' : Bindings}, (m.rule ≠ .exclusive → DifferAlike written b b') →
      n.canonicalChars m b written = n.canonicalChars m b' written
  | .element tag children, written, b, b', h => by
      have hinside (hm : m.rule ≠ .exclusive) := (h hm).declareAll tag.declarations
      have hbindings : tag.canonicalBindings m.rule (b.declareAll tag.declarations) written
          = tag.canonicalBindings m.rule (b'.declareAll tag.declarations) written := by
        by_cases hm : m.rule = .exclusive
        · rw [hm]
          rfl
        · rw [canonicalBindings_of_ne hm, canonicalBindings_of_ne hm, (hinside hm).changed]
      rw [Node.canonicalChars, Node.canonicalChars, ← hbindings, canonicalNodes_congr children]
      intro hm
      rw [canonicalBindings_of_ne hm]
      exact (hinside hm).update
  | .text _, _, _, _, _ => rfl
  | .comment _, _, _, _, _ => rfl
  | .instruction _ _, _, _, _, _ => rfl

theorem canonicalNodes_congr :
    ∀ (ns : List Node) {written b b' : Bindings}, (m.rule ≠ .exclusive → DifferAlike written b b') →
      canonicalNodes m b written ns = canonicalNodes m b' written ns
  | [], _, _, _, _ => rfl
  | n :: ns, _, _, _, h => by
      rw [canonicalNodes, canonicalNodes, Node.canonicalChars_congr n h, canonicalNodes_congr ns h]

end

/-! ## Canonical tags -/

section Tag

variable {e : Element} {scope : Scope} {b b' written : Bindings}

/-- An element with a canonical tag has the canonical text of the document, if its children have
that of the children there. -/
theorem Element.canonicalChars_canonicalTag (hfits : e.tag.Fits scope)
    (h : Rereads m.rule b b' written) {children : List Node}
    (hchildren : ∀ b', Rereads m.rule (e.bindingsInside b) b' (e.writtenInside m b written) →
      canonicalNodes m b' (e.writtenInside m b written) children
        = canonicalNodes m (e.bindingsInside b) (e.writtenInside m b written) e.children) :
    Node.canonicalChars m b' written (.element (e.canonicalTree m b written).tag children)
      = Node.canonicalChars m b written e := by
  have htag : (e.canonicalTree m b written).tag = e.tag.canonicalTag
      (e.tag.canonicalBindings m.rule (b.declareAll e.tag.declarations) written) := rfl
  obtain ⟨hdeclared, hinside⟩ := h.enter hfits rfl
  have hnodes := hchildren _ hinside
  rw [Element.writtenInside, Element.bindingsInside] at hnodes
  rw [htag, Node.canonicalChars, Node.canonicalChars, hdeclared, hnodes,
    e.tag.canonicalChars_canonicalTag]
  rfl

/-- The children of the document have the same canonical text with what was written in scope. -/
theorem Element.canonicalNodes_children
    (h : Rereads m.rule (e.bindingsInside b) b' (e.writtenInside m b written)) :
    canonicalNodes m b' (e.writtenInside m b written) e.children
      = canonicalNodes m (e.bindingsInside b) (e.writtenInside m b written) e.children := by
  refine canonicalNodes_congr e.children fun hm => ?_
  rw [h.inScope hm]
  refine ⟨h.sortedWritten, h.sorted, ?_⟩
  rw [Bindings.changed_self h.sortedWritten, Element.writtenInside, canonicalBindings_of_ne hm,
    Bindings.changed_update_self h.sorted]

end Tag

/-! ## Places in canonical trees -/

section Place

variable {test : Element → Bool} {ns : List Node} (p : FirstElement test ns) {scope : Scope}
  {b b' written : Bindings}

/-- The place of the first element that satisfies a test, in what is read of a canonical text, if
what is read passes the test just where the document does. -/
def FirstElement.reread (m : CanonicalMethod) (b written : Bindings)
    (hsame : ∀ c : Element, ↑c ∈ ns → test (c.canonicalTree m b written).joined = test c) :
    FirstElement test (joinFrom "" (canonicalForest m b written ns)) where
  before := joinFrom "" (canonicalForest m b written p.before)
  element := (p.element.canonicalTree m b written).joined
  after := joinFrom "" (canonicalForest m b written p.after)
  split := by
    rw [congrArg (canonicalForest m b written) p.split, canonicalForest_append, canonicalForest,
      Element.canonicalTrees_coe]
    exact joinFrom_append_coe ..
  holds := (hsame p.element p.mem).trans p.holds
  absent := by
    intro n hn c hc
    have hmem := List.mem_filterMap.mpr ⟨n, hn, hc⟩
    rw [childElements_joinFrom, childElements_canonicalForest, List.map_map] at hmem
    obtain ⟨d, hd, rfl⟩ := List.mem_map.mp hmem
    have hbefore := mem_of_mem_elements hd
    exact (hsame d (p.split ▸ List.mem_append_left _ hbefore)).trans (p.absent _ hbefore d rfl)

/-- What is read of a canonical text has the same canonical text with another element in its place,
if that has the canonical text of the first. -/
theorem FirstElement.canonicalNodes_reread (hfits : AllNodes Node.Fits scope ns)
    (h : Rereads m.rule b b' written)
    (hsame : ∀ c : Element, ↑c ∈ ns → test (c.canonicalTree m b written).joined = test c)
    {c : Element} (hc : Node.canonicalChars m b' written c
      = Node.canonicalChars m b written p.element) :
    canonicalNodes m b' written
        ((p.reread m b written hsame).before ++ ↑c :: (p.reread m b written hsame).after)
      = canonicalNodes m b written ns := by
  have hnodes {ms : List Node} (hms : ∀ n ∈ ms, n ∈ ns) :
      canonicalNodes m b' written (joinFrom "" (canonicalForest m b written ms))
        = canonicalNodes m b written ms := by
    rw [canonicalNodes_joinFrom_empty]
    exact canonicalNodes_canonicalForest (hfits.subset hms) h
  have hbefore := hnodes fun n hn => p.split ▸ List.mem_append_left _ hn
  have hafter := hnodes fun n hn =>
    p.split ▸ List.mem_append_right _ (List.mem_cons_of_mem _ hn)
  rw [canonicalNodes_append, canonicalNodes, hc, congrArg (canonicalNodes m b written) p.split,
    canonicalNodes_append, canonicalNodes]
  exact congrArg₂ _ hbefore (congrArg _ hafter)

end Place

/-! ## Places in joined trees -/

/-- The canonical text of an element depends on its children only through theirs. -/
theorem Node.canonicalChars_congr_children {tag : Tag} {ns ns' : List Node}
    (h : ∀ b written, canonicalNodes m b written ns = canonicalNodes m b written ns')
    (b written : Bindings) : Node.canonicalChars m b written (.element tag ns)
      = Node.canonicalChars m b written (.element tag ns') := by
  rw [Node.canonicalChars, Node.canonicalChars, h]

/-- An element has the same canonical text when its texts are joined and a child gives way to
another with the same canonical text. -/
theorem FirstElement.canonicalChars_joined {test : Element → Bool} {e c : Element}
    (p : FirstElement test e.children) (htest : ∀ c : Element, test c.joined = test c)
    (hc : ∀ b written, Node.canonicalChars m b written c
      = Node.canonicalChars m b written p.element) (b written : Bindings) :
    Node.canonicalChars m b written
        (.element e.tag ((p.joined htest).before ++ ↑c :: (p.joined htest).after))
      = Node.canonicalChars m b written e := by
  refine Node.canonicalChars_congr_children (fun b written => ?_) b written
  rw [congrArg (canonicalNodes m b written) p.split, canonicalNodes_append, canonicalNodes_append,
    canonicalNodes, canonicalNodes, hc]
  simp only [FirstElement.joined, canonicalNodes_joinFrom_empty]

/-- What holds in an element holds when its texts are joined. -/
theorem Element.AllHold.joined {N : Scope → Tag → Prop} {scope : Scope} {e : Element}
    (h : e.AllHold N scope) : e.joined.AllHold N scope :=
  OfTags.joined (n := e) ⟨id, fun _ _ => trivial⟩ h

end Presign.Xml
