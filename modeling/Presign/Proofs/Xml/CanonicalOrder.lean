import Presign.Proofs.Xml.Meaning

/-!
# Order in canonical texts

Bindings are kept in the order of their qualifiers, and attributes are written in
the order of their namespaces and local parts.  So neither depends on the order
in a document: a tag uses the same bindings whatever the order of its attributes,
since it gives one namespace to each qualifier, and attributes that differ in
their names have one canonical order.
-/

namespace Presign.Xml

/-! ## Order of bindings -/

namespace Bindings

/-- Bindings that do not contradict each other can be made in any order. -/
theorem insert_comm {q q' u u' : String} (h : q = q' → u = u') (b : Bindings) :
    insert q u (insert q' u' b) = insert q' u' (insert q u b) := by
  induction b with
  | nil => grind [insert]
  | cons first rest ih => grind [insert]

theorem Sorted.mem_iff {b : Bindings} (h : b.Sorted) {p : String × String} :
    p ∈ b ↔ b.get? p.1 = some p.2 := ⟨get?_of_mem h.nodup, mem_of_get?⟩

/-- Sorted bindings are determined by what qualifiers stand for. -/
theorem Sorted.ext {b b' : Bindings} (h : b.Sorted) (h' : b'.Sorted)
    (hget : ∀ q, b.get? q = b'.get? q) : b = b' := by
  have hasymm : ∀ p q : String × String, p ∈ b → q ∈ b' → p.1 < q.1 → q.1 < p.1 → p = q :=
    fun p q _ _ hlt hgt => absurd hgt (String.lt_asymm hlt)
  refine List.Perm.eq_of_pairwise hasymm h h' ?_
  rw [List.perm_ext_iff_of_nodup h.nodup.of_map h'.nodup.of_map]
  intro p
  rw [h.mem_iff, h'.mem_iff, hget]

theorem Sorted.update {b : Bindings} (h : b.Sorted) (other : Bindings) :
    (b.update other).Sorted := by
  induction other generalizing b with
  | nil => exact h
  | cons p other ih => exact ih h.insert

theorem Sorted.changed {b : Bindings} (h : b.Sorted) (written : Bindings) :
    (b.changed written).Sorted := h.filter _

theorem get?_changed_of_none {b : Bindings} {q : String} (h : b.get? q = none)
    (written : Bindings) : (b.changed written).get? q = none := by
  rw [get?_eq_none_iff] at h ⊢
  exact fun hm => h ((List.filter_sublist.map Prod.fst).subset hm)

/-- Of the bindings that are written, those that differ from what is written
around are the ones that were added. -/
theorem changed_update_changed {b written : Bindings} (h : b.Sorted) (hw : written.Sorted) :
    (written.update (b.changed written)).changed written = b.changed written := by
  have hsorted := (hw.update (b.changed written))
  refine (hsorted.changed written).ext (h.changed written) fun q => ?_
  have hget := get?_update (h.nodup_changed written) written q
  cases hq : (b.changed written).get? q with
  | some u =>
      have hb := get?_of_mem h.nodup (List.mem_of_mem_filter (mem_of_get? hq))
      rw [hq, Option.some_or] at hget
      rw [get?_changed h.nodup hb] at hq
      rw [get?_changed hsorted.nodup hget, hq]
  | none =>
      rw [hq, Option.none_or] at hget
      cases hwritten : written.get? q with
      | none => exact get?_changed_of_none (hget.trans hwritten) written
      | some u =>
          rw [get?_changed hsorted.nodup (hget.trans hwritten), if_pos (Or.inl hwritten)]

end Bindings

/-! ## Bindings that a tag uses -/

section Used

variable {t t' : Tag} {scope : Scope}

/-- Attributes of a tag with the same qualifier belong to the same namespace. -/
theorem Tag.Fits.space_eq (h : t.Fits scope) {a a' : Attribute} (ha : a ∈ t.attributes)
    (ha' : a' ∈ t.attributes) (hq : a.name.qualifier = a'.name.qualifier) :
    a.name.space = a'.name.space := by
  have hname := attributeName_eq_ok_iff.mp (h.attributes a ha)
  have hname' := attributeName_eq_ok_iff.mp (h.attributes a' ha')
  rw [← hq] at hname'
  cases hqualifier : a.name.qualifier with
  | none =>
      rw [hqualifier] at hname hname'
      exact hname.trans hname'.symm
  | some q =>
      rw [hqualifier] at hname hname'
      obtain ⟨u, hu, hspace⟩ := hname
      obtain ⟨u', hu', hspace'⟩ := hname'
      rw [hu, hu', Except.ok.inj (hspace.symm.trans hspace')]

theorem useAttribute_comm {a a' : Attribute}
    (h : a.name.qualifier = a'.name.qualifier → a.name.space = a'.name.space) (b : Bindings) :
    useAttribute (useAttribute b a) a' = useAttribute (useAttribute b a') a := by
  rcases hq : a.name.qualifier with - | q
  · simp [useAttribute, hq]
  rcases hu : a.name.space with - | u
  · simp [useAttribute, hu]
  rcases hq' : a'.name.qualifier with - | q'
  · simp [useAttribute, hq']
  rcases hu' : a'.name.space with - | u'
  · simp [useAttribute, hu']
  rw [hq, hq', hu, hu', Option.some.injEq, Option.some.injEq] at h
  simp only [useAttribute, hq, hu, hq', hu']
  split
  · rfl
  · split
    · rfl
    · exact Bindings.insert_comm (fun he => (h he.symm).symm) b

/-- The order of the attributes does not matter for what a tag uses. -/
theorem Tag.Matches.used_eq (h : t.Matches t') (hfits : t.Fits scope) : t.used = t'.used := by
  rw [Tag.used_eq, Tag.used_eq, h.name]
  exact h.attributes.foldl_eq'
    (fun a ha a' ha' b => useAttribute_comm (fun hq => hfits.space_eq ha ha' hq) b) _

end Used

/-! ## Order of attributes -/

section Attributes

theorem Attribute.canonicalLe_trans {a b c : Attribute} (h : a.canonicalLe b = true)
    (h' : b.canonicalLe c = true) : a.canonicalLe c = true := by
  unfold Attribute.canonicalLe at h h' ⊢
  grind

theorem Attribute.canonicalLe_total (a b : Attribute) :
    (a.canonicalLe b || b.canonicalLe a) = true := by
  unfold Attribute.canonicalLe
  grind

theorem Attribute.canonicalLe_antisymm {a b : Attribute} (h : a.canonicalLe b = true)
    (h' : b.canonicalLe a = true) :
    a.name.space.getD "" = b.name.space.getD "" ∧ a.name.localPart = b.name.localPart := by
  unfold Attribute.canonicalLe at h h'
  grind

theorem pairwise_canonicalAttributes (as : List Attribute) :
    (canonicalAttributes as).Pairwise fun a b => a.canonicalLe b = true :=
  @List.pairwise_mergeSort _ Attribute.canonicalLe (fun _ _ _ => Attribute.canonicalLe_trans)
    Attribute.canonicalLe_total as

/-- Attributes in canonical order stay as they are. -/
theorem canonicalAttributes_canonicalAttributes (as : List Attribute) :
    canonicalAttributes (canonicalAttributes as) = canonicalAttributes as :=
  List.mergeSort_of_pairwise (pairwise_canonicalAttributes as)

/-- No two attributes have the same namespace and local part. -/
def Tag.HasDistinctAttributes (t : Tag) : Prop :=
  (t.attributes.map fun a => (a.name.space, a.name.localPart)).Nodup

instance (t : Tag) : Decidable t.HasDistinctAttributes :=
  inferInstanceAs (Decidable (List.Nodup _))

variable {t t' : Tag} {scope : Scope}

/-- The URI of the namespace of an attribute is not empty, so it determines
whether there is a namespace. -/
theorem Tag.Fits.space_ne (h : t.Fits scope) {a : Attribute} (ha : a ∈ t.attributes) :
    a.name.space ≠ some "" := by
  intro hempty
  have hname := attributeName_eq_ok_iff.mp (h.attributes a ha)
  cases hq : a.name.qualifier with
  | none =>
      rw [hq, hempty] at hname
      cases hname
  | some q =>
      rw [hq] at hname
      obtain ⟨u, hu, hspace⟩ := hname
      cases hempty.symm.trans hu
      rcases spaceOf_eq_ok_iff.mp hspace with ⟨-, hxml⟩ | ⟨-, -, hne⟩
      · exact absurd hxml (by decide)
      · exact hne rfl

theorem eq_of_getD_eq {s s' : Option String} (h : s ≠ some "") (h' : s' ≠ some "")
    (he : s.getD "" = s'.getD "") : s = s' := by
  cases s with
  | none =>
      cases s' with
      | none => rfl
      | some u => exact absurd (congrArg some he).symm h'
  | some u =>
      cases s' with
      | none => exact absurd (congrArg some he) h
      | some u' => exact congrArg some he

/-- Attributes with different names have one canonical order. -/
theorem Tag.Matches.canonicalAttributes_eq (h : t.Matches t') (hfits : t.Fits scope)
    (hdistinct : t.HasDistinctAttributes) :
    canonicalAttributes t.attributes = canonicalAttributes t'.attributes := by
  have hperm : (canonicalAttributes t.attributes).Perm (canonicalAttributes t'.attributes) :=
    (perm_canonicalAttributes _).trans (h.attributes.trans (perm_canonicalAttributes _).symm)
  refine List.Perm.eq_of_pairwise (fun a b ha hb hle hge => ?_) (pairwise_canonicalAttributes _)
    (pairwise_canonicalAttributes _) hperm
  have ha : a ∈ t.attributes := mem_canonicalAttributes.mp ha
  have hb : b ∈ t.attributes := h.attributes.mem_iff.mpr (mem_canonicalAttributes.mp hb)
  obtain ⟨hspace, hlocal⟩ := Attribute.canonicalLe_antisymm hle hge
  have hspace := eq_of_getD_eq (hfits.space_ne ha) (hfits.space_ne hb) hspace
  exact List.inj_on_of_nodup_map hdistinct ha hb (Prod.ext hspace hlocal)

end Attributes

end Presign.Xml
