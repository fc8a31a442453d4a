import Mathlib.Data.List.Induction
import Presign.Proofs.Xml.StartTag
import Presign.Xml.Canonical

/-!
# Bindings and scopes

Canonical forms track what qualifiers stand for in sorted lists of bindings,
while reading looks qualifiers up in the declarations of the open elements.
`Mirrors scope b` says that both give the same answers.  It is kept when an
element is entered, both for the declarations that stand in a document and for
those that a canonical form writes.
-/

namespace Presign.Xml

/-! ## Sorted bindings -/

namespace Bindings

/-- Bindings in strictly ascending order of their qualifiers. -/
def Sorted (b : Bindings) : Prop := b.Pairwise fun p q => p.1 < q.1

theorem mem_insert {qualifier uri : String} {b : Bindings} {p : String × String}
    (h : p ∈ insert qualifier uri b) : p = (qualifier, uri) ∨ p ∈ b := by
  induction b with
  | nil =>
      rw [insert, List.mem_singleton] at h
      exact Or.inl h
  | cons first rest ih =>
      obtain ⟨q, u⟩ := first
      rw [insert] at h
      split at h
      · rcases List.mem_cons.mp h with h | h
        · exact Or.inl h
        · exact Or.inr (List.mem_cons_of_mem _ h)
      · split at h
        · rcases List.mem_cons.mp h with h | h
          · exact Or.inl h
          · exact Or.inr h
        · rcases List.mem_cons.mp h with h | h
          · exact Or.inr (h ▸ List.mem_cons_self ..)
          · rcases ih h with h | h
            · exact Or.inl h
            · exact Or.inr (List.mem_cons_of_mem _ h)

theorem Sorted.insert {qualifier uri : String} {b : Bindings} (h : b.Sorted) :
    (insert qualifier uri b).Sorted := by
  induction b with
  | nil => exact List.pairwise_singleton _ _
  | cons first rest ih =>
      obtain ⟨q, u⟩ := first
      obtain ⟨hq, hrest⟩ := List.pairwise_cons.mp h
      rw [Bindings.insert]
      split
      · rename_i he
        subst he
        exact List.pairwise_cons.mpr ⟨hq, hrest⟩
      · rename_i hne
        split
        · rename_i hlt
          refine List.pairwise_cons.mpr ⟨fun p hp => ?_, h⟩
          rcases List.mem_cons.mp hp with rfl | hp
          · exact hlt
          · exact String.lt_trans hlt (hq p hp)
        · rename_i hnlt
          have hlt : q < qualifier := Std.lt_of_le_of_ne (String.not_lt.mp hnlt) (Ne.symm hne)
          refine List.pairwise_cons.mpr ⟨fun p hp => ?_, ih hrest⟩
          rcases mem_insert hp with rfl | hp
          · exact hlt
          · exact hq p hp

theorem Sorted.nodup {b : Bindings} (h : b.Sorted) : (b.map Prod.fst).Nodup := by
  rw [List.Nodup, List.pairwise_map]
  refine List.Pairwise.imp (fun {p q} hlt he => ?_) h
  rw [he] at hlt
  exact String.lt_irrefl _ hlt

/-! ## Lookup -/

@[simp] theorem get?_nil (q : String) : get? [] q = none := rfl

theorem get?_cons (p : String × String) (b : Bindings) (q : String) :
    get? (p :: b) q = if p.1 = q then some p.2 else get? b q := by
  rw [get?, get?]
  by_cases h : p.1 = q
  · rw [List.find?_cons_of_pos (by simp [h]), if_pos h]
    rfl
  · rw [List.find?_cons_of_neg (by simp [h]), if_neg h]

theorem get?_insert (qualifier uri q : String) (b : Bindings) :
    (insert qualifier uri b).get? q = if qualifier = q then some uri else b.get? q := by
  induction b with
  | nil => rw [insert, get?_cons]
  | cons first rest ih =>
      obtain ⟨k, u⟩ := first
      rw [insert]
      split
      · rename_i he
        subst he
        rw [get?_cons, get?_cons]
        split
        · rfl
        · rfl
      · rename_i hne
        split
        · rw [get?_cons]
        · rw [get?_cons, ih, get?_cons]
          by_cases hk : k = q
          · rw [if_pos hk, if_pos hk, if_neg (fun he => hne (he.trans hk.symm))]
          · rw [if_neg hk, if_neg hk]

theorem mem_of_get? {b : Bindings} {q u : String} (h : b.get? q = some u) : (q, u) ∈ b := by
  rw [get?, Option.map_eq_some_iff] at h
  obtain ⟨⟨k, v⟩, hp, rfl⟩ := h
  have hk := List.find?_some hp
  rw [beq_iff_eq] at hk
  subst hk
  exact List.mem_of_find?_eq_some hp

theorem get?_of_mem {b : Bindings} (hnodup : (b.map Prod.fst).Nodup) {q u : String}
    (h : (q, u) ∈ b) : b.get? q = some u := by
  induction b with
  | nil => cases h
  | cons first rest ih =>
      obtain ⟨k, v⟩ := first
      rw [List.map_cons, List.nodup_cons] at hnodup
      rw [get?_cons]
      rcases List.mem_cons.mp h with h | h
      · cases h
        rw [if_pos rfl]
      · have hne : k ≠ q := fun he => hnodup.1 (List.mem_map.mpr ⟨(q, u), h, he.symm⟩)
        rw [if_neg hne, ih hnodup.2 h]

theorem get?_eq_none_iff {b : Bindings} {q : String} :
    b.get? q = none ↔ q ∉ b.map Prod.fst := by
  rw [get?, Option.map_eq_none_iff, List.find?_eq_none, List.mem_map]
  simp only [beq_iff_eq, not_exists, not_and]

/-- Later bindings come before earlier ones. -/
theorem get?_update {other : Bindings} (h : (other.map Prod.fst).Nodup) (b : Bindings)
    (q : String) : (b.update other).get? q = (other.get? q).or (b.get? q) := by
  induction other generalizing b with
  | nil => rfl
  | cons p other ih =>
      rw [List.map_cons, List.nodup_cons] at h
      change (Bindings.update (insert p.1 p.2 b) other).get? q = _
      rw [ih h.2, get?_insert, get?_cons]
      by_cases hp : p.1 = q
      · rw [if_pos hp, if_pos hp, get?_eq_none_iff.mpr (hp ▸ h.1)]
        rfl
      · rw [if_neg hp, if_neg hp]

theorem get?_filter {b : Bindings} (h : (b.map Prod.fst).Nodup) {q u : String}
    (hq : b.get? q = some u) (keep : String × String → Bool) :
    Bindings.get? (b.filter keep) q = if keep (q, u) then some u else none := by
  have hsub : ((b.filter keep).map Prod.fst).Nodup := h.sublist (List.filter_sublist.map Prod.fst)
  split
  · rename_i hkeep
    exact get?_of_mem hsub (List.mem_filter.mpr ⟨mem_of_get? hq, hkeep⟩)
  · rename_i hkeep
    rw [get?_eq_none_iff]
    intro hm
    obtain ⟨⟨k, v⟩, hp, rfl⟩ := List.mem_map.mp hm
    obtain ⟨hb, hk⟩ := List.mem_filter.mp hp
    have hv : v = u := Option.some.inj ((get?_of_mem h hb).symm.trans hq)
    rw [hv] at hk
    exact hkeep hk

theorem Sorted.nodup_changed {b : Bindings} (h : b.Sorted) (written : Bindings) :
    ((b.changed written).map Prod.fst).Nodup :=
  h.nodup.sublist (List.filter_sublist.map Prod.fst)

theorem get?_changed {b written : Bindings} (h : (b.map Prod.fst).Nodup) {q u : String}
    (hq : b.get? q = some u) :
    (b.changed written).get? q
      = if written.get? q = some u ∨ (written.get? q = none ∧ q = "" ∧ u = "") then none
        else some u := by
  rw [changed, get?_filter h hq]
  cases hw : written.get? q with
  | some u' => by_cases hu : u' = u <;> simp [hw, hu]
  | none =>
      simp only [hw]
      by_cases hempty : q = "" <;> by_cases hu : u = "" <;> simp [hempty, hu]

/-- Once the bindings that differ are written too, what is written answers as
the bindings do, up to an empty default namespace. -/
theorem get?_update_changed {b written : Bindings} (h : b.Sorted) {q u : String}
    (hq : b.get? q = some u) :
    (written.update (b.changed written)).get? q = some u ∨
      (q = "" ∧ u = "" ∧ (written.update (b.changed written)).get? q = none) := by
  rw [get?_update (h.nodup_changed written), get?_changed h.nodup hq]
  by_cases hw : written.get? q = some u ∨ (written.get? q = none ∧ q = "" ∧ u = "")
  · rw [if_pos hw, Option.none_or]
    rcases hw with hw | ⟨hw, hempty⟩
    · exact Or.inl hw
    · exact Or.inr ⟨hempty.1, hempty.2, hw⟩
  · rw [if_neg hw]
    exact Or.inl rfl

theorem get?_declare (b : Bindings) (d : Declaration) (q : String) :
    (b.declare d).get? q
      = if d.qualifier.getD "" = q ∧ q ≠ "xml" then some d.uri else b.get? q := by
  unfold declare
  dsimp only
  by_cases hxml : d.qualifier.getD "" = "xml"
  · rw [if_pos hxml, if_neg]
    rintro ⟨rfl, hne⟩
    exact hne hxml
  · rw [if_neg hxml, get?_insert]
    by_cases hq : d.qualifier.getD "" = q
    · rw [if_pos hq, if_pos ⟨hq, hq ▸ hxml⟩]
    · rw [if_neg hq, if_neg fun h => hq h.1]

theorem Sorted.declareAll {b : Bindings} (h : b.Sorted) (ds : List Declaration) :
    (b.declareAll ds).Sorted := by
  induction ds generalizing b with
  | nil => exact h
  | cons d ds ih =>
      refine ih ?_
      unfold declare
      dsimp only
      split
      · exact h
      · exact h.insert

end Bindings

/-! ## Scopes -/

/-- Bindings answer as a scope does, for the default namespace and for every
qualifier that declarations bear on. -/
structure Mirrors (scope : Scope) (b : Bindings) : Prop where
  default : scope.lookup? none = b.get? ""
  qualified : ∀ q, q ≠ "" → q ≠ "xml" → scope.lookup? (some q) = b.get? q

theorem Mirrors.nil : Mirrors [] [] := ⟨rfl, fun _ _ _ => rfl⟩

/-- The URI that the last declaration of a qualifier gives. -/
def declaredUri? (ds : List Declaration) (qualifier : Option String) : Option String :=
  (ds.reverse.find? fun d => d.qualifier == qualifier).map Declaration.uri

theorem lookup?_cons (ds : List Declaration) (scope : Scope) (qualifier : Option String) :
    Scope.lookup? (ds :: scope) qualifier
      = (declaredUri? ds qualifier).or (scope.lookup? qualifier) := by
  rw [Scope.lookup?, List.findSome?_cons, declaredUri?]
  cases (ds.reverse.find? fun d => d.qualifier == qualifier).map Declaration.uri <;> rfl

theorem declaredUri?_concat (ds : List Declaration) (d : Declaration)
    (qualifier : Option String) :
    declaredUri? (ds ++ [d]) qualifier
      = if d.qualifier = qualifier then some d.uri else declaredUri? ds qualifier := by
  rw [declaredUri?, List.reverse_append, List.reverse_singleton, List.singleton_append]
  by_cases h : d.qualifier = qualifier
  · rw [List.find?_cons_of_pos (by simp [h]), if_pos h]
    rfl
  · rw [List.find?_cons_of_neg (by simp [h]), if_neg h]
    rfl

/-- No declaration has an empty qualifier. -/
def NamedDeclarations (ds : List Declaration) : Prop :=
  ∀ d ∈ ds, ∀ q, d.qualifier = some q → IsNamePart q

/-- Declaring in bindings mirrors entering an element. -/
theorem Mirrors.declareAll {scope : Scope} {b : Bindings} (h : Mirrors scope b)
    {ds : List Declaration} (hds : NamedDeclarations ds) :
    Mirrors (ds :: scope) (b.declareAll ds) := by
  have key : ∀ (qualifier : Option String) (q : String), qualifier.getD "" = q → q ≠ "xml" →
      (∀ q', qualifier = some q' → q' ≠ "") →
      (b.declareAll ds).get? q = (declaredUri? ds qualifier).or (b.get? q) := by
    intro qualifier q hq hxml hne
    induction ds using List.reverseRecOn with
    | nil => rfl
    | append_singleton ds d ih =>
        have hd := hds d (List.mem_append_right _ (List.mem_singleton_self d))
        rw [Bindings.declareAll, List.foldl_append, List.foldl_cons, List.foldl_nil,
          Bindings.get?_declare, declaredUri?_concat]
        by_cases he : d.qualifier = qualifier
        · rw [if_pos ⟨by rw [he, hq], hxml⟩, if_pos he]
          rfl
        · rw [if_neg, if_neg he]
          · exact ih fun d' hd' => hds d' (List.mem_append_left _ hd')
          · -- different qualifiers have different names, as none is empty
            rintro ⟨hname, -⟩
            apply he
            cases hdq : d.qualifier with
            | none =>
                rw [hdq] at hname
                cases qualifier with
                | none => rfl
                | some q' => exact absurd (hq.trans hname.symm) (hne q' rfl)
            | some q' =>
                rw [hdq] at hname
                cases qualifier with
                | none => exact absurd (hname.trans hq.symm) (hd q' hdq).1
                | some q'' => exact congrArg some (hname.trans hq.symm)
  refine ⟨?_, fun q hq hxml => ?_⟩
  · rw [lookup?_cons, key none "" rfl (by decide) (fun _ h => by cases h), h.default]
  · rw [lookup?_cons, key (some q) q rfl hxml (fun _ h => by cases h; exact hq),
      h.qualified q hq hxml]

/-- The declaration that a binding is written as. -/
def bindingDeclaration (p : String × String) : Declaration :=
  ⟨if p.1 = "" then none else some p.1, p.2⟩

theorem declaredUri?_bindings {declared : Bindings} (h : (declared.map Prod.fst).Nodup)
    {qualifier : Option String} (hne : ∀ q, qualifier = some q → q ≠ "") :
    declaredUri? (declared.map bindingDeclaration) qualifier
      = declared.get? (qualifier.getD "") := by
  have hname : ∀ p : String × String,
      (bindingDeclaration p).qualifier = qualifier ↔ p.1 = qualifier.getD "" := by
    intro p
    unfold bindingDeclaration
    cases qualifier with
    | none => simp
    | some q =>
        have hq := hne q rfl
        by_cases hp : p.1 = ""
        · simp [hp, Ne.symm hq]
        · simp [hp]
  induction declared using List.reverseRecOn with
  | nil => rfl
  | append_singleton declared p ih =>
      rw [List.map_append, List.nodup_append] at h
      rw [List.map_append, List.map_singleton, declaredUri?_concat, ih h.1]
      by_cases hp : p.1 = qualifier.getD ""
      · rw [if_pos ((hname p).mpr hp)]
        refine (Bindings.get?_of_mem ?_ ?_).symm
        · rw [List.map_append, List.nodup_append]
          exact h
        · rw [← hp]
          exact List.mem_append_right _ (List.mem_singleton_self p)
      · rw [if_neg fun he => hp ((hname p).mp he), Bindings.get?, Bindings.get?,
          List.find?_append]
        rw [List.find?_cons_of_neg (by simpa using hp), List.find?_nil, Option.or_none]

/-- Writing bindings mirrors entering the element that they are written on. -/
theorem Mirrors.update {scope : Scope} {written : Bindings} (h : Mirrors scope written)
    {declared : Bindings} (hnodup : (declared.map Prod.fst).Nodup) :
    Mirrors (declared.map bindingDeclaration :: scope) (written.update declared) := by
  refine ⟨?_, fun q hq hxml => ?_⟩
  · rw [lookup?_cons, declaredUri?_bindings hnodup (fun _ he => by cases he),
      Bindings.get?_update hnodup, h.default]
    rfl
  · rw [lookup?_cons, declaredUri?_bindings hnodup (fun _ he => by cases he; exact hq),
      Bindings.get?_update hnodup, h.qualified q hq hxml]
    rfl

end Presign.Xml
