import Presign.Proofs.Xml.Bindings
import Presign.Proofs.Xml.Document

/-!
# Canonical texts as documents

A canonical text is what the printer writes, without empty tags, for another
tree: the one with the declarations that the rule writes and the attributes in
canonical order (`Node.canonicalTrees`).  So it can be read.

The names of that tree have their namespaces in the scope that the written
declarations give.  For the inclusive rules this needs that they have them in
the document (`Tag.Fits`).  For the exclusive rule it is enough that no tag
contradicts itself, since a tag gets all the declarations that it uses.
-/

namespace Presign.Xml

/-! ## Namespaces of a scope -/

theorem spaceOf_eq_ok_iff {scope : Scope} {q u : String} :
    scope.spaceOf q = .ok u ↔
      (q = "xml" ∧ u = xmlSpace) ∨
        (q ≠ "xml" ∧ scope.lookup? (some q) = some u ∧ u ≠ "") := by
  unfold Scope.spaceOf
  by_cases hq : q = "xml"
  · rw [if_pos hq]
    constructor
    · intro h; cases h; exact Or.inl ⟨hq, rfl⟩
    · rintro (⟨-, rfl⟩ | ⟨hne, -⟩)
      · rfl
      · exact absurd hq hne
  · rw [if_neg hq]
    cases scope.lookup? (some q) with
    | none => simp [hq]
    | some v =>
        by_cases hv : v = ""
        · simp [hq, hv]
        · dsimp only
          rw [if_neg hv]
          constructor
          · intro h; cases h; exact Or.inr ⟨hq, rfl, hv⟩
          · rintro (⟨hxml, -⟩ | ⟨-, he, -⟩)
            · exact absurd hxml hq
            · cases he; rfl

theorem getD_defaultSpace (scope : Scope) :
    scope.defaultSpace.getD "" = (scope.lookup? none).getD "" := by
  unfold Scope.defaultSpace
  cases scope.lookup? none with
  | none => rfl
  | some u =>
      by_cases hu : u = ""
      · rw [hu]; rfl
      · rw [Option.filter_some, if_pos (by simpa using hu)]

/-- The default namespace is never empty, so its URI determines it. -/
theorem defaultSpace_congr {scope scope' : Scope}
    (h : scope.defaultSpace.getD "" = scope'.defaultSpace.getD "") :
    scope.defaultSpace = scope'.defaultSpace := by
  have hne : ∀ (s : Scope) (u : String), s.defaultSpace = some u → u ≠ "" := by
    intro s u hu
    have := (Option.filter_eq_some_iff.mp hu).2
    simpa using this
  cases hs : scope.defaultSpace with
  | none =>
      cases hs' : scope'.defaultSpace with
      | none => rfl
      | some u =>
          rw [hs, hs'] at h
          exact absurd h.symm (hne _ _ hs')
  | some u =>
      cases hs' : scope'.defaultSpace with
      | none =>
          rw [hs, hs'] at h
          exact absurd h (hne _ _ hs)
      | some u' =>
          rw [hs, hs'] at h
          exact congrArg some h

theorem elementName_eq_ok_iff {scope : Scope} {n : Name} :
    scope.elementName n.qualifier n.localPart = .ok n ↔
      match n.qualifier with
      | none => n.space = scope.defaultSpace
      | some q => ∃ u, n.space = some u ∧ scope.spaceOf q = .ok u := by
  obtain ⟨qualifier, localPart, space⟩ := n
  unfold Scope.elementName
  cases qualifier with
  | none =>
      dsimp only
      constructor
      · intro h; cases h; rfl
      · intro h; rw [h]
  | some q =>
      dsimp only
      constructor
      · intro h
        obtain ⟨u, hu, he⟩ := Except.bind_eq_ok.mp h
        cases he
        exact ⟨u, rfl, hu⟩
      · rintro ⟨u, rfl, hu⟩
        rw [hu]
        rfl

theorem attributeName_eq_ok_iff {scope : Scope} {n : Name} :
    scope.attributeName n.qualifier n.localPart = .ok n ↔
      match n.qualifier with
      | none => n.space = none
      | some q => ∃ u, n.space = some u ∧ scope.spaceOf q = .ok u := by
  obtain ⟨qualifier, localPart, space⟩ := n
  unfold Scope.attributeName
  cases qualifier with
  | none =>
      dsimp only
      constructor
      · intro h; cases h; rfl
      · intro h; rw [h]
  | some q =>
      dsimp only
      constructor
      · intro h
        obtain ⟨u, hu, he⟩ := Except.bind_eq_ok.mp h
        cases he
        exact ⟨u, rfl, hu⟩
      · rintro ⟨u, rfl, hu⟩
        rw [hu]
        rfl

/-! ## What a tag uses -/

/-- A binding holds in a scope. -/
structure Scope.Holds (scope : Scope) (p : String × String) : Prop where
  default : p.1 = "" → scope.defaultSpace.getD "" = p.2
  qualified : p.1 ≠ "" → scope.spaceOf p.1 = .ok p.2

/-- The bindings that an attribute uses, added to others. -/
def useAttribute (b : Bindings) (a : Attribute) : Bindings :=
  match a.name.qualifier, a.name.space with
  | some q, some uri => if q = "xml" then b else Bindings.insert q uri b
  | _, _ => b

theorem Tag.used_eq (t : Tag) :
    t.used = t.attributes.foldl useAttribute
      [(t.name.qualifier.getD "", t.name.space.getD "")] := rfl

theorem useAttribute_cases (b : Bindings) (a : Attribute) :
    useAttribute b a = b ∨
      ∃ q uri, a.name.qualifier = some q ∧ a.name.space = some uri ∧
        useAttribute b a = Bindings.insert q uri b := by
  unfold useAttribute
  split
  · rename_i q uri hq hu
    split
    · exact Or.inl rfl
    · exact Or.inr ⟨q, uri, hq, hu, rfl⟩
  · exact Or.inl rfl

theorem foldl_useAttribute_sorted (as : List Attribute) {b : Bindings} (h : b.Sorted) :
    (as.foldl useAttribute b).Sorted := by
  induction as generalizing b with
  | nil => exact h
  | cons a as ih =>
      refine ih ?_
      rcases useAttribute_cases b a with he | ⟨q, uri, -, -, he⟩
      · rw [he]; exact h
      · rw [he]; exact h.insert

theorem Tag.used_sorted (t : Tag) : t.used.Sorted := by
  rw [Tag.used_eq]
  exact foldl_useAttribute_sorted _ (List.pairwise_singleton _ _)

/-- Every binding that is used comes from the name of the tag or of an
attribute. -/
theorem mem_foldl_useAttribute {p : String × String} {as : List Attribute} {b : Bindings}
    (h : p ∈ as.foldl useAttribute b) :
    p ∈ b ∨ ∃ a ∈ as, a.name.qualifier = some p.1 ∧ a.name.space = some p.2 := by
  induction as generalizing b with
  | nil => exact Or.inl h
  | cons a as ih =>
      rw [List.foldl_cons] at h
      rcases ih h with h | ⟨a', ha', h⟩
      · rcases useAttribute_cases b a with he | ⟨q, uri, hq, hu, he⟩
        · rw [he] at h
          exact Or.inl h
        · rw [he] at h
          rcases Bindings.mem_insert h with rfl | h
          · exact Or.inr ⟨a, List.mem_cons_self .., hq, hu⟩
          · exact Or.inl h
      · exact Or.inr ⟨a', List.mem_cons_of_mem _ ha', h⟩

/-- What is used stays used when more attributes come. -/
theorem isSome_get?_foldl_useAttribute {q : String} {as : List Attribute} {b : Bindings}
    (h : (b.get? q).isSome) : (Bindings.get? (as.foldl useAttribute b) q).isSome := by
  induction as generalizing b with
  | nil => exact h
  | cons a as ih =>
      rw [List.foldl_cons]
      apply ih
      rcases useAttribute_cases b a with he | ⟨q', uri, -, -, he⟩
      · rw [he]; exact h
      · rw [he, Bindings.get?_insert]
        split
        · rfl
        · exact h

theorem Tag.isSome_used_name (t : Tag) : (t.used.get? (t.name.qualifier.getD "")).isSome := by
  rw [Tag.used_eq]
  apply isSome_get?_foldl_useAttribute
  rw [Bindings.get?_cons, if_pos rfl]
  rfl

theorem Tag.isSome_used_attribute {t : Tag} {a : Attribute} (ha : a ∈ t.attributes) {q u : String}
    (hq : a.name.qualifier = some q) (hu : a.name.space = some u) (hxml : q ≠ "xml") :
    (t.used.get? q).isSome := by
  obtain ⟨before, after, hsplit⟩ := List.append_of_mem ha
  rw [Tag.used_eq, hsplit, List.foldl_append, List.foldl_cons]
  apply isSome_get?_foldl_useAttribute
  generalize before.foldl useAttribute _ = b
  unfold useAttribute
  rw [hq, hu]
  dsimp only
  rw [if_neg hxml, Bindings.get?_insert, if_pos rfl]
  rfl

/-- What a tag uses holds where its names have their namespaces. -/
theorem Tag.used_holds {t : Tag} {scope : Scope} (h : t.IsPrintable) (hfits : t.Fits scope)
    {p : String × String} (hp : p ∈ t.used) : Scope.Holds (t.declarations :: scope) p := by
  rw [Tag.used_eq] at hp
  rcases mem_foldl_useAttribute hp with hp | ⟨a, ha, hq, hu⟩
  · rw [List.mem_singleton] at hp
    subst hp
    have hname := elementName_eq_ok_iff.mp hfits.name
    cases hq : t.name.qualifier with
    | none =>
        rw [hq] at hname
        dsimp only at hname
        exact ⟨fun _ => by rw [hname], fun hne => absurd rfl hne⟩
    | some q =>
        rw [hq] at hname
        obtain ⟨u, hu, hspace⟩ := hname
        rw [hu]
        exact ⟨fun he => absurd he (h.name.2 q hq).1, fun _ => hspace⟩
  · have hname := attributeName_eq_ok_iff.mp (hfits.attributes a ha)
    rw [hq] at hname
    obtain ⟨u, hu', hspace⟩ := hname
    rw [hu] at hu'
    cases hu'
    exact ⟨fun he => absurd he ((h.attributes a ha).1.2 _ hq).1, fun _ => hspace⟩

/-! ## Canonical tags -/

/-- The tag that a canonical form writes. -/
def Tag.canonicalTag (t : Tag) (declared : Bindings) : Tag :=
  ⟨t.name, declared.map bindingDeclaration, canonicalAttributes t.attributes⟩

theorem mem_canonicalAttributes {as : List Attribute} {a : Attribute} :
    a ∈ canonicalAttributes as ↔ a ∈ as := List.mem_mergeSort

theorem perm_canonicalAttributes (as : List Attribute) : (canonicalAttributes as).Perm as :=
  List.mergeSort_perm _ _

theorem Tag.canonicalTag_chars (t : Tag) (declared : Bindings) :
    (t.canonicalTag declared).chars ++ ['>'] = t.canonicalChars declared := by
  rw [Tag.chars, Tag.canonicalChars, Tag.canonicalTag, List.flatMap_map]
  rfl

theorem key_bindingDeclaration (p : String × String) :
    (bindingDeclaration p).key = if p.1 = "" then "xmlns" else "xmlns:" ++ p.1 := by
  unfold bindingDeclaration Declaration.key
  by_cases h : p.1 = ""
  · rw [if_pos h, if_pos h]
  · rw [if_neg h, if_neg h]

theorem key_bindingDeclaration_inj {p q : String × String}
    (h : (bindingDeclaration p).key = (bindingDeclaration q).key) : p.1 = q.1 := by
  have hne : ∀ s : String, "xmlns" ≠ "xmlns:" ++ s := by
    intro s he
    have := congrArg String.length he
    rw [String.length_append, show "xmlns".length = 5 from rfl,
      show "xmlns:".length = 6 from rfl] at this
    omega
  rw [key_bindingDeclaration, key_bindingDeclaration] at h
  split at h
  · rename_i hp
    split at h
    · rename_i hq
      rw [hp, hq]
    · exact absurd h (hne _)
  · split at h
    · exact absurd h.symm (hne _)
    · have := congrArg String.toList h
      rw [String.toList_append, String.toList_append, List.append_cancel_left_eq] at this
      exact String.toList_inj.mp this

/-- A canonical tag can be written and read. -/
theorem Tag.canonicalTag_isPrintable {t : Tag} (h : t.IsPrintable) {declared : Bindings}
    (hnodup : (declared.map Prod.fst).Nodup)
    (hnamed : ∀ p ∈ declared, p.1 = "" ∨ IsNamePart p.1) :
    (t.canonicalTag declared).IsPrintable := by
  have hdeclared : ∀ d ∈ declared.map bindingDeclaration, ∀ q, d.qualifier = some q →
      IsNamePart q := by
    intro d hd q hq
    obtain ⟨p, hp, rfl⟩ := List.mem_map.mp hd
    unfold bindingDeclaration at hq
    dsimp only at hq
    split at hq
    · cases hq
    · rename_i hne
      cases hq
      exact (hnamed p hp).resolve_left hne
  refine ⟨h.name, hdeclared, fun a ha => h.attributes a (mem_canonicalAttributes.mp ha), ?_⟩
  rw [Tag.written, List.map_append, List.nodup_append]
  refine ⟨?_, ?_, ?_⟩
  · rw [Tag.canonicalTag, List.map_map, List.map_map]
    rw [List.Nodup, List.pairwise_map] at hnodup ⊢
    exact hnodup.imp fun hne he => hne (key_bindingDeclaration_inj he)
  · have hattributes := (List.nodup_append.mp ((List.map_append ..).symm ▸ h.nodup)).2.1
    rw [List.map_map] at hattributes ⊢
    exact ((perm_canonicalAttributes t.attributes).map _).nodup_iff.mpr hattributes
  · intro key hk key' hk' he
    subst he
    rw [List.map_map] at hk hk'
    obtain ⟨d, hd, hkey⟩ := List.mem_map.mp hk
    obtain ⟨a, ha, hkey'⟩ := List.mem_map.mp hk'
    have hsome := declaration?_key (hdeclared d hd)
    have hnone := h.declaration?.2 a (mem_canonicalAttributes.mp ha)
    rw [declaration?_eq_none_iff _ _ none] at hnone
    have : declaration? d.key d.uri = none := by
      rw [declaration?_eq_none_iff _ _ none, show d.key = a.name.qualified from
        hkey.trans hkey'.symm]
      exact hnone
    rw [hsome] at this
    cases this

/-- What is written answers for everything that is used, an empty default
namespace apart. -/
def Answers (written used : Bindings) : Prop :=
  ∀ q u, used.get? q = some u → q ≠ "xml" →
    written.get? q = some u ∨ (q = "" ∧ u = "" ∧ written.get? q = none)

section Fits

variable {t : Tag} {scope scope' : Scope} {written : Bindings}

/-- The default namespace of a tag without qualifier is found where what is
written answers. -/
theorem defaultSpace_of_answers (h : t.IsPrintable) (hfits : t.Fits scope)
    (hmirrors : Mirrors scope' written) (hanswers : Answers written t.used)
    (hq : t.name.qualifier = none) :
    Scope.defaultSpace scope' = Scope.defaultSpace (t.declarations :: scope) := by
  have hsome := t.isSome_used_name
  rw [hq] at hsome
  obtain ⟨u, hu⟩ := Option.isSome_iff_exists.mp hsome
  have hholds := (t.used_holds h hfits (Bindings.mem_of_get? hu)).default rfl
  apply defaultSpace_congr
  rw [hholds, getD_defaultSpace, hmirrors.default]
  rcases hanswers _ _ hu (by decide) with hw | ⟨-, hempty, hw⟩
  · rw [show written.get? "" = some u from hw]
    rfl
  · rw [show written.get? "" = none from hw, hempty]
    rfl

/-- So is the namespace of a qualifier that the tag uses. -/
theorem spaceOf_of_answers (h : t.IsPrintable) (hfits : t.Fits scope)
    (hmirrors : Mirrors scope' written) (hanswers : Answers written t.used) {q u : String}
    (hq : q ≠ "") (hsome : q ≠ "xml" → (t.used.get? q).isSome)
    (hu : Scope.spaceOf (t.declarations :: scope) q = .ok u) : Scope.spaceOf scope' q = .ok u := by
  rw [spaceOf_eq_ok_iff] at hu ⊢
  rcases hu with hu | ⟨hxml, hlookup, hne⟩
  · exact Or.inl hu
  · obtain ⟨v, hv⟩ := Option.isSome_iff_exists.mp (hsome hxml)
    have hholds := (t.used_holds h hfits (Bindings.mem_of_get? hv)).qualified hq
    rw [spaceOf_eq_ok_iff] at hholds
    rcases hholds with ⟨hx, -⟩ | ⟨-, hlookup', -⟩
    · exact absurd hx hxml
    · have huv : u = v := Option.some.inj (hlookup.symm.trans hlookup')
      refine Or.inr ⟨hxml, ?_, hne⟩
      rw [hmirrors.qualified q hq hxml, huv]
      exact (hanswers q v hv hxml).resolve_right fun hn => hq hn.1

/-- The names of a canonical tag have their namespaces where what is written
answers. -/
theorem Tag.canonicalTag_fits (h : t.IsPrintable) (hfits : t.Fits scope) {declared : Bindings}
    (hmirrors : Mirrors (declared.map bindingDeclaration :: scope') written)
    (hanswers : Answers written t.used) : (t.canonicalTag declared).Fits scope' := by
  refine ⟨elementName_eq_ok_iff.mpr ?_, fun a ha => attributeName_eq_ok_iff.mpr ?_⟩
  · have hname := elementName_eq_ok_iff.mp hfits.name
    dsimp only [Tag.canonicalTag]
    cases hq : t.name.qualifier with
    | none =>
        rw [hq] at hname
        dsimp only at hname ⊢
        rw [defaultSpace_of_answers h hfits hmirrors hanswers hq, hname]
    | some q =>
        rw [hq] at hname
        obtain ⟨u, hu, hspace⟩ := hname
        have hsome := t.isSome_used_name
        rw [hq] at hsome
        exact ⟨u, hu, spaceOf_of_answers h hfits hmirrors hanswers (h.name.2 q hq).1
          (fun _ => hsome) hspace⟩
  · have ha' := mem_canonicalAttributes.mp ha
    have hname := attributeName_eq_ok_iff.mp (hfits.attributes a ha')
    dsimp only [Tag.canonicalTag]
    cases hq : a.name.qualifier with
    | none => rw [hq] at hname; exact hname
    | some q =>
        rw [hq] at hname
        obtain ⟨u, hu, hspace⟩ := hname
        exact ⟨u, hu, spaceOf_of_answers h hfits hmirrors hanswers
          ((h.attributes a ha').1.2 q hq).1
          (fun hxml => Tag.isSome_used_attribute ha' hq hu hxml) hspace⟩

end Fits

/-! ## Surroundings -/

theorem get?_declareAll_isSome {q : String} (ds : List Declaration) {b : Bindings}
    (h : (b.get? q).isSome) : ((b.declareAll ds).get? q).isSome := by
  induction ds generalizing b with
  | nil => exact h
  | cons d ds ih =>
      have hd : ((b.declare d).get? q).isSome := by
        rw [Bindings.get?_declare]
        split
        · rfl
        · exact h
      exact ih hd

theorem named_declareAll (ds : List Declaration) {b : Bindings} (hds : NamedDeclarations ds)
    (h : ∀ p ∈ b, p.1 = "" ∨ IsNamePart p.1) :
    ∀ p ∈ b.declareAll ds, p.1 = "" ∨ IsNamePart p.1 := by
  induction ds generalizing b with
  | nil => exact h
  | cons d ds ih =>
      refine ih (fun d' hd' => hds d' (List.mem_cons_of_mem _ hd')) ?_
      intro p hp
      unfold Bindings.declare at hp
      dsimp only at hp
      split at hp
      · exact h p hp
      · rcases Bindings.mem_insert hp with rfl | hp
        · cases hq : d.qualifier with
          | none => exact Or.inl rfl
          | some q => exact Or.inr (hds d (List.mem_cons_self ..) q hq)
        · exact h p hp

theorem Tag.named_used {t : Tag} (h : t.IsPrintable) : ∀ p ∈ t.used, p.1 = "" ∨ IsNamePart p.1 := by
  intro p hp
  rw [Tag.used_eq] at hp
  rcases mem_foldl_useAttribute hp with hp | ⟨a, ha, hq, -⟩
  · rw [List.mem_singleton] at hp
    subst hp
    cases hq : t.name.qualifier with
    | none => exact Or.inl rfl
    | some q => exact Or.inr (h.name.2 q hq)
  · exact Or.inr ((h.attributes a ha).1.2 _ hq)

/-- What surrounds a node that is put into canonical form: the bindings in scope
are those of the scope in the document, if the rule looks at them, and the
bindings written are those of the scope that is written. -/
structure Surrounds (rule : CanonicalRule) (scope scope' : Scope) (b written : Bindings) :
    Prop where
  sorted : b.Sorted
  named : ∀ p ∈ b, p.1 = "" ∨ IsNamePart p.1
  mirrors : rule ≠ .exclusive → Mirrors scope b
  covers : rule ≠ .exclusive → ∀ q, (written.get? q).isSome → (b.get? q).isSome
  mirrorsWritten : Mirrors scope' written

/-- A tag that keeps the namespaces of its names under a rule. -/
def Tag.IsKept (rule : CanonicalRule) (scope : Scope) (t : Tag) : Prop :=
  match rule with
  | .exclusive => ∃ scope, t.Fits scope
  | _ => t.Fits scope

section Step

variable {t : Tag} {scope scope' : Scope} {b written : Bindings}

/-- Under an inclusive rule, what is written answers because it is what is in
scope. -/
theorem answers_inclusive (h : t.IsPrintable) (hfits : t.Fits scope) (hsorted : b.Sorted)
    (hmirrors : Mirrors (t.declarations :: scope) b)
    (hcovers : ∀ q, (written.get? q).isSome → (b.get? q).isSome) :
    Answers (written.update (b.changed written)) t.used := by
  intro q u hu hxml
  have hholds := t.used_holds h hfits (Bindings.mem_of_get? hu)
  by_cases hq : q = ""
  · subst hq
    have hspace := hholds.default rfl
    rw [getD_defaultSpace, hmirrors.default] at hspace
    cases hb : b.get? "" with
    | some v =>
        rw [hb] at hspace
        cases hspace
        exact Bindings.get?_update_changed hsorted hb
    | none =>
        rw [hb] at hspace
        refine Or.inr ⟨rfl, hspace.symm, ?_⟩
        have hchanged : (b.changed written).get? "" = none := by
          rw [Bindings.get?_eq_none_iff] at hb ⊢
          exact fun hm => hb ((List.filter_sublist.map Prod.fst).subset hm)
        have hwritten : written.get? "" = none := by
          cases hw : written.get? "" with
          | none => rfl
          | some v =>
              have := hcovers "" (by rw [hw]; rfl)
              rw [hb] at this
              cases this
        rw [Bindings.get?_update (hsorted.nodup_changed written), hchanged, hwritten]
        rfl
  · have hspace := spaceOf_eq_ok_iff.mp (hholds.qualified hq)
    rcases hspace with ⟨hx, -⟩ | ⟨-, hlookup, -⟩
    · exact absurd hx hxml
    · rw [hmirrors.qualified q hq hxml] at hlookup
      exact Bindings.get?_update_changed hsorted hlookup

/-- Under the exclusive rule, what is written answers because it is what the
tag uses. -/
theorem answers_exclusive : Answers (written.update (t.used.changed written)) t.used :=
  fun _ _ hu _ => Bindings.get?_update_changed t.used_sorted hu

/-- Both rules write some of a sorted list of bindings. -/
theorem exists_canonicalBindings_eq (h : t.IsPrintable) (hsorted : b.Sorted)
    (hnamed : ∀ p ∈ b, p.1 = "" ∨ IsNamePart p.1) (rule : CanonicalRule) (written : Bindings) :
    ∃ source : Bindings, source.Sorted ∧ (∀ p ∈ source, p.1 = "" ∨ IsNamePart p.1) ∧
      t.canonicalBindings rule b written = source.changed written := by
  cases rule with
  | inclusive10 => exact ⟨_, hsorted, hnamed, rfl⟩
  | inclusive11 => exact ⟨_, hsorted, hnamed, rfl⟩
  | exclusive => exact ⟨_, t.used_sorted, Tag.named_used h, rfl⟩

theorem canonicalBindings_of_ne {rule : CanonicalRule} (hne : rule ≠ .exclusive) (t : Tag)
    (b written : Bindings) : t.canonicalBindings rule b written = b.changed written := by
  cases rule with
  | inclusive10 => rfl
  | inclusive11 => rfl
  | exclusive => exact absurd rfl hne

namespace Surrounds

variable {rule : CanonicalRule} (h : Surrounds rule scope scope' b written)
include h

theorem sorted_inside : (b.declareAll t.declarations).Sorted := h.sorted.declareAll t.declarations

/-- What is written inside is bound inside. -/
theorem covers_inside (hne : rule ≠ .exclusive) {q : String}
    (hq : ((written.update
      (t.canonicalBindings rule (b.declareAll t.declarations) written)).get? q).isSome) :
    ((b.declareAll t.declarations).get? q).isSome := by
  have hsorted : (b.declareAll t.declarations).Sorted := h.sorted_inside
  rw [canonicalBindings_of_ne hne, Bindings.get?_update (hsorted.nodup_changed written)] at hq
  cases hc : ((b.declareAll t.declarations).changed written).get? q with
  | none =>
      rw [hc, Option.none_or] at hq
      exact get?_declareAll_isSome t.declarations (h.covers hne q hq)
  | some u =>
      have hmem := (List.mem_filter.mp (Bindings.mem_of_get? hc)).1
      rw [Bindings.get?_of_mem hsorted.nodup hmem]
      rfl

/-- What is written inside of a tag answers for its names. -/
theorem exists_answers (hprint : t.IsPrintable) (hkept : t.IsKept rule scope) :
    ∃ scope, t.Fits scope ∧
      Answers (written.update
        (t.canonicalBindings rule (b.declareAll t.declarations) written)) t.used := by
  by_cases hrule : rule = .exclusive
  · subst hrule
    obtain ⟨s, hs⟩ := hkept
    exact ⟨s, hs, answers_exclusive⟩
  · have hfits : t.Fits scope := by
      cases rule with
      | inclusive10 => exact hkept
      | inclusive11 => exact hkept
      | exclusive => exact absurd rfl hrule
    rw [canonicalBindings_of_ne hrule]
    refine ⟨scope, hfits, answers_inclusive hprint hfits h.sorted_inside
      ((h.mirrors hrule).declareAll hprint.declared) fun q hq => ?_⟩
    exact get?_declareAll_isSome t.declarations (h.covers hrule q hq)

/-- Entering an element keeps what surrounds, and the canonical tag is read
there. -/
theorem enter (hprint : t.IsPrintable) (hkept : t.IsKept rule scope) :
    (t.canonicalTag (t.canonicalBindings rule (b.declareAll t.declarations) written)).IsPrintable ∧
      (t.canonicalTag
        (t.canonicalBindings rule (b.declareAll t.declarations) written)).Fits scope' ∧
      Surrounds rule (t.declarations :: scope)
        ((t.canonicalBindings rule (b.declareAll t.declarations) written).map bindingDeclaration
          :: scope')
        (b.declareAll t.declarations)
        (written.update (t.canonicalBindings rule (b.declareAll t.declarations) written)) := by
  have hsorted : (b.declareAll t.declarations).Sorted := h.sorted_inside
  have hnamed := named_declareAll _ hprint.declared h.named
  obtain ⟨source, hsource, hsourceNamed, he⟩ :=
    exists_canonicalBindings_eq hprint hsorted hnamed rule written
  have hnodup : ((t.canonicalBindings rule (b.declareAll t.declarations) written).map
      Prod.fst).Nodup := by
    rw [he]
    exact hsource.nodup_changed written
  have hdeclared : ∀ p ∈ t.canonicalBindings rule (b.declareAll t.declarations) written,
      p.1 = "" ∨ IsNamePart p.1 := by
    rw [he]
    exact fun p hp => hsourceNamed p (List.mem_filter.mp hp).1
  have hmirrors := h.mirrorsWritten.update hnodup
  obtain ⟨s, hs, hanswers⟩ := h.exists_answers hprint hkept
  exact ⟨Tag.canonicalTag_isPrintable hprint hnodup hdeclared,
    Tag.canonicalTag_fits hprint hs hmirrors hanswers, hsorted, hnamed,
    fun hne => (h.mirrors hne).declareAll hprint.declared, fun hne _ => h.covers_inside hne,
    hmirrors⟩

end Surrounds

end Step

/-! ## Canonical trees -/

mutual

/-- The nodes that are written for a node in canonical form. -/
def Node.canonicalTrees (m : CanonicalMethod) (scope written : Bindings) : Node → List Node
  | .element tag children =>
    let scope := scope.declareAll tag.declarations
    let declared := tag.canonicalBindings m.rule scope written
    [.element (tag.canonicalTag declared)
      (canonicalForest m scope (written.update declared) children)]
  | .text s => [.text s]
  | .comment s => if m.comments then [.comment s] else []
  | .instruction target data => [.instruction target data]

/-- The nodes that are written for nodes in canonical form. -/
def canonicalForest (m : CanonicalMethod) (scope written : Bindings) : List Node → List Node
  | [] => []
  | n :: ns => n.canonicalTrees m scope written ++ canonicalForest m scope written ns

end

/-- The element that is written for an element in canonical form. -/
def Element.canonicalTree (m : CanonicalMethod) (scope written : Bindings) (e : Element) :
    Element :=
  let scope := scope.declareAll e.tag.declarations
  let declared := e.tag.canonicalBindings m.rule scope written
  ⟨e.tag.canonicalTag declared, canonicalForest m scope (written.update declared) e.children⟩

theorem Element.canonicalTrees_coe (m : CanonicalMethod) (scope written : Bindings)
    (e : Element) :
    Node.canonicalTrees m scope written e = [↑(e.canonicalTree m scope written)] := rfl

theorem nodesCharsWith_append (short : Bool) (ns ms : List Node) :
    nodesCharsWith short (ns ++ ms) = nodesCharsWith short ns ++ nodesCharsWith short ms := by
  induction ns with
  | nil => rfl
  | cons n ns ih =>
      rw [List.cons_append, nodesCharsWith, nodesCharsWith, ih, List.append_assoc]

mutual

/-- The canonical text of a node is its canonical tree as it is written. -/
theorem Node.charsWith_canonicalTrees (m : CanonicalMethod) :
    ∀ (n : Node) (scope written : Bindings),
      nodesCharsWith false (n.canonicalTrees m scope written) = n.canonicalChars m scope written
  | .element tag children, scope, written => by
      rw [Node.canonicalTrees, Node.canonicalChars, nodesCharsWith, nodesCharsWith, List.append_nil,
        Node.charsWith, nodesCharsWith_canonicalForest, ← Tag.canonicalTag_chars]
      simp only [Bool.false_and, Bool.false_eq_true, if_false]
      simp [Tag.endChars, Tag.canonicalTag]
  | .text s, _, _ => by
      rw [Node.canonicalTrees, Node.canonicalChars, nodesCharsWith, nodesCharsWith, List.append_nil,
        Node.charsWith]
  | .comment s, _, _ => by
      rw [Node.canonicalTrees, Node.canonicalChars]
      split
      · rw [nodesCharsWith, nodesCharsWith, List.append_nil, Node.charsWith]
      · rw [nodesCharsWith]
  | .instruction target data, _, _ => by
      rw [Node.canonicalTrees, Node.canonicalChars, nodesCharsWith, nodesCharsWith, List.append_nil,
        Node.charsWith]

theorem nodesCharsWith_canonicalForest (m : CanonicalMethod) :
    ∀ (ns : List Node) (scope written : Bindings),
      nodesCharsWith false (canonicalForest m scope written ns) = canonicalNodes m scope written ns
  | [], _, _ => by rw [canonicalForest, canonicalNodes, nodesCharsWith]
  | n :: ns, scope, written => by
      rw [canonicalForest, canonicalNodes, nodesCharsWith_append, Node.charsWith_canonicalTrees,
        nodesCharsWith_canonicalForest]

end

/-- A node that can be written and keeps its namespaces under a rule. -/
def Node.IsKept (rule : CanonicalRule) (scope : Scope) (n : Node) : Prop :=
  n.IsPrintable ∧ match n with
    | .element tag _ => tag.IsKept rule scope
    | _ => True

mutual

/-- A canonical tree is read as it is, where what is written around is. -/
theorem Node.canonicalTrees_isReadable {m : CanonicalMethod} :
    ∀ {n : Node} {scope scope' : Scope} {b written : Bindings},
      n.All (Node.IsKept m.rule) scope → Surrounds m.rule scope scope' b written →
      AllNodes Node.IsReadable scope' (n.canonicalTrees m b written)
  | .element tag children, scope, scope', b, written, h, hsurrounds => by
      obtain ⟨hprint, hfits, henter⟩ := hsurrounds.enter h.here.1 h.here.2
      rw [Node.canonicalTrees, AllNodes, AllNodes]
      exact ⟨Node.all_element.mpr ⟨⟨hprint, hfits⟩,
        canonicalForest_isReadable h.children henter⟩, trivial⟩
  | .text s, _, _, _, _, h, _ => by
      rw [Node.canonicalTrees, AllNodes, AllNodes]
      exact ⟨⟨trivial, trivial⟩, trivial⟩
  | .comment s, _, _, _, _, h, _ => by
      rw [Node.canonicalTrees]
      split
      · rw [AllNodes, AllNodes]
        exact ⟨⟨h.here.1, trivial⟩, trivial⟩
      · rw [AllNodes]
        trivial
  | .instruction target data, _, _, _, _, h, _ => by
      rw [Node.canonicalTrees, AllNodes, AllNodes]
      exact ⟨⟨h.here.1, trivial⟩, trivial⟩

theorem canonicalForest_isReadable {m : CanonicalMethod} :
    ∀ {ns : List Node} {scope scope' : Scope} {b written : Bindings},
      AllNodes (Node.IsKept m.rule) scope ns → Surrounds m.rule scope scope' b written →
      AllNodes Node.IsReadable scope' (canonicalForest m b written ns)
  | [], _, _, _, _, _, _ => by
      rw [canonicalForest, AllNodes]
      trivial
  | n :: ns, _, _, _, _, h, hsurrounds => by
      rw [AllNodes] at h
      rw [canonicalForest]
      exact (Node.canonicalTrees_isReadable h.1 hsurrounds).append
        (canonicalForest_isReadable h.2 hsurrounds)

end

/-- A canonical text is read as the canonical tree, with its texts joined. -/
theorem Element.read_canonicalInScope {m : CanonicalMethod} {e : Element} {scope : Scope}
    {inherited : List Declaration} (h : Node.All (Node.IsKept m.rule) scope e)
    (hnamed : NamedDeclarations inherited)
    (hmirrors : m.rule ≠ .exclusive → Mirrors scope (Bindings.declareAll [] inherited)) :
    Element.read (Text.encode (e.canonicalInScope m inherited))
      = .ok (e.canonicalTree m (Bindings.declareAll [] inherited) []).joined := by
  have hsurrounds : Surrounds m.rule scope [] (Bindings.declareAll [] inherited) [] := by
    refine ⟨Bindings.Sorted.declareAll List.Pairwise.nil _,
      named_declareAll _ hnamed (fun p hp => by cases hp), hmirrors, fun _ q hq => ?_, Mirrors.nil⟩
    rw [Bindings.get?_nil] at hq
    cases hq
  have hreadable := Node.canonicalTrees_isReadable h hsurrounds
  rw [Element.canonicalTrees_coe, AllNodes] at hreadable
  have hchars := Node.charsWith_canonicalTrees m e (Bindings.declareAll [] inherited) []
  rw [Element.canonicalTrees_coe, nodesCharsWith, nodesCharsWith, List.append_nil] at hchars
  rw [Element.canonicalInScope, ← hchars, Element.read_charsWith hreadable.1]

end Presign.Xml
