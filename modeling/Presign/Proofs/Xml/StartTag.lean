import Mathlib.Data.List.Nodup
import Presign.Proofs.Except
import Presign.Proofs.Text.Search
import Presign.Proofs.Xml.Characters

/-!
# Start tags that are written and read

A tag is written as its name, its declarations and its attributes.  Reading
this text finds the same parts again.  Only the namespaces are found anew, in
the scope where the tag stands.  `Tag.resolve` is that search, and
`Tag.read_inside` is the main statement: reading a written tag resolves it.

This needs names that markup cannot cut (`Name.IsPlain`), attributes that are
no declarations, and no name twice.  `Tag.IsPrintable` collects this.
-/

namespace Presign.Xml

/-! ## Names -/

/-- Whether a character has a meaning in tags, or stands between the parts of
a name. -/
def isMarkup (c : Char) : Bool :=
  Token.isBlank c || ['<', '>', '/', '=', '&', '\x22', '\x27', '!', '?', ':'].contains c

/-- A part of a name.  It is not empty and has no character with a meaning in
tags.  Every name without colon that XML allows is one. -/
def IsNamePart (s : String) : Prop := s ≠ "" ∧ ∀ c ∈ s.toList, isMarkup c = false

instance (s : String) : Decidable (IsNamePart s) :=
  decidable_of_iff (s ≠ "" ∧ s.toList.all (fun c => !isMarkup c) = true) (by simp [IsNamePart])

/-- A name whose parts are parts of names. -/
def Name.IsPlain (n : Name) : Prop :=
  IsNamePart n.localPart ∧ ∀ q, n.qualifier = some q → IsNamePart q

instance (n : Name) : Decidable n.IsPlain :=
  inferInstanceAs (Decidable (IsNamePart n.localPart ∧ ∀ q ∈ n.qualifier, IsNamePart q))

theorem IsNamePart.not_mem {s : String} (h : IsNamePart s) {c : Char} (hc : isMarkup c = true) :
    c ∉ s.toList := by
  intro hm
  rw [h.2 c hm] at hc
  cases hc

theorem ne_of_isMarkup {c d : Char} (h : isMarkup c = false) (hd : isMarkup d = true) :
    c ≠ d := by
  rintro rfl
  rw [h] at hd
  cases hd

theorem isBlank_of_isMarkup {c : Char} (h : isMarkup c = false) : Token.isBlank c = false := by
  unfold isMarkup at h
  rw [Bool.or_eq_false_iff] at h
  exact h.1

theorem Name.eq_of_parts {n n' : Name} (hqualifier : n.qualifier = n'.qualifier)
    (hlocal : n.localPart = n'.localPart) (hspace : n.space = n'.space) : n = n' := by
  cases n
  cases n'
  cases hqualifier
  cases hlocal
  cases hspace
  rfl

/-- The characters of a written name: those of its parts and one colon. -/
theorem Name.mem_qualified {n : Name} (h : n.IsPlain) {c : Char} (hm : c ∈ n.qualified.toList) :
    isMarkup c = false ∨ c = ':' := by
  unfold Name.qualified at hm
  split at hm
  · rename_i q hq
    rw [String.toList_append, String.toList_append, List.mem_append, List.mem_append] at hm
    rcases hm with (hm | hm) | hm
    · exact Or.inl ((h.2 q hq).2 c hm)
    · exact Or.inr (by simpa using hm)
    · exact Or.inl (h.1.2 c hm)
  · exact Or.inl (h.1.2 c hm)

theorem Name.qualified_ne_nil {n : Name} (h : n.IsPlain) : n.qualified.toList ≠ [] := by
  have hl : n.localPart.toList ≠ [] := fun he => h.1.1 (String.toList_inj.mp he)
  unfold Name.qualified
  split
  · rw [String.toList_append]
    exact List.append_ne_nil_of_right_ne_nil _ hl
  · exact hl

/-- A written name is cut into its parts. -/
theorem splitName_qualified {n : Name} (h : n.IsPlain) :
    splitName n.qualified = (n.qualifier, n.localPart) := by
  have hcolon : isMarkup ':' = true := by decide
  unfold splitName Name.qualified
  cases hq : n.qualifier with
  | some q =>
      have hl : (q ++ ":" ++ n.localPart).toList = q.toList ++ ':' :: n.localPart.toList := by
        rw [String.toList_append, String.toList_append, List.append_assoc]
        rfl
      dsimp only
      rw [hl, Text.aroundChar?_append ((h.2 q hq).not_mem hcolon)]
      simp only [String.ofList_toList]
  | none =>
      dsimp only
      rw [Text.aroundChar?_eq_none (h.1.not_mem hcolon)]

/-- The parts of a written name give it back. -/
theorem qualified_splitName (key : String) (space : Option String) :
    (Name.mk (splitName key).1 (splitName key).2 space).qualified = key := by
  unfold splitName
  split
  · rename_i q l h
    obtain ⟨hk, -⟩ := Text.aroundChar?_eq_some h
    apply String.toList_inj.mp
    rw [hk]
    simp [Name.qualified]
  · rfl

/-! ## What a tag is written as -/

/-- The name of the attribute that a declaration is written as. -/
def Declaration.key (d : Declaration) : String :=
  match d.qualifier with
  | some q => "xmlns:" ++ q
  | none => "xmlns"

theorem Declaration.chars_eq (d : Declaration) : d.chars = attributeChars d.key d.uri := by
  cases h : d.qualifier with
  | some q => simp only [Declaration.chars, Declaration.key, h]
  | none => simp only [Declaration.chars, Declaration.key, h]

/-- Whether an attribute with a name would be a declaration. -/
def Name.declares (n : Name) : Bool :=
  n.qualifier == some "xmlns" || (n.qualifier == none && n.localPart == "xmlns")

/-- Everything that a tag is written with behind its name. -/
def Tag.written (t : Tag) : List (String × String) :=
  t.declarations.map (fun d => (d.key, d.uri))
    ++ t.attributes.map fun a => (a.name.qualified, a.value)

/-- Names and values as they are written. -/
def pairsChars (ps : List (String × String)) : List Char :=
  ps.flatMap fun p => attributeChars p.1 p.2

/-- A tag without its brackets. -/
def Tag.inside (t : Tag) : List Char := t.name.qualified.toList ++ pairsChars t.written

theorem Tag.chars_eq (t : Tag) : t.chars = '<' :: t.inside := by
  have hd : t.declarations.flatMap Declaration.chars
      = pairsChars (t.declarations.map fun d => (d.key, d.uri)) := by
    rw [pairsChars, List.flatMap_map]
    exact congrArg (fun f => t.declarations.flatMap f) (funext Declaration.chars_eq)
  have ha : t.attributes.flatMap Attribute.chars
      = pairsChars (t.attributes.map fun a => (a.name.qualified, a.value)) := by
    rw [pairsChars, List.flatMap_map]
    rfl
  rw [Tag.chars, hd, ha, Tag.inside, Tag.written, pairsChars, pairsChars, pairsChars,
    List.flatMap_append, List.cons_append, List.cons_append, List.append_assoc]

/-- A tag that can be written and read. -/
structure Tag.IsPrintable (t : Tag) : Prop where
  /-- Its name cannot be cut. -/
  name : t.name.IsPlain
  /-- Neither can the qualifiers it declares. -/
  declared : ∀ d ∈ t.declarations, ∀ q, d.qualifier = some q → IsNamePart q
  /-- Neither can the names of its attributes, and none is a declaration. -/
  attributes : ∀ a ∈ t.attributes, a.name.IsPlain ∧ a.name.declares = false
  /-- No name is written twice. -/
  nodup : (t.written.map Prod.fst).Nodup

/-! ## Attributes -/

/-- A text that is taken as the name of an attribute. -/
def IsKey (key : String) : Prop := key.toList ≠ [] ∧ ∀ c ∈ key.toList, isKeyChar c = true

theorem isKeyChar_of_isMarkup {c : Char} (h : isMarkup c = false ∨ c = ':') :
    isKeyChar c = true := by
  rcases h with h | rfl
  · unfold isKeyChar
    rw [isBlank_of_isMarkup h]
    have hne : c ≠ '=' := ne_of_isMarkup h (by decide)
    simp [hne]
  · decide

theorem Name.isKey {n : Name} (h : n.IsPlain) : IsKey n.qualified :=
  ⟨n.qualified_ne_nil h, fun _ hm => isKeyChar_of_isMarkup (n.mem_qualified h hm)⟩

theorem isPlain_xmlns {q : String} (h : IsNamePart q) :
    (Name.mk (some "xmlns") q none).IsPlain := by
  refine ⟨h, fun q' hq' => ?_⟩
  cases hq'
  decide

/-- A declaration is written under a name. -/
theorem Declaration.exists_key_eq {d : Declaration}
    (h : ∀ q, d.qualifier = some q → IsNamePart q) :
    ∃ n : Name, n.IsPlain ∧ d.key = n.qualified := by
  unfold Declaration.key
  split
  · rename_i q hq
    exact ⟨_, isPlain_xmlns (h q hq), rfl⟩
  · exact ⟨⟨none, "xmlns", none⟩, by decide, rfl⟩

theorem Declaration.isKey {d : Declaration} (h : ∀ q, d.qualifier = some q → IsNamePart q) :
    IsKey d.key := by
  obtain ⟨n, hn, hkey⟩ := Declaration.exists_key_eq h
  rw [hkey]
  exact n.isKey hn

/-- Everything that is written behind the name of a printable tag has a
name. -/
theorem Tag.IsPrintable.isKey {t : Tag} (h : t.IsPrintable) {p : String × String}
    (hp : p ∈ t.written) : IsKey p.1 := by
  rw [Tag.written, List.mem_append, List.mem_map, List.mem_map] at hp
  rcases hp with ⟨d, hd, rfl⟩ | ⟨a, ha, rfl⟩
  · exact Declaration.isKey (h.declared d hd)
  · exact Name.isKey (h.attributes a ha).1

/-- A written attribute is read up to its closing quotes. -/
theorem attribute?_append {first : Char} {more : List Char}
    (hmore : ∀ c ∈ more, isKeyChar c = true) (value : String) (rest : List Char) :
    attribute? first (more ++ '=' :: '\x22' ::
        (value.toList.flatMap escapeValueChar ++ '\x22' :: rest))
      = some (⟨first :: more, value.toList.flatMap escapeValueChar⟩, rest) := by
  have hequals : isKeyChar '=' = false := by decide
  have hvalue : Text.aroundChar? '\x22' (value.toList.flatMap escapeValueChar ++ '\x22' :: rest)
      = some (value.toList.flatMap escapeValueChar, rest) :=
    Text.aroundChar?_append (fun hm => (mem_escapeValue hm).1 rfl) rest
  have hstop (c : Char) (hc : Token.isBlank c = false) (cs : List Char) :
      (c :: cs).dropWhile Token.isBlank = c :: cs :=
    List.dropWhile_cons_of_neg (by simp [hc])
  rw [attribute?, List.dropWhile_append_of_pos hmore, List.takeWhile_append_of_pos hmore,
    List.dropWhile_cons_of_neg (by simp [hequals]),
    List.takeWhile_cons_of_neg (by simp [hequals]), List.append_nil, hstop '=' (by decide)]
  change (quotedValue? (('\x22' :: _).dropWhile Token.isBlank)).map _ = _
  rw [hstop '\x22' (by decide), quotedValue?, if_pos (Or.inr rfl), hvalue]
  rfl

/-- One written attribute is taken off the front. -/
theorem rawAttributes?_attributeChars {key : String} (hk : IsKey key) (value : String)
    (rest : List Char) :
    rawAttributes? (attributeChars key value ++ rest)
      = (rawAttributes? rest).map
          (⟨key.toList, value.toList.flatMap escapeValueChar⟩ :: ·) := by
  obtain ⟨hne, hkey⟩ := hk
  cases hcs : key.toList with
  | nil => exact absurd hcs hne
  | cons first more =>
      rw [hcs] at hkey
      have hfirst : Token.isBlank first = false := by
        have := hkey first (List.mem_cons_self ..)
        simp only [isKeyChar, Bool.and_eq_true, Bool.not_eq_true'] at this
        exact this.2
      have hchars : attributeChars key value ++ rest = ' ' :: first :: (more ++ '=' :: '\x22' ::
          (value.toList.flatMap escapeValueChar ++ '\x22' :: rest)) := by
        simp [attributeChars, hcs]
      have hstart (cs : List Char) :
          (' ' :: first :: cs).dropWhile Token.isBlank = first :: cs := by
        rw [List.dropWhile_cons_of_pos (by decide), List.dropWhile_cons_of_neg (by simp [hfirst])]
      rw [hchars, rawAttributes?]
      split
      · rename_i hnil
        rw [hstart] at hnil
        cases hnil
      · rename_i first' more' hcons
        rw [hstart] at hcons
        cases hcons
        rw [attribute?_append fun c hc => hkey c (List.mem_cons_of_mem _ hc)]

theorem rawAttributes?_pairsChars {ps : List (String × String)} (h : ∀ p ∈ ps, IsKey p.1) :
    rawAttributes? (pairsChars ps)
      = some (ps.map fun p => ⟨p.1.toList, p.2.toList.flatMap escapeValueChar⟩) := by
  unfold pairsChars
  induction ps with
  | nil =>
      rw [List.flatMap_nil, rawAttributes?]
      rfl
  | cons p ps ih =>
      rw [List.flatMap_cons, rawAttributes?_attributeChars (h p (List.mem_cons_self ..)),
        ih fun p' hp' => h p' (List.mem_cons_of_mem _ hp')]
      rfl

/-- Written names and values are read as they are. -/
theorem attributes?_pairsChars {ps : List (String × String)} (h : ∀ p ∈ ps, IsKey p.1)
    (hnodup : (ps.map Prod.fst).Nodup) : attributes? (pairsChars ps) = some ps := by
  have hkeys : ((ps.map fun p => (⟨p.1.toList, p.2.toList.flatMap escapeValueChar⟩
      : RawAttribute)).map RawAttribute.key).Nodup := by
    rw [List.map_map]
    have : (RawAttribute.key ∘ fun p : String × String =>
        (⟨p.1.toList, p.2.toList.flatMap escapeValueChar⟩ : RawAttribute))
        = String.toList ∘ Prod.fst := rfl
    rw [this, ← List.map_map]
    exact List.Nodup.map (fun _ _ he => String.toList_inj.mp he) hnodup
  have hvalues : ∀ qs : List (String × String),
      (qs.map fun p => (⟨p.1.toList, p.2.toList.flatMap escapeValueChar⟩ : RawAttribute)).mapM
        (fun a => do return (String.ofList a.key, ← expandValue? a.value)) = some qs := by
    intro qs
    induction qs with
    | nil => rfl
    | cons q qs ih =>
        rw [List.map_cons, List.mapM_cons, ih]
        simp only [expandValue?_escape, String.ofList_toList]
        rfl
  rw [attributes?, rawAttributes?_pairsChars h]
  simp only [Option.bind_eq_bind, Option.bind_some]
  rw [if_pos hkeys]
  exact hvalues ps

/-! ## Tags in a scope -/

/-- A tag whose names have the namespaces that they have in a scope, behind the
declarations of the tag itself. -/
structure Tag.Fits (scope : Scope) (t : Tag) : Prop where
  name : Scope.elementName (t.declarations :: scope) t.name.qualifier t.name.localPart
    = .ok t.name
  attributes : ∀ a ∈ t.attributes,
    Scope.attributeName (t.declarations :: scope) a.name.qualifier a.name.localPart = .ok a.name

/-- The attribute that a declaration is written as is that declaration. -/
theorem declaration?_key {d : Declaration} (h : ∀ q, d.qualifier = some q → IsNamePart q) :
    declaration? d.key d.uri = some d := by
  obtain ⟨qualifier, uri⟩ := d
  cases qualifier with
  | none => rfl
  | some q =>
      have hsplit : splitName ("xmlns:" ++ q) = (some "xmlns", q) :=
        splitName_qualified (isPlain_xmlns (h q rfl))
      have hne : "xmlns:" ++ q ≠ "xmlns" := by
        intro he
        rw [he] at hsplit
        exact absurd hsplit (by rw [show splitName "xmlns" = (none, "xmlns") from rfl]; simp)
      dsimp only [Declaration.key]
      rw [declaration?, if_neg hne, hsplit]
      rfl

/-- What the two parts of a written name say about declarations. -/
theorem declaration?_eq_none_iff (key value : String) (space : Option String) :
    declaration? key value = none
      ↔ (Name.mk (splitName key).1 (splitName key).2 space).declares = false := by
  unfold declaration?
  by_cases hkey : key = "xmlns"
  · subst hkey
    rw [if_pos rfl]
    constructor
    · intro h; cases h
    · intro h; exact absurd h (by simp [show splitName "xmlns" = (none, "xmlns") from rfl,
        Name.declares])
  · rw [if_neg hkey]
    have hlocal : (splitName key).1 = none → (splitName key).2 ≠ "xmlns" := by
      intro hnone hxmlns
      have h := qualified_splitName key none
      rw [hnone, hxmlns] at h
      exact hkey h.symm
    generalize splitName key = parts at hlocal
    obtain ⟨qualifier, localPart⟩ := parts
    dsimp only [Name.declares] at hlocal ⊢
    cases qualifier with
    | none => simp [hlocal rfl]
    | some q =>
        by_cases hq : q = "xmlns"
        · subst hq
          simp
        · simp [hq]

/-- Where the name of a written tag ends. -/
theorem Tag.inside_eq_name_append {t : Tag} (h : t.IsPrintable) :
    t.inside.takeWhile (fun c => !Token.isBlank c) = t.name.qualified.toList ∧
      t.inside.dropWhile (fun c => !Token.isBlank c) = pairsChars t.written := by
  have hname : ∀ c ∈ t.name.qualified.toList, (!Token.isBlank c) = true := by
    intro c hm
    rcases Name.mem_qualified h.name hm with hc | rfl
    · rw [isBlank_of_isMarkup hc]; rfl
    · decide
  have hstart : pairsChars t.written = [] ∨ ∃ cs, pairsChars t.written = ' ' :: cs := by
    cases t.written with
    | nil => exact Or.inl rfl
    | cons p ps => exact Or.inr ⟨_, rfl⟩
  rw [Tag.inside, List.takeWhile_append_of_pos hname, List.dropWhile_append_of_pos hname]
  rcases hstart with hs | ⟨cs, hs⟩
  · rw [hs, List.takeWhile_nil, List.append_nil]
    exact ⟨rfl, rfl⟩
  · rw [hs, List.takeWhile_cons_of_neg (by decide), List.append_nil]
    exact ⟨rfl, List.dropWhile_cons_of_neg (by decide)⟩

theorem Tag.IsPrintable.declaration? {t : Tag} (h : t.IsPrintable) :
    (∀ d ∈ t.declarations, Xml.declaration? d.key d.uri = some d) ∧
      ∀ a ∈ t.attributes, Xml.declaration? a.name.qualified a.value = none := by
  refine ⟨fun d hd => declaration?_key (h.declared d hd), fun a ha => ?_⟩
  obtain ⟨hplain, hdeclares⟩ := h.attributes a ha
  rw [declaration?_eq_none_iff _ _ a.name.space, splitName_qualified hplain]
  exact hdeclares

/-- The written declarations are told from the attributes. -/
theorem Tag.IsPrintable.declarations_written {t : Tag} (h : t.IsPrintable) :
    t.written.filterMap (fun (key, value) => Xml.declaration? key value) = t.declarations := by
  obtain ⟨hdeclared, hother⟩ := h.declaration?
  rw [Tag.written, List.filterMap_append, List.filterMap_map, List.filterMap_map]
  have hnil : t.attributes.filterMap ((fun (key, value) => Xml.declaration? key value) ∘
      fun a => (a.name.qualified, a.value)) = [] := List.filterMap_eq_nil_iff.mpr hother
  rw [hnil, List.append_nil]
  exact (List.filterMap_congr hdeclared).trans List.filterMap_some

theorem Tag.IsPrintable.attributes_written {t : Tag} (h : t.IsPrintable) :
    t.written.filter (fun (key, value) => (Xml.declaration? key value).isNone)
      = t.attributes.map fun a => (a.name.qualified, a.value) := by
  obtain ⟨hdeclared, hother⟩ := h.declaration?
  rw [Tag.written, List.filter_append, List.filter_eq_nil_iff.mpr, List.nil_append,
    List.filter_eq_self.mpr]
  · intro p hp
    obtain ⟨a, ha, rfl⟩ := List.mem_map.mp hp
    simp [hother a ha]
  · intro p hp
    obtain ⟨d, hd, rfl⟩ := List.mem_map.mp hp
    simp [hdeclared d hd]

/-- Written attributes are read as they are where their names fit. -/
theorem mapM_readAttribute (scope : Scope) {as : List Attribute}
    (h : ∀ a ∈ as, a.name.IsPlain ∧
      scope.attributeName a.name.qualifier a.name.localPart = .ok a.name) :
    (as.map fun a => (a.name.qualified, a.value)).mapM
      (fun (key, value) => readAttribute scope key value) = .ok as := by
  induction as with
  | nil => rfl
  | cons a as ih =>
      obtain ⟨hplain, hname⟩ := h a (List.mem_cons_self ..)
      rw [List.map_cons, List.mapM_cons, ih fun b hb => h b (List.mem_cons_of_mem _ hb)]
      dsimp only [readAttribute]
      rw [splitName_qualified hplain]
      dsimp only
      rw [hname]
      rfl

/-- Reading a written tag in its scope gives the tag. -/
theorem Tag.read_inside {scope : Scope} {t : Tag} (h : t.IsPrintable) (hfits : t.Fits scope) :
    Tag.read scope t.inside = .ok t := by
  obtain ⟨htake, hdrop⟩ := t.inside_eq_name_append h
  have hattributes := mapM_readAttribute (t.declarations :: scope)
    fun a ha => ⟨(h.attributes a ha).1, hfits.attributes a ha⟩
  rw [Tag.read, hdrop, attributes?_pairsChars (fun p hp => h.isKey hp) h.nodup]
  dsimp only
  rw [h.declarations_written, h.attributes_written, htake, String.ofList_toList,
    splitName_qualified h.name]
  dsimp only
  rw [hfits.name, hattributes]
  rfl

/-! ## Tags that were read -/

/-- A tag whose names cannot be cut, and whose declared qualifiers stand for
something.  Every tag of a document that is well formed with regard to
namespaces is one. -/
structure Tag.IsWellNamed (t : Tag) : Prop where
  name : t.name.IsPlain
  declared : ∀ d ∈ t.declarations, ∀ q, d.qualifier = some q → IsNamePart q ∧ d.uri ≠ ""
  attributes : ∀ a ∈ t.attributes, a.name.IsPlain

instance (t : Tag) : Decidable t.IsWellNamed :=
  decidable_of_iff (t.name.IsPlain ∧
      (∀ d ∈ t.declarations, ∀ q ∈ d.qualifier, IsNamePart q ∧ d.uri ≠ "") ∧
      ∀ a ∈ t.attributes, a.name.IsPlain)
    ⟨fun h => ⟨h.1, h.2.1, h.2.2⟩, fun h => ⟨h.name, h.declared, h.attributes⟩⟩

theorem key_of_declaration? {key value : String} {d : Declaration}
    (h : declaration? key value = some d) : d.key = key ∧ d.uri = value := by
  unfold declaration? at h
  split at h
  · rename_i hkey
    cases h
    exact ⟨hkey.symm, rfl⟩
  · split at h
    · rename_i q hsplit
      cases h
      refine ⟨?_, rfl⟩
      have hkey := qualified_splitName key none
      rw [hsplit] at hkey
      exact hkey
    · cases h

/-- The namespace of a name leaves its parts as they are. -/
theorem parts_of_elementName {scope : Scope} {qualifier : Option String} {localPart : String}
    {n : Name} (h : scope.elementName qualifier localPart = .ok n) :
    n.qualifier = qualifier ∧ n.localPart = localPart := by
  unfold Scope.elementName at h
  cases qualifier with
  | none => cases h; exact ⟨rfl, rfl⟩
  | some q =>
      obtain ⟨uri, -, he⟩ := Except.bind_eq_ok.mp h
      cases he
      exact ⟨rfl, rfl⟩

theorem parts_of_attributeName {scope : Scope} {qualifier : Option String} {localPart : String}
    {n : Name} (h : scope.attributeName qualifier localPart = .ok n) :
    n.qualifier = qualifier ∧ n.localPart = localPart := by
  unfold Scope.attributeName at h
  cases qualifier with
  | none => cases h; exact ⟨rfl, rfl⟩
  | some q =>
      obtain ⟨uri, -, he⟩ := Except.bind_eq_ok.mp h
      cases he
      exact ⟨rfl, rfl⟩

/-- What was read as attributes is what stands there, each in its namespace. -/
theorem of_mapM_readAttribute {scope : Scope} {ps : List (String × String)}
    {as : List Attribute}
    (h : ps.mapM (fun (key, value) => readAttribute scope key value) = .ok as) :
    (as.map fun a => (a.name.qualified, a.value)) = ps ∧
      ∀ a ∈ as, splitName a.name.qualified = (a.name.qualifier, a.name.localPart) ∧
        scope.attributeName a.name.qualifier a.name.localPart = .ok a.name := by
  induction ps generalizing as with
  | nil =>
      cases h
      exact ⟨rfl, fun a ha => by cases ha⟩
  | cons p ps ih =>
      obtain ⟨key, value⟩ := p
      rw [List.mapM_cons] at h
      obtain ⟨a, ha, h⟩ := Except.bind_eq_ok.mp h
      obtain ⟨as', has, h⟩ := Except.bind_eq_ok.mp h
      cases h
      obtain ⟨hmap, hall⟩ := ih has
      obtain ⟨n, hn, ha⟩ := Except.bind_eq_ok.mp ha
      cases ha
      replace hn : scope.attributeName (splitName key).1 (splitName key).2 = .ok n := hn
      obtain ⟨hq, hl⟩ := parts_of_attributeName hn
      have hkey : n.qualified = key := by
        have hk := qualified_splitName key n.space
        rw [← hq, ← hl] at hk
        exact hk
      refine ⟨by rw [List.map_cons, hmap, hkey], ?_⟩
      intro b hb
      rcases List.mem_cons.mp hb with rfl | hb
      · refine ⟨?_, ?_⟩
        · rw [hkey, hq, hl]
        · dsimp only
          rw [hq, hl]
          exact hn
      · exact hall b hb

/-- The declarations among attributes are written as they were read. -/
theorem map_key_declarations (ps : List (String × String)) :
    (ps.filterMap fun (key, value) => declaration? key value).map (fun d => (d.key, d.uri))
      = ps.filter fun (key, value) => !(declaration? key value).isNone := by
  induction ps with
  | nil => rfl
  | cons p ps ih =>
      obtain ⟨key, value⟩ := p
      cases h : declaration? key value with
      | none =>
          rw [List.filterMap_cons_none (by exact h), ih, List.filter_cons_of_neg (by simp [h])]
      | some d =>
          obtain ⟨hkey, huri⟩ := key_of_declaration? h
          rw [List.filterMap_cons_some (by exact h), List.map_cons, ih,
            List.filter_cons_of_pos (by simp [h]), hkey, huri]

theorem nodup_of_attributes? {cs : List Char} {ps : List (String × String)}
    (h : attributes? cs = some ps) : (ps.map Prod.fst).Nodup := by
  obtain ⟨raw, -, h⟩ := Option.bind_eq_some_iff.mp h
  split at h
  · rename_i hnodup
    have hkeys : ∀ {raw : List RawAttribute} {ps : List (String × String)},
        raw.mapM (fun a => do return (String.ofList a.key, ← expandValue? a.value)) = some ps →
        ps.map Prod.fst = (raw.map RawAttribute.key).map String.ofList := by
      intro raw
      induction raw with
      | nil => intro ps h; cases h; rfl
      | cons a raw ih =>
          intro ps h
          rw [List.mapM_cons] at h
          obtain ⟨p, hp, h⟩ := Option.bind_eq_some_iff.mp h
          obtain ⟨ps', hps, h⟩ := Option.bind_eq_some_iff.mp h
          obtain ⟨value, -, hp⟩ := Option.bind_eq_some_iff.mp hp
          cases hp
          cases h
          rw [List.map_cons, List.map_cons, List.map_cons, ih hps]
    rw [hkeys h]
    exact List.Nodup.map (fun _ _ he => String.ofList_inj.mp he) hnodup
  · cases h

/-- The attributes in the inside of a start tag, declarations among them.  They are
those that are read, and there are none if they are not well formed. -/
def insideAttributes (inside : List Char) : List (String × String) :=
  (attributes? (inside.dropWhile fun c => !Token.isBlank c)).getD []

/-- The declarations in the inside of a start tag. -/
def insideDeclarations (inside : List Char) : List Declaration :=
  (insideAttributes inside).filterMap fun (key, value) => declaration? key value

/-- The attributes in the inside of a start tag that are no declarations. -/
def insideOthers (inside : List Char) : List (String × String) :=
  (insideAttributes inside).filter fun (key, value) => (declaration? key value).isNone

/-- The name in the inside of a start tag. -/
def insideName (inside : List Char) : String :=
  String.ofList (inside.takeWhile fun c => !Token.isBlank c)

/-- What a tag that was read is made of. -/
structure Tag.WasRead (scope : Scope) (inside : List Char) (t : Tag) : Prop where
  nodup : ((insideAttributes inside).map Prod.fst).Nodup
  declarations : t.declarations = insideDeclarations inside
  name : Scope.elementName (insideDeclarations inside :: scope) (splitName (insideName inside)).1
    (splitName (insideName inside)).2 = .ok t.name
  attributes : (insideOthers inside).mapM (fun (key, value) =>
    readAttribute (insideDeclarations inside :: scope) key value) = .ok t.attributes

theorem Tag.wasRead_of_read {scope : Scope} {inside : List Char} {t : Tag}
    (h : Tag.read scope inside = .ok t) : t.WasRead scope inside := by
  unfold Tag.read at h
  split at h
  next ps hps =>
    have hattributes : insideAttributes inside = ps := by rw [insideAttributes, hps]; rfl
    obtain ⟨n, hn, h⟩ := Except.bind_eq_ok.mp h
    obtain ⟨as, has, h⟩ := Except.bind_eq_ok.mp h
    cases h
    subst hattributes
    exact ⟨nodup_of_attributes? hps, rfl, hn, has⟩
  next => cases h

/-- A tag that was read: its names have the namespaces of its scope, none of its
attributes is a declaration, and no name stands twice. -/
theorem Tag.of_read {scope : Scope} {inside : List Char} {t : Tag}
    (h : Tag.read scope inside = .ok t) :
    t.Fits scope ∧ (∀ a ∈ t.attributes, a.name.declares = false) ∧
      (t.written.map Prod.fst).Nodup := by
  obtain ⟨hnodup, hdeclarations, hname, hattributes⟩ := Tag.wasRead_of_read h
  obtain ⟨hq, hl⟩ := parts_of_elementName hname
  obtain ⟨hmap, hall⟩ := of_mapM_readAttribute hattributes
  refine ⟨⟨?_, fun a ha => ?_⟩, fun a ha => ?_, ?_⟩
  · rw [hdeclarations, hq, hl]
    exact hname
  · rw [hdeclarations]
    exact (hall a ha).2
  · have hp : (a.name.qualified, a.value) ∈ insideOthers inside := by
      rw [← hmap]
      exact List.mem_map_of_mem ha
    have hnone := (List.mem_filter.mp hp).2
    rw [Option.isNone_iff_eq_none, declaration?_eq_none_iff _ _ a.name.space,
      (hall a ha).1] at hnone
    exact hnone
  · -- the declarations and the attributes together are what was read, in another order
    have hperm := List.filter_append_perm
      (fun p : String × String => !(Xml.declaration? p.1 p.2).isNone) (insideAttributes inside)
    simp only [Bool.not_not] at hperm
    rw [Tag.written, hmap, hdeclarations, insideDeclarations, map_key_declarations]
    exact (hperm.map Prod.fst).nodup_iff.mpr hnodup

/-- A tag that was read can be written and read, if its names cannot be cut. -/
theorem Tag.isPrintable_of_read {scope : Scope} {inside : List Char} {t : Tag}
    (h : Tag.read scope inside = .ok t) (hnames : t.IsWellNamed) : t.IsPrintable := by
  obtain ⟨-, hdeclares, hnodup⟩ := Tag.of_read h
  exact ⟨hnames.name, fun d hd q hq => (hnames.declared d hd q hq).1,
    fun a ha => ⟨hnames.attributes a ha, hdeclares a ha⟩, hnodup⟩

end Presign.Xml
