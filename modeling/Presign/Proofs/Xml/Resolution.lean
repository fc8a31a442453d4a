import Presign.Proofs.Xml.CanonicalMeaning

/-!
# Namespaces and the declarations around names

What a qualifier stands for is read off the declarations on the path from the root
to the element, outermost element first: the last one of the qualifier decides.
`ElementSpace` and `AttributeSpace` say this without a scope, and looking up in a
scope finds the same, as the scope lists the same path from the other end.

A document that is read keeps to this at every name.  For the other direction, the
scope of a start tag is told from the tokens in front of it, where start tags open
a level and end tags close one.  Every step of the reader keeps its own scope equal
to that one, so a name that nothing binds there stops the reader.
-/

namespace Presign.Xml

/-! ## Deciding declarations -/

/-- Among declarations, those of outer elements first, one decides for its qualifier
if none of the same qualifier comes after it. -/
def Declaration.Decides (d : Declaration) (path : List Declaration) : Prop :=
  ∃ outer inner, path = outer ++ d :: inner ∧ ∀ d' ∈ inner, d'.qualifier ≠ d.qualifier

theorem declaredUri?_append (ds ds' : List Declaration) (qualifier : Option String) :
    declaredUri? (ds ++ ds') qualifier
      = (declaredUri? ds' qualifier).or (declaredUri? ds qualifier) := by
  simp [declaredUri?, Option.map_or]

theorem declaredUri?_eq_some_iff {path : List Declaration} {qualifier : Option String}
    {uri : String} :
    declaredUri? path qualifier = some uri ↔ Declaration.Decides ⟨qualifier, uri⟩ path := by
  constructor
  · intro h
    obtain ⟨d, hd, rfl⟩ := Option.map_eq_some_iff.mp h
    obtain ⟨hq, inner, outer, hpath, hinner⟩ := List.find?_eq_some_iff_append.mp hd
    rw [beq_iff_eq] at hq
    subst hq
    refine ⟨outer.reverse, inner.reverse, ?_, fun d' hd' => ?_⟩
    · rw [← List.reverse_reverse path, hpath]
      simp
    · simpa using hinner d' (List.mem_reverse.mp hd')
  · rintro ⟨outer, inner, rfl, hinner⟩
    have hnone : declaredUri? inner qualifier = none := by
      simpa [declaredUri?] using hinner
    rw [List.append_cons, declaredUri?_append, hnone, declaredUri?_concat]
    simp

theorem declaredUri?_eq_none_iff {path : List Declaration} {qualifier : Option String} :
    declaredUri? path qualifier = none ↔ ∀ d ∈ path, d.qualifier ≠ qualifier := by
  simp [declaredUri?]

/-- Looking up in a scope takes the last declaration on the path. -/
theorem lookup?_eq_declaredUri? (scope : Scope) (qualifier : Option String) :
    scope.lookup? qualifier = declaredUri? scope.inherited qualifier := by
  induction scope with
  | nil => rfl
  | cons ds scope ih => rw [lookup?_cons, Scope.inherited_cons, declaredUri?_append, ih]

/-! ## Namespaces on a path -/

/-- The namespace that a qualifier stands for behind the declarations of a path. -/
inductive QualifierSpace (path : List Declaration) (q : String) : String → Prop where
  | xml (h : q = "xml") : QualifierSpace path q xmlSpace
  | declared {uri : String} (hxml : q ≠ "xml")
      (hdecides : Declaration.Decides ⟨some q, uri⟩ path) (huri : uri ≠ "") :
      QualifierSpace path q uri

/-- The namespace of an element name, by its qualifier. -/
inductive ElementSpace (path : List Declaration) : Option String → Option String → Prop where
  | qualified {q space : String} (h : QualifierSpace path q space) :
      ElementSpace path (some q) (some space)
  | default {uri : String} (hdecides : Declaration.Decides ⟨none, uri⟩ path) (huri : uri ≠ "") :
      ElementSpace path none (some uri)
  | undone (hdecides : Declaration.Decides ⟨none, ""⟩ path) : ElementSpace path none none
  | undeclared (h : ∀ d ∈ path, d.qualifier ≠ none) : ElementSpace path none none

/-- The namespace of an attribute name, by its qualifier. -/
inductive AttributeSpace (path : List Declaration) : Option String → Option String → Prop where
  | qualified {q space : String} (h : QualifierSpace path q space) :
      AttributeSpace path (some q) (some space)
  | unqualified : AttributeSpace path none none

theorem elementSpace_some_iff {path : List Declaration} {q : String} {space : Option String} :
    ElementSpace path (some q) space ↔ ∃ u, space = some u ∧ QualifierSpace path q u := by
  constructor
  · intro h
    cases h with
    | qualified h => exact ⟨_, rfl, h⟩
  · rintro ⟨u, rfl, h⟩
    exact .qualified h

theorem attributeSpace_some_iff {path : List Declaration} {q : String} {space : Option String} :
    AttributeSpace path (some q) space ↔ ∃ u, space = some u ∧ QualifierSpace path q u := by
  constructor
  · intro h
    cases h with
    | qualified h => exact ⟨_, rfl, h⟩
  · rintro ⟨u, rfl, h⟩
    exact .qualified h

theorem attributeSpace_none_iff {path : List Declaration} {space : Option String} :
    AttributeSpace path none space ↔ space = none := by
  constructor
  · intro h
    cases h
    rfl
  · rintro rfl
    exact .unqualified

/-- All names of a tag have the namespaces of a path. -/
structure Tag.Resolves (path : List Declaration) (t : Tag) : Prop where
  name : ElementSpace path t.name.qualifier t.name.space
  attributes : ∀ a ∈ t.attributes, AttributeSpace path a.name.qualifier a.name.space

/-- The names of a node have the namespaces of the path to it, with its own
declarations at the end. -/
def Node.Resolves (scope : Scope) : Node → Prop
  | .element tag _ => tag.Resolves (Scope.inherited (tag.declarations :: scope))
  | _ => True

/-! ## Scopes and paths -/

variable {scope : Scope}

theorem spaceOf_eq_ok_iff_qualifierSpace {q space : String} :
    scope.spaceOf q = .ok space ↔ QualifierSpace scope.inherited q space := by
  rw [spaceOf_eq_ok_iff, lookup?_eq_declaredUri?, declaredUri?_eq_some_iff]
  constructor
  · rintro (⟨hxml, rfl⟩ | ⟨hxml, hdecides, huri⟩)
    · exact .xml hxml
    · exact .declared hxml hdecides huri
  · intro h
    cases h with
    | xml hxml => exact Or.inl ⟨hxml, rfl⟩
    | declared hxml hdecides huri => exact Or.inr ⟨hxml, hdecides, huri⟩

/-- The default namespace is that of an element name without a qualifier. -/
theorem elementSpace_none_iff {space : Option String} :
    ElementSpace scope.inherited none space ↔ space = scope.defaultSpace := by
  rw [Scope.defaultSpace, lookup?_eq_declaredUri?]
  constructor
  · intro h
    cases h with
    | default hdecides huri => simp [declaredUri?_eq_some_iff.mpr hdecides, Option.filter, huri]
    | undone hdecides => simp [declaredUri?_eq_some_iff.mpr hdecides, Option.filter]
    | undeclared h => simp [declaredUri?_eq_none_iff.mpr h]
  · rintro rfl
    cases hd : declaredUri? scope.inherited none with
    | none => exact .undeclared (declaredUri?_eq_none_iff.mp hd)
    | some uri =>
        have hdecides := declaredUri?_eq_some_iff.mp hd
        by_cases huri : uri = ""
        · subst huri
          exact .undone hdecides
        · simpa [Option.filter, huri] using ElementSpace.default hdecides huri

theorem elementSpace_iff {n : Name} :
    ElementSpace scope.inherited n.qualifier n.space
      ↔ scope.elementName n.qualifier n.localPart = .ok n := by
  rw [elementName_eq_ok_iff]
  cases n.qualifier with
  | none => exact elementSpace_none_iff
  | some q => simp only [elementSpace_some_iff, spaceOf_eq_ok_iff_qualifierSpace]

theorem attributeSpace_iff {n : Name} :
    AttributeSpace scope.inherited n.qualifier n.space
      ↔ scope.attributeName n.qualifier n.localPart = .ok n := by
  rw [attributeName_eq_ok_iff]
  cases n.qualifier with
  | none => exact attributeSpace_none_iff
  | some q => simp only [attributeSpace_some_iff, spaceOf_eq_ok_iff_qualifierSpace]

/-- A tag fits in a scope if its names have the namespaces of the path. -/
theorem Tag.fits_iff_resolves {t : Tag} :
    t.Fits scope ↔ t.Resolves (Scope.inherited (t.declarations :: scope)) := by
  constructor
  · intro h
    exact ⟨elementSpace_iff.mpr h.name, fun a ha => attributeSpace_iff.mpr (h.attributes a ha)⟩
  · intro h
    exact ⟨elementSpace_iff.mp h.name, fun a ha => attributeSpace_iff.mp (h.attributes a ha)⟩

/-- Every name of a document has the namespace of the path to it. -/
theorem Element.all_resolves_of_read {bs : Octets} {e : Element} (h : Element.read bs = .ok e) :
    Node.All Node.Resolves [] e := by
  refine (Element.all_fits_of_read h).imp fun scope n hn => ?_
  cases n with
  | element tag children => exact Tag.fits_iff_resolves.mp hn
  | text s => trivial
  | comment s => trivial
  | instruction target data => trivial

/-! ## Names that nothing binds -/

/-- The name in the inside of a start tag, or that of one of its attributes, has a
qualifier. -/
def UsesQualifier (inside : List Char) (q : String) : Prop :=
  ∃ key ∈ insideName inside :: (insideOthers inside).map Prod.fst, (splitName key).1 = some q

/-- Every qualifier in a tag that was read stands for a namespace. -/
theorem Tag.exists_qualifierSpace {inside : List Char} {t : Tag} {q : String}
    (h : Tag.read scope inside = .ok t) (hq : UsesQualifier inside q) :
    ∃ space, QualifierSpace (Scope.inherited (insideDeclarations inside :: scope)) q space := by
  obtain ⟨key, hkey, hsplit⟩ := hq
  obtain ⟨-, -, hname, hothers⟩ := Tag.wasRead_of_read h
  simp only [← spaceOf_eq_ok_iff_qualifierSpace]
  rcases List.mem_cons.mp hkey with rfl | hkey
  · rw [hsplit] at hname
    obtain ⟨space, hspace, -⟩ := Except.bind_eq_ok.mp hname
    exact ⟨space, hspace⟩
  · obtain ⟨hmap, hall⟩ := of_mapM_readAttribute hothers
    rw [← hmap, List.map_map] at hkey
    obtain ⟨a, ha, rfl⟩ := List.mem_map.mp hkey
    obtain ⟨hparts, hattribute⟩ := hall a ha
    have hqualifier : a.name.qualifier = some q := by
      rw [← hsplit]
      exact (congrArg Prod.fst hparts).symm
    rw [hqualifier] at hattribute
    obtain ⟨space, hspace, -⟩ := Except.bind_eq_ok.mp hattribute
    exact ⟨space, hspace⟩

/-! ## The scope behind tokens -/

/-- The scope behind a token: start tags open a level, and end tags close one. -/
def Token.scopeAfter (scope : Scope) : Token → Scope
  | .startTag inside => insideDeclarations inside :: scope
  | .endTag _ => scope.tail
  | _ => scope

/-- The declarations of the elements that tokens leave open. -/
def openScope (tokens : List Token) : Scope := tokens.foldl Token.scopeAfter []

namespace Progress

theorem scope_of_add {p p' : Progress} {n : Node} {outside : Except Error Progress}
    (houtside : ∀ q, outside = .ok q → q = p) (h : p.add n outside = .ok p') :
    p'.scope = p.scope := by
  obtain ⟨stack, root⟩ := p
  cases stack with
  | nil => rw [houtside p' h]
  | cons o os =>
      cases h
      rfl

theorem scope_of_close {p p' : Progress} (h : p.close = .ok p') : p'.scope = p.scope.tail := by
  obtain ⟨stack, root⟩ := p
  cases stack with
  | nil => cases h
  | cons o os =>
      cases os with
      | nil =>
          dsimp only [close] at h
          split at h
          next => cases h
          next =>
            cases h
            rfl
      | cons parent os =>
          cases h
          rfl

/-- A step changes the scope as its token does.  An empty tag opens a level and
closes it again. -/
theorem scope_of_step {p p' : Progress} {token : Token} (h : p.step token = .ok p') :
    p'.scope = token.scopeAfter p.scope := by
  cases token with
  | startTag inside =>
      obtain ⟨tag, htag, hopen⟩ := Except.bind_eq_ok.mp h
      cases hopen
      exact congrArg (· :: p.scope) (Tag.wasRead_of_read htag).declarations
  | emptyTag inside =>
      obtain ⟨tag, -, hclose⟩ := Except.bind_eq_ok.mp h
      exact scope_of_close hclose
  | endTag name =>
      rw [step] at h
      split at h
      next => cases h
      next =>
        split at h
        next => exact scope_of_close h
        next => cases h
  | text raw =>
      rw [step] at h
      split at h
      next => cases h
      next =>
        refine scope_of_add (fun q hq => ?_) h
        split at hq
        next =>
          cases hq
          rfl
        next => cases hq
  | cdata content => exact scope_of_add (fun q hq => by cases hq) h
  | comment content => exact scope_of_add (fun q hq => by cases hq; rfl) h
  | instruction content => exact scope_of_add (fun q hq => by cases hq; rfl) h
  | skipped =>
      cases h
      rfl
  | broken => cases h

/-- So do many steps. -/
theorem scope_of_foldlM {tokens : List Token} {p p' : Progress}
    (h : tokens.foldlM step p = .ok p') :
    p'.scope = tokens.foldl Token.scopeAfter p.scope := by
  induction tokens generalizing p with
  | nil =>
      cases h
      rfl
  | cons token tokens ih =>
      rw [List.foldlM_cons] at h
      obtain ⟨q, hq, h⟩ := Except.bind_eq_ok.mp h
      rw [ih h, scope_of_step hq]
      rfl

end Progress

/-! ## Documents -/

/-- The tokens of a document that is UTF-8. -/
def documentTokens? (bs : Octets) : Option (List Token) :=
  (Text.decode? bs).map fun s => Token.scan (dropMark (normalizeLines s.toList))

/-- The token is a start tag or an empty tag with the given inside. -/
def Token.IsTag (inside : List Char) (token : Token) : Prop :=
  token = .startTag inside ∨ token = .emptyTag inside

theorem Progress.exists_read_of_step {p p' : Progress} {token : Token} {inside : List Char}
    (htoken : token.IsTag inside) (h : p.step token = .ok p') :
    ∃ tag, Tag.read p.scope inside = .ok tag := by
  rcases htoken with rfl | rfl
  · obtain ⟨tag, htag, -⟩ := Except.bind_eq_ok.mp h
    exact ⟨tag, htag⟩
  · obtain ⟨tag, htag, -⟩ := Except.bind_eq_ok.mp h
    exact ⟨tag, htag⟩

/-- In a document that is read, every qualifier of a tag stands for a namespace behind
the declarations of the elements that are open there. -/
theorem Element.exists_qualifierSpace_of_read {bs : Octets} {e : Element}
    {before after : List Token} {token : Token} {inside : List Char} {q : String}
    (h : Element.read bs = .ok e) (htokens : documentTokens? bs = some (before ++ token :: after))
    (htoken : token.IsTag inside) (hq : UsesQualifier inside q) :
    ∃ space,
      QualifierSpace (Scope.inherited (insideDeclarations inside :: openScope before)) q space := by
  obtain ⟨s, hs, hscan⟩ := Option.map_eq_some_iff.mp htokens
  rw [Element.read, hs] at h
  obtain ⟨p, hp, -⟩ := Except.bind_eq_ok.mp h
  rw [hscan, List.foldlM_append] at hp
  obtain ⟨p₁, hbefore, hp⟩ := Except.bind_eq_ok.mp hp
  rw [List.foldlM_cons] at hp
  obtain ⟨p₂, hstep, -⟩ := Except.bind_eq_ok.mp hp
  obtain ⟨tag, htag⟩ := Progress.exists_read_of_step htoken hstep
  have hscope : p₁.scope = openScope before := Progress.scope_of_foldlM hbefore
  rw [hscope] at htag
  exact Tag.exists_qualifierSpace htag hq

/-- Namespaces are those of the declarations around.  Every name in a document that is
read has the namespace of the path to it, and a document in which a tag uses a
qualifier that stands for nothing there is not read. -/
theorem Element.read_resolves :
    (∀ (bs : Octets) (e : Element), Element.read bs = .ok e → Node.All Node.Resolves [] e) ∧
    ∀ (bs : Octets) (before after : List Token) (token : Token) (inside : List Char) (q : String),
      documentTokens? bs = some (before ++ token :: after) → token.IsTag inside →
      UsesQualifier inside q →
      (∀ space,
        ¬ QualifierSpace (Scope.inherited (insideDeclarations inside :: openScope before)) q
          space) →
      ∃ error, Element.read bs = .error error := by
  refine ⟨fun bs e => Element.all_resolves_of_read, ?_⟩
  intro bs before after token inside q htokens htoken hq hunbound
  cases h : Element.read bs with
  | ok e =>
      obtain ⟨space, hspace⟩ := Element.exists_qualifierSpace_of_read h htokens htoken hq
      exact absurd hspace (hunbound space)
  | error error => exact ⟨error, rfl⟩

/-- A document in which an inner element undoes the default namespace and declares a
qualifier anew, with an element after it that uses the outer declarations. -/
def shadowed : Element :=
  ⟨⟨⟨none, "a", some "urn:a"⟩, [⟨none, "urn:a"⟩, ⟨some "p", "urn:p"⟩], []⟩,
    [.element ⟨⟨some "p", "b", some "urn:q"⟩, [⟨none, ""⟩, ⟨some "p", "urn:q"⟩], []⟩
      [.element ⟨⟨none, "c", none⟩, [], [⟨⟨some "p", "x", some "urn:q"⟩, "1"⟩]⟩ []],
    .element ⟨⟨some "p", "d", some "urn:p"⟩, [], [⟨⟨none, "y", none⟩, "2"⟩]⟩ []]⟩

theorem read_shadowed :
    Element.read (Text.encode ("<a xmlns='urn:a' xmlns:p='urn:p'><p:b xmlns='' xmlns:p='urn:q'>"
      ++ "<c p:x='1'/></p:b><p:d y='2'/></a>")) = .ok shadowed := by
  decide +kernel

/-- A document that uses a qualifier behind the empty element that declares it. -/
def leaking : Octets := Text.encode "<a><b xmlns:p='urn:p'/><p:c/></a>"

theorem documentTokens?_leaking :
    documentTokens? leaking = some ([.startTag ['a'], .emptyTag "b xmlns:p='urn:p'".toList]
      ++ .emptyTag "p:c".toList :: [.endTag ['a']]) := by
  decide +kernel

/-- For example, names in `shadowed` have the namespaces of their paths, and `leaking`
is not read. -/
theorem Element.read_resolves_shadowed :
    Node.All Node.Resolves [] shadowed ∧ ∃ error, Element.read leaking = .error error := by
  obtain ⟨hresolves, hfails⟩ := Element.read_resolves
  refine ⟨hresolves _ _ read_shadowed, ?_⟩
  refine hfails _ _ _ _ _ "p" documentTokens?_leaking (Or.inr rfl)
    ⟨"p:c", by decide +kernel, by decide +kernel⟩ ?_
  have hpath : Scope.inherited (insideDeclarations "p:c".toList
      :: openScope [.startTag ['a'], .emptyTag "b xmlns:p='urn:p'".toList]) = [] := by
    decide +kernel
  intro space h
  rw [hpath] at h
  cases h with
  | xml hxml => exact absurd hxml (by decide)
  | declared hxml hdecides huri =>
      obtain ⟨outer, inner, hempty, -⟩ := hdecides
      simp at hempty

end Presign.Xml
