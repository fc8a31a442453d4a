import Presign.Proofs.Xml.FixedPoint

/-!
# Where declarations are written

The rules of canonical forms speak about an element and the elements around it
in the output, not about what has been written so far.  An inclusive rule
compares what is bound in an element with what is bound in its parent.  The
exclusive rule looks at the qualifiers that a tag uses, and compares with the
nearest element around that uses the same qualifier.

`Node.Follows` says that a text is written by these rules, at every element.
Canonical texts are: the bindings written around an element always answer as the
element that the rule compares with (`Tracks`), also where a qualifier is bound
again or the default namespace is undone.
-/

namespace Presign.Xml

/-! ## What is bound -/

/-- An empty default namespace counts as unbound. -/
def boundUri? (p : String) (uri : Option String) : Option String :=
  if p = "" ∧ uri = some "" then none else uri

/-- The scope inside of open elements, innermost first, the outermost of which
inherits declarations. -/
def scopeInside (inherited : List Declaration) (path : List Tag) : Scope :=
  path.map Tag.declarations ++ [inherited]

/-- What a qualifier is bound to inside of open elements.  The default namespace
has the empty qualifier. -/
def uriInside? (inherited : List Declaration) (path : List Tag) (p : String) : Option String :=
  boundUri? p ((scopeInside inherited path).lookup? (if p = "" then none else some p))

/-- A tag uses a qualifier in its own name or in the name of an attribute.  A tag
without a qualifier uses the default namespace, an attribute without one does
not. -/
def Tag.Uses (t : Tag) (p : String) : Prop :=
  t.name.qualifier.getD "" = p ∨ ∃ a ∈ t.attributes, a.name.qualifier = some p

instance (t : Tag) (p : String) : Decidable (t.Uses p) :=
  inferInstanceAs (Decidable (_ ∨ _))

/-! ## Rules -/

/-- What a qualifier is bound to in the parent.  In the outermost element, nothing
is bound outside. -/
def parentUri? (inherited : List Declaration) : List Tag → String → Option String
  | [], _ => none
  | parent :: outer, p => uriInside? inherited (parent :: outer) p

/-- What a qualifier is bound to in the nearest element around that uses it. -/
def nearestUse? (inherited : List Declaration) : List Tag → String → Option String
  | [], _ => none
  | t :: outer, p =>
    if t.Uses p then uriInside? inherited (t :: outer) p else nearestUse? inherited outer p

/-- The binding that a rule compares with. -/
def outerUri? (rule : CanonicalRule) (inherited : List Declaration) (around : List Tag)
    (p : String) : Option String :=
  match rule with
  | .exclusive => nearestUse? inherited around p
  | _ => parentUri? inherited around p

/-- A rule makes a start tag declare a qualifier: what it is bound to differs from
what the rule compares with, and the exclusive rule asks for a use too. -/
structure Tag.MustDeclare (rule : CanonicalRule) (inherited : List Declaration)
    (around : List Tag) (t : Tag) (p uri : String) : Prop where
  unreserved : p ≠ "xml"
  uses : rule = .exclusive → t.Uses p
  differs : uriInside? inherited (t :: around) p ≠ outerUri? rule inherited around p
  uri_eq : uri = (uriInside? inherited (t :: around) p).getD ""

/-- Attributes come in the order of their namespaces, those without one first, and
in a namespace in the order of their local parts. -/
def Attribute.Before (a b : Attribute) : Prop :=
  a.name.space.getD "" < b.name.space.getD "" ∨
    (a.name.space.getD "" = b.name.space.getD "" ∧ a.name.localPart ≤ b.name.localPart)

/-- A start tag written by the rules: what must be declared in the order of the
qualifiers, the default namespace first, and then the attributes in their order. -/
def Tag.StartsAs (rule : CanonicalRule) (inherited : List Declaration) (around : List Tag)
    (t : Tag) (cs : List Char) : Prop :=
  ∃ (declared : List (String × String)) (attributes : List Attribute),
    (∀ p uri, (p, uri) ∈ declared ↔ t.MustDeclare rule inherited around p uri) ∧
    declared.Pairwise (fun b b' => b.1 < b'.1) ∧
    attributes.Perm t.attributes ∧ attributes.Pairwise Attribute.Before ∧
    cs = '<' :: t.name.qualified.toList ++ declared.flatMap bindingChars
      ++ attributes.flatMap Attribute.chars ++ ['>']

section Follows

variable (m : CanonicalMethod) (inherited : List Declaration)

mutual

/-- A text is written for a node by the rules, inside of elements that are
written around it. -/
inductive Node.Follows : List Tag → Node → List Char → Prop where
  | element {around : List Tag} {tag : Tag} {children : List Node} {start inside : List Char}
      (hstart : tag.StartsAs m.rule inherited around start)
      (hinside : NodesFollow (tag :: around) children inside) :
      Node.Follows around (.element tag children) (start ++ inside ++ tag.endChars)
  | text {around : List Tag} (s : String) : Node.Follows around (.text s) (escapeText s)
  | comment {around : List Tag} (h : m.comments = true) (s : String) :
      Node.Follows around (.comment s) (commentChars s)
  | dropped {around : List Tag} (h : m.comments = false) (s : String) :
      Node.Follows around (.comment s) []
  | instruction {around : List Tag} (target data : String) :
      Node.Follows around (.instruction target data) (instructionChars target data)

/-- A text is written for nodes by the rules. -/
inductive NodesFollow : List Tag → List Node → List Char → Prop where
  | nil {around : List Tag} : NodesFollow around [] []
  | cons {around : List Tag} {n : Node} {ns : List Node} {cs cs' : List Char}
      (hn : Node.Follows around n cs) (hns : NodesFollow around ns cs') :
      NodesFollow around (n :: ns) (cs ++ cs')

end

end Follows

/-! ## Bound URIs -/

theorem boundUri?_none (p : String) : boundUri? p none = none := by
  rw [boundUri?, ite_self]

theorem getD_boundUri? (p : String) (uri : Option String) :
    (boundUri? p uri).getD "" = uri.getD "" := by
  unfold boundUri?
  split
  · rename_i h
    rw [h.2]
    rfl
  · rfl

theorem boundUri?_default (uri : Option String) :
    boundUri? "" (some (uri.getD "")) = boundUri? "" uri := by
  cases uri with
  | none => rfl
  | some u => rfl

/-- Where bindings answer as the scope inside of open elements, they give what is
bound there. -/
theorem Mirrors.uriInside? {inherited : List Declaration} {path : List Tag} {b : Bindings}
    (h : Mirrors (scopeInside inherited path) b) {p : String} (hxml : p ≠ "xml") :
    uriInside? inherited path p = boundUri? p (b.get? p) := by
  unfold Xml.uriInside?
  by_cases hp : p = ""
  · rw [if_pos hp, h.default, hp]
  · rw [if_neg hp, h.qualified p hp hxml]

/-- The bindings that are written are those that differ. -/
theorem Bindings.mem_changed_iff {b : Bindings} (h : b.Sorted) {written : Bindings}
    {p u : String} :
    (p, u) ∈ b.changed written ↔
      b.get? p = some u ∧ boundUri? p (some u) ≠ boundUri? p (written.get? p) := by
  rw [changed, List.mem_filter, h.mem_iff]
  refine and_congr_right fun _ => ?_
  dsimp only
  cases written.get? p with
  | none =>
      simp only [boundUri?]
      grind
  | some u' =>
      simp only [boundUri?]
      grind

/-! ## What a tag uses -/

section Uses

variable {t : Tag} {scope : Scope}

theorem get?_xml_foldl_useAttribute (as : List Attribute) {b : Bindings}
    (h : b.get? "xml" = none) : Bindings.get? (as.foldl useAttribute b) "xml" = none := by
  induction as generalizing b with
  | nil => exact h
  | cons a as ih =>
      refine ih ?_
      unfold useAttribute
      split
      · split
        · exact h
        · rename_i hq
          rw [Bindings.get?_insert, if_neg hq, h]
      · exact h

theorem Tag.get?_used_xml (hxml : t.name.qualifier ≠ some "xml") : t.used.get? "xml" = none := by
  rw [Tag.used_eq]
  refine get?_xml_foldl_useAttribute _ ?_
  have hne : t.name.qualifier.getD "" ≠ "xml" := by
    cases hq : t.name.qualifier with
    | none => decide
    | some q => exact fun he => hxml (hq.trans (congrArg some he))
  rw [Bindings.get?_cons, if_neg hne, Bindings.get?_nil]

theorem Tag.Fits.isSome_used_iff (h : t.Fits scope) {p : String} (hxml : p ≠ "xml") :
    (t.used.get? p).isSome ↔ t.Uses p := by
  constructor
  · intro hsome
    obtain ⟨u, hu⟩ := Option.isSome_iff_exists.mp hsome
    have hmem := Bindings.mem_of_get? hu
    rw [Tag.used_eq] at hmem
    rcases mem_foldl_useAttribute hmem with hname | ⟨a, ha, hq, -⟩
    · exact Or.inl (congrArg Prod.fst (List.mem_singleton.mp hname)).symm
    · exact Or.inr ⟨a, ha, hq⟩
  · rintro (rfl | ⟨a, ha, hq⟩)
    · exact t.isSome_used_name
    · have hname := attributeName_eq_ok_iff.mp (h.attributes a ha)
      rw [hq] at hname
      obtain ⟨u, hu, -⟩ := hname
      exact Tag.isSome_used_attribute ha hq hu hxml

/-- What a tag uses is what is bound in the scope inside of it. -/
theorem Tag.Fits.boundUri?_used (hfits : t.Fits scope) (h : t.IsPrintable) {b : Bindings}
    (hmirrors : Mirrors (t.declarations :: scope) b) {p u : String} (hxml : p ≠ "xml")
    (hu : t.used.get? p = some u) : boundUri? p (some u) = boundUri? p (b.get? p) := by
  have hholds := t.used_holds h hfits (Bindings.mem_of_get? hu)
  by_cases hp : p = ""
  · subst hp
    have hdefault : (Scope.defaultSpace (t.declarations :: scope)).getD "" = u :=
      hholds.default rfl
    rw [getD_defaultSpace, hmirrors.default] at hdefault
    rw [← hdefault, boundUri?_default]
  · rcases spaceOf_eq_ok_iff.mp (hholds.qualified hp) with ⟨hx, -⟩ | ⟨-, hlookup, -⟩
    · exact absurd hx hxml
    · rw [← hmirrors.qualified p hp hxml, hlookup]

end Uses

/-! ## Start tags -/

section Step

variable {rule : CanonicalRule} {inherited : List Declaration} {around : List Tag} {t : Tag}
  {scope : Scope} {b written : Bindings}

theorem outerUri?_of_ne (hrule : rule ≠ .exclusive) (inherited : List Declaration)
    (around : List Tag) (p : String) :
    outerUri? rule inherited around p = parentUri? inherited around p := by
  cases rule with
  | inclusive10 => rfl
  | inclusive11 => rfl
  | exclusive => exact absurd rfl hrule

/-- The bindings in scope are those of the document and of the output, and the
bindings written are those that the rule compares with. -/
structure Tracks (rule : CanonicalRule) (inherited : List Declaration) (around : List Tag)
    (scope : Scope) (b written : Bindings) : Prop where
  sorted : b.Sorted
  unreserved : b.get? "xml" = none
  mirrors : Mirrors scope b
  mirrorsOutput : Mirrors (scopeInside inherited around) b
  outer : ∀ p, p ≠ "xml" → boundUri? p (written.get? p) = outerUri? rule inherited around p

/-- The bindings of which a tag declares those that differ. -/
structure Tag.Offers (rule : CanonicalRule) (inherited : List Declaration) (around : List Tag)
    (t : Tag) (source : Bindings) : Prop where
  sorted : source.Sorted
  unreserved : source.get? "xml" = none
  bound : ∀ p uri, p ≠ "xml" → source.get? p = some uri →
    boundUri? p (some uri) = uriInside? inherited (t :: around) p ∧
      (rule = .exclusive → t.Uses p)
  unbound : ∀ p, p ≠ "xml" → source.get? p = none →
    (rule = .exclusive ∧ ¬ t.Uses p) ∨
      (rule ≠ .exclusive ∧ uriInside? inherited (t :: around) p = none ∧
        outerUri? rule inherited around p = none)

/-- What is not bound in an element is not bound in its parent. -/
theorem Tracks.parentUri?_eq_none (h : Tracks rule inherited around scope b written) {p : String}
    (hxml : p ≠ "xml") (hp : b.get? p = none) : parentUri? inherited around p = none := by
  cases around with
  | nil => rfl
  | cons parent outer => rw [parentUri?, h.mirrorsOutput.uriInside? hxml, hp, boundUri?_none]

/-- Under an inclusive rule a tag offers all bindings in scope. -/
theorem Tracks.offers_inclusive (h : Tracks rule inherited around scope b written)
    (hrule : rule ≠ .exclusive) (hprint : t.IsPrintable) :
    t.Offers rule inherited around (b.declareAll t.declarations) := by
  have hinside : Mirrors (scopeInside inherited (t :: around)) (b.declareAll t.declarations) :=
    h.mirrorsOutput.declareAll hprint.declared
  refine ⟨h.sorted.declareAll _, Bindings.get?_xml_declareAll h.unreserved _,
    fun p uri hxml hget => ⟨?_, fun he => absurd he hrule⟩,
    fun p hxml hget => Or.inr ⟨hrule, ?_, ?_⟩⟩
  · rw [hinside.uriInside? hxml, hget]
  · rw [hinside.uriInside? hxml, hget, boundUri?_none]
  · have houter : b.get? p = none := by
      cases hb : b.get? p with
      | none => rfl
      | some u =>
          have hsome := get?_declareAll_isSome t.declarations (b := b) (q := p) (by rw [hb]; rfl)
          rw [hget] at hsome
          cases hsome
    rw [outerUri?_of_ne hrule, h.parentUri?_eq_none hxml houter]

/-- Under the exclusive rule it offers what it uses. -/
theorem Tracks.offers_exclusive (h : Tracks .exclusive inherited around scope b written)
    (hprint : t.IsPrintable) (hfits : t.Fits scope) (hname : t.name.qualifier ≠ some "xml") :
    t.Offers .exclusive inherited around t.used := by
  have hinside : Mirrors (scopeInside inherited (t :: around)) (b.declareAll t.declarations) :=
    h.mirrorsOutput.declareAll hprint.declared
  have hscope := h.mirrors.declareAll hprint.declared
  refine ⟨t.used_sorted, Tag.get?_used_xml hname, fun p uri hxml hget => ⟨?_, fun _ => ?_⟩,
    fun p hxml hget => Or.inl ⟨rfl, fun huses => ?_⟩⟩
  · rw [hinside.uriInside? hxml, hfits.boundUri?_used hprint hscope hxml hget]
  · exact (hfits.isSome_used_iff hxml).mp (by rw [hget]; rfl)
  · have hsome := (hfits.isSome_used_iff hxml).mpr huses
    rw [hget] at hsome
    cases hsome

theorem Tracks.exists_offers (h : Tracks rule inherited around scope b written)
    (hprint : t.IsPrintable) (hfits : t.Fits scope) (hname : t.name.qualifier ≠ some "xml") :
    ∃ source, t.Offers rule inherited around source ∧
      t.canonicalBindings rule (b.declareAll t.declarations) written = source.changed written := by
  by_cases hrule : rule = .exclusive
  · subst hrule
    exact ⟨_, h.offers_exclusive hprint hfits hname, rfl⟩
  · exact ⟨_, h.offers_inclusive hrule hprint, canonicalBindings_of_ne hrule ..⟩

/-- Of what a tag offers, what differs from what is written is what it must
declare. -/
theorem Tag.Offers.mem_changed_iff {source : Bindings} (h : t.Offers rule inherited around source)
    (houter : ∀ p, p ≠ "xml" → boundUri? p (written.get? p) = outerUri? rule inherited around p)
    (p uri : String) :
    (p, uri) ∈ source.changed written ↔ t.MustDeclare rule inherited around p uri := by
  rw [Bindings.mem_changed_iff h.sorted]
  constructor
  · rintro ⟨hget, hne⟩
    have hxml : p ≠ "xml" := by
      rintro rfl
      rw [h.unreserved] at hget
      cases hget
    obtain ⟨hbound, huses⟩ := h.bound p uri hxml hget
    rw [hbound, houter p hxml] at hne
    refine ⟨hxml, huses, hne, ?_⟩
    rw [← hbound, getD_boundUri?]
    rfl
  · rintro ⟨hxml, huses, hne, rfl⟩
    cases hget : source.get? p with
    | none =>
        rcases h.unbound p hxml hget with ⟨hrule, hunused⟩ | ⟨-, hinside, hcompared⟩
        · exact absurd (huses hrule) hunused
        · exact absurd (hinside.trans hcompared.symm) hne
    | some u =>
        obtain ⟨hbound, -⟩ := h.bound p u hxml hget
        have hu : (uriInside? inherited (t :: around) p).getD "" = u := by
          rw [← hbound, getD_boundUri?]
          rfl
        rw [hu, hbound, houter p hxml]
        exact ⟨rfl, hne⟩

/-- Once a tag is written, what is written is what the rule compares with inside
of the tag. -/
theorem Tag.Offers.outer_inside {source : Bindings} (h : t.Offers rule inherited around source)
    (houter : ∀ p, p ≠ "xml" → boundUri? p (written.get? p) = outerUri? rule inherited around p)
    {p : String} (hxml : p ≠ "xml") :
    boundUri? p ((written.update (source.changed written)).get? p)
      = outerUri? rule inherited (t :: around) p := by
  cases hget : source.get? p with
  | some u =>
      obtain ⟨hbound, huses⟩ := h.bound p u hxml hget
      have hwritten : boundUri? p ((written.update (source.changed written)).get? p)
          = boundUri? p (some u) := by
        rcases Bindings.get?_update_changed h.sorted hget with he | ⟨rfl, rfl, he⟩
        · rw [he]
        · rw [he]
          rfl
      rw [hwritten, hbound]
      by_cases hrule : rule = .exclusive
      · subst hrule
        rw [outerUri?, nearestUse?, if_pos (huses rfl)]
      · rw [outerUri?_of_ne hrule, parentUri?]
  | none =>
      have hsame : (written.update (source.changed written)).get? p = written.get? p := by
        rw [Bindings.get?_update (h.sorted.nodup_changed written),
          Bindings.get?_changed_of_none hget, Option.none_or]
      rw [hsame, houter p hxml]
      rcases h.unbound p hxml hget with ⟨rfl, hunused⟩ | ⟨hrule, hinside, hcompared⟩
      · rw [outerUri?, outerUri?, nearestUse?, if_neg hunused]
      · rw [hcompared, outerUri?_of_ne hrule, parentUri?, hinside]

theorem Attribute.before_of_canonicalLe {a b : Attribute} (h : a.canonicalLe b = true) :
    a.Before b := by
  unfold Attribute.canonicalLe at h
  dsimp only at h
  split at h
  · rename_i he
    exact Or.inr ⟨he, of_decide_eq_true h⟩
  · exact Or.inl (of_decide_eq_true h)

/-- A start tag is written by the rules, and what it writes is tracked inside. -/
theorem Tracks.enter (h : Tracks rule inherited around scope b written) (hprint : t.IsPrintable)
    (hfits : t.Fits scope) (hname : t.name.qualifier ≠ some "xml") {declared : Bindings}
    (hdeclared : declared = t.canonicalBindings rule (b.declareAll t.declarations) written) :
    t.StartsAs rule inherited around (t.canonicalChars declared) ∧
      Tracks rule inherited (t :: around) (t.declarations :: scope)
        (b.declareAll t.declarations) (written.update declared) := by
  obtain ⟨source, hoffers, hsource⟩ := h.exists_offers hprint hfits hname
  rw [hsource] at hdeclared
  subst hdeclared
  constructor
  · exact ⟨_, canonicalAttributes t.attributes, hoffers.mem_changed_iff h.outer,
      hoffers.sorted.changed written, perm_canonicalAttributes _,
      (pairwise_canonicalAttributes _).imp Attribute.before_of_canonicalLe, rfl⟩
  · exact ⟨h.sorted.declareAll _, Bindings.get?_xml_declareAll h.unreserved _,
      h.mirrors.declareAll hprint.declared, h.mirrorsOutput.declareAll hprint.declared,
      fun p hxml => hoffers.outer_inside h.outer hxml⟩

end Step

/-! ## Whole texts -/

/-- A node whose name does not have the qualifier of XML itself. -/
def Node.IsUnreserved : Node → Prop
  | .element tag _ => tag.name.qualifier ≠ some "xml"
  | _ => True

instance : (n : Node) → Decidable n.IsUnreserved
  | .element tag _ => inferInstanceAs (Decidable (tag.name.qualifier ≠ some "xml"))
  | .text _ => .isTrue trivial
  | .comment _ => .isTrue trivial
  | .instruction _ _ => .isTrue trivial

/-- No element in an element has a name with the qualifier of XML itself. -/
def Element.IsUnreserved (e : Element) : Prop := Node.All (fun _ n => n.IsUnreserved) [] e

instance (e : Element) : Decidable e.IsUnreserved :=
  inferInstanceAs (Decidable (Node.All (fun _ n => n.IsUnreserved) [] e))

/-- A node that is read as it is written in a scope, and that is not reserved. -/
def Node.IsRegular (scope : Scope) (n : Node) : Prop :=
  n.IsReadable scope ∧ n.IsUnreserved

variable {m : CanonicalMethod} {inherited : List Declaration}

mutual

theorem Node.follows_canonicalChars :
    ∀ {n : Node} {scope : Scope} {around : List Tag} {b written : Bindings},
      n.All Node.IsRegular scope → Tracks m.rule inherited around scope b written →
      Node.Follows m inherited around n (n.canonicalChars m b written)
  | .element tag children, scope, around, b, written, h, htracks => by
      obtain ⟨⟨hprint, hfits⟩, hname⟩ := h.here
      obtain ⟨hstart, hinside⟩ := htracks.enter hprint hfits hname rfl
      rw [Node.canonicalChars]
      exact .element hstart (nodesFollow_canonicalNodes h.children hinside)
  | .text s, _, _, _, _, _, _ => by
      rw [Node.canonicalChars]
      exact .text s
  | .comment s, _, _, _, _, _, _ => by
      rw [Node.canonicalChars]
      split
      · rename_i hm
        exact .comment hm s
      · rename_i hm
        exact .dropped (Bool.eq_false_iff.mpr hm) s
  | .instruction target data, _, _, _, _, _, _ => by
      rw [Node.canonicalChars]
      exact .instruction target data

theorem nodesFollow_canonicalNodes :
    ∀ {ns : List Node} {scope : Scope} {around : List Tag} {b written : Bindings},
      AllNodes Node.IsRegular scope ns → Tracks m.rule inherited around scope b written →
      NodesFollow m inherited around ns (canonicalNodes m b written ns)
  | [], _, _, _, _, _, _ => by
      rw [canonicalNodes]
      exact .nil
  | n :: ns, _, _, _, _, h, htracks => by
      rw [AllNodes] at h
      rw [canonicalNodes]
      exact .cons (Node.follows_canonicalChars h.1 htracks) (nodesFollow_canonicalNodes h.2 htracks)

end

/-- Nothing is written around the element that is canonicalized. -/
theorem Tracks.outermost (rule : CanonicalRule) {scope : Scope}
    (h : NamedDeclarations scope.inherited) :
    Tracks rule scope.inherited [] scope (Bindings.declareAll [] scope.inherited) [] := by
  refine ⟨Bindings.Sorted.declareAll .nil _, Bindings.get?_xml_declareAll rfl _, .inherited h,
    Mirrors.nil.declareAll h, fun p _ => ?_⟩
  rw [Bindings.get?_nil, boundUri?_none]
  cases rule <;> rfl

/-- The canonical text of every element of a document is written by the rules. -/
theorem Element.canonicalInScope_follows {bs : Octets} {e d : Element}
    {inherited : List Declaration} (h : Element.read bs = .ok e) (hnames : e.IsWellNamed)
    (hxml : e.IsUnreserved) (hd : (d, inherited) ∈ Node.elements [] e) (m : CanonicalMethod) :
    Node.Follows m inherited [] d (d.canonicalInScope m inherited).toList := by
  have hreadable : Node.All Node.IsReadable [] e :=
    (Element.allHold_of_read h hnames).imp fun _ _ => Node.holds_isResolved_iff.mp
  have hprint : ∀ {scope tag children}, Node.IsRegular scope (.element tag children) →
      NamedDeclarations tag.declarations := fun hn => Tag.IsPrintable.declared hn.1.1
  have hnamed : NamedDeclarations (Scope.inherited []) := fun d hd => by cases hd
  obtain ⟨scope, rfl, hnamed, hd⟩ :=
    Node.All.exists_scope hprint (hreadable.and hxml) hnamed hd
  rw [Element.canonicalInScope, String.toList_ofList]
  exact Node.follows_canonicalChars hd (.outermost m.rule hnamed)

/-- For example, the text of the innermost element of `nested` by the exclusive rule. -/
theorem Element.canonicalInScope_follows_nested :
    ∃ d inherited, nested.findDescendant? "urn:p" "d" = some (d, inherited) ∧
      Node.Follows .exclusive inherited [] d (d.canonicalInScope .exclusive inherited).toList := by
  obtain ⟨⟨d, inherited⟩, hd⟩ :=
    Option.isSome_iff_exists.mp (by rfl : (nested.findDescendant? "urn:p" "d").isSome)
  exact ⟨d, inherited, hd, Element.canonicalInScope_follows read_nested nested_isWellNamed
    (by decide) (Element.IsApexOf.descendant hd).mem_elements .exclusive⟩

end Presign.Xml
