import Mathlib.Data.List.Chain
import Mathlib.Data.List.Infix
import Presign.Proofs.Xml.Resolution

/-!
# Well-formed trees are read as they are written

A tree is well formed if it could be that of a document: its names are made of names
without colon, they have the namespaces that the declarations around give them, no
name is declared or given twice, texts are neither empty nor next to each other, and
comments and processing instructions hold nothing that the reader changes or that
ends them.  Texts and attribute values are arbitrary.

Such a tree is readable, and joining its texts changes nothing.  So reading what is
written gives the tree itself.
-/

namespace Presign.Xml

/-! ## Names without colon -/

/-- The code points that begin names, by their first and last ones.  The colon is
left out. -/
def nameStartRanges : List (Nat × Nat) :=
  [(0x41, 0x5A), (0x5F, 0x5F), (0x61, 0x7A), (0xC0, 0xD6), (0xD8, 0xF6), (0xF8, 0x2FF),
    (0x370, 0x37D), (0x37F, 0x1FFF), (0x200C, 0x200D), (0x2070, 0x218F), (0x2C00, 0x2FEF),
    (0x3001, 0xD7FF), (0xF900, 0xFDCF), (0xFDF0, 0xFFFD), (0x10000, 0xEFFFF)]

/-- The code points that stand in names but do not begin them: the hyphen, the full
stop, digits, the middle dot, combining marks and two ties. -/
def nameInnerRanges : List (Nat × Nat) :=
  [(0x2D, 0x2E), (0x30, 0x39), (0xB7, 0xB7), (0x300, 0x36F), (0x203F, 0x2040)]

/-- Whether a character belongs to ranges of code points. -/
def isWithin (ranges : List (Nat × Nat)) (c : Char) : Bool :=
  ranges.any fun (first, last) => first ≤ c.toNat && c.toNat ≤ last

/-- Whether a name without colon may have the character anywhere. -/
def isNameStart (c : Char) : Bool := isWithin nameStartRanges c

/-- Whether a name without colon may have the character behind its first one. -/
def isNameChar (c : Char) : Bool := isNameStart c || isWithin nameInnerRanges c

/-- A name without colon, the production `NCName` of namespaces in XML. -/
structure IsNCName (s : String) : Prop where
  nonempty : s ≠ ""
  start : ∀ c ∈ s.toList.head?, isNameStart c = true
  chars : ∀ c ∈ s.toList, isNameChar c = true

instance (s : String) : Decidable (IsNCName s) :=
  decidable_of_iff (s ≠ "" ∧ s.toList.head?.all isNameStart ∧ s.toList.all isNameChar)
    ⟨fun ⟨nonempty, start, chars⟩ =>
      ⟨nonempty, (Option.all_eq_true _ _).mp start, List.all_eq_true.mp chars⟩,
    fun h => ⟨h.nonempty, (Option.all_eq_true _ _).mpr h.start, List.all_eq_true.mpr h.chars⟩⟩

/-- The characters that have a meaning in tags. -/
def markupChars : List Char :=
  [' ', '\t', '\n', '\r', '<', '>', '/', '=', '&', '\x22', '\x27', '!', '?', ':']

theorem mem_markupChars {c : Char} (h : isMarkup c = true) : c ∈ markupChars := by
  simpa [isMarkup, Token.isBlank, markupChars, or_assoc] using h

/-- No character of a name has a meaning in tags. -/
theorem isMarkup_of_isNameChar {c : Char} (h : isNameChar c = true) : isMarkup c = false := by
  have hnone : markupChars.all (fun d => !isNameChar d) = true := by decide
  by_contra hmarkup
  rw [Bool.not_eq_false] at hmarkup
  have hc := List.all_eq_true.mp hnone c (mem_markupChars hmarkup)
  rw [h] at hc
  cases hc

/-- Characters of names come behind all blanks of ASCII. -/
theorem le_toNat_of_isNameChar {c : Char} (h : isNameChar c = true) : 0x2D ≤ c.toNat := by
  have hfirst : ∀ r ∈ nameStartRanges ++ nameInnerRanges, 0x2D ≤ r.1 := by decide
  rw [isNameChar, isNameStart, isWithin, isWithin, ← List.any_append, List.any_eq_true] at h
  obtain ⟨r, hr, h⟩ := h
  rw [Bool.and_eq_true, decide_eq_true_eq] at h
  exact Nat.le_trans (hfirst r hr) h.1

theorem toNat_le_of_isTargetEnd {c : Char} (h : isTargetEnd c = true) : c.toNat ≤ 0x20 := by
  have hbyte (b : UInt8) (hb : Octets.isBlank b = true) : b.toNat ≤ 0x20 := by
    simp only [Octets.isBlank, Bool.or_eq_true, beq_iff_eq] at hb
    rcases hb with (((rfl | rfl) | rfl) | rfl) | rfl <;> decide
  rw [isTargetEnd, Bool.and_eq_true, decide_eq_true_eq] at h
  have hle := hbyte _ h.1
  rw [UInt8.toNat_ofNat'] at hle
  omega

namespace IsNCName

variable {s : String}

theorem isNamePart (h : IsNCName s) : IsNamePart s :=
  ⟨h.nonempty, fun c hc => isMarkup_of_isNameChar (h.chars c hc)⟩

/-- No character of a name ends the target of a processing instruction. -/
theorem isTargetEnd_eq_false (h : IsNCName s) {c : Char} (hc : c ∈ s.toList) :
    isTargetEnd c = false := by
  have hlow := le_toNat_of_isNameChar (h.chars c hc)
  by_contra hend
  rw [Bool.not_eq_false] at hend
  have hhigh := toNat_le_of_isTargetEnd hend
  omega

end IsNCName

/-! ## Tags -/

/-- A name made of names without colon. -/
structure Name.IsQName (n : Name) : Prop where
  localPart : IsNCName n.localPart
  qualifier : ∀ q ∈ n.qualifier, IsNCName q

instance (n : Name) : Decidable n.IsQName :=
  decidable_of_iff (IsNCName n.localPart ∧ ∀ q ∈ n.qualifier, IsNCName q)
    ⟨fun h => ⟨h.1, h.2⟩, fun h => ⟨h.localPart, h.qualifier⟩⟩

theorem Name.IsQName.isPlain {n : Name} (h : n.IsQName) : n.IsPlain :=
  ⟨h.localPart.isNamePart, fun q hq => (h.qualifier q hq).isNamePart⟩

/-- A tag that could stand in a document, in the scope of its parent.  Its declarations
may give any URIs, even empty ones. -/
structure Tag.IsWellFormed (scope : Scope) (t : Tag) : Prop where
  name : t.name.IsQName
  declared : ∀ d ∈ t.declarations, ∀ q ∈ d.qualifier, IsNCName q
  /-- No attribute is a declaration. -/
  attributes : ∀ a ∈ t.attributes, a.name.IsQName ∧ a.name.declares = false
  resolves : t.Resolves (Scope.inherited (t.declarations :: scope))
  declaredOnce : (t.declarations.map Declaration.qualifier).Nodup
  attributesOnce : (t.attributes.map fun a => (a.name.qualifier, a.name.localPart)).Nodup

instance (scope : Scope) (t : Tag) : Decidable (t.Fits scope) :=
  decidable_of_iff
    (Scope.elementName (t.declarations :: scope) t.name.qualifier t.name.localPart = .ok t.name ∧
      ∀ a ∈ t.attributes,
        Scope.attributeName (t.declarations :: scope) a.name.qualifier a.name.localPart
          = .ok a.name)
    ⟨fun h => ⟨h.1, h.2⟩, fun h => ⟨h.name, h.attributes⟩⟩

instance (scope : Scope) (t : Tag) : Decidable (t.IsWellFormed scope) :=
  decidable_of_iff
    (t.name.IsQName ∧ (∀ d ∈ t.declarations, ∀ q ∈ d.qualifier, IsNCName q) ∧
      (∀ a ∈ t.attributes, a.name.IsQName ∧ a.name.declares = false) ∧ t.Fits scope ∧
      (t.declarations.map Declaration.qualifier).Nodup ∧
      (t.attributes.map fun a => (a.name.qualifier, a.name.localPart)).Nodup)
    ⟨fun ⟨name, declared, attributes, fits, declaredOnce, attributesOnce⟩ =>
      ⟨name, declared, attributes, Tag.fits_iff_resolves.mp fits, declaredOnce, attributesOnce⟩,
    fun h => ⟨h.name, h.declared, h.attributes, Tag.fits_iff_resolves.mpr h.resolves,
      h.declaredOnce, h.attributesOnce⟩⟩

/-- The parts of the name of the attribute that a declaration is written as. -/
def Declaration.parts (d : Declaration) : Option String × String :=
  match d.qualifier with
  | some q => (some "xmlns", q)
  | none => (none, "xmlns")

theorem Declaration.splitName_key {d : Declaration}
    (h : ∀ q, d.qualifier = some q → IsNamePart q) : splitName d.key = d.parts := by
  obtain ⟨qualifier, uri⟩ := d
  cases qualifier with
  | none => exact (rfl : splitName "xmlns" = (none, "xmlns"))
  | some q => exact splitName_qualified (isPlain_xmlns (h q rfl))

theorem Declaration.qualifier_inj_of_parts {d d' : Declaration} (h : d.parts = d'.parts) :
    d.qualifier = d'.qualifier := by
  obtain ⟨qualifier, uri⟩ := d
  obtain ⟨qualifier', uri'⟩ := d'
  cases qualifier with
  | none =>
      cases qualifier' with
      | none => rfl
      | some q' => simp [parts] at h
  | some q =>
      cases qualifier' with
      | none => simp [parts] at h
      | some q' => simpa [parts] using h

/-- Only attributes that are declarations have the names of declarations. -/
theorem Declaration.declares_of_parts {d : Declaration} {n : Name}
    (h : d.parts = (n.qualifier, n.localPart)) : n.declares = true := by
  obtain ⟨qualifier, uri⟩ := d
  cases qualifier with
  | none =>
      obtain ⟨hq, hl⟩ := Prod.mk.inj h
      simp [Name.declares, ← hq, ← hl]
  | some q =>
      obtain ⟨hq, -⟩ := Prod.mk.inj h
      simp [Name.declares, ← hq]

namespace Tag.IsWellFormed

variable {scope : Scope} {t : Tag}

/-- A well-formed tag writes no name twice.  Its names are told apart by their
parts. -/
theorem nodup_written (h : t.IsWellFormed scope) : (t.written.map Prod.fst).Nodup := by
  have hdeclared : ∀ d ∈ t.declarations, splitName d.key = d.parts := fun d hd =>
    d.splitName_key fun q hq => (h.declared d hd q hq).isNamePart
  have hattributes : ∀ a ∈ t.attributes,
      splitName a.name.qualified = (a.name.qualifier, a.name.localPart) := fun a ha =>
    splitName_qualified (h.attributes a ha).1.isPlain
  have hparts : (t.written.map Prod.fst).map splitName
      = t.declarations.map Declaration.parts
        ++ t.attributes.map fun a => (a.name.qualifier, a.name.localPart) := by
    simp only [Tag.written, List.map_append, List.map_map]
    exact congrArg₂ (· ++ ·) (List.map_congr_left hdeclared) (List.map_congr_left hattributes)
  apply List.Nodup.of_map splitName
  rw [hparts, List.nodup_append]
  refine ⟨?_, h.attributesOnce, ?_⟩
  · have honce := h.declaredOnce
    rw [List.Nodup, List.pairwise_map] at honce ⊢
    exact honce.imp fun hne he => hne (Declaration.qualifier_inj_of_parts he)
  · intro parts hd parts' ha he
    obtain ⟨d, -, rfl⟩ := List.mem_map.mp hd
    obtain ⟨a, hmem, rfl⟩ := List.mem_map.mp ha
    have hdeclares := Declaration.declares_of_parts he
    rw [(h.attributes a hmem).2] at hdeclares
    cases hdeclares

theorem isPrintable (h : t.IsWellFormed scope) : t.IsPrintable :=
  ⟨h.name.isPlain, fun d hd q hq => (h.declared d hd q hq).isNamePart,
    fun a ha => ⟨(h.attributes a ha).1.isPlain, (h.attributes a ha).2⟩, h.nodup_written⟩

end Tag.IsWellFormed

/-! ## Nodes -/

/-- A comment has no two hyphens in a row and no carriage return.  A hyphen at its end
would not be allowed in a document, but does no harm. -/
structure IsWellFormedComment (s : String) : Prop where
  hyphens : ¬ ['-', '-'] <:+: s.toList
  line : '\r' ∉ s.toList

/-- A processing instruction is named, and its data does not end it, has no carriage
return and does not begin with white space of Unicode. -/
structure IsWellFormedInstruction (target data : String) : Prop where
  named : IsNCName target ∧ target ≠ "xml"
  inline : ∀ c ∈ data.toList, c ≠ '>' ∧ c ≠ '\r'
  trimmed : ∀ c ∈ data.toList.head?, Text.isBlank c = false

instance (s : String) : Decidable (IsWellFormedComment s) :=
  decidable_of_iff (¬ ['-', '-'] <:+: s.toList ∧ '\r' ∉ s.toList)
    ⟨fun h => ⟨h.1, h.2⟩, fun h => ⟨h.hyphens, h.line⟩⟩

instance (target data : String) : Decidable (IsWellFormedInstruction target data) :=
  decidable_of_iff ((IsNCName target ∧ target ≠ "xml") ∧
      data.toList.all (fun c => c ≠ '>' ∧ c ≠ '\r') ∧
      data.toList.head?.all fun c => !Text.isBlank c)
    ⟨fun ⟨named, inline, trimmed⟩ =>
      ⟨named, by simpa using inline, by simpa [Option.all_eq_true] using trimmed⟩,
    fun h => ⟨h.named, by simpa using h.inline, by simpa [Option.all_eq_true] using h.trimmed⟩⟩

/-- No text is next to a text. -/
def NoAdjacentTexts (ns : List Node) : Prop :=
  ns.IsChain fun n m => n.text? = none ∨ m.text? = none

instance (ns : List Node) : Decidable (NoAdjacentTexts ns) :=
  inferInstanceAs (Decidable (List.IsChain _ ns))

/-- A node that could stand in a document, in a scope. -/
def Node.IsWellFormed (scope : Scope) : Node → Prop
  | .element tag children => tag.IsWellFormed scope ∧ NoAdjacentTexts children
  | .text s => s ≠ ""
  | .comment s => IsWellFormedComment s
  | .instruction target data => IsWellFormedInstruction target data

instance (scope : Scope) : (n : Node) → Decidable (n.IsWellFormed scope)
  | .element tag children =>
    inferInstanceAs (Decidable (tag.IsWellFormed scope ∧ NoAdjacentTexts children))
  | .text s => inferInstanceAs (Decidable (s ≠ ""))
  | .comment s => inferInstanceAs (Decidable (IsWellFormedComment s))
  | .instruction target data =>
    inferInstanceAs (Decidable (IsWellFormedInstruction target data))

/-- An element that could be the root of a document. -/
def Element.IsWellFormed (e : Element) : Prop := Node.All Node.IsWellFormed [] e

instance (e : Element) : Decidable e.IsWellFormed :=
  inferInstanceAs (Decidable (Node.All Node.IsWellFormed [] e))

/-! ## Reading -/

/-- Without two hyphens in a row, a comment ends where its end is written. -/
theorem encloses_of_hyphens {cs : List Char} (h : ¬ ['-', '-'] <:+: cs) :
    Text.Encloses ['-', '-', '>'] cs := by
  induction cs with
  | nil => exact Text.encloses_nil (by simp)
  | cons c cs ih =>
      refine (ih fun hi => h (hi.trans (List.suffix_cons c cs).isInfix)).cons ?_
      intro hprefix
      cases cs with
      | nil => simp [List.isPrefixOf] at hprefix
      | cons d ds =>
          simp only [List.cons_append, List.isPrefixOf, Bool.and_eq_true, beq_iff_eq] at hprefix
          obtain ⟨rfl, rfl, -⟩ := hprefix
          exact h (List.prefix_append ['-', '-'] ds).isInfix

theorem IsWellFormedComment.isComment {s : String} (h : IsWellFormedComment s) : IsComment s :=
  ⟨encloses_of_hyphens h.hyphens, h.line⟩

theorem IsWellFormedInstruction.isInstruction {target data : String}
    (h : IsWellFormedInstruction target data) : IsInstruction target data := by
  refine ⟨⟨h.named.1.isNamePart, h.named.2⟩, fun c hc => h.named.1.isTargetEnd_eq_false hc,
    h.inline, ?_⟩
  have htrimmed := h.trimmed
  cases hdata : data.toList with
  | nil => rfl
  | cons c cs =>
      rw [hdata] at htrimmed
      exact List.dropWhile_cons_of_neg (by simp [htrimmed c rfl])

theorem Node.IsWellFormed.isReadable {scope : Scope} {n : Node} (h : n.IsWellFormed scope) :
    n.IsReadable scope := by
  cases n with
  | element tag children => exact ⟨h.1.isPrintable, Tag.fits_iff_resolves.mpr h.1.resolves⟩
  | text s => exact ⟨trivial, trivial⟩
  | comment s => exact ⟨h.isComment, trivial⟩
  | instruction target data => exact ⟨h.isInstruction, trivial⟩

/-! ## Joining -/

mutual

/-- A well-formed node has no texts to join. -/
theorem Node.joined_eq_self :
    ∀ {n : Node} {scope : Scope}, n.All Node.IsWellFormed scope → n.joined = n
  | .element tag children, _, h => by
      have hchain : NoAdjacentTexts children := h.here.2
      rw [Node.joined, joinFrom_eq_append h.children hchain fun hs => absurd rfl hs]
      rfl
  | .text _, _, _ => rfl
  | .comment _, _, _ => rfl
  | .instruction _ _, _, _ => rfl

/-- Neither have nodes behind a text, if they do not begin with one. -/
theorem joinFrom_eq_append :
    ∀ {ns : List Node} {scope : Scope} {s : String}, AllNodes Node.IsWellFormed scope ns →
      NoAdjacentTexts ns → (s ≠ "" → ∀ n ∈ ns.head?, n.text? = none) →
      joinFrom s ns = textNode s ++ ns
  | [], _, _, _, _, _ => by rw [joinFrom, List.append_nil]
  | n :: ns, _, s, h, hchain, hs => by
      rw [AllNodes] at h
      obtain ⟨hfirst, hafter⟩ := List.isChain_cons.mp hchain
      cases htext : n.text? with
      | none =>
          rw [joinFrom_of_not_text htext, Node.joined_eq_self h.1,
            joinFrom_eq_append h.2 hafter fun hs => absurd rfl hs]
          rfl
      | some t =>
          have hn := Node.text?_eq_some htext
          subst hn
          have hempty : s = "" := by
            by_contra hne
            exact absurd (htext.symm.trans (hs hne _ rfl)) (by simp)
          have ht : t ≠ "" := h.1.here
          have hnext : ∀ m ∈ ns.head?, m.text? = none := fun m hm =>
            (hfirst m hm).resolve_left (by simp [htext])
          rw [hempty, joinFrom_text, String.empty_append,
            joinFrom_eq_append h.2 hafter fun _ => hnext, textNode_of_ne ht]
          rfl

end

/-! ## Round trip -/

/-- A well-formed tree is read from what the printer writes. -/
theorem Element.read_render_self {e : Element} (h : e.IsWellFormed) :
    Element.read (Text.encode e.render) = .ok e := by
  have hjoined : e.joined = e := by
    have hnode : (e : Node).joined = e := Node.joined_eq_self h
    rw [Node.joined] at hnode
    obtain ⟨-, hchildren⟩ := Node.element.inj hnode
    rw [Element.joined, hchildren]
  have hread := Element.read_render (Node.All.imp (fun _ _ hn => hn.isReadable) h)
  rwa [hjoined] at hread

/-- A tree with every kind of node, the default namespace undone inside of it, and
characters that have to be written as references. -/
def assorted : Element :=
  ⟨⟨⟨some "p", "a", some "urn:p"⟩, [⟨none, "urn:d"⟩, ⟨some "p", "urn:p"⟩],
      [⟨⟨none, "x", none⟩, "\x22\t\r\n&<>"⟩, ⟨⟨some "p", "x", some "urn:p"⟩, " "⟩,
        ⟨⟨some "xml", "lang", some xmlSpace⟩, "en"⟩]⟩,
    [.text "1 < 2 & 3\r\n]]>", .comment "- c", .instruction "t-1" "d='?' ",
      .element ⟨⟨none, "b", some "urn:d"⟩, [], []⟩
        [.element ⟨⟨none, "c", none⟩, [⟨none, ""⟩], []⟩ [], .instruction "t.2" ""],
      .text " "]⟩

/-- For example, `assorted` is read from what the printer writes. -/
theorem Element.read_render_assorted :
    assorted.IsWellFormed ∧ Element.read (Text.encode assorted.render) = .ok assorted := by
  have hwell : assorted.IsWellFormed := by decide +kernel
  exact ⟨hwell, Element.read_render_self hwell⟩

end Presign.Xml
