import Presign.Proofs.Xml.Everywhere
import Presign.Proofs.Xml.Token
import Presign.Xml.Canonical

/-!
# Documents that are written and read

A written tree is read as the same tree, except that texts next to each other
become one text and empty texts vanish (`Element.joined`).  This holds for the
form of the printer and for a form without empty tags, which canonical texts
have.

The induction is over the tree.  Text is pending until markup follows, so the
statement for a list of nodes begins behind a pending text.
-/

namespace Presign.Xml

/-! ## Joined text -/

/-- The content of a node that is text. -/
def Node.text? : Node → Option String
  | .text s => some s
  | _ => none

/-- A text as a node, if it is not empty. -/
def textNode (s : String) : List Node := if s = "" then [] else [.text s]

mutual

/-- A node with all texts joined inside of it. -/
def Node.joined : Node → Node
  | .element tag children => .element tag (joinFrom "" children)
  | .text s => .text s
  | .comment s => .comment s
  | .instruction target data => .instruction target data

/-- Nodes behind a text, with all texts joined. -/
def joinFrom (s : String) : List Node → List Node
  | [] => textNode s
  | n :: ns =>
    match n.text? with
    | some t => joinFrom (s ++ t) ns
    | none => textNode s ++ n.joined :: joinFrom "" ns

end

theorem joinFrom_text (s t : String) (ns : List Node) :
    joinFrom s (.text t :: ns) = joinFrom (s ++ t) ns := rfl

theorem joinFrom_of_not_text {n : Node} (h : n.text? = none) (s : String) (ns : List Node) :
    joinFrom s (n :: ns) = textNode s ++ n.joined :: joinFrom "" ns := by
  rw [joinFrom, h]

theorem text?_joined (n : Node) : n.joined.text? = n.text? := by
  cases n <;> rfl

/-- An element with all texts joined inside of it. -/
def Element.joined (e : Element) : Element := ⟨e.tag, joinFrom "" e.children⟩

theorem textNode_of_ne {s : String} (h : s ≠ "") : textNode s = [.text s] := if_neg h

theorem reverse_textNode (s : String) : (textNode s).reverse = textNode s := by
  unfold textNode
  split <;> rfl

/-! ## Written form -/

mutual

/-- A node as it is written, with or without empty tags. -/
def Node.charsWith (short : Bool) : Node → List Char
  | .element tag children =>
    if short && children.isEmpty then tag.chars ++ ['/', '>']
    else tag.chars ++ '>' :: nodesCharsWith short children ++ tag.endChars
  | .text s => escapeText s
  | .comment s => commentChars s
  | .instruction target data => instructionChars target data

/-- Nodes as they are written, with or without empty tags. -/
def nodesCharsWith (short : Bool) : List Node → List Char
  | [] => []
  | n :: ns => n.charsWith short ++ nodesCharsWith short ns

end

mutual

theorem Node.charsWith_true : ∀ n : Node, n.charsWith true = n.chars
  | .element tag children => by
      rw [Node.charsWith, Node.chars, elementChars, nodesCharsWith_true children, Bool.true_and]
      split
      · rfl
      · simp [Tag.endChars]
  | .text _ => by rw [Node.charsWith, Node.chars]
  | .comment _ => by rw [Node.charsWith, Node.chars]
  | .instruction _ _ => by rw [Node.charsWith, Node.chars]

theorem nodesCharsWith_true : ∀ ns : List Node, nodesCharsWith true ns = nodesChars ns
  | [] => by rw [nodesCharsWith, nodesChars]
  | n :: ns => by
      rw [nodesCharsWith, nodesChars, Node.charsWith_true n, nodesCharsWith_true ns]

end

theorem Node.charsWith_eq_cons {short : Bool} {n : Node} (h : n.text? = none) :
    ∃ cs, n.charsWith short = '<' :: cs := by
  cases n with
  | element tag children =>
      rw [Node.charsWith, Tag.chars_eq]
      split
      · exact ⟨_, rfl⟩
      · exact ⟨_, rfl⟩
  | text s => cases h
  | comment s => exact ⟨_, rfl⟩
  | instruction target data => exact ⟨_, rfl⟩

/-- A node that can be written and read. -/
def Node.IsPrintable : Node → Prop
  | .element tag _ => tag.IsPrintable
  | .text _ => True
  | .comment s => IsComment s
  | .instruction target data => IsInstruction target data

/-- A node whose own names have the namespaces of its scope. -/
def Node.Fits (scope : Scope) : Node → Prop
  | .element tag _ => tag.Fits scope
  | _ => True

/-- A node that is read as it is when it is written in a scope. -/
def Node.IsReadable (scope : Scope) (n : Node) : Prop := n.IsPrintable ∧ n.Fits scope

/-! ## Reading -/

namespace Progress

/-- Takes a whole text into account. -/
def run (p : Progress) (cs : List Char) : Except Error Progress :=
  (Token.scan cs).foldlM step p

theorem run_nil (p : Progress) : p.run [] = .ok p := by
  rw [run, Token.scan]
  rfl

theorem run_of_next {p : Progress} {cs rest : List Char} {token : Token}
    (h : Token.next? cs = some (token, rest)) :
    p.run cs = p.step token >>= fun p => p.run rest := by
  rw [run, Token.scan]
  split
  · rename_i hnone
    rw [h] at hnone
    cases hnone
  · rename_i token' rest' hsome
    rw [h] at hsome
    cases hsome
    rfl

/-- What is open, with other children of the innermost open element. -/
def within (t : Tag) (children : List Node) (os : List OpenElement) (root : Option Element) :
    Progress := ⟨⟨t, children⟩ :: os, root⟩

/-- No text stands last among children that are given last one first. -/
def NoTextLast (children : List Node) : Prop := ∀ s rest, children ≠ .text s :: rest

variable {t : Tag} {children : List Node} {os : List OpenElement} {root : Option Element}

theorem addNode_of_noTextLast (h : NoTextLast children) (n : Node) :
    addNode children n = n :: children := by
  unfold addNode
  split
  · exact absurd rfl (h _ _)
  · rfl

theorem addNode_of_not_text {n : Node} (h : n.text? = none) :
    addNode children n = n :: children := by
  unfold addNode
  split
  · cases h
  · rfl

/-- Pending text becomes one node when markup follows. -/
theorem run_escapeText (h : NoTextLast children) (s : String) (rest : List Char) :
    (within t children os root).run (escapeText s ++ '<' :: rest)
      = (within t (textNode s ++ children) os root).run ('<' :: rest) := by
  by_cases hs : s = ""
  · subst hs
    rfl
  · rw [run_of_next (next?_text (escapeText_ne_nil hs) (fun c hc => (mem_escapeText hc).1) rest),
      step, expand?_escapeText]
    dsimp only [add, within]
    rw [String.ofList_toList, addNode_of_noTextLast h, textNode_of_ne hs]
    rfl

theorem run_comment {s : String} (h : IsComment s) (rest : List Char) :
    (within t children os root).run (commentChars s ++ rest)
      = (within t (.comment s :: children) os root).run rest := by
  rw [run_of_next (next?_comment h rest), step]
  dsimp only [add, within]
  rw [String.ofList_toList, addNode_of_not_text rfl]
  rfl

theorem run_instruction {target data : String} (h : IsInstruction target data)
    (rest : List Char) :
    (within t children os root).run (instructionChars target data ++ rest)
      = (within t (.instruction target data :: children) os root).run rest := by
  rw [run_of_next (next?_instruction h rest), step, splitInstruction_content h]
  dsimp only [add, within]
  rw [addNode_of_not_text rfl]
  rfl

/-- The declarations of what is open around an element. -/
def scopeOf (os : List OpenElement) : Scope := os.map fun o => o.tag.declarations

/-- A written start tag opens an element. -/
theorem run_startTag (h : t.IsPrintable) (hfits : t.Fits (scopeOf os)) (rest : List Char) :
    (Progress.mk os root).run ('<' :: (t.inside ++ '>' :: rest))
      = (within t [] os root).run rest := by
  have hread : Tag.read (Progress.mk os root).scope t.inside = .ok t := Tag.read_inside h hfits
  rw [run_of_next (next?_startTag h rest), step, hread]
  rfl

/-- A written end tag closes the innermost open element. -/
theorem run_endTag (h : t.name.IsPlain) (children : List Node) (rest : List Char) :
    (within t children os root).run ('<' :: '/' :: (t.name.qualified.toList ++ '>' :: rest))
      = (within t children os root).close >>= fun p => p.run rest := by
  rw [run_of_next (next?_endTag h rest)]
  dsimp only [step, within]
  rw [String.ofList_toList, if_pos rfl]

theorem noTextLast_of_not_text {n : Node} (h : n.text? = none) : NoTextLast (n :: children) := by
  intro s rest he
  cases he
  cases h

mutual

/-- A written element is opened, filled with its children and closed. -/
theorem run_element (short : Bool) :
    ∀ {n : Node} {tag : Tag} {children : List Node}, n = .element tag children →
      ∀ (os : List OpenElement) (root : Option Element),
        n.All Node.IsReadable (scopeOf os) → ∀ rest,
        (Progress.mk os root).run (n.charsWith short ++ rest)
          = (within tag (joinFrom "" children).reverse os root).close >>= fun p => p.run rest
  | .element tag [], _, _, rfl, os, root, h, rest => by
      obtain ⟨hprint, hfits⟩ := h.here
      cases short with
      | true =>
          have hread : Tag.read (Progress.mk os root).scope tag.inside = .ok tag :=
            Tag.read_inside hprint hfits
          have hchars : (Node.element tag []).charsWith true ++ rest
              = '<' :: (tag.inside ++ '/' :: '>' :: rest) := by
            simp [Node.charsWith, Tag.chars_eq]
          rw [hchars, run_of_next (next?_emptyTag hprint rest), step, hread]
          rfl
      | false =>
          have hchars : (Node.element tag []).charsWith false ++ rest
              = '<' :: (tag.inside ++ '>' :: '<' :: '/' ::
                (tag.name.qualified.toList ++ '>' :: rest)) := by
            simp [Node.charsWith, nodesCharsWith, Tag.chars_eq, Tag.endChars]
          rw [hchars, run_startTag hprint hfits, run_endTag hprint.name]
          rfl
  | .element tag (child :: children), _, _, rfl, os, root, h, rest => by
      obtain ⟨hprint, hfits⟩ := h.here
      have hchars : (Node.element tag (child :: children)).charsWith short ++ rest
          = '<' :: (tag.inside ++ '>' :: (nodesCharsWith short (child :: children) ++
            '<' :: ('/' :: (tag.name.qualified.toList ++ '>' :: rest)))) := by
        simp [Node.charsWith, Tag.chars_eq, Tag.endChars]
      have hchildren := run_nodes short tag os root h.children [] (fun _ _ he => by cases he) ""
        ('/' :: (tag.name.qualified.toList ++ '>' :: rest))
      rw [escapeText_empty, List.nil_append, List.append_nil] at hchildren
      rw [hchars, run_startTag hprint hfits, hchildren, run_endTag hprint.name]

/-- Written markup inside of an element becomes a child. -/
theorem run_markup (short : Bool) :
    ∀ {n : Node} {tag : Tag} {os : List OpenElement} {root : Option Element},
      n.All Node.IsReadable (tag.declarations :: scopeOf os) → n.text? = none →
      ∀ children rest, (within tag children os root).run (n.charsWith short ++ rest)
        = (within tag (n.joined :: children) os root).run rest
  | .element tag' children', tag, os, root, h, _, children, rest => by
      have helement := run_element short rfl (⟨tag, children⟩ :: os) root h rest
      change (Progress.mk (⟨tag, children⟩ :: os) root).run _ = _
      rw [helement]
      dsimp only [within, close]
      rw [List.reverse_reverse]
      rfl
  | .comment c, tag, os, root, h, _, children, rest => run_comment h.here.1 rest
  | .instruction target data, tag, os, root, h, _, children, rest => run_instruction h.here.1 rest

/-- Written nodes behind a pending text become children of the innermost open
element. -/
theorem run_nodes (short : Bool) :
    ∀ {ns : List Node} (tag : Tag) (os : List OpenElement) (root : Option Element),
      AllNodes Node.IsReadable (tag.declarations :: scopeOf os) ns →
      ∀ children : List Node, NoTextLast children → ∀ s rest,
        (within tag children os root).run (escapeText s ++ nodesCharsWith short ns ++ '<' :: rest)
          = (within tag ((joinFrom s ns).reverse ++ children) os root).run ('<' :: rest)
  | [], _, _, _, _, _, hlast, s, rest => by
      rw [nodesCharsWith, List.append_nil, run_escapeText hlast, joinFrom, reverse_textNode]
  | n :: ns, tag, os, root, h, children, hlast, s, rest => by
      rw [AllNodes] at h
      cases ht : n.text? with
      | some t =>
          have hn : n = .text t := by
            cases n <;> cases ht
            rfl
          subst hn
          rw [nodesCharsWith, Node.charsWith, ← List.append_assoc, ← escapeText_append,
            run_nodes short tag os root h.2 children hlast, joinFrom_text]
      | none =>
          obtain ⟨cs, hcs⟩ : ∃ cs, n.charsWith short = '<' :: cs := n.charsWith_eq_cons ht
          have htail := run_nodes short tag os root h.2 (n.joined :: (textNode s ++ children))
            (noTextLast_of_not_text (by rw [text?_joined, ht])) "" rest
          rw [escapeText_empty, List.nil_append] at htail
          rw [nodesCharsWith, hcs, List.append_assoc, List.append_assoc, List.cons_append,
            run_escapeText hlast, ← List.cons_append, ← hcs, run_markup short h.1 ht, htail,
            joinFrom_of_not_text ht]
          simp [reverse_textNode]

end

end Progress

/-! ## Line ends -/

theorem not_mem_qualified {n : Name} (h : n.IsPlain) : '\r' ∉ n.qualified.toList := fun hm =>
  absurd (n.mem_qualified h hm) (by decide)

theorem not_mem_attributeChars {key value : String} (h : '\r' ∉ key.toList) :
    '\r' ∉ attributeChars key value := by
  have hvalue : '\r' ∉ value.toList.flatMap escapeValueChar := fun hm => (mem_escapeValue hm).2 rfl
  simp [attributeChars, h, hvalue]

theorem Tag.not_mem_inside {t : Tag} (h : t.IsPrintable) : '\r' ∉ t.inside := by
  intro hm
  rw [Tag.inside, List.mem_append] at hm
  rcases hm with hm | hm
  · exact not_mem_qualified h.name hm
  · obtain ⟨p, hp, hm⟩ := List.mem_flatMap.mp hm
    refine not_mem_attributeChars ?_ hm
    intro hkey
    have := (h.isKey hp).2 _ hkey
    revert this
    decide

mutual

/-- No carriage return is written. -/
theorem Node.not_mem_charsWith (short : Bool) :
    ∀ {n : Node} {scope : Scope}, n.All Node.IsReadable scope → '\r' ∉ n.charsWith short
  | .element tag children, _, h => by
      have htag := Tag.not_mem_inside h.here.1
      have hname := not_mem_qualified h.here.1.name
      have hchildren := not_mem_nodesCharsWith short h.children
      rw [Node.charsWith, Tag.chars_eq]
      split
      · simp [htag]
      · simp [htag, hname, hchildren, Tag.endChars]
  | .text s, _, _ => fun hm => (mem_escapeText hm).2 rfl
  | .comment s, _, h => by
      have hs := h.here.1.line
      simp [Node.charsWith, commentChars, hs]
  | .instruction target data, _, h => by
      have hi : IsInstruction target data := h.here.1
      have htarget : '\r' ∉ target.toList := hi.named.1.not_mem (by decide)
      have hdata : '\r' ∉ data.toList := fun hm => (hi.inline _ hm).2 rfl
      rw [Node.charsWith, instructionChars]
      split
      · simp [htarget]
      · simp [htarget, hdata]

theorem not_mem_nodesCharsWith (short : Bool) :
    ∀ {ns : List Node} {scope : Scope}, AllNodes Node.IsReadable scope ns →
      '\r' ∉ nodesCharsWith short ns
  | [], _, _ => List.not_mem_nil
  | n :: ns, _, h => by
      rw [AllNodes] at h
      rw [nodesCharsWith, List.mem_append, not_or]
      exact ⟨Node.not_mem_charsWith short h.1, not_mem_nodesCharsWith short h.2⟩

end

/-! ## Whole documents -/

/-- A written element is read, with its texts joined. -/
theorem Element.read_charsWith {short : Bool} {e : Element}
    (h : Node.All Node.IsReadable [] e) :
    Element.read (Text.encode (String.ofList (Node.charsWith short e))) = .ok e.joined := by
  obtain ⟨cs, hcs⟩ : ∃ cs, (e : Node).charsWith short = '<' :: cs := Node.charsWith_eq_cons rfl
  have hmark : dropMark ((e : Node).charsWith short) = (e : Node).charsWith short := by
    rw [hcs]
    exact dropMark.eq_2 _ fun _ he => absurd (List.cons.inj he).1 (by decide)
  have hrun := Progress.run_element short (n := e) rfl [] none h []
  rw [List.append_nil] at hrun
  rw [Element.read, Text.decode?_encode]
  dsimp only
  rw [String.toList_ofList, readChars, normalizeLines_eq_self (Node.not_mem_charsWith short h),
    hmark]
  change (Progress.run Progress.start _ >>= fun p => p.finish) = _
  rw [show Progress.start = ⟨[], none⟩ from rfl, hrun]
  dsimp only [Progress.within, Progress.close]
  rw [List.reverse_reverse]
  change (Progress.run _ [] >>= fun p => p.finish) = _
  rw [Progress.run_nil]
  rfl

/-- A tree that the printer writes is read, with its texts joined. -/
theorem Element.read_render {e : Element} (h : Node.All Node.IsReadable [] e) :
    Element.read (Text.encode e.render) = .ok e.joined := by
  rw [Element.render, ← Node.charsWith_true, Element.read_charsWith h]

end Presign.Xml
