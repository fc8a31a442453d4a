import Mathlib.Data.List.DropRight
import Presign.Proofs.Xml.Document

/-!
# What reading establishes

Every tree that was read consists of nodes that stand as the reader finds
them: tags with the namespaces of their scope, comments that do not close
early, and processing instructions on one line (`Node.WasRead`).  This is an
invariant of `Progress.step`, and needs that the text has no carriage return.

A tree that was read and whose names cannot be cut is readable again.
-/

namespace Presign.Xml

open Token

/-! ## Tokens of a text without carriage return -/

/-- A token that has no carriage return where it matters, and ends where it
should. -/
def Token.IsClean : Token → Prop
  | .comment content => Text.Encloses ['-', '-', '>'] content ∧ '\r' ∉ content
  | .instruction content => ∀ c ∈ content, c ≠ '>' ∧ c ≠ '\r'
  | _ => True

theorem mem_of_tagEnd? {cs : List Char} {quote : Option Char} {r : List Char × List Char}
    (h : tagEnd? quote cs = some r) : ∀ c ∈ r.2, c ∈ cs := by
  induction cs generalizing quote r with
  | nil => cases h
  | cons c cs ih =>
      have step (q : Option Char)
          (h : (tagEnd? q cs).map (fun found => (c :: found.1, found.2)) = some r) :
          ∀ d ∈ r.2, d ∈ c :: cs := by
        obtain ⟨found, hfound, he⟩ := Option.map_eq_some_iff.mp h
        rw [← he]
        exact fun d hd => List.mem_cons_of_mem _ (ih hfound d hd)
      simp only [tagEnd?] at h
      split at h
      · exact step _ h
      · split at h
        · cases h
          exact fun d hd => List.mem_cons_of_mem _ hd
        · exact step _ h

theorem mem_of_doctypeEnd? {cs : List Char} {depth : Nat} {r : List Char × List Char}
    (h : doctypeEnd? depth cs = some r) : ∀ c ∈ r.2, c ∈ cs := by
  induction cs generalizing depth r with
  | nil => cases h
  | cons c cs ih =>
      have step (d : Nat)
          (h : (doctypeEnd? d cs).map (fun found => (c :: found.1, found.2)) = some r) :
          ∀ d ∈ r.2, d ∈ c :: cs := by
        obtain ⟨found, hfound, he⟩ := Option.map_eq_some_iff.mp h
        rw [← he]
        exact fun d hd => List.mem_cons_of_mem _ (ih hfound d hd)
      simp only [doctypeEnd?] at h
      split at h
      · split at h
        · cases h
          exact fun d hd => List.mem_cons_of_mem _ hd
        · exact step _ h
      · exact step _ h

theorem mem_of_around? {pattern cs : List Char} (hne : pattern ≠ [])
    {r : List Char × List Char} (h : Text.around? pattern cs = some r) :
    (∀ c ∈ r.1, c ∈ cs) ∧ ∀ c ∈ r.2, c ∈ cs := by
  obtain ⟨before, after⟩ := r
  obtain ⟨hcs, -⟩ := Text.around?_eq_some hne h
  rw [hcs]
  exact ⟨fun c hc => List.mem_append_left _ (List.mem_append_left _ hc),
    fun c hc => List.mem_append_right _ hc⟩

/-- What is left behind `<!…` and the token itself. -/
theorem bang_spec (cs : List Char) :
    (∀ c ∈ (bang cs).2, c ∈ cs) ∧ ('\r' ∉ cs → (bang cs).1.IsClean) := by
  have hdrop (n : Nat) : ∀ c ∈ cs.drop n, c ∈ cs := fun c hc => List.mem_of_mem_drop hc
  unfold bang
  split
  · cases h : Text.around? ['-', '-', '>'] (cs.drop 2) with
    | none => exact ⟨fun c hc => (by cases hc), fun _ => trivial⟩
    | some r =>
        obtain ⟨hbefore, hafter⟩ := mem_of_around? (by simp) h
        obtain ⟨before, after⟩ := r
        obtain ⟨-, hencloses⟩ := Text.around?_eq_some (by simp) h
        exact ⟨fun c hc => hdrop 2 c (hafter c hc),
          fun hline => ⟨hencloses, fun hm => hline (hdrop 2 _ (hbefore _ hm))⟩⟩
  · split
    · cases h : Text.around? [']', ']', '>'] (cs.drop 7) with
      | none => exact ⟨fun c hc => (by cases hc), fun _ => trivial⟩
      | some r =>
          obtain ⟨-, hafter⟩ := mem_of_around? (by simp) h
          exact ⟨fun c hc => hdrop 7 c (hafter c hc), fun _ => trivial⟩
    · split
      · cases h : doctypeEnd? 0 (cs.drop 7) with
        | none => exact ⟨fun c hc => (by cases hc), fun _ => trivial⟩
        | some r =>
            refine ⟨fun c hc => hdrop 7 c (mem_of_doctypeEnd? h c hc), fun _ => ?_⟩
            dsimp only [delimited]
            split
            · trivial
            · trivial
      · exact ⟨fun c hc => (by cases hc), fun _ => trivial⟩

theorem ofInstruction_isClean {body : List Char} (h : ∀ c ∈ body, c ≠ '>' ∧ c ≠ '\r') :
    (ofInstruction body).IsClean := by
  unfold ofInstruction
  split
  · split
    · trivial
    · exact fun c hc => h c ((List.dropLast_sublist body).subset hc)
  · trivial

theorem markup?_spec {cs rest : List Char} {token : Token}
    (h : markup? cs = some (token, rest)) :
    (∀ c ∈ rest, c ∈ cs) ∧ ('\r' ∉ cs → token.IsClean) := by
  unfold markup? at h
  split at h
  · cases h
  · rename_i cs
    have hbang : bang cs = (token, rest) := Option.some.inj h
    obtain ⟨hrest, hclean⟩ := bang_spec cs
    rw [hbang] at hrest hclean
    exact ⟨fun c hc => List.mem_cons_of_mem _ (hrest c hc),
      fun hline => hclean fun hm => hline (List.mem_cons_of_mem _ hm)⟩
  · rename_i cs
    cases h
    obtain ⟨-, -, hrest⟩ := Text.upTo_spec '>' cs
    exact ⟨fun c hc => List.mem_cons_of_mem _ (hrest c hc), fun _ => trivial⟩
  · rename_i cs
    cases h
    obtain ⟨hclose, hbody, hrest⟩ := Text.upTo_spec '>' cs
    refine ⟨fun c hc => List.mem_cons_of_mem _ (hrest c hc), fun hline => ?_⟩
    refine ofInstruction_isClean fun c hc => ⟨?_, ?_⟩
    · rintro rfl; exact hclose hc
    · rintro rfl; exact hline (List.mem_cons_of_mem _ (hbody _ hc))
  · split at h
    · rename_i hend
      cases h
      refine ⟨mem_of_tagEnd? hend, fun _ => ?_⟩
      unfold ofTag
      split
      · trivial
      · trivial
    · cases h
      exact ⟨fun c hc => (by cases hc), fun _ => trivial⟩

theorem next?_spec {cs rest : List Char} {token : Token} (h : next? cs = some (token, rest)) :
    (∀ c ∈ rest, c ∈ cs) ∧ ('\r' ∉ cs → token.IsClean) := by
  unfold next? at h
  split at h
  · cases h
  · obtain ⟨hrest, hclean⟩ := markup?_spec h
    exact ⟨fun c hc => List.mem_cons_of_mem _ (hrest c hc),
      fun hline => hclean fun hm => hline (List.mem_cons_of_mem _ hm)⟩
  · cases h
    exact ⟨fun c hc => (List.dropWhile_sublist _).subset hc, fun _ => trivial⟩

/-- All tokens of a text without carriage return are clean. -/
theorem scan_isClean {cs : List Char} (h : '\r' ∉ cs) : ∀ token ∈ scan cs, token.IsClean := by
  induction hn : cs.length using Nat.strong_induction_on generalizing cs with
  | _ n ih =>
      intro token hm
      rw [scan] at hm
      split at hm
      · cases hm
      · rename_i token' rest hfound
        obtain ⟨hrest, hclean⟩ := next?_spec hfound
        rcases List.mem_cons.mp hm with rfl | hm
        · exact hclean h
        · have hlt : rest.length < n := hn ▸ length_next?_lt hfound
          exact ih _ hlt (fun hr => h (hrest _ hr)) rfl token hm

/-! ## Nodes that were read -/

/-- A processing instruction as the reader cuts it. -/
structure IsCutInstruction (target data : String) : Prop where
  unbroken : ∀ c ∈ target.toList, isTargetEnd c = false
  inline : ∀ c ∈ data.toList, c ≠ '>' ∧ c ≠ '\r'
  trimmed : Text.trimStart data.toList = data.toList

/-- A node as the reader makes it in a scope. -/
def Node.WasRead (scope : Scope) : Node → Prop
  | .element tag _ => ∃ inside, Tag.read scope inside = .ok tag
  | .text _ => True
  | .comment s => IsComment s
  | .instruction target data => IsCutInstruction target data

theorem splitInstruction_wasRead {scope : Scope} {content : List Char}
    (h : ∀ c ∈ content, c ≠ '>' ∧ c ≠ '\r') :
    (Progress.splitInstruction content).All Node.WasRead scope := by
  have hcut : IsCutInstruction
      (String.ofList (content.takeWhile fun c => !isTargetEnd c))
      (String.ofList (Text.trimStart ((content.dropWhile fun c => !isTargetEnd c).drop 1))) := by
    refine ⟨fun c hc => ?_, fun c hc => ?_, ?_⟩
    · rw [String.toList_ofList] at hc
      have := List.mem_takeWhile_imp hc
      simpa using this
    · rw [String.toList_ofList] at hc
      exact h c ((List.dropWhile_sublist _).subset
        (List.mem_of_mem_drop ((List.dropWhile_sublist _).subset hc)))
    · rw [String.toList_ofList, Text.trimStart]
      exact List.dropWhile_idempotent _ _
  exact hcut

namespace Progress

/-- The open elements were read, each in the scope of those around it, and so
were the children they have so far. -/
def StackWasRead : List OpenElement → Prop
  | [] => True
  | o :: os =>
    (∃ inside, Tag.read (scopeOf os) inside = .ok o.tag) ∧
      AllNodes Node.WasRead (o.tag.declarations :: scopeOf os) o.children ∧ StackWasRead os

/-- Everything so far was read. -/
structure WasRead (p : Progress) : Prop where
  stack : StackWasRead p.stack
  root : ∀ e, p.root = some e → Node.All Node.WasRead [] e

theorem addNode_wasRead {scope : Scope} {children : List Node} {n : Node}
    (h : AllNodes Node.WasRead scope children) (hn : n.All Node.WasRead scope) :
    AllNodes Node.WasRead scope (addNode children n) := by
  unfold addNode
  split
  · rw [AllNodes] at h ⊢
    exact ⟨trivial, h.2⟩
  · rw [AllNodes]
    exact ⟨hn, h⟩

theorem add_wasRead {p p' : Progress} {n : Node} {outside : Except Error Progress}
    (h : p.WasRead) (hn : ∀ scope, n.All Node.WasRead scope)
    (houtside : ∀ q, outside = .ok q → q = p) (hadd : p.add n outside = .ok p') : p'.WasRead := by
  obtain ⟨stack, root⟩ := p
  unfold add at hadd
  cases stack with
  | nil => rw [houtside p' hadd]; exact h
  | cons o os =>
      cases hadd
      obtain ⟨hread, hchildren, hstack⟩ := h.stack
      exact ⟨⟨hread, addNode_wasRead hchildren (hn _), hstack⟩, h.root⟩

theorem openTag_wasRead {p : Progress} {inside : List Char} {tag : Tag} (h : p.WasRead)
    (htag : Tag.read p.scope inside = .ok tag) : (p.openTag tag).WasRead :=
  ⟨⟨⟨inside, htag⟩, by rw [AllNodes]; trivial, h.stack⟩, h.root⟩

theorem close_wasRead {p p' : Progress} (h : p.WasRead) (hclose : p.close = .ok p') :
    p'.WasRead := by
  obtain ⟨stack, root⟩ := p
  have hreverse {scope : Scope} {children : List Node} (hc : AllNodes Node.WasRead scope children) :
      AllNodes Node.WasRead scope children.reverse :=
    hc.subset fun n hn => List.mem_reverse.mp hn
  cases stack with
  | nil => cases hclose
  | cons o os =>
      obtain ⟨hread, hchildren, hstack⟩ := h.stack
      cases os with
      | nil =>
          dsimp only [close] at hclose
          split at hclose
          · cases hclose
          · cases hclose
            refine ⟨trivial, fun e he => ?_⟩
            cases he
            exact Node.all_element.mpr ⟨hread, hreverse hchildren⟩
      | cons parent os =>
          cases hclose
          obtain ⟨hread', hchildren', hstack'⟩ := hstack
          refine ⟨⟨hread', ?_, hstack'⟩, h.root⟩
          rw [AllNodes]
          exact ⟨Node.all_element.mpr ⟨hread, hreverse hchildren⟩, hchildren'⟩

/-- Taking a clean token into account keeps the invariant. -/
theorem step_wasRead {p p' : Progress} {token : Token} (h : p.WasRead) (hclean : token.IsClean)
    (hstep : p.step token = .ok p') : p'.WasRead := by
  cases token with
  | startTag inside =>
      obtain ⟨tag, htag, he⟩ := Except.bind_eq_ok.mp hstep
      cases he
      exact openTag_wasRead h htag
  | emptyTag inside =>
      obtain ⟨tag, htag, hclose⟩ := Except.bind_eq_ok.mp hstep
      exact close_wasRead (openTag_wasRead h htag) hclose
  | endTag name =>
      rw [step] at hstep
      split at hstep
      · cases hstep
      · split at hstep
        · exact close_wasRead h hstep
        · cases hstep
  | text raw =>
      rw [step] at hstep
      split at hstep
      · cases hstep
      · refine add_wasRead h (fun _ => by rw [Node.All]; trivial) (fun q hq => ?_) hstep
        split at hq
        · cases hq; rfl
        · cases hq
  | cdata content =>
      exact add_wasRead h (fun _ => by rw [Node.All]; trivial) (fun q hq => by cases hq) hstep
  | comment content =>
      refine add_wasRead h (fun _ => ?_) (fun q hq => by cases hq; rfl) hstep
      exact ⟨by rw [String.toList_ofList]; exact hclean.1,
        by rw [String.toList_ofList]; exact hclean.2⟩
  | instruction content =>
      exact add_wasRead h (fun _ => splitInstruction_wasRead hclean) (fun q hq => by cases hq; rfl)
        hstep
  | skipped => cases hstep; exact h
  | broken => cases hstep

/-- So does taking many. -/
theorem foldlM_step_wasRead {tokens : List Token} {p p' : Progress} (h : p.WasRead)
    (hclean : ∀ token ∈ tokens, token.IsClean) (hfold : tokens.foldlM step p = .ok p') :
    p'.WasRead := by
  induction tokens generalizing p with
  | nil => cases hfold; exact h
  | cons token tokens ih =>
      rw [List.foldlM_cons] at hfold
      obtain ⟨q, hq, hfold⟩ := Except.bind_eq_ok.mp hfold
      have hread := step_wasRead h (hclean token (List.mem_cons_self ..)) hq
      exact ih hread (fun t ht => hclean t (List.mem_cons_of_mem _ ht)) hfold

end Progress

/-- Every node of a document was read. -/
theorem Element.all_wasRead {bs : Octets} {e : Element} (h : Element.read bs = .ok e) :
    Node.All Node.WasRead [] e := by
  unfold Element.read at h
  split at h
  · rename_i s _
    obtain ⟨p, hp, hfinish⟩ := Except.bind_eq_ok.mp h
    have hline : '\r' ∉ dropMark (normalizeLines s.toList) := by
      intro hm
      apply not_mem_normalizeLines s.toList
      unfold dropMark at hm
      split at hm
      · rename_i hcs
        rw [hcs]
        exact List.mem_cons_of_mem _ hm
      · exact hm
    have hread := Progress.foldlM_step_wasRead (p := .start)
      ⟨trivial, fun e he => by cases he⟩ (scan_isClean hline) hp
    unfold Progress.finish at hfinish
    split at hfinish
    · cases hfinish
    · split at hfinish
      · rename_i e' he
        cases hfinish
        exact hread.root _ he
      · cases hfinish
  · cases h

/-- All names of a document have the namespaces of their scope. -/
theorem Element.all_fits_of_read {bs : Octets} {e : Element} (h : Element.read bs = .ok e) :
    Node.All Node.Fits [] e := by
  refine (Element.all_wasRead h).imp fun _ n hn => ?_
  cases n with
  | element tag children =>
      obtain ⟨inside, htag⟩ := hn
      exact (Tag.of_read htag).1
  | text s => trivial
  | comment s => trivial
  | instruction target data => trivial

/-! ## Well-formed documents -/

/-- A node whose names cannot be cut.  Every node of a document that is well
formed with regard to namespaces is one. -/
def Node.IsWellNamed : Node → Prop
  | .element tag _ => tag.IsWellNamed
  | .instruction target _ => IsNamePart target ∧ target ≠ "xml"
  | _ => True

instance : (n : Node) → Decidable n.IsWellNamed
  | .element tag _ => inferInstanceAs (Decidable tag.IsWellNamed)
  | .text _ => .isTrue trivial
  | .comment _ => .isTrue trivial
  | .instruction target _ => inferInstanceAs (Decidable (IsNamePart target ∧ target ≠ "xml"))

/-- An element in which no name can be cut. -/
def Element.IsWellNamed (e : Element) : Prop := Node.All (fun _ n => n.IsWellNamed) [] e

instance (e : Element) : Decidable e.IsWellNamed :=
  inferInstanceAs (Decidable (Node.All (fun _ n => n.IsWellNamed) [] e))

/-- A node that was read and whose names cannot be cut is read again when it is
written. -/
theorem Node.isReadable_of_wasRead {scope : Scope} {n : Node} (h : n.WasRead scope)
    (hnames : n.IsWellNamed) : n.IsReadable scope := by
  cases n with
  | element tag children =>
      obtain ⟨inside, htag⟩ := h
      exact ⟨Tag.isPrintable_of_read htag hnames, (Tag.of_read htag).1⟩
  | text s => exact ⟨trivial, trivial⟩
  | comment s => exact ⟨h, trivial⟩
  | instruction target data => exact ⟨⟨hnames, h.unbroken, h.inline, h.trimmed⟩, trivial⟩

end Presign.Xml
