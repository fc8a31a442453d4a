import Mathlib.Data.List.TakeWhile
import Presign.Proofs.Xml.StartTag

/-!
# Tokens that are written and taken

Each piece that the printer writes is taken off the front of a text as one
token.  Tags need an argument: a written tag passes the search for its end,
because its names have no `>` and no quote, and its values are quoted.
-/

namespace Presign.Xml

open Token

/-! ## Character data -/

theorem next?_text {raw : List Char} (hne : raw ≠ []) (h : ∀ c ∈ raw, c ≠ '<') (cs : List Char) :
    next? (raw ++ '<' :: cs) = some (.text raw, '<' :: cs) := by
  cases raw with
  | nil => exact absurd rfl hne
  | cons c raw =>
      have hc : c ≠ '<' := h c (List.mem_cons_self ..)
      have hpass : ∀ d ∈ c :: raw, decide (d ≠ '<') = true := fun d hd => by simp [h d hd]
      have htake : (c :: (raw ++ '<' :: cs)).takeWhile (· ≠ '<') = c :: raw := by
        rw [← List.cons_append, List.takeWhile_append_of_pos hpass,
          List.takeWhile_cons_of_neg (by simp), List.append_nil]
      have hdrop : (c :: (raw ++ '<' :: cs)).dropWhile (· ≠ '<') = '<' :: cs := by
        rw [← List.cons_append, List.dropWhile_append_of_pos hpass,
          List.dropWhile_cons_of_neg (by simp)]
      rw [List.cons_append, next?.eq_3 _ (by simp) (fun cs' he => hc (List.cons.inj he).1), htake,
        hdrop]

/-! ## Where tags end -/

/-- A text that the search for the end of a tag passes. -/
def Passes (xs : List Char) : Prop :=
  ∀ cs, tagEnd? none (xs ++ cs) = (tagEnd? none cs).map fun r => (xs ++ r.1, r.2)

theorem Passes.nil : Passes [] := by
  intro cs
  rw [List.nil_append]
  cases tagEnd? none cs <;> rfl

theorem Passes.append {xs ys : List Char} (h : Passes xs) (h' : Passes ys) :
    Passes (xs ++ ys) := by
  intro cs
  rw [List.append_assoc, h, h', Option.map_map]
  congr 1
  funext r
  simp

theorem Passes.cons {c : Char} {xs : List Char} (h : c ≠ '>' ∧ c ≠ '\x27' ∧ c ≠ '\x22')
    (h' : Passes xs) : Passes (c :: xs) := by
  intro cs
  rw [List.cons_append, tagEnd?]
  dsimp only
  rw [if_neg h.1, if_neg (by simp [h.2]), h', Option.map_map]
  rfl

theorem Passes.of_forall {xs : List Char}
    (h : ∀ c ∈ xs, c ≠ '>' ∧ c ≠ '\x27' ∧ c ≠ '\x22') : Passes xs := by
  induction xs with
  | nil => exact Passes.nil
  | cons c xs ih =>
      exact Passes.cons (h c (List.mem_cons_self ..))
        (ih fun d hd => h d (List.mem_cons_of_mem _ hd))

/-- The search skips what stands in quotes. -/
theorem tagEnd?_quoted {value : List Char} (h : '\x22' ∉ value) (cs : List Char) :
    tagEnd? (some '\x22') (value ++ '\x22' :: cs)
      = (tagEnd? none cs).map fun r => (value ++ '\x22' :: r.1, r.2) := by
  induction value with
  | nil =>
      rw [List.nil_append, tagEnd?]
      rfl
  | cons c value ih =>
      rw [List.mem_cons, not_or] at h
      rw [List.cons_append, tagEnd?]
      dsimp only
      rw [if_neg (Ne.symm h.1), ih h.2, Option.map_map]
      rfl

theorem Passes.quoted {value : List Char} (h : '\x22' ∉ value) :
    Passes ('\x22' :: value ++ ['\x22']) := by
  intro cs
  rw [List.append_assoc, List.cons_append, List.singleton_append, tagEnd?]
  dsimp only
  rw [if_neg (by decide), if_pos (Or.inr rfl), tagEnd?_quoted h, Option.map_map]
  congr 1
  funext r
  simp

/-- A character of a name does not end a tag. -/
theorem passable_of_isMarkup {c : Char} (h : isMarkup c = false ∨ c = ':') :
    c ≠ '>' ∧ c ≠ '\x27' ∧ c ≠ '\x22' := by
  rcases h with h | rfl
  · exact ⟨ne_of_isMarkup h (by decide), ne_of_isMarkup h (by decide),
      ne_of_isMarkup h (by decide)⟩
  · decide

theorem Name.passes_qualified {n : Name} (h : n.IsPlain) : Passes n.qualified.toList :=
  Passes.of_forall fun _ hm => passable_of_isMarkup (n.mem_qualified h hm)

theorem passes_pairsChars {ps : List (String × String)} (h : ∀ p ∈ ps, Passes p.1.toList) :
    Passes (pairsChars ps) := by
  induction ps with
  | nil => exact Passes.nil
  | cons p ps ih =>
      have hvalue : Passes ('\x22' :: p.2.toList.flatMap escapeValueChar ++ ['\x22']) :=
        Passes.quoted fun hm => (mem_escapeValue hm).1 rfl
      have hchars : attributeChars p.1 p.2 = ' ' :: (p.1.toList ++
          ('=' :: ('\x22' :: p.2.toList.flatMap escapeValueChar ++ ['\x22']))) := by
        simp [attributeChars]
      rw [pairsChars, List.flatMap_cons, hchars]
      refine Passes.append (Passes.cons (by decide) ?_)
        (ih fun p' hp' => h p' (List.mem_cons_of_mem _ hp'))
      exact Passes.append (h p (List.mem_cons_self ..)) (Passes.cons (by decide) hvalue)

/-- A written tag does not end before its last character. -/
theorem Tag.passes_inside {t : Tag} (h : t.IsPrintable) : Passes t.inside := by
  refine Passes.append (Name.passes_qualified h.name) (passes_pairsChars fun p hp => ?_)
  rw [Tag.written, List.mem_append, List.mem_map, List.mem_map] at hp
  rcases hp with ⟨d, hd, rfl⟩ | ⟨a, ha, rfl⟩
  · obtain ⟨n, hn, hkey⟩ := Declaration.exists_key_eq (h.declared d hd)
    rw [hkey]
    exact n.passes_qualified hn
  · exact Name.passes_qualified (h.attributes a ha).1

/-! ## Tags -/

/-- A written tag begins with its name and so with no other markup. -/
theorem Tag.inside_eq_cons {t : Tag} (h : t.IsPrintable) :
    ∃ c cs, t.inside = c :: cs ∧ c ≠ '!' ∧ c ≠ '/' ∧ c ≠ '?' := by
  cases hname : t.name.qualified.toList with
  | nil => exact absurd hname (Name.qualified_ne_nil h.name)
  | cons c cs =>
      refine ⟨c, cs ++ pairsChars t.written, by rw [Tag.inside, hname, List.cons_append], ?_⟩
      have hc : isMarkup c = false ∨ c = ':' :=
        Name.mem_qualified h.name (by rw [hname]; exact List.mem_cons_self ..)
      rcases hc with hc | rfl
      · exact ⟨ne_of_isMarkup hc (by decide), ne_of_isMarkup hc (by decide),
          ne_of_isMarkup hc (by decide)⟩
      · decide

/-- A written tag does not end with a slash. -/
theorem Tag.getLast?_inside {t : Tag} (h : t.IsPrintable) : t.inside.getLast? ≠ some '/' := by
  rcases List.eq_nil_or_concat t.written with hw | ⟨ps, p, hw⟩
  · rw [Tag.inside, hw, pairsChars, List.flatMap_nil, List.append_nil]
    intro hlast
    exact absurd (Name.mem_qualified h.name (List.mem_of_getLast? hlast)) (by decide)
  · have hchars : t.inside = t.name.qualified.toList ++ pairsChars ps
        ++ (' ' :: p.1.toList ++ ['=', '\x22'] ++ p.2.toList.flatMap escapeValueChar)
        ++ ['\x22'] := by
      simp [Tag.inside, hw, pairsChars, attributeChars]
    rw [hchars, List.getLast?_concat]
    decide

theorem markup?_of_tag {c : Char} {cs inside rest : List Char}
    (h : c ≠ '!' ∧ c ≠ '/' ∧ c ≠ '?') (hend : tagEnd? none (c :: cs) = some (inside, rest)) :
    markup? (c :: cs) = some (ofTag inside, rest) := by
  rw [markup?.eq_5 _ (by simp) (fun cs' he => h.1 (List.cons.inj he).1)
    (fun cs' he => h.2.1 (List.cons.inj he).1) (fun cs' he => h.2.2 (List.cons.inj he).1), hend]

theorem next?_startTag {t : Tag} (h : t.IsPrintable) (cs : List Char) :
    next? ('<' :: (t.inside ++ '>' :: cs)) = some (.startTag t.inside, cs) := by
  obtain ⟨c, more, hc, hmarkup⟩ := t.inside_eq_cons h
  have hend : tagEnd? none (t.inside ++ '>' :: cs) = some (t.inside, cs) := by
    rw [Tag.passes_inside h, tagEnd?]
    simp
  rw [next?, hc, List.cons_append, markup?_of_tag hmarkup (by rw [← List.cons_append, ← hc, hend]),
    ofTag, if_neg (t.getLast?_inside h), ← hc]

theorem next?_emptyTag {t : Tag} (h : t.IsPrintable) (cs : List Char) :
    next? ('<' :: (t.inside ++ '/' :: '>' :: cs)) = some (.emptyTag t.inside, cs) := by
  obtain ⟨c, more, hc, hmarkup⟩ := t.inside_eq_cons h
  have hend : tagEnd? none (t.inside ++ '/' :: '>' :: cs) = some (t.inside ++ ['/'], cs) := by
    have hslash := Passes.append (Tag.passes_inside h)
      (Passes.cons (c := '/') (by decide) Passes.nil)
    have := hslash ('>' :: cs)
    rw [List.append_assoc, List.singleton_append] at this
    rw [this, tagEnd?]
    simp
  rw [next?, hc, List.cons_append, markup?_of_tag hmarkup (by rw [← List.cons_append, ← hc, hend]),
    ofTag, if_pos List.getLast?_concat, List.dropLast_concat, ← hc]

theorem next?_endTag {n : Name} (h : n.IsPlain) (cs : List Char) :
    next? ('<' :: '/' :: (n.qualified.toList ++ '>' :: cs))
      = some (.endTag n.qualified.toList, cs) := by
  have hplain : ∀ {c : Char}, c ∈ n.qualified.toList → c ≠ '>' ∧ isBlank c = false := by
    intro c hm
    have hc := Name.mem_qualified h hm
    refine ⟨(passable_of_isMarkup hc).1, ?_⟩
    rcases hc with hc | rfl
    · exact isBlank_of_isMarkup hc
    · decide
  have hup : Text.upTo '>' (n.qualified.toList ++ '>' :: cs) = (n.qualified.toList, cs) :=
    Text.upTo_append (fun hm => (hplain hm).1 rfl) cs
  have hclosed : closedName n.qualified.toList = n.qualified.toList := by
    unfold closedName
    split
    · rfl
    · cases hr : n.qualified.toList.reverse with
      | nil => rw [List.reverse_eq_nil_iff.mp hr]; rfl
      | cons c cs =>
          have hc : c ∈ n.qualified.toList := by
            rw [← List.mem_reverse, hr]
            exact List.mem_cons_self ..
          rw [List.dropWhile_cons_of_neg (by simp [(hplain hc).2]), ← hr, List.reverse_reverse]
  rw [next?, markup?, hup]
  dsimp only
  rw [hclosed]

/-! ## Comments -/

/-- A comment that can be written and read. -/
structure IsComment (s : String) : Prop where
  encloses : Text.Encloses ['-', '-', '>'] s.toList
  line : '\r' ∉ s.toList

theorem next?_comment {s : String} (h : IsComment s) (cs : List Char) :
    next? (commentChars s ++ cs) = some (.comment s.toList, cs) := by
  have hchars : commentChars s ++ cs
      = '<' :: '!' :: '-' :: '-' :: (s.toList ++ ['-', '-', '>'] ++ cs) := by
    simp [commentChars]
  rw [hchars, next?, markup?, bang, if_pos (by simp [List.isPrefixOf]), List.drop_succ_cons,
    List.drop_succ_cons, List.drop_zero, h.encloses cs]
  rfl

/-! ## Processing instructions -/

/-- A blank that ends the target of a processing instruction. -/
def isTargetEnd (c : Char) : Bool := Octets.isBlank (UInt8.ofNat c.toNat) && c.toNat < 128

/-- A processing instruction that can be written and read. -/
structure IsInstruction (target data : String) : Prop where
  named : IsNamePart target ∧ target ≠ "xml"
  unbroken : ∀ c ∈ target.toList, isTargetEnd c = false
  inline : ∀ c ∈ data.toList, c ≠ '>' ∧ c ≠ '\r'
  trimmed : Text.trimStart data.toList = data.toList

/-- What a processing instruction has between its brackets and question
marks. -/
def instructionContent (target data : String) : List Char :=
  target.toList ++ if data = "" then [] else ' ' :: data.toList

theorem instructionContent_cases (target data : String) :
    (data = "" ∧ instructionContent target data = target.toList) ∨
      instructionContent target data = target.toList ++ ' ' :: data.toList := by
  unfold instructionContent
  by_cases h : data = ""
  · exact Or.inl ⟨h, by rw [if_pos h, List.append_nil]⟩
  · exact Or.inr (by rw [if_neg h])

theorem splitInstruction_content {target data : String} (h : IsInstruction target data) :
    Progress.splitInstruction (instructionContent target data) = .instruction target data := by
  have hpass : ∀ c ∈ target.toList, (!isTargetEnd c) = true := fun c hc => by
    rw [h.unbroken c hc]; rfl
  change Node.instruction
    (String.ofList ((instructionContent target data).takeWhile fun c => !isTargetEnd c))
    (String.ofList (Text.trimStart
      (((instructionContent target data).dropWhile fun c => !isTargetEnd c).drop 1))) = _
  rcases instructionContent_cases target data with ⟨hd, hc⟩ | hc
  · rw [hc, List.takeWhile_eq_self_iff.mpr hpass, List.dropWhile_eq_nil_iff.mpr hpass, hd,
      String.ofList_toList]
    rfl
  · rw [hc, List.takeWhile_append_of_pos hpass, List.dropWhile_append_of_pos hpass,
      List.takeWhile_cons_of_neg (by decide), List.dropWhile_cons_of_neg (by decide),
      List.drop_succ_cons, List.drop_zero, h.trimmed, List.append_nil, String.ofList_toList,
      String.ofList_toList]

/-- A written processing instruction is not taken for an XML declaration. -/
theorem not_xmlDeclaration {target data : String} (h : IsInstruction target data) :
    ¬ (['x', 'm', 'l'].isPrefixOf (instructionContent target data ++ ['?']) = true ∧
      ((instructionContent target data ++ ['?']).drop 3).head?.any isBlank = true ∧
      5 ≤ (instructionContent target data ++ ['?']).length) := by
  rintro ⟨hbegin, hblank, -⟩
  obtain ⟨rest, hrest⟩ := List.isPrefixOf_iff_prefix.mp hbegin
  have hpass : ∀ c ∈ target.toList, (!isBlank c) = true := fun c hc => by
    rw [isBlank_of_isMarkup (h.named.1.2 c hc)]; rfl
  rw [← hrest] at hblank
  cases rest with
  | nil => cases hblank
  | cons b rest =>
      have hb : isBlank b = true := hblank
      -- the blank behind `xml` is where the target ends
      have htake : ((instructionContent target data ++ ['?']).takeWhile fun c => !isBlank c)
          = ['x', 'm', 'l'] := by
        rw [← hrest, List.takeWhile_append_of_pos (List.all_eq_true.mp rfl),
          List.takeWhile_cons_of_neg (by simp [hb]), List.append_nil]
      rcases instructionContent_cases target data with ⟨-, hc⟩ | hc
      · have hall : ∀ c ∈ target.toList ++ ['?'], (!isBlank c) = true := by
          intro c hm
          rcases List.mem_append.mp hm with hm | hm
          · exact hpass c hm
          · rw [List.mem_singleton.mp hm]; decide
        have hm : b ∈ target.toList ++ ['?'] := by
          rw [← hc, ← hrest]
          simp
        have := hall b hm
        rw [hb] at this
        cases this
      · rw [hc, List.append_assoc, List.takeWhile_append_of_pos hpass, List.cons_append,
          List.takeWhile_cons_of_neg (by decide), List.append_nil] at htake
        exact h.named.2 (String.toList_inj.mp htake)

theorem next?_instruction {target data : String} (h : IsInstruction target data)
    (cs : List Char) :
    next? (instructionChars target data ++ cs)
      = some (.instruction (instructionContent target data), cs) := by
  have hchars : instructionChars target data ++ cs
      = '<' :: '?' :: (instructionContent target data ++ ['?'] ++ '>' :: cs) := by
    simp [instructionChars, instructionContent]
  have hclose : '>' ∉ instructionContent target data ++ ['?'] := by
    have htarget : '>' ∉ target.toList := h.named.1.not_mem (by decide)
    have hdata : '>' ∉ data.toList := fun hm => (h.inline _ hm).1 rfl
    rcases instructionContent_cases target data with ⟨-, hc⟩ | hc
    · rw [hc]
      simp [htarget]
    · rw [hc]
      simp [htarget, hdata]
  have hlength : 2 ≤ (instructionContent target data ++ ['?']).length := by
    have : target.toList ≠ [] := fun he => h.named.1.1 (String.toList_inj.mp he)
    have := List.length_pos_iff.mpr this
    rcases instructionContent_cases target data with ⟨-, hc⟩ | hc
    · rw [hc, List.length_append, List.length_singleton]; omega
    · rw [hc, List.length_append, List.length_append, List.length_singleton]; omega
  rw [hchars, next?, markup?, Text.upTo_append hclose]
  dsimp only
  rw [ofInstruction, if_pos ⟨hlength, List.getLast?_concat⟩, if_neg (not_xmlDeclaration h),
    List.dropLast_concat]

end Presign.Xml
