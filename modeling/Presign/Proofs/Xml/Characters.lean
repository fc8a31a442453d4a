import Mathlib.Data.Bool.AllAny
import Presign.Proofs.Text.Utf8
import Presign.Xml.Document
import Presign.Xml.Printer

/-!
# Characters that are written and read

What the printer writes for a character is read as that character.  So
character data and attribute values of any content survive writing and
reading, and so does a text as a sequence of octets.

Three facts about the written form carry this: each reference that is written
is known to the reader, a written value has no blank but the space, and no
carriage return is written at all.
-/

namespace Presign

namespace Xml

/-! ## References -/

theorem expand?_cons {c : Char} (h : c ≠ '&') (cs : List Char) :
    expand? (c :: cs) = (expand? cs).map (c :: ·) := by
  rw [expand?, if_neg h]

/-- A reference is replaced by what it stands for. -/
theorem expand?_reference (name : List Char) {c : Char}
    (hname : name.all isReferenceChar = true) (hc : reference? name = some c)
    (cs : List Char) :
    expand? ('&' :: (name ++ ';' :: cs)) = (expand? cs).map (c :: ·) := by
  have hname := List.all_eq_true.mp hname
  have hstop : isReferenceChar ';' = false := by decide
  have hdrop : (name ++ ';' :: cs).dropWhile isReferenceChar = ';' :: cs := by
    rw [List.dropWhile_append_of_pos hname, List.dropWhile_cons_of_neg (by simp [hstop])]
  have htake : (name ++ ';' :: cs).takeWhile isReferenceChar = name := by
    rw [List.takeWhile_append_of_pos hname, List.takeWhile_cons_of_neg (by simp [hstop]),
      List.append_nil]
  rw [expand?, if_pos rfl]
  split
  · rename_i rest hrest
    rw [hdrop] at hrest
    cases hrest
    rw [htake, hc]
    cases expand? cs <;> rfl
  · rename_i hno
    exact absurd hdrop (hno cs)

/-- What is written for a character of character data is read as that
character. -/
theorem expand?_escapeTextChar (c : Char) (cs : List Char) :
    expand? (escapeTextChar c ++ cs) = (expand? cs).map (c :: ·) := by
  unfold escapeTextChar
  split
  · rename_i h
    subst h
    exact expand?_reference ['a', 'm', 'p'] rfl rfl cs
  · rename_i hamp
    split
    · rename_i h
      subst h
      exact expand?_reference ['l', 't'] rfl rfl cs
    · split
      · rename_i h
        subst h
        exact expand?_reference ['g', 't'] rfl rfl cs
      · split
        · rename_i h
          subst h
          exact expand?_reference ['#', 'x', 'D'] rfl (by decide) cs
        · exact expand?_cons hamp cs

/-- Character data survives writing and reading. -/
theorem expand?_escapeText (s : String) : expand? (escapeText s) = some s.toList := by
  have h : ∀ cs : List Char, expand? (cs.flatMap escapeTextChar) = some cs := by
    intro cs
    induction cs with
    | nil => rw [List.flatMap_nil, expand?]
    | cons c cs ih => rw [List.flatMap_cons, expand?_escapeTextChar, ih, Option.map_some]
  exact h s.toList

/-! ## Attribute values -/

/-- What a blank of an attribute value is read as before references are. -/
def spaced (c : Char) : Char := if Token.isBlank c then ' ' else c

theorem map_spaced_escapeValueChar (c : Char) :
    (escapeValueChar c).map spaced = escapeValueChar c := by
  unfold escapeValueChar
  split
  · decide
  · split
    · decide
    · split
      · decide
      · split
        · decide
        · rename_i htab
          split
          · decide
          · rename_i hline
            split
            · decide
            · rename_i hreturn
              simp only [List.map_cons, List.map_nil, spaced]
              split
              · rename_i hblank
                simp [Token.isBlank, htab, hline, hreturn] at hblank
                rw [hblank]
              · rfl

theorem expand?_escapeValueChar (c : Char) (cs : List Char) :
    expand? (escapeValueChar c ++ cs) = (expand? cs).map (c :: ·) := by
  unfold escapeValueChar
  split
  · rename_i h
    subst h
    exact expand?_reference ['a', 'm', 'p'] rfl rfl cs
  · rename_i hamp
    split
    · rename_i h
      subst h
      exact expand?_reference ['l', 't'] rfl rfl cs
    · split
      · rename_i h
        subst h
        exact expand?_reference ['q', 'u', 'o', 't'] rfl rfl cs
      · split
        · rename_i h
          subst h
          exact expand?_reference ['#', 'x', '9'] rfl (by decide) cs
        · split
          · rename_i h
            subst h
            exact expand?_reference ['#', 'x', 'A'] rfl (by decide) cs
          · split
            · rename_i h
              subst h
              exact expand?_reference ['#', 'x', 'D'] rfl (by decide) cs
            · exact expand?_cons hamp cs

/-- An attribute value survives writing and reading. -/
theorem expandValue?_escape (s : String) :
    expandValue? (s.toList.flatMap escapeValueChar) = some s := by
  have h : ∀ cs : List Char,
      expand? ((cs.flatMap escapeValueChar).map spaced) = some cs := by
    intro cs
    induction cs with
    | nil => rw [List.flatMap_nil, List.map_nil, expand?]
    | cons c cs ih =>
        rw [List.flatMap_cons, List.map_append, map_spaced_escapeValueChar,
          expand?_escapeValueChar, ih, Option.map_some]
  have h' : expand? ((s.toList.flatMap escapeValueChar).map
      fun c => if Token.isBlank c then ' ' else c) = some s.toList := h s.toList
  rw [expandValue?, h', Option.map_some, String.ofList_toList]

/-! ## Characters that are not written -/

theorem mem_escapeTextChar {c d : Char} (h : d ∈ escapeTextChar c) : d ≠ '<' ∧ d ≠ '\r' := by
  have inReference (s : String) (hs : s.toList.all (fun d => d ≠ '<' ∧ d ≠ '\r') = true)
      (h : d ∈ s.toList) : d ≠ '<' ∧ d ≠ '\r' := List.all_iff_forall_prop.mp hs d h
  unfold escapeTextChar at h
  split at h
  · exact inReference _ rfl h
  · split at h
    · exact inReference _ rfl h
    · rename_i hopen
      split at h
      · exact inReference _ rfl h
      · split at h
        · exact inReference _ rfl h
        · rename_i hreturn
          rw [List.mem_singleton] at h
          subst h
          exact ⟨hopen, hreturn⟩

/-- Written character data begins no markup and has no carriage return. -/
theorem mem_escapeText {s : String} {d : Char} (h : d ∈ escapeText s) : d ≠ '<' ∧ d ≠ '\r' := by
  obtain ⟨c, -, hd⟩ := List.mem_flatMap.mp h
  exact mem_escapeTextChar hd

theorem mem_escapeValueChar {c d : Char} (h : d ∈ escapeValueChar c) :
    d ≠ '\x22' ∧ d ≠ '\r' := by
  have inReference (s : String) (hs : s.toList.all (fun d => d ≠ '\x22' ∧ d ≠ '\r') = true)
      (h : d ∈ s.toList) : d ≠ '\x22' ∧ d ≠ '\r' := List.all_iff_forall_prop.mp hs d h
  unfold escapeValueChar at h
  split at h
  · exact inReference _ rfl h
  · split at h
    · exact inReference _ rfl h
    · split at h
      · exact inReference _ rfl h
      · rename_i hquote
        split at h
        · exact inReference _ rfl h
        · split at h
          · exact inReference _ rfl h
          · split at h
            · exact inReference _ rfl h
            · rename_i hreturn
              rw [List.mem_singleton] at h
              subst h
              exact ⟨hquote, hreturn⟩

/-- A written value does not close its quotes and has no carriage return. -/
theorem mem_escapeValue {s : String} {d : Char} (h : d ∈ s.toList.flatMap escapeValueChar) :
    d ≠ '\x22' ∧ d ≠ '\r' := by
  obtain ⟨c, -, hd⟩ := List.mem_flatMap.mp h
  exact mem_escapeValueChar hd

theorem escapeText_append (s t : String) : escapeText (s ++ t) = escapeText s ++ escapeText t := by
  rw [escapeText, escapeText, escapeText, String.toList_append, List.flatMap_append]

theorem escapeText_empty : escapeText "" = [] := rfl

theorem escapeTextChar_ne_nil (c : Char) : escapeTextChar c ≠ [] := by
  unfold escapeTextChar
  repeat' split
  all_goals simp

theorem escapeText_ne_nil {s : String} (h : s ≠ "") : escapeText s ≠ [] := by
  intro hnil
  apply h
  apply String.toList_inj.mp
  cases hs : s.toList with
  | nil => rfl
  | cons c cs =>
      rw [escapeText, hs, List.flatMap_cons, List.append_eq_nil_iff] at hnil
      exact absurd hnil.1 (escapeTextChar_ne_nil c)

/-! ## Line ends -/

theorem normalizeLines_eq_self {cs : List Char} (h : '\r' ∉ cs) : normalizeLines cs = cs := by
  induction cs with
  | nil => rw [normalizeLines]
  | cons c cs ih =>
      have hc : c ≠ '\r' := fun he => h (he ▸ List.mem_cons_self ..)
      have hcs : '\r' ∉ cs := fun hm => h (List.mem_cons_of_mem _ hm)
      rw [normalizeLines.eq_4 c cs (fun _ he _ => hc he) hc, ih hcs]

theorem not_mem_normalizeLines : ∀ cs : List Char, '\r' ∉ normalizeLines cs := by
  intro cs
  fun_induction normalizeLines cs with
  | case1 => exact List.not_mem_nil
  | case2 cs ih => simpa using ih
  | case3 cs _ ih => simpa using ih
  | case4 c cs h₁ h₂ ih =>
      rw [List.mem_cons, not_or]
      exact ⟨fun he => h₂ he.symm, ih⟩

end Xml

end Presign
