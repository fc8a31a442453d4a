import Mathlib.Data.List.Basic
import Mathlib.Data.List.Infix
import Mathlib.Data.List.TakeWhile
import Presign.Text.Blank
import Presign.Text.Numeral

/-!
# What trimming leaves

A trimmed text has no blank at its ends (`isBlank_of_head?_trim`, `isBlank_of_getLast?_trim`), and
nothing is trimmed from a text without blanks at its ends (`trim_eq_self`).
-/

namespace Presign.Text

variable {cs : List Char} {c : Char}

theorem trim_sublist (cs : List Char) : (trim cs).Sublist cs := by
  have hend : (trim cs).Sublist (trimStart cs).reverse.reverse :=
    List.reverse_sublist.mpr (List.dropWhile_sublist _)
  rw [List.reverse_reverse] at hend
  exact hend.trans (List.dropWhile_sublist _)

/-- Nothing is trimmed from what has no blank at its ends. -/
theorem trim_eq_self (hfirst : ∀ c ∈ cs.head?, isBlank c = false)
    (hlast : ∀ c ∈ cs.getLast?, isBlank c = false) : trim cs = cs := by
  have hstart : trimStart cs = cs := by
    cases cs with
    | nil => rfl
    | cons c cs =>
        rw [trimStart, List.dropWhile_cons_of_neg]
        rw [hfirst c rfl]
        exact Bool.false_ne_true
  rw [trim, hstart, trimEnd]
  cases hcs : cs.reverse with
  | nil => rw [← List.reverse_reverse cs, hcs]; rfl
  | cons c rest =>
      have hc : cs.getLast? = some c := by
        rw [List.getLast?_eq_head?_reverse, hcs]
        rfl
      rw [List.dropWhile_cons_of_neg, ← hcs, List.reverse_reverse]
      rw [hlast c hc]
      exact Bool.false_ne_true

theorem isBlank_of_head?_dropWhile (h : (cs.dropWhile isBlank).head? = some c) :
    isBlank c = false := by
  have hnot := List.head?_dropWhile_not isBlank cs
  rw [h] at hnot
  simpa using hnot

theorem isBlank_of_head?_trim (h : (trim cs).head? = some c) : isBlank c = false := by
  -- the end of what is trimmed at the start begins as it does
  obtain ⟨dropped, hdropped⟩ := List.dropWhile_suffix isBlank (l := (trimStart cs).reverse)
  have hsplit : trimStart cs = trim cs ++ dropped.reverse := by
    rw [trim, trimEnd, ← List.reverse_append, hdropped, List.reverse_reverse]
  refine @isBlank_of_head?_dropWhile cs c ?_
  change (trimStart cs).head? = some c
  rw [hsplit, List.head?_append, h]
  rfl

theorem isBlank_of_getLast?_trim (h : (trim cs).getLast? = some c) : isBlank c = false := by
  rw [trim, trimEnd, List.getLast?_reverse] at h
  exact isBlank_of_head?_dropWhile h

/-- A digit is no blank. -/
theorem isBlank_of_digit? (h : (digit? c).isSome = true) : isBlank c = false := by
  have hrange : 48 ≤ c.toNat ∧ c.toNat ≤ 57 := by
    unfold digit? at h
    split at h
    next hc => exact hc
    next => cases h
  simp only [isBlank, Bool.or_eq_false_iff, Bool.and_eq_false_iff, decide_eq_false_iff_not,
    beq_eq_false_iff_ne]
  omega

end Presign.Text
