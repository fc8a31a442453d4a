/-!
# Search in sequences

Where a pattern first occurs, and what stands around it.
-/

namespace Presign.Text

/-- What stands before and after the first occurrence of a pattern. -/
def around? {α : Type} [BEq α] (pattern : List α) : List α → Option (List α × List α)
  | [] => if pattern.isEmpty then some ([], []) else none
  | x :: xs =>
    if pattern.isPrefixOf (x :: xs) then some ([], (x :: xs).drop pattern.length)
    else (around? pattern xs).map fun (before, after) => (x :: before, after)

theorem length_around?_le {α : Type} [BEq α] {pattern xs : List α} {r : List α × List α}
    (h : around? pattern xs = some r) : r.2.length ≤ xs.length := by
  induction xs generalizing r with
  | nil =>
    simp only [around?] at h
    split at h
    · cases h; exact Nat.le_refl _
    · cases h
  | cons x xs ih =>
    simp only [around?] at h
    split at h
    · cases h
      simp only [List.length_drop, List.length_cons]
      omega
    · obtain ⟨found, inner, e⟩ := Option.map_eq_some_iff.1 h
      rw [← e]
      exact Nat.le_succ_of_le (show found.2.length ≤ xs.length from ih inner)

/-- What stands before and after the first occurrence of a character. -/
def aroundChar? (c : Char) : List Char → Option (List Char × List Char)
  | [] => none
  | d :: cs =>
    if d = c then some ([], cs)
    else (aroundChar? c cs).map fun (before, after) => (d :: before, after)

theorem length_aroundChar?_lt {c : Char} {cs : List Char} {r : List Char × List Char}
    (h : aroundChar? c cs = some r) : r.2.length < cs.length := by
  induction cs generalizing r with
  | nil => cases h
  | cons d cs ih =>
    simp only [aroundChar?] at h
    split at h
    · cases h
      simp
    · obtain ⟨found, inner, e⟩ := Option.map_eq_some_iff.1 h
      rw [← e]
      exact Nat.lt_succ_of_lt (show found.2.length < cs.length from ih inner)

/-- What stands before and after the first occurrence of a character.  If it
does not occur, all stands before it. -/
def upTo (c : Char) (cs : List Char) : List Char × List Char :=
  (aroundChar? c cs).getD (cs, [])

theorem length_upTo_le (c : Char) (cs : List Char) : (upTo c cs).2.length ≤ cs.length := by
  unfold upTo
  cases found : aroundChar? c cs with
  | none => simp
  | some r => exact Nat.le_of_lt (length_aroundChar?_lt found)

end Presign.Text
