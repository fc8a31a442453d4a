import Mathlib.Data.List.Basic
import Presign.Text.Search

/-!
# What a search finds

A search for a character or a pattern stops at the first occurrence.  So it
finds what was put behind a text without one.

`Encloses pattern xs` says that no occurrence of the pattern begins inside of
`xs` when the pattern itself follows.  It is what a search leaves before the
place it finds.
-/

namespace Presign.Text

variable {α : Type} [BEq α] [LawfulBEq α]

/-! ## Characters -/

theorem aroundChar?_append {c : Char} {xs : List Char} (h : c ∉ xs) (ys : List Char) :
    aroundChar? c (xs ++ c :: ys) = some (xs, ys) := by
  induction xs with
  | nil => rw [List.nil_append, aroundChar?, if_pos rfl]
  | cons x xs ih =>
      rw [List.mem_cons, not_or] at h
      rw [List.cons_append, aroundChar?, if_neg (Ne.symm h.1), ih h.2]
      rfl

theorem aroundChar?_eq_none {c : Char} {xs : List Char} (h : c ∉ xs) :
    aroundChar? c xs = none := by
  induction xs with
  | nil => rfl
  | cons x xs ih =>
      rw [List.mem_cons, not_or] at h
      rw [aroundChar?, if_neg (Ne.symm h.1), ih h.2]
      rfl

/-- What a search for a character finds. -/
theorem aroundChar?_eq_some {c : Char} {cs before after : List Char}
    (h : aroundChar? c cs = some (before, after)) :
    cs = before ++ c :: after ∧ c ∉ before := by
  induction cs generalizing before with
  | nil => cases h
  | cons d cs ih =>
      rw [aroundChar?] at h
      by_cases hd : d = c
      · rw [if_pos hd] at h
        cases h
        exact ⟨by rw [hd]; rfl, List.not_mem_nil⟩
      · rw [if_neg hd] at h
        obtain ⟨⟨b, a⟩, hr, he⟩ := Option.map_eq_some_iff.mp h
        cases he
        obtain ⟨hcs, hb⟩ := ih hr
        refine ⟨by rw [hcs]; rfl, ?_⟩
        rw [List.mem_cons, not_or]
        exact ⟨Ne.symm hd, hb⟩

theorem upTo_append {c : Char} {xs : List Char} (h : c ∉ xs) (ys : List Char) :
    upTo c (xs ++ c :: ys) = (xs, ys) := by
  rw [upTo, aroundChar?_append h]
  rfl

/-- What stands before the first occurrence does not have the character, and
nothing is added. -/
theorem upTo_spec (c : Char) (cs : List Char) :
    c ∉ (upTo c cs).1 ∧ (∀ d ∈ (upTo c cs).1, d ∈ cs) ∧ ∀ d ∈ (upTo c cs).2, d ∈ cs := by
  unfold upTo
  cases h : aroundChar? c cs with
  | some r =>
      obtain ⟨before, after⟩ := r
      obtain ⟨hcs, hb⟩ := aroundChar?_eq_some h
      refine ⟨hb, fun d hd => ?_, fun d hd => ?_⟩
      · rw [hcs]; exact List.mem_append_left _ hd
      · rw [hcs]; exact List.mem_append_right _ (List.mem_cons_of_mem _ hd)
  | none =>
      refine ⟨?_, fun d hd => hd, fun d hd => by cases hd⟩
      intro hm
      obtain ⟨xs, ys, hs, hx⟩ := List.eq_append_cons_of_mem hm
      rw [show cs = xs ++ c :: ys from hs, aroundChar?_append hx] at h
      cases h

/-! ## Patterns -/

theorem isPrefixOf_append_iff {pattern xs : List α} (h : pattern.length ≤ xs.length)
    (ys : List α) : pattern.isPrefixOf (xs ++ ys) = pattern.isPrefixOf xs := by
  rw [Bool.eq_iff_iff, List.isPrefixOf_iff_prefix, List.isPrefixOf_iff_prefix]
  constructor
  · intro hp
    exact List.prefix_of_prefix_length_le hp (List.prefix_append xs ys) h
  · intro hp
    exact hp.trans (List.prefix_append xs ys)

/-- No occurrence of a pattern begins inside of a sequence that the pattern
follows. -/
def Encloses (pattern xs : List α) : Prop :=
  ∀ rest, around? pattern (xs ++ pattern ++ rest) = some (xs, rest)

theorem encloses_nil {pattern : List α} (hne : pattern ≠ []) : Encloses pattern [] := by
  intro rest
  obtain ⟨c, cs, rfl⟩ := List.exists_cons_of_ne_nil hne
  have hprefix : (c :: cs).isPrefixOf (c :: cs ++ rest) = true :=
    List.isPrefixOf_iff_prefix.mpr (List.prefix_append _ rest)
  have hdrop : (c :: cs ++ rest).drop (c :: cs).length = rest := List.drop_left
  rw [List.nil_append]
  rw [List.cons_append] at hprefix hdrop ⊢
  rw [around?, if_pos hprefix, hdrop]

/-- One more element is enclosed if the pattern does not begin at it.  This is
decided before anything else follows. -/
theorem Encloses.cons {pattern xs : List α} {x : α} (h : Encloses pattern xs)
    (hx : ¬ pattern.isPrefixOf (x :: (xs ++ pattern)) = true) : Encloses pattern (x :: xs) := by
  intro rest
  have hlength : pattern.length ≤ (x :: (xs ++ pattern)).length := by simp; omega
  have hnot : ¬ pattern.isPrefixOf (x :: (xs ++ pattern) ++ rest) = true := by
    rwa [isPrefixOf_append_iff hlength]
  rw [List.cons_append] at hnot
  rw [List.cons_append, List.cons_append, around?, if_neg hnot, h rest]
  rfl

/-- A pattern whose last element stands nowhere else in it is not found before
its place in a sequence without it: an earlier occurrence would end inside of the
pattern. -/
theorem encloses_of_not_isInfix {start xs : List α} {c : α} (hc : c ∉ start)
    (h : ¬ (start ++ [c]) <:+: xs) : Encloses (start ++ [c]) xs := by
  induction xs with
  | nil => exact encloses_nil (by simp)
  | cons x xs ih =>
      refine (ih fun hi => h (List.infix_cons hi)).cons fun hp => ?_
      rw [List.isPrefixOf_iff_prefix, ← List.cons_append] at hp
      by_cases hlength : (start ++ [c]).length ≤ (x :: xs).length
      · exact h (List.prefix_of_prefix_length_le hp (List.prefix_append ..) hlength).isInfix
      · have hinside : (x :: xs) <+: start ++ [c] :=
          List.prefix_of_prefix_length_le (List.prefix_append ..) hp (by omega)
        obtain ⟨ys, hys⟩ := hinside
        rw [← hys, List.prefix_append_right_inj, hys] at hp
        have hshort : ys.length ≤ start.length := by
          have := congrArg List.length hys
          simp only [List.length_append, List.length_cons, List.length_nil] at this
          omega
        have hstart : ys <+: start :=
          List.prefix_of_prefix_length_le hp (List.prefix_append ..) hshort
        have hmem : c ∈ ys := by
          rcases List.eq_nil_or_concat ys with rfl | ⟨zs, d, rfl⟩
          · exact absurd (by rw [← hys]; simp) hlength
          · rw [List.concat_eq_append, ← List.append_assoc] at hys
            have hd := (List.append_inj' hys rfl).2
            simp [List.singleton_inj.mp hd]
        exact hc (hstart.subset hmem)

/-- What stands before the first occurrence is enclosed by it. -/
theorem around?_eq_some {pattern : List α} (hne : pattern ≠ []) {xs before after : List α}
    (h : around? pattern xs = some (before, after)) :
    xs = before ++ pattern ++ after ∧ Encloses pattern before := by
  induction xs generalizing before with
  | nil =>
      rw [around?, if_neg (by simpa using hne)] at h
      cases h
  | cons x xs ih =>
      rw [around?] at h
      by_cases hp : pattern.isPrefixOf (x :: xs) = true
      · rw [if_pos hp] at h
        cases h
        obtain ⟨ys, hys⟩ := List.isPrefixOf_iff_prefix.mp hp
        refine ⟨?_, encloses_nil hne⟩
        rw [List.nil_append, ← hys, List.drop_left]
      · rw [if_neg hp] at h
        obtain ⟨⟨b, a⟩, hr, he⟩ := Option.map_eq_some_iff.mp h
        cases he
        obtain ⟨hxs, hb⟩ := ih hr
        have hlength : pattern.length ≤ (x :: (b ++ pattern)).length := by simp; omega
        refine ⟨by rw [hxs]; rfl, hb.cons ?_⟩
        rw [hxs, ← List.cons_append, isPrefixOf_append_iff hlength] at hp
        exact hp

end Presign.Text
