import Presign.Proofs.Der.Value

/-!
# The order of a set

The elements of a set are written in the order of their octets.  The standard compares them
with zeros behind the shorter one (`Octets.PaddedLe`), `Octets.le` compares them as they are.
The two orders are different in general: the first one does not tell a sequence from the same
with zeros behind it.

On elements they are the same (`IsElement.paddedLe_iff`).  Where an element ends is told by its
front, so no element begins with another one (`IsElement.eq_of_isPrefix`).  Two elements then
differ in an octet that both have, before any zero comes into play.

So nothing is lost between elements and the octets that are written for them
(`writing_lossless`).  The bound is that of the readers: they take lengths of up to four
octets.
-/

namespace Presign

/-! ## Padding behind -/

namespace Octets

/-- A sequence with zero octets behind it, up to `width` octets. -/
def padRight (width : Nat) (bs : Octets) : Octets := bs ++ List.replicate (width - bs.length) 0

/-- Octet sequences in the order of the standard: the shorter one is padded with zeros behind
it, and the first difference decides. -/
def PaddedLe (as bs : Octets) : Prop := padRight bs.length as ≤ padRight as.length bs

/-- What follows two sequences does not count if neither begins with the other. -/
theorem append_le_append_iff {as bs : Octets} (h : ¬ as <+: bs) (h' : ¬ bs <+: as)
    (more more' : Octets) : as ++ more ≤ bs ++ more' ↔ as ≤ bs := by
  induction as generalizing bs with
  | nil => exact absurd (List.nil_prefix (l := bs)) h
  | cons a as ih =>
      cases bs with
      | nil => exact absurd (List.nil_prefix (l := a :: as)) h'
      | cons b bs =>
          rw [List.cons_append, List.cons_append, List.cons_le_cons_iff, List.cons_le_cons_iff]
          by_cases hab : a = b
          · subst hab
            rw [ih (fun hp => h (List.cons_prefix_cons.mpr ⟨rfl, hp⟩))
              (fun hp => h' (List.cons_prefix_cons.mpr ⟨rfl, hp⟩))]
          · simp only [hab, false_and]

theorem paddedLe_iff {as bs : Octets} (h : ¬ as <+: bs) (h' : ¬ bs <+: as) :
    PaddedLe as bs ↔ as ≤ bs := append_le_append_iff h h' _ _

theorem paddedLe_refl (bs : Octets) : PaddedLe bs bs := List.le_refl _

/-- An ascending sequence is the sorted one. -/
theorem mergeSort_eq_of_pairwise {bss sorted : List Octets} (hperm : sorted.Perm bss)
    (hsorted : sorted.Pairwise (· ≤ ·)) : bss.mergeSort le = sorted :=
  List.Perm.eq_of_pairwise (fun _ _ _ _ => List.le_antisymm) (pairwise_mergeSort bss) hsorted
    ((List.mergeSort_perm bss le).trans hperm.symm)

end Octets

/-! ## Elements in order -/

namespace Der

/-- The elements of a set are written in one order, whatever order they are given in. -/
theorem setOf_perm {es fs : List Octets} (h : es.Perm fs) : setOf es = setOf fs := by
  have hsorted : es.mergeSort Octets.le = fs.mergeSort Octets.le :=
    Octets.mergeSort_eq_of_pairwise ((List.mergeSort_perm fs _).trans h.symm)
      (Octets.pairwise_mergeSort fs)
  rw [setOf, setOf, hsorted]

/-- An element that begins with another one is this one. -/
theorem IsElement.eq_of_isPrefix {e f : Octets} (he : IsElement e) (hf : IsElement f)
    (h : e <+: f) : e = f := by
  obtain ⟨tag, content, htag, hsize, rfl⟩ := he
  obtain ⟨tag', content', htag', hsize', rfl⟩ := hf
  obtain ⟨rest, hrest⟩ := h
  have hwhole := splitFault_element htag' hsize' []
  rw [List.append_nil, ← hrest, splitFault_element htag hsize rest] at hwhole
  cases hwhole
  rfl

/-- On elements the order of the standard is that of their octets. -/
theorem IsElement.paddedLe_iff {e f : Octets} (he : IsElement e) (hf : IsElement f) :
    Octets.PaddedLe e f ↔ e ≤ f := by
  by_cases heq : e = f
  · subst heq
    exact iff_of_true (Octets.paddedLe_refl e) (List.le_refl e)
  · exact Octets.paddedLe_iff (fun h => heq (he.eq_of_isPrefix hf h))
      (fun h => heq (hf.eq_of_isPrefix he h).symm)

variable {es fs : List Octets}

/-- Elements are sorted if and only if they are in the order of the standard. -/
theorem mergeSort_eq_iff_paddedLe (h : ∀ e ∈ es, IsElement e) :
    es.mergeSort Octets.le = fs ↔ fs.Perm es ∧ fs.Pairwise Octets.PaddedLe := by
  have hpairwise (hperm : fs.Perm es) :
      fs.Pairwise Octets.PaddedLe ↔ fs.Pairwise (· ≤ ·) :=
    List.Pairwise.iff_of_mem fun he hf =>
      (h _ (hperm.mem_iff.mp he)).paddedLe_iff (h _ (hperm.mem_iff.mp hf))
  constructor
  · rintro rfl
    have hperm := List.mergeSort_perm es Octets.le
    exact ⟨hperm, (hpairwise hperm).mpr (Octets.pairwise_mergeSort es)⟩
  · rintro ⟨hperm, hsorted⟩
    exact Octets.mergeSort_eq_of_pairwise hperm ((hpairwise hperm).mp hsorted)

/-! ## Writing and reading -/

/-- Nothing is lost in what is written.  No length is shorter than the one that is written.  An
element that is followed by anything is split off with its tag, its content and what follows
it.  A sequence is read as its elements.  A set is read as its elements in the order of the
standard, and it is the same octets for any order in which they are given. -/
theorem writing_lossless (name : String) :
    (∀ front n, IsLength front n → (lengthOctets n).length ≤ front.length) ∧
    (∀ (tag : UInt8) (content rest : Octets), tag % 32 ≠ 31 → content.length < 2 ^ 32 →
      split name (element tag content ++ rest) = .ok ⟨tag, content, rest⟩) ∧
    (∀ es fs : List Octets, (∀ e ∈ es, IsWhole e) →
      (readSequence name (sequence es) = .ok fs ↔ es.flatten.length < 2 ^ 32 ∧ fs = es) ∧
      (readSet name (setOf es) = .ok fs
        ↔ es.flatten.length < 2 ^ 32 ∧ fs.Perm es ∧ fs.Pairwise Octets.PaddedLe)) ∧
    ∀ es fs : List Octets, es.Perm fs → setOf es = setOf fs := by
  refine ⟨fun _ _ => IsLength.length_lengthOctets_le, ?_, ?_, fun es fs => setOf_perm⟩
  · intro tag content rest htag hsize
    rw [split, splitFault_element htag hsize rest]
    rfl
  · intro es fs h
    have hperm := List.mergeSort_perm es Octets.le
    have hsorted : ∀ e ∈ es.mergeSort Octets.le, IsWhole e := fun e he => h e (hperm.mem_iff.mp he)
    refine ⟨readElements_element_iff (by decide) h, ?_⟩
    rw [readSet, setOf, readElements_element_iff (by decide) hsorted, hperm.flatten.length_eq]
    refine and_congr_right fun hsize => ?_
    have helements : ∀ e ∈ es, IsElement e := fun e he =>
      (h e he).isElement (Nat.lt_of_le_of_lt (length_le_flatten he) hsize)
    rw [eq_comm, mergeSort_eq_iff_paddedLe helements]

/-- Two elements of which the longer one comes first. -/
def uneven : List Octets := [element Tag.octetString [7, 7], element Tag.integer [5],
  element Tag.octetString []]

/-- For example, the elements of `uneven` come back in a sequence as they are, and in a set with
the integer first and the empty string before the longer one. -/
theorem writing_lossless_uneven :
    split "first" (sequence uneven ++ [0]) = .ok ⟨Tag.sequence, uneven.flatten, [0]⟩ ∧
    readSequence "all" (sequence uneven) = .ok uneven ∧
    readSet "all" (setOf uneven)
      = .ok [element Tag.integer [5], element Tag.octetString [], element Tag.octetString [7, 7]] ∧
    setOf uneven.reverse = setOf uneven := by
  have hwhole : ∀ e ∈ uneven, IsWhole e := by
    intro e he
    simp only [uneven, List.mem_cons, List.not_mem_nil, or_false] at he
    rcases he with rfl | rfl | rfl
    · exact ⟨Tag.octetString, _, by decide, rfl⟩
    · exact ⟨Tag.integer, _, by decide, rfl⟩
    · exact ⟨Tag.octetString, _, by decide, rfl⟩
  have hsize : uneven.flatten.length < 2 ^ 32 := by decide
  obtain ⟨-, hfirst, -⟩ := writing_lossless "first"
  obtain ⟨-, -, hread, hperm⟩ := writing_lossless "all"
  refine ⟨hfirst _ _ _ (by decide) hsize, (hread _ _ hwhole).1.mpr ⟨hsize, rfl⟩,
    (hread _ _ hwhole).2.mpr ⟨hsize, by decide, ?_⟩, hperm _ _ (List.reverse_perm uneven)⟩
  unfold Octets.PaddedLe
  decide

end Der

end Presign
