import Mathlib.Data.List.Induction
import Mathlib.Data.List.TakeWhile
import Presign.Proofs.Time.Rfc3339
import Presign.Time.Pattern

/-!
# Fields of fixed width in patterns

A number ends where its field does, or in front of what is no digit (`digitsUpTo?_eq_some_iff`).
So a pattern is tolerant, but a field that is written in its full width is read as it is, whatever
follows it (`Field.read?_digits`).  Digits of any number are those of one number below the power of
ten that they reach (`Rfc3339.exists_digits`), so a text of digits alone is a row of such fields.
-/

namespace Presign.Time

/-! ## Digits -/

namespace Rfc3339

/-- More digits of a number are the digits of its front before those of its end. -/
theorem digits_add (front back n : Nat) :
    digits (front + back) n = digits front (n / 10 ^ back) ++ digits back n := by
  induction back generalizing n with
  | zero => simp [digits]
  | succ back ih =>
      rw [← Nat.add_assoc, digits, ih, digits, List.append_assoc, Nat.div_div_eq_div_mul,
        Nat.pow_succ']

/-- Digits depend on the end of a number only. -/
theorem digits_add_mul (width front n : Nat) :
    digits width (front * 10 ^ width + n) = digits width n := by
  induction width generalizing n with
  | zero => rfl
  | succ width ih =>
      have hdiv : (front * 10 ^ (width + 1) + n) / 10 = front * 10 ^ width + n / 10 := by
        rw [Nat.pow_succ, ← Nat.mul_assoc]
        omega
      have hmod : (front * 10 ^ (width + 1) + n) % 10 = n % 10 := by
        rw [Nat.pow_succ, ← Nat.mul_assoc]
        omega
      rw [digits, digits, hdiv, hmod, ih]

theorem exists_digit {c : Char} (h : isDigit c = true) : ∃ n < 10, c = Char.ofNat (48 + n) := by
  unfold isDigit Text.digit? at h
  split at h
  next hrange =>
    have hlow : 48 ≤ c.toNat := hrange.1
    have hhigh : c.toNat ≤ 57 := hrange.2
    refine ⟨c.toNat - 48, by omega, ?_⟩
    rw [Nat.add_sub_cancel' hlow, Char.ofNat_toNat]
  next => cases h

/-- Characters that are digits are those of a number. -/
theorem exists_digits {cs : List Char} (h : ∀ c ∈ cs, isDigit c = true) :
    ∃ n < 10 ^ cs.length, cs = digits cs.length n := by
  induction cs using List.reverseRecOn with
  | nil => exact ⟨0, by decide, rfl⟩
  | append_singleton cs c ih =>
      obtain ⟨n, hn, hcs⟩ := ih fun d hd => h d (List.mem_append_left _ hd)
      have hlast := h c (List.mem_append_right _ (List.mem_singleton_self c))
      obtain ⟨d, hd, rfl⟩ := exists_digit hlast
      refine ⟨n * 10 + d, ?_, ?_⟩
      · rw [List.length_append, List.length_singleton, Nat.pow_succ]
        omega
      · have hdiv : (n * 10 + d) / 10 = n := by omega
        have hmod : (n * 10 + d) % 10 = d := by omega
        rw [List.length_append, List.length_singleton, digits, hdiv, hmod, ← hcs]

end Rfc3339

/-! ## Fields -/

open Rfc3339 (digits)

/-- Digits start with a digit. -/
theorem exists_digits_eq_cons {width : Nat} (hpos : 0 < width) (n : Nat) :
    ∃ c cs, digits width n = c :: cs ∧ isDigit c = true := by
  cases h : digits width n with
  | nil =>
      have hlength := Rfc3339.length_digits width n
      rw [h, List.length_nil] at hlength
      omega
  | cons c cs =>
      exact ⟨c, cs, rfl, Rfc3339.isDigit_of_mem_digits c (h ▸ List.mem_cons_self ..)⟩

theorem natural?_digits {width n : Nat} (hpos : 0 < width) (h : n < 10 ^ width) :
    Text.natural? (digits width n) = some n := by
  obtain ⟨c, cs, hcons, -⟩ := exists_digits_eq_cons hpos n
  rw [Text.natural?, if_neg (by simp [hcons]), Rfc3339.digits?_digits h, Nat.zero_mul, Nat.zero_add]

/-- A run inside the first `width` characters ends at their end, or in front of a character that
does not belong to it. -/
theorem takeWhile_take_append {p : Char → Bool} {width : Nat} {front rest : List Char}
    (hall : ∀ c ∈ front, p c = true) (hmost : front.length ≤ width) :
    ((front ++ rest).take width).takeWhile p = front
      ↔ (front.length < width → ∀ c ∈ rest.head?, p c = false) := by
  rw [List.take_append, List.take_of_length_le hmost, List.takeWhile_append_of_pos hall,
    List.append_right_eq_self]
  cases rest with
  | nil => simp
  | cons c rest =>
      cases hcount : width - front.length with
      | zero => simp [Nat.not_lt.mpr (Nat.le_of_sub_eq_zero hcount)]
      | succ count => simp [List.takeWhile_cons, Nat.lt_of_sub_eq_succ hcount]

/-- What a tolerant reader takes at the front of a text for a number of at most `width` digits:
all digits that are there, up to the width. -/
inductive TakesDigits (width : Nat) : List Char → Nat → List Char → Prop
  | intro {count n : Nat} {rest : List Char} (hpos : 0 < count) (hmost : count ≤ width)
      (h : n < 10 ^ count) (hrest : count < width → ∀ c ∈ rest.head?, isDigit c = false) :
      TakesDigits width (digits count n ++ rest) n rest

theorem digitsUpTo?_eq_some_iff {width n : Nat} {cs rest : List Char} :
    digitsUpTo? width cs = some (n, rest) ↔ TakesDigits width cs n rest := by
  constructor
  · intro h
    obtain ⟨m, hm, heq⟩ := Option.map_eq_some_iff.mp h
    obtain ⟨rfl, rfl⟩ := Prod.mk.inj heq
    generalize hrun : (cs.take width).takeWhile isDigit = run at hm ⊢
    have hall : ∀ c ∈ run, isDigit c = true := fun c hc => List.mem_takeWhile_imp (hrun ▸ hc)
    have hfront : run <+: cs.take width := hrun ▸ List.takeWhile_prefix _
    have hmost : run.length ≤ width :=
      Nat.le_trans hfront.length_le (List.length_take_le _ _)
    have hsplit := List.prefix_iff_eq_append.mp (hfront.trans (List.take_prefix _ _))
    obtain ⟨n, hn, hdigits⟩ := Rfc3339.exists_digits hall
    have hpos : 0 < run.length := by
      rw [List.length_pos_iff]
      rintro rfl
      cases hm
    rw [← hsplit, takeWhile_take_append hall hmost] at hrun
    rw [hdigits, natural?_digits hpos hn, Option.some.injEq] at hm
    subst hm
    have htaken := TakesDigits.intro hpos hmost hn hrun
    rwa [← hdigits, hsplit] at htaken
  · intro h
    cases h with
    | @intro count n rest hpos hmost hn hrest =>
        have hlength := Rfc3339.length_digits count n
        have hrun := (takeWhile_take_append Rfc3339.isDigit_of_mem_digits
          (hlength.symm ▸ hmost)).mpr (hlength.symm ▸ hrest)
        rw [digitsUpTo?, hrun, natural?_digits hpos hn, Option.map_some, List.drop_left' rfl]

theorem digitsUpTo?_digits {width n : Nat} (hpos : 0 < width) (h : n < 10 ^ width)
    (rest : List Char) : digitsUpTo? width (digits width n ++ rest) = some (n, rest) :=
  digitsUpTo?_eq_some_iff.mpr
    ⟨hpos, Nat.le_refl _, h, fun hless => absurd hless (Nat.lt_irrefl _)⟩

/-- A digit is no sign. -/
theorem ne_sign_of_isDigit {c : Char} (h : isDigit c = true) : c ≠ '-' ∧ c ≠ '+' := by
  constructor
  · rintro rfl
    exact absurd h (by decide)
  · rintro rfl
    exact absurd h (by decide)

namespace Field

theorem width_pos (f : Field) : 0 < f.width := by
  cases f <;> decide

/-- A field that is written in its width is read. -/
theorem read?_digits (f : Field) (r : Reading) {n : Nat} (h : n < 10 ^ f.width) (rest : List Char) :
    f.read? r (digits f.width n ++ rest) = some (f.set n r, rest) := by
  obtain ⟨c, cs, hcons, hdigit⟩ := exists_digits_eq_cons f.width_pos n
  obtain ⟨hminus, hplus⟩ := ne_sign_of_isDigit hdigit
  have hread := digitsUpTo?_digits f.width_pos h rest
  rw [hcons, List.cons_append] at hread ⊢
  have hstart : Text.trimStart (c :: (cs ++ rest)) = c :: (cs ++ rest) :=
    List.dropWhile_cons_of_neg (by rw [Text.isBlank_of_digit? hdigit]; decide)
  rw [read?, hstart, hread, Option.map_some]
  · intro rest' _ heq
    exact hminus (List.cons.inj (hstart.symm.trans heq)).1
  · intro rest' _ heq
    exact hplus (List.cons.inj (hstart.symm.trans heq)).1

end Field

theorem Pattern.readInto?_field (f : Field) (r : Reading) {n : Nat} (h : n < 10 ^ f.width)
    (pieces : Pattern) (rest : List Char) :
    Pattern.readInto? r (.field f :: pieces) (Rfc3339.digits f.width n ++ rest)
      = Pattern.readInto? (f.set n r) pieces rest := by
  rw [readInto?, f.read?_digits r h]
  rfl

end Presign.Time
