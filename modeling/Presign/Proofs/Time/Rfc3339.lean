import Mathlib.Algebra.Group.Nat.Defs
import Presign.Proofs.Text.Blank
import Presign.Proofs.Time.Shown
import Presign.Time.Rfc3339

/-!
# Instants that are written and read

The text of an instant has the fields of its reading in a fixed number of digits, and three digits
of fraction.  So it is read field by field, and what is read is the instant that is shown, without
what is below a millisecond (`read?_render`).  This is so in the years from 0 to 9999, which are
written in four digits without a sign, and in a leap second as well, which is written as second 60.
-/

namespace Presign

/-! ## Digits -/

namespace Text

theorem digits?_append (n : Nat) (cs ds : List Char) :
    digits? n (cs ++ ds) = (digits? n cs).bind fun n => digits? n ds := by
  induction cs generalizing n with
  | nil => rfl
  | cons c cs ih =>
      rw [List.cons_append, digits?, digits?]
      cases digit? c with
      | none => rfl
      | some d => exact ih _

end Text

namespace Time

namespace Rfc3339

theorem digit?_ofNat {n : Nat} (h : n < 10) : Text.digit? (Char.ofNat (48 + n)) = some n := by
  have hall : ∀ n < 10, Text.digit? (Char.ofNat (48 + n)) = some n := by decide
  exact hall n h

theorem length_digits (width n : Nat) : (digits width n).length = width := by
  induction width generalizing n with
  | zero => rfl
  | succ width ih => rw [digits, List.length_append, ih, List.length_singleton]

theorem isDigit_of_mem_digits {width n : Nat} : ∀ c ∈ digits width n, isDigit c = true := by
  induction width generalizing n with
  | zero => exact fun c hc => by cases hc
  | succ width ih =>
      intro c hc
      rcases List.mem_append.mp hc with hc | hc
      · exact ih c hc
      · rw [List.mem_singleton.mp hc, isDigit, digit?_ofNat (Nat.mod_lt _ (by decide))]
        rfl

/-- Digits are read as the number that they were written for. -/
theorem digits?_digits {width n : Nat} (h : n < 10 ^ width) (before : Nat) :
    Text.digits? before (digits width n) = some (before * 10 ^ width + n) := by
  induction width generalizing n with
  | zero =>
      rw [Nat.pow_zero, Nat.lt_one_iff] at h
      simp [digits, Text.digits?, h]
  | succ width ih =>
      rw [Nat.pow_succ] at h ⊢
      rw [digits, Text.digits?_append, ih (by omega), Option.bind_some, Text.digits?,
        digit?_ofNat (Nat.mod_lt _ (by decide)), Option.bind_some, Text.digits?,
        show before * (10 ^ width * 10) = before * 10 ^ width * 10 from (Nat.mul_assoc ..).symm]
      congr 1
      omega

/-! ## Fields -/

/-- A field that is written in its width is read. -/
theorem fixed?_digits (width n : Nat) (h : n < 10 ^ width) (hwidth : 0 < width) (rest : List Char) :
    fixed? width (digits width n ++ rest) = some (n, rest) := by
  have htake : (digits width n ++ rest).take width = digits width n :=
    List.take_left' (length_digits width n)
  have hdrop : (digits width n ++ rest).drop width = rest :=
    List.drop_left' (length_digits width n)
  have hall : (digits width n).all isDigit = true :=
    List.all_eq_true.mpr isDigit_of_mem_digits
  have hnonempty : ¬ (digits width n).isEmpty = true := by
    rw [List.isEmpty_iff_length_eq_zero, length_digits]
    omega
  rw [fixed?, htake, hdrop, if_pos ⟨length_digits width n, hall⟩, Text.natural?, if_neg hnonempty,
    digits?_digits h, Nat.zero_mul, Nat.zero_add]
  rfl

/-- A mark that is allowed is taken off. -/
theorem oneOf?_of_mem {allowed : List Char} {c : Char} (h : c ∈ allowed) (cs : List Char) :
    oneOf? allowed (c :: cs) = some cs := if_pos h

theorem digits?_zeros (n count : Nat) :
    Text.digits? n (List.replicate count '0') = some (n * 10 ^ count) := by
  induction count generalizing n with
  | zero => simp [Text.digits?]
  | succ count ih =>
      have hzero : Text.digit? '0' = some 0 := by decide
      rw [List.replicate_succ, Text.digits?, hzero, Option.bind_some, ih, Nat.pow_succ]
      congr 1
      rw [Nat.add_zero, Nat.mul_comm 10, Nat.mul_assoc, Nat.mul_comm 10]

/-- Up to nine digits of fraction are nanoseconds with zeros behind them. -/
theorem nanosOfDigits_digits {width n : Nat} (hwidth : width ≤ 9) (h : n < 10 ^ width) :
    nanosOfDigits (digits width n) = n * 10 ^ (9 - width) := by
  have hpadded : (digits width n ++ List.replicate 9 '0').take 9
      = digits width n ++ List.replicate (9 - width) '0' := by
    have hlength : (digits width n).length ≤ 9 := (length_digits width n).trans_le hwidth
    rw [List.take_append, length_digits, List.take_of_length_le hlength,
      List.take_replicate, Nat.min_eq_left (Nat.sub_le ..)]
  rw [nanosOfDigits, hpadded, Text.digits?_append, digits?_digits h, Option.bind_some,
    digits?_zeros, Option.getD_some, Nat.zero_mul, Nat.zero_add]

/-- Up to nine digits of fraction are read as nanoseconds. -/
theorem fraction?_digits {width n : Nat} (hpos : 0 < width) (hwidth : width ≤ 9)
    (h : n < 10 ^ width) {c : Char} (hc : isDigit c = false) (rest : List Char) :
    fraction? ('.' :: (digits width n ++ c :: rest)) = some (n * 10 ^ (9 - width), c :: rest) := by
  have hall : ∀ d ∈ digits width n, isDigit d = true := isDigit_of_mem_digits
  have htake : (digits width n ++ c :: rest).takeWhile isDigit = digits width n := by
    rw [List.takeWhile_append_of_pos hall, List.takeWhile_cons_of_neg (by simp [hc]),
      List.append_nil]
  have hdrop : (digits width n ++ c :: rest).dropWhile isDigit = c :: rest := by
    rw [List.dropWhile_append_of_pos hall, List.dropWhile_cons_of_neg (by simp [hc])]
  have hnonempty : ¬ (digits width n).isEmpty = true := by
    rw [List.isEmpty_iff_length_eq_zero, length_digits]
    exact Nat.ne_of_gt hpos
  rw [fraction?, htake, hdrop, if_neg hnonempty, nanosOfDigits_digits hwidth h]

/-! ## Instants -/

/-- A reading without what is below a millisecond. -/
def inMillis (r : Reading) : Reading := { r with nanos := r.nanos / 1000000 * 1000000 }

theorem instant?_inMillis {r : Reading} {i : Instant} (h : r.instant? = some i) :
    (inMillis r).instant? = some i.inMillis := by
  obtain ⟨hvalid, hseconds, hnanos⟩ := Reading.instant?_eq_some_iff.mp h
  obtain ⟨hmin, hmax, hdate, hhour, hminute, hsecond, hfraction⟩ := Reading.isValid_iff.mp hvalid
  refine Reading.instant?_eq_some_iff.mpr ⟨Reading.isValid_iff.mpr
    ⟨hmin, hmax, hdate, hhour, hminute, hsecond, Nat.lt_of_le_of_lt (Nat.div_mul_le_self ..)
      hfraction⟩, hseconds, ?_⟩
  -- a leap second is a whole number of milliseconds
  have hleap : r.leap = 0 ∨ r.leap = 1000000000 := by
    unfold Reading.leap
    split
    next => exact Or.inr rfl
    next => exact Or.inl rfl
  change i.nanos / 1000000 * 1000000 = r.nanos / 1000000 * 1000000 + r.leap
  omega

variable {r : Reading} {i : Instant} (h : Reading.ofInstant i = r)
  (hyear : 0 ≤ r.date.year ∧ r.date.year ≤ 9999)
include h hyear

theorem render_toList : (render i).toList = digits 4 r.date.year.toNat
    ++ '-' :: (digits 2 r.date.month ++ '-' :: (digits 2 r.date.day
    ++ 'T' :: (digits 2 r.hour ++ ':' :: (digits 2 r.minute ++ ':' :: (digits 2 r.second
    ++ '.' :: (digits 3 (r.nanos / 1000000) ++ ['Z'])))))) := by
  have hyearChars : yearChars r.date.year = digits 4 r.date.year.toNat := by
    have habs : r.date.year.natAbs = r.date.year.toNat := by omega
    rw [yearChars, if_pos hyear, habs, if_pos (by omega)]
  rw [render, String.toList_ofList, h, readingChars, hyearChars]
  simp only [List.append_assoc, List.cons_append]

/-- The text of an instant is read as what is shown, without what is below a millisecond. -/
theorem read?_render : read? (render i).toList = some i.shown.inMillis := by
  have hshown : r.instant? = some i.shown := by
    rw [← h] at hyear ⊢
    exact Reading.instant?_ofInstant_shown (Int.le_trans (by decide) hyear.1)
      (Int.le_trans hyear.2 (by decide))
  obtain ⟨hvalid, -, -⟩ := Reading.instant?_eq_some_iff.mp hshown
  obtain ⟨-, -, hdate, hhour, hminute, hsecond, hfraction⟩ := Reading.isValid_iff.mp hvalid
  obtain ⟨-, hmonth, -, hday⟩ := Date.isValid_iff_isGregorian.mp hdate
  have hlong := Date.daysInMonth_le r.date.year r.date.month
  unfold nanosPerSecond at hfraction
  have hdate' : (⟨(r.date.year.toNat : Int), r.date.month, r.date.day⟩ : Date) = r.date := by
    rw [Int.toNat_of_nonneg hyear.1]
  have hreading : reading? (render i).toList = some (inMillis r, ['Z']) := by
    have hyearField := fixed?_digits 4 r.date.year.toNat (by omega) (by decide)
    have hmonthField := fixed?_digits 2 r.date.month (by omega) (by decide)
    have hdayField := fixed?_digits 2 r.date.day (by omega) (by decide)
    have hhourField := fixed?_digits 2 r.hour (by omega) (by decide)
    have hminuteField := fixed?_digits 2 r.minute (by omega) (by decide)
    have hsecondField := fixed?_digits 2 r.second (by omega) (by decide)
    have hfractionField := fraction?_digits (by decide) (by decide)
      (show r.nanos / 1000000 < 10 ^ 3 by omega) (show isDigit 'Z' = false by decide) []
    have hdash := oneOf?_of_mem (List.mem_singleton_self '-')
    have hcolon := oneOf?_of_mem (List.mem_singleton_self ':')
    have hmark := oneOf?_of_mem (show 'T' ∈ ['T', 't', ' '] by decide)
    rw [render_toList h hyear, reading?, date?]
    simp only [Option.bind_eq_bind, Option.bind_some, Option.pure_def, hyearField, hmonthField,
      hdayField, hhourField, hminuteField, hsecondField, hfractionField, hdash, hcolon, hmark, hdate']
    rfl
  rw [read?, hreading]
  simp only [Option.bind_eq_bind, Option.bind_some, offset?]
  rw [instant?_inMillis hshown]
  simp only [Option.bind_some, Int.sub_zero]
  rfl

/-- The text of an instant has no blanks. -/
theorem trim_render : Text.trim (render i).toList = (render i).toList := by
  have hdigit {width n : Nat} {c : Char} (hc : c ∈ digits width n) : Text.isBlank c = false :=
    Text.isBlank_of_digit? (isDigit_of_mem_digits c hc)
  have hblank : ∀ c ∈ (render i).toList, Text.isBlank c = false := by
    intro c hc
    rw [render_toList h hyear] at hc
    simp only [List.mem_append, List.mem_cons, List.not_mem_nil, or_false] at hc
    rcases hc with hc | rfl | hc | rfl | hc | rfl | hc | rfl | hc | rfl | hc | rfl | hc | rfl <;>
      first | exact hdigit hc | decide
  exact Text.trim_eq_self (fun c hc => hblank c (List.mem_of_head? hc))
    fun c hc => hblank c (List.mem_of_getLast? hc)

end Rfc3339

end Time

end Presign
