import Presign.Cms.SigningTime
import Presign.Proofs.Der.Element
import Presign.Proofs.Text.Utf8
import Presign.Proofs.Time.Days
import Presign.Proofs.Time.Pattern

/-!
# Signing times that are read

Twelve digits before the final letter are the fields of a clock reading of the years from 1950 to
2049, whatever they are (`exists_isForm`).  The long form has four digits of the year, and it may
have up to nine digits of fraction.  In both forms, what is read is what the pattern reads in the
calendar, and nothing else (`ofDer_eq_ok_iff`).  So a form is read exactly if the calendar has its
date and the day has its time, and then as the instant that it shows (`ofDer_calendar`).

The length of the element may be in any form that is read.
-/

namespace Presign.Cms.SigningTime

open Time (Instant Reading Field Pattern isDigit)
open Time.Rfc3339 (digits)

/-! ## Forms -/

/-- The digits of a reading below the year, two for each field. -/
def belowYear (r : Reading) : List Char :=
  digits 2 r.date.month ++ (digits 2 r.date.day ++ (digits 2 r.hour ++ (digits 2 r.minute ++
    digits 2 r.second)))

/-- The fields below the year have two digits. -/
structure TwoDigits (r : Reading) : Prop where
  month : r.date.month < 100
  day : r.date.day < 100
  hour : r.hour < 100
  minute : r.minute < 100
  second : r.second < 100

/-- The characters of a fraction of a second, which may be missing, and its nanoseconds. -/
inductive IsFraction : List Char → Nat → Prop
  | none : IsFraction [] 0
  | digits {width n : Nat} (hpos : 0 < width) (hmost : width ≤ 9) (h : n < 10 ^ width) :
      IsFraction ('.' :: digits width n) (n * 10 ^ (9 - width))

/-- The characters before the final letter, in the form that a tag announces, and the fields that
they write.  The calendar need not have the date.  The short form has the last two digits of the
year. -/
inductive IsForm : UInt8 → List Char → Reading → Prop
  | short {r : Reading} (htwo : TwoDigits r) (hfirst : 1950 ≤ r.date.year)
      (hlast : r.date.year ≤ 2049) (hnanos : r.nanos = 0) :
      IsForm Der.Tag.utcTime (digits 2 r.date.year.toNat ++ belowYear r) r
  | long {r : Reading} {fraction : List Char} (htwo : TwoDigits r) (hfirst : 0 ≤ r.date.year)
      (hlast : r.date.year ≤ 9999) (hfraction : IsFraction fraction r.nanos) :
      IsForm Der.Tag.generalizedTime (digits 4 r.date.year.toNat ++ (belowYear r ++ fraction)) r

/-- The octets of an element whose content is a text and the final letter. -/
def IsWritten (tag : UInt8) (cs : List Char) (bs : Octets) : Prop :=
  ∃ front, Der.IsLength front (Text.encode (String.ofList (cs ++ ['Z']))).length ∧
    bs = tag :: (front ++ Text.encode (String.ofList (cs ++ ['Z'])))

/-- The calendar has the date, and the day has the time.  Second 60 is a leap second. -/
structure IsClock (r : Reading) : Prop where
  date : r.date.IsGregorian
  hour : r.hour < 24
  minute : r.minute < 60
  second : r.second ≤ 60

theorem IsClock.twoDigits {r : Reading} (h : IsClock r) : TwoDigits r := by
  obtain ⟨⟨-, hmonth, -, hday⟩, hhour, hminute, hsecond⟩ := h
  have hlong := Time.Date.daysInMonth_le r.date.year r.date.month
  constructor <;> omega

/-- Missing digits are zeros, so every fraction is below a second. -/
theorem IsFraction.lt {cs : List Char} {n : Nat} (h : IsFraction cs n) :
    n < Time.nanosPerSecond := by
  cases h with
  | none => decide
  | @digits width n _ hmost h =>
      calc n * 10 ^ (9 - width) < 10 ^ width * 10 ^ (9 - width) :=
            Nat.mul_lt_mul_of_pos_right h (Nat.pow_pos (by decide))
        _ = 10 ^ 9 := by rw [← Nat.pow_add, Nat.add_sub_cancel' hmost]

/-- Two digits in front are a field. -/
theorem exists_field {count : Nat} {cs : List Char} (hlength : cs.length = count + 2)
    (hdigits : ∀ c ∈ cs, isDigit c = true) : ∃ n rest, n < 100 ∧ cs = digits 2 n ++ rest ∧
      rest.length = count ∧ ∀ c ∈ rest, isDigit c = true := by
  obtain ⟨n, hn, hfront⟩ := Time.Rfc3339.exists_digits
    fun c (hc : c ∈ cs.take 2) => hdigits c (List.mem_of_mem_take hc)
  have htake : (cs.take 2).length = 2 := List.length_take_of_le (by omega)
  rw [htake] at hn hfront
  refine ⟨n, cs.drop 2, hn, ?_, ?_, fun c hc => hdigits c (List.mem_of_mem_drop hc)⟩
  · rw [← hfront, List.take_append_drop]
  · rw [List.length_drop]
    omega

/-- Two digits are the last ones of a year from 1950 to 2049. -/
theorem exists_year {n : Nat} (h : n < 100) :
    ∃ year : Nat, 1950 ≤ year ∧ year ≤ 2049 ∧ digits 2 year = digits 2 n := by
  by_cases hlate : 50 ≤ n
  · exact ⟨19 * 10 ^ 2 + n, by omega, by omega, Time.Rfc3339.digits_add_mul 2 19 n⟩
  · exact ⟨20 * 10 ^ 2 + n, by omega, by omega, Time.Rfc3339.digits_add_mul 2 20 n⟩

/-- Twelve digits are the short form of a reading. -/
theorem exists_isForm {cs : List Char} (hlength : cs.length = 12)
    (hdigits : ∀ c ∈ cs, isDigit c = true) : ∃ r, IsForm Der.Tag.utcTime cs r := by
  obtain ⟨last, cs, hlast, rfl, hlength, hdigits⟩ := exists_field hlength hdigits
  obtain ⟨month, cs, hmonth, rfl, hlength, hdigits⟩ := exists_field hlength hdigits
  obtain ⟨day, cs, hday, rfl, hlength, hdigits⟩ := exists_field hlength hdigits
  obtain ⟨hour, cs, hhour, rfl, hlength, hdigits⟩ := exists_field hlength hdigits
  obtain ⟨minute, cs, hminute, rfl, hlength, hdigits⟩ := exists_field hlength hdigits
  obtain ⟨second, cs, hsecond, rfl, hlength, -⟩ := exists_field hlength hdigits
  obtain ⟨year, hfirst, hyears, hyear⟩ := exists_year hlast
  rw [List.length_eq_zero_iff.mp hlength, List.append_nil, ← hyear]
  exact ⟨_, .short (r := ⟨⟨year, month, day⟩, hour, minute, second, 0⟩)
    ⟨hmonth, hday, hhour, hminute, hsecond⟩ (Int.ofNat_le.mpr hfirst) (Int.ofNat_le.mpr hyears) rfl⟩

/-! ## Fields -/

/-- The pattern reads the fields of a reading, and what follows them is left. -/
theorem readInto?_pattern {r : Reading} (htwo : TwoDigits r) (hfirst : 0 ≤ r.date.year)
    (hlast : r.date.year ≤ 9999) (behind : Pattern) (rest : List Char) :
    (pattern behind).readInto? Pattern.blank
        (digits 4 r.date.year.toNat ++ (belowYear r ++ rest))
      = Pattern.readInto? { r with nanos := 0 } (behind ++ [.literal 'Z']) rest := by
  have hyear : r.date.year.toNat < 10 ^ Field.width .year := by
    change _ < 10000
    omega
  have hset : ((r.date.year.toNat : Nat) : Int) = r.date.year := Int.toNat_of_nonneg hfirst
  simp only [pattern, belowYear, List.append_assoc, List.cons_append, List.nil_append]
  -- the digits of each field are as many as its width
  refine (Pattern.readInto?_field .year _ hyear ..).trans ?_
  refine (Pattern.readInto?_field .month _ htwo.month ..).trans ?_
  refine (Pattern.readInto?_field .day _ htwo.day ..).trans ?_
  refine (Pattern.readInto?_field .hour _ htwo.hour ..).trans ?_
  refine (Pattern.readInto?_field .minute _ htwo.minute ..).trans ?_
  refine (Pattern.readInto?_field .second _ htwo.second ..).trans ?_
  simp only [Field.set, Pattern.blank, hset]

/-- The first two digits of a year that the short form leaves out are put back. -/
theorem century_append {year : Nat} (hfirst : 1950 ≤ year) (hlast : year ≤ 2049) :
    century (year / 10 % 10) ++ digits 2 year = digits 4 year := by
  have hcentury : century (year / 10 % 10) = digits 2 (year / 100) := by
    unfold century
    split
    next hlate =>
      rw [show year / 100 = 19 by omega]
      decide
    next hlate =>
      rw [show year / 100 = 20 by omega]
      decide
  exact hcentury ▸ (Time.Rfc3339.digits_add 2 2 year).symm

/-- The fraction is read, and nothing is left behind the final letter. -/
theorem readInto?_fraction {r : Reading} {fraction : List Char} (h : IsFraction fraction r.nanos) :
    Pattern.readInto? { r with nanos := 0 } [.fraction, .literal 'Z'] (fraction ++ ['Z'])
      = some r := by
  have hread : Time.fraction? (fraction ++ ['Z']) = some (r.nanos, ['Z']) := by
    generalize r.nanos = nanos at h
    cases h with
    | none => decide
    | digits hpos hmost hn => exact Time.Rfc3339.fraction?_digits hpos hmost hn (by decide) []
  rw [Pattern.readInto?, hread]
  simp [Pattern.readInto?]

/-! ## Contents -/

/-- A short form is read with all digits of its year. -/
theorem readShort_digits_append {year : Nat} {i : Instant} (hfirst : 1950 ≤ year)
    (hlast : year ≤ 2049) (rest : List Char) :
    readShort (digits 2 year ++ rest) = .ok i
      ↔ (pattern []).read? (digits 4 year ++ rest) = some i := by
  have htens : ((digits 2 year ++ rest).take 2).mapM Text.digit?
      = some [year / 10 % 10, year % 10] := by
    rw [List.take_left' (Time.Rfc3339.length_digits 2 year)]
    simp [digits, Time.Rfc3339.digit?_ofNat, Nat.mod_lt]
  rw [readShort, htens]
  dsimp only
  rw [← List.append_assoc, century_append hfirst hlast]
  cases (pattern []).read? (digits 4 year ++ rest) <;> simp

theorem readShort_eq_ok_iff {r : Reading} {i : Instant} (htwo : TwoDigits r)
    (hfirst : 1950 ≤ r.date.year) (hlast : r.date.year ≤ 2049) (hnanos : r.nanos = 0) :
    readShort (digits 2 r.date.year.toNat ++ belowYear r ++ ['Z']) = .ok i
      ↔ r.instant? = some i := by
  have hread : (pattern []).read? (digits 4 r.date.year.toNat ++ (belowYear r ++ ['Z']))
      = r.instant? := by
    rw [Pattern.read?, readInto?_pattern htwo (by omega) (by omega), ← hnanos]
    simp [Pattern.readInto?]
  rw [List.append_assoc, readShort_digits_append (by omega) (by omega), hread]

theorem readLong_eq_ok_iff {r : Reading} {i : Instant} {fraction : List Char} (htwo : TwoDigits r)
    (hfirst : 0 ≤ r.date.year) (hlast : r.date.year ≤ 9999)
    (hfraction : IsFraction fraction r.nanos) :
    readLong (digits 4 r.date.year.toNat ++ (belowYear r ++ fraction) ++ ['Z']) = .ok i
      ↔ r.instant? = some i := by
  have hread : (pattern [.fraction]).read? (digits 4 r.date.year.toNat ++
      (belowYear r ++ (fraction ++ ['Z']))) = r.instant? := by
    rw [Pattern.read?, readInto?_pattern htwo hfirst hlast, List.singleton_append,
      readInto?_fraction hfraction, Option.bind_some]
  rw [List.append_assoc, List.append_assoc, readLong, hread]
  cases r.instant? <;> simp

/-! ## Elements -/

variable {tag : UInt8} {cs : List Char} {r : Reading} {i : Instant} {bs : Octets}

/-- An element is read as what its content says under its tag. -/
theorem ofDer_eq_ok_iff_content : ofDer bs = .ok i ↔ ∃ tag content,
    Der.content tag elementName bs = .ok content ∧ readContent tag content = .ok i := by
  simp only [Der.content_eq_ok_iff_splitFault]
  rw [ofDer, Except.bind_eq_ok]
  constructor
  · rintro ⟨⟨tag, content, rest⟩, hsplit, h⟩
    split at h
    next => cases h
    next hrest =>
      obtain rfl : rest = [] := not_not.mp hrest
      exact ⟨tag, content, Except.mapError_eq_ok.mp hsplit, Except.mapError_eq_ok.mp h⟩
  · rintro ⟨tag, content, hsplit, hread⟩
    exact ⟨_, Except.mapError_eq_ok.mpr hsplit, Except.mapError_eq_ok.mpr hread⟩

/-- What is read of a form is the instant of its reading. -/
theorem ofDer_eq_ok_iff (hform : IsForm tag cs r) (hbs : IsWritten tag cs bs) :
    ofDer bs = .ok i ↔ r.instant? = some i := by
  have hread : readContent tag (Text.encode (String.ofList (cs ++ ['Z']))) = .ok i
      ↔ r.instant? = some i := by
    rw [readContent, Text.decode?_encode]
    dsimp only
    rw [String.toList_ofList]
    cases hform with
    | short htwo hfirst hlast hnanos =>
        rw [if_pos rfl, readShort_eq_ok_iff htwo hfirst hlast hnanos]
    | long htwo hfirst hlast hfraction =>
        rw [if_neg (by decide), if_pos rfl, readLong_eq_ok_iff htwo hfirst hlast hfraction]
  have htag : tag % 32 ≠ 31 := by cases hform <;> decide
  obtain ⟨front, hfront, hbs⟩ := hbs
  have hcontent : Der.content tag elementName bs = .ok _ :=
    Der.content_eq_ok_iff.mpr ⟨htag, front, hfront, hbs⟩
  rw [ofDer_eq_ok_iff_content, ← hread]
  constructor
  · rintro ⟨tag', content, hcontent', h⟩
    obtain ⟨-, front', -, hbs'⟩ := Der.content_eq_ok_iff.mp hcontent'
    obtain rfl := (List.cons.inj (hbs.symm.trans hbs')).1
    cases hcontent.symm.trans hcontent'
    exact h
  · intro h
    exact ⟨tag, _, hcontent, h⟩

/-- There is such a reading exactly if the calendar has its date and the day has its time. -/
theorem isValid_iff_isClock (hform : IsForm tag cs r) : r.isValid = true ↔ IsClock r := by
  have hyear : Instant.minYear ≤ r.date.year ∧ r.date.year ≤ Instant.maxYear := by
    unfold Instant.minYear Instant.maxYear
    cases hform with
    | short _ hfirst hlast _ => omega
    | long _ hfirst hlast _ => omega
  have hnanos : r.nanos < Time.nanosPerSecond := by
    cases hform with
    | short _ _ _ hnanos => exact hnanos ▸ by decide
    | long _ _ _ hfraction => exact hfraction.lt
  rw [Reading.isValid_iff, Time.Date.isValid_iff_isGregorian]
  constructor
  · rintro ⟨-, -, hdate, hhour, hminute, hsecond, -⟩
    exact ⟨hdate, hhour, hminute, hsecond⟩
  · rintro ⟨hdate, hhour, hminute, hsecond⟩
    exact ⟨hyear.1, hyear.2, hdate, hhour, hminute, hsecond, hnanos⟩

/-- A form is read if the calendar has its date and the day has its time. -/
theorem exists_ofDer_eq_ok_iff (hform : IsForm tag cs r) (hbs : IsWritten tag cs bs) :
    (∃ i, ofDer bs = .ok i) ↔ IsClock r := by
  simp only [ofDer_eq_ok_iff hform hbs, ← isValid_iff_isClock hform]
  constructor
  · rintro ⟨i, hi⟩
    exact (Reading.instant?_eq_some_iff.mp hi).1
  · exact Reading.exists_instant?

/-- Outside of leap seconds, a form is read as the instant that it shows. -/
theorem ofDer_eq_ok_iff_shows (hform : IsForm tag cs r) (hbs : IsWritten tag cs bs)
    (hsecond : r.second < 60) : ofDer bs = .ok i ↔ IsClock r ∧ r.Shows i := by
  rw [ofDer_eq_ok_iff hform hbs, Reading.instant?_eq_some_iff_shows hsecond,
    isValid_iff_isClock hform]

/-! ## Instants -/

section ReadYears

variable (hfirst : 0 ≤ (Reading.ofInstant i).date.year)
  (hlast : (Reading.ofInstant i).date.year ≤ 9999)
  (hleap : i.isLeap = true → i.seconds % 60 = 59)
include hfirst hlast hleap

theorem isClock_ofInstant : IsClock (Reading.ofInstant i) := by
  have hread := Reading.instant?_ofInstant_of_year hfirst hlast hleap
  obtain ⟨hvalid, -⟩ := Reading.instant?_eq_some_iff.mp hread
  obtain ⟨-, -, hdate, hhour, hminute, hsecond, -⟩ := Reading.isValid_iff.mp hvalid
  exact ⟨Time.Date.isValid_iff_isGregorian.mp hdate, hhour, hminute, hsecond⟩

/-- An instant has a long form, with all nine digits of its fraction. -/
theorem exists_long_ofInstant : ∃ cs, IsForm Der.Tag.generalizedTime cs (Reading.ofInstant i) := by
  have hnanos : (Reading.ofInstant i).nanos < 10 ^ 9 := Nat.mod_lt _ (by decide)
  have hfraction := IsFraction.digits (by decide) (Nat.le_refl 9) hnanos
  rw [Nat.sub_self, Nat.pow_zero, Nat.mul_one] at hfraction
  exact ⟨_, .long (isClock_ofInstant hfirst hlast hleap).twoDigits hfirst hlast hfraction⟩

/-- What is written for an instant is read as this instant. -/
theorem ofDer_of_ofInstant (hform : IsForm tag cs (Reading.ofInstant i))
    (hbs : IsWritten tag cs bs) : ofDer bs = .ok i :=
  (ofDer_eq_ok_iff hform hbs).mpr (Reading.instant?_ofInstant_of_year hfirst hlast hleap)

end ReadYears

/-- Signing times are read by the calendar.  Twelve digits are a short form, with the years from
1950 to 2049.  A form is read exactly if the calendar has its date and the day has its time, and
outside of leap seconds as the instant that it shows.  Every instant of the years from 0 to 9999
has a long form, and a short form if this can tell it, and what is written for it is read as this
instant. -/
theorem ofDer_calendar :
    (∀ cs : List Char, cs.length = 12 → (∀ c ∈ cs, isDigit c = true) →
      ∃ r, IsForm Der.Tag.utcTime cs r) ∧
    (∀ tag cs r bs, IsForm tag cs r → IsWritten tag cs bs →
      ((∃ i, ofDer bs = .ok i) ↔ IsClock r) ∧
      (r.second < 60 → ∀ i, ofDer bs = .ok i ↔ IsClock r ∧ r.Shows i)) ∧
    (∀ i : Instant, 0 ≤ (Reading.ofInstant i).date.year → (Reading.ofInstant i).date.year ≤ 9999 →
      (i.isLeap = true → i.seconds % 60 = 59) →
      (∃ cs, IsForm Der.Tag.generalizedTime cs (Reading.ofInstant i)) ∧
      (1950 ≤ (Reading.ofInstant i).date.year → (Reading.ofInstant i).date.year ≤ 2049 →
        i.fraction = 0 → ∃ cs, IsForm Der.Tag.utcTime cs (Reading.ofInstant i)) ∧
      ∀ tag cs bs, IsForm tag cs (Reading.ofInstant i) → IsWritten tag cs bs →
        ofDer bs = .ok i) := by
  refine ⟨fun cs hlength hdigits => exists_isForm hlength hdigits, ?_, ?_⟩
  · intro tag cs r bs hform hbs
    exact ⟨exists_ofDer_eq_ok_iff hform hbs,
      fun hsecond i => ofDer_eq_ok_iff_shows hform hbs hsecond⟩
  · intro i hfirst hlast hleap
    refine ⟨exists_long_ofInstant hfirst hlast hleap, ?_, ?_⟩
    · intro hfirst' hlast' hfraction
      exact ⟨_, .short (isClock_ofInstant hfirst hlast hleap).twoDigits hfirst' hlast' hfraction⟩
    · intro tag cs bs hform hbs
      exact ofDer_of_ofInstant hfirst hlast hleap hform hbs

/-- The last second of 2000-02-29 is read in its short form.  The calendar has no 2001-02-29, so
nothing is read there. -/
theorem ofDer_calendar_leap_day :
    ofDer (0x17 :: 13 :: Text.encode "000229235959Z") = .ok ⟨951868799, 0, by decide⟩ ∧
    ¬ ∃ i, ofDer (0x17 :: 13 :: Text.encode "010229000000Z") = .ok i := by
  have hwritten (cs : List Char) (hsize : (Text.encode (String.ofList (cs ++ ['Z']))).length = 13) :
      IsWritten Der.Tag.utcTime cs (0x17 :: 13 :: Text.encode (String.ofList (cs ++ ['Z']))) :=
    ⟨[13], hsize ▸ .short (by decide), rfl⟩
  have hread := (ofDer_calendar.2.1 _ _ ⟨⟨2000, 2, 29⟩, 23, 59, 59, 0⟩ _
    (.short ⟨by decide, by decide, by decide, by decide, by decide⟩ (by decide) (by decide) rfl)
    (hwritten _ (by decide))).2 (by decide)
  have hnone := (ofDer_calendar.2.1 _ _ ⟨⟨2001, 2, 29⟩, 0, 0, 0, 0⟩ _
    (.short ⟨by decide, by decide, by decide, by decide, by decide⟩ (by decide) (by decide) rfl)
    (hwritten _ (by decide))).1
  constructor
  · refine (hread _).mpr ⟨⟨⟨by decide, by decide, by decide, by decide⟩, by decide, by decide,
      by decide⟩, ?_⟩
    exact ⟨11016, Time.Date.isDay_iff.mpr (by decide), by decide, rfl⟩
  · intro hsome
    exact absurd (hnone.mp hsome).date.day_le (by decide)

end Presign.Cms.SigningTime
