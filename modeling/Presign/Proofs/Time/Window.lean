import Mathlib.Data.Prod.Lex
import Mathlib.Order.Defs.PartialOrder
import Presign.Time.Window

/-!
# What lies in a window

The ends of a window are instants some span away from now, and an end bounds if it lies in
the range.  A longer span leads further away, out of a leap second as well
(`Instant.plus_le_plus`, `Instant.minus_le_minus`).  Going back by an age and then by a
tolerance is going back by their sum (`Instant.minus_minus`), although the first step may
leave a leap second.

So a window around an instant of the range is open where an end lies outside of the range,
and moves its ends outwards when its age or its tolerance grows (`Window.Contains.mono`).  An end
that lies outside has the whole range on its inner side, so within the range it makes no difference
whether it bounds (`Window.contains_around_iff_of_inRange`).  Outside of leap seconds, whole seconds
are added and taken away as they are (`Instant.plus_ofSeconds`, `Instant.minus_ofSeconds`).
-/

namespace Presign.Time

namespace Instant

variable {i j : Instant} {span span' : Nat}

/-! ## Order -/

/-- An instant is at most another if the other does not come before it. -/
instance : LE Instant := ⟨fun i j => j.before i = false⟩

theorem le_iff :
    i ≤ j ↔ i.seconds < j.seconds ∨ i.seconds = j.seconds ∧ i.nanos ≤ j.nanos := by
  change j.before i = false ↔ _
  simp only [before, Bool.or_eq_false_iff, Bool.and_eq_false_iff, decide_eq_false_iff_not,
    beq_eq_false_iff_ne]
  omega

instance : Preorder Instant where
  le_refl i := le_iff.mpr (Or.inr ⟨rfl, Nat.le_refl _⟩)
  le_trans i j k hij hjk := by
    rw [le_iff] at hij hjk ⊢
    omega

/-- The seconds and the nanoseconds of an instant, of which the seconds count first. -/
def key (i : Instant) : ℤ ×ₗ ℕ := toLex (i.seconds, i.nanos)

theorem key_le_key : i.key ≤ j.key ↔ i ≤ j := by
  rw [key, key, Prod.Lex.toLex_le_toLex, le_iff]

/-! ## Range -/

/-- An instant of the range. -/
def InRange (i : Instant) : Prop := minSecond ≤ i.seconds ∧ i.seconds < endSecond

instance : Decidable i.InRange := inferInstanceAs (Decidable (_ ∧ _))

theorem inRange?_eq_some_iff : i.inRange? = some j ↔ j = i ∧ i.InRange := by
  rw [inRange?, Option.ite_none_right_eq_some, Option.some.injEq, InRange]
  exact ⟨fun h => ⟨h.2.symm, h.1⟩, fun h => ⟨h.2, h.1.symm⟩⟩

theorem inRange?_of_inRange (h : i.InRange) : i.inRange? = some i :=
  inRange?_eq_some_iff.mpr ⟨rfl, h⟩

theorem inRange?_eq_none_iff : i.inRange? = none ↔ ¬ i.InRange := by
  rw [inRange?, InRange, ite_eq_right_iff, imp_iff_not (Option.some_ne_none i)]

/-! ## Some span away -/

theorem seconds_le_of_le (h : i ≤ j) : i.seconds ≤ j.seconds := by
  rw [le_iff] at h
  omega

theorem ofNanos_le_ofNanos {m n : Int} (h : m ≤ n) : ofNanos m ≤ ofNanos n := by
  rw [le_iff]
  simp only [ofNanos, nanosPerSecond]
  omega

theorem nanos_ofNanos_lt (n : Int) : (ofNanos n).nanos < nanosPerSecond := by
  simp only [ofNanos, nanosPerSecond]
  omega

/-- An instant outside of leap seconds is the one at its number of nanoseconds. -/
theorem position_ofNanos (n : Int) :
    (ofNanos n).seconds * nanosPerSecond + (ofNanos n).nanos = n := by
  simp only [ofNanos, nanosPerSecond]
  omega

theorem isLeap_iff : i.isLeap = true ↔ nanosPerSecond ≤ i.nanos := by
  simp [isLeap]

theorem ofNanos_position (h : i.nanos < nanosPerSecond) :
    ofNanos (i.seconds * nanosPerSecond + i.nanos) = i := by
  cases i
  simp only [ofNanos, nanosPerSecond, Instant.mk.injEq] at h ⊢
  omega

theorem plus_zero (i : Instant) : i.plus 0 = i := by
  by_cases hleap : i.isLeap = true
  · exact dif_pos ⟨hleap, i.bound⟩
  · have hlt : i.nanos < nanosPerSecond := Nat.lt_of_not_le fun h => hleap (isLeap_iff.mpr h)
    rw [plus, dif_neg fun h => hleap h.1, fraction, Nat.mod_eq_of_lt hlt]
    exact (congrArg ofNanos (Int.add_zero _)).trans (ofNanos_position hlt)

theorem plus_le_plus (h : span ≤ span') : i.plus span ≤ i.plus span' := by
  by_cases hstays : i.isLeap ∧ i.nanos + span < 2 * nanosPerSecond
  · rw [plus, dif_pos hstays, plus]
    split
    next => exact le_iff.mpr (Or.inr ⟨rfl, Nat.add_le_add_left h _⟩)
    next hleaves =>
      -- what leaves a leap second comes to a later second
      have hleap := isLeap_iff.mp hstays.1
      have hlong : 2 * nanosPerSecond ≤ i.nanos + span' :=
        Nat.le_of_not_lt fun hlt => hleaves ⟨hstays.1, hlt⟩
      have hbound := i.bound
      rw [le_iff]
      simp only [ofNanos, fraction, nanosPerSecond] at hleap hlong hbound ⊢
      omega
  · have hleaves : ¬ (i.isLeap ∧ i.nanos + span' < 2 * nanosPerSecond) := by
      rintro ⟨hleap, hlt⟩
      exact hstays ⟨hleap, by omega⟩
    rw [plus, dif_neg hstays, plus, dif_neg hleaves]
    exact ofNanos_le_ofNanos (by omega)

theorem le_plus (i : Instant) (span : Nat) : i ≤ i.plus span := by
  have h := plus_le_plus (i := i) (Nat.zero_le span)
  rwa [plus_zero] at h

theorem minus_zero (i : Instant) : i.minus 0 = i := by
  by_cases hleap : nanosPerSecond ≤ i.nanos
  · exact if_pos hleap
  · rw [minus, if_neg (by simpa using hleap)]
    exact (congrArg ofNanos (Int.sub_zero _)).trans (ofNanos_position (Nat.lt_of_not_le hleap))

theorem minus_le_minus (h : span ≤ span') : i.minus span' ≤ i.minus span := by
  by_cases hstays : nanosPerSecond + span' ≤ i.nanos
  · rw [minus, if_pos hstays, minus, if_pos (by omega)]
    exact le_iff.mpr (Or.inr ⟨rfl, Nat.sub_le_sub_left h _⟩)
  · rw [minus, if_neg hstays, minus]
    split
    next =>
      -- what leaves a leap second comes to the second before it, or to an earlier one
      have hbound := i.bound
      rw [le_iff]
      simp only [ofNanos, nanosPerSecond] at hbound hstays ⊢
      omega
    next => exact ofNanos_le_ofNanos (by omega)

theorem minus_le_self (i : Instant) (span : Nat) : i.minus span ≤ i := by
  have h := minus_le_minus (i := i) (Nat.zero_le span)
  rwa [minus_zero] at h

/-- Two steps back are one step by the sum.  After the first one either a leap second is left, or
the second one counts from the same leap second. -/
theorem minus_minus (i : Instant) (span span' : Nat) :
    (i.minus span).minus span' = i.minus (span + span') := by
  rw [minus.eq_def i span]
  split
  next hstays =>
    -- in the leap second both steps count from the same instant
    simp only [minus]
    split
    next => rw [if_pos (by omega), Instant.mk.injEq]; omega
    next => rw [if_neg (by omega)]; congr 1; omega
  next hleaves =>
    have hlt := nanos_ofNanos_lt (i.seconds * nanosPerSecond + i.nanos - span)
    have hposition := position_ofNanos (i.seconds * nanosPerSecond + i.nanos - span)
    rw [minus, if_neg (by omega), minus, if_neg (by omega), hposition]
    congr 1
    omega

/-! ## Whole seconds away -/

section WholeSeconds

variable (h : i.isLeap = false) (count : Nat)
include h

theorem nanos_lt_of_isLeap_eq_false : i.nanos < nanosPerSecond :=
  Nat.lt_of_not_le fun hle => Bool.false_ne_true (h.symm.trans (isLeap_iff.mpr hle))

/-- Outside of leap seconds, a number of seconds is added as it is. -/
theorem plus_ofSeconds :
    i.plus (ofSeconds count) = ⟨i.seconds + count, i.nanos, i.bound⟩ := by
  have hlt := nanos_lt_of_isLeap_eq_false h
  have hposition : i.seconds * nanosPerSecond + (i.nanos : Int) + (ofSeconds count : Nat)
      = (i.seconds + count) * nanosPerSecond + i.nanos := by
    rw [ofSeconds, Int.natCast_mul, Int.add_mul]
    omega
  rw [plus, dif_neg (by simp [h]), fraction, Nat.mod_eq_of_lt hlt, hposition]
  exact ofNanos_position (i := ⟨i.seconds + count, i.nanos, i.bound⟩) hlt

/-- Outside of leap seconds, a number of seconds is taken away as it is. -/
theorem minus_ofSeconds :
    i.minus (ofSeconds count) = ⟨i.seconds - count, i.nanos, i.bound⟩ := by
  have hlt := nanos_lt_of_isLeap_eq_false h
  have hposition : i.seconds * nanosPerSecond + (i.nanos : Int) - (ofSeconds count : Nat)
      = (i.seconds - count) * nanosPerSecond + i.nanos := by
    rw [ofSeconds, Int.natCast_mul, Int.sub_mul]
    omega
  rw [minus, if_neg (by omega), hposition]
  exact ofNanos_position (i := ⟨i.seconds - count, i.nanos, i.bound⟩) hlt

end WholeSeconds

/-! ## Milliseconds -/

/-- The instant without what is below a millisecond. -/
def inMillis (i : Instant) : Instant where
  seconds := i.seconds
  nanos := i.nanos / 1000000 * 1000000
  bound := Nat.lt_of_le_of_lt (Nat.div_mul_le_self ..) i.bound

theorem inMillis_le (i : Instant) : i.inMillis ≤ i :=
  le_iff.mpr (Or.inr ⟨rfl, Nat.div_mul_le_self ..⟩)

/-- A second back is further than what is cut off, out of a leap second as well. -/
theorem minus_le_inMillis (h : nanosPerSecond ≤ span) : i.minus span ≤ i.inMillis := by
  have hbound := i.bound
  rw [le_iff, minus, if_neg (by omega)]
  simp only [ofNanos, inMillis, nanosPerSecond] at h hbound ⊢
  omega

/-! ## Steps within the range -/

/-- What is later in the range was reached through the range. -/
theorem InRange.of_plus (h : i.InRange) (hspan : span ≤ span')
    (hlater : (i.plus span').InRange) : (i.plus span).InRange :=
  ⟨Int.le_trans h.1 (seconds_le_of_le (i.le_plus span)),
    Int.lt_of_le_of_lt (seconds_le_of_le (plus_le_plus hspan)) hlater.2⟩

/-- What is earlier in the range was reached through the range. -/
theorem InRange.of_minus (h : i.InRange) (hspan : span ≤ span')
    (hearlier : (i.minus span').InRange) : (i.minus span).InRange :=
  ⟨Int.le_trans hearlier.1 (seconds_le_of_le (minus_le_minus hspan)),
    Int.lt_of_le_of_lt (seconds_le_of_le (i.minus_le_self span)) h.2⟩

/-- Two steps back within the range are one step by the sum. -/
theorem earlier?_bind_earlier? (h : i.InRange) (span span' : Nat) :
    ((i.earlier? span).bind fun j => j.earlier? span') = i.earlier? (span + span') := by
  unfold earlier?
  by_cases hfirst : (i.minus span).InRange
  · rw [inRange?_of_inRange hfirst, Option.bind_some, minus_minus]
  · have hsum : ¬ (i.minus (span + span')).InRange := fun hsum =>
      hfirst (h.of_minus (Nat.le_add_right ..) hsum)
    rw [inRange?_eq_none_iff.mpr hfirst, inRange?_eq_none_iff.mpr hsum, Option.bind_none]

/-! ## Across the whole range -/

/-- The span from the first second of the range to its end. -/
def rangeSpan : Nat := ofSeconds (endSecond - minSecond).toNat

section Across

variable (hi : i.InRange) (hj : j.InRange)
include hi hj

theorem minus_le_of_not_inRange (h : ¬ (i.minus span).InRange) : i.minus span ≤ j := by
  have hback := seconds_le_of_le (i.minus_le_self span)
  rw [le_iff]
  unfold InRange at hi hj h
  omega

theorem le_plus_of_not_inRange (h : ¬ (i.plus span).InRange) : j ≤ i.plus span := by
  have hforth := seconds_le_of_le (i.le_plus span)
  rw [le_iff]
  unfold InRange at hi hj h
  omega

/-- A span that is longer than the range leads out of it, from outside of leap seconds. -/
theorem minus_le_of_rangeSpan_le (hleap : i.isLeap = false) (h : rangeSpan ≤ span) :
    i.minus span ≤ j := by
  refine le_trans (minus_le_minus h) (minus_le_of_not_inRange hi hj fun hrange => ?_)
  rw [rangeSpan, minus_ofSeconds hleap] at hrange
  have hfirst : minSecond ≤ i.seconds - ((endSecond - minSecond).toNat : Int) := hrange.1
  unfold InRange at hi
  omega

theorem le_plus_of_rangeSpan_le (hleap : i.isLeap = false) (h : rangeSpan ≤ span) :
    j ≤ i.plus span := by
  refine le_trans (le_plus_of_not_inRange hi hj fun hrange => ?_) (plus_le_plus h)
  rw [rangeSpan, plus_ofSeconds hleap] at hrange
  have hlast : i.seconds + ((endSecond - minSecond).toNat : Int) < endSecond := hrange.2
  unfold InRange at hi
  omega

end Across

end Instant

/-! ## Windows -/

/-- An instant that lies in a window. -/
structure Window.Contains (w : Window) (i : Instant) : Prop where
  notBefore : ∀ bound ∈ w.notBefore, i.before bound = false
  notAfter : ∀ bound ∈ w.notAfter, bound.before i = false

theorem Window.check_eq_ok_iff {w : Window} {i : Instant} :
    w.check i = .ok () ↔ w.Contains i := by
  have hany (o : Option Instant) (f : Instant → Bool) :
      o.any f = false ↔ ∀ bound ∈ o, f bound = false := by
    cases o <;> simp
  have hcontains : w.Contains i
      ↔ (w.notAfter.any fun bound => bound.before i) = false ∧
        (w.notBefore.any fun bound => i.before bound) = false := by
    rw [hany, hany]
    exact ⟨fun h => ⟨h.notAfter, h.notBefore⟩, fun h => ⟨h.2, h.1⟩⟩
  rw [hcontains, check]
  cases w.notAfter.any fun bound => bound.before i with
  | true => simp
  | false =>
      cases w.notBefore.any fun bound => i.before bound with
      | true => simp
      | false => simp

section Around

variable {now claimed : Instant} {age skew age' skew' : Nat}

/-- The ends of a window are the instants that lie as far away as its age and its tolerance
say, if these lie in the range. -/
theorem Window.contains_around_iff (h : now.InRange) :
    (around now age skew).Contains claimed
      ↔ ((now.minus (age + skew)).InRange → now.minus (age + skew) ≤ claimed) ∧
        ((now.plus skew).InRange → claimed ≤ now.plus skew) := by
  have hbefore : (around now age skew).notBefore = (now.minus (age + skew)).inRange? :=
    Instant.earlier?_bind_earlier? h age skew
  have hafter : (around now age skew).notAfter = (now.plus skew).inRange? := rfl
  constructor
  · rintro ⟨hnotBefore, hnotAfter⟩
    rw [hbefore] at hnotBefore
    rw [hafter] at hnotAfter
    exact ⟨fun hrange => hnotBefore _ (Instant.inRange?_of_inRange hrange),
      fun hrange => hnotAfter _ (Instant.inRange?_of_inRange hrange)⟩
  · rintro ⟨hnotBefore, hnotAfter⟩
    constructor
    · rw [hbefore]
      intro bound hbound
      obtain ⟨rfl, hrange⟩ := Instant.inRange?_eq_some_iff.mp hbound
      exact hnotBefore hrange
    · rw [hafter]
      intro bound hbound
      obtain ⟨rfl, hrange⟩ := Instant.inRange?_eq_some_iff.mp hbound
      exact hnotAfter hrange

/-- Within the range, what is in a window lies between the instants at its ends, whether or not
these lie in the range.  An end outside of the range has the whole range on its inner side. -/
theorem Window.contains_around_iff_of_inRange (hnow : now.InRange) (hclaimed : claimed.InRange) :
    (around now age skew).Contains claimed
      ↔ now.minus (age + skew) ≤ claimed ∧ claimed ≤ now.plus skew := by
  rw [contains_around_iff hnow]
  constructor
  · rintro ⟨hbefore, hafter⟩
    constructor
    · by_cases hrange : (now.minus (age + skew)).InRange
      · exact hbefore hrange
      · exact Instant.minus_le_of_not_inRange hnow hclaimed hrange
    · by_cases hrange : (now.plus skew).InRange
      · exact hafter hrange
      · exact Instant.le_plus_of_not_inRange hnow hclaimed hrange
  · rintro ⟨hbefore, hafter⟩
    exact ⟨fun _ => hbefore, fun _ => hafter⟩

/-- What lies between the instants at the ends is in the window, whether or not they lie in the
range. -/
theorem Window.contains_around_of (hbefore : now.minus (age + skew) ≤ claimed)
    (hafter : claimed ≤ now.plus skew) : (around now age skew).Contains claimed := by
  constructor
  · intro bound hbound
    obtain ⟨i, hi, hbound⟩ := Option.bind_eq_some_iff.mp hbound
    obtain ⟨rfl, -⟩ := Instant.inRange?_eq_some_iff.mp hi
    obtain ⟨rfl, -⟩ := Instant.inRange?_eq_some_iff.mp hbound
    rw [Instant.minus_minus]
    exact hbefore
  · intro bound hbound
    obtain ⟨rfl, -⟩ := Instant.inRange?_eq_some_iff.mp hbound
    exact hafter

/-- Now itself is in the window when it is read in milliseconds, if age and tolerance make up a
second. -/
theorem Window.contains_around_inMillis (h : nanosPerSecond ≤ age + skew) :
    (around now age skew).Contains now.inMillis :=
  contains_around_of (Instant.minus_le_inMillis h) (le_trans now.inMillis_le (now.le_plus skew))

/-- A window of no smaller age and no smaller tolerance contains all that a window
contains.  An end that it has is one that the other has as well, or lies further out. -/
theorem Window.Contains.mono (h : (around now age skew).Contains claimed) (hnow : now.InRange)
    (hage : age ≤ age') (hskew : skew ≤ skew') : (around now age' skew').Contains claimed := by
  rw [contains_around_iff hnow] at h ⊢
  obtain ⟨hnotBefore, hnotAfter⟩ := h
  have hsum : age + skew ≤ age' + skew' := Nat.add_le_add hage hskew
  constructor
  · intro hrange
    exact le_trans (Instant.minus_le_minus hsum) (hnotBefore (hnow.of_minus hsum hrange))
  · intro hrange
    exact le_trans (hnotAfter (hnow.of_plus hskew hrange)) (Instant.plus_le_plus hskew)

end Around

end Presign.Time
