import Presign.Proofs.Time.Days
import Presign.Proofs.Time.Window

/-!
# What a clock shows

A leap second belongs behind the last second of a minute, where it is read as second 60.  One that
is counted on another second is read as the second that follows.  So the reading of an instant
forgets on which second it was counted (`Reading.ofInstant_shown`), and what it names is the instant
that is shown (`Reading.instant?_ofInstant_shown`).

What is shown may lie a second after the instant itself.  A window around that instant contains it
only if the tolerance makes up for that second (`Window.contains_around_shown_iff`).
-/

namespace Presign.Time

theorem daysBeforeYear_le {year year' : Int} (h : year ≤ year') :
    daysBeforeYear year ≤ daysBeforeYear year' := by
  unfold daysBeforeYear
  omega

namespace Instant

variable {i : Instant}

/-- The instant that the reading of an instant names.  A leap second that is out of place is taken
for the second that follows. -/
def shown (i : Instant) : Instant :=
  if i.IsPlaced then i
  else ⟨i.seconds + 1, i.fraction, Nat.lt_trans (Nat.mod_lt _ (by decide)) (by decide)⟩

theorem shown_eq_self (h : i.IsPlaced) : i.shown = i := if_pos h

/-- Out of place, an instant is in a leap second. -/
theorem not_isPlaced_iff :
    ¬ i.IsPlaced ↔ nanosPerSecond ≤ i.nanos ∧ i.seconds % 60 ≠ 59 := by
  rw [IsPlaced, Classical.not_imp, isLeap_iff]

/-- What is shown is in place. -/
theorem isPlaced_shown (i : Instant) : i.shown.IsPlaced := by
  by_cases h : i.IsPlaced
  · rwa [shown_eq_self h]
  · intro hleap
    rw [shown, if_neg h, isLeap_iff] at hleap
    exact absurd hleap (Nat.not_le.mpr (Nat.mod_lt _ (by decide)))

/-- In milliseconds, what is shown is the instant itself only if that is in place. -/
theorem inMillis_shown_iff : i.shown.inMillis = i.inMillis ↔ i.IsPlaced := by
  constructor
  · intro h
    by_contra hplaced
    rw [shown, if_neg hplaced] at h
    have hseconds : i.seconds + 1 = i.seconds := congrArg seconds h
    omega
  · exact fun h => congrArg inMillis (shown_eq_self h)

/-- Half a second into a leap second that is counted on second 54. -/
def displaced : Instant := ⟨1654724214, 1500000000, by decide⟩

example : displaced.shown = ⟨1654724215, 500000000, by decide⟩ := by decide

/-- An instant lies in the range if its year does. -/
theorem inRange_of_year (hmin : minYear ≤ (Reading.ofInstant i).date.year)
    (hmax : (Reading.ofInstant i).date.year ≤ maxYear) : i.InRange := by
  have hdate : (Reading.ofInstant i).date = Date.ofDayNumber (i.seconds / secondsPerDay) := rfl
  have hvalid := Date.isValid_ofDayNumber (i.seconds / secondsPerDay)
  have hday := Date.dayNumber_eq hvalid
  have hwithin := Date.dayOfYear_lt hvalid
  rw [Date.dayNumber_ofDayNumber] at hday
  rw [hdate] at hmin hmax
  generalize Date.ofDayNumber (i.seconds / secondsPerDay) = date at hmin hmax hday hwithin
  have hnext := daysBeforeYear_succ date.year
  have hfirst : minSecond = (daysBeforeYear minYear - Date.epochDay) * secondsPerDay := by
    decide +kernel
  have hend : endSecond = (daysBeforeYear (maxYear + 1) - Date.epochDay) * secondsPerDay := by
    decide +kernel
  have hlower : daysBeforeYear minYear ≤ daysBeforeYear date.year := daysBeforeYear_le hmin
  have hupper : daysBeforeYear (date.year + 1) ≤ daysBeforeYear (maxYear + 1) :=
    daysBeforeYear_le (by omega)
  rw [InRange, hfirst, hend]
  simp only [secondsPerDay] at hday ⊢
  omega

end Instant

namespace Reading

/-- The reading of what is shown is that of the instant. -/
theorem ofInstant_shown (i : Instant) : ofInstant i.shown = ofInstant i := by
  by_cases h : i.IsPlaced
  · rw [Instant.shown_eq_self h]
  · obtain ⟨hleap, hminute⟩ := Instant.not_isPlaced_iff.mp h
    have hbound := i.bound
    rw [Instant.shown, if_neg h]
    have hday : (i.seconds + 1) / secondsPerDay = i.seconds / secondsPerDay := by
      unfold secondsPerDay
      omega
    simp only [ofInstant, hday, Reading.mk.injEq, true_and]
    simp only [Instant.fraction, secondsPerDay, nanosPerSecond] at hleap hbound ⊢
    omega

/-- The reading of an instant names what is shown. -/
theorem instant?_ofInstant_shown {i : Instant} (hmin : Instant.minYear ≤ (ofInstant i).date.year)
    (hmax : (ofInstant i).date.year ≤ Instant.maxYear) :
    (ofInstant i).instant? = some i.shown := by
  rw [← ofInstant_shown] at hmin hmax ⊢
  exact instant?_ofInstant hmin hmax i.isPlaced_shown

end Reading

/-! ## Windows -/

/-- A window around an instant contains what is shown, in milliseconds, if age and tolerance make
up a second and the instant is in place.  Out of place, the tolerance has to make up for the second
that what is shown lies later, less what has been cut off. -/
theorem Window.contains_around_shown_iff {now : Instant} {age skew : Nat}
    (hmin : Instant.minYear ≤ (Reading.ofInstant now).date.year)
    (hmax : (Reading.ofInstant now).date.year ≤ Instant.maxYear)
    (hspan : nanosPerSecond ≤ age + skew) :
    (around now age skew).Contains now.shown.inMillis
      ↔ now.IsPlaced ∨ nanosPerSecond ≤ skew + now.nanos % 1000000 := by
  by_cases hplaced : now.IsPlaced
  · rw [Instant.shown_eq_self hplaced]
    exact iff_of_true (contains_around_inMillis hspan) (Or.inl hplaced)
  have hnow : now.InRange := Instant.inRange_of_year hmin hmax
  have hshown : now.shown.InRange :=
    Instant.inRange_of_year ((Reading.ofInstant_shown now).symm ▸ hmin)
      ((Reading.ofInstant_shown now).symm ▸ hmax)
  rw [contains_around_iff_of_inRange hnow (show now.shown.inMillis.InRange from hshown),
    or_iff_right hplaced]
  obtain ⟨hleap, -⟩ := Instant.not_isPlaced_iff.mp hplaced
  have hbound := now.bound
  have hbefore : now.minus (age + skew) ≤ now.shown.inMillis := by
    refine le_trans (now.minus_le_self _) (Instant.le_iff.mpr (Or.inl ?_))
    rw [Instant.shown, if_neg hplaced]
    exact Int.lt_succ _
  rw [and_iff_right hbefore, Instant.le_iff, Instant.shown, if_neg hplaced, Instant.plus]
  split
  next hstays =>
    -- within the leap second the window ends before the second that is shown
    have hstays := hstays.2
    simp only [Instant.inMillis, nanosPerSecond] at hleap hstays ⊢
    omega
  next hleaves =>
    simp only [Instant.inMillis, Instant.ofNanos, Instant.fraction, nanosPerSecond] at hleap hbound ⊢
    omega

end Presign.Time
