import Presign.Policy
import Presign.Proofs.Except
import Presign.Proofs.Time.Window

/-!
# What a policy allows

When a request has what every preparation needs, when it may be processed as one of a type, and
which claimed times pass.

The spans of a policy may be cut at a limit that is longer than the range of instants.  Such a span
leads out of the range from every instant, and so does the sum of two spans of which one is so long.
So the claimed times that pass are those between two pairs of seconds and nanoseconds, whose
seconds are counted without bounds (`checkTime_exact`).
-/

namespace Presign

theorem Request.essentials_eq_ok_iff {r : Request} {e : Essentials} :
    r.essentials = .ok e ↔ r.data = some e.data ∧ r.type = some e.type := by
  obtain ⟨data, type⟩ := e
  unfold Request.essentials
  cases r.data with
  | none => simp
  | some data' =>
      cases r.type with
      | none => simp
      | some type' => simp

namespace Policy

variable {p : Policy}

theorem allow_eq_ok_iff {rule : Option String} {type expected : SignatureType} :
    p.allow rule type expected = .ok ()
      ↔ (∀ uri ∈ rule, uri ∈ p.supportedRules) ∧ type = expected := by
  have hrule : p.checkRule rule = .ok () ↔ ∀ uri ∈ rule, uri ∈ p.supportedRules := by
    cases rule with
    | none => simp [Policy.checkRule]
    | some uri => simp [Policy.checkRule]
  rw [Policy.allow, Except.bind_eq_ok, ← hrule]
  constructor
  · rintro ⟨⟨⟩, hok, h⟩
    split at h
    next htype => exact ⟨hok, htype⟩
    next => cases h
  · rintro ⟨hok, htype⟩
    exact ⟨(), hok, if_pos htype⟩

theorem checkTime_eq_ok_iff {now claimed : Time.Instant} :
    p.checkTime now claimed = .ok ()
      ↔ (Time.Window.around now p.messageAge p.clockSkew).Contains claimed := by
  rw [checkTime, Except.mapError_eq_ok, Time.Window.check_eq_ok_iff]

/-! ## Claimed times that pass -/

section Exact

open Time (Instant ofSeconds)

variable {now claimed : Instant} {age skew limit : Nat}

section Bounds

variable (hnow : now.InRange) (hleap : now.isLeap = false) (hclaimed : claimed.InRange)
  (hlimit : Instant.rangeSpan ≤ limit)
include hnow hleap hclaimed hlimit

/-- Cutting spans at a limit beyond the range does not move the earliest time that passes. -/
theorem minus_min_le_iff :
    now.minus (min (ofSeconds age) limit + min (ofSeconds skew) limit) ≤ claimed
      ↔ now.minus (ofSeconds age + ofSeconds skew) ≤ claimed := by
  by_cases hcut : ofSeconds age ≤ limit ∧ ofSeconds skew ≤ limit
  · rw [Nat.min_eq_left hcut.1, Nat.min_eq_left hcut.2]
  · have hpasses {span : Nat} (h : limit ≤ span) : now.minus span ≤ claimed :=
      Instant.minus_le_of_rangeSpan_le hnow hclaimed hleap (Nat.le_trans hlimit h)
    exact iff_of_true (hpasses (by omega)) (hpasses (by omega))

/-- Cutting a span at a limit beyond the range does not move the latest time that passes. -/
theorem le_plus_min_iff :
    claimed ≤ now.plus (min (ofSeconds skew) limit) ↔ claimed ≤ now.plus (ofSeconds skew) := by
  by_cases hcut : ofSeconds skew ≤ limit
  · rw [Nat.min_eq_left hcut]
  · have hpasses {span : Nat} (h : limit ≤ span) : claimed ≤ now.plus span :=
      Instant.le_plus_of_rangeSpan_le hnow hclaimed hleap (Nat.le_trans hlimit h)
    exact iff_of_true (hpasses (by omega)) (hpasses (by omega))

end Bounds

/-- For spans of whole seconds, and outside of leap seconds, a claimed time passes exactly if it
lies between now less the age and the tolerance and now plus the tolerance.  Both ends pass.  An end
outside of the range excludes nothing.  Spans may be cut at a limit beyond the range; one that is
longer than both cuts nothing. -/
theorem checkTime_exact (hage : p.messageAge = min (ofSeconds age) limit)
    (hskew : p.clockSkew = min (ofSeconds skew) limit) (hlimit : Instant.rangeSpan ≤ limit)
    (hnow : now.InRange) (hleap : now.isLeap = false) (hclaimed : claimed.InRange) :
    (p.checkTime now claimed = .ok ()
      ↔ toLex (now.seconds - age - skew, now.nanos) ≤ toLex (claimed.seconds, claimed.nanos) ∧
        toLex (claimed.seconds, claimed.nanos) ≤ toLex (now.seconds + skew, now.nanos)) ∧
    (now.seconds - age - skew < Instant.minSecond →
      toLex (now.seconds - age - skew, now.nanos) ≤ toLex (claimed.seconds, claimed.nanos)) ∧
    (Instant.endSecond ≤ now.seconds + skew →
      toLex (claimed.seconds, claimed.nanos) ≤ toLex (now.seconds + skew, now.nanos)) := by
  have hbefore : now.minus (ofSeconds age + ofSeconds skew) ≤ claimed
      ↔ toLex (now.seconds - age - skew, now.nanos) ≤ toLex (claimed.seconds, claimed.nanos) := by
    have hearlier : (⟨now.seconds - age, now.nanos, now.bound⟩ : Instant).isLeap = false := hleap
    rw [← Instant.minus_minus, Instant.minus_ofSeconds hleap, Instant.minus_ofSeconds hearlier,
      ← Instant.key_le_key]
    rfl
  have hafter : claimed ≤ now.plus (ofSeconds skew)
      ↔ toLex (claimed.seconds, claimed.nanos) ≤ toLex (now.seconds + skew, now.nanos) := by
    rw [Instant.plus_ofSeconds hleap, ← Instant.key_le_key]
    rfl
  refine ⟨?_, fun hout => ?_, fun hout => ?_⟩
  · rw [checkTime_eq_ok_iff, Time.Window.contains_around_iff_of_inRange hnow hclaimed, hage, hskew,
      minus_min_le_iff hnow hleap hclaimed hlimit, le_plus_min_iff hnow hleap hclaimed hlimit,
      hbefore, hafter]
  · rw [Prod.Lex.toLex_le_toLex]
    exact Or.inl (Int.lt_of_lt_of_le hout hclaimed.1)
  · rw [Prod.Lex.toLex_le_toLex]
    exact Or.inl (Int.lt_of_lt_of_le hclaimed.2 hout)

/-- Messages may be as old as clocks can count, and thirty seconds are tolerated.  Clocks count
spans in milliseconds in words of 64 bits. -/
def agelessPolicy : Policy where
  messageAge := min (ofSeconds 0xFFFFFFFFFFFFFFFF) (0x7FFFFFFFFFFFFFFF * 1000000)
  clockSkew := min (ofSeconds 30) (0x7FFFFFFFFFFFFFFF * 1000000)

/-- For example, the first second of the range is not too old for this policy, thirty seconds ahead
of now is not too late, and a nanosecond more is. -/
theorem checkTime_exact_ageless :
    agelessPolicy.checkTime ⟨1654724214, 5, by decide⟩ ⟨Instant.minSecond, 0, by decide⟩ = .ok () ∧
    agelessPolicy.checkTime ⟨1654724214, 5, by decide⟩ ⟨1654724244, 5, by decide⟩ = .ok () ∧
    agelessPolicy.checkTime ⟨1654724214, 5, by decide⟩ ⟨1654724244, 6, by decide⟩ ≠ .ok () := by
  have hnow : (Instant.mk 1654724214 5 (by decide)).InRange := by decide +kernel
  have hexact {claimed : Instant} (hclaimed : claimed.InRange) :=
    (checkTime_exact (show agelessPolicy.messageAge = _ from rfl) rfl (by decide +kernel) hnow rfl
      hclaimed).1
  simp only [Prod.Lex.toLex_le_toLex] at hexact
  rw [hexact (by decide +kernel), hexact (by decide +kernel), ne_eq, hexact (by decide +kernel)]
  decide +kernel

end Exact

end Policy

end Presign
