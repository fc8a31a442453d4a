import Mathlib.Algebra.Group.Nat.Defs
import Presign.Oid

/-!
# Object identifiers that are written and read

The content of an object identifier is read as an identifier with the same first two arcs,
but the arcs below may be others (`Oid.ofContent?_content`).  An arc is split into groups
while what is left is above 128, so a part of 128 stands as one octet in front, where it
reads as nothing.  So 128 is lost and runs into the next arc, and an arc above 128 is read
as the number that its other groups tell (`Oid.told`).  The 128 largest arcs are not read
at all.

No arc is added this way.  So an identifier is read back exactly if each of its arcs is
(`Oid.ofContent?_content_iff`).
-/

namespace Presign.Oid

/-! ## Numbers -/

/-- The number that the groups of an arc tell.  A part of 128 tells nothing. -/
def told (n : Nat) : Nat := if n ≤ 128 then n % 128 else told (n / 128) * 128 + n % 128
termination_by n
decreasing_by omega

theorem told_le (n : Nat) : told n ≤ n := by
  induction n using told.induct with
  | case1 n hn =>
      rw [told, if_pos hn]
      exact Nat.mod_le n 128
  | case2 n hn ih =>
      rw [told, if_neg hn]
      omega

theorem told_of_lt {n : Nat} (h : n < 128) : told n = n := by
  rw [told, if_pos (Nat.le_of_lt h), Nat.mod_eq_of_lt h]

/-- A number is told by its groups if none of its leading parts is 128. -/
theorem told_eq_self_iff {n : Nat} : told n = n ↔ ∀ k, n / 128 ^ k ≠ 128 := by
  induction n using told.induct with
  | case1 n hn =>
      rw [told, if_pos hn]
      constructor
      · intro h k hk
        have hle := Nat.div_le_self n (128 ^ k)
        omega
      · intro h
        have hzero := h 0
        rw [Nat.pow_zero, Nat.div_one] at hzero
        omega
  | case2 n hn ih =>
      have hrest : told n = n ↔ told (n / 128) = n / 128 := by
        rw [told, if_neg hn]
        omega
      rw [hrest, ih]
      constructor
      · intro h k
        cases k with
        | zero =>
            rw [Nat.pow_zero, Nat.div_one]
            omega
        | succ k =>
            rw [Nat.pow_succ', ← Nat.div_div_eq_div_mul]
            exact h k
      · intro h k
        rw [Nat.div_div_eq_div_mul, ← Nat.pow_succ']
        exact h (k + 1)

/-! ## Groups -/

variable {begun : Option Nat} {rest : Octets} {n group : Nat}

theorem toNat_leading (h : group < 128) : (UInt8.ofNat (group + 128)).toNat = group + 128 := by
  rw [UInt8.toNat_ofNat']
  omega

/-- A leading group is put behind those before it. -/
theorem arcsOfContent?_leading (hlimit : begun.getD 0 < arcLimit) (h : group < 128) :
    arcsOfContent? begun (UInt8.ofNat (group + 128) :: rest)
      = arcsOfContent? (some (begun.getD 0 * 128 + group)) rest := by
  have hgroup : (group + 128) % 128 = group := by omega
  have hlead : UInt8.ofNat (group + 128) ≥ 128 := by
    rw [ge_iff_le, UInt8.le_iff_toNat_le, toNat_leading h]
    exact Nat.le_add_left 128 group
  cases begun with
  | none =>
      rw [arcsOfContent?, if_neg (UInt8.not_lt.mpr hlead), toNat_leading h, hgroup]
      simp
  | some v =>
      rw [Option.getD_some] at hlimit
      rw [arcsOfContent?, if_neg (Nat.not_le.mpr hlimit), toNat_leading h, hgroup]
      dsimp only
      rw [if_pos hlead, Option.getD_some]

/-- The groups of an arc before its last one. -/
theorem arcsOfContent?_leadingGroups (hbegun : begun.getD 0 = 0) (hn : n ≠ 0)
    (hlimit : n / 128 < arcLimit) :
    arcsOfContent? begun (leadingGroups n ++ rest) = arcsOfContent? (some (told n)) rest := by
  induction n using leadingGroups.induct generalizing rest with
  | case1 => exact absurd rfl hn
  | case2 n hzero hsmall =>
      have hpos : begun.getD 0 < arcLimit := by
        rw [hbegun]
        decide
      rw [leadingGroups, if_neg hzero, if_pos hsmall, List.singleton_append,
        arcsOfContent?_leading hpos (Nat.mod_lt n (by decide)), hbegun, told, if_pos hsmall,
        Nat.zero_mul, Nat.zero_add]
  | case3 n hzero hlarge ih =>
      have hfirst : (some (told (n / 128))).getD 0 < arcLimit :=
        Nat.lt_of_le_of_lt (told_le _) hlimit
      rw [leadingGroups, if_neg hzero, if_neg hlarge, List.append_assoc, List.singleton_append,
        ih (by omega) (by omega), arcsOfContent?_leading hfirst (Nat.mod_lt n (by decide)),
        Option.getD_some, told.eq_def n, if_neg hlarge]

/-- The last group of an arc. -/
theorem arcsOfContent?_last {v : Nat} (h : group < 128) :
    arcsOfContent? (some v) (UInt8.ofNat group :: rest)
      = if arcLimit ≤ v then none
        else if v * 128 + group = 0 then arcsOfContent? none rest
        else (arcsOfContent? none rest).map (UInt64.ofNat (v * 128 + group) :: ·) := by
  have hgroup : (UInt8.ofNat group).toNat = group := by
    rw [UInt8.toNat_ofNat']
    omega
  have hlast : ¬ UInt8.ofNat group ≥ 128 := by
    rw [ge_iff_le, UInt8.le_iff_toNat_le, hgroup]
    exact Nat.not_le.mpr h
  rw [arcsOfContent?, hgroup, Nat.mod_eq_of_lt h]
  dsimp only
  rw [if_neg hlast]

/-! ## Arcs -/

/-- The arcs that are read for given ones.  `pending` says that an arc of 128 stands in
front of them. -/
def toldArcs? : (pending : Bool) → List UInt64 → Option (List UInt64)
  | _, [] => some []
  | pending, arc :: arcs =>
    if arc.toNat = 128 then toldArcs? true arcs
    else if 2 ^ 64 - 128 ≤ arc.toNat then none
    else if told arc.toNat = 0 ∧ (pending = true ∨ 128 < arc.toNat) then toldArcs? false arcs
    else (toldArcs? false arcs).map (UInt64.ofNat (told arc.toNat) :: ·)

/-- An arc is too large to be read if its leading groups come to the limit. -/
theorem arcLimit_le_told_iff {arc : UInt64} :
    arcLimit ≤ told (arc.toNat / 128) ↔ 2 ^ 64 - 128 ≤ arc.toNat := by
  have hlt := arc.toNat_lt
  have hle := told_le (arc.toNat / 128)
  constructor
  · intro h
    unfold arcLimit at h
    omega
  · intro h
    have heq : arc.toNat / 128 = arcLimit := by
      unfold arcLimit
      omega
    have htold : told arcLimit = arcLimit := by decide +kernel
    exact Nat.le_of_eq (heq ▸ htold.symm)

/-- The part of an arc that has been read in front of the next one. -/
def front : (pending : Bool) → Option Nat
  | false => none
  | true => some 0

theorem getD_front (pending : Bool) : (front pending).getD 0 = 0 := by
  cases pending with
  | false => rfl
  | true => rfl

section Arc

variable {pending : Bool} {arc : UInt64}

/-- An arc of one octet adds itself, but zero adds nothing to a part that is pending. -/
theorem arcsOfContent?_short (h : arc.toNat < 128) :
    arcsOfContent? (front pending) (arcOctets arc ++ rest)
      = if arc.toNat = 0 ∧ pending = true then arcsOfContent? none rest
        else (arcsOfContent? none rest).map (arc :: ·) := by
  rw [arcOctets, if_pos (Nat.le_of_lt h), List.singleton_append]
  cases pending with
  | false =>
      have hvalue : (UInt8.ofNat arc.toNat).toNat = arc.toNat := by
        rw [UInt8.toNat_ofNat']
        omega
      have hfirst : UInt8.ofNat arc.toNat < 128 := by
        rw [UInt8.lt_iff_toNat_lt, hvalue]
        exact h
      rw [front, arcsOfContent?, if_pos hfirst, hvalue, UInt64.ofNat_toNat]
      simp
  | true =>
      rw [front, arcsOfContent?_last h, if_neg (by decide), Nat.zero_mul, Nat.zero_add,
        UInt64.ofNat_toNat]
      simp

/-- An arc of 128 is pending. -/
theorem arcsOfContent?_undivided (h : arc.toNat = 128) :
    arcsOfContent? (front pending) (arcOctets arc ++ rest) = arcsOfContent? (front true) rest := by
  have hpos : (front pending).getD 0 < arcLimit := by
    rw [getD_front]
    decide
  have hoctets : arcOctets arc = [UInt8.ofNat (0 + 128)] := by
    rw [arcOctets, if_pos (Nat.le_of_eq h), h]
  rw [hoctets, List.singleton_append, arcsOfContent?_leading hpos (by decide), getD_front]
  rfl

/-- An arc of several octets adds the number that its groups tell, unless it is zero. -/
theorem arcsOfContent?_long (h : 128 < arc.toNat) :
    arcsOfContent? (front pending) (arcOctets arc ++ rest)
      = if 2 ^ 64 - 128 ≤ arc.toNat then none
        else if told arc.toNat = 0 then arcsOfContent? none rest
        else (arcsOfContent? none rest).map (UInt64.ofNat (told arc.toNat) :: ·) := by
  have hsize := arc.toNat_lt
  have hlimit : arc.toNat / 128 / 128 < arcLimit := by
    unfold arcLimit
    omega
  have htold : told (arc.toNat / 128) * 128 + arc.toNat % 128 = told arc.toNat := by
    rw [told.eq_def arc.toNat, if_neg (Nat.not_le.mpr h)]
  rw [arcOctets, if_neg (Nat.not_le.mpr h), List.append_assoc, List.singleton_append,
    arcsOfContent?_leadingGroups (getD_front pending) (by omega) hlimit,
    arcsOfContent?_last (Nat.mod_lt _ (by decide)), htold]
  simp only [arcLimit_le_told_iff]

end Arc

/-- The octets of arcs are read as the arcs that these tell. -/
theorem arcsOfContent?_flatMap (pending : Bool) (arcs : List UInt64) :
    arcsOfContent? (front pending) (arcs.flatMap arcOctets) = toldArcs? pending arcs := by
  induction arcs generalizing pending with
  | nil => rw [List.flatMap_nil, arcsOfContent?, toldArcs?]
  | cons arc arcs ih =>
      have hrest : arcsOfContent? none (arcs.flatMap arcOctets) = toldArcs? false arcs := ih false
      rw [List.flatMap_cons, toldArcs?]
      rcases Nat.lt_trichotomy arc.toNat 128 with hlt | heq | hgt
      · have hsmall : ¬ 2 ^ 64 - 128 ≤ arc.toNat := by omega
        have hlarge : ¬ 128 < arc.toNat := Nat.not_lt.mpr (Nat.le_of_lt hlt)
        rw [arcsOfContent?_short hlt, hrest, if_neg (Nat.ne_of_lt hlt), if_neg hsmall,
          told_of_lt hlt, UInt64.ofNat_toNat]
        simp only [hlarge, or_false]
      · rw [arcsOfContent?_undivided heq, if_pos heq, ih true]
      · rw [arcsOfContent?_long hgt, hrest, if_neg (Nat.ne_of_gt hgt)]
        simp only [hgt, or_true, and_true]

/-- The content of an object identifier is read as the arcs that its arcs tell. -/
theorem ofContent?_content (o : Oid) :
    ofContent? o.content = (toldArcs? false o.arcs).map fun arcs => { o with arcs } := by
  obtain ⟨root, second, arcs⟩ := o
  have hroot := root.isLt
  have hsecond := second.isLt
  have hfirst : (UInt8.ofNat (root.val * 40 + second.val)).toNat = root.val * 40 + second.val := by
    rw [UInt8.toNat_ofNat']
    omega
  have hread : arcsOfContent? none (arcs.flatMap arcOctets) = toldArcs? false arcs :=
    arcsOfContent?_flatMap false arcs
  have hdiv : (UInt8.ofNat (root.val * 40 + second.val)).toNat / 40 = root.val := by omega
  have hmod : (UInt8.ofNat (root.val * 40 + second.val)).toNat % 40 = second.val := by omega
  rw [content, ofContent?, hread]
  cases toldArcs? false arcs with
  | none => rfl
  | some read =>
      simp only [Option.bind_eq_bind, Option.bind_some, hdiv, hmod, hroot, dif_pos, Option.map_some]
      rfl

/-! ## Object identifiers that are read back -/

theorem length_le_of_toldArcs? {pending : Bool} {arcs read : List UInt64}
    (h : toldArcs? pending arcs = some read) : read.length ≤ arcs.length := by
  induction arcs generalizing pending read with
  | nil =>
      cases h
      exact Nat.le_refl 0
  | cons arc arcs ih =>
      rw [toldArcs?] at h
      split at h
      next => exact Nat.le_succ_of_le (ih h)
      next =>
        split at h
        next => cases h
        next =>
          split at h
          next => exact Nat.le_succ_of_le (ih h)
          next =>
            obtain ⟨more, hmore, rfl⟩ := Option.map_eq_some_iff.mp h
            exact Nat.succ_le_succ (ih hmore)

/-- An arc that is read back: it is none of the largest ones, and none of its leading parts
is 128. -/
def IsPlainArc (arc : UInt64) : Prop := arc.toNat < 2 ^ 64 - 128 ∧ ∀ k, arc.toNat / 128 ^ k ≠ 128

theorem isPlainArc_of_toldArcs? {pending : Bool} {arcs : List UInt64}
    (h : toldArcs? pending arcs = some arcs) : ∀ arc ∈ arcs, IsPlainArc arc := by
  induction arcs generalizing pending with
  | nil => exact fun arc harc => by cases harc
  | cons arc arcs ih =>
      rw [toldArcs?] at h
      split at h
      next => exact absurd (length_le_of_toldArcs? h) (Nat.not_succ_le_self _)
      next =>
        split at h
        next => cases h
        next hlimit =>
          split at h
          next => exact absurd (length_le_of_toldArcs? h) (Nat.not_succ_le_self _)
          next =>
            obtain ⟨more, hmore, heq⟩ := Option.map_eq_some_iff.mp h
            obtain ⟨harc, rfl⟩ := List.cons.inj heq
            have htold : told arc.toNat = arc.toNat := by
              have hsize := Nat.lt_of_le_of_lt (told_le arc.toNat) arc.toNat_lt
              rw [← UInt64.toNat_ofNat_of_lt' hsize, harc]
            refine List.forall_mem_cons.mpr ⟨⟨Nat.not_le.mp hlimit, told_eq_self_iff.mp htold⟩, ?_⟩
            exact ih hmore

theorem toldArcs?_of_isPlainArc {arcs : List UInt64} (h : ∀ arc ∈ arcs, IsPlainArc arc) :
    toldArcs? false arcs = some arcs := by
  induction arcs with
  | nil => rfl
  | cons arc arcs ih =>
      obtain ⟨⟨hlimit, hparts⟩, hrest⟩ := List.forall_mem_cons.mp h
      have hne : arc.toNat ≠ 128 := by
        have hwhole := hparts 0
        rwa [Nat.pow_zero, Nat.div_one] at hwhole
      have htold : told arc.toNat = arc.toNat := told_eq_self_iff.mpr hparts
      rw [toldArcs?, if_neg hne, if_neg (Nat.not_le.mpr hlimit), htold,
        if_neg (by simp; omega), ih hrest, UInt64.ofNat_toNat]
      rfl

/-- An object identifier is read back exactly if each of its arcs is. -/
theorem ofContent?_content_iff {o : Oid} :
    ofContent? o.content = some o ↔ ∀ arc ∈ o.arcs, IsPlainArc arc := by
  rw [ofContent?_content]
  constructor
  · intro h
    obtain ⟨arcs, harcs, heq⟩ := Option.map_eq_some_iff.mp h
    have hsame : arcs = o.arcs := congrArg Oid.arcs heq
    exact isPlainArc_of_toldArcs? (hsame ▸ harcs)
  · intro h
    rw [toldArcs?_of_isPlainArc h]
    rfl

end Presign.Oid
