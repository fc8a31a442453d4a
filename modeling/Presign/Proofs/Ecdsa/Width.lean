import Mathlib.Algebra.Order.Floor.Div
import Mathlib.Data.List.Nodup
import Mathlib.GroupTheory.GroupAction.Ring
import Mathlib.Order.Bounds.Basic
import Presign.Proofs.Ecdsa.Encoding

/-!
# The width that a converter picks

A converter is made from key lengths in any order, and keeps them in ascending order and
each once.  So it is told by which key lengths there are (`Codec.ofKeyLengths_congr`).

It tries the widths of its key lengths in this order and picks the first that fits.  A
longer key has no smaller width, as long as rounding up stays inside of a word.  So the
first width that fits is the least one (`Codec.blockSize_exact`).

Two widths that fit one pair are less than two octets apart, since the larger one leaves
less than four octets of zeros in two blocks.  The standard widths are further apart than
that, so at most one of them fits.
-/

namespace Presign.Ecdsa

open Octets

/-- A width that fits a pair: it holds both numbers, where zero takes no octet, and leaves
less than four octets of zeros in the two blocks together. -/
structure Value.FitsIn (v : Value) (w : Nat) : Prop where
  r : natSize v.r ≤ w
  s : natSize v.s ≤ w
  zeros : 2 * w - (natSize v.r + natSize v.s) < 4

/-- Two widths that fit one pair are next to each other. -/
theorem Value.FitsIn.lt_add_two {v : Value} {w w' : Nat} (h : v.FitsIn w) (h' : v.FitsIn w') :
    w' < w + 2 := by
  have hr := h.r
  have hs := h.s
  have hzeros := h'.zeros
  omega

namespace Codec

variable {m n : UInt64} {ms ns lengths : List UInt64} {v : Value} {w : Nat}

/-! ## Key lengths -/

theorem mem_dedup : n ∈ dedup ns ↔ n ∈ ns := by
  fun_induction dedup ns with
  | case1 => rfl
  | case2 k => rfl
  | case3 k ks ih =>
      rw [ih]
      simp
  | case4 k l ks hne ih => rw [List.mem_cons, ih, ← List.mem_cons]

theorem pairwise_dedup (h : ns.Pairwise (· ≤ ·)) : (dedup ns).Pairwise (· < ·) := by
  fun_induction dedup ns with
  | case1 => exact List.Pairwise.nil
  | case2 k => exact List.pairwise_singleton ..
  | case3 k ks ih => exact ih h.of_cons
  | case4 k l ks hne ih =>
      obtain ⟨hk, hrest⟩ := List.pairwise_cons.mp h
      refine List.pairwise_cons.mpr ⟨fun n hn => ?_, ih hrest⟩
      have hkl : k < l := UInt64.lt_of_le_of_ne (hk l (List.mem_cons_self ..)) hne
      rcases List.mem_cons.mp (mem_dedup.mp hn) with rfl | hn
      · exact hkl
      · exact UInt64.lt_of_lt_of_le hkl (List.rel_of_pairwise_cons hrest hn)

theorem mem_keyLengths : n ∈ (ofKeyLengths ns).keyLengths ↔ n ∈ ns := by
  rw [ofKeyLengths, mem_dedup, List.mem_mergeSort]

theorem pairwise_keyLengths (ns : List UInt64) :
    (ofKeyLengths ns).keyLengths.Pairwise (· < ·) := by
  refine pairwise_dedup ?_
  have h : (ns.mergeSort (· ≤ ·)).Pairwise fun m n => decide (m ≤ n) = true := by
    refine List.pairwise_mergeSort (fun a b c hab hbc => ?_) (fun a b => ?_) ns
    · exact decide_eq_true (UInt64.le_trans (of_decide_eq_true hab) (of_decide_eq_true hbc))
    · simpa using UInt64.le_total a b
  exact h.imp of_decide_eq_true

/-- Key lengths that ascend are told by which ones they are. -/
theorem eq_of_mem_iff (hms : ms.Pairwise (· < ·)) (hns : ns.Pairwise (· < ·))
    (h : ∀ n, n ∈ ms ↔ n ∈ ns) : ms = ns := by
  have hperm : ms.Perm ns :=
    (List.perm_ext_iff_of_nodup (hms.imp UInt64.ne_of_lt) (hns.imp UInt64.ne_of_lt)).mpr h
  exact hperm.eq_of_pairwise (fun a b _ _ hab hba => absurd hba (UInt64.lt_asymm hab)) hms hns

/-- A converter is told by which key lengths it is made from. -/
theorem ofKeyLengths_congr (h : ∀ n, n ∈ ms ↔ n ∈ ns) : ofKeyLengths ms = ofKeyLengths ns := by
  refine congrArg Codec.mk (eq_of_mem_iff (pairwise_keyLengths ms) (pairwise_keyLengths ns) ?_)
  intro n
  exact mem_keyLengths.trans ((h n).trans mem_keyLengths.symm)

/-- Key lengths that ascend are kept as they are. -/
theorem ofKeyLengths_of_pairwise (h : ns.Pairwise (· < ·)) : ofKeyLengths ns = ⟨ns⟩ :=
  congrArg Codec.mk (eq_of_mem_iff (pairwise_keyLengths ns) h fun _ => mem_keyLengths)

theorem ofKeyLengths_standard : ofKeyLengths standard.keyLengths = standard :=
  ofKeyLengths_of_pairwise (by decide)

/-! ## Widths -/

/-- A key length that can be rounded up inside of a word. -/
def IsRoomy (n : UInt64) : Prop := n.toNat + 7 < 2 ^ 64

theorem width_eq (h : IsRoomy n) : width n = n.toNat ⌈/⌉ 8 := by
  have hsum : (n + 7).toNat = n.toNat + 7 := by
    rw [UInt64.toNat_add]
    exact Nat.mod_eq_of_lt h
  rw [width, UInt64.toNat_div, hsum, Nat.ceilDiv_eq_add_pred_div]
  rfl

theorem ceilDiv_mono {m n : UInt64} (h : m ≤ n) : m.toNat ⌈/⌉ 8 ≤ n.toNat ⌈/⌉ 8 := by
  rw [Nat.ceilDiv_eq_add_pred_div, Nat.ceilDiv_eq_add_pred_div]
  have hle := UInt64.le_iff_toNat_le.mp h
  omega

/-- The first of ascending numbers with a property is the least one. -/
theorem find?_eq_some_iff_isLeast {ws : List Nat} {p : Nat → Bool} (h : ws.Pairwise (· ≤ ·)) :
    ws.find? p = some w ↔ IsLeast {w | w ∈ ws ∧ p w = true} w := by
  induction ws with
  | nil => simp [IsLeast]
  | cons x ws ih =>
      obtain ⟨hx, hrest⟩ := List.pairwise_cons.mp h
      by_cases hp : p x = true
      · have hleast : IsLeast {w | w ∈ x :: ws ∧ p w = true} x := by
          refine ⟨⟨List.mem_cons_self .., hp⟩, fun y hy => ?_⟩
          rcases List.mem_cons.mp hy.1 with rfl | hmem
          · exact Nat.le_refl y
          · exact hx y hmem
        rw [List.find?_cons_of_pos hp, Option.some.injEq]
        constructor
        · rintro rfl
          exact hleast
        · exact hleast.unique
      · have hset : {w | w ∈ x :: ws ∧ p w = true} = {w | w ∈ ws ∧ p w = true} := by
          ext y
          constructor
          · rintro ⟨hy, hpy⟩
            rcases List.mem_cons.mp hy with rfl | hmem
            · exact absurd hpy hp
            · exact ⟨hmem, hpy⟩
          · exact fun hy => ⟨List.mem_cons_of_mem x hy.1, hy.2⟩
        rw [List.find?_cons_of_neg hp, hset, ih hrest]

/-! ## The width that is picked -/

theorem fits_iff : fits (natSize v.r) (natSize v.s) w = true ↔ v.FitsIn w := by
  simp only [fits, Bool.and_eq_true, decide_eq_true_eq]
  constructor
  · rintro ⟨⟨hr, hs⟩, hzeros⟩
    exact ⟨hr, hs, hzeros⟩
  · intro h
    exact ⟨⟨h.r, h.s⟩, h.zeros⟩

/-- The widths of a converter, in the order in which it tries them. -/
def widths (c : Codec) : List Nat := c.keyLengths.map width

theorem blockSize_eq (c : Codec) (v : Value) :
    c.blockSize v = match c.widths.find? (fits (natSize v.r) (natSize v.s)) with
      | some w => .ok w
      | none => .error (.unsupportedKeyLength (natSize v.r) (natSize v.s) c.keyLengths) := rfl

theorem blockSize_eq_ok_iff {c : Codec} :
    c.blockSize v = .ok w ↔ c.widths.find? (fits (natSize v.r) (natSize v.s)) = some w := by
  rw [blockSize_eq]
  split
  next found hfound => rw [hfound, Except.ok.injEq, Option.some.injEq]
  next hnone => simp [hnone]

theorem blockSize_eq_error_iff {c : Codec} :
    c.blockSize v = .error (.unsupportedKeyLength (natSize v.r) (natSize v.s) c.keyLengths)
      ↔ c.widths.find? (fits (natSize v.r) (natSize v.s)) = none := by
  rw [blockSize_eq]
  split
  next found hfound => simp [hfound]
  next hnone => simp [hnone]

/-- A width of some key length that fits a pair. -/
def Offers (lengths : List UInt64) (v : Value) (w : Nat) : Prop :=
  (∃ n ∈ lengths, w = n.toNat ⌈/⌉ 8) ∧ v.FitsIn w

theorem mem_widths (hroom : ∀ n ∈ lengths, IsRoomy n) :
    w ∈ (ofKeyLengths lengths).widths ↔ ∃ n ∈ lengths, w = n.toNat ⌈/⌉ 8 := by
  rw [widths, List.mem_map]
  refine exists_congr fun n => ?_
  rw [mem_keyLengths]
  refine and_congr_right fun hn => ?_
  rw [width_eq (hroom n hn), eq_comm]

theorem pairwise_widths (hroom : ∀ n ∈ lengths, IsRoomy n) :
    (ofKeyLengths lengths).widths.Pairwise (· ≤ ·) := by
  refine List.pairwise_map.mpr ((pairwise_keyLengths lengths).imp_of_mem ?_)
  intro m n hm hn hlt
  rw [width_eq (hroom m (mem_keyLengths.mp hm)), width_eq (hroom n (mem_keyLengths.mp hn))]
  exact ceilDiv_mono (UInt64.le_of_lt hlt)

theorem find?_widths_eq_some_iff (hroom : ∀ n ∈ lengths, IsRoomy n) :
    (ofKeyLengths lengths).widths.find? (fits (natSize v.r) (natSize v.s)) = some w
      ↔ IsLeast {w | Offers lengths v w} w := by
  rw [find?_eq_some_iff_isLeast (pairwise_widths hroom)]
  simp only [mem_widths hroom, fits_iff, Offers]

theorem find?_widths_eq_none_iff (hroom : ∀ n ∈ lengths, IsRoomy n) :
    (ofKeyLengths lengths).widths.find? (fits (natSize v.r) (natSize v.s)) = none
      ↔ ¬ ∃ w, Offers lengths v w := by
  rw [List.find?_eq_none]
  simp only [mem_widths hroom, fits_iff, Offers, not_exists, not_and]

/-- Only the sizes of the two numbers count. -/
theorem blockSize_congr {c : Codec} {v v' : Value} (hr : natSize v'.r = natSize v.r)
    (hs : natSize v'.s = natSize v.s) : c.blockSize v' = c.blockSize v := by
  rw [blockSize_eq, blockSize_eq, hr, hs]

/-- The widths of the usual curves. -/
def standardWidths : List Nat := [20, 28, 32, 48, 66]

theorem mem_standardWidths (h : n ∈ standard.keyLengths) : n.toNat ⌈/⌉ 8 ∈ standardWidths := by
  have hwidths : standard.keyLengths.map (fun n => n.toNat ⌈/⌉ 8) = standardWidths := by decide
  exact hwidths ▸ List.mem_map_of_mem h

/-- At most one standard width fits a pair. -/
theorem Offers.eq_of_standard {w' : Nat} (h : Offers standard.keyLengths v w)
    (h' : Offers standard.keyLengths v w') : w = w' := by
  have happart : ∀ w ∈ standardWidths, ∀ w' ∈ standardWidths,
      w' < w + 2 → w < w' + 2 → w = w' := by decide
  obtain ⟨⟨m, hm, rfl⟩, hfits⟩ := h
  obtain ⟨⟨n, hn, rfl⟩, hfits'⟩ := h'
  exact happart _ (mem_standardWidths hm) _ (mem_standardWidths hn) (hfits.lt_add_two hfits')
    (hfits'.lt_add_two hfits)

/-- The width that is picked is the least width of a key length that fits, and if there is
none, the pair is refused.  The answer depends on which key lengths there are and on the
sizes of the two numbers.  Of the standard widths at most one fits. -/
theorem blockSize_exact (lengths : List UInt64) (hroom : ∀ n ∈ lengths, n.toNat + 7 < 2 ^ 64)
    (v : Value) :
    (∀ w, (ofKeyLengths lengths).blockSize v = .ok w ↔ IsLeast {w | Offers lengths v w} w) ∧
    ((ofKeyLengths lengths).blockSize v = .error (.unsupportedKeyLength (natSize v.r)
        (natSize v.s) (ofKeyLengths lengths).keyLengths) ↔ ¬ ∃ w, Offers lengths v w) ∧
    (∀ lengths' v', (∀ n, n ∈ lengths' ↔ n ∈ lengths) → natSize v'.r = natSize v.r →
      natSize v'.s = natSize v.s →
        (ofKeyLengths lengths').blockSize v' = (ofKeyLengths lengths).blockSize v) ∧
    ofKeyLengths standard.keyLengths = standard ∧
    {w | Offers standard.keyLengths v w}.Subsingleton := by
  refine ⟨fun w => ?_, ?_, fun lengths' v' hlengths hr hs => ?_, ofKeyLengths_standard,
    fun w hw w' hw' => ?_⟩
  · rw [blockSize_eq_ok_iff, find?_widths_eq_some_iff hroom]
  · rw [blockSize_eq_error_iff, find?_widths_eq_none_iff hroom]
  · rw [ofKeyLengths_congr hlengths, blockSize_congr hr hs]
  · exact hw.eq_of_standard hw'

/-- Key lengths out of order, with one of them twice. -/
def scattered : List UInt64 := [24, 16, 9, 16, 8]

/-- For example, widths of two and of three octets fit a pair of numbers of two octets and
of one, and the smaller one is picked. -/
theorem blockSize_exact_scattered :
    (∀ n ∈ scattered, n.toNat + 7 < 2 ^ 64) ∧ Offers scattered ⟨256, 1⟩ 3 ∧
      (ofKeyLengths scattered).blockSize ⟨256, 1⟩ = .ok 2 := by
  have hroom : ∀ n ∈ scattered, n.toNat + 7 < 2 ^ 64 := by simp [scattered]
  have hr : natSize (Value.mk 256 1).r = 2 := by decide +kernel
  have hs : natSize (Value.mk 256 1).s = 1 := by decide +kernel
  have htwo : Offers scattered ⟨256, 1⟩ 2 :=
    ⟨⟨16, by decide, by decide⟩, by omega, by omega, by omega⟩
  have hthree : Offers scattered ⟨256, 1⟩ 3 :=
    ⟨⟨24, by decide, by decide⟩, by omega, by omega, by omega⟩
  obtain ⟨hok, -⟩ := blockSize_exact scattered hroom ⟨256, 1⟩
  exact ⟨hroom, hthree, (hok 2).mpr ⟨htwo, fun w hw => hr ▸ hw.2.r⟩⟩

end Codec

end Presign.Ecdsa
