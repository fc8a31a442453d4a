import Mathlib.Algebra.Group.Nat.Defs
import Mathlib.Data.List.Induction
import Mathlib.Data.List.TakeWhile
import Mathlib.Logic.Basic
import Presign.Octets

/-!
# Numbers and order of octet sequences

A number is read back from its octets, and octets are those of their number
unless zero octets lead them.

`Octets.le` is the dictionary order of lists.  So sorting by it puts octet
sequences in ascending order.
-/

namespace Presign.Octets

/-! ## Numbers -/

theorem toNat_concat (bs : Octets) (b : UInt8) : (bs ++ [b]).toNat = bs.toNat * 256 + b.toNat := by
  simp [toNat]

theorem toNat_lt (bs : Octets) : bs.toNat < 256 ^ bs.length := by
  induction bs using List.reverseRecOn with
  | nil => simp [toNat]
  | append_singleton bs b ih =>
      have hb := b.toNat_lt
      rw [toNat_concat, List.length_append, List.length_singleton, Nat.pow_succ]
      omega

theorem toNat_ofNat (n : Nat) : (ofNat n).toNat = n := by
  induction n using ofNat.induct with
  | case1 => simp [ofNat, toNat]
  | case2 n h ih =>
      rw [ofNat, if_neg h, toNat_concat, ih, UInt8.toNat_ofNat', Nat.mod_mod]
      omega

theorem toNat_zero_cons (bs : Octets) : toNat (0 :: bs) = bs.toNat := by
  simp [toNat]

theorem toNat_zeros_append (zeros : Nat) (bs : Octets) :
    toNat (List.replicate zeros 0 ++ bs) = bs.toNat := by
  induction zeros with
  | zero => rfl
  | succ zeros ih => rw [List.replicate_succ, List.cons_append, toNat_zero_cons, ih]

/-- Leading zeros do not count. -/
theorem toNat_significant (bs : Octets) : bs.significant.toNat = bs.toNat := by
  induction bs with
  | nil => rfl
  | cons b bs ih =>
      by_cases hb : b = 0
      · subst hb
        rw [toNat_zero_cons, ← ih]
        rfl
      · simp [significant, hb]

theorem natSize_zero : natSize 0 = 0 := by
  rw [natSize, ofNat, if_pos rfl, List.length_nil]

theorem natSize_of_ne {n : Nat} (h : n ≠ 0) : natSize n = natSize (n / 256) + 1 := by
  rw [natSize, ofNat, if_neg h, List.length_append, List.length_singleton, natSize]

theorem natSize_le {n k : Nat} (h : n < 256 ^ k) : natSize n ≤ k := by
  induction k generalizing n with
  | zero =>
      have hn : n = 0 := by simpa using h
      subst hn
      exact Nat.le_of_eq natSize_zero
  | succ k ih =>
      by_cases hn : n = 0
      · rw [hn, natSize_zero]
        exact Nat.zero_le _
      · rw [natSize_of_ne hn]
        rw [Nat.pow_succ, Nat.mul_comm] at h
        have hdiv : n / 256 < 256 ^ k := Nat.div_lt_of_lt_mul h
        exact Nat.succ_le_succ (ih hdiv)

theorem lt_pow_natSize (n : Nat) : n < 256 ^ natSize n := by
  have h := toNat_lt (ofNat n)
  rwa [toNat_ofNat] at h

/-- A number fits in octets if and only if they are as many as it needs. -/
theorem natSize_le_iff {n k : Nat} : natSize n ≤ k ↔ n < 256 ^ k := by
  constructor
  · intro h
    exact Nat.lt_of_lt_of_le (lt_pow_natSize n) (Nat.pow_le_pow_right (by decide) h)
  · exact natSize_le

theorem natSize_mono {m n : Nat} (h : m ≤ n) : natSize m ≤ natSize n :=
  natSize_le (Nat.lt_of_le_of_lt h (lt_pow_natSize n))

/-- A number that fits is read back. -/
theorem toNat_ofNatWidth {width n : Nat} (h : n < 256 ^ width) :
    (ofNatWidth width n).toNat = n := by
  induction width generalizing n with
  | zero =>
      have hn : n = 0 := by simpa using h
      rw [hn]
      rfl
  | succ width ih =>
      rw [Nat.pow_succ, Nat.mul_comm] at h
      have hdiv : n / 256 < 256 ^ width := Nat.div_lt_of_lt_mul h
      rw [ofNatWidth, toNat_concat, ih hdiv, UInt8.toNat_ofNat']
      omega

/-- Octets are those of their number in their own width. -/
theorem ofNatWidth_toNat (bs : Octets) : ofNatWidth bs.length bs.toNat = bs := by
  induction bs using List.reverseRecOn with
  | nil => rfl
  | append_singleton bs b ih =>
      have hb := b.toNat_lt
      have hdiv : toNat (bs ++ [b]) / 256 = toNat bs := by rw [toNat_concat]; omega
      have hmod : toNat (bs ++ [b]) % 256 = b.toNat := by rw [toNat_concat]; omega
      rw [List.length_append, List.length_singleton, ofNatWidth, hdiv, hmod, ih, UInt8.ofNat_toNat]

/-- Octets that are as many as their number needs are those of their number. -/
theorem ofNat_toNat {bs : Octets} (h : natSize bs.toNat = bs.length) : ofNat bs.toNat = bs := by
  induction bs using List.reverseRecOn with
  | nil => rw [toNat, List.foldl_nil, ofNat, if_pos rfl]
  | append_singleton bs b ih =>
      have hb := b.toNat_lt
      have hdiv : toNat (bs ++ [b]) / 256 = toNat bs := by rw [toNat_concat]; omega
      have hmod : toNat (bs ++ [b]) % 256 = b.toNat := by rw [toNat_concat]; omega
      rw [List.length_append, List.length_singleton] at h
      by_cases hn : toNat (bs ++ [b]) = 0
      · rw [hn, natSize_zero] at h
        omega
      · rw [natSize_of_ne hn, hdiv] at h
        rw [ofNat, if_neg hn, hdiv, hmod, UInt8.ofNat_toNat, ih (by omega)]

theorem length_padLeft {width : Nat} {bs : Octets} (h : bs.length ≤ width) :
    (padLeft width bs).length = width := by
  rw [padLeft, List.length_append, List.length_replicate, Nat.sub_add_cancel h]

theorem padLeft_of_le_length {width : Nat} {bs : Octets} (h : width ≤ bs.length) :
    padLeft width bs = bs := by
  rw [padLeft, Nat.sub_eq_zero_of_le h, List.replicate_zero, List.nil_append]

/-- Zeros that are there already are not put in front again. -/
theorem padLeft_zeros_append {zeros width : Nat} {bs : Octets} (h : zeros + bs.length ≤ width) :
    padLeft width (List.replicate zeros 0 ++ bs) = padLeft width bs := by
  have hzeros : width - bs.length = width - (zeros + bs.length) + zeros := by omega
  rw [padLeft, padLeft, List.length_append, List.length_replicate, hzeros,
    ← List.replicate_append_replicate, List.append_assoc]

/-- A number that fits is written as its octets behind zeros. -/
theorem ofNatWidth_eq_padLeft {width n : Nat} (h : n < 256 ^ width) :
    ofNatWidth width n = padLeft width (ofNat n) := by
  have hle : (ofNat n).length ≤ width := natSize_le h
  have hlength : (padLeft width (ofNat n)).length = width := length_padLeft hle
  have hnumber : (padLeft width (ofNat n)).toNat = n := by
    rw [padLeft, toNat_zeros_append, toNat_ofNat]
  have hwidth := ofNatWidth_toNat (padLeft width (ofNat n))
  rwa [hlength, hnumber] at hwidth

/-! ## Leading zeros -/

/-- The octets at the front that equal one octet are a run of it. -/
theorem takeWhile_eq_replicate (b : UInt8) (bs : Octets) :
    bs.takeWhile (· == b) = List.replicate (bs.takeWhile (· == b)).length b := by
  rw [List.eq_replicate_iff]
  refine ⟨rfl, fun c hc => ?_⟩
  simpa using List.mem_takeWhile_imp hc

theorem exists_eq_zeros_append (bs : Octets) :
    ∃ zeros, bs = List.replicate zeros 0 ++ bs.significant :=
  ⟨(bs.takeWhile (· == 0)).length, by
    rw [significant, ← takeWhile_eq_replicate, List.takeWhile_append_dropWhile]⟩

/-- A leading octet that is not zero makes the number as large as its place. -/
theorem pow_le_toNat {b : UInt8} (hb : b ≠ 0) (bs : Octets) :
    256 ^ bs.length ≤ toNat (b :: bs) := by
  induction bs using List.reverseRecOn with
  | nil =>
      have hpos : b.toNat ≠ 0 := fun h => hb (UInt8.toNat.inj h)
      simp only [toNat, List.foldl_cons, List.foldl_nil, List.length_nil, pow_zero]
      omega
  | append_singleton bs c ih =>
      rw [← List.cons_append, toNat_concat, List.length_append, List.length_singleton, Nat.pow_succ]
      omega

/-- Without its leading zeros, a sequence is that of its number. -/
theorem significant_eq_ofNat (bs : Octets) : bs.significant = ofNat bs.toNat := by
  induction bs with
  | nil =>
      rw [toNat, List.foldl_nil, ofNat, if_pos rfl]
      rfl
  | cons b bs ih =>
      by_cases hb : b = 0
      · subst hb
        rw [toNat_zero_cons, ← ih]
        rfl
      · have hlong : ¬ natSize (toNat (b :: bs)) ≤ bs.length := by
          rw [natSize_le_iff, Nat.not_lt]
          exact pow_le_toNat hb bs
        have hshort : natSize (toNat (b :: bs)) ≤ bs.length + 1 := natSize_le (toNat_lt _)
        have hsize : natSize (toNat (b :: bs)) = (b :: bs).length := by
          rw [List.length_cons]
          omega
        rw [ofNat_toNat hsize, significant, List.dropWhile_cons_of_neg (by simpa using hb)]

/-! ## Order -/

theorem le_iff (as bs : Octets) : le as bs = true ↔ as ≤ bs := by
  induction as generalizing bs with
  | nil => simp [le]
  | cons a as ih =>
      cases bs with
      | nil => simp [le]
      | cons b bs =>
          rw [le, List.cons_le_cons_iff]
          by_cases h : a = b
          · subst h
            rw [if_pos rfl, ih bs]
            constructor
            · intro hle; exact Or.inr ⟨rfl, hle⟩
            · rintro (hlt | ⟨_, hle⟩)
              · exact absurd hlt (UInt8.lt_irrefl a)
              · exact hle
          · rw [if_neg h, decide_eq_true_iff]
            constructor
            · intro hlt; exact Or.inl hlt
            · rintro (hlt | ⟨he, _⟩)
              · exact hlt
              · exact absurd he h

/-- Sorting gives an ascending sequence. -/
theorem pairwise_mergeSort (bss : List Octets) : (bss.mergeSort le).Pairwise (· ≤ ·) := by
  have hs : (bss.mergeSort le).Pairwise (fun as bs => le as bs = true) := by
    apply List.pairwise_mergeSort
    · intro as bs cs h₁ h₂
      rw [le_iff] at h₁ h₂ ⊢
      exact List.le_trans h₁ h₂
    · intro as bs
      rw [Bool.or_eq_true, le_iff, le_iff]
      exact List.le_total as bs
  exact hs.imp fun h => (le_iff _ _).mp h

end Presign.Octets
