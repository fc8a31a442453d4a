import Mathlib.Data.ZMod.Basic
import Mathlib.NumberTheory.LucasPrimality
import Mathlib.Tactic.LinearCombination
import Mathlib.Tactic.Ring
import Presign.Modular

/-!
# Powers, inverses and numbers from remainders

Euclid's algorithm inverts what it is given.  Its first number stays the given one
times the first coefficient, and its second number the given one times the second
coefficient, both modulo the modulus.  A step keeps this, since it takes the same
multiple off numbers and coefficients.  So when the first number is one, its
coefficient is the inverse.

The equations are between residues, where the differences that the algorithm
brings above zero by adding the modulus are plain differences.
-/

namespace Presign.Modular

variable {m a : Nat}

/-! ## Powers -/

theorem pow_modEq (b e m : Nat) : pow b e m ≡ b ^ e [MOD m] := by
  rw [pow_eq]
  exact Nat.mod_modEq _ _

/-- A residue to a power is one if the power that is computed is. -/
theorem natCast_pow_eq_one_iff (b e : Nat) : (b : ZMod m) ^ e = 1 ↔ pow b e m = 1 % m := by
  rw [← Nat.cast_pow, ← Nat.cast_one, ZMod.natCast_eq_natCast_iff, Nat.ModEq, pow_eq]
  rfl

/-- Lucas's test, with powers that are computed. -/
theorem prime_of_pow {p : Nat} (b : Nat) (hone : pow b (p - 1) p = 1 % p)
    (hne : ∀ q, q.Prime → q ∣ p - 1 → pow b ((p - 1) / q) p ≠ 1 % p) : p.Prime := by
  refine lucas_primality p b ((natCast_pow_eq_one_iff b _).mpr hone) ?_
  intro q hq hdvd h
  exact hne q hq hdvd ((natCast_pow_eq_one_iff b _).mp h)

/-! ## Inverses -/

/-- The coefficient of the next number stands for a difference of coefficients. -/
theorem natCast_difference [NeZero m] (s q t : Nat) :
    (((s + (m - q * t % m)) % m : Nat) : ZMod m) = s - q * t := by
  have hle : q * t % m ≤ m := Nat.le_of_lt (Nat.mod_lt _ (NeZero.pos m))
  rw [ZMod.natCast_mod, Nat.cast_add, Nat.cast_sub hle, ZMod.natCast_self, ZMod.natCast_mod,
    Nat.cast_mul]
  ring

/-- A step of Euclid's algorithm keeps the next number a multiple. -/
theorem natCast_step [NeZero m] {r s next t : Nat} (hr : (r : ZMod m) = s * a)
    (hnext : (next : ZMod m) = t * a) :
    ((r % next : Nat) : ZMod m) = ((s + (m - r / next * t % m)) % m : Nat) * a := by
  have hdivision : (r : ZMod m) = next * (r / next : Nat) + (r % next : Nat) := by
    rw [← Nat.cast_mul, ← Nat.cast_add, Nat.div_add_mod]
  rw [natCast_difference]
  linear_combination hr - hdivision - ((r / next : Nat) : ZMod m) * hnext

/-- Euclid's algorithm ends in the coefficient of one. -/
theorem euclid_mul [NeZero m] {r s next t i : Nat} (hr : (r : ZMod m) = s * a)
    (hnext : (next : ZMod m) = t * a) (h : euclid m r s next t = some i) :
    (i : ZMod m) * a = 1 := by
  induction r, s, next, t using euclid.induct (m := m) with
  | case1 s t =>
      rw [euclid, if_pos rfl, if_pos rfl] at h
      cases h
      rw [← hr, Nat.cast_one]
  | case2 r s t hone =>
      rw [euclid, if_pos rfl, if_neg hone] at h
      cases h
  | case3 r s next t hzero ih =>
      rw [euclid, if_neg hzero] at h
      exact ih hnext (natCast_step hr hnext) h

/-- What is taken for the inverse is one. -/
theorem inverse?_mul [NeZero m] {i : Nat} (h : inverse? a m = some i) : (i : ZMod m) * a = 1 := by
  have hr : (m : ZMod m) = (0 : Nat) * a := by simp
  have hnext : ((a % m : Nat) : ZMod m) = (1 : Nat) * a := by simp
  exact euclid_mul hr hnext h

/-! ## Numbers from remainders -/

/-- A number from two remainders leaves them. -/
theorem join?_modEq [NeZero m] {b n x : Nat} (h : join? a m b n = some x) :
    x ≡ a [MOD m] ∧ x ≡ b [MOD n] := by
  obtain ⟨i, hi, rfl⟩ := Option.map_eq_some_iff.mp h
  have hinverse := inverse?_mul hi
  have hle : b % m ≤ m := Nat.le_of_lt (Nat.mod_lt _ (NeZero.pos m))
  constructor
  · rw [← ZMod.natCast_eq_natCast_iff]
    simp only [Nat.cast_add, Nat.cast_mul, ZMod.natCast_mod, Nat.cast_sub hle, ZMod.natCast_self]
    linear_combination ((a : ZMod m) - b) * hinverse
  · rw [Nat.ModEq, Nat.add_mul_mod_self_left]

end Presign.Modular
