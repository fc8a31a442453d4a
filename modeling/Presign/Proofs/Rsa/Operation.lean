import Mathlib.FieldTheory.Finite.Basic
import Presign.Proofs.Modular
import Presign.Rsa.Operation

/-!
# The private operation undoes the public one

Modulo a prime, powers depend on the remainder of the exponent by the prime less
one, as long as the exponent is not zero.  So the power to the reduced exponent is
the power to the private one, and raising to both exponents changes nothing.

A number modulo the modulus is known from its remainders by the two factors.  This
carries both facts from the factors to the modulus.  The factor of a blinding goes
in with the public exponent, so it comes out of the private power as itself, and
its inverse takes it away.  What is left is the power by the private exponent, and
the public operation brings back the number.
-/

namespace Presign.Rsa

/-! ## Powers modulo a prime -/

/-- Powers to exponents with the same remainder are the same.  The number may be a
multiple of the prime, so the exponents must not be zero. -/
theorem pow_modEq_pow {p a b : Nat} (hp : p.Prime) (x : Nat) (ha : a ≠ 0) (hb : b ≠ 0)
    (h : a % (p - 1) = b % (p - 1)) : x ^ a ≡ x ^ b [MOD p] := by
  have : Fact p.Prime := ⟨hp⟩
  rw [← ZMod.natCast_eq_natCast_iff, Nat.cast_pow, Nat.cast_pow]
  by_cases hx : (x : ZMod p) = 0
  · rw [hx, zero_pow ha, zero_pow hb]
  · have hone : (x : ZMod p) ^ (p - 1) = 1 := ZMod.pow_card_sub_one_eq_one hx
    rw [pow_eq_pow_mod a hone, pow_eq_pow_mod b hone, h]

/-- A power to an exponent that leaves one changes nothing. -/
theorem pow_modEq_self {p a : Nat} (hp : p.Prime) (x : Nat) (hone : a % (p - 1) = 1) :
    x ^ a ≡ x [MOD p] := by
  have hsmall : a % (p - 1) = 1 % (p - 1) := by rw [← Nat.mod_mod, hone]
  have hne : a ≠ 0 := by
    intro h
    rw [h, Nat.zero_mod] at hone
    exact Nat.zero_ne_one hone
  have h := pow_modEq_pow hp x hne Nat.one_ne_zero hsmall
  rwa [pow_one] at h

/-- A public key that belongs to a private one: it has the same modulus, and its
exponent undoes the private one modulo each factor less one. -/
structure PublicKey.BelongsTo (key : PublicKey) (k : PrivateKey) : Prop where
  modulus_eq : key.modulus = k.modulus
  first : k.secret * key.exponent % (k.firstFactor - 1) = 1
  second : k.secret * key.exponent % (k.secondFactor - 1) = 1

namespace PrivateKey

variable {k : PrivateKey} {p : Nat}

/-- A prime modulo which the exponents of a key undo each other. -/
structure IsFactor (k : PrivateKey) (p : Nat) : Prop where
  prime : p.Prime
  inverts : k.secret * k.exponent % (p - 1) = 1

namespace IsFactor

/-- The reduced exponent is not zero, since no multiple of zero is one. -/
theorem secret_mod_ne_zero (hp : k.IsFactor p) : k.secret % (p - 1) ≠ 0 := by
  intro h
  have hone := hp.inverts
  rw [Nat.mul_mod, h, Nat.zero_mul, Nat.zero_mod] at hone
  exact Nat.zero_ne_one hone

theorem secret_ne_zero (hp : k.IsFactor p) : k.secret ≠ 0 := by
  intro h
  apply hp.secret_mod_ne_zero
  rw [h, Nat.zero_mod]

/-- The power to the reduced exponent is that to the private one. -/
theorem powerModulo_modEq (hp : k.IsFactor p) (m : Nat) :
    k.powerModulo p m ≡ m ^ k.secret [MOD p] :=
  calc
    k.powerModulo p m ≡ m ^ (k.secret % (p - 1)) [MOD p] := Modular.pow_modEq m _ p
    _ ≡ m ^ k.secret [MOD p] :=
      pow_modEq_pow hp.prime m hp.secret_mod_ne_zero hp.secret_ne_zero (Nat.mod_mod _ _)

end IsFactor

/-! ## Powers modulo the modulus -/

/-- The factors of a key are distinct primes. -/
structure IsGenuine (k : PrivateKey) : Prop where
  firstPrime : k.firstFactor.Prime
  secondPrime : k.secondFactor.Prime
  distinct : k.firstFactor ≠ k.secondFactor

theorem modulus_eq (k : PrivateKey) : k.modulus = k.firstFactor * k.secondFactor := by
  have h := k.valid
  simp only [isPrivate, Bool.and_eq_true, beq_iff_eq] at h
  exact h.1.1.2.symm

/-- The public half of a key belongs to it. -/
theorem belongsTo_toPublic (k : PrivateKey) : k.toPublic.BelongsTo k := by
  have h := k.valid
  simp only [isPrivate, Bool.and_eq_true, beq_iff_eq] at h
  exact ⟨rfl, h.1.2, h.2⟩

namespace IsGenuine

theorem first (hk : k.IsGenuine) : k.IsFactor k.firstFactor :=
  ⟨hk.firstPrime, k.belongsTo_toPublic.first⟩

theorem second (hk : k.IsGenuine) : k.IsFactor k.secondFactor :=
  ⟨hk.secondPrime, k.belongsTo_toPublic.second⟩

/-- The remainders by the factors determine that by the modulus. -/
theorem modEq_of_factors (hk : k.IsGenuine) {x y : Nat} (hfirst : x ≡ y [MOD k.firstFactor])
    (hsecond : x ≡ y [MOD k.secondFactor]) : x ≡ y [MOD k.modulus] := by
  have hcoprime := (Nat.coprime_primes hk.firstPrime hk.secondPrime).mpr hk.distinct
  rw [modulus_eq]
  exact (Nat.modEq_and_modEq_iff_modEq_mul hcoprime).mp ⟨hfirst, hsecond⟩

/-- Both exponents together change nothing. -/
theorem pow_mul_modEq (hk : k.IsGenuine) {key : PublicKey} (hkey : key.BelongsTo k) (m : Nat) :
    m ^ (k.secret * key.exponent) ≡ m [MOD k.modulus] :=
  hk.modEq_of_factors (pow_modEq_self hk.firstPrime m hkey.first)
    (pow_modEq_self hk.secondPrime m hkey.second)

/-- The power is the same whether it is taken modulo each factor or modulo the
modulus. -/
theorem plainPower_modEq (hk : k.IsGenuine) (m : Nat) :
    k.plainPower m ≡ m ^ k.secret [MOD k.modulus] := by
  have : NeZero k.firstFactor := ⟨hk.firstPrime.ne_zero⟩
  unfold plainPower
  cases hjoin : Modular.join? (k.powerModulo k.firstFactor m) k.firstFactor
      (k.powerModulo k.secondFactor m) k.secondFactor with
  | none =>
      exact Modular.pow_modEq _ _ _
  | some x =>
      obtain ⟨hfirst, hsecond⟩ := Modular.join?_modEq hjoin
      exact hk.modEq_of_factors (hfirst.trans (hk.first.powerModulo_modEq m))
        (hsecond.trans (hk.second.powerModulo_modEq m))

/-! ## Blinding -/

/-- No blinding changes the power. -/
theorem blindPower_eq (hk : k.IsGenuine) (b : Blinding k.modulus) (m : Nat) :
    k.blindPower b m = m ^ k.secret % k.modulus := by
  have hblind : m * k.toPublic.power b.factor % k.modulus
      ≡ m * b.factor ^ k.exponent [MOD k.modulus] := by
    exact (Nat.mod_modEq _ _).trans ((Modular.pow_modEq _ _ _).mul_left m)
  have hpower : (m * b.factor ^ k.exponent) ^ k.secret
      ≡ m ^ k.secret * b.factor [MOD k.modulus] := by
    rw [Nat.mul_pow, ← pow_mul, Nat.mul_comm k.exponent]
    exact (hk.pow_mul_modEq k.belongsTo_toPublic b.factor).mul_left _
  rw [blindPower, ← Nat.ModEq]
  calc
    k.plainPower (m * k.toPublic.power b.factor % k.modulus) * b.inverse
        ≡ (m * k.toPublic.power b.factor % k.modulus) ^ k.secret * b.inverse [MOD k.modulus] :=
      (hk.plainPower_modEq _).mul_right _
    _ ≡ (m * b.factor ^ k.exponent) ^ k.secret * b.inverse [MOD k.modulus] :=
      (hblind.pow _).mul_right _
    _ ≡ m ^ k.secret * b.factor * b.inverse [MOD k.modulus] := hpower.mul_right _
    _ = m ^ k.secret * (b.factor * b.inverse) := Nat.mul_assoc _ _ _
    _ ≡ m ^ k.secret * 1 [MOD k.modulus] := Nat.ModEq.mul_left _ b.inverts
    _ = m ^ k.secret := Nat.mul_one _

/-! ## The operation -/

/-- The public operation takes back the private one. -/
theorem power_pow (hk : k.IsGenuine) {key : PublicKey} (hkey : key.BelongsTo k) {m : Nat}
    (h : m < k.modulus) : key.power (m ^ k.secret % k.modulus) = m := by
  rw [PublicKey.power, hkey.modulus_eq]
  have hmod : Modular.pow (m ^ k.secret % k.modulus) key.exponent k.modulus
      ≡ m [MOD k.modulus] :=
    calc
      Modular.pow (m ^ k.secret % k.modulus) key.exponent k.modulus
          ≡ (m ^ k.secret % k.modulus) ^ key.exponent [MOD k.modulus] := Modular.pow_modEq _ _ _
      _ ≡ (m ^ k.secret) ^ key.exponent [MOD k.modulus] := (Nat.mod_modEq _ _).pow _
      _ = m ^ (k.secret * key.exponent) := (pow_mul _ _ _).symm
      _ ≡ m [MOD k.modulus] := hk.pow_mul_modEq hkey m
  refine hmod.eq_of_lt_of_lt ?_ h
  rw [Modular.pow_eq]
  exact Nat.mod_lt _ (Nat.zero_lt_of_lt h)

/-- The private operation succeeds, and gives the power by the private exponent. -/
theorem power?_eq (hk : k.IsGenuine) {m : Nat} (h : m < k.modulus) :
    k.power? m = some (m ^ k.secret % k.modulus) := by
  rw [power?, hk.blindPower_eq]
  exact if_pos (hk.power_pow k.belongsTo_toPublic h)

end IsGenuine

end PrivateKey

end Presign.Rsa
