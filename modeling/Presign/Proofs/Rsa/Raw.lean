import Mathlib.Tactic.NormNum.Prime
import Presign.Proofs.Except
import Presign.Proofs.Octets
import Presign.Proofs.Rsa.Operation
import Presign.Signing

/-!
# The raw operations of RSA

The raw operations work on octets, which they read as numbers.  Signing takes any
octets whose number is below the modulus, however many zeros lead them, and gives
octets of the size of the modulus.  Opening takes octets of that size only.

If the factors of a key are distinct primes, signing succeeds.  A public key that
belongs to the private one then opens the signature to the number that was signed,
written in the size of the modulus.
-/

namespace Presign

/-! ## Opening -/

/-- Octets are opened if and only if they have the size of the modulus and their
number is below it. -/
theorem PublicKey.rsaRawVerify_eq_ok_iff {key : Rsa.PublicKey} {bs block : Octets} :
    (rsa key).rsaRawVerify bs = .ok block
      ↔ bs.length = key.size ∧ bs.toNat < key.modulus ∧
        block = Octets.ofNatWidth key.size (key.power bs.toNat) := by
  rw [rsaRawVerify, asRsa, Except.ok_bind]
  by_cases hlength : bs.length = key.size
  · rw [if_neg (by simpa using hlength)]
    by_cases hlt : bs.toNat < key.modulus
    · rw [if_neg (Nat.not_le.mpr hlt), Except.ok.injEq]
      exact ⟨fun h => ⟨hlength, hlt, h.symm⟩, fun h => h.2.2.symm⟩
    · rw [if_pos (Nat.not_lt.mp hlt)]
      exact ⟨fun h => (by cases h), fun h => absurd h.2.1 hlt⟩
  · rw [if_pos hlength]
    exact ⟨fun h => (by cases h), fun h => absurd h.1 hlength⟩

/-! ## Signing -/

/-- A number below the modulus fits in the size of the modulus. -/
theorem Rsa.PrivateKey.lt_pow_size {k : PrivateKey} {n : Nat} (h : n < k.modulus) :
    n < 256 ^ k.size := Nat.lt_trans h (Octets.lt_pow_natSize _)

namespace PrivateKey

variable {k : Rsa.PrivateKey} {data : Octets}

theorem rsaRawSign_of_modulus_le (h : k.modulus ≤ data.toNat) :
    (rsa k).rsaRawSign data = .error (.input .rsaRawSign .outOfRange) := by
  rw [rsaRawSign, asRsa, Except.ok_bind, if_pos h]

/-- The raw signature on octets below the modulus is the power by the private
exponent. -/
theorem rsaRawSign_eq (hk : k.IsGenuine) (h : data.toNat < k.modulus) :
    (rsa k).rsaRawSign data
      = .ok (Octets.ofNatWidth k.size (data.toNat ^ k.secret % k.modulus)) := by
  rw [rsaRawSign, asRsa, Except.ok_bind, if_neg (Nat.not_le.mpr h), hk.power?_eq h]

/-- A public key that belongs to the private one opens the raw signature. -/
theorem rsaRawVerify_power (hk : k.IsGenuine) {key : Rsa.PublicKey} (hkey : key.BelongsTo k)
    (h : data.toNat < k.modulus) :
    (PublicKey.rsa key).rsaRawVerify
        (Octets.ofNatWidth k.size (data.toNat ^ k.secret % k.modulus))
      = .ok (Octets.ofNatWidth k.size data.toNat) := by
  have hpower : data.toNat ^ k.secret % k.modulus < k.modulus :=
    Nat.mod_lt _ (Nat.zero_lt_of_lt h)
  have hread : (Octets.ofNatWidth k.size (data.toNat ^ k.secret % k.modulus)).toNat
      = data.toNat ^ k.secret % k.modulus :=
    Octets.toNat_ofNatWidth (Rsa.PrivateKey.lt_pow_size hpower)
  have hsize : key.size = k.size := congrArg Octets.natSize hkey.modulus_eq
  refine PublicKey.rsaRawVerify_eq_ok_iff.mpr ⟨?_, ?_, ?_⟩
  · rw [Octets.length_ofNatWidth, hsize]
  · rw [hread, hkey.modulus_eq]
    exact hpower
  · rw [hread, hsize, hk.power_pow hkey h]

end PrivateKey

/-- The raw operations are exact.  Octets below the modulus, however many they are,
are signed in the size of the modulus, with the same result under every blinding.  A
public key that belongs to the private one opens the signature to the signed octets
with as many zeros in front as the size takes.  Octets that are not below the modulus
are refused.  Under any public key, octets are opened if and only if they have the
size of the modulus and are below it. -/
theorem rsaRaw_exact :
    (∀ (k : Rsa.PrivateKey) (key : Rsa.PublicKey), k.IsGenuine → key.BelongsTo k →
      ∀ data : Octets,
        (data.toNat < key.modulus → ∃ signature,
          (PrivateKey.rsa k).rsaRawSign data = .ok signature ∧
          (∀ b, k.blindPower b data.toNat = signature.toNat) ∧
          signature.length = key.size ∧
          (PublicKey.rsa key).rsaRawVerify signature
            = .ok (Octets.padLeft key.size data.significant)) ∧
        (key.modulus ≤ data.toNat →
          (PrivateKey.rsa k).rsaRawSign data = .error (.input .rsaRawSign .outOfRange))) ∧
    ∀ (key : Rsa.PublicKey) (bs : Octets),
      (∃ block, (PublicKey.rsa key).rsaRawVerify bs = .ok block)
        ↔ bs.length = key.size ∧ bs.toNat < key.modulus := by
  refine ⟨fun k key hk hkey data => ?_, fun key bs => ?_⟩
  · have hsize : key.size = k.size := congrArg Octets.natSize hkey.modulus_eq
    rw [hkey.modulus_eq, hsize]
    refine ⟨fun h => ?_, PrivateKey.rsaRawSign_of_modulus_le⟩
    have hpower : data.toNat ^ k.secret % k.modulus < k.modulus :=
      Nat.mod_lt _ (Nat.zero_lt_of_lt h)
    refine ⟨_, PrivateKey.rsaRawSign_eq hk h, fun b => ?_, Octets.length_ofNatWidth _ _, ?_⟩
    · rw [hk.blindPower_eq, Octets.toNat_ofNatWidth (Rsa.PrivateKey.lt_pow_size hpower)]
    · rw [PrivateKey.rsaRawVerify_power hk hkey h, Octets.significant_eq_ofNat,
        Octets.ofNatWidth_eq_padLeft (Rsa.PrivateKey.lt_pow_size h)]
  · constructor
    · rintro ⟨block, h⟩
      obtain ⟨hlength, hlt, -⟩ := PublicKey.rsaRawVerify_eq_ok_iff.mp h
      exact ⟨hlength, hlt⟩
    · rintro ⟨hlength, hlt⟩
      exact ⟨_, PublicKey.rsaRawVerify_eq_ok_iff.mpr ⟨hlength, hlt, rfl⟩⟩

namespace Rsa.PrivateKey

/-- A prime whose predecessor only two and five divide. -/
theorem prime_five_mul_two_pow : Nat.Prime (5 * 2 ^ 75 + 1) := by
  have hone : Modular.pow 3 (5 * 2 ^ 75) (5 * 2 ^ 75 + 1) = 1 % (5 * 2 ^ 75 + 1) := by
    decide +kernel
  refine Modular.prime_of_pow 3 hone fun q hq hdvd => ?_
  rw [Nat.add_sub_cancel] at hdvd ⊢
  rcases (Nat.Prime.dvd_mul hq).mp hdvd with hfive | htwo
  · rw [(Nat.prime_dvd_prime_iff_eq hq Nat.prime_five).mp hfive]
    decide +kernel
  · rw [(Nat.prime_dvd_prime_iff_eq hq Nat.prime_two).mp (hq.dvd_of_dvd_pow htwo)]
    decide +kernel

/-- A key of twelve octets. -/
def small : PrivateKey where
  modulus := 65537 * (5 * 2 ^ 75 + 1)
  exponent := 3
  secret := (5 * 2 ^ 76 + 1) / 3
  firstFactor := 65537
  secondFactor := 5 * 2 ^ 75 + 1
  valid := by decide +kernel

theorem isGenuine_small : small.IsGenuine :=
  ⟨by norm_num [small], prime_five_mul_two_pow, by decide⟩

theorem size_small : small.size = 12 := by
  apply Nat.le_antisymm
  · exact Octets.natSize_le_iff.mpr (by decide)
  · apply Nat.lt_of_not_le
    rw [size, PublicKey.size, Octets.natSize_le_iff]
    decide

end Rsa.PrivateKey

/-- For example, the small key signs a multiple of its first factor behind zeros, and
refuses its own modulus. -/
theorem rsaRaw_exact_small :
    (∃ signature,
      (PrivateKey.rsa .small).rsaRawSign (List.replicate 20 0 ++ [1, 0, 1]) = .ok signature ∧
      signature.length = 12 ∧
      (PrivateKey.rsa .small).toPublic.rsaRawVerify signature
        = .ok (List.replicate 9 0 ++ [1, 0, 1])) ∧
    (PrivateKey.rsa .small).rsaRawSign (Octets.ofNat Rsa.PrivateKey.small.modulus)
      = .error (.input .rsaRawSign .outOfRange) := by
  have hexact := rsaRaw_exact.1 .small _ Rsa.PrivateKey.isGenuine_small
    Rsa.PrivateKey.small.belongsTo_toPublic
  have hsize : Rsa.PrivateKey.small.toPublic.size = 12 := Rsa.PrivateKey.size_small
  obtain ⟨signature, hsign, -, hlength, hopen⟩ :=
    (hexact (List.replicate 20 0 ++ [1, 0, 1])).1 (by decide)
  rw [hsize] at hlength hopen
  refine ⟨⟨signature, hsign, hlength, hopen⟩, ?_⟩
  exact (hexact _).2 (Nat.le_of_eq (Octets.toNat_ofNat _).symm)

end Presign
