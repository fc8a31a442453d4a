import Presign.Proofs.Rsa.Padding
import Presign.Proofs.Rsa.Raw

/-!
# Values in RSA signatures

What is recovered from a signature is exactly what its block carries, for any key.

To sign a value is to sign its block with the raw operation, again for any key,
since the block is always below the modulus.  If the factors of the key are
distinct primes, the private operation succeeds, and the public one brings back the
block, of which the value is read.
-/

namespace Presign

/-! ## Recovery -/

/-- A value is recovered if and only if the signature opens to one of its blocks. -/
theorem PublicKey.rsaRecover_eq_ok_iff {key : PublicKey} {signature value : Octets} :
    key.rsaRecover signature = .ok value
      ↔ ∃ count, Rsa.minPadding ≤ count
        ∧ key.rsaRawVerify signature = .ok (Rsa.block count value) := by
  rw [rsaRecover, Except.bind_eq_ok]
  constructor
  · rintro ⟨bs, hraw, hunpad⟩
    obtain ⟨count, hcount, rfl⟩ := Rsa.unpad_eq_ok_iff.mp (Except.mapError_eq_ok.mp hunpad)
    exact ⟨count, hcount, hraw⟩
  · rintro ⟨count, hcount, hraw⟩
    exact ⟨_, hraw, Except.mapError_eq_ok.mpr (Rsa.unpad_block hcount value)⟩

namespace PrivateKey

variable {k : Rsa.PrivateKey} {value : Octets}

/-! ## Signing -/

/-- A value that fits is signed as its block. -/
theorem rsaSign_of_fits (h : value.length + 3 + Rsa.minPadding ≤ k.size) :
    (rsa k).rsaSign value
      = (rsa k).rsaRawSign (Rsa.block (k.size - 3 - value.length) value) := by
  have hlt : (Rsa.block (k.size - 3 - value.length) value).toNat < k.modulus :=
    Rsa.toNat_block_lt (Rsa.length_block_of_fits h)
  simp [rsaSign, rsaRawSign, asRsa, Rsa.pad?_of_fits h, Nat.not_le.mpr hlt]

theorem rsaSign_of_not_fits (h : ¬ value.length + 3 + Rsa.minPadding ≤ k.size) :
    (rsa k).rsaSign value = .error .rsa := by
  simp [rsaSign, asRsa, Rsa.pad?_of_not_fits h]

/-! ## Both operations -/

/-- A signed value is recovered. -/
theorem exists_rsaSign_recover (hk : k.IsGenuine)
    (h : value.length + 3 + Rsa.minPadding ≤ k.size) :
    ∃ signature,
      (rsa k).rsaSign value = .ok signature ∧ (rsa k).toPublic.rsaRecover signature = .ok value := by
  have hlength := Rsa.length_block_of_fits h
  have hlt : (Rsa.block (k.size - 3 - value.length) value).toNat < k.modulus :=
    Rsa.toNat_block_lt hlength
  refine ⟨_, (rsaSign_of_fits h).trans (rsaRawSign_eq hk hlt), ?_⟩
  have hblock := Octets.ofNatWidth_toNat (Rsa.block (k.size - 3 - value.length) value)
  rw [hlength] at hblock
  have hopen := rsaRawVerify_power hk k.belongsTo_toPublic hlt
  rw [hblock] at hopen
  exact PublicKey.rsaRecover_eq_ok_iff.mpr ⟨k.size - 3 - value.length, by omega, hopen⟩

end PrivateKey

/-- Padding is exact.  What is recovered under any key is what a block carries.  Under
a key of distinct primes a value that leaves eleven octets is signed as its block and
recovered, and a longer one is refused. -/
theorem rsaPadding_exact :
    (∀ (key : PublicKey) (signature value : Octets),
      key.rsaRecover signature = .ok value
        ↔ ∃ count, 8 ≤ count ∧ key.rsaRawVerify signature = .ok (Rsa.block count value)) ∧
    ∀ k : Rsa.PrivateKey, k.IsGenuine → ∀ value : Octets,
      (value.length + 11 ≤ k.size → ∃ signature,
        (PrivateKey.rsa k).rsaSign value = .ok signature ∧
        (PrivateKey.rsa k).rsaRawSign (Rsa.block (k.size - 3 - value.length) value)
          = .ok signature ∧
        (PrivateKey.rsa k).toPublic.rsaRecover signature = .ok value) ∧
      (k.size < value.length + 11 → (PrivateKey.rsa k).rsaSign value = .error .rsa) := by
  refine ⟨fun key signature value => PublicKey.rsaRecover_eq_ok_iff, fun k hk value => ⟨?_, ?_⟩⟩
  · intro hfits
    obtain ⟨signature, hsign, hrecover⟩ := PrivateKey.exists_rsaSign_recover hk hfits
    exact ⟨signature, hsign, (PrivateKey.rsaSign_of_fits hfits).symm.trans hsign, hrecover⟩
  · intro hlong
    exact PrivateKey.rsaSign_of_not_fits (Nat.not_le.mpr hlong)

/-- For example, the small key has room for one octet and no more. -/
theorem rsaPadding_exact_small :
    (∃ signature,
      (PrivateKey.rsa .small).rsaSign [7] = .ok signature ∧
      (PrivateKey.rsa .small).rsaRawSign (Rsa.block 8 [7]) = .ok signature ∧
      (PrivateKey.rsa .small).toPublic.rsaRecover signature = .ok [7]) ∧
    (PrivateKey.rsa .small).rsaSign [7, 7] = .error .rsa := by
  obtain ⟨-, hsign⟩ := rsaPadding_exact
  have hone := (hsign .small Rsa.PrivateKey.isGenuine_small [7]).1
  have htwo := (hsign .small Rsa.PrivateKey.isGenuine_small [7, 7]).2
  rw [Rsa.PrivateKey.size_small] at hone htwo
  exact ⟨hone (by decide), htwo (by decide)⟩

end Presign
