import Presign.Proofs.Octets
import Presign.Rsa.Padding

/-!
# The blocks that are accepted

A block is accepted if and only if it is zero, one, a run of octets 255 that is
long enough, zero, and the value.  The reader looks for the end of the run from the
front, so the value may hold any octets: the zero that ends the run is the first
octet that is not 255.
-/

namespace Presign.Rsa

/-- The block that carries a value after a number of padding octets. -/
def block (count : Nat) (value : Octets) : Octets :=
  0 :: 1 :: (List.replicate count 255 ++ 0 :: value)

@[simp] theorem length_block (count : Nat) (value : Octets) :
    (block count value).length = count + value.length + 3 := by
  simp [block]
  omega

/-! ## Reading -/

theorem unpad_block {count : Nat} (h : minPadding ≤ count) (value : Octets) :
    unpad (block count value) = .ok value := by
  simp [unpad, block, h]

/-- What is read is the value of a block. -/
theorem exists_block_of_unpad {bs value : Octets} (h : unpad bs = .ok value) :
    ∃ count, minPadding ≤ count ∧ bs = block count value := by
  unfold unpad at h
  split at h
  next rest =>
    split at h
    next => cases h
    next b after hafter =>
      split at h
      next => cases h
      next hzero =>
        split at h
        next => cases h
        next hlong =>
          cases h
          rw [Decidable.not_not] at hzero
          subst hzero
          refine ⟨(rest.takeWhile (· == 255)).length, Nat.le_of_not_lt hlong, ?_⟩
          rw [block, ← Octets.takeWhile_eq_replicate, ← hafter, List.takeWhile_append_dropWhile]
  next => cases h

/-- A value is read from its blocks, and from nothing else. -/
theorem unpad_eq_ok_iff {bs value : Octets} :
    unpad bs = .ok value ↔ ∃ count, minPadding ≤ count ∧ bs = block count value := by
  constructor
  · exact exists_block_of_unpad
  · rintro ⟨count, hcount, rfl⟩
    exact unpad_block hcount value

/-! ## Writing -/

/-- A value is written as a block of the whole size. -/
theorem pad?_of_fits {size : Nat} {value : Octets}
    (h : value.length + 3 + minPadding ≤ size) :
    pad? size value = some (block (size - 3 - value.length) value) := by
  rw [pad?, if_pos h]
  simp [block]

theorem length_block_of_fits {size : Nat} {value : Octets}
    (h : value.length + 3 + minPadding ≤ size) :
    (block (size - 3 - value.length) value).length = size := by
  rw [length_block]
  omega

theorem pad?_of_not_fits {size : Nat} {value : Octets}
    (h : ¬ value.length + 3 + minPadding ≤ size) : pad? size value = none := by
  rw [pad?, if_neg h]

/-- Its leading zero keeps a block below every number of its size. -/
theorem toNat_block_lt {n count : Nat} {value : Octets}
    (h : (block count value).length = Octets.natSize n) : (block count value).toNat < n := by
  have hblock : (block count value).toNat < 256 ^ (count + value.length + 2) := by
    have hlt := Octets.toNat_lt (1 :: (List.replicate count 255 ++ 0 :: value))
    rw [block, Octets.toNat_zero_cons]
    refine Nat.lt_of_lt_of_eq hlt (congrArg _ ?_)
    simp
    omega
  have hn : ¬ Octets.natSize n ≤ count + value.length + 2 := by
    rw [length_block] at h
    omega
  rw [Octets.natSize_le_iff, Nat.not_lt] at hn
  exact Nat.lt_of_lt_of_le hblock hn

end Presign.Rsa
