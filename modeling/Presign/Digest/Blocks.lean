import Presign.Octets

/-!
# Blocks and words

The hash functions here share their outer shape.  A message is padded with one
set bit, zero bits and its length in bits, so that blocks of one size make it
up.  A state is then carried through the blocks from left to right.
-/

namespace Presign.Digest

/-- A message with the padding that fills its last block.  The length takes
`lengthSize` octets at the end. -/
def pad (blockSize lengthSize : Nat) (bs : Octets) : Octets :=
  let used := (bs.length + 1 + lengthSize) % blockSize
  bs ++ 0x80 :: List.replicate ((blockSize - used) % blockSize) 0
    ++ Octets.ofNatWidth lengthSize (8 * bs.length)

/-- Carries a state through the blocks of a padded message. -/
def absorb {S : Type} (blockSize : Nat) (step : S → Octets → S) (s : S) : Octets → S
  | [] => s
  | b :: bs =>
    absorb blockSize step (step s (b :: bs.take (blockSize - 1))) (bs.drop (blockSize - 1))
termination_by bs => bs.length
decreasing_by simp only [List.length_drop, List.length_cons]; omega

/-- The words of a block, `size + 1` octets in each. -/
def words {W : Type} (ofNat : Nat → W) (size : Nat) : Octets → List W
  | [] => []
  | b :: bs => ofNat (Octets.toNat (b :: bs.take size)) :: words ofNat size (bs.drop size)
termination_by bs => bs.length
decreasing_by simp only [List.length_drop, List.length_cons]; omega

end Presign.Digest
