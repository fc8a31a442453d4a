import Presign.Ecdsa.Value
import Presign.Proofs.Der.Value

/-!
# Signature values that are written and read

A signature has two written forms, and both are read back as the same pair.

The sequence of integers is read back for its own sake: an integer has the number
of its magnitude, whatever octet had to go in front of it for the sign.  The
blocks are read back because the width that a converter picks holds both numbers
(`Codec.lt_of_blockSize`).  The reader halves what it is given, so the blocks are
determined by the pair and the width, and this gives the other direction too:
octets that were read are written again if the converter picks their width.
-/

namespace Presign.Ecdsa

namespace Value

/-! ## Sequence of integers -/

/-- The encoded numbers of a signature. -/
def components (v : Value) : List Octets :=
  [Der.unsigned (Octets.ofNat v.r), Der.unsigned (Octets.ofNat v.s)]

theorem toDer_eq (v : Value) : v.toDer = Der.sequence v.components := rfl

/-- A written number is read back. -/
theorem readComponent_unsigned {n : Nat}
    (hsize : (Der.unsigned (Octets.ofNat n)).length < 2 ^ 32) (component : String) :
    readComponent component (Der.unsigned (Octets.ofNat n)) = .ok n := by
  have hpositive : ¬ (Der.unsignedContent (Octets.ofNat n)).headD 0 ≥ 128 :=
    UInt8.not_le.mpr (Der.headD_unsignedContent_lt _)
  rw [readComponent, Except.bind_eq_ok]
  refine ⟨_, Except.mapError_eq_ok.mpr (Der.readInteger_unsigned hsize _), ?_⟩
  rw [if_neg hpositive, Der.toNat_unsignedContent, Octets.toNat_ofNat]
  rfl

/-- A signature is read back from its encoding. -/
theorem ofDer_toDer {v : Value} (hsize : v.components.flatten.length < 2 ^ 32) :
    ofDer v.toDer = .ok v := by
  have hshort : ∀ e ∈ v.components, e.length < 2 ^ 32 := by
    intro e he
    exact Nat.lt_of_le_of_lt (Der.length_le_flatten he) hsize
  have helement : ∀ e ∈ v.components, Der.IsElement e := by
    intro e he
    have hs := hshort e he
    simp only [components, List.mem_cons, List.not_mem_nil, or_false] at he
    rcases he with rfl | rfl
    · exact Der.isElement_unsigned hs
    · exact Der.isElement_unsigned hs
  have hread : Der.readSequence "ECDSA signature value" v.toDer = .ok v.components := by
    rw [toDer_eq]
    exact Der.readElements_element (by decide) helement hsize _
  have hr := readComponent_unsigned (n := v.r) (hshort _ (by simp [components])) "r"
  have hs := readComponent_unsigned (n := v.s) (hshort _ (by simp [components])) "s"
  rw [ofDer, Except.bind_eq_ok]
  refine ⟨_, Except.mapError_eq_ok.mpr hread, ?_⟩
  simp only [components, hr, hs]
  rfl

/-! ## Blocks of one width -/

/-- The numbers of a signature in blocks of one width. -/
def blocks (w : Nat) (v : Value) : Octets := Octets.ofNatWidth w v.r ++ Octets.ofNatWidth w v.s

@[simp] theorem length_blocks (w : Nat) (v : Value) : (v.blocks w).length = 2 * w := by
  rw [blocks, List.length_append, Octets.length_ofNatWidth, Octets.length_ofNatWidth]
  omega

/-- Octets are read as a signature if and only if they are its blocks. -/
theorem ofFixedWidth_eq_ok_iff {bs : Octets} {v : Value} :
    ofFixedWidth bs = .ok v
      ↔ ∃ w, w ≠ 0 ∧ v.r < 256 ^ w ∧ v.s < 256 ^ w ∧ bs = v.blocks w := by
  constructor
  · intro h
    rw [ofFixedWidth] at h
    split at h
    next => cases h
    next heven =>
      rw [Except.ok.injEq] at h
      subst h
      have htake : (bs.take (bs.length / 2)).length = bs.length / 2 := by
        rw [List.length_take]; omega
      have hdrop : (bs.drop (bs.length / 2)).length = bs.length / 2 := by
        rw [List.length_drop]; omega
      have hr := Octets.toNat_lt (bs.take (bs.length / 2))
      have hs := Octets.toNat_lt (bs.drop (bs.length / 2))
      have hfirst := Octets.ofNatWidth_toNat (bs.take (bs.length / 2))
      have hsecond := Octets.ofNatWidth_toNat (bs.drop (bs.length / 2))
      rw [htake] at hr hfirst
      rw [hdrop] at hs hsecond
      refine ⟨bs.length / 2, by omega, hr, hs, ?_⟩
      rw [blocks, ofOctets, hfirst, hsecond, List.take_append_drop]
  · rintro ⟨w, hw, hr, hs, rfl⟩
    have hhalf : 2 * w / 2 = w := Nat.mul_div_cancel_left w (by decide)
    rw [ofFixedWidth, length_blocks, if_neg (by omega), hhalf, blocks,
      List.take_left' (Octets.length_ofNatWidth w _), List.drop_left' (Octets.length_ofNatWidth w _),
      ofOctets, Octets.toNat_ofNatWidth hr, Octets.toNat_ofNatWidth hs]

end Value

namespace Codec

/-! ## Widths -/

/-- The width that a converter picks holds both numbers. -/
theorem lt_of_blockSize {c : Codec} {v : Value} {w : Nat} (h : c.blockSize v = .ok w) :
    v.r < 256 ^ w ∧ v.s < 256 ^ w := by
  unfold blockSize at h
  dsimp only at h
  split at h
  next found hfound =>
    rw [Except.ok.injEq] at h
    subst h
    have hfits := List.find?_some hfound
    simp only [fits, Bool.and_eq_true, decide_eq_true_eq] at hfits
    exact ⟨Octets.natSize_le_iff.mp hfits.1.1, Octets.natSize_le_iff.mp hfits.1.2⟩
  next => cases h

/-- A converter writes the blocks of the width that it picks, if this is not
zero. -/
theorem toFixedWidth_eq_ok_iff {c : Codec} {v : Value} {bs : Octets} :
    c.toFixedWidth v = .ok bs ↔ ∃ w, c.blockSize v = .ok w ∧ w ≠ 0 ∧ bs = v.blocks w := by
  rw [toFixedWidth, Except.bind_eq_ok]
  refine exists_congr fun w => and_congr_right fun _ => ?_
  by_cases hw : w = 0
  · simp [hw]
  · rw [if_neg hw]
    constructor
    · intro h
      cases h
      exact ⟨hw, rfl⟩
    · rintro ⟨-, rfl⟩
      rfl

/-- Both forms of a signature are read back, so they are forms of the same pair.
Octets that are read as blocks are what the converter writes, if it picks their
width. -/
theorem encodings_lossless (c : Codec) (v : Value) :
    (v.components.flatten.length < 2 ^ 32 → Value.ofDer v.toDer = .ok v) ∧
      (∀ bs, c.toFixedWidth v = .ok bs →
        (∃ w, c.blockSize v = .ok w ∧ bs.length = 2 * w) ∧ Value.ofFixedWidth bs = .ok v) ∧
      ∀ bs w, Value.ofFixedWidth bs = .ok v → c.blockSize v = .ok w → bs.length = 2 * w →
        c.toFixedWidth v = .ok bs := by
  refine ⟨Value.ofDer_toDer, fun bs h => ?_, fun bs w h hsize hlength => ?_⟩
  · obtain ⟨w, hsize, hw, rfl⟩ := toFixedWidth_eq_ok_iff.mp h
    obtain ⟨hr, hs⟩ := lt_of_blockSize hsize
    exact ⟨⟨w, hsize, Value.length_blocks w v⟩,
      Value.ofFixedWidth_eq_ok_iff.mpr ⟨w, hw, hr, hs, rfl⟩⟩
  · obtain ⟨w', hw, -, -, rfl⟩ := Value.ofFixedWidth_eq_ok_iff.mp h
    have hwidth : w' = w := by
      rw [Value.length_blocks] at hlength
      omega
    subst hwidth
    exact toFixedWidth_eq_ok_iff.mpr ⟨w', hsize, hw, rfl⟩

/-- A signature with a sign bit to be cleared in its first number, and a second
number that is one octet short. -/
def uneven : Value := ⟨2 ^ 255, 2 ^ 247 - 1⟩

theorem blockSize_uneven : standard.blockSize uneven = .ok 32 := by
  decide +kernel

/-- For example, `uneven` is read back from both forms, and its blocks are written
again. -/
theorem encodings_lossless_uneven :
    Value.ofDer uneven.toDer = .ok uneven ∧
      Value.ofFixedWidth (uneven.blocks 32) = .ok uneven ∧
      standard.toFixedWidth uneven = .ok (uneven.blocks 32) := by
  obtain ⟨hder, hfixed, hback⟩ := encodings_lossless standard uneven
  have hblocks : standard.toFixedWidth uneven = .ok (uneven.blocks 32) :=
    toFixedWidth_eq_ok_iff.mpr ⟨32, blockSize_uneven, by decide, rfl⟩
  have hread := (hfixed _ hblocks).2
  exact ⟨hder (by decide +kernel), hread,
    hback _ 32 hread blockSize_uneven (Value.length_blocks 32 uneven)⟩

end Codec

end Presign.Ecdsa
