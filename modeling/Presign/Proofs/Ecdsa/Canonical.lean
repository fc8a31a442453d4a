import Presign.Proofs.Ecdsa.Encoding

/-!
# Which octets are read as a signature

A signature is read from its encoding, and from other octets too.  The reader does
not ask for the shortest length of the sequence, nor for the shortest content of the
integers.  It does ask for the shortest length of each integer, since the elements of
a sequence are cut by it.

So the octets that are read as a signature are those of its encoding, but for the form
of the outer length and for zeros in front of the two numbers
(`Value.ofDer_eq_ok_iff`).  They are the encoding itself exactly if the length has its
shortest form and there are no such zeros.
-/

namespace Presign.Ecdsa.Value

/-! ## Integers with zeros in front -/

/-- An integer with zeros in front of its shortest content. -/
def paddedInteger (zeros n : Nat) : Octets :=
  Der.element Der.Tag.integer
    (List.replicate zeros 0 ++ Der.unsignedContent (Octets.ofNat n))

/-- The numbers of a signature as integers with zeros in front. -/
def padded (v : Value) (rZeros sZeros : Nat) : List Octets :=
  [paddedInteger rZeros v.r, paddedInteger sZeros v.s]

/-- A number is read from the integers that have zeros in front of it. -/
theorem readComponent_eq_ok_iff {component : String} {bs : Octets} {n : Nat} :
    readComponent component bs = .ok n
      ↔ ∃ zeros, Der.content Der.Tag.integer "ECDSA signature component" bs
        = .ok (List.replicate zeros 0 ++ Der.unsignedContent (Octets.ofNat n)) := by
  rw [readComponent, Except.bind_eq_ok]
  constructor
  · rintro ⟨inner, hread, h⟩
    rw [Except.mapError_eq_ok, Der.readInteger_eq_ok_iff] at hread
    split at h
    next => cases h
    next hsign =>
      cases h
      obtain ⟨zeros, hzeros⟩ := Der.clear_sign_iff.mp ⟨hread.2, UInt8.not_le.mp hsign, rfl⟩
      exact ⟨zeros, by rw [hread.1, ← hzeros]⟩
  · rintro ⟨zeros, hcontent⟩
    obtain ⟨hne, hsign, hn⟩ := Der.clear_sign_iff.mpr ⟨zeros, rfl⟩
    refine ⟨_, Except.mapError_eq_ok.mpr (Der.readInteger_eq_ok_iff.mpr ⟨hcontent, hne⟩), ?_⟩
    rw [if_neg (UInt8.not_le.mpr hsign), hn]
    rfl

theorem length_paddedInteger (zeros n : Nat) :
    (paddedInteger 0 n).length + zeros ≤ (paddedInteger zeros n).length := by
  have hshorter : (Der.unsignedContent (Octets.ofNat n)).length
      ≤ (List.replicate zeros 0 ++ Der.unsignedContent (Octets.ofNat n)).length := by simp
  have hlength := Der.length_lengthOctets_mono hshorter
  rw [paddedInteger, paddedInteger, Der.length_element, Der.length_element, List.replicate_zero,
    List.nil_append]
  rw [List.length_append, List.length_replicate] at hlength ⊢
  omega

/-! ## What is read -/

/-- A signature is read from its integers with any zeros in front, behind any form of
their length. -/
theorem ofDer_eq_ok_iff {bs : Octets} {v : Value} :
    ofDer bs = .ok v
      ↔ ∃ front rZeros sZeros, Der.IsLength front (v.padded rZeros sZeros).flatten.length ∧
        bs = Der.Tag.sequence :: (front ++ (v.padded rZeros sZeros).flatten) := by
  rw [ofDer, Except.bind_eq_ok]
  constructor
  · rintro ⟨es, hread, h⟩
    rw [Except.mapError_eq_ok, Der.readSequence, Der.readElements_eq_ok_iff_isLength] at hread
    obtain ⟨-, front, hfront, hbs, hes⟩ := hread
    split at h
    next r s =>
      obtain ⟨rNumber, hr, h⟩ := Except.bind_eq_ok.mp h
      obtain ⟨sNumber, hs, h⟩ := Except.bind_eq_ok.mp h
      cases h
      obtain ⟨rZeros, hr⟩ := readComponent_eq_ok_iff.mp hr
      obtain ⟨sZeros, hs⟩ := readComponent_eq_ok_iff.mp hs
      have hpadded : [r, s] = padded ⟨rNumber, sNumber⟩ rZeros sZeros := by
        rw [padded, paddedInteger, paddedInteger,
          Der.eq_element_of_mem_elements? hes (by simp) hr,
          Der.eq_element_of_mem_elements? hes (by simp) hs]
      rw [hpadded] at hfront hbs
      exact ⟨front, rZeros, sZeros, hfront, hbs⟩
    next => cases h
  · rintro ⟨front, rZeros, sZeros, hfront, rfl⟩
    have hshort : ∀ e ∈ v.padded rZeros sZeros, e.length < 2 ^ 32 := fun e he =>
      Nat.lt_of_le_of_lt (Der.length_le_flatten he) hfront.lt
    have hr := Nat.lt_trans (Der.length_lt_element _ _) (hshort (paddedInteger rZeros v.r)
      (by simp [padded]))
    have hs := Nat.lt_trans (Der.length_lt_element _ _) (hshort (paddedInteger sZeros v.s)
      (by simp [padded]))
    have helements : ∀ e ∈ v.padded rZeros sZeros, Der.IsElement e := by
      intro e he
      simp only [padded, List.mem_cons, List.not_mem_nil, or_false] at he
      rcases he with rfl | rfl
      · exact Der.isElement_element (by decide) hr
      · exact Der.isElement_element (by decide) hs
    refine ⟨_, Except.mapError_eq_ok.mpr (Der.readElements_eq_ok_iff_isLength.mpr
      ⟨by decide, front, hfront, rfl, Der.elements?_flatten helements⟩), ?_⟩
    have hreadr : readComponent "r" (paddedInteger rZeros v.r) = .ok v.r :=
      readComponent_eq_ok_iff.mpr ⟨rZeros, Der.content_element (by decide) hr _⟩
    have hreads : readComponent "s" (paddedInteger sZeros v.s) = .ok v.s :=
      readComponent_eq_ok_iff.mpr ⟨sZeros, Der.content_element (by decide) hs _⟩
    simp only [padded, hreadr, hreads]
    rfl

/-- What is read as a signature is its encoding if the length is the shortest and there
are no zeros in front of the numbers. -/
theorem eq_toDer_iff {front : Octets} {rZeros sZeros : Nat} {v : Value}
    (h : Der.IsLength front (v.padded rZeros sZeros).flatten.length) :
    Der.Tag.sequence :: (front ++ (v.padded rZeros sZeros).flatten) = v.toDer
      ↔ front = Der.lengthOctets (v.padded rZeros sZeros).flatten.length ∧
        rZeros = 0 ∧ sZeros = 0 := by
  have htoDer : v.toDer = Der.Tag.sequence ::
      (Der.lengthOctets (v.padded 0 0).flatten.length ++ (v.padded 0 0).flatten) := rfl
  have hlength : (v.padded 0 0).flatten.length + rZeros + sZeros
      ≤ (v.padded rZeros sZeros).flatten.length := by
    have hr := length_paddedInteger rZeros v.r
    have hs := length_paddedInteger sZeros v.s
    simp only [padded, List.flatten_cons, List.flatten_nil, List.append_nil, List.length_append]
    omega
  constructor
  · intro heq
    have hmore := (List.cons.inj (heq.trans htoDer)).2
    have hshort := Nat.lt_of_le_of_lt (Nat.le_trans (Nat.le_add_right _ _) hlength) h.lt
    -- both lengths are read from the same octets
    have hread := h.readLength (v.padded rZeros sZeros).flatten
    rw [hmore, (Der.isLength_lengthOctets (by omega)).readLength, Except.ok.injEq,
      Prod.mk.injEq] at hread
    obtain rfl : rZeros = 0 := by omega
    obtain rfl : sZeros = 0 := by omega
    exact ⟨List.append_cancel_right hmore, rfl, rfl⟩
  · rintro ⟨rfl, rfl, rfl⟩
    exact htoDer.symm

/-- The octets that are read as a signature, and which of them are its encoding. -/
theorem ofDer_canonical_iff (bs : Octets) (v : Value) :
    (ofDer bs = .ok v
      ↔ ∃ front rZeros sZeros, Der.IsLength front (v.padded rZeros sZeros).flatten.length ∧
        bs = Der.Tag.sequence :: (front ++ (v.padded rZeros sZeros).flatten)) ∧
    ∀ front rZeros sZeros, Der.IsLength front (v.padded rZeros sZeros).flatten.length →
      (Der.Tag.sequence :: (front ++ (v.padded rZeros sZeros).flatten) = v.toDer
        ↔ front = Der.lengthOctets (v.padded rZeros sZeros).flatten.length ∧
          rZeros = 0 ∧ sZeros = 0) :=
  ⟨ofDer_eq_ok_iff, fun _ _ _ => eq_toDer_iff⟩

/-- One pair of numbers is read from its encoding, with a zero in front of a number,
and behind a length of two octets. -/
theorem ofDer_not_canonical :
    toDer ⟨1, 1⟩ = [0x30, 6, 2, 1, 1, 2, 1, 1] ∧
      ofDer [0x30, 6, 2, 1, 1, 2, 1, 1] = .ok ⟨1, 1⟩ ∧
      ofDer [0x30, 7, 2, 2, 0, 1, 2, 1, 1] = .ok ⟨1, 1⟩ ∧
      ofDer [0x30, 0x81, 6, 2, 1, 1, 2, 1, 1] = .ok ⟨1, 1⟩ := by
  decide +kernel

end Presign.Ecdsa.Value
