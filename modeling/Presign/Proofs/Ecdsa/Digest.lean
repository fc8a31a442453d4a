import Presign.Proofs.Ecdsa.Steps
import Presign.Signing

/-!
# Digests of any length

`PublicKey.ecdsaVerify` and `PrivateKey.ecdsaSignDigest` bring a digest to the field size at
once.  The steps behind them do more.  A digest that is short is put behind zeros, because
less than half a field is refused as a digest.  A pair is written into a buffer of two
blocks, each number at the end of its own, and read again from there.  And a signature is
taken from its encoding.

The numbers of a pair come from outside and have any size.  So a difference could lie below
zero, and a number could miss its place.  Neither can happen: a number that is longer than
the field is refused first, and any other has its place, zero too, which is written as one
octet.  The steps do not stop for any digest and pair, and their answers are those of the
operations (`Arithmetic.verifyDigest_eq`, `Arithmetic.signDigest_eq`).

Zeros in front of a digest that stays within the field size do not change what it is brought
to (`fieldDigest_zeros_append`), so they change no answer (`leading_zeros_exact`).
-/

namespace Presign

/-! ## Sizes -/

theorem Curve.fieldSize_pos (c : Curve) : 0 < c.fieldSize := by
  cases c <;> decide

theorem Curve.fieldSize_le (c : Curve) : c.fieldSize ≤ 48 := by
  cases c <;> decide

theorem Curve.order_pos (c : Curve) : 0 < c.order := by
  cases c <;> decide

/-- A number below the order has no more octets than a coordinate. -/
theorem Curve.order_lt (c : Curve) : c.order < 256 ^ c.fieldSize := by
  cases c <;> decide

namespace Ecdsa

open Octets

variable {c : Curve} {point : Curve.Point} {digest : Octets} {scalar zeros : Nat} {v : Value}

/-! ## Digests of the field size -/

theorem fieldDigest_of_length_le (h : digest.length ≤ c.fieldSize) :
    fieldDigest c digest = padLeft c.fieldSize digest := by
  rw [fieldDigest, List.take_of_length_le h]

/-- A digest may be put behind zeros first. -/
theorem fieldDigest_padLeft (c : Curve) (digest : Octets) :
    fieldDigest c (padLeft c.fieldSize digest) = fieldDigest c digest := by
  rcases Nat.le_total c.fieldSize digest.length with hlong | hshort
  · rw [padLeft_of_le_length hlong]
  · have hlength := length_padLeft hshort
    rw [fieldDigest_of_length_le hlength.le, padLeft_of_le_length hlength.ge,
      fieldDigest_of_length_le hshort]

theorem fieldDigest_zeros_append (h : zeros + digest.length ≤ c.fieldSize) :
    fieldDigest c (List.replicate zeros 0 ++ digest) = fieldDigest c digest := by
  have hlength : (List.replicate zeros (0 : UInt8) ++ digest).length ≤ c.fieldSize := by
    rw [List.length_append, List.length_replicate]
    exact h
  rw [fieldDigest_of_length_le hlength, fieldDigest_of_length_le (by omega),
    padLeft_zeros_append h]

/-- An operation sees a digest only as one of the field size. -/
theorem verify_congr {digest' : Octets} (h : fieldDigest c digest = fieldDigest c digest') :
    verify c point digest v = verify c point digest' v := by
  rw [verify, verify, h]

theorem sign?_congr {digest' : Octets} (h : fieldDigest c digest = fieldDigest c digest') :
    sign? c scalar digest = sign? c scalar digest' := by
  rw [sign?, sign?, h]

/-! ## Components -/

/-- A pair that a field cannot hold fits no point. -/
theorem verify_of_lt_natSize (h : c.fieldSize < natSize v.r ∨ c.fieldSize < natSize v.s) :
    verify c point digest v = false := by
  have hlong {n : Nat} (hn : c.fieldSize < natSize n) : c.order ≤ n := by
    by_contra hlt
    exact Nat.not_le.mpr hn (natSize_le (Nat.lt_trans (Nat.not_le.mp hlt) c.order_lt))
  rw [verify, if_pos (h.elim (fun hr => .inr (.inl (hlong hr)))
    fun hs => .inr (.inr (.inr (hlong hs))))]

/-- The components of a signature are below the order. -/
theorem lt_order_of_sign? (h : sign? c scalar digest = some v) :
    v.r < c.order ∧ v.s < c.order := by
  simp only [sign?, Option.bind_eq_bind, Option.bind_eq_some_iff] at h
  obtain ⟨k, -, inv, -, hv⟩ := h
  split at hv
  next => cases hv
  next =>
    cases hv
    exact ⟨Nat.mod_lt _ c.order_pos, Nat.mod_lt _ c.order_pos⟩

/-- A signature is read back from its encoding. -/
theorem ofDer_toDer_of_sign? (h : sign? c scalar digest = some v) :
    Value.ofDer v.toDer = .ok v := by
  have hshort {n : Nat} (hn : n < c.order) : (Der.unsigned (Octets.ofNat n)).length ≤ 55 := by
    have hmagnitude : (Octets.ofNat n).length ≤ 48 :=
      Nat.le_trans (natSize_le (Nat.lt_trans hn c.order_lt)) c.fieldSize_le
    have hcontent := Der.length_unsignedContent_le (Octets.ofNat n)
    have hshort : (Der.unsignedContent (Octets.ofNat n)).length < 2 ^ 32 := by omega
    have hlength := Der.length_lengthOctets_le hshort
    rw [Der.unsigned, Der.length_element]
    omega
  obtain ⟨hr, hs⟩ := lt_order_of_sign? h
  refine Value.ofDer_toDer ?_
  have hr := hshort hr
  have hs := hshort hs
  simp only [Value.components, List.flatten_cons, List.flatten_nil, List.append_nil,
    List.length_append]
  omega

namespace Arithmetic

/-! ## Steps -/

/-- The octets of a number as they are put into a block: zero has one. -/
def magnitude (n : Nat) : Octets := if n = 0 then [0] else Octets.ofNat n

/-- A digest behind the zeros that it lacks. -/
def widen (m : Arithmetic) (size : Nat) (digest : Octets) : Except Stop Octets :=
  if size ≤ digest.length then .ok digest
  else do
    let lacking ← m.word (size - digest.length)
    return List.replicate lacking 0 ++ digest

/-- A buffer with octets in the place of those from `start` to `stop`. -/
def put (buffer : Octets) (start stop : Nat) (bs : Octets) : Except Stop Octets :=
  if start ≤ stop ∧ stop ≤ buffer.length ∧ stop - start = bs.length then
    .ok (buffer.take start ++ bs ++ buffer.drop stop)
  else .error .place

/-- A buffer of two blocks of zeros, with octets put at the end of each block. -/
def twoBlocks (m : Arithmetic) (size : Nat) (r s : Octets) : Except Stop Octets := do
  let both ← m.word (2 * size)
  let rStart ← m.word (size - r.length)
  let buffer ← put (List.replicate both 0) rStart size r
  let sStart ← m.word (both - s.length)
  put buffer sStart buffer.length s

/-- The pair in two blocks of the field size, if both components are in range. -/
def readPair? (c : Curve) (bs : Octets) : Option Value :=
  let v := Value.ofOctets (bs.take c.fieldSize) (bs.drop c.fieldSize)
  if bs.length = 2 * c.fieldSize ∧ v.r ≠ 0 ∧ v.r < c.order ∧ v.s ≠ 0 ∧ v.s < c.order then some v
  else none

/-- Whether octets are long enough to be taken for a digest. -/
def IsLong (c : Curve) (prehash : Octets) : Prop := c.fieldSize / 2 ≤ prehash.length

instance (c : Curve) (prehash : Octets) : Decidable (IsLong c prehash) :=
  inferInstanceAs (Decidable (_ ≤ _))

/-- The verification, step by step. -/
def verifyDigest (m : Arithmetic) (c : Curve) (point : Curve.Point) (digest : Octets)
    (v : Value) : Except Stop Bool :=
  let r := magnitude v.r
  let s := magnitude v.s
  if c.fieldSize < r.length ∨ c.fieldSize < s.length then .ok false
  else do
    let prehash ← m.widen c.fieldSize digest
    let fixed ← m.twoBlocks c.fieldSize r s
    match readPair? c fixed with
    | none => return false
    | some pair => return IsLong c prehash && verify c point prehash pair

/-- The signature, step by step.  It is taken from its encoding. -/
def signDigest (m : Arithmetic) (c : Curve) (scalar : Nat) (digest : Octets) :
    Except Stop (Option (Except ValueError Value)) := do
  let prehash ← m.widen c.fieldSize digest
  if IsLong c prehash then
    return (sign? c scalar prehash).map fun v => Value.ofDer v.toDer
  else return none

/-! ## Single steps -/

variable {m : Arithmetic} {n size w : Nat} {r s : Octets}

/-- A number has as many octets as it needs, or one zero. -/
theorem exists_magnitude_eq (n : Nat) (hw : 0 < w) (hn : natSize n ≤ w) :
    ∃ zeros, magnitude n = List.replicate zeros 0 ++ Octets.ofNat n ∧
      zeros + (Octets.ofNat n).length ≤ w := by
  unfold magnitude
  split
  next hzero =>
    subst hzero
    refine ⟨1, ?_, ?_⟩
    · rw [Octets.ofNat, if_pos rfl]
      rfl
    · rw [Octets.ofNat, if_pos rfl]
      exact hw
  next => exact ⟨0, rfl, by rwa [Nat.zero_add]⟩

theorem length_magnitude_le_iff (hw : 0 < w) : (magnitude n).length ≤ w ↔ natSize n ≤ w := by
  unfold magnitude
  split
  next hzero =>
    subst hzero
    rw [natSize_zero]
    exact iff_of_true hw (Nat.zero_le w)
  next => rfl

/-- A number ends where its block does. -/
theorem padLeft_magnitude (hw : 0 < w) (hn : natSize n ≤ w) :
    padLeft w (magnitude n) = ofNatWidth w n := by
  obtain ⟨zeros, heq, hle⟩ := exists_magnitude_eq n hw hn
  rw [heq, padLeft_zeros_append hle, ofNatWidth_eq_padLeft (natSize_le_iff.mp hn)]

theorem widen_eq (hsize : size < 2 ^ 64) : m.widen size digest = .ok (padLeft size digest) := by
  unfold widen
  split
  next hlong => rw [padLeft_of_le_length hlong]
  next hshort =>
    have hlacking : m.word ((size : Int) - (digest.length : Int)) = .ok (size - digest.length) :=
      word_eq (by omega) (by omega)
    rw [hlacking, Except.ok_bind]
    rfl

/-- Octets are put at the end of a block of zeros that holds them. -/
theorem put_block (front back : Octets) {bs : Octets} (h : bs.length ≤ w) :
    put (front ++ (List.replicate w 0 ++ back)) (front.length + (w - bs.length))
      (front.length + w) bs = .ok (front ++ (padLeft w bs ++ back)) := by
  have hsplit : (List.replicate w 0 : Octets)
      = List.replicate (w - bs.length) 0 ++ List.replicate bs.length 0 := by
    rw [← List.replicate_add, Nat.sub_add_cancel h]
  rw [put, if_pos ⟨by omega, by simp, by omega⟩, List.take_length_add_append,
    List.drop_length_add_append, List.drop_left' (List.length_replicate ..), hsplit,
    List.append_assoc (List.replicate _ _), List.take_left' (List.length_replicate ..), padLeft,
    List.append_assoc, List.append_assoc, List.append_assoc]

theorem twoBlocks_eq (hr : r.length ≤ w) (hs : s.length ≤ w) (hw : w < 2 ^ 61) :
    m.twoBlocks w r s = .ok (padLeft w r ++ padLeft w s) := by
  have hboth : m.word (2 * w) = .ok (w + w) := word_eq (by omega) (by omega)
  have hrStart : m.word ((w : Int) - (r.length : Int)) = .ok (w - r.length) :=
    word_eq (by omega) (by omega)
  have hsStart : m.word (((w + w : Nat) : Int) - (s.length : Int)) = .ok (w + (w - s.length)) :=
    word_eq (by omega) (by omega)
  have hlength : (padLeft w r).length = w := length_padLeft hr
  have hfirst := put_block [] (List.replicate w 0) hr
  have hsecond := put_block (padLeft w r) [] hs
  simp only [List.nil_append, List.length_nil, Nat.zero_add] at hfirst
  simp only [List.append_nil, hlength] at hsecond
  rw [twoBlocks, hboth, Except.ok_bind, hrStart, Except.ok_bind, List.replicate_add, hfirst,
    Except.ok_bind, hsStart, Except.ok_bind, List.length_append, hlength, List.length_replicate,
    hsecond]

/-- A pair in blocks is read if it is in range. -/
theorem readPair?_blocks (hr : v.r < 256 ^ c.fieldSize) (hs : v.s < 256 ^ c.fieldSize) :
    readPair? c (v.blocks c.fieldSize)
      = if v.r = 0 ∨ c.order ≤ v.r ∨ v.s = 0 ∨ c.order ≤ v.s then none else some v := by
  have hpair : Value.ofOctets ((v.blocks c.fieldSize).take c.fieldSize)
      ((v.blocks c.fieldSize).drop c.fieldSize) = v := by
    rw [Value.blocks, List.take_left' (length_ofNatWidth ..),
      List.drop_left' (length_ofNatWidth ..), Value.ofOctets, toNat_ofNatWidth hr,
      toNat_ofNatWidth hs]
  rw [readPair?, hpair, Value.length_blocks]
  split
  next hrange => rw [if_neg (by omega)]
  next hrange => rw [if_pos (by omega)]

/-! ## Operations -/

theorem isLong_padLeft (c : Curve) (digest : Octets) : IsLong c (padLeft c.fieldSize digest) := by
  rw [IsLong, padLeft, List.length_append, List.length_replicate]
  omega

/-- The steps of a verification do not stop. -/
theorem verifyDigest_eq : m.verifyDigest c point digest v = .ok (verify c point digest v) := by
  have hpos := c.fieldSize_pos
  have hword : c.fieldSize < 2 ^ 61 := Nat.lt_of_le_of_lt c.fieldSize_le (by decide)
  by_cases hfits : natSize v.r ≤ c.fieldSize ∧ natSize v.s ≤ c.fieldSize
  · obtain ⟨hr, hs⟩ := hfits
    have hrlength := (length_magnitude_le_iff hpos).mpr hr
    have hslength := (length_magnitude_le_iff hpos).mpr hs
    have hfixed : m.twoBlocks c.fieldSize (magnitude v.r) (magnitude v.s)
        = .ok (v.blocks c.fieldSize) := by
      rw [twoBlocks_eq hrlength hslength hword, padLeft_magnitude hpos hr,
        padLeft_magnitude hpos hs]
      rfl
    rw [verifyDigest, if_neg (by omega), widen_eq (by omega), Except.ok_bind, hfixed,
      Except.ok_bind, readPair?_blocks (natSize_le_iff.mp hr) (natSize_le_iff.mp hs)]
    split
    next hnone =>
      split at hnone
      next hrange =>
        rw [verify, if_pos hrange]
        rfl
      next => cases hnone
    next pair hpair =>
      split at hpair
      next => cases hpair
      next =>
        cases hpair
        rw [decide_eq_true (isLong_padLeft c digest), Bool.true_and,
          verify_congr (fieldDigest_padLeft c digest)]
        rfl
  · have hlong : c.fieldSize < natSize v.r ∨ c.fieldSize < natSize v.s := by omega
    rw [verify_of_lt_natSize hlong, verifyDigest, if_pos]
    exact hlong.imp (fun hr => by rwa [← Nat.not_le, length_magnitude_le_iff hpos, Nat.not_le])
      fun hs => by rwa [← Nat.not_le, length_magnitude_le_iff hpos, Nat.not_le]

/-- The steps of a signature do not stop, and it is read from its encoding. -/
theorem signDigest_eq : m.signDigest c scalar digest = .ok ((sign? c scalar digest).map .ok) := by
  have hword : c.fieldSize < 2 ^ 64 := Nat.lt_of_le_of_lt c.fieldSize_le (by decide)
  rw [signDigest, widen_eq hword, Except.ok_bind, if_pos (isLong_padLeft c digest),
    sign?_congr (fieldDigest_padLeft c digest)]
  cases hsign : sign? c scalar digest with
  | none => rfl
  | some v =>
      rw [Option.map_some, ofDer_toDer_of_sign? hsign]
      rfl

end Arithmetic

/-- Zeros in front of a digest that stays within the field size change neither a signature
nor an answer.  The steps of both operations do not stop for any digest and pair, and have
their answers.  A pair that the field cannot hold is answered with `false`. -/
theorem leading_zeros_exact (c : Curve) (x y scalar : Nat)
    (range : 0 < scalar ∧ scalar < c.order) (digest : Octets) (v : Value) :
    (∀ zeros, zeros + digest.length ≤ c.fieldSize →
      (PublicKey.ec c x y).ecdsaVerify (List.replicate zeros 0 ++ digest) v
        = (PublicKey.ec c x y).ecdsaVerify digest v ∧
      (PrivateKey.ec c scalar range).ecdsaSignDigest (List.replicate zeros 0 ++ digest)
        = (PrivateKey.ec c scalar range).ecdsaSignDigest digest) ∧
    (∀ m : Arithmetic, ∃ verified,
      m.verifyDigest c (.affine x y) digest v = .ok verified ∧
      (PublicKey.ec c x y).ecdsaVerify digest v = .ok verified ∧
      (c.fieldSize < natSize v.r ∨ c.fieldSize < natSize v.s → verified = false)) ∧
    ∀ m : Arithmetic, ∃ signed : Option Value,
      m.signDigest c scalar digest = .ok (signed.map .ok) ∧
      (PrivateKey.ec c scalar range).ecdsaSignDigest digest = signed.elim (.error .ec) .ok := by
  refine ⟨fun zeros h => ?_, fun m => ?_, fun m => ?_⟩
  · have hsame := fieldDigest_zeros_append h
    constructor
    · rw [PublicKey.ecdsaVerify, PublicKey.ecdsaVerify, verify_congr hsame]
    · rw [PrivateKey.ecdsaSignDigest, PrivateKey.ecdsaSignDigest, sign?_congr hsame]
  · exact ⟨_, Arithmetic.verifyDigest_eq, rfl, verify_of_lt_natSize⟩
  · refine ⟨_, Arithmetic.signDigest_eq, ?_⟩
    rw [PrivateKey.ecdsaSignDigest]
    cases sign? c scalar digest with
    | none => rfl
    | some v => rfl

/-- For example, a digest of 20 octets and the same behind 28 zeros have the same signature
for a key of P-384, and no step stops at a pair with a component of 49 octets. -/
theorem leading_zeros_exact_sha1 :
    (PrivateKey.ec .p384 1 (by decide)).ecdsaSignDigest
        (List.replicate 28 0 ++ List.replicate 20 171)
      = (PrivateKey.ec .p384 1 (by decide)).ecdsaSignDigest (List.replicate 20 171) ∧
    Arithmetic.checked.verifyDigest .p384 (.affine 0 0) (List.replicate 20 171) ⟨256 ^ 48, 0⟩
      = .ok false := by
  obtain ⟨hzeros, hverify, -⟩ := leading_zeros_exact .p384 0 0 1 (by decide)
    (List.replicate 20 171) ⟨256 ^ 48, 0⟩
  refine ⟨(hzeros 28 (by decide)).2, ?_⟩
  have hlong : Curve.p384.fieldSize < natSize (256 ^ 48) :=
    Nat.not_le.mp fun hle => Nat.lt_irrefl _ (natSize_le_iff.mp hle)
  obtain ⟨verified, hsteps, -, hfalse⟩ := hverify .checked
  rw [hsteps, hfalse (.inl hlong)]

end Ecdsa

end Presign
