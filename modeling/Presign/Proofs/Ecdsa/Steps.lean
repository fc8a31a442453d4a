import Presign.Proofs.Ecdsa.Width

/-!
# Steps that a conversion cannot carry out

`Codec.toFixedWidth` computes with numbers and lists.  The steps behind it can go wrong in
ways that these do not show: a sum may be no word, a difference may lie below zero, a buffer
may be cut into blocks of no octets, and a number may be longer than its block.  Here the
conversion is taken apart into such steps.  A result that is no word either stops it or is
reduced (`Arithmetic`); anything else that goes wrong stops it.

Most steps are safe.  A width that is tried against two numbers holds both of them, and it
is an eighth of a word, so that no sum, product or difference of sizes leaves the words, and
each number has its place in its block.

Two steps are not (`Arithmetic.convert_stops_iff`).  A key length may be so close to the
largest word that it cannot be rounded up, and the search comes to it if none of the other
key lengths fits.  And the width that is picked may be zero, for a pair of zeros and the key
length zero, or one whose sum was reduced.  In any other case the answer is that of
`Codec.toFixedWidth`, and blocks that are written are read back.
-/

namespace Presign.Ecdsa

open Octets Codec

/-! ## Steps -/

/-- Why a step cannot be carried out. -/
inductive Stop where
  /-- A result is no word. -/
  | overflow
  /-- A buffer is larger than any can be. -/
  | buffer
  /-- A buffer is to be cut into blocks of no octets. -/
  | emptyBlocks
  /-- A number does not end where its block does. -/
  | place
deriving DecidableEq

/-- What becomes of a result that is no word. -/
inductive Arithmetic where
  /-- It stops the conversion. -/
  | checked
  /-- It is reduced. -/
  | wrapping
deriving DecidableEq

namespace Arithmetic

/-- A result as a word. -/
def word (m : Arithmetic) (z : Int) : Except Stop Nat :=
  if 0 ≤ z ∧ z < 2 ^ 64 then .ok z.toNat
  else match m with
    | .checked => .error .overflow
    | .wrapping => .ok (z % 2 ^ 64).toNat

/-- The width of a key length. -/
def width (m : Arithmetic) (bits : UInt64) : Except Stop Nat := do
  return (← m.word (bits.toNat + 7)) / 8

/-- Whether a width fits two numbers of given sizes.  Sizes are only added and subtracted
if both are held. -/
def fits (m : Arithmetic) (rSize sSize w : Nat) : Except Stop Bool :=
  if rSize ≤ w ∧ sSize ≤ w then do
    let both ← m.word (2 * w)
    let used ← m.word (rSize + sSize)
    let zeros ← m.word (both - used)
    return zeros < 4
  else .ok false

/-- The first width that fits.  No key length behind it is looked at. -/
def pick? (m : Arithmetic) (rSize sSize : Nat) : List UInt64 → Except Stop (Option Nat)
  | [] => .ok none
  | bits :: lengths => do
    let w ← m.width bits
    if ← m.fits rSize sSize w then return some w else m.pick? rSize sSize lengths

/-- A block of zeros with a number put at its end.  Zero is not put. -/
def block (m : Arithmetic) (w n : Nat) : Except Stop Octets :=
  if n = 0 then .ok (List.replicate w 0)
  else do
    let start ← m.word (w - (Octets.ofNat n).length)
    if start ≤ w ∧ w - start = (Octets.ofNat n).length then
      return List.replicate start 0 ++ Octets.ofNat n
    else .error .place

/-- The two numbers in blocks of one width.  The buffer for both is made first. -/
def write (m : Arithmetic) (v : Value) (w : Nat) : Except Stop Octets := do
  let size ← m.word (2 * w)
  if 2 ^ 63 ≤ size then .error .buffer
  else if w = 0 then .error .emptyBlocks
  else return (← m.block w v.r) ++ (← m.block w v.s)

/-- The conversion, step by step.  A pair may be refused without a step that stops. -/
def convert (m : Arithmetic) (c : Codec) (v : Value) :
    Except Stop (Except ValueError Octets) := do
  match ← m.pick? (natSize v.r) (natSize v.s) c.keyLengths with
  | none => return .error (.unsupportedKeyLength (natSize v.r) (natSize v.s) c.keyLengths)
  | some w => return .ok (← m.write v w)

/-! ## Single steps -/

variable {m : Arithmetic} {n : UInt64} {ms ns lengths : List UInt64} {v : Value}
  {w rSize sSize : Nat}

theorem word_eq {z : Int} {k : Nat} (hz : z = k) (hk : k < 2 ^ 64) : m.word z = .ok k := by
  unfold word
  rw [if_pos ⟨by omega, by omega⟩, hz, Int.toNat_natCast]

theorem width_of_isRoomy (h : IsRoomy n) : m.width n = .ok (Codec.width n) := by
  have hword : m.word (n.toNat + 7) = .ok (n.toNat + 7) := word_eq rfl h
  rw [width, hword, width_eq h, Nat.ceilDiv_eq_add_pred_div]
  rfl

theorem width_checked_of_not_isRoomy (h : ¬ IsRoomy n) : checked.width n = .error .overflow := by
  have hword : checked.word (n.toNat + 7) = .error .overflow := by
    unfold IsRoomy at h
    rw [word, if_neg (by omega)]
  rw [width, hword]
  rfl

theorem width_wrapping (n : UInt64) : wrapping.width n = .ok (Codec.width n) := by
  by_cases h : IsRoomy n
  · exact width_of_isRoomy h
  · have hword : wrapping.word (n.toNat + 7) = .ok ((n.toNat + 7) % 2 ^ 64) := by
      unfold IsRoomy at h
      rw [word, if_neg (by omega)]
      exact congrArg Except.ok (Int.toNat_natCast _)
    rw [width, hword, Codec.width, UInt64.toNat_div, UInt64.toNat_add]
    rfl

theorem width_eq_zero (h : ¬ IsRoomy n) : Codec.width n = 0 := by
  have hlt := n.toNat_lt
  unfold IsRoomy at h
  rw [Codec.width, UInt64.toNat_div, UInt64.toNat_add]
  change (n.toNat + 7) % 2 ^ 64 / 8 = 0
  omega

theorem width_lt (n : UInt64) : Codec.width n < 2 ^ 61 := by
  have hlt := (n + 7).toNat_lt
  rw [Codec.width, UInt64.toNat_div]
  change (n + 7).toNat / 8 < 2 ^ 61
  omega

/-- The sizes of two numbers that a width holds can be added and subtracted. -/
theorem fits_eq (hw : w < 2 ^ 61) : m.fits rSize sSize w = .ok (Codec.fits rSize sSize w) := by
  unfold fits Codec.fits
  split
  next hholds =>
    obtain ⟨hr, hs⟩ := hholds
    have hboth : m.word (2 * w) = .ok (2 * w) := word_eq (by omega) (by omega)
    have hused : m.word (rSize + sSize) = .ok (rSize + sSize) := word_eq (by omega) (by omega)
    have hzeros : m.word (((2 * w : Nat) : Int) - ((rSize + sSize : Nat) : Int))
        = .ok (2 * w - (rSize + sSize)) := word_eq (by omega) (by omega)
    rw [hboth, Except.ok_bind, hused, Except.ok_bind, hzeros, Except.ok_bind]
    simp [hr, hs, pure, Except.pure]
  next hholds =>
    have hnot : (decide (rSize ≤ w) && decide (sSize ≤ w)) = false := by simpa using hholds
    rw [hnot, Bool.false_and]

/-- A number that its block holds has its place in it. -/
theorem block_eq {k : Nat} (hk : k < 256 ^ w) (hw : w < 2 ^ 64) :
    m.block w k = .ok (ofNatWidth w k) := by
  have hle : (Octets.ofNat k).length ≤ w := natSize_le hk
  rw [ofNatWidth_eq_padLeft hk, padLeft, block]
  split
  next hzero =>
    subst hzero
    simp [Octets.ofNat]
  next hne =>
    have hstart : m.word ((w : Int) - ((Octets.ofNat k).length : Int))
        = .ok (w - (Octets.ofNat k).length) := word_eq (by omega) (by omega)
    rw [hstart, Except.ok_bind, if_pos ⟨Nat.sub_le .., Nat.sub_sub_self hle⟩]
    rfl

/-- Blocks of a width that fits are written, if they have octets. -/
theorem write_eq (hfits : v.FitsIn w) (hw : w < 2 ^ 61) :
    m.write v w = if w = 0 then .error .emptyBlocks else .ok (v.blocks w) := by
  have hsize : m.word (2 * w) = .ok (2 * w) := word_eq (by omega) (by omega)
  rw [write, hsize, Except.ok_bind, if_neg (by omega),
    block_eq (natSize_le_iff.mp hfits.r) (by omega),
    block_eq (natSize_le_iff.mp hfits.s) (by omega)]
  rfl

/-! ## The search -/

/-- Key lengths that can be rounded up are searched as in `Codec.blockSize`, and those behind
them only if none fits. -/
theorem pick?_append (h : ∀ n ∈ ms, m.width n = .ok (Codec.width n)) :
    m.pick? rSize sSize (ms ++ ns)
      = match (ms.map Codec.width).find? (Codec.fits rSize sSize) with
        | some w => .ok (some w)
        | none => m.pick? rSize sSize ns := by
  induction ms with
  | nil => rfl
  | cons n ms ih =>
      obtain ⟨hn, hrest⟩ := List.forall_mem_cons.mp h
      rw [List.cons_append, pick?, hn, Except.ok_bind, fits_eq (width_lt n), Except.ok_bind,
        List.map_cons]
      cases hfits : Codec.fits rSize sSize (Codec.width n) with
      | true =>
          rw [List.find?_cons_of_pos hfits]
          rfl
      | false =>
          rw [List.find?_cons_of_neg (by simp [hfits])]
          exact ih hrest

theorem pick?_eq (h : ∀ n ∈ ns, m.width n = .ok (Codec.width n)) :
    m.pick? rSize sSize ns = .ok ((ns.map Codec.width).find? (Codec.fits rSize sSize)) := by
  rw [← List.append_nil ns, pick?_append h, List.append_nil]
  split
  next w hw => rw [hw]
  next hnone =>
    rw [hnone]
    rfl

/-! ## Key lengths that cannot be rounded up -/

instance (n : UInt64) : Decidable (IsRoomy n) := inferInstanceAs (Decidable (_ < _))

/-- The key lengths that can be rounded up. -/
def roomy (ns : List UInt64) : List UInt64 := ns.filter fun n => IsRoomy n

theorem mem_roomy : n ∈ roomy ns ↔ n ∈ ns ∧ IsRoomy n := by
  rw [roomy, List.mem_filter, decide_eq_true_eq]

theorem isRoomy_of_mem_roomy : ∀ n ∈ roomy ns, IsRoomy n := by
  intro n hn
  exact (mem_roomy.mp hn).2

theorem width_of_mem_keyLengths :
    ∀ n ∈ (ofKeyLengths (roomy lengths)).keyLengths, m.width n = .ok (Codec.width n) := by
  intro n hn
  exact width_of_isRoomy (isRoomy_of_mem_roomy n (mem_keyLengths.mp hn))

/-- Key lengths that cannot be rounded up stand behind all others. -/
theorem exists_eq_roomy_append (h : ns.Pairwise (· < ·)) :
    ∃ crowded, ns = roomy ns ++ crowded ∧ ∀ n ∈ crowded, ¬ IsRoomy n := by
  induction ns with
  | nil => exact ⟨[], rfl, fun n hn => by cases hn⟩
  | cons k ns ih =>
      obtain ⟨hk, hrest⟩ := List.pairwise_cons.mp h
      by_cases hroomy : IsRoomy k
      · obtain ⟨crowded, heq, hcrowded⟩ := ih hrest
        refine ⟨crowded, ?_, hcrowded⟩
        rw [roomy, List.filter_cons_of_pos (by simpa using hroomy), List.cons_append]
        exact congrArg _ heq
      · have hall : ∀ n ∈ k :: ns, ¬ IsRoomy n := by
          intro n hn
          rcases List.mem_cons.mp hn with rfl | hn
          · exact hroomy
          · have hlt := UInt64.lt_iff_toNat_lt.mp (hk n hn)
            unfold IsRoomy at hroomy ⊢
            omega
        have hnil : roomy (k :: ns) = [] :=
          List.filter_eq_nil_iff.mpr fun n hn => by simpa using hall n hn
        exact ⟨k :: ns, by rw [hnil, List.nil_append], hall⟩

/-- The key lengths of a converter: first those that can be rounded up, then the others. -/
theorem exists_keyLengths_eq (lengths : List UInt64) :
    ∃ crowded, (ofKeyLengths lengths).keyLengths
        = (ofKeyLengths (roomy lengths)).keyLengths ++ crowded ∧
      (∀ n ∈ crowded, ¬ IsRoomy n) ∧ (crowded ≠ [] ↔ ∃ n ∈ lengths, ¬ IsRoomy n) := by
  obtain ⟨crowded, heq, hcrowded⟩ := exists_eq_roomy_append (pairwise_keyLengths lengths)
  have hroomy : roomy (ofKeyLengths lengths).keyLengths
      = (ofKeyLengths (roomy lengths)).keyLengths := by
    refine eq_of_mem_iff ((pairwise_keyLengths lengths).filter _) (pairwise_keyLengths _) ?_
    intro n
    rw [mem_roomy, mem_keyLengths, mem_keyLengths, mem_roomy]
  refine ⟨crowded, hroomy ▸ heq, hcrowded, fun hne => ?_, ?_⟩
  · obtain ⟨n, hn⟩ := List.exists_mem_of_ne_nil crowded hne
    exact ⟨n, mem_keyLengths.mp (heq ▸ List.mem_append_right _ hn), hcrowded n hn⟩
  · rintro ⟨n, hn, hcramped⟩ rfl
    rw [List.append_nil] at heq
    exact hcramped (isRoomy_of_mem_roomy n (heq ▸ mem_keyLengths.mpr hn))

/-- The search comes to a key length that cannot be rounded up: there is one, and no other
key length has a width that fits. -/
def Overruns (lengths : List UInt64) (v : Value) : Prop :=
  (∃ n ∈ lengths, ¬ IsRoomy n) ∧ ¬ ∃ w, Offers (roomy lengths) v w

theorem pick?_of_overruns (h : Overruns lengths v) :
    checked.pick? (natSize v.r) (natSize v.s) (ofKeyLengths lengths).keyLengths
      = .error .overflow := by
  obtain ⟨crowded, heq, hcrowded, hne⟩ := exists_keyLengths_eq lengths
  obtain ⟨k, rest, rfl⟩ := List.exists_cons_of_ne_nil (hne.mpr h.1)
  have hfirst := (find?_widths_eq_none_iff isRoomy_of_mem_roomy).mpr h.2
  rw [widths] at hfirst
  rw [heq, pick?_append width_of_mem_keyLengths, hfirst]
  change checked.pick? _ _ (k :: rest) = _
  rw [pick?, width_checked_of_not_isRoomy (hcrowded k (List.mem_cons_self ..))]
  rfl

theorem pick?_of_not_overruns (h : m = .checked → ¬ Overruns lengths v) :
    m.pick? (natSize v.r) (natSize v.s) (ofKeyLengths lengths).keyLengths
      = .ok ((ofKeyLengths lengths).widths.find? (Codec.fits (natSize v.r) (natSize v.s))) := by
  cases m with
  | wrapping => exact pick?_eq fun n _ => width_wrapping n
  | checked =>
      obtain ⟨crowded, heq, hcrowded, hne⟩ := exists_keyLengths_eq lengths
      rw [widths, heq, pick?_append width_of_mem_keyLengths, List.map_append, List.find?_append]
      split
      next w hw =>
        rw [hw]
        rfl
      next hnone =>
        have hnil : crowded = [] := by
          by_contra hcramped
          have hoffers := (find?_widths_eq_none_iff isRoomy_of_mem_roomy).mp hnone
          exact h rfl ⟨hne.mp hcramped, hoffers⟩
        subst hnil
        rw [hnone]
        rfl

/-! ## The width zero -/

theorem fitsIn_zero_iff : v.FitsIn 0 ↔ v = ⟨0, 0⟩ := by
  constructor
  · intro h
    have hr := natSize_le_iff.mp h.r
    have hs := natSize_le_iff.mp h.s
    cases v with
    | mk r s => simp_all
  · rintro rfl
    exact ⟨natSize_le_iff.mpr Nat.one_pos, natSize_le_iff.mpr Nat.one_pos, by omega⟩

theorem offers_zero_iff : Offers lengths v 0 ↔ 0 ∈ lengths ∧ v = ⟨0, 0⟩ := by
  rw [Offers, fitsIn_zero_iff]
  refine and_congr_left fun _ => ⟨?_, fun hzero => ⟨0, hzero, by decide⟩⟩
  rintro ⟨n, hn, hwidth⟩
  rw [Nat.ceilDiv_eq_add_pred_div] at hwidth
  have hn0 : n = 0 := UInt64.toNat_inj.mp (by change n.toNat = 0; omega)
  exact hn0 ▸ hn

theorem zero_mem_roomy : 0 ∈ roomy lengths ↔ 0 ∈ lengths := by
  rw [mem_roomy, and_iff_left (by decide)]

theorem Overruns.zero_not_mem (h : Overruns lengths v) (hv : v = ⟨0, 0⟩) : 0 ∉ lengths := by
  intro hzero
  exact h.2 ⟨0, offers_zero_iff.mpr ⟨zero_mem_roomy.mpr hzero, hv⟩⟩

/-- The width of key lengths that cannot be rounded up is zero. -/
theorem find?_eq_zero_iff {p : Nat → Bool} (h : ∀ n ∈ ns, ¬ IsRoomy n) :
    (ns.map Codec.width).find? p = some 0 ↔ ns ≠ [] ∧ p 0 = true := by
  constructor
  · intro hfind
    refine ⟨?_, List.find?_some hfind⟩
    rintro rfl
    cases hfind
  · rintro ⟨hne, hzero⟩
    obtain ⟨k, rest, rfl⟩ := List.exists_cons_of_ne_nil hne
    rw [List.map_cons, width_eq_zero (h k (List.mem_cons_self ..)), List.find?_cons_of_pos hzero]

/-- The width zero is picked for a pair of zeros only, and there for the key length zero or
for one that cannot be rounded up. -/
theorem blockSize_eq_zero_iff : (ofKeyLengths lengths).blockSize v = .ok 0
    ↔ v = ⟨0, 0⟩ ∧ (0 ∈ lengths ∨ Overruns lengths v) := by
  obtain ⟨crowded, heq, hcrowded, hne⟩ := exists_keyLengths_eq lengths
  rw [blockSize_eq_ok_iff, widths, heq, List.map_append, List.find?_append]
  cases hfirst : (ofKeyLengths (roomy lengths)).widths.find?
      (Codec.fits (natSize v.r) (natSize v.s)) with
  | some w =>
      have hleast := (find?_widths_eq_some_iff isRoomy_of_mem_roomy).mp hfirst
      have hstays : ¬ Overruns lengths v := fun hover => hover.2 ⟨w, hleast.1⟩
      rw [widths] at hfirst
      rw [hfirst, Option.some_or, Option.some.injEq, or_iff_left hstays]
      constructor
      · rintro rfl
        obtain ⟨hzero, hv⟩ := offers_zero_iff.mp hleast.1
        exact ⟨hv, zero_mem_roomy.mp hzero⟩
      · rintro ⟨hv, hzero⟩
        exact Nat.le_zero.mp (hleast.2 (offers_zero_iff.mpr ⟨zero_mem_roomy.mpr hzero, hv⟩))
  | none =>
      have hnone := (find?_widths_eq_none_iff isRoomy_of_mem_roomy).mp hfirst
      have hover : Overruns lengths v ↔ crowded ≠ [] := by rw [Overruns, and_iff_left hnone, hne]
      rw [widths] at hfirst
      rw [hfirst, Option.none_or, find?_eq_zero_iff hcrowded, fits_iff, fitsIn_zero_iff, hover]
      constructor
      · rintro ⟨hcramped, hv⟩
        exact ⟨hv, .inr hcramped⟩
      · rintro ⟨hv, hzero | hcramped⟩
        · exact absurd ⟨0, offers_zero_iff.mpr ⟨zero_mem_roomy.mpr hzero, hv⟩⟩ hnone
        · exact ⟨hcramped, hv⟩

/-! ## The conversion -/

/-- What becomes of an answer: blocks of no octets stop the conversion. -/
def answered : Except ValueError Octets → Except Stop (Except ValueError Octets)
  | .error .noBlocks => .error .emptyBlocks
  | answer => .ok answer

theorem answered_eq_error_iff {answer : Except ValueError Octets} {stop : Stop} :
    answered answer = .error stop ↔ stop = .emptyBlocks ∧ answer = .error .noBlocks := by
  unfold answered
  split
  next => simp [eq_comm]
  next hblocks =>
    constructor
    · intro h
      cases h
    · rintro ⟨-, h⟩
      exact absurd h hblocks

theorem eq_of_answered {answer answer' : Except ValueError Octets}
    (h : answered answer = .ok answer') : answer' = answer := by
  unfold answered at h
  split at h
  next => cases h
  next =>
    cases h
    rfl

theorem toFixedWidth_eq_noBlocks_iff {c : Codec} :
    c.toFixedWidth v = .error .noBlocks ↔ c.blockSize v = .ok 0 := by
  unfold toFixedWidth
  rw [blockSize_eq]
  split
  next w hw =>
    rw [Except.ok_bind]
    by_cases hzero : w = 0
    · simp [hzero]
    · simp [hzero, pure, Except.pure]
  next hnone => simp [bind, Except.bind]

theorem convert_of_overruns (h : Overruns lengths v) :
    checked.convert (ofKeyLengths lengths) v = .error .overflow := by
  rw [convert, pick?_of_overruns h]
  rfl

/-- A conversion that no key length stops gives the answer of `Codec.toFixedWidth`. -/
theorem convert_of_not_overruns (h : m = .checked → ¬ Overruns lengths v) :
    m.convert (ofKeyLengths lengths) v = answered ((ofKeyLengths lengths).toFixedWidth v) := by
  rw [convert, pick?_of_not_overruns h, Except.ok_bind, toFixedWidth, blockSize_eq]
  cases hfound : (ofKeyLengths lengths).widths.find?
      (Codec.fits (natSize v.r) (natSize v.s)) with
  | none => rfl
  | some w =>
      obtain ⟨n, -, rfl⟩ := List.mem_map.mp (List.mem_of_find?_eq_some hfound)
      have hwrite := write_eq (m := m) (fits_iff.mp (List.find?_some hfound)) (width_lt n)
      simp only [hwrite, Except.ok_bind]
      split
      next => rfl
      next => rfl

/-- The conversion stops in two cases: if no key length fits before one that cannot be
rounded up, and the sum is not reduced; and if the width of a pair of zeros is zero, by the
key length zero or by such a sum that is reduced.  Otherwise the answer is that of
`Codec.toFixedWidth`, and what is written is read back. -/
theorem convert_stops_iff (m : Arithmetic) (lengths : List UInt64) (v : Value) :
    (∀ stop, m.convert (ofKeyLengths lengths) v = .error stop ↔
      (stop = .overflow ∧ m = .checked ∧ Overruns lengths v) ∨
      (stop = .emptyBlocks ∧ v = ⟨0, 0⟩ ∧ (0 ∈ lengths ∨ m = .wrapping ∧ Overruns lengths v))) ∧
    ∀ answer, m.convert (ofKeyLengths lengths) v = .ok answer →
      answer = (ofKeyLengths lengths).toFixedWidth v ∧
        ∀ bs, answer = .ok bs → Value.ofFixedWidth bs = .ok v := by
  by_cases hover : m = .checked ∧ Overruns lengths v
  · obtain ⟨rfl, hover⟩ := hover
    rw [convert_of_overruns hover]
    refine ⟨fun stop => ?_, fun answer h => by cases h⟩
    constructor
    · intro h
      cases h
      exact .inl ⟨rfl, rfl, hover⟩
    · rintro (⟨rfl, -, -⟩ | ⟨-, hv, hmem | ⟨hwrapping, -⟩⟩)
      · rfl
      · exact absurd hmem (hover.zero_not_mem hv)
      · cases hwrapping
  · rw [convert_of_not_overruns fun hm ho => hover ⟨hm, ho⟩]
    refine ⟨fun stop => ?_, fun answer h => ?_⟩
    · have hchecked : ¬ (stop = .overflow ∧ m = .checked ∧ Overruns lengths v) :=
        fun h => hover h.2
      rw [answered_eq_error_iff, toFixedWidth_eq_noBlocks_iff, blockSize_eq_zero_iff,
        or_iff_right hchecked]
      refine and_congr_right fun _ => and_congr_right fun _ => or_congr_right ?_
      cases m with
      | checked => simpa using hover
      | wrapping => simp
    · obtain rfl := eq_of_answered h
      refine ⟨rfl, fun bs hbs => ?_⟩
      obtain ⟨w, hw, hne, rfl⟩ := toFixedWidth_eq_ok_iff.mp hbs
      obtain ⟨hr, hs⟩ := lt_of_blockSize hw
      exact Value.ofFixedWidth_eq_ok_iff.mpr ⟨w, hne, hr, hs, rfl⟩

/-- For example, a pair of zeros and the key length zero stop every conversion.  With the
largest key length a conversion that does not reduce stops for any pair, and one that does
stops for a pair of zeros. -/
theorem convert_stopped :
    checked.convert (ofKeyLengths [0]) ⟨0, 0⟩ = .error .emptyBlocks ∧
      wrapping.convert (ofKeyLengths [0]) ⟨0, 0⟩ = .error .emptyBlocks ∧
      checked.convert (ofKeyLengths [18446744073709551615]) ⟨1, 1⟩ = .error .overflow ∧
      wrapping.convert (ofKeyLengths [18446744073709551615]) ⟨0, 0⟩ = .error .emptyBlocks := by
  rw [ofKeyLengths_of_pairwise (List.pairwise_singleton ..),
    ofKeyLengths_of_pairwise (List.pairwise_singleton ..)]
  decide +kernel

end Arithmetic

end Presign.Ecdsa
