import Mathlib.Data.List.Basic
import Presign.Text.Utf8

/-!
# Decoding of well-formed text

Nothing is lost when the octets of a text are decoded, with faults refused (`decode?_encode`) or
replaced (`decodeLossyChars_encode`).
The octets of a character are its leading octet and those that continue it, and
the bounds that a leading octet sets on the second one hold for every character:
overlong forms and what lies above U+10FFFF are not written, and surrogates are
no characters.

A character of ASCII is written by its own octet, and that octet is among those
of no other character (`eq_of_mem_utf8EncodeChar`).  So octets are searched for
it as characters are.
-/

namespace Presign.Text

/-! ## Octets of characters -/

theorem encode_ofList (cs : List Char) :
    encode (String.ofList cs) = cs.flatMap String.utf8EncodeChar := by
  rw [encode, String.toUTF8, String.toByteArray_ofList, List.utf8Encode, List.data_toByteArray]

theorem encode_eq_flatMap (s : String) : encode s = s.toList.flatMap String.utf8EncodeChar := by
  rw [← encode_ofList, String.ofList_toList]

/-- A text is read from its octets. -/
theorem decode?_encode (s : String) : decode? (encode s) = some s :=
  dif_pos s.isValidUTF8

theorem encode_inj {s t : String} : encode s = encode t ↔ s = t := by
  constructor
  · intro h
    have heq := decode?_encode s
    rwa [h, decode?_encode, Option.some.injEq, eq_comm] at heq
  · rintro rfl
    rfl

/-- What is read is a text whose octets they are. -/
theorem eq_encode_of_decode? {bs : Octets} {s : String} (h : decode? bs = some s) :
    bs = encode s := by
  unfold decode? String.fromUTF8? at h
  split at h
  next =>
    cases h
    rfl
  next => cases h

/-! ## Octets that continue a character -/

theorem continuation_zero (bits : Nat) (low high : UInt8) (bs : Octets) :
    continuation 0 bits low high bs = (some bits, bs) := by
  cases bs <;> rfl

theorem continuation_succ {low high b : UInt8} (hlow : low ≤ b) (hhigh : b ≤ high)
    (more bits : Nat) (bs : Octets) :
    continuation (more + 1) bits low high (b :: bs)
      = continuation more (bits * 64 + b.toNat % 64) 0x80 0xBF bs := by
  rw [continuation]
  exact if_pos ⟨hlow, hhigh⟩

theorem toNat_ofNat {n : Nat} (h : n < 256) : (UInt8.ofNat n).toNat = n := by
  rw [UInt8.toNat_ofNat', Nat.mod_eq_of_lt h]

/-- A second octet lies between the bounds that the leading one sets. -/
theorem continuation_ofNat {n : Nat} {low high : UInt8} (hn : n < 256) (hlow : low.toNat ≤ n)
    (hhigh : n ≤ high.toNat) (more bits : Nat) (bs : Octets) :
    continuation (more + 1) bits low high (UInt8.ofNat n :: bs)
      = continuation more (bits * 64 + n % 64) 0x80 0xBF bs := by
  rw [continuation_succ, toNat_ofNat hn]
  · rw [UInt8.le_iff_toNat_le, toNat_ofNat hn]
    exact hlow
  · rw [UInt8.le_iff_toNat_le, toNat_ofNat hn]
    exact hhigh

/-- A later octet holds six bits of the character. -/
theorem continuation_mod (more bits n : Nat) (bs : Octets) :
    continuation (more + 1) bits 0x80 0xBF (UInt8.ofNat (n % 64 + 128) :: bs)
      = continuation more (bits * 64 + n % 64) 0x80 0xBF bs := by
  have hlow : (0x80 : UInt8).toNat ≤ n % 64 + 128 := Nat.le_add_left ..
  have hhigh : n % 64 + 128 ≤ (0xBF : UInt8).toNat := by
    change n % 64 + 128 ≤ 191
    omega
  rw [continuation_ofNat (by omega) hlow hhigh]
  congr 2
  omega

/-! ## Characters -/

theorem decodeLossyChars_cons {b : UInt8} {l : Lead} {n : Nat} {bs r : Octets}
    (hlead : lead? b = some l)
    (hrest : continuation l.more l.bits l.low l.high bs = (some n, r)) :
    decodeLossyChars (b :: bs) = Char.ofNat n :: decodeLossyChars r := by
  rw [decodeLossyChars, hlead]
  dsimp only
  rw [hrest]

/-- What a leading octet announces, by its number. -/
theorem lead?_ofNat {n : Nat} (hn : n < 256) :
    lead? (UInt8.ofNat n) =
      if n < 0x80 then some ⟨0, n, 0, 0⟩
      else if 0xC2 ≤ n ∧ n ≤ 0xDF then some ⟨1, n - 0xC0, 0x80, 0xBF⟩
      else if n = 0xE0 then some ⟨2, 0, 0xA0, 0xBF⟩
      else if n = 0xED then some ⟨2, 0xD, 0x80, 0x9F⟩
      else if 0xE1 ≤ n ∧ n ≤ 0xEF then some ⟨2, n - 0xE0, 0x80, 0xBF⟩
      else if n = 0xF0 then some ⟨3, 0, 0x90, 0xBF⟩
      else if 0xF1 ≤ n ∧ n ≤ 0xF3 then some ⟨3, n - 0xF0, 0x80, 0xBF⟩
      else if n = 0xF4 then some ⟨3, 4, 0x80, 0x8F⟩
      else none := by
  rw [lead?, toNat_ofNat hn]

/-- The leading octet of three announces what follows it. -/
theorem exists_lead_three {v : Nat} (hlow : 0x800 ≤ v) (hhigh : v ≤ 0xFFFF)
    (hvalid : ¬ (0xD800 ≤ v ∧ v ≤ 0xDFFF)) :
    ∃ low high, lead? (UInt8.ofNat (v / 4096 % 16 + 224)) = some ⟨2, v / 4096, low, high⟩ ∧
      low.toNat ≤ v / 64 % 64 + 128 ∧ v / 64 % 64 + 128 ≤ high.toNat := by
  have hn : v / 4096 % 16 + 224 = v / 4096 + 0xE0 := by omega
  rw [hn, lead?_ofNat (by omega), if_neg (by omega), if_neg (by omega)]
  by_cases hfirst : v / 4096 = 0
  · refine ⟨0xA0, 0xBF, by rw [if_pos (by omega), hfirst], ?_, ?_⟩
    · change 160 ≤ _
      omega
    · change _ ≤ 191
      omega
  · rw [if_neg (by omega)]
    by_cases hsurrogates : v / 4096 = 0xD
    · refine ⟨0x80, 0x9F, by rw [if_pos (by omega), hsurrogates], Nat.le_add_left .., ?_⟩
      change _ ≤ 159
      omega
    · refine ⟨0x80, 0xBF, ?_, Nat.le_add_left .., ?_⟩
      · rw [if_neg (by omega), if_pos (by omega), Nat.add_sub_cancel]
      · change _ ≤ 191
        omega

/-- The leading octet of four announces what follows it. -/
theorem exists_lead_four {v : Nat} (hlow : 0x10000 ≤ v) (hhigh : v ≤ 0x10FFFF) :
    ∃ low high, lead? (UInt8.ofNat (v / 262144 % 8 + 240)) = some ⟨3, v / 262144, low, high⟩ ∧
      low.toNat ≤ v / 4096 % 64 + 128 ∧ v / 4096 % 64 + 128 ≤ high.toNat := by
  have hn : v / 262144 % 8 + 240 = v / 262144 + 0xF0 := by omega
  rw [hn, lead?_ofNat (by omega), if_neg (by omega), if_neg (by omega), if_neg (by omega),
    if_neg (by omega), if_neg (by omega)]
  by_cases hfirst : v / 262144 = 0
  · refine ⟨0x90, 0xBF, by rw [if_pos (by omega), hfirst], ?_, ?_⟩
    · change 144 ≤ _
      omega
    · change _ ≤ 191
      omega
  · rw [if_neg (by omega)]
    by_cases hlast : v / 262144 = 4
    · refine ⟨0x80, 0x8F, ?_, Nat.le_add_left .., ?_⟩
      · rw [if_neg (by omega), if_pos (by omega), hlast]
      · change _ ≤ 143
        omega
    · refine ⟨0x80, 0xBF, ?_, Nat.le_add_left .., ?_⟩
      · rw [if_pos (by omega), Nat.add_sub_cancel]
      · change _ ≤ 191
        omega

/-- The octets of a character are decoded to it. -/
theorem decodeLossyChars_utf8EncodeChar (c : Char) (rest : Octets) :
    decodeLossyChars (String.utf8EncodeChar c ++ rest) = c :: decodeLossyChars rest := by
  have hvalid : c.val.toNat < 0xD800 ∨ 0xDFFF < c.val.toNat ∧ c.val.toNat < 0x110000 := c.valid
  have hnat : Char.ofNat c.val.toNat = c := Char.ofNat_toNat c
  unfold String.utf8EncodeChar
  dsimp only
  generalize c.val.toNat = v at hvalid hnat ⊢
  split
  · rename_i hv
    have hlead : lead? (UInt8.ofNat v) = some ⟨0, v, 0, 0⟩ := by
      rw [lead?_ofNat (by omega), if_pos (by omega)]
    rw [List.cons_append, decodeLossyChars_cons hlead (continuation_zero ..), hnat,
      List.nil_append]
  · split
    · rename_i hone htwo
      have hlead : lead? (UInt8.ofNat (v / 64 % 32 + 192)) = some ⟨1, v / 64, 0x80, 0xBF⟩ := by
        rw [show v / 64 % 32 + 192 = v / 64 + 0xC0 by omega, lead?_ofNat (by omega),
          if_neg (by omega), if_pos (by omega), Nat.add_sub_cancel]
      rw [List.cons_append, decodeLossyChars_cons hlead (n := v) (r := rest), hnat]
      rw [List.cons_append, continuation_mod, continuation_zero]
      dsimp only
      congr 2
      omega
    · split
      · rename_i hone htwo hthree
        obtain ⟨low, high, hlead, hlow, hhigh⟩ :=
          exists_lead_three (by omega) (by omega) (v := v) (by omega)
        rw [List.cons_append, decodeLossyChars_cons hlead (n := v) (r := rest), hnat]
        rw [List.cons_append, continuation_ofNat (by omega) hlow hhigh, List.cons_append,
          continuation_mod, continuation_zero]
        dsimp only
        congr 2
        omega
      · rename_i hone htwo hthree
        obtain ⟨low, high, hlead, hlow, hhigh⟩ := exists_lead_four (v := v) (by omega) (by omega)
        rw [List.cons_append, decodeLossyChars_cons hlead (n := v) (r := rest), hnat]
        rw [List.cons_append, continuation_ofNat (by omega) hlow hhigh, List.cons_append,
          continuation_mod, List.cons_append, continuation_mod, continuation_zero]
        dsimp only
        congr 2
        omega

/-- The octets of a text are decoded to its characters. -/
theorem decodeLossyChars_encode (s : String) : decodeLossyChars (encode s) = s.toList := by
  rw [encode_eq_flatMap]
  induction s.toList with
  | nil => rw [List.flatMap_nil, decodeLossyChars]
  | cons c cs ih => rw [List.flatMap_cons, decodeLossyChars_utf8EncodeChar, ih]

/-! ## Characters of ASCII -/

theorem utf8EncodeChar_of_lt {c : Char} (h : c.toNat < 128) :
    String.utf8EncodeChar c = [UInt8.ofNat c.toNat] := by
  unfold String.utf8EncodeChar
  exact if_pos (Nat.le_of_lt_succ h)

/-- An octet of ASCII is among those of no other character. -/
theorem eq_of_mem_utf8EncodeChar {c d : Char} (hd : d.toNat < 128)
    (h : UInt8.ofNat d.toNat ∈ String.utf8EncodeChar c) : c = d := by
  have heq : ∀ n < 256, UInt8.ofNat d.toNat = UInt8.ofNat n → d.toNat = n := by
    intro n hn he
    have hnat := congrArg UInt8.toNat he
    rwa [toNat_ofNat (by omega), toNat_ofNat hn] at hnat
  have hc : d.toNat = c.toNat := by
    unfold String.utf8EncodeChar at h
    dsimp only at h
    change UInt8.ofNat d.toNat ∈ (if c.toNat ≤ 127 then [UInt8.ofNat c.toNat] else _) at h
    split at h
    · exact heq _ (by omega) (List.mem_singleton.mp h)
    · exfalso
      split at h
      · simp only [List.mem_cons, List.not_mem_nil, or_false] at h
        rcases h with h | h <;> have := heq _ (by omega) h <;> omega
      · split at h
        · simp only [List.mem_cons, List.not_mem_nil, or_false] at h
          rcases h with h | h | h <;> have := heq _ (by omega) h <;> omega
        · simp only [List.mem_cons, List.not_mem_nil, or_false] at h
          rcases h with h | h | h | h <;> have := heq _ (by omega) h <;> omega
  rw [← Char.ofNat_toNat c, ← hc, Char.ofNat_toNat]

/-- The octets of a text are free of a character of ASCII if the text is. -/
theorem ne_of_mem_flatMap {d : Char} (hd : d.toNat < 128) {cs : List Char} (h : d ∉ cs) :
    ∀ b ∈ cs.flatMap String.utf8EncodeChar, (b != UInt8.ofNat d.toNat) = true := by
  intro b hb
  obtain ⟨c, hc, hbc⟩ := List.mem_flatMap.mp hb
  rw [bne_iff_ne]
  rintro rfl
  exact h (eq_of_mem_utf8EncodeChar hd hbc ▸ hc)

/-- The octets up to a character of ASCII are those of the characters up to it. -/
theorem takeWhile_flatMap {d : Char} (hd : d.toNat < 128) (cs : List Char) (rest : Octets) :
    (cs.flatMap String.utf8EncodeChar ++ UInt8.ofNat d.toNat :: rest).takeWhile
        (· != UInt8.ofNat d.toNat)
      = (cs.takeWhile (· != d)).flatMap String.utf8EncodeChar := by
  induction cs with
  | nil => simp
  | cons c cs ih =>
      rw [List.flatMap_cons, List.append_assoc]
      by_cases hc : c = d
      · subst hc
        rw [utf8EncodeChar_of_lt hd, List.takeWhile_cons_of_neg (by simp)]
        simp
      · have hfree : ∀ b ∈ String.utf8EncodeChar c, (b != UInt8.ofNat d.toNat) = true := by
          have hnot : d ∉ [c] := by simpa using Ne.symm hc
          simpa using ne_of_mem_flatMap hd hnot
        rw [List.takeWhile_append_of_pos hfree, ih, List.takeWhile_cons_of_pos (by simpa using hc),
          List.flatMap_cons]

end Presign.Text
