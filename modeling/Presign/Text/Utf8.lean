import Presign.Octets

/-!
# UTF-8

Texts as octets.  `encode` writes a text and `decode?` reads one, refusing
what is not well formed.  `decodeLossy` never refuses: each longest piece that
begins a character without completing it becomes U+FFFD, and so does each
octet that begins none.
-/

namespace Presign.Text

/-- The UTF-8 octets of a text. -/
def encode (s : String) : Octets := s.toUTF8.data.toList

/-- The text that well-formed UTF-8 octets write. -/
def decode? (bs : Octets) : Option String := String.fromUTF8? ⟨bs.toArray⟩

/-! ## Lossy decoding -/

/-- What a leading octet announces. -/
structure Lead where
  /-- The number of octets that continue the character. -/
  more : Nat
  /-- The bits of the character that the leading octet holds. -/
  bits : Nat
  /-- The least octet that may come second. -/
  low : UInt8
  /-- The greatest octet that may come second. -/
  high : UInt8

/-- The reading of a leading octet.  The bounds on the second octet keep out
overlong forms, surrogates and what lies above U+10FFFF. -/
def lead? (b : UInt8) : Option Lead :=
  let n := b.toNat
  if n < 0x80 then some ⟨0, n, 0, 0⟩
  else if 0xC2 ≤ n ∧ n ≤ 0xDF then some ⟨1, n - 0xC0, 0x80, 0xBF⟩
  else if n = 0xE0 then some ⟨2, 0, 0xA0, 0xBF⟩
  else if n = 0xED then some ⟨2, 0xD, 0x80, 0x9F⟩
  else if 0xE1 ≤ n ∧ n ≤ 0xEF then some ⟨2, n - 0xE0, 0x80, 0xBF⟩
  else if n = 0xF0 then some ⟨3, 0, 0x90, 0xBF⟩
  else if 0xF1 ≤ n ∧ n ≤ 0xF3 then some ⟨3, n - 0xF0, 0x80, 0xBF⟩
  else if n = 0xF4 then some ⟨3, 4, 0x80, 0x8F⟩
  else none

/-- Reads up to `more` continuing octets, of which the first lies between
`low` and `high`.  Gives the character number if all are there, and what is
left. -/
def continuation (more bits : Nat) (low high : UInt8) : Octets → Option Nat × Octets
  | [] => (if more = 0 then some bits else none, [])
  | b :: bs =>
    match more with
    | 0 => (some bits, b :: bs)
    | more + 1 =>
      if low ≤ b ∧ b ≤ high then continuation more (bits * 64 + b.toNat % 64) 0x80 0xBF bs
      else (none, b :: bs)

theorem length_continuation_le (more bits : Nat) (low high : UInt8) (bs : Octets) :
    (continuation more bits low high bs).2.length ≤ bs.length := by
  induction bs generalizing more bits low high with
  | nil => simp [continuation]
  | cons b bs ih =>
    cases more with
    | zero => simp [continuation]
    | succ more =>
      simp only [continuation]
      split
      · exact Nat.le_succ_of_le (ih ..)
      · exact Nat.le_refl _

/-- The characters of a sequence of octets, with U+FFFD for what is no
character. -/
def decodeLossyChars : Octets → List Char
  | [] => []
  | b :: bs =>
    match lead? b with
    | none => '\uFFFD' :: decodeLossyChars bs
    | some l =>
      let r := continuation l.more l.bits l.low l.high bs
      (match r.1 with
        | some n => Char.ofNat n
        | none => '\uFFFD') :: decodeLossyChars r.2
termination_by bs => bs.length
decreasing_by
  · simp
  · have := length_continuation_le l.more l.bits l.low l.high bs
    simp only [List.length_cons]
    omega

end Presign.Text
