import Mathlib.Data.List.Basic
import Presign.Base64

/-!
# Reading Base64

What is written is read back (`decode?_encode`): each group of three octets from
its four digits, and the last one or two from what their group holds of them.
The octets that are written are digits and padding (`isWritten_of_mem_encode`).
-/

namespace Presign.Base64

/-! ## Digits -/

theorem value?_symbol : ∀ n < 64, value? (symbol n) = some n := by
  decide

theorem symbol_ne_pad : ∀ n < 64, symbol n ≠ pad := by
  decide

/-! ## Groups -/

/-- Three octets are got back from their digits. -/
theorem decode?_group (a b c : UInt8) (rest : Octets) {bs : Octets}
    (h : decode? rest = some bs) :
    decode? (symbol (((a.toNat * 256 + b.toNat) * 256 + c.toNat) / 262144)
        :: symbol (((a.toNat * 256 + b.toNat) * 256 + c.toNat) / 4096 % 64)
        :: symbol (((a.toNat * 256 + b.toNat) * 256 + c.toNat) / 64 % 64)
        :: symbol (((a.toNat * 256 + b.toNat) * 256 + c.toNat) % 64) :: rest)
      = some (a :: b :: c :: bs) := by
  have ha := a.toNat_lt
  have hb := b.toNat_lt
  have hc := c.toNat_lt
  generalize hn : (a.toNat * 256 + b.toNat) * 256 + c.toNat = n
  have hfirst : UInt8.ofNat (n / 262144 * 4 + n / 4096 % 64 / 16) = a := by
    rw [show n / 262144 * 4 + n / 4096 % 64 / 16 = a.toNat by omega, UInt8.ofNat_toNat]
  have hsecond : UInt8.ofNat (n / 4096 % 64 % 16 * 16 + n / 64 % 64 / 4) = b := by
    rw [show n / 4096 % 64 % 16 * 16 + n / 64 % 64 / 4 = b.toNat by omega, UInt8.ofNat_toNat]
  have hthird : UInt8.ofNat (n / 64 % 64 % 4 * 64 + n % 64) = c := by
    rw [show n / 64 % 64 % 4 * 64 + n % 64 = c.toNat by omega, UInt8.ofNat_toNat]
  have hw := value?_symbol (n / 262144) (by omega)
  have hx := value?_symbol (n / 4096 % 64) (by omega)
  have hy := value?_symbol (n / 64 % 64) (by omega)
  have hz := value?_symbol (n % 64) (by omega)
  have hypad := symbol_ne_pad (n / 64 % 64) (by omega)
  have hzpad := symbol_ne_pad (n % 64) (by omega)
  cases rest with
  | nil =>
      cases h
      simp only [decode?, hw, hx, hy, hz, if_neg hypad, if_neg hzpad, hfirst, hsecond, hthird,
        Option.bind_eq_bind, Option.bind_some, Option.pure_def]
  | cons r rest =>
      simp only [decode?, h, hw, hx, hy, hz, hfirst, hsecond, hthird, Option.bind_eq_bind,
        Option.bind_some, Option.pure_def]

/-- One octet is got back from its two digits. -/
theorem decode?_one (a : UInt8) :
    decode? [symbol (a.toNat * 16 / 64), symbol (a.toNat * 16 % 64), pad, pad] = some [a] := by
  have ha := a.toNat_lt
  have hfirst : UInt8.ofNat (a.toNat * 16 / 64 * 4 + a.toNat * 16 % 64 / 16) = a := by
    rw [show a.toNat * 16 / 64 * 4 + a.toNat * 16 % 64 / 16 = a.toNat by omega,
      UInt8.ofNat_toNat]
  have hw := value?_symbol (a.toNat * 16 / 64) (by omega)
  have hx := value?_symbol (a.toNat * 16 % 64) (by omega)
  have hunused : a.toNat * 16 % 64 % 16 = 0 := by omega
  simp only [decode?, hw, hx, hunused, hfirst, and_self, if_true, Option.bind_eq_bind,
    Option.bind_some, Option.pure_def]

/-- Two octets are got back from their three digits. -/
theorem decode?_two (a b : UInt8) :
    decode? [symbol ((a.toNat * 256 + b.toNat) * 4 / 4096),
        symbol ((a.toNat * 256 + b.toNat) * 4 / 64 % 64),
        symbol ((a.toNat * 256 + b.toNat) * 4 % 64), pad]
      = some [a, b] := by
  have ha := a.toNat_lt
  have hb := b.toNat_lt
  generalize hn : (a.toNat * 256 + b.toNat) * 4 = n
  have hfirst : UInt8.ofNat (n / 4096 * 4 + n / 64 % 64 / 16) = a := by
    rw [show n / 4096 * 4 + n / 64 % 64 / 16 = a.toNat by omega, UInt8.ofNat_toNat]
  have hsecond : UInt8.ofNat (n / 64 % 64 % 16 * 16 + n % 64 / 4) = b := by
    rw [show n / 64 % 64 % 16 * 16 + n % 64 / 4 = b.toNat by omega, UInt8.ofNat_toNat]
  have hw := value?_symbol (n / 4096) (by omega)
  have hx := value?_symbol (n / 64 % 64) (by omega)
  have hy := value?_symbol (n % 64) (by omega)
  have hypad := symbol_ne_pad (n % 64) (by omega)
  have hunused : n % 64 % 4 = 0 := by omega
  simp only [decode?, hw, hx, hy, if_neg hypad, hunused, hfirst, hsecond, if_true,
    Option.bind_eq_bind, Option.bind_some, Option.pure_def]

/-! ## Reading -/

/-- What is written is read back. -/
theorem decode?_encode (bs : Octets) : decode? (encode bs) = some bs := by
  induction bs using encode.induct with
  | case1 => rfl
  | case2 a => exact decode?_one a
  | case3 a b => exact decode?_two a b
  | case4 a b c rest ih => exact decode?_group a b c _ ih

/-! ## What is written -/

/-- Whether an octet is a digit or padding. -/
def isWritten (b : UInt8) : Bool := (value? b).isSome || b == pad

theorem isWritten_pad : isWritten pad = true := by
  decide

theorem isWritten_symbol {n : Nat} (h : n < 64) : isWritten (symbol n) = true := by
  rw [isWritten, value?_symbol n h]
  rfl

theorem isWritten_of_mem_encode {bs : Octets} {b : UInt8} (h : b ∈ encode bs) :
    isWritten b = true := by
  induction bs using encode.induct with
  | case1 => cases h
  | case2 a =>
      have := a.toNat_lt
      simp only [encode, List.mem_cons, List.not_mem_nil, or_false] at h
      rcases h with rfl | rfl | rfl | rfl
      · exact isWritten_symbol (by omega)
      · exact isWritten_symbol (by omega)
      · exact isWritten_pad
      · exact isWritten_pad
  | case3 a c =>
      have := a.toNat_lt
      have := c.toNat_lt
      simp only [encode, List.mem_cons, List.not_mem_nil, or_false] at h
      rcases h with rfl | rfl | rfl | rfl
      · exact isWritten_symbol (by omega)
      · exact isWritten_symbol (by omega)
      · exact isWritten_symbol (by omega)
      · exact isWritten_pad
  | case4 a c d rest ih =>
      have := a.toNat_lt
      have := c.toNat_lt
      have := d.toNat_lt
      simp only [encode, List.mem_cons] at h
      rcases h with rfl | rfl | rfl | rfl | h
      · exact isWritten_symbol (by omega)
      · exact isWritten_symbol (by omega)
      · exact isWritten_symbol (by omega)
      · exact isWritten_symbol (by omega)
      · exact ih h

/-- What is written is of ASCII, and there is neither a blank nor a dash in it. -/
theorem of_isWritten {b : UInt8} (h : isWritten b = true) :
    b.toNat < 128 ∧ Octets.isBlank b = false ∧ b ≠ 0x2D := by
  have hall : ∀ n < 256, isWritten (UInt8.ofNat n) = true →
      n < 128 ∧ Octets.isBlank (UInt8.ofNat n) = false ∧ UInt8.ofNat n ≠ 0x2D := by
    decide +kernel
  have hb := hall b.toNat b.toNat_lt
  rw [UInt8.ofNat_toNat] at hb
  exact hb h

end Presign.Base64
