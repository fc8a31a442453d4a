import Presign.Digest.Blocks

/-!
# SHA-2

Eight words are carried through blocks of sixteen words.  The words have 32
bits in SHA-224 and SHA-256 and 64 bits in SHA-384 and SHA-512.  The shorter
digests start from other words and drop the end of the last state.

The round constants are the first bits of the fractional parts of the cube
roots of the first primes.  So the 32-bit constants are the high halves of the
64-bit ones.
-/

namespace Presign.Digest.Sha2

/-! ## Rounds over words of either size -/

/-- The eight words of a state. -/
structure State (W : Type) where
  a : W
  b : W
  c : W
  d : W
  e : W
  f : W
  g : W
  h : W

/-- The four functions of a word size. -/
structure Mixers (W : Type) where
  /-- Applied to the first word of the state. -/
  bigZero : W → W
  /-- Applied to the fifth word of the state. -/
  bigOne : W → W
  /-- Applied to the schedule word fifteen places back. -/
  smallZero : W → W
  /-- Applied to the schedule word two places back. -/
  smallOne : W → W

variable {W : Type} [Inhabited W] [Add W] [AndOp W] [XorOp W] [Complement W]

/-- The rounds of a block, one for each constant, from the window of the
sixteen schedule words that the next round begins with. -/
@[specialize] def rounds (m : Mixers W) : List W → List W → State W → State W
  | [], _, s => s
  | k :: ks, window, s =>
    let w := window.getD 0 default
    let choose := (s.e &&& s.f) ^^^ (~~~s.e &&& s.g)
    let majority := (s.a &&& s.b) ^^^ (s.a &&& s.c) ^^^ (s.b &&& s.c)
    let t := s.h + m.bigOne s.e + choose + k + w
    let u := m.bigZero s.a + majority
    let next := m.smallOne (window.getD 14 default) + window.getD 9 default
      + m.smallZero (window.getD 1 default) + w
    rounds m ks (window.drop 1 ++ [next]) ⟨t + u, s.a, s.b, s.c, s.d + t, s.e, s.f, s.g⟩

/-- Adds two states word by word. -/
def State.add (s r : State W) : State W :=
  ⟨s.a + r.a, s.b + r.b, s.c + r.c, s.d + r.d, s.e + r.e, s.f + r.f, s.g + r.g, s.h + r.h⟩

/-- The octets of a state. -/
def State.octets (size : Nat) (toNat : W → Nat) (s : State W) : Octets :=
  [s.a, s.b, s.c, s.d, s.e, s.f, s.g, s.h].flatMap fun w => Octets.ofNatWidth size (toNat w)

/-! ## Words of 64 bits -/

/-- The round constants. -/
def constants64 : List UInt64 := [
    0x428a2f98d728ae22, 0x7137449123ef65cd, 0xb5c0fbcfec4d3b2f,
    0xe9b5dba58189dbbc, 0x3956c25bf348b538, 0x59f111f1b605d019,
    0x923f82a4af194f9b, 0xab1c5ed5da6d8118, 0xd807aa98a3030242,
    0x12835b0145706fbe, 0x243185be4ee4b28c, 0x550c7dc3d5ffb4e2,
    0x72be5d74f27b896f, 0x80deb1fe3b1696b1, 0x9bdc06a725c71235,
    0xc19bf174cf692694, 0xe49b69c19ef14ad2, 0xefbe4786384f25e3,
    0x0fc19dc68b8cd5b5, 0x240ca1cc77ac9c65, 0x2de92c6f592b0275,
    0x4a7484aa6ea6e483, 0x5cb0a9dcbd41fbd4, 0x76f988da831153b5,
    0x983e5152ee66dfab, 0xa831c66d2db43210, 0xb00327c898fb213f,
    0xbf597fc7beef0ee4, 0xc6e00bf33da88fc2, 0xd5a79147930aa725,
    0x06ca6351e003826f, 0x142929670a0e6e70, 0x27b70a8546d22ffc,
    0x2e1b21385c26c926, 0x4d2c6dfc5ac42aed, 0x53380d139d95b3df,
    0x650a73548baf63de, 0x766a0abb3c77b2a8, 0x81c2c92e47edaee6,
    0x92722c851482353b, 0xa2bfe8a14cf10364, 0xa81a664bbc423001,
    0xc24b8b70d0f89791, 0xc76c51a30654be30, 0xd192e819d6ef5218,
    0xd69906245565a910, 0xf40e35855771202a, 0x106aa07032bbd1b8,
    0x19a4c116b8d2d0c8, 0x1e376c085141ab53, 0x2748774cdf8eeb99,
    0x34b0bcb5e19b48a8, 0x391c0cb3c5c95a63, 0x4ed8aa4ae3418acb,
    0x5b9cca4f7763e373, 0x682e6ff3d6b2b8a3, 0x748f82ee5defb2fc,
    0x78a5636f43172f60, 0x84c87814a1f0ab72, 0x8cc702081a6439ec,
    0x90befffa23631e28, 0xa4506cebde82bde9, 0xbef9a3f7b2c67915,
    0xc67178f2e372532b, 0xca273eceea26619c, 0xd186b8c721c0c207,
    0xeada7dd6cde0eb1e, 0xf57d4f7fee6ed178, 0x06f067aa72176fba,
    0x0a637dc5a2c898a6, 0x113f9804bef90dae, 0x1b710b35131c471b,
    0x28db77f523047d84, 0x32caab7b40c72493, 0x3c9ebe0a15c9bebc,
    0x431d67c49c100d4c, 0x4cc5d4becb3e42b6, 0x597f299cfc657e2a,
    0x5fcb6fab3ad6faec, 0x6c44198c4a475817]

/-- Rotates a word of 64 bits to the right. -/
def rotateRight64 (x n : UInt64) : UInt64 := (x >>> n) ||| (x <<< (64 - n))

/-- The functions of 64-bit words. -/
def mixers64 : Mixers UInt64 where
  bigZero x := rotateRight64 x 28 ^^^ rotateRight64 x 34 ^^^ rotateRight64 x 39
  bigOne x := rotateRight64 x 14 ^^^ rotateRight64 x 18 ^^^ rotateRight64 x 41
  smallZero x := rotateRight64 x 1 ^^^ rotateRight64 x 8 ^^^ (x >>> 7)
  smallOne x := rotateRight64 x 19 ^^^ rotateRight64 x 61 ^^^ (x >>> 6)

/-- One block of 128 octets added to the state. -/
def compress64 (s : State UInt64) (block : Octets) : State UInt64 :=
  s.add (rounds mixers64 constants64 (words UInt64.ofNat 7 block) s)

/-- The start of SHA-512. -/
def start512 : State UInt64 := ⟨
    0x6a09e667f3bcc908, 0xbb67ae8584caa73b,
    0x3c6ef372fe94f82b, 0xa54ff53a5f1d36f1,
    0x510e527fade682d1, 0x9b05688c2b3e6c1f,
    0x1f83d9abfb41bd6b, 0x5be0cd19137e2179⟩

/-- The start of SHA-384. -/
def start384 : State UInt64 := ⟨
    0xcbbb9d5dc1059ed8, 0x629a292a367cd507,
    0x9159015a3070dd17, 0x152fecd8f70e5939,
    0x67332667ffc00b31, 0x8eb44a8768581511,
    0xdb0c2e0d64f98fa7, 0x47b5481dbefa4fa4⟩

/-- The last state of a message, as octets. -/
def run64 (start : State UInt64) (bs : Octets) : Octets :=
  (absorb 128 compress64 start (pad 128 16 bs)).octets 8 UInt64.toNat

/-- The SHA-512 digest of a message. -/
def digest512 (bs : Octets) : Octets := run64 start512 bs

/-- The SHA-384 digest of a message. -/
def digest384 (bs : Octets) : Octets := (run64 start384 bs).take 48

/-! ## Words of 32 bits -/

/-- The high half of a word. -/
def high (x : UInt64) : UInt32 := (x >>> 32).toUInt32

/-- A state of half words. -/
def State.halves (half : UInt64 → UInt32) (s : State UInt64) : State UInt32 :=
  ⟨half s.a, half s.b, half s.c, half s.d, half s.e, half s.f, half s.g, half s.h⟩

/-- The round constants. -/
def constants32 : List UInt32 := (constants64.take 64).map high

/-- Rotates a word of 32 bits to the right. -/
def rotateRight32 (x n : UInt32) : UInt32 := (x >>> n) ||| (x <<< (32 - n))

/-- The functions of 32-bit words. -/
def mixers32 : Mixers UInt32 where
  bigZero x := rotateRight32 x 2 ^^^ rotateRight32 x 13 ^^^ rotateRight32 x 22
  bigOne x := rotateRight32 x 6 ^^^ rotateRight32 x 11 ^^^ rotateRight32 x 25
  smallZero x := rotateRight32 x 7 ^^^ rotateRight32 x 18 ^^^ (x >>> 3)
  smallOne x := rotateRight32 x 17 ^^^ rotateRight32 x 19 ^^^ (x >>> 10)

/-- One block of 64 octets added to the state. -/
def compress32 (s : State UInt32) (block : Octets) : State UInt32 :=
  s.add (rounds mixers32 constants32 (words UInt32.ofNat 3 block) s)

/-- The start of SHA-256: the high halves of the start of SHA-512. -/
def start256 : State UInt32 := start512.halves high

/-- The start of SHA-224: the low halves of the start of SHA-384. -/
def start224 : State UInt32 := start384.halves UInt64.toUInt32

/-- The last state of a message, as octets. -/
def run32 (start : State UInt32) (bs : Octets) : Octets :=
  (absorb 64 compress32 start (pad 64 8 bs)).octets 4 UInt32.toNat

/-- The SHA-256 digest of a message. -/
def digest256 (bs : Octets) : Octets := run32 start256 bs

/-- The SHA-224 digest of a message. -/
def digest224 (bs : Octets) : Octets := (run32 start224 bs).take 28

/-! ## Lengths -/

omit [Inhabited W] [Add W] [AndOp W] [XorOp W] [Complement W] in
theorem State.length_octets (size : Nat) (toNat : W → Nat) (s : State W) :
    (s.octets size toNat).length = 8 * size := by
  simp [State.octets, Octets.length_ofNatWidth]
  omega

theorem length_digest512 (bs : Octets) : (digest512 bs).length = 64 := by
  simp [digest512, run64, State.length_octets]

theorem length_digest384 (bs : Octets) : (digest384 bs).length = 48 := by
  simp [digest384, run64, State.length_octets]

theorem length_digest256 (bs : Octets) : (digest256 bs).length = 32 := by
  simp [digest256, run32, State.length_octets]

theorem length_digest224 (bs : Octets) : (digest224 bs).length = 28 := by
  simp [digest224, run32, State.length_octets]

end Presign.Digest.Sha2
