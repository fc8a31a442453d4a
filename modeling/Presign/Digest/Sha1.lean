import Presign.Digest.Blocks

/-!
# SHA-1

Five words of 32 bits are carried through blocks of 64 octets, eighty rounds
for each block.  The words of the message schedule are made as the rounds need
them, from a window of the last sixteen.
-/

namespace Presign.Digest.Sha1

/-- The five words of the state. -/
structure State where
  a : UInt32
  b : UInt32
  c : UInt32
  d : UInt32
  e : UInt32

/-- The state before the first block. -/
def start : State := ⟨0x67452301, 0xefcdab89, 0x98badcfe, 0x10325476, 0xc3d2e1f0⟩

/-- Rotates a word to the left. -/
def rotateLeft (x n : UInt32) : UInt32 := (x <<< n) ||| (x >>> (32 - n))

/-- The function and the constant of a round. -/
def mix (round : Nat) (b c d : UInt32) : UInt32 :=
  if round < 20 then ((b &&& c) ||| (~~~b &&& d)) + 0x5a827999
  else if round < 40 then (b ^^^ c ^^^ d) + 0x6ed9eba1
  else if round < 60 then ((b &&& c) ||| (b &&& d) ||| (c &&& d)) + 0x8f1bbcdc
  else (b ^^^ c ^^^ d) + 0xca62c1d6

/-- The last `left` rounds of a block, from the window of schedule words that
the next round begins with. -/
def rounds : (left : Nat) → List UInt32 → State → State
  | 0, _, s => s
  | left + 1, window, s =>
    let w := window.getD 0 0
    let t := rotateLeft s.a 5 + mix (79 - left) s.b s.c s.d + s.e + w
    let next :=
      rotateLeft (window.getD 13 0 ^^^ window.getD 8 0 ^^^ window.getD 2 0 ^^^ w) 1
    rounds left (window.drop 1 ++ [next]) ⟨t, s.a, rotateLeft s.b 30, s.c, s.d⟩

/-- One block added to the state. -/
def compress (s : State) (block : Octets) : State :=
  let r := rounds 80 (words UInt32.ofNat 3 block) s
  ⟨s.a + r.a, s.b + r.b, s.c + r.c, s.d + r.d, s.e + r.e⟩

/-- The octets of a state. -/
def State.octets (s : State) : Octets :=
  [s.a, s.b, s.c, s.d, s.e].flatMap fun w => Octets.ofNatWidth 4 w.toNat

/-- The SHA-1 digest of a message. -/
def digest (bs : Octets) : Octets := (absorb 64 compress start (pad 64 8 bs)).octets

theorem length_digest (bs : Octets) : (digest bs).length = 20 := by
  simp [digest, State.octets, Octets.length_ofNatWidth]

end Presign.Digest.Sha1
