import Presign.Der.Value

/-!
# ECDSA signature values

A signature is a pair of numbers.  CMS writes it as a sequence of two
integers, and XML signatures write the numbers one after the other in blocks
of one width.  The width is not stored anywhere: the reader halves what it is
given, and the writer picks a width from a list of key lengths.

A width fits a pair if it holds both numbers and leaves less than four octets
of zeros in the two blocks together.
-/

namespace Presign.Ecdsa

/-- A signature. -/
structure Value where
  r : Nat
  s : Nat
deriving DecidableEq, Repr

/-- Why octets are no signature. -/
inductive Malformation where
  /-- An element cannot be read. -/
  | element (error : Der.Error)
  /-- The sequence does not have two elements. -/
  | elementCount (found : Nat)
  /-- A component is negative. -/
  | negative (component : String)
  /-- There are no octets, or they cannot be halved. -/
  | oddLength (found : Nat)
deriving DecidableEq, Repr

/-- Why a signature cannot be converted. -/
inductive ValueError where
  /-- The octets are no signature. -/
  | malformed (fault : Malformation)
  /-- No key length gives a width that fits. -/
  | unsupportedKeyLength (rSize sSize : Nat) (supported : List UInt64)
  /-- The width that fits is zero, so there are no blocks to write. -/
  | noBlocks
deriving DecidableEq, Repr

/-- The text of a malformation. -/
def Malformation.message : Malformation → String
  | .element error => error.message
  | .elementCount found => s!"expected 2 integers, got {found} elements"
  | .negative component => component ++ " is negative"
  | .oddLength found =>
    s!"concatenated r and s must have a non-zero even length, got {found} bytes"

/-- The text of a conversion error. -/
def ValueError.message : ValueError → String
  | .malformed fault => "malformed ECDSA signature: " ++ fault.message
  | .unsupportedKeyLength rSize sSize supported =>
    let lengths := String.intercalate ", " (supported.map fun n => toString n.toNat)
    s!"unsupported key length: r ({rSize} bytes) and s ({sSize} bytes) fit none of the "
      ++ "supported key lengths [" ++ lengths ++ "]"
  | .noBlocks => "no blocks"

namespace Value

/-! ## Sequence of integers -/

/-- The pair that two sequences of octets write. -/
def ofOctets (r s : Octets) : Value := ⟨r.toNat, s.toNat⟩

/-- The encoding. -/
def toDer (v : Value) : Octets :=
  Der.sequence [Der.unsigned (Octets.ofNat v.r), Der.unsigned (Octets.ofNat v.s)]

/-- Reads one integer, which must not be negative. -/
def readComponent (component : String) (bs : Octets) : Except ValueError Nat := do
  let inner ← (Der.readInteger "ECDSA signature component" bs).mapError
    fun e => .malformed (.element e)
  if inner.headD 0 ≥ 128 then .error (.malformed (.negative component))
  else return inner.toNat

/-- Reads an encoding. -/
def ofDer (bs : Octets) : Except ValueError Value := do
  let elements ← (Der.readSequence "ECDSA signature value" bs).mapError
    fun e => .malformed (.element e)
  match elements with
  | [r, s] =>
    let r ← readComponent "r" r
    let s ← readComponent "s" s
    return ⟨r, s⟩
  | _ => .error (.malformed (.elementCount elements.length))

/-! ## Blocks of one width -/

/-- Reads two halves. -/
def ofFixedWidth (bs : Octets) : Except ValueError Value :=
  if bs.length = 0 ∨ bs.length % 2 ≠ 0 then .error (.malformed (.oddLength bs.length))
  else .ok (ofOctets (bs.take (bs.length / 2)) (bs.drop (bs.length / 2)))

end Value

/-- A converter between the two forms: the supported key lengths in bits,
ascending and each once. -/
structure Codec where
  /-- The key lengths. -/
  keyLengths : List UInt64
deriving DecidableEq

namespace Codec

/-- A list without the elements that repeat the one before them. -/
def dedup : List UInt64 → List UInt64
  | [] => []
  | [n] => [n]
  | m :: n :: ns => if m = n then dedup (n :: ns) else m :: dedup (n :: ns)

/-- A converter for given key lengths, in any order. -/
def ofKeyLengths (lengths : List UInt64) : Codec := ⟨dedup (lengths.mergeSort (· ≤ ·))⟩

/-- The key lengths of the usual curves. -/
def standard : Codec := ⟨[160, 224, 256, 384, 521]⟩

/-- The octets that a key length takes, in words of 64 bits. -/
def width (bits : UInt64) : Nat := ((bits + 7) / 8).toNat

/-- Whether a width fits two numbers of given sizes. -/
def fits (rSize sSize width : Nat) : Bool :=
  rSize ≤ width && sSize ≤ width && 2 * width - (rSize + sSize) < 4

/-- The first width that fits. -/
def blockSize (c : Codec) (v : Value) : Except ValueError Nat :=
  let rSize := Octets.natSize v.r
  let sSize := Octets.natSize v.s
  match (c.keyLengths.map width).find? (fits rSize sSize) with
  | some w => .ok w
  | none => .error (.unsupportedKeyLength rSize sSize c.keyLengths)

/-- The two numbers in blocks of one width. -/
def toFixedWidth (c : Codec) (v : Value) : Except ValueError Octets := do
  let w ← c.blockSize v
  if w = 0 then .error .noBlocks
  else return Octets.ofNatWidth w v.r ++ Octets.ofNatWidth w v.s

end Codec

end Presign.Ecdsa
