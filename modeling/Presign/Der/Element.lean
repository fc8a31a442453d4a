import Presign.Der.Error

/-!
# Encoded elements

An element is a tag octet, a length and that many content octets.  `element`
writes one with the shortest length.

There are two readers.  `split` reads the first element of a sequence of
octets and names each fault; its lengths have up to four octets and may be
longer than needed.  `elements?` cuts a content into the elements it is made
of.  It looks at the length of each element, but then takes as many octets as
the shortest form of that length would need.  So after a length that is longer
than needed the cut falls short, and the next element begins inside this one.
Sizes are words of 64 bits, so an element whose length is close to the largest
word takes few octets.  An element of shortest form is cut exactly if its size
is a word, so nothing is lost between `element` and `elements?`.
-/

namespace Presign.Der

/-! ## Tags -/

namespace Tag

def integer : UInt8 := 0x02
def bitString : UInt8 := 0x03
def octetString : UInt8 := 0x04
def null : UInt8 := 0x05
def oid : UInt8 := 0x06
def utcTime : UInt8 := 0x17
def generalizedTime : UInt8 := 0x18
def sequence : UInt8 := 0x30
def set : UInt8 := 0x31
/-- The constructed context tag `n`, for `n` below 31. -/
def context (n : UInt8) : UInt8 := 0xA0 + n

end Tag

/-! ## Writing -/

/-- The shortest length octets. -/
def lengthOctets (n : Nat) : Octets :=
  if n < 128 then [UInt8.ofNat n]
  else UInt8.ofNat (128 + Octets.natSize n) :: Octets.ofNat n

/-- An element with the shortest length. -/
def element (tag : UInt8) (content : Octets) : Octets :=
  tag :: lengthOctets content.length ++ content

/-- An element with another tag in front. -/
def retag (tag : UInt8) : Octets → Octets
  | [] => []
  | _ :: bs => tag :: bs

/-! ## The first element -/

/-- The first element of a sequence of octets, and what follows it. -/
structure Split where
  /-- The tag. -/
  tag : UInt8
  /-- The content. -/
  content : Octets
  /-- What follows the element. -/
  rest : Octets
deriving DecidableEq, Repr

/-- Reads a length of up to four octets, and gives what follows it. -/
def readLength : Octets → Except Fault (Nat × Octets)
  | [] => .error .truncatedLength
  | b :: bs =>
    if b < 128 then .ok (b.toNat, bs)
    else
      let size := b.toNat - 128
      if size = 0 ∨ 4 < size ∨ bs.length < size then .error .badLength
      else .ok (Octets.toNat (bs.take size), bs.drop size)

/-- Splits off the first element. -/
def splitFault : Octets → Except Fault Split
  | [] => .error .empty
  | tag :: bs =>
    if tag % 32 = 31 then .error .highTag
    else do
      let (len, rest) ← readLength bs
      if rest.length < len then .error (.truncatedContent len rest.length)
      else .ok ⟨tag, rest.take len, rest.drop len⟩

/-- Splits off the first element, and says which element was looked for if
that fails. -/
def split (name : String) (bs : Octets) : Except Error Split :=
  (splitFault bs).mapError (.invalid name)

/-- The content of the one element with a given tag that makes up all octets. -/
def content (tag : UInt8) (name : String) (bs : Octets) : Except Error Octets := do
  let s ← split name bs
  if s.tag ≠ tag then .error (.invalid name (.unexpectedTag s.tag tag))
  else if s.rest ≠ [] then .error (.invalid name (.trailing s.rest.length))
  else .ok s.content

/-! ## The elements of a content -/

/-- Looks at the length in front of octets.  Octets that are not there read as
zero. -/
def peekLength? : Octets → Option Nat
  | [] => some 0
  | b :: bs =>
    if b < 128 then some b.toNat
    else
      let size := b.toNat - 128
      if size ≤ 8 then
        some (Octets.toNat (bs.take size ++ List.replicate (size - bs.length) 0))
      else none

/-- The number of octets that an element takes, given what follows its tag: the
tag, the shortest form of the length and the content, in words of 64 bits. -/
def peekSize? (bs : Octets) : Option Nat :=
  (peekLength? bs).map fun len => (1 + (lengthOctets len).length + len) % UInt64.size

/-- Cuts a content into elements.  An element that would take no octets is
refused. -/
def elements? : Octets → Option (List Octets)
  | [] => some []
  | tag :: bs => do
    let size ← peekSize? bs
    if 0 < size ∧ size ≤ bs.length + 1 then
      let rest ← elements? (bs.drop (size - 1))
      return (tag :: bs.take (size - 1)) :: rest
    else none
termination_by bs => bs.length
decreasing_by simp only [List.length_drop, List.length_cons]; omega

end Presign.Der
