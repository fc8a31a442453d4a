import Presign.Der.Element

/-!
# Strict reading

Key files are read without tolerance.  A length has its shortest form and at
most four octets, an integer is not negative and has no zero octet that its
sign does not need, and the tag is one of a fixed list.  Readers take their
element off the front of the octets and give what follows, so that a caller
can check that nothing is left.  Object identifiers have a bounded size, and
so have the numbers in them.
-/

namespace Presign.Der.Strict

/-- Whether a tag is one of the universal types, or of another class with a
number below 31. -/
def isKnownTag (tag : UInt8) : Bool :=
  if tag.toNat < 64 then
    tag ∈ [0x01, 0x02, 0x03, 0x04, 0x05, 0x06, 0x09, 0x0A, 0x0C, 0x12, 0x13, 0x14, 0x15, 0x16,
      0x17, 0x18, 0x1A, 0x1E, 0x30, 0x31]
  else tag % 32 != 31

/-- Reads a shortest length, and gives what follows it. -/
def length? : Octets → Option (Nat × Octets)
  | [] => none
  | b :: bs =>
    if b < 128 then some (b.toNat, bs)
    else
      let size := b.toNat - 128
      if size = 0 ∨ 4 < size ∨ bs.length < size then none
      else
        let n := Octets.toNat (bs.take size)
        if lengthOctets n = b :: bs.take size then some (n, bs.drop size) else none

/-- Reads an element of any known tag. -/
def any? : Octets → Option Split
  | [] => none
  | tag :: bs => do
    let (len, rest) ← length? bs
    if isKnownTag tag ∧ len ≤ rest.length then
      return ⟨tag, rest.take len, rest.drop len⟩
    else none

/-- Reads an element of a given tag: its content, and what follows it. -/
def take? (tag : UInt8) (bs : Octets) : Option (Octets × Octets) := do
  let s ← any? bs
  if s.tag = tag then return (s.content, s.rest) else none

/-- Reads the one element of a given tag that makes up all octets. -/
def only? (tag : UInt8) (bs : Octets) : Option Octets := do
  let (content, rest) ← take? tag bs
  if rest.isEmpty then return content else none

/-- Reads an integer that is not negative. -/
def unsigned? (bs : Octets) : Option (Nat × Octets) := do
  let (content, rest) ← take? Tag.integer bs
  match content with
  | [] => none
  | [b] => if b < 128 then return (b.toNat, rest) else none
  | b :: next :: _ =>
    if b < 128 ∧ (b ≠ 0 ∨ next ≥ 128) then return (content.toNat, rest) else none

/-- Reads several integers that are not negative. -/
def unsignedList? : (count : Nat) → Octets → Option (List Nat × Octets)
  | 0, bs => some ([], bs)
  | count + 1, bs => do
    let (n, rest) ← unsigned? bs
    let (ns, rest) ← unsignedList? count rest
    return (n :: ns, rest)

/-- The octets that a bit string holds, if no bits are unused. -/
def wholeOctets? : Octets → Option Octets
  | 0 :: bs => some bs
  | _ => none

/-- Reads a bit string without unused bits. -/
def bitString? (bs : Octets) : Option (Octets × Octets) := do
  let (content, rest) ← take? Tag.bitString bs
  return (← wholeOctets? content, rest)

/-- Whether octets are numbers in groups of seven bits, given how many octets of
the first number have been read.  A number has at most five octets, and a fifth
one is below 16. -/
def areArcs (read : Nat) : Octets → Bool
  | [] => read == 0
  | b :: bs =>
    if 4 ≤ read ∧ 16 ≤ b then false
    else if b < 128 then areArcs 0 bs
    else areArcs (read + 1) bs

/-- Whether octets are the content of an object identifier.  It has at least
three octets and at most 39. -/
def isOid (content : Octets) : Bool :=
  3 ≤ content.length && content.length ≤ 39 && content.headD 0 < 120 && areArcs 0 content.tail

/-- Skips fields with context tags of lower numbers than `number`, up to a
field of that number.  Gives what stands from there on, or what is left if
there is no such field. -/
def skipTo? (number : UInt8) : Octets → Option (Bool × Octets)
  | [] => some (false, [])
  | tag :: bs =>
    if !isKnownTag tag then none
    else if tag.toNat / 64 ≠ 2 ∨ number < tag % 32 then some (false, tag :: bs)
    else if tag % 32 = number then some (true, tag :: bs)
    else
      match any? (tag :: bs) with
      | none => none
      | some s => if _shorter : s.rest.length ≤ bs.length then skipTo? number s.rest else none
termination_by bs => bs.length

end Presign.Der.Strict
