import Presign.Der.Value

/-!
# Algorithm identifiers

An algorithm identifier names an algorithm and may carry parameters.  Encoders
disagree on whether absent parameters are written as NULL, so the parameters
are kept as octets, and `sameAlgorithm` compares the names alone.

There are two readers.  `ofDer` wants a sequence of one or two elements and
nothing after it.  `ofDerLoose` reads the front of the octets: any constructed
tag opens the sequence, the name may have one of several primitive tags, the
parameters are optional, and what follows them is not looked at.
-/

namespace Presign

/-- An algorithm and its parameters. -/
structure AlgorithmIdentifier where
  /-- The name of the algorithm. -/
  algorithm : Oid
  /-- The encoded parameters, if there are any. -/
  parameters : Option Octets
deriving DecidableEq

namespace AlgorithmIdentifier

/-- An algorithm with the parameters NULL. -/
def withNull (algorithm : Oid) : AlgorithmIdentifier := ⟨algorithm, some Der.null⟩

/-- An algorithm without parameters. -/
def bare (algorithm : Oid) : AlgorithmIdentifier := ⟨algorithm, none⟩

/-- Whether two identifiers name one algorithm. -/
def sameAlgorithm (a b : AlgorithmIdentifier) : Bool := a.algorithm == b.algorithm

/-- The encoding. -/
def toDer (a : AlgorithmIdentifier) : Octets :=
  Der.sequence (Der.oid a.algorithm :: a.parameters.toList)

/-- What the reader calls the element it reads. -/
def elementName : String := "algorithm identifier"

/-- Reads an encoding. -/
def ofDer (bs : Octets) : Except Der.Error AlgorithmIdentifier := do
  match ← Der.readSequence elementName bs with
  | [algorithm] => return bare (← Der.readOid elementName algorithm)
  | [algorithm, parameters] => return ⟨← Der.readOid elementName algorithm, some parameters⟩
  | elements => .error (.invalid elementName (.elementCount "1 or 2" elements.length))

/-! ## The loose reader -/

/-- Reads a length of up to eight octets, and gives what follows it. -/
def looseLength? : Octets → Option (Nat × Octets)
  | [] => none
  | b :: bs =>
    if b < 128 then some (b.toNat, bs)
    else
      let size := b.toNat - 128
      if size ≤ 8 ∧ size ≤ bs.length then some (Octets.toNat (bs.take size), bs.drop size)
      else none

/-- Whether a tag may stand in front of the name. -/
def isNameTag (tag : UInt8) : Bool :=
  tag ∈ [Der.Tag.octetString, Der.Tag.oid, Der.Tag.bitString, Der.Tag.integer,
    Der.Tag.utcTime, Der.Tag.generalizedTime]
    || (tag.toNat / 32 % 2 == 0 && tag.toNat / 64 != 0)

/-- Reads the name, and gives what follows it. -/
def looseName? : Octets → Option (Oid × Octets)
  | [] => none
  | tag :: bs => do
    let (len, rest) ← looseLength? bs
    if isNameTag tag ∧ len ≤ rest.length then
      let o ← Oid.ofContent? (rest.take len)
      return (o, rest.drop len)
    else none

/-- Reads the parameters from octets of which the first `left` belong to the
sequence. -/
def looseParameters? (left : Nat) (bs : Octets) : Option Octets := do
  let size ← Der.peekSize? bs.tail
  if size ≤ bs.length ∧ size ≤ left then return bs.take size else none

/-- Reads an algorithm identifier at the front of octets. -/
def ofDerLoose? : Octets → Option AlgorithmIdentifier
  | [] => none
  | tag :: bs => do
    if tag.toNat / 32 % 2 = 0 then none
    let (len, inner) ← looseLength? bs
    if len = 0 then none
    let (algorithm, rest) ← looseName? inner
    let used := inner.length - rest.length
    if len < used then none
    else if len = used then return bare algorithm
    else
      let parameters ← looseParameters? (len - used) rest
      return ⟨algorithm, some parameters⟩

end AlgorithmIdentifier

end Presign
