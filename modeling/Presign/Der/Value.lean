import Presign.Der.Element
import Presign.Oid

/-!
# Values and their elements

Writers and readers for the few universal types: sequences and sets of
elements, object identifiers, octet strings and integers.  A reader checks the
header, then takes the content.  Elements inside a sequence or a set are kept
as their octets, so that nothing is lost on the way back.

The elements of a set are written in ascending order of their octets.
-/

namespace Presign.Der

/-! ## Sequences and sets -/

/-- A sequence of elements. -/
def sequence (elements : List Octets) : Octets := element Tag.sequence elements.flatten

/-- A set of elements, in ascending order. -/
def setOf (elements : List Octets) : Octets :=
  element Tag.set (elements.mergeSort Octets.le).flatten

/-- The elements inside the one element with a given tag. -/
def readElements (tag : UInt8) (name : String) (bs : Octets) : Except Error (List Octets) := do
  let inner ← content tag name bs
  match elements? inner with
  | some elements => .ok elements
  | none => .error (.unreadable name)

/-- Reads a sequence. -/
def readSequence (name : String) (bs : Octets) : Except Error (List Octets) :=
  readElements Tag.sequence name bs

/-- Reads a set.  The order of its elements is kept and not checked. -/
def readSet (name : String) (bs : Octets) : Except Error (List Octets) :=
  readElements Tag.set name bs

/-! ## Simple values -/

/-- The element NULL. -/
def null : Octets := [Tag.null, 0]

/-- An object identifier. -/
def oid (o : Oid) : Octets := element Tag.oid o.content

/-- Reads an object identifier. -/
def readOid (name : String) (bs : Octets) : Except Error Oid := do
  let inner ← content Tag.oid name bs
  match Oid.ofContent? inner with
  | some o => .ok o
  | none => .error (.unreadable name)

/-- An octet string. -/
def octetString (bs : Octets) : Octets := element Tag.octetString bs

/-- Reads an octet string. -/
def readOctetString (name : String) (bs : Octets) : Except Error Octets :=
  content Tag.octetString name bs

/-- The content of an integer that is not negative, from its octets in base
256.  It is as short as it can be with a clear sign bit. -/
def unsignedContent (magnitude : Octets) : Octets :=
  match magnitude.significant with
  | [] => [0]
  | b :: bs => if b ≥ 128 then 0 :: b :: bs else b :: bs

/-- An integer that is not negative. -/
def unsigned (magnitude : Octets) : Octets := element Tag.integer (unsignedContent magnitude)

/-- The content of an integer, in two's complement.  It is not checked to be
the shortest. -/
def readInteger (name : String) (bs : Octets) : Except Error Octets := do
  let inner ← content Tag.integer name bs
  if inner.isEmpty then .error (.invalid name .emptyInteger) else .ok inner

end Presign.Der
