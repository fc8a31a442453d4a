import Presign.Der.Value
import Presign.Oid.Known

/-!
# Signed attributes

A signed attribute is a type and a set of values.  The encoding that it was
read from is kept, so that an attribute which nobody touches is written back
octet for octet.  A new attribute has its values in the order they were given
in, while its encoding has them in ascending order.

The signed attributes of a signature are a set as well.  Reading keeps the
order they come in, and writing puts the encodings in ascending order.
-/

namespace Presign.Cms

/-- A signed attribute. -/
structure Attribute where
  /-- What the values mean. -/
  type : Oid
  /-- The encoded values. -/
  values : List Octets
  /-- The encoding of the whole attribute. -/
  encoded : Octets
deriving DecidableEq

namespace Attribute

/-- The attribute with a type and values. -/
def of (type : Oid) (values : List Octets) : Attribute :=
  ⟨type, values, Der.sequence [Der.oid type, Der.setOf values]⟩

/-- Reads an encoding. -/
def ofDer (bs : Octets) : Except Der.Error Attribute := do
  match ← Der.readSequence "attribute" bs with
  | [type, values] =>
    let type ← Der.readOid "attribute type" type
    let values ← Der.readSet "attribute values" values
    return ⟨type, values, bs⟩
  | elements => .error (.invalid "attribute" (.elementCount "2" elements.length))

end Attribute

/-- The signed attributes of a signature. -/
abbrev Attributes := List Attribute

namespace Attributes

/-- Reads the set of attributes. -/
def ofDer (bs : Octets) : Except Der.Error Attributes := do
  (← Der.readSet "signed attributes" bs).mapM Attribute.ofDer

/-- The encoded set of attributes. -/
def toDer (as : Attributes) : Octets := Der.setOf (as.map Attribute.encoded)

/-- The first attribute with a type. -/
def find? (as : Attributes) (type : Oid) : Option Attribute :=
  List.find? (fun a => a.type == type) as

/-- The attributes without those of some types. -/
def without (as : Attributes) (types : List Oid) : Attributes :=
  as.filter fun a => !types.contains a.type

/-- The attributes with the first one of the same type replaced, or with the
attribute added behind all others. -/
def put (a : Attribute) : Attributes → Attributes
  | [] => [a]
  | b :: bs => if b.type = a.type then a :: bs else b :: put a bs

end Attributes

end Presign.Cms
