import Presign.Xades

/-!
# References of signed information

A signature covers what its signed information refers to.  Each reference
holds the digest of what it refers to.  The one to the signed properties of a
XAdES object is found by its type, and any case of its letters counts.

`coverProperties` makes that reference cover signed properties.  It keeps its
place and its other attributes, and if it is missing it comes last.
-/

namespace Presign.SignedInfo

/-- The references, as elements. -/
def references (e : Xml.Element) : List Xml.Element :=
  e.findChildren Xml.signatureSpace "Reference"

/-- A text with its ASCII letters in lower case. -/
def lowerCase (s : String) : List Char := s.toList.map Char.toLower

/-- Whether the type of a reference is that of signed properties. -/
def hasPropertiesType (e : Xml.Element) : Bool :=
  (e.attribute? "Type").any fun type => lowerCase type == lowerCase Xades.referenceType

/-- Whether an element is a reference to signed properties. -/
def isPropertiesReference (e : Xml.Element) : Bool :=
  e.is Xml.signatureSpace "Reference" && hasPropertiesType e

/-- Makes a reference cover signed properties with an identifier and a digest
of their exclusive canonical form. -/
def cover (qualifier : Option String) (id : String) (m : DigestMethod) (digest : Octets)
    (reference : Xml.Element) : Xml.Element :=
  let within := Xml.Element.within Xml.signatureSpace qualifier
  let transform :=
    (within "Transform").setAttribute "Algorithm" Xml.CanonicalMethod.exclusive.uri
  (((reference.setAttribute "URI" ("#" ++ id)).clear.push ((within "Transforms").push transform)).push
    ((within "DigestMethod").setAttribute "Algorithm" m.uri)).push
    ((within "DigestValue").addText (Base64.text digest))

/-- Makes signed information cover signed properties. -/
def coverProperties (e : Xml.Element) (id : String) (m : DigestMethod) (digest : Octets) :
    Xml.Element :=
  let qualifier := e.name.qualifier
  match e.changeWhere? isPropertiesReference (cover qualifier id m digest) with
  | some e => e
  | none =>
    e.push (cover qualifier id m digest
      ((Xml.Element.within Xml.signatureSpace qualifier "Reference").setAttribute "Type"
        Xades.referenceType))

end Presign.SignedInfo
