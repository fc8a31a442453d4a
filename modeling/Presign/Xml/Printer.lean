import Presign.Xml.Tree

/-!
# Writing trees

A tree is written as it stands: names, declarations and attributes in their
order, and an element without children as an empty tag.  Characters that would
not read back are written as references.  Comments and processing instructions
are written as they are.
-/

namespace Presign.Xml

/-! ## Characters -/

/-- A character of character data as it is written. -/
def escapeTextChar (c : Char) : List Char :=
  if c = '&' then "&amp;".toList
  else if c = '<' then "&lt;".toList
  else if c = '>' then "&gt;".toList
  else if c = '\r' then "&#xD;".toList
  else [c]

/-- A character of an attribute value as it is written. -/
def escapeValueChar (c : Char) : List Char :=
  if c = '&' then "&amp;".toList
  else if c = '<' then "&lt;".toList
  else if c = '\x22' then "&quot;".toList
  else if c = '\t' then "&#x9;".toList
  else if c = '\n' then "&#xA;".toList
  else if c = '\r' then "&#xD;".toList
  else [c]

/-- Character data as it is written. -/
def escapeText (s : String) : List Char := s.toList.flatMap escapeTextChar

/-! ## Pieces of tags -/

/-- An attribute with the blank before it. -/
def attributeChars (key value : String) : List Char :=
  ' ' :: key.toList ++ ['=', '\x22'] ++ value.toList.flatMap escapeValueChar ++ ['\x22']

/-- The attribute that a declaration is written as. -/
def Declaration.chars (d : Declaration) : List Char :=
  match d.qualifier with
  | some q => attributeChars ("xmlns:" ++ q) d.uri
  | none => attributeChars "xmlns" d.uri

/-- An attribute. -/
def Attribute.chars (a : Attribute) : List Char := attributeChars a.name.qualified a.value

/-- A comment. -/
def commentChars (s : String) : List Char := "<!--".toList ++ s.toList ++ "-->".toList

/-- A processing instruction. -/
def instructionChars (target data : String) : List Char :=
  "<?".toList ++ target.toList ++ (if data = "" then [] else ' ' :: data.toList) ++ "?>".toList

/-! ## Trees -/

/-- A tag without its closing bracket. -/
def Tag.chars (t : Tag) : List Char :=
  '<' :: t.name.qualified.toList ++ t.declarations.flatMap Declaration.chars
    ++ t.attributes.flatMap Attribute.chars

/-- An element, given its children as they are written. -/
def elementChars (t : Tag) (children : List Node) (inside : List Char) : List Char :=
  if children.isEmpty then t.chars ++ ['/', '>']
  else t.chars ++ ['>'] ++ inside ++ ['<', '/'] ++ t.name.qualified.toList ++ ['>']

mutual

/-- A node as it is written. -/
def Node.chars : Node → List Char
  | .element tag children => elementChars tag children (nodesChars children)
  | .text s => escapeText s
  | .comment s => commentChars s
  | .instruction target data => instructionChars target data

/-- Nodes as they are written. -/
def nodesChars : List Node → List Char
  | [] => []
  | n :: ns => n.chars ++ nodesChars ns

end

/-- The text of an element. -/
def Element.render (e : Element) : String := String.ofList (Node.chars e)

end Presign.Xml
