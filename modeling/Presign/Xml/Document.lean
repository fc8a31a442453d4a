import Presign.Text.Blank
import Presign.Text.Utf8
import Presign.Xml.StartTag

/-!
# Reading documents

A document is read token by token.  `Progress` holds the elements that are
open, innermost first, each with the children it has so far, and the root
element once it is closed.  `step` takes one token into account, so the first
fault of the document decides what error is given.

Before that, the octets are read as UTF-8, every line end becomes a line feed,
and one byte order mark is dropped.  What stands outside of the root element
is read too, but is not kept.
-/

namespace Presign.Xml

/-! ## Progress -/

/-- An element whose end tag has not come yet. -/
structure OpenElement where
  tag : Tag
  /-- The children so far, last one first. -/
  children : List Node

/-- What has been read so far. -/
structure Progress where
  /-- The open elements, innermost first. -/
  stack : List OpenElement
  /-- The root element, once it is closed. -/
  root : Option Element

namespace Progress

/-- Nothing has been read. -/
def start : Progress := ⟨[], none⟩

/-- The declarations of the open elements. -/
def scope (p : Progress) : Scope := p.stack.map fun o => o.tag.declarations

/-- The nodes with another one after them.  Text is joined to text. -/
def addNode (children : List Node) (n : Node) : List Node :=
  match children, n with
  | .text s :: rest, .text t => .text (s ++ t) :: rest
  | _, _ => n :: children

/-- Adds a node to the innermost open element.  Outside of the root element,
`outside` says what happens instead. -/
def add (p : Progress) (n : Node) (outside : Except Error Progress) : Except Error Progress :=
  match p.stack with
  | [] => outside
  | o :: os => .ok { p with stack := { o with children := addNode o.children n } :: os }

/-- Opens an element. -/
def openTag (p : Progress) (tag : Tag) : Progress := { p with stack := ⟨tag, []⟩ :: p.stack }

/-- Closes the innermost open element.  There is one when this is used. -/
def close (p : Progress) : Except Error Progress :=
  match p.stack with
  | [] => .error .notWellFormed
  | [o] =>
    if p.root.isSome then .error (.malformed .secondRoot)
    else .ok ⟨[], some ⟨o.tag, o.children.reverse⟩⟩
  | o :: parent :: os =>
    let closed : Node := .element o.tag o.children.reverse
    .ok { p with stack := { parent with children := closed :: parent.children } :: os }

/-- The target and the data of a processing instruction. -/
def splitInstruction (content : List Char) : Node :=
  let isBlank (c : Char) := Octets.isBlank (UInt8.ofNat c.toNat) && c.toNat < 128
  .instruction (String.ofList (content.takeWhile fun c => !isBlank c))
    (String.ofList (Text.trimStart ((content.dropWhile fun c => !isBlank c).drop 1)))

/-- Takes one token into account. -/
def step (p : Progress) : Token → Except Error Progress
  | .startTag inside => do return p.openTag (← Tag.read p.scope inside)
  | .emptyTag inside => do (p.openTag (← Tag.read p.scope inside)).close
  | .endTag name =>
    match p.stack with
    | [] => .error .notWellFormed
    | o :: _ =>
      if o.tag.name.qualified = String.ofList name then p.close else .error .notWellFormed
  | .text raw =>
    match expand? raw with
    | none => .error .notWellFormed
    | some cs =>
      p.add (.text (String.ofList cs))
        (if cs.all Text.isBlank then .ok p else .error (.malformed .textOutside))
  | .cdata content => p.add (.text (String.ofList content)) (.error (.malformed .cdataOutside))
  | .comment content => p.add (.comment (String.ofList content)) (.ok p)
  | .instruction content => p.add (splitInstruction content) (.ok p)
  | .skipped => .ok p
  | .broken => .error .notWellFormed

/-- The root element, when all has been read. -/
def finish (p : Progress) : Except Error Element :=
  if !p.stack.isEmpty then .error (.malformed .unclosed)
  else
    match p.root with
    | some e => .ok e
    | none => .error (.malformed .noRoot)

end Progress

/-! ## Documents -/

/-- A text in which every line end is a line feed. -/
def normalizeLines : List Char → List Char
  | [] => []
  | '\r' :: '\n' :: cs => '\n' :: normalizeLines cs
  | '\r' :: cs => '\n' :: normalizeLines cs
  | c :: cs => c :: normalizeLines cs

/-- A text without a byte order mark at its start. -/
def dropMark : List Char → List Char
  | '\uFEFF' :: cs => cs
  | cs => cs

namespace Element

/-- Reads the characters of a document. -/
def readChars (cs : List Char) : Except Error Element := do
  let tokens := Token.scan (dropMark (normalizeLines cs))
  (← tokens.foldlM Progress.step Progress.start).finish

/-- Reads a document and gives its root element. -/
def read (bs : Octets) : Except Error Element :=
  match Text.decode? bs with
  | some s => readChars s.toList
  | none => .error .notWellFormed

end Element

end Presign.Xml
