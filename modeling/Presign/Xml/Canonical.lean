import Presign.Octets
import Presign.Text.Utf8
import Presign.Xml.Printer

/-!
# Canonical form

The canonical form of an element is a text that does not depend on how the
document was written: no empty tags, attributes in order, one form for every
character, and namespace declarations where a rule puts them.  It is the text
that signatures cover.

Two rules place the declarations.  The inclusive rule writes every binding in
scope that differs from what an element around it has written.  The exclusive
rule writes only bindings that the tag itself uses, if no element around it
has written them.  An element around the canonicalized one counts as having
written nothing, so the bindings it provides are passed in.

`xmlns=""` is written only to undo a default namespace that has been written,
and the qualifier `xml` is never declared.
-/

namespace Presign.Xml

/-! ## Methods -/

/-- The rule that places namespace declarations. -/
inductive CanonicalRule where
  | inclusive10
  | inclusive11
  | exclusive
deriving DecidableEq, Repr

/-- A canonicalization method. -/
structure CanonicalMethod where
  /-- The rule that places namespace declarations. -/
  rule : CanonicalRule
  /-- Whether comments are kept. -/
  comments : Bool
deriving DecidableEq, Repr

namespace CanonicalMethod

/-- All methods. -/
def all : List CanonicalMethod :=
  [⟨.inclusive10, false⟩, ⟨.inclusive10, true⟩, ⟨.inclusive11, false⟩, ⟨.inclusive11, true⟩,
    ⟨.exclusive, false⟩, ⟨.exclusive, true⟩]

/-- The URI of a method without comments. -/
def ruleUri : CanonicalRule → String
  | .inclusive10 => "http://www.w3.org/TR/2001/REC-xml-c14n-20010315"
  | .inclusive11 => "http://www.w3.org/2006/12/xml-c14n11"
  | .exclusive => "http://www.w3.org/2001/10/xml-exc-c14n#"

/-- The URI of a method. -/
def uri (m : CanonicalMethod) : String :=
  match m.rule, m.comments with
  | rule, false => ruleUri rule
  | .exclusive, true => ruleUri .exclusive ++ "WithComments"
  | rule, true => ruleUri rule ++ "#WithComments"

/-- The method with a URI. -/
def ofUri (uri : String) : Except Error CanonicalMethod :=
  match all.find? fun m => m.uri == uri with
  | some m => .ok m
  | none => .error (.unsupportedMethod uri)

/-- The exclusive method without comments. -/
def exclusive : CanonicalMethod := ⟨.exclusive, false⟩

end CanonicalMethod

/-! ## Bindings -/

/-- What qualifiers stand for, in ascending order of the qualifiers.  The
default namespace has the empty qualifier. -/
abbrev Bindings := List (String × String)

namespace Bindings

/-- The URI that a qualifier stands for. -/
def get? (b : Bindings) (qualifier : String) : Option String :=
  (b.find? fun p => p.1 == qualifier).map Prod.snd

/-- Binds a qualifier, in place of an earlier binding. -/
def insert (qualifier uri : String) : Bindings → Bindings
  | [] => [(qualifier, uri)]
  | (q, u) :: rest =>
    if qualifier = q then (qualifier, uri) :: rest
    else if qualifier < q then (qualifier, uri) :: (q, u) :: rest
    else (q, u) :: insert qualifier uri rest

/-- Binds what a declaration declares. -/
def declare (b : Bindings) (d : Declaration) : Bindings :=
  let qualifier := d.qualifier.getD ""
  if qualifier = "xml" then b else insert qualifier d.uri b

/-- Binds what declarations declare, from left to right. -/
def declareAll (b : Bindings) (ds : List Declaration) : Bindings := ds.foldl declare b

/-- Binds what other bindings bind. -/
def update (b other : Bindings) : Bindings := other.foldl (fun b (q, u) => insert q u b) b

/-- The bindings that differ from those written around. -/
def changed (b written : Bindings) : Bindings :=
  b.filter fun (qualifier, uri) =>
    match written.get? qualifier with
    | some u => u ≠ uri
    | none => qualifier ≠ "" || uri ≠ ""

end Bindings

/-- The bindings that a tag uses: that of its name, and those of attributes
with a qualifier. -/
def Tag.used (t : Tag) : Bindings :=
  t.attributes.foldl
    (fun b a =>
      match a.name.qualifier, a.name.space with
      | some q, some uri => if q = "xml" then b else Bindings.insert q uri b
      | _, _ => b)
    [(t.name.qualifier.getD "", t.name.space.getD "")]

/-- The bindings that a tag declares in canonical form, given the bindings in
scope with its own and those written around it. -/
def Tag.canonicalBindings (rule : CanonicalRule) (scope written : Bindings) (t : Tag) : Bindings :=
  match rule with
  | .exclusive => t.used.changed written
  | _ => scope.changed written

/-! ## Tags -/

/-- The declaration that a binding is written as. -/
def bindingChars (b : String × String) : List Char :=
  Declaration.chars ⟨if b.1 = "" then none else some b.1, b.2⟩

/-- Whether an attribute may come before another: attributes without namespace
first, then by namespace, and in a namespace by local part. -/
def Attribute.canonicalLe (a b : Attribute) : Bool :=
  let s := a.name.space.getD ""
  let t := b.name.space.getD ""
  if s = t then a.name.localPart ≤ b.name.localPart else s < t

/-- The attributes in canonical order. -/
def canonicalAttributes (attributes : List Attribute) : List Attribute :=
  attributes.mergeSort Attribute.canonicalLe

/-- A start tag with given declarations. -/
def Tag.canonicalChars (t : Tag) (declared : Bindings) : List Char :=
  '<' :: t.name.qualified.toList ++ declared.flatMap bindingChars
    ++ (canonicalAttributes t.attributes).flatMap Attribute.chars ++ ['>']

/-- The end tag that belongs to a start tag. -/
def Tag.endChars (t : Tag) : List Char := ['<', '/'] ++ t.name.qualified.toList ++ ['>']

/-! ## Trees -/

mutual

/-- A node in canonical form, given the bindings in scope and those written
around it. -/
def Node.canonicalChars (m : CanonicalMethod) (scope written : Bindings) : Node → List Char
  | .element tag children =>
    let scope := scope.declareAll tag.declarations
    let declared := tag.canonicalBindings m.rule scope written
    tag.canonicalChars declared
      ++ canonicalNodes m scope (written.update declared) children ++ tag.endChars
  | .text s => escapeText s
  | .comment s => if m.comments then commentChars s else []
  | .instruction target data => instructionChars target data

/-- Nodes in canonical form. -/
def canonicalNodes (m : CanonicalMethod) (scope written : Bindings) : List Node → List Char
  | [] => []
  | n :: ns => n.canonicalChars m scope written ++ canonicalNodes m scope written ns

end

namespace Element

/-- The canonical form of an element with declarations of its ancestors,
outermost first. -/
def canonicalInScope (m : CanonicalMethod) (inherited : List Declaration) (e : Element) : String :=
  String.ofList (Node.canonicalChars m (Bindings.declareAll [] inherited) [] e)

/-- The canonical form of an element that has no ancestors. -/
def canonical (m : CanonicalMethod) (e : Element) : String := e.canonicalInScope m []

end Element

end Presign.Xml
