/-!
# XML trees

An element is a start tag and its children.  A tag keeps names and namespace
declarations as they are written, and every name also carries the namespace it
stands for.  So a tree can be written back, canonicalized, and searched by
namespace.

A default declaration with an empty URI undoes the default namespace.
-/

namespace Presign.Xml

/-! ## Types -/

/-- The name of an element or an attribute. -/
structure Name where
  /-- What stands before the colon, if there is one. -/
  qualifier : Option String
  /-- What stands after the colon. -/
  localPart : String
  /-- The URI of the namespace that the name belongs to. -/
  space : Option String
deriving DecidableEq, Repr

/-- A namespace declaration, of the default namespace or of a qualifier. -/
structure Declaration where
  /-- The declared qualifier. -/
  qualifier : Option String
  /-- The URI that it stands for. -/
  uri : String
deriving DecidableEq, Repr

/-- An attribute that is no namespace declaration. -/
structure Attribute where
  name : Name
  value : String
deriving DecidableEq, Repr

/-- A start tag. -/
structure Tag where
  name : Name
  declarations : List Declaration
  attributes : List Attribute
deriving DecidableEq, Repr

/-- A node of a tree. -/
inductive Node where
  | element (tag : Tag) (children : List Node)
  | text (content : String)
  | comment (content : String)
  | instruction (target data : String)

/-- An element. -/
structure Element where
  tag : Tag
  children : List Node

instance : Coe Element Node := ⟨fun e => .element e.tag e.children⟩

/-! ## Equality -/

mutual

/-- Whether two nodes are equal. -/
def Node.same : Node → Node → Bool
  | .element tag children, .element tag' children' => tag == tag' && sameNodes children children'
  | .text s, .text t => s == t
  | .comment s, .comment t => s == t
  | .instruction a s, .instruction b t => a == b && s == t
  | _, _ => false

/-- Whether two lists of nodes are equal. -/
def sameNodes : List Node → List Node → Bool
  | [], [] => true
  | n :: ns, m :: ms => n.same m && sameNodes ns ms
  | _, _ => false

end

mutual

theorem Node.eq_of_same : (n m : Node) → n.same m = true → n = m
  | .element tag children, .element tag' children', h => by
    simp only [Node.same, Bool.and_eq_true, beq_iff_eq] at h
    rw [h.1, eq_of_sameNodes children children' h.2]
  | .text _, .text _, h => by simpa [Node.same] using h
  | .comment _, .comment _, h => by simpa [Node.same] using h
  | .instruction _ _, .instruction _ _, h => by simpa [Node.same] using h
  | .element _ _, .text _, h => by simp [Node.same] at h
  | .element _ _, .comment _, h => by simp [Node.same] at h
  | .element _ _, .instruction _ _, h => by simp [Node.same] at h
  | .text _, .element _ _, h => by simp [Node.same] at h
  | .text _, .comment _, h => by simp [Node.same] at h
  | .text _, .instruction _ _, h => by simp [Node.same] at h
  | .comment _, .element _ _, h => by simp [Node.same] at h
  | .comment _, .text _, h => by simp [Node.same] at h
  | .comment _, .instruction _ _, h => by simp [Node.same] at h
  | .instruction _ _, .element _ _, h => by simp [Node.same] at h
  | .instruction _ _, .text _, h => by simp [Node.same] at h
  | .instruction _ _, .comment _, h => by simp [Node.same] at h

theorem eq_of_sameNodes : (ns ms : List Node) → sameNodes ns ms = true → ns = ms
  | [], [], _ => rfl
  | n :: ns, m :: ms, h => by
    simp only [sameNodes, Bool.and_eq_true] at h
    rw [Node.eq_of_same n m h.1, eq_of_sameNodes ns ms h.2]
  | [], _ :: _, h => by simp [sameNodes] at h
  | _ :: _, [], h => by simp [sameNodes] at h

end

mutual

theorem Node.same_self : (n : Node) → n.same n = true
  | .element _ children => by simp [Node.same, sameNodes_self children]
  | .text _ => by simp [Node.same]
  | .comment _ => by simp [Node.same]
  | .instruction _ _ => by simp [Node.same]

theorem sameNodes_self : (ns : List Node) → sameNodes ns ns = true
  | [] => rfl
  | n :: ns => by simp [sameNodes, Node.same_self n, sameNodes_self ns]

end

instance : DecidableEq Node := fun n m =>
  if h : n.same m = true then .isTrue (Node.eq_of_same n m h)
  else .isFalse fun e => h (e ▸ Node.same_self n)

deriving instance DecidableEq for Element

/-! ## Names -/

/-- A name as it is written. -/
def Name.qualified (n : Name) : String :=
  match n.qualifier with
  | some q => q ++ ":" ++ n.localPart
  | none => n.localPart

/-- Whether a name belongs to a namespace and has a local part. -/
def Name.is (n : Name) (space localPart : String) : Bool :=
  n.space == some space && n.localPart == localPart

namespace Element

/-- The name of an element. -/
def name (e : Element) : Name := e.tag.name

/-- Whether the name of an element belongs to a namespace and has a local
part. -/
def is (e : Element) (space localPart : String) : Bool := e.name.is space localPart

end Element

/-- The element that a node is. -/
def Node.element? : Node → Option Element
  | .element tag children => some ⟨tag, children⟩
  | _ => none

/-! ## Errors -/

/-- What a well-formed document lacks to be one element. -/
inductive DocumentFault where
  /-- Text stands outside of the root element. -/
  | textOutside
  /-- A CDATA section stands outside of the root element. -/
  | cdataOutside
  /-- A second element follows the root element. -/
  | secondRoot
  /-- An element is not closed at the end. -/
  | unclosed
  /-- There is no element. -/
  | noRoot
deriving DecidableEq, Repr

/-- The text of a document fault. -/
def DocumentFault.message : DocumentFault → String
  | .textOutside => "text outside of the root element"
  | .cdataOutside => "CDATA outside of the root element"
  | .secondRoot => "more than one root element"
  | .unclosed => "unclosed element"
  | .noRoot => "no root element"

/-- Why a document cannot be read or canonicalized. -/
inductive Error where
  /-- The text is not well formed. -/
  | notWellFormed
  /-- The document is not one element. -/
  | malformed (fault : DocumentFault)
  /-- A qualifier is used where nothing binds it. -/
  | unbound (qualifier : String)
  /-- No canonicalization method has this URI. -/
  | unsupportedMethod (uri : String)
deriving DecidableEq, Repr

/-- The text of an error. -/
def Error.message : Error → String
  | .notWellFormed => "XML parsing error: "
  | .malformed fault => "malformed XML: " ++ fault.message
  | .unbound qualifier => "namespace prefix \x60" ++ qualifier ++ "\x60 is not bound"
  | .unsupportedMethod uri => "unsupported canonicalization algorithm: " ++ uri

/-! ## Namespaces -/

/-- The namespace of XML signatures. -/
def signatureSpace : String := "http://www.w3.org/2000/09/xmldsig#"

/-- The namespace of XAdES properties. -/
def xadesSpace : String := "http://uri.etsi.org/01903/v1.3.2#"

/-- The namespace that the qualifier of XML itself always stands for. -/
def xmlSpace : String := "http://www.w3.org/XML/1998/namespace"

end Presign.Xml
