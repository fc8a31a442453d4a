import Presign.Xml.Tree

/-!
# Namespaces in scope

A scope is the declarations of the open elements, innermost element first.
The innermost declaration of a qualifier decides what it stands for, and of
several on one element the last.  The qualifier `xml` always stands for the
namespace of XML itself, whatever is declared.
-/

namespace Presign.Xml

/-- The declarations of the open elements, innermost element first. -/
abbrev Scope := List (List Declaration)

namespace Scope

/-- The URI of the declaration that decides for a qualifier. -/
def lookup? (scope : Scope) (qualifier : Option String) : Option String :=
  scope.findSome? fun ds =>
    (ds.reverse.find? fun d => d.qualifier == qualifier).map Declaration.uri

/-- The namespace of an element name without a qualifier. -/
def defaultSpace (scope : Scope) : Option String :=
  (scope.lookup? none).filter fun uri => uri ≠ ""

/-- The namespace that a qualifier stands for. -/
def spaceOf (scope : Scope) (qualifier : String) : Except Error String :=
  if qualifier = "xml" then .ok xmlSpace
  else
    match scope.lookup? (some qualifier) with
    | some uri => if uri = "" then .error (.unbound qualifier) else .ok uri
    | none => .error (.unbound qualifier)

/-- An element name with its namespace. -/
def elementName (scope : Scope) (qualifier : Option String) (localPart : String) :
    Except Error Name :=
  match qualifier with
  | none => .ok ⟨none, localPart, scope.defaultSpace⟩
  | some q => do return ⟨some q, localPart, some (← scope.spaceOf q)⟩

/-- An attribute name with its namespace.  Without a qualifier there is none. -/
def attributeName (scope : Scope) (qualifier : Option String) (localPart : String) :
    Except Error Name :=
  match qualifier with
  | none => .ok ⟨none, localPart, none⟩
  | some q => do return ⟨some q, localPart, some (← scope.spaceOf q)⟩

end Scope

end Presign.Xml
