import Presign.Xml.Reference
import Presign.Xml.Scope
import Presign.Xml.Token

/-!
# Reading start tags

The inside of a start tag is a name and attributes.  `attributes?` takes the
attributes apart without looking at their names, except that none may occur
twice.  `Tag.read` expands the values, sets the namespace declarations aside
and finds the namespace of every name.
-/

namespace Presign.Xml

/-! ## Attributes as written -/

/-- An attribute as written, with its references. -/
structure RawAttribute where
  key : List Char
  value : List Char

/-- Whether a character belongs to the name of an attribute, behind its first
character. -/
def isKeyChar (c : Char) : Bool := c ≠ '=' && !Token.isBlank c

/-- The value between quotes at the front of a text, and what follows. -/
def quotedValue? : List Char → Option (List Char × List Char)
  | [] => none
  | q :: cs => if q = '\x27' ∨ q = '\x22' then Text.aroundChar? q cs else none

theorem length_quotedValue?_lt {cs : List Char} {r : List Char × List Char}
    (h : quotedValue? cs = some r) : r.2.length < cs.length := by
  unfold quotedValue? at h
  split at h
  · cases h
  · split at h
    · exact Nat.lt_succ_of_lt (Text.length_aroundChar?_lt h)
    · cases h

/-- The attribute at the front of a text that begins with its name, and what
follows. -/
def attribute? (first : Char) (cs : List Char) : Option (RawAttribute × List Char) :=
  match (cs.dropWhile isKeyChar).dropWhile Token.isBlank with
  | '=' :: afterEquals =>
    (quotedValue? (afterEquals.dropWhile Token.isBlank)).map fun (value, rest) =>
      (⟨first :: cs.takeWhile isKeyChar, value⟩, rest)
  | _ => none

theorem length_attribute?_lt {first : Char} {cs : List Char} {r : RawAttribute × List Char}
    (h : attribute? first cs = some r) : r.2.length < cs.length := by
  unfold attribute? at h
  split at h
  · rename_i afterEquals found
    obtain ⟨value, inner, e⟩ := Option.map_eq_some_iff.1 h
    have h₁ := length_quotedValue?_lt inner
    have h₂ := (List.dropWhile_sublist Token.isBlank (l := afterEquals)).length_le
    have h₃ := (List.dropWhile_sublist Token.isBlank (l := cs.dropWhile isKeyChar)).length_le
    have h₄ := (List.dropWhile_sublist isKeyChar (l := cs)).length_le
    rw [found] at h₃
    simp only [List.length_cons] at h₃
    rw [← e]
    show value.2.length < cs.length
    omega
  · cases h

/-- The attributes of a text, in order. -/
def rawAttributes? (cs : List Char) : Option (List RawAttribute) :=
  match _start : cs.dropWhile Token.isBlank with
  | [] => some []
  | first :: more =>
    match _found : attribute? first more with
    | none => none
    | some (a, rest) => (rawAttributes? rest).map (a :: ·)
termination_by cs.length
decreasing_by
  have h₁ : rest.length < more.length := length_attribute?_lt _found
  have h₂ := (List.dropWhile_sublist Token.isBlank (l := cs)).length_le
  rw [_start] at h₂
  simp only [List.length_cons] at h₂
  omega

/-- An attribute value with its references replaced.  Before that, every white
space character becomes a space. -/
def expandValue? (raw : List Char) : Option String :=
  (expand? (raw.map fun c => if Token.isBlank c then ' ' else c)).map String.ofList

/-- The attributes of a text with their values, in order. -/
def attributes? (cs : List Char) : Option (List (String × String)) := do
  let raw ← rawAttributes? cs
  if (raw.map RawAttribute.key).Nodup then
    raw.mapM fun a => do return (String.ofList a.key, ← expandValue? a.value)
  else none

/-! ## Names -/

/-- The two parts of a written name, around its first colon. -/
def splitName (name : String) : Option String × String :=
  match Text.aroundChar? ':' name.toList with
  | some (qualifier, localPart) => (some (String.ofList qualifier), String.ofList localPart)
  | none => (none, name)

/-- The declaration that an attribute is, if it is one. -/
def declaration? (key value : String) : Option Declaration :=
  if key = "xmlns" then some ⟨none, value⟩
  else
    match splitName key with
    | (some "xmlns", qualifier) => some ⟨some qualifier, value⟩
    | _ => none

/-- An attribute with its namespace. -/
def readAttribute (scope : Scope) (key value : String) : Except Error Attribute := do
  let (qualifier, localPart) := splitName key
  return ⟨← scope.attributeName qualifier localPart, value⟩

/-- Reads the inside of a start tag in the scope of its parent. -/
def Tag.read (scope : Scope) (inside : List Char) : Except Error Tag := do
  let some attributes := attributes? (inside.dropWhile fun c => !Token.isBlank c)
    | .error .notWellFormed
  let declarations := attributes.filterMap fun (key, value) => declaration? key value
  let scope : Scope := declarations :: scope
  let name := String.ofList (inside.takeWhile fun c => !Token.isBlank c)
  let (qualifier, localPart) := splitName name
  let name ← scope.elementName qualifier localPart
  let others := attributes.filter fun (key, value) => (declaration? key value).isNone
  let attributes ← others.mapM fun (key, value) => readAttribute scope key value
  return ⟨name, declarations, attributes⟩

end Presign.Xml
