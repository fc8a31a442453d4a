import Presign.JsonText.Token

/-!
# JSON documents

A document is one value.  Its tokens are taken one by one.  `Progress` holds
the arrays and objects that are open, innermost first, and what may come next.
-/

namespace Presign.JsonText

/-- An array or an object that is not closed yet. -/
inductive Container where
  /-- An array with its items so far, last one first. -/
  | array (items : List Value)
  /-- An object with its members so far, last one first. -/
  | object (members : List (Option String × Value))
  /-- An object that waits for the value of a member. -/
  | member (members : List (Option String × Value)) (key : Option String)

/-- What may come next. -/
inductive Expected where
  /-- A value. -/
  | value
  /-- A value, or the end of an empty array. -/
  | firstItem
  /-- The key of a member. -/
  | key
  /-- The key of a member, or the end of an empty object. -/
  | firstKey
  /-- The colon behind a key. -/
  | colon
  /-- A comma or the end of what is open, or the end of the text. -/
  | separator
deriving DecidableEq, Repr

/-- What has been read so far. -/
structure Progress where
  /-- The open containers, innermost first. -/
  stack : List Container
  /-- What may come next. -/
  expected : Expected
  /-- The value of the document, once it is complete. -/
  root : Option Value

namespace Progress

/-- Nothing has been read. -/
def start : Progress := ⟨[], .value, none⟩

/-- Adds a complete value. -/
def add (v : Value) (stack : List Container) : Progress :=
  match stack with
  | [] => ⟨[], .separator, some v⟩
  | .array items :: rest => ⟨.array (v :: items) :: rest, .separator, none⟩
  | .object members :: rest => ⟨.object members :: rest, .separator, none⟩
  | .member members key :: rest => ⟨.object ((key, v) :: members) :: rest, .separator, none⟩

/-- Whether a value may come next. -/
def wantsValue (p : Progress) : Bool := p.expected == .value || p.expected == .firstItem

/-- Takes one token into account. -/
def step? (p : Progress) (t : Token) : Option Progress :=
  match t, p.expected, p.stack with
  | .simple (.string key), .key, .object members :: rest =>
    some { p with stack := .member members key :: rest, expected := .colon }
  | .simple (.string key), .firstKey, .object members :: rest =>
    some { p with stack := .member members key :: rest, expected := .colon }
  | .simple v, _, stack => if p.wantsValue then some (add v stack) else none
  | .beginArray, _, stack =>
    if p.wantsValue then some { p with stack := .array [] :: stack, expected := .firstItem }
    else none
  | .beginObject, _, stack =>
    if p.wantsValue then some { p with stack := .object [] :: stack, expected := .firstKey }
    else none
  | .endArray, .firstItem, .array items :: rest => some (add (.array items.reverse) rest)
  | .endArray, .separator, .array items :: rest => some (add (.array items.reverse) rest)
  | .endObject, .firstKey, .object members :: rest => some (add (.object members.reverse) rest)
  | .endObject, .separator, .object members :: rest => some (add (.object members.reverse) rest)
  | .comma, .separator, .array items :: rest =>
    some { p with stack := .array items :: rest, expected := .value }
  | .comma, .separator, .object members :: rest =>
    some { p with stack := .object members :: rest, expected := .key }
  | .colon, .colon, stack => some { p with stack, expected := .value }
  | _, _, _ => none

end Progress

/-- Reads a document. -/
def read? (text : String) : Option Value := do
  let tokens ← Token.scan? text.toList
  (← tokens.foldlM Progress.step? Progress.start).root

end Presign.JsonText
