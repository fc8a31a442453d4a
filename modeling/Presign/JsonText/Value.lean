/-!
# JSON values

Values as settings need them.  A number counts only if it is written as a
whole number without a sign, below 2⁶⁴.  Of any other number nothing is kept.
A string that names half of a surrogate pair is no text, and nothing is kept
of it either.  The members of an object keep their order and may repeat.

A record is read from an object or from an array.  In an object the members
may have any order, none that is known may repeat, and others are ignored.  In
an array the members come in the order of the record, and the last ones may be
missing.  A choice is read from its name, or from an object that gives its
name the value null.
-/

namespace Presign.JsonText

/-- A value. -/
inductive Value where
  | null
  | bool (b : Bool)
  /-- A whole number below 2⁶⁴. -/
  | whole (n : Nat)
  /-- Any other number. -/
  | number
  /-- A string, and its text if it is one. -/
  | string (text : Option String)
  | array (items : List Value)
  | object (members : List (Option String × Value))
deriving Inhabited, Repr

namespace Value

/-! ## Simple values -/

/-- The truth value that a value is. -/
def bool? : Value → Option Bool
  | .bool b => some b
  | _ => none

/-- The whole number that a value is. -/
def whole? : Value → Option Nat
  | .whole n => some n
  | _ => none

/-- The text that a value is. -/
def text? : Value → Option String
  | .string text => text
  | _ => none

/-- The texts that an array holds. -/
def texts? : Value → Option (List String)
  | .array items => items.mapM text?
  | _ => none

/-- The value of a text. -/
def ofText (s : String) : Value := .string (some s)

/-! ## Records -/

/-- The values of the members with a name. -/
def membersOf (name : String) (members : List (Option String × Value)) : List Value :=
  members.filterMap fun (key, v) => if key = some name then some v else none

/-- The member with a name.  It may be missing but not repeat. -/
def member? (members : List (Option String × Value)) (name : String) : Option (Option Value) :=
  match membersOf name members with
  | [] => some none
  | [v] => some (some v)
  | _ => none

/-- The members of a record with given names, in the order of the names. -/
def record? (names : List String) : Value → Option (List (Option Value))
  | .object members =>
    if members.all fun (key, _) => key.isSome then names.mapM (member? members) else none
  | .array items =>
    if items.length ≤ names.length then
      some (items.map some ++ List.replicate (names.length - items.length) none)
    else none
  | _ => none

/-- Reads a member that has a default. -/
def orElse {α : Type} (read : Value → Option α) (default : α) : Option Value → Option α
  | none => some default
  | some v => read v

/-- The value of a record. -/
def ofRecord (members : List (String × Value)) : Value :=
  .object (members.map fun (key, v) => (some key, v))

/-! ## Choices -/

/-- The name of a choice. -/
def choice? : Value → Option String
  | .string text => text
  | .object [(key, .null)] => key
  | _ => none

end Value

end Presign.JsonText
