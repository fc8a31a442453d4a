import Presign.Cms.Preparation
import Presign.SignedInfo.Preparation

/-!
# Preparers

A preparer handles the requests for one type of signature.  `forType` selects
the one that a request needs.  Both preparers check a request of any type by
their own rules, and prepare only those of their type.
-/

namespace Presign

/-- A preparer. -/
inductive Preparer where
  /-- Signed information of XML signatures. -/
  | xml
  /-- Signed attributes of PDF signatures. -/
  | pdf
deriving DecidableEq, Repr

namespace Preparer

/-- All preparers. -/
def all : List Preparer := [.xml, .pdf]

/-- The type of signature that a preparer handles. -/
def type : Preparer → SignatureType
  | .xml => .xml
  | .pdf => .pdf

/-- Whether a preparer handles a type of signature. -/
def supports (p : Preparer) (type : SignatureType) : Bool := p.type == type

/-- The preparer for a type of signature. -/
def forType (type : Option SignatureType) : Except Refusal Preparer :=
  match type with
  | none => .error ⟨.programming, .missingType⟩
  | some type =>
    match all.find? fun p => p.supports type with
    | some p => .ok p
    | none => .error ⟨.unsupportedType, .unsupportedType type⟩

/-- Checks a request. -/
def check (p : Preparer) (policy : Policy) (now : Time.Instant) (r : Request)
    (a : SignatureAlgorithm) : Except Refusal Unit :=
  match p with
  | .xml => (SignedInfo.check policy now r a).map fun _ => ()
  | .pdf => (Cms.check policy now r a).map fun _ => ()

/-- Checks a request and prepares the data to sign. -/
def prepare (p : Preparer) (policy : Policy) (now : Time.Instant) (r : Request)
    (c : Certificate) (a : SignatureAlgorithm) : Except Refusal Prepared :=
  match p with
  | .xml => SignedInfo.prepare policy now r c a
  | .pdf => Cms.prepare policy now r c a

end Preparer

end Presign
