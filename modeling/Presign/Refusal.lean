import Presign.Cms.Fault
import Presign.Request
import Presign.SignedInfo.Fault
import Presign.Time.Window

/-!
# Refusals

Why a request is not granted.  A refusal has a cause and a kind.  The kind
says who has to act on it: the program that calls, the client that has sent
the request, or nobody, since the request violates the standards.

The same cause is an invalid request while a request is checked, and a
signature error once its processing has begun.  `onSigning` is that step.
-/

namespace Presign

/-- What a refusal is about. -/
inductive Cause where
  /-- The request has no data. -/
  | noData
  /-- The request has no type. -/
  | noType
  /-- The caller selects by a type that is not there. -/
  | missingType
  /-- The request is for a signature of another type. -/
  | otherType (expected : SignatureType)
  /-- Nothing prepares signatures of this type. -/
  | unsupportedType (type : SignatureType)
  /-- The processing rule is none of those that are supported. -/
  | unsupportedRule (rule : String) (supported : List String)
  /-- The time of signing lies outside of the window. -/
  | misplacedTime (side : Time.Misplaced)
  /-- The algorithm has no valid object identifier. -/
  | noIdentifier (algorithm : SignatureAlgorithm)
  /-- The signed attributes are at fault. -/
  | attributes (fault : Cms.Fault)
  /-- The signed information is at fault. -/
  | signedInfo (fault : SignedInfo.Fault)
deriving DecidableEq

/-- The text of a cause. -/
def Cause.message : Cause → String
  | .noData => "Null TBS data in sign request"
  | .noType => "SignatureType must not be null"
  | .missingType => "Signature type must not be null"
  | .otherType expected => "Signature type must be " ++ expected.text
  | .unsupportedType type => type.text
  | .unsupportedRule rule supported =>
    "Processing rule " ++ rule ++ " is not supported. Expected one of ["
      ++ String.intercalate ", " supported ++ "]"
  | .misplacedTime .future => "Signature request contains an illegal signing time (future date)"
  | .misplacedTime .tooOld => "Signature request contains an illegal signing time (too old)"
  | .noIdentifier algorithm =>
    "Signature algorithm " ++ algorithm.uri ++ " has no CMS object identifier"
  | .attributes fault => fault.message
  | .signedInfo fault => fault.message

/-- Who has to act on a refusal. -/
inductive RefusalKind where
  /-- The caller left out something. -/
  | programming
  /-- The client can correct the request. -/
  | invalidRequest
  /-- The request violates a standard or a rule. -/
  | signature
  /-- Signatures of this type are not supported. -/
  | unsupportedType
deriving DecidableEq, Repr

/-- Why a request is not granted. -/
structure Refusal where
  kind : RefusalKind
  cause : Cause
deriving DecidableEq

namespace Refusal

/-- The words in front of the cause. -/
def opening : RefusalKind → String
  | .programming => "programming error: "
  | .invalidRequest => "invalid request: "
  | .signature => "signature error: "
  | .unsupportedType => "unsupported signature type: "

/-- The text of a refusal. -/
def message (r : Refusal) : String := opening r.kind ++ r.cause.message

/-- Whether clients see a refusal as a signature error. -/
def isSignatureError (r : Refusal) : Bool :=
  r.kind == .signature || r.kind == .unsupportedType

/-- The refusal of a request whose processing has begun. -/
def onSigning (r : Refusal) : Refusal :=
  if r.kind = .invalidRequest then { r with kind := .signature } else r

/-- A refusal that the client can act on. -/
def invalid (c : Cause) : Refusal := ⟨.invalidRequest, c⟩

/-- A refusal for violating a standard or a rule. -/
def violation (c : Cause) : Refusal := ⟨.signature, c⟩

end Refusal

end Presign
