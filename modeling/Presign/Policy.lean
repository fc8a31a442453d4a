import Presign.Refusal

/-!
# Policies

What an operator allows: the processing rules that clients may ask for, how
old a claimed time may be, and whether input that violates a standard is
refused or mended.  An age and a tolerance are spans of time, which are numbers of
nanoseconds.
-/

namespace Presign

/-- What an operator allows. -/
structure Policy where
  /-- The processing rules that clients may ask for. -/
  supportedRules : List String := []
  /-- Whether input that violates a standard is refused, and not mended. -/
  strict : Bool := false
  /-- Whether references to certificates hold issuer and serial number. -/
  includeIssuerSerial : Bool := false
  /-- The tolerance for clocks that differ. -/
  clockSkew : Nat := Time.ofSeconds 30
  /-- The age of a message that is still accepted. -/
  messageAge : Nat := Time.ofSeconds 180
deriving DecidableEq, Repr

/-- What every preparation needs of a request. -/
structure Essentials where
  data : Octets
  type : SignatureType
deriving DecidableEq

/-- The data and the type of a request. -/
def Request.essentials (r : Request) : Except Refusal Essentials :=
  match r.data, r.type with
  | none, _ => .error (.invalid .noData)
  | some _, none => .error (.invalid .noType)
  | some data, some type => .ok ⟨data, type⟩

namespace Policy

/-- Checks the processing rule of a request.  No rule is always accepted. -/
def checkRule (p : Policy) (rule : Option String) : Except Refusal Unit :=
  match rule with
  | none => .ok ()
  | some rule =>
    if p.supportedRules.contains rule then .ok ()
    else .error (.violation (.unsupportedRule rule p.supportedRules))

/-- Checks a claimed time of signing. -/
def checkTime (p : Policy) (now claimed : Time.Instant) : Except Refusal Unit :=
  ((Time.Window.around now p.messageAge p.clockSkew).check claimed).mapError
    fun side => .invalid (.misplacedTime side)

/-- Checks that a request may be processed as one of a given type. -/
def allow (p : Policy) (rule : Option String) (type expected : SignatureType) :
    Except Refusal Unit := do
  p.checkRule rule
  if type = expected then .ok () else .error (.violation (.otherType expected))

end Policy

end Presign
