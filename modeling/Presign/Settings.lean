import Presign.Digest.Method
import Presign.JsonText.Document
import Presign.KeyStack.Schedule
import Presign.Policy

/-!
# Settings

Policies, key stack settings and the names of choices, as they are written in
JSON.  A missing member of a record has its default.  Reading gives nothing if
a member has another shape than it needs.
-/

namespace Presign

open JsonText (Value)

/-! ## Choices -/

namespace KeyType

/-- All key types. -/
def all : List KeyType := [.rsa, .ec]

/-- The name of a key type in settings. -/
def settingName : KeyType → String
  | .rsa => "Rsa"
  | .ec => "Ec"

/-- The key type with a name in settings. -/
def ofSettingName? (s : String) : Option KeyType := all.find? fun t => t.settingName == s

end KeyType

/-- Reads a choice by its name. -/
def ofChoice? {α : Type} (ofName? : String → Option α) (v : Value) : Option α :=
  v.choice?.bind ofName?

/-! ## Policies -/

namespace Policy

/-- The names of the members of a policy. -/
def memberNames : List String :=
  ["supportedProcessingRules", "strictProcessing", "includeIssuerSerial", "allowedClockSkew",
    "maxMessageAge"]

/-- Reads a span of time, which is written as a number of seconds. -/
def readSpan? (v : Value) : Option Nat := v.whole?.map Time.ofSeconds

/-- Reads a policy. -/
def ofValue? (v : Value) : Option Policy := do
  match ← v.record? memberNames with
  | [rules, strict, serial, skew, age] =>
    let default : Policy := {}
    return {
      supportedRules := ← Value.orElse Value.texts? default.supportedRules rules
      strict := ← Value.orElse Value.bool? default.strict strict
      includeIssuerSerial := ← Value.orElse Value.bool? default.includeIssuerSerial serial
      clockSkew := ← Value.orElse readSpan? default.clockSkew skew
      messageAge := ← Value.orElse readSpan? default.messageAge age }
  | _ => none

/-- The value of a policy.  The parts of a second are left out of its spans. -/
def toValue (p : Policy) : Value :=
  .ofRecord (memberNames.zip
    [.array (p.supportedRules.map .ofText), .bool p.strict, .bool p.includeIssuerSerial,
      .whole (p.clockSkew / Time.nanosPerSecond), .whole (p.messageAge / Time.nanosPerSecond)])

end Policy

/-! ## Key stacks -/

namespace KeyStackConfig

/-- The names of the members of key stack settings. -/
def memberNames : List String := ["rsaKeyBits", "stackSize"]

/-- Reads key stack settings. -/
def ofValue? (v : Value) : Option KeyStackConfig := do
  match ← v.record? memberNames with
  | [bits, size] =>
    let default : KeyStackConfig := {}
    return {
      keyBits := ← Value.orElse Value.whole? default.keyBits bits
      stackSize := ← Value.orElse Value.whole? default.stackSize size }
  | _ => none

/-- The value of key stack settings. -/
def toValue (c : KeyStackConfig) : Value :=
  .ofRecord (memberNames.zip [.whole c.keyBits, .whole c.stackSize])

end KeyStackConfig

end Presign
