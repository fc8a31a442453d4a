import Presign.Key
import Presign.KeyStack.Protocol

/-!
# Using a key stack

A key stack in the hands of one caller.  The caller comes first, and where it
has to wait, the worker goes on.  Keys are generated from a seed and the number
of keys drawn before, so that no two of them are drawn alike.

`acquire` takes a key, and `settle` lets the worker fill the stack.  A call may not
come to an end, since it waits for one worker after the other as long as they
fail.
-/

namespace Presign

/-- How many keys are kept ready, and of what size. -/
structure KeyStackConfig where
  /-- The number of bits of the keys. -/
  keyBits : Nat := 2048
  /-- The number of keys that are kept ready.  With zero every key is generated
  when it is asked for. -/
  stackSize : Nat := 0
deriving DecidableEq, Repr

deriving instance DecidableEq for PrivateKey

/-- A key stack. -/
structure KeyStack where
  config : KeyStackConfig
  /-- What keys are generated from. -/
  seed : Octets
  /-- The number of keys drawn so far. -/
  drawn : Nat
  /-- The state of the stack. -/
  state : KeyStack.State PrivateKey

namespace KeyStack

/-- A stack that has started a worker, if it has a size. -/
def ofConfig (config : KeyStackConfig) (seed : Octets) : KeyStack :=
  ⟨config, seed, 0, .initial config.stackSize true⟩

/-- The number of keys that are ready. -/
def readyKeys (k : KeyStack) : Nat := k.state.ready.length

/-- The key that is drawn next. -/
def nextKey (k : KeyStack) : Option PrivateKey :=
  (PrivateKey.generateRsa k.config.keyBits (k.seed ++ Octets.ofNatWidth 8 k.drawn)).toOption

/-! ## The next event -/

/-- What a call does next, unless it waits or has ended. -/
def callEvent? (k : KeyStack) (i : Nat) : Call PrivateKey → Option (Event PrivateKey)
  | .entering => some (.lock i)
  | .looking => some (.look i)
  | .claiming => some (.claim i)
  | .starting => some (.start i true)
  | .waiting => some (.wait i)
  | .leaving _ => some (.claim i)
  | .startingLate _ => some (.start i true)
  | .generating => some (.generate i k.nextKey)
  | .blocked => none
  | .done _ => none

/-- What a worker does next, unless it has ended. -/
def workerEvent? (k : KeyStack) (w : Nat) : Worker PrivateKey → Option (Event PrivateKey)
  | .checking => some (.check w)
  | .generating => some (.produce w k.nextKey)
  | .adding _ => some (.add w)
  | .announcing => some (.announce w (k.state.calls.findIdx? State.isBlocked))
  | .failing => some (.giveUp w)
  | .closing => some (.close w)
  | .gone => none

/-- What the first worker that has not ended does next. -/
def nextWorkerEvent? (k : KeyStack) : Option (Event PrivateKey) :=
  (k.state.workers.zipIdx).findSome? fun (worker, w) => k.workerEvent? w worker

/-- Whether an event draws a key. -/
def draws : Event PrivateKey → Bool
  | .generate _ _ => true
  | .produce _ _ => true
  | _ => false

/-- The stack after an event, if the event can happen. -/
def after? (k : KeyStack) (event : Event PrivateKey) : Option KeyStack :=
  (k.state.after? event).map fun state =>
    { k with state, drawn := if draws event then k.drawn + 1 else k.drawn }

/-! ## Use -/

/-- Runs a call to its end, in a given number of events at most. -/
def finishCall (i : Nat) : (events : Nat) → KeyStack → Option (Option PrivateKey × KeyStack)
  | 0, _ => none
  | events + 1, k =>
    match k.state.calls[i]? with
    | none => none
    | some (.done key) => some (key, k)
    | some c =>
      match ((k.callEvent? i c).or k.nextWorkerEvent?).bind k.after? with
      | none => none
      | some k => finishCall i events k

/-- The number of events that a call takes at most if no generation fails. -/
def callEvents : Nat := 32

/-- Takes a key.  There is none, and no failure either, if the call does not come to
an end. -/
def acquire (k : KeyStack) : Option (Except KeyError PrivateKey × KeyStack) :=
  match (k.after? .begin).bind (finishCall k.state.calls.length callEvents) with
  | some (some key, k) => some (.ok key, k)
  | some (none, k) => some (.error .rsa, k)
  | none => none

/-- Generates a key of a curve.  These are not kept ready, since they take no
time. -/
def generateEc (k : KeyStack) (c : Curve) : PrivateKey × KeyStack :=
  (PrivateKey.generateEc c (k.seed ++ Octets.ofNatWidth 8 k.drawn),
    { k with drawn := k.drawn + 1 })

/-- Lets the worker go on for a given number of events at most, until the stack
is full. -/
def work : (events : Nat) → KeyStack → KeyStack
  | 0, k => k
  | events + 1, k =>
    if k.state.hasRoom then
      match k.nextWorkerEvent?.bind k.after? with
      | none => k
      | some k => work events k
    else k

/-- Lets the worker fill the stack.  A key takes four events. -/
def settle (k : KeyStack) : KeyStack := work (4 * (k.config.stackSize + 2)) k

end KeyStack

end Presign
