/-!
# The key stack as a protocol

RSA keys take long to generate, so a stack keeps some ready.  Calls take keys
from its front, and a worker adds keys at its end until the stack is full.  A
flag says that a worker is at work or about to be started, so that there is
one at a time.

The stack has a lock, and calls that find it empty wait for a signal.  An
event is one step that nothing can come between: to take the lock, to use what
it protects and give it back, to claim the flag, to start a worker, to generate
a key, to wait, to signal.  A worker gives the lock back in the step that takes
it.  A call keeps it from looking at the stack until it leaves or waits.

Starting a worker and generating a key may fail, so these events carry their
outcome.  A signal to one call carries the call that it wakes.
-/

namespace Presign.KeyStack

/-! ## States -/

/-- Where a call stands. -/
inductive Call (κ : Type) where
  /-- It is about to take the lock. -/
  | entering
  /-- It has the lock and is about to look at the stack. -/
  | looking
  /-- It has the lock, has found the stack empty, and is about to claim the
  flag. -/
  | claiming
  /-- It has the lock and the flag, and is about to start a worker. -/
  | starting
  /-- It has the lock and is about to wait. -/
  | waiting
  /-- It waits for a signal. -/
  | blocked
  /-- It has left the lock, with a key or without, and is about to claim the
  flag. -/
  | leaving (key : Option κ)
  /-- It has left the lock and has the flag, and is about to start a worker. -/
  | startingLate (key : Option κ)
  /-- It is about to generate a key of its own. -/
  | generating
  /-- It has ended, with a key or with a failed generation. -/
  | done (key : Option κ)
deriving DecidableEq, Repr

/-- Where a worker stands. -/
inductive Worker (κ : Type) where
  /-- It is about to check whether there is more to do. -/
  | checking
  /-- It is about to generate a key. -/
  | generating
  /-- It is about to add a key. -/
  | adding (key : κ)
  /-- It has added a key and is about to signal to one call. -/
  | announcing
  /-- It has failed to generate a key and is about to release the flag. -/
  | failing
  /-- It has released the flag and is about to signal to all calls. -/
  | closing
  /-- It has ended. -/
  | gone
deriving DecidableEq, Repr

/-- The state of a key stack. -/
structure State (κ : Type) where
  /-- The number of keys that are kept ready. -/
  size : Nat
  /-- The keys that are ready, first one first. -/
  ready : List κ
  /-- Whether a worker is at work or about to be started. -/
  refilling : Bool
  /-- Whether the stack is no longer used. -/
  stopped : Bool
  /-- The call that has the lock. -/
  lock : Option Nat
  /-- All calls so far. -/
  calls : List (Call κ)
  /-- All workers so far. -/
  workers : List (Worker κ)
deriving DecidableEq, Repr

/-- What happens in one step.  Calls and workers are named by their place. -/
inductive Event (κ : Type) where
  /-- A call begins. -/
  | begin
  /-- A call takes the lock. -/
  | lock (call : Nat)
  /-- A call looks at the stack and takes the first key. -/
  | look (call : Nat)
  /-- A call claims the flag. -/
  | claim (call : Nat)
  /-- A call starts a worker, or fails to. -/
  | start (call : Nat) (succeeds : Bool)
  /-- A call gives the lock back and waits. -/
  | wait (call : Nat)
  /-- A call generates a key, or fails to. -/
  | generate (call : Nat) (key : Option κ)
  /-- A worker checks whether there is more to do. -/
  | check (worker : Nat)
  /-- A worker generates a key, or fails to. -/
  | produce (worker : Nat) (key : Option κ)
  /-- A worker adds its key. -/
  | add (worker : Nat)
  /-- A worker signals to one call, which is none if no call waits. -/
  | announce (worker : Nat) (woken : Option Nat)
  /-- A worker that has failed releases the flag. -/
  | giveUp (worker : Nat)
  /-- A worker signals to all calls and ends. -/
  | close (worker : Nat)
  /-- The stack is given up by its owner. -/
  | drop
deriving DecidableEq, Repr

namespace State

variable {κ : Type}

/-- The state before any call.  A stack with a size starts a worker at once,
which may fail. -/
def initial (size : Nat) (started : Bool) : State κ :=
  let working := started && size != 0
  { size, ready := [], refilling := working, stopped := false, lock := none, calls := []
    workers := if working then [.checking] else [] }

/-! ## Steps -/

/-- The state with a call in another place. -/
def setCall (s : State κ) (i : Nat) (c : Call κ) : State κ :=
  { s with calls := s.calls.set i c }

/-- The state with a worker in another place. -/
def setWorker (s : State κ) (w : Nat) (worker : Worker κ) : State κ :=
  { s with workers := s.workers.set w worker }

/-- Whether a call has ended. -/
def isDone : Call κ → Bool
  | .done _ => true
  | _ => false

/-- Whether a call waits for a signal. -/
def isBlocked : Call κ → Bool
  | .blocked => true
  | _ => false

/-- Whether there is room for one more key. -/
def hasRoom (s : State κ) : Bool := s.ready.length < s.size

/-- The place of a call that leaves with a key or without.  Without one it
generates its own. -/
def leave : Option κ → Call κ
  | some key => .done (some key)
  | none => .generating

/-- A call begins.  If no keys are kept ready, it generates its own. -/
def afterBegin (s : State κ) : Option (State κ) :=
  if s.stopped then none
  else
    some { s with calls := s.calls ++ [if s.size = 0 then .generating else .entering] }

/-- A call that has the lock looks at the stack. -/
def afterLook (s : State κ) (i : Nat) : State κ :=
  match s.ready with
  | key :: keys => { s with ready := keys, lock := none }.setCall i (.leaving (some key))
  | [] => s.setCall i .claiming

/-- A call claims the flag.  If it is set already, the call waits or ends. -/
def afterClaim (s : State κ) (i : Nat) : Call κ → Option (State κ)
  | .claiming =>
    if s.refilling then some (s.setCall i .waiting)
    else some ({ s with refilling := true }.setCall i .starting)
  | .leaving key =>
    if s.refilling then some (s.setCall i (leave key))
    else some ({ s with refilling := true }.setCall i (.startingLate key))
  | _ => none

/-- A call that has the flag starts a worker.  If that fails it releases the
flag, and leaves if it has found the stack empty. -/
def afterStart (s : State κ) (i : Nat) (succeeds : Bool) : Call κ → Option (State κ)
  | .starting =>
    if succeeds then some ({ s with workers := s.workers ++ [Worker.checking] }.setCall i .waiting)
    else some ({ s with refilling := false, lock := none }.setCall i (.leaving none))
  | .startingLate key =>
    if succeeds then some ({ s with workers := s.workers ++ [Worker.checking] }.setCall i (leave key))
    else some ({ s with refilling := false }.setCall i (leave key))
  | _ => none

/-- A worker checks whether there is more to do.  If not, it releases the
flag. -/
def afterCheck (s : State κ) (w : Nat) : State κ :=
  if s.stopped || !s.hasRoom then { s with refilling := false }.setWorker w .closing
  else s.setWorker w .generating

/-- Wakes one call that waits. -/
def wake (s : State κ) : Option Nat → Option (State κ)
  | some i => if s.calls[i]?.any isBlocked then some (s.setCall i .entering) else none
  | none => if s.calls.any isBlocked then none else some s

/-- Wakes all calls that wait. -/
def wakeAll (s : State κ) : State κ :=
  { s with calls := s.calls.map fun c => if isBlocked c then .entering else c }

/-- The state after an event, if the event can happen. -/
def after? [DecidableEq κ] (s : State κ) : Event κ → Option (State κ)
  | .begin => s.afterBegin
  | .lock i =>
    if s.calls[i]? = some .entering ∧ s.lock = none then
      some ({ s with lock := some i }.setCall i .looking)
    else none
  | .look i => if s.calls[i]? = some .looking then some (s.afterLook i) else none
  | .claim i => s.calls[i]?.bind (s.afterClaim i)
  | .start i succeeds => s.calls[i]?.bind (s.afterStart i succeeds)
  | .wait i =>
    if s.calls[i]? = some .waiting then some ({ s with lock := none }.setCall i .blocked)
    else none
  | .generate i key =>
    if s.calls[i]? = some .generating then some (s.setCall i (.done key)) else none
  | .check w =>
    if s.workers[w]? = some .checking ∧ s.lock = none then some (s.afterCheck w) else none
  | .produce w key =>
    if s.workers[w]? = some .generating then
      match key with
      | some key => some (s.setWorker w (.adding key))
      | none => some (s.setWorker w .failing)
    else none
  | .add w =>
    match s.workers[w]?, s.lock with
    | some (.adding key), none =>
      some ({ s with ready := s.ready ++ [key] }.setWorker w .announcing)
    | _, _ => none
  | .announce w woken =>
    if s.workers[w]? = some .announcing then (s.setWorker w .checking).wake woken else none
  | .giveUp w =>
    if s.workers[w]? = some .failing ∧ s.lock = none then
      some ({ s with refilling := false }.setWorker w .closing)
    else none
  | .close w =>
    if s.workers[w]? = some .closing then some ((s.setWorker w .gone).wakeAll) else none
  | .drop => if s.calls.all isDone then some { s with stopped := true } else none

end State

/-! ## Runs -/

/-- The states that a stack of a given size can come to. -/
inductive Reachable {κ : Type} [DecidableEq κ] (size : Nat) : State κ → Prop
  | initial (started : Bool) : Reachable size (.initial size started)
  | step {s t : State κ} (event : Event κ) (before : Reachable size s)
      (h : s.after? event = some t) : Reachable size t

end Presign.KeyStack
