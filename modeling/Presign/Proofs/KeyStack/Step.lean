import Presign.KeyStack.Protocol

/-!
# Steps of the key stack

`Step` says what each event does, one rule for each way in which it can go, with
the conditions under which it goes that way.  An event has an outcome only by one
of these rules (`step_of_after?`).  So a property that every rule keeps is one of
all reachable states.  `State.afterAll?` takes several events, one after the other.
-/

namespace Presign.KeyStack

variable {κ : Type}

/-- What an event makes of a state. -/
inductive Step (s : State κ) : Event κ → State κ → Prop where
  /-- A call begins.  If no keys are kept ready, it generates its own. -/
  | begin (used : s.stopped = false) :
    Step s .begin
      { s with calls := s.calls ++ [if s.size = 0 then .generating else .entering] }
  /-- A call takes the lock. -/
  | lock {i : Nat} (place : s.calls[i]? = some .entering) (free : s.lock = none) :
    Step s (.lock i) ({ s with lock := some i }.setCall i .looking)
  /-- A call takes the first key and gives the lock back. -/
  | take {i : Nat} {key : κ} {keys : List κ} (place : s.calls[i]? = some .looking)
    (ready : s.ready = key :: keys) :
    Step s (.look i) ({ s with ready := keys, lock := none }.setCall i (.leaving (some key)))
  /-- A call finds the stack empty. -/
  | miss {i : Nat} (place : s.calls[i]? = some .looking) (ready : s.ready = []) :
    Step s (.look i) (s.setCall i .claiming)
  /-- A call that found the stack empty finds the flag set, so it will wait. -/
  | join {i : Nat} (place : s.calls[i]? = some .claiming) (flag : s.refilling = true) :
    Step s (.claim i) (s.setCall i .waiting)
  /-- A call that found the stack empty claims the flag. -/
  | claim {i : Nat} (place : s.calls[i]? = some .claiming) (flag : s.refilling = false) :
    Step s (.claim i) ({ s with refilling := true }.setCall i .starting)
  /-- A call that leaves finds the flag set. -/
  | leave {i : Nat} {key : Option κ} (place : s.calls[i]? = some (.leaving key))
    (flag : s.refilling = true) :
    Step s (.claim i) (s.setCall i (State.leave key))
  /-- A call that leaves claims the flag. -/
  | claimLate {i : Nat} {key : Option κ} (place : s.calls[i]? = some (.leaving key))
    (flag : s.refilling = false) :
    Step s (.claim i) ({ s with refilling := true }.setCall i (.startingLate key))
  /-- A call starts a worker and will wait for it. -/
  | start {i : Nat} (place : s.calls[i]? = some .starting) :
    Step s (.start i true)
      ({ s with workers := s.workers ++ [Worker.checking] }.setCall i .waiting)
  /-- A call fails to start a worker, so it leaves without a key. -/
  | startFails {i : Nat} (place : s.calls[i]? = some .starting) :
    Step s (.start i false)
      ({ s with refilling := false, lock := none }.setCall i (.leaving none))
  /-- A call that leaves starts a worker. -/
  | startLate {i : Nat} {key : Option κ} (place : s.calls[i]? = some (.startingLate key)) :
    Step s (.start i true)
      ({ s with workers := s.workers ++ [Worker.checking] }.setCall i (State.leave key))
  /-- A call that leaves fails to start a worker. -/
  | startLateFails {i : Nat} {key : Option κ} (place : s.calls[i]? = some (.startingLate key)) :
    Step s (.start i false) ({ s with refilling := false }.setCall i (State.leave key))
  /-- A call gives the lock back and waits. -/
  | wait {i : Nat} (place : s.calls[i]? = some .waiting) :
    Step s (.wait i) ({ s with lock := none }.setCall i .blocked)
  /-- A call ends with a key of its own, or with a failed generation. -/
  | generate {i : Nat} {key : Option κ} (place : s.calls[i]? = some .generating) :
    Step s (.generate i key) (s.setCall i (.done key))
  /-- A worker finds nothing to do and releases the flag. -/
  | finish {w : Nat} (place : s.workers[w]? = some .checking) (free : s.lock = none)
    (enough : s.stopped = true ∨ s.hasRoom = false) :
    Step s (.check w) ({ s with refilling := false }.setWorker w .closing)
  /-- A worker finds room for a key. -/
  | proceed {w : Nat} (place : s.workers[w]? = some .checking) (free : s.lock = none)
    (used : s.stopped = false) (room : s.hasRoom = true) :
    Step s (.check w) (s.setWorker w .generating)
  /-- A worker generates a key. -/
  | produce {w : Nat} {key : κ} (place : s.workers[w]? = some .generating) :
    Step s (.produce w (some key)) (s.setWorker w (.adding key))
  /-- A worker fails to generate a key. -/
  | produceFails {w : Nat} (place : s.workers[w]? = some .generating) :
    Step s (.produce w none) (s.setWorker w .failing)
  /-- A worker adds its key. -/
  | add {w : Nat} {key : κ} (place : s.workers[w]? = some (.adding key)) (free : s.lock = none) :
    Step s (.add w) ({ s with ready := s.ready ++ [key] }.setWorker w .announcing)
  /-- A worker wakes one call. -/
  | announce {w i : Nat} (place : s.workers[w]? = some .announcing)
    (blocked : s.calls[i]? = some .blocked) :
    Step s (.announce w (some i)) ((s.setWorker w .checking).setCall i .entering)
  /-- A worker signals while no call waits. -/
  | announceNone {w : Nat} (place : s.workers[w]? = some .announcing)
    (awake : s.calls.any State.isBlocked = false) :
    Step s (.announce w none) (s.setWorker w .checking)
  /-- A worker that has failed releases the flag. -/
  | giveUp {w : Nat} (place : s.workers[w]? = some .failing) (free : s.lock = none) :
    Step s (.giveUp w) ({ s with refilling := false }.setWorker w .closing)
  /-- A worker wakes all calls and ends. -/
  | close {w : Nat} (place : s.workers[w]? = some .closing) :
    Step s (.close w) (s.setWorker w .gone).wakeAll
  /-- The stack is given up. -/
  | drop (ended : s.calls.all State.isDone = true) : Step s .drop { s with stopped := true }

namespace Step

variable {s t : State κ} {i : Nat}

theorem of_afterBegin (h : s.afterBegin = some t) : Step s .begin t := by
  unfold State.afterBegin at h
  split at h
  · cases h
  · rename_i hstopped
    cases h
    exact .begin (by simpa using hstopped)

theorem of_afterLook (place : s.calls[i]? = some .looking) : Step s (.look i) (s.afterLook i) := by
  unfold State.afterLook
  split
  · rename_i ready
    exact .take place ready
  · rename_i ready
    exact .miss place ready

theorem of_afterClaim {c : Call κ} (place : s.calls[i]? = some c)
    (h : s.afterClaim i c = some t) : Step s (.claim i) t := by
  unfold State.afterClaim at h
  split at h
  · split at h <;> cases h
    · rename_i flag
      exact .join place flag
    · rename_i flag
      exact .claim place (by simpa using flag)
  · split at h <;> cases h
    · rename_i flag
      exact .leave place flag
    · rename_i flag
      exact .claimLate place (by simpa using flag)
  · cases h

theorem of_afterStart {c : Call κ} {succeeds : Bool} (place : s.calls[i]? = some c)
    (h : s.afterStart i succeeds c = some t) : Step s (.start i succeeds) t := by
  unfold State.afterStart at h
  split at h
  · cases succeeds <;> cases h
    · exact .startFails place
    · exact .start place
  · cases succeeds <;> cases h
    · exact .startLateFails place
    · exact .startLate place
  · cases h

theorem of_afterCheck {w : Nat} (place : s.workers[w]? = some .checking) (free : s.lock = none) :
    Step s (.check w) (s.afterCheck w) := by
  unfold State.afterCheck
  split
  · rename_i enough
    exact .finish place free (by simpa using enough)
  · rename_i more
    have hmore : s.stopped = false ∧ s.hasRoom = true := by simpa using more
    exact .proceed place free hmore.1 hmore.2

theorem of_wake {w : Nat} {woken : Option Nat} (place : s.workers[w]? = some .announcing)
    (h : (s.setWorker w .checking).wake woken = some t) : Step s (.announce w woken) t := by
  cases woken with
  | none =>
      obtain ⟨awake, ht⟩ := Option.ite_none_left_eq_some.mp h
      cases ht
      exact .announceNone place (Bool.not_eq_true _ ▸ awake)
  | some i =>
      obtain ⟨blocked, ht⟩ := Option.ite_none_right_eq_some.mp h
      cases ht
      refine .announce place ?_
      change s.calls[i]?.any State.isBlocked = true at blocked
      cases hc : s.calls[i]? with
      | none =>
          rw [hc] at blocked
          cases blocked
      | some c =>
          rw [hc] at blocked
          cases c with
          | blocked => rfl
          | _ => cases blocked

end Step

/-- An event has an outcome only by one of the rules. -/
theorem step_of_after? [DecidableEq κ] {s t : State κ} {event : Event κ}
    (h : s.after? event = some t) : Step s event t := by
  unfold State.after? at h
  cases event with
  | begin => exact .of_afterBegin h
  | lock i =>
      obtain ⟨⟨place, free⟩, ht⟩ := Option.ite_none_right_eq_some.mp h
      cases ht
      exact .lock place free
  | look i =>
      obtain ⟨place, ht⟩ := Option.ite_none_right_eq_some.mp h
      cases ht
      exact .of_afterLook place
  | claim i =>
      obtain ⟨c, place, h⟩ := Option.bind_eq_some_iff.mp h
      exact .of_afterClaim place h
  | start i succeeds =>
      obtain ⟨c, place, h⟩ := Option.bind_eq_some_iff.mp h
      exact .of_afterStart place h
  | wait i =>
      obtain ⟨place, ht⟩ := Option.ite_none_right_eq_some.mp h
      cases ht
      exact .wait place
  | generate i key =>
      obtain ⟨place, ht⟩ := Option.ite_none_right_eq_some.mp h
      cases ht
      exact .generate place
  | check w =>
      obtain ⟨⟨place, free⟩, ht⟩ := Option.ite_none_right_eq_some.mp h
      cases ht
      exact .of_afterCheck place free
  | produce w key =>
      obtain ⟨place, h⟩ := Option.ite_none_right_eq_some.mp h
      cases key with
      | some key =>
          cases h
          exact .produce place
      | none =>
          cases h
          exact .produceFails place
  | add w =>
      dsimp only at h
      split at h
      · rename_i key place free
        cases h
        exact .add place free
      · cases h
  | announce w woken =>
      obtain ⟨place, h⟩ := Option.ite_none_right_eq_some.mp h
      exact .of_wake place h
  | giveUp w =>
      obtain ⟨⟨place, free⟩, ht⟩ := Option.ite_none_right_eq_some.mp h
      cases ht
      exact .giveUp place free
  | close w =>
      obtain ⟨place, ht⟩ := Option.ite_none_right_eq_some.mp h
      cases ht
      exact .close place
  | drop =>
      obtain ⟨ended, ht⟩ := Option.ite_none_right_eq_some.mp h
      cases ht
      exact .drop ended

/-! ## Calls in their places -/

section Places

variable {s : State κ} {i : Nat} {c : Call κ}

theorem State.getElem?_setCall (place : s.calls[i]? = some c) (c' : Call κ) (j : Nat) :
    (s.setCall i c').calls[j]? = if j = i then some c' else s.calls[j]? := by
  obtain ⟨hi, -⟩ := List.getElem?_eq_some_iff.mp place
  rw [setCall, List.getElem?_set, if_pos hi]
  by_cases hj : j = i
  · rw [if_pos hj.symm, if_pos hj]
  · rw [if_neg (Ne.symm hj), if_neg hj]

theorem getElem?_concat (calls : List (Call κ)) (c : Call κ) (j : Nat) :
    (calls ++ [c])[j]? = if j = calls.length then some c else calls[j]? := by
  rcases Nat.lt_trichotomy j calls.length with hj | rfl | hj
  · rw [List.getElem?_append_left hj, if_neg (Nat.ne_of_lt hj)]
  · rw [List.getElem?_concat_length, if_pos rfl]
  · rw [if_neg (Nat.ne_of_gt hj), List.getElem?_eq_none (Nat.le_of_lt hj), List.getElem?_eq_none]
    rw [List.length_append]
    exact hj

end Places

/-! ## Several events -/

section Events

variable [DecidableEq κ] {size : Nat} {s t : State κ}

/-- The state after events, if they can happen one after the other. -/
def State.afterAll? (s : State κ) (events : List (Event κ)) : Option (State κ) :=
  events.foldlM State.after? s

theorem State.afterAll?_cons {event : Event κ} {events : List (Event κ)} :
    s.afterAll? (event :: events) = some t ↔
      ∃ next, s.after? event = some next ∧ next.afterAll? events = some t :=
  Option.bind_eq_some_iff

theorem Reachable.afterAll {events : List (Event κ)} (h : Reachable size s)
    (ht : s.afterAll? events = some t) : Reachable size t := by
  induction events generalizing s with
  | nil =>
      cases ht
      exact h
  | cons event events ih =>
      obtain ⟨next, hnext, ht⟩ := State.afterAll?_cons.mp ht
      exact ih (.step event h hnext) ht

end Events

end Presign.KeyStack
