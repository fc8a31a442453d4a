import Presign.Proofs.KeyStack.Flag

/-!
# Waiting for a worker

A call that waits needs someone who will wake it: a worker that has not ended, or
a call that is about to start one.  Before it waits, it has seen the flag set.
The flag stays set as long as the call has the lock, since a worker needs the lock
to release it, and so does a call that found the stack empty.

A call that has left the lock does not.  If it fails to start a worker, it releases
the flag and signals to nobody.  A call that has seen the flag set in between waits
for a worker that was never started (`State.Strands`).  This is the only way in
which a call is left behind.
-/

namespace Presign.KeyStack

variable {κ : Type}

/-! ## What holds of a call -/

namespace State

variable {s : State κ} {i : Nat} {c : Call κ} {p : Call κ → Bool}

/-- Whether a condition holds of the call in a place. -/
def callIs (s : State κ) (p : Call κ → Bool) (i : Nat) : Bool := s.calls[i]?.any p

theorem callIs_of_place (place : s.calls[i]? = some c) : s.callIs p i = p c := by
  rw [callIs, place, Option.any_some]

theorem callIs_setCall (place : s.calls[i]? = some c) (c' : Call κ) (j : Nat) :
    (s.setCall i c').callIs p j = if j = i then p c' else s.callIs p j := by
  rw [callIs, callIs, getElem?_setCall place]
  split
  · rw [Option.any_some]
  · rfl

/-- A call begins of which the condition does not hold. -/
theorem callIs_begin (hc : p c = false) (j : Nat) :
    { s with calls := s.calls ++ [c] }.callIs p j = s.callIs p j := by
  rw [callIs, callIs, getElem?_concat]
  split
  · rename_i hj
    rw [Option.any_some, hc, hj, List.getElem?_eq_none (Nat.le_refl _), Option.any_none]
  · rfl

/-- A condition does not tell calls that wait from calls that are woken. -/
theorem callIs_wakeAll (hp : p .entering = p .blocked) (j : Nat) :
    s.wakeAll.callIs p j = s.callIs p j := by
  rw [callIs, callIs, wakeAll]
  dsimp only
  rw [List.getElem?_map]
  cases s.calls[j]? with
  | none => rfl
  | some c =>
      cases c with
      | blocked => exact hp
      | _ => rfl

end State

/-! ## Calls with the lock -/

/-- Whether a call has the lock. -/
def Call.holdsLock : Call κ → Bool
  | .looking => true
  | .claiming => true
  | .starting => true
  | .waiting => true
  | _ => false

namespace State

/-- The state names the call that has the lock, and no other has it. -/
def IsLocked (s : State κ) : Prop := ∀ i, s.callIs Call.holdsLock i = true ↔ s.lock = some i

variable {s : State κ} {i : Nat} {c c' : Call κ}

namespace IsLocked

/-- A call moves on, and has the lock as before. -/
theorem setCall (h : s.IsLocked) (place : s.calls[i]? = some c)
    (hsame : c'.holdsLock = c.holdsLock) : (s.setCall i c').IsLocked := by
  intro j
  rw [callIs_setCall place]
  split
  · rename_i hj
    have hi : s.callIs Call.holdsLock i = c.holdsLock := callIs_of_place place
    rw [hsame, hj, ← hi]
    exact h i
  · exact h j

/-- A call takes the lock. -/
theorem take (h : s.IsLocked) (free : s.lock = none) (place : s.calls[i]? = some c)
    (hc' : c'.holdsLock = true) : ({ s with lock := some i }.setCall i c').IsLocked := by
  intro j
  rw [State.callIs_setCall (s := { s with lock := some i }) place]
  change _ ↔ some i = some j
  split
  · rename_i hj
    rw [hc', hj, eq_self, eq_self]
  · rename_i hj
    have hnot : s.callIs Call.holdsLock j = true ↔ s.lock = some j := h j
    rw [free] at hnot
    change s.callIs Call.holdsLock j = true ↔ _
    rw [hnot, Option.some.injEq]
    exact ⟨fun hnone => (by cases hnone), fun hij => absurd hij.symm hj⟩

/-- A call gives the lock back. -/
theorem give (h : s.IsLocked) (place : s.calls[i]? = some c) (hc : c.holdsLock = true)
    (hc' : c'.holdsLock = false) : ({ s with lock := none }.setCall i c').IsLocked := by
  have hi : s.lock = some i := (h i).mp (by rw [callIs_of_place place, hc])
  intro j
  rw [State.callIs_setCall (s := { s with lock := none }) place]
  change _ ↔ none = some j
  split
  · rw [hc']
    exact ⟨fun hfalse => (by cases hfalse), fun hnone => (by cases hnone)⟩
  · rename_i hj
    change s.callIs Call.holdsLock j = true ↔ _
    rw [h j, hi, Option.some.injEq]
    exact ⟨fun hij => absurd hij.symm hj, fun hnone => (by cases hnone)⟩

/-- Two calls that have the lock are the same. -/
theorem eq (h : s.IsLocked) {j : Nat} (place : s.calls[i]? = some c) (hc : c.holdsLock = true)
    (place' : s.calls[j]? = some c') (hc' : c'.holdsLock = true) : i = j := by
  have hi : s.lock = some i := (h i).mp (by rw [callIs_of_place place, hc])
  have hj : s.lock = some j := (h j).mp (by rw [callIs_of_place place', hc'])
  exact Option.some.inj (hi.symm.trans hj)

/-- While nobody has the lock, no call is about to wait. -/
theorem not_mem_waiting (h : s.IsLocked) (free : s.lock = none) : .waiting ∉ s.calls := by
  intro hmem
  obtain ⟨j, place⟩ := List.getElem?_of_mem hmem
  have hj := (h j).mp (callIs_of_place place)
  rw [free] at hj
  cases hj

/-- While a call has the lock and is not about to wait, no other is. -/
theorem not_mem_waiting_of_holds (h : s.IsLocked) (place : s.calls[i]? = some c)
    (hc : c.holdsLock = true) (hne : c ≠ .waiting) : .waiting ∉ s.calls := by
  intro hmem
  obtain ⟨j, place'⟩ := List.getElem?_of_mem hmem
  have hij := h.eq place hc place' rfl
  subst hij
  exact hne (Option.some.inj (place.symm.trans place'))

end IsLocked

end State

theorem holdsLock_leave (key : Option κ) : (State.leave key).holdsLock = false := by
  cases key <;> rfl

/-- Every step keeps track of the lock. -/
theorem Step.isLocked {s t : State κ} {event : Event κ} (h : Step s event t) (hs : s.IsLocked) :
    t.IsLocked := by
  cases h with
  | begin used =>
      intro j
      rw [State.callIs_begin (by split <;> rfl)]
      exact hs j
  | lock place free => exact hs.take free place rfl
  | @take i key keys place ready =>
      exact State.IsLocked.give (s := { s with ready := keys }) hs place rfl rfl
  | miss place | join place | generate place => exact hs.setCall place rfl
  | claim place | claimLate place =>
      exact State.IsLocked.setCall (s := { s with refilling := true }) hs place rfl
  | leave place flag => exact hs.setCall place (holdsLock_leave _)
  | start place =>
      exact State.IsLocked.setCall (s := { s with workers := s.workers ++ [Worker.checking] }) hs
        place rfl
  | startFails place =>
      exact State.IsLocked.give (s := { s with refilling := false }) hs place rfl rfl
  | startLate place =>
      exact State.IsLocked.setCall (s := { s with workers := s.workers ++ [Worker.checking] }) hs
        place (holdsLock_leave _)
  | startLateFails place =>
      exact State.IsLocked.setCall (s := { s with refilling := false }) hs place (holdsLock_leave _)
  | wait place => exact hs.give place rfl rfl
  | announce place blocked => exact State.IsLocked.setCall (s := s.setWorker _ _) hs blocked rfl
  | close place =>
      intro j
      rw [State.callIs_wakeAll rfl]
      exact hs j
  | _ => exact hs

/-! ## Calls that wait -/

/-- Whether a worker is about to signal to all calls. -/
def Worker.isClosing : Worker κ → Bool
  | .closing => true
  | _ => false

namespace State

/-- A worker has not ended.  It will signal before it does. -/
def HasWorker (s : State κ) : Prop := ∃ worker ∈ s.workers, worker ≠ .gone

/-- While a call waits, there is a worker that has not ended, or a call is about to
start one. -/
def IsServed (s : State κ) : Prop :=
  .blocked ∈ s.calls → s.HasWorker ∨ ∃ c ∈ s.calls, c.owns = true

/-- A call fails to start a worker after it has left the lock, though another call
has seen the flag set and is about to wait, or waits while all workers have
ended. -/
def Strands (s : State κ) (event : Event κ) : Prop :=
  ∃ i key, event = .start i false ∧ s.calls[i]? = some (.startingLate key) ∧
    (.waiting ∈ s.calls ∨ (.blocked ∈ s.calls ∧ ¬ s.HasWorker))

/-- A call that is about to wait has the flag set.  A call that waits has a worker,
or a call that is about to start one after it has left the lock. -/
structure IsAttended (s : State κ) : Prop where
  waiting : .waiting ∈ s.calls → s.refilling = true
  blocked : .blocked ∈ s.calls → s.HasWorker ∨ ∃ key, .startingLate key ∈ s.calls

variable {s : State κ} {i w : Nat} {c c' : Call κ} {worker : Worker κ}

theorem IsAttended.isServed (h : s.IsAttended) : s.IsServed := by
  intro hblocked
  rcases h.blocked hblocked with hworker | ⟨key, hlate⟩
  · exact .inl hworker
  · exact .inr ⟨_, hlate, rfl⟩

theorem mem_setCall_of_ne (place : s.calls[i]? = some c) {d : Call κ} (hd : d ∈ s.calls)
    (hne : d ≠ c) : d ∈ (s.setCall i c').calls := by
  obtain ⟨j, hj⟩ := List.getElem?_of_mem hd
  have hij : i ≠ j := by
    rintro rfl
    exact hne (Option.some.inj (hj.symm.trans place))
  exact List.mem_of_getElem? ((List.getElem?_set_ne hij).trans hj)

theorem hasWorker_start (s : State κ) :
    { s with workers := s.workers ++ [Worker.checking] }.HasWorker :=
  ⟨.checking, List.mem_append_right _ (List.mem_singleton_self _), fun he => by cases he⟩

/-- Without an owner of the flag, all workers are about to end, or have ended. -/
theorem not_owns (h : s.owners = 0) :
    (∀ c ∈ s.calls, c.owns = false) ∧ ∀ worker ∈ s.workers, worker = .closing ∨ worker = .gone := by
  obtain ⟨hcalls, hworkers⟩ := Nat.add_eq_zero_iff.mp h
  refine ⟨fun c hc => ?_, fun worker hworker => ?_⟩
  · exact Bool.not_eq_true _ ▸ List.countP_eq_zero.mp hcalls c hc
  · have howns := List.countP_eq_zero.mp hworkers worker hworker
    cases worker with
    | closing => exact .inl rfl
    | gone => exact .inr rfl
    | _ => exact absurd rfl howns

/-- So a call that waits then is not served once they have ended. -/
theorem not_isServed (hblocked : .blocked ∈ s.calls) (howners : s.owners = 0)
    (hworkers : ¬ s.HasWorker) : ¬ s.IsServed := by
  intro hserved
  rcases hserved hblocked with hworker | ⟨c, hc, howns⟩
  · exact hworkers hworker
  · rw [(not_owns howners).1 c hc] at howns
    cases howns

/-- While the flag is set, it has an owner. -/
theorem IsGuarded.exists_owns {size : Nat} (h : s.IsGuarded size) (flag : s.refilling = true) :
    (∃ c ∈ s.calls, c.owns = true) ∨ ∃ worker ∈ s.workers, worker.owns = true := by
  have howned : s.calls.countP Call.owns + s.workers.countP Worker.owns = 1 := by
    have howners := h.owned
    rw [flag] at howners
    exact howners
  rcases Nat.eq_zero_or_pos (s.calls.countP Call.owns) with hnone | hsome
  · have hworkers : 0 < s.workers.countP Worker.owns := by omega
    exact .inr (List.countP_pos_iff.mp hworkers)
  · exact .inl (List.countP_pos_iff.mp hsome)

/-- A call that owns the flag has it set. -/
theorem IsGuarded.refilling_of_owns {size : Nat} (h : s.IsGuarded size)
    (place : s.calls[i]? = some c) (howns : c.owns = true) : s.refilling = true := by
  have howners : 0 < s.owners := Nat.add_pos_left
    (List.countP_pos_iff.mpr ⟨c, List.mem_of_getElem? place, howns⟩) _
  rw [h.owned] at howners
  cases hflag : s.refilling with
  | true => rfl
  | false =>
      rw [hflag] at howners
      cases howners

/-- A call that begins does not wait, and is not about to start a worker. -/
theorem mem_of_begin {d : Call κ} (hg : d ≠ .generating) (he : d ≠ .entering)
    (hd : d ∈ s.calls ++ [if s.size = 0 then .generating else .entering]) : d ∈ s.calls := by
  rcases List.mem_append.mp hd with hd | hd
  · exact hd
  · rw [List.mem_singleton] at hd
    split at hd
    · exact absurd hd hg
    · exact absurd hd he

namespace IsAttended

/-- A call moves on without starting to wait.  It was not the one that others count
on, unless they have a worker. -/
theorem setCall (h : s.IsAttended) (place : s.calls[i]? = some c)
    (hwaiting : c' = .waiting → s.refilling = true) (hblocked : c' ≠ .blocked)
    (hcounted : (.blocked ∈ s.calls → s.HasWorker) ∨ ∀ key, c ≠ .startingLate key) :
    (s.setCall i c').IsAttended := by
  refine ⟨fun hmem => ?_, fun hmem => ?_⟩
  · rcases List.mem_or_eq_of_mem_set hmem with hmem | he
    · exact h.waiting hmem
    · exact hwaiting he.symm
  · have hmem : .blocked ∈ s.calls :=
      (List.mem_or_eq_of_mem_set hmem).resolve_right fun he => hblocked he.symm
    rcases hcounted with hworker | hother
    · exact .inl (hworker hmem)
    · rcases h.blocked hmem with hworker | ⟨key, hlate⟩
      · exact .inl hworker
      · exact .inr ⟨key, mem_setCall_of_ne place hlate (hother key).symm⟩

/-- A worker moves on without ending. -/
theorem setWorker (h : s.IsAttended) (place : s.workers[w]? = some worker) {worker' : Worker κ}
    (hne : worker' ≠ .gone) : (s.setWorker w worker').IsAttended := by
  obtain ⟨hw, -⟩ := List.getElem?_eq_some_iff.mp place
  exact ⟨h.waiting, fun _ => .inl ⟨worker', List.mem_set hw worker', hne⟩⟩

/-- The flag is set. -/
theorem claim (h : s.IsAttended) : { s with refilling := true }.IsAttended :=
  ⟨fun _ => rfl, h.blocked⟩

/-- The flag is released while no call is about to wait. -/
theorem release (h : s.IsAttended) (hnone : .waiting ∉ s.calls) :
    { s with refilling := false }.IsAttended :=
  ⟨fun hmem => absurd hmem hnone, h.blocked⟩

/-- A worker is started. -/
theorem start (h : s.IsAttended) :
    { s with workers := s.workers ++ [Worker.checking] }.IsAttended :=
  ⟨h.waiting, fun _ => .inl s.hasWorker_start⟩

/-- A worker signals to all calls, so none waits. -/
theorem wakeAll (hwaiting : .waiting ∈ s.calls → s.refilling = true) : s.wakeAll.IsAttended := by
  refine ⟨fun hmem => ?_, fun hmem => ?_⟩
  · obtain ⟨c, hc, he⟩ := List.mem_map.mp hmem
    split at he
    · cases he
    · exact hwaiting (he ▸ hc)
  · obtain ⟨c, -, he⟩ := List.mem_map.mp hmem
    split at he
    · cases he
    · rename_i hawake
      exact absurd (he ▸ rfl) hawake

/-- A call begins to wait.  It has the lock, so if a call has the flag, that one has
left the lock. -/
theorem wait {size : Nat} (h : s.IsAttended) (hs : s.IsGuarded size) (hlocked : s.IsLocked)
    (place : s.calls[i]? = some .waiting) :
    ({ s with lock := none }.setCall i .blocked).IsAttended := by
  refine ⟨fun hmem => ?_, fun _ => ?_⟩
  · rcases List.mem_or_eq_of_mem_set hmem with hmem | he
    · exact h.waiting hmem
    · cases he
  · have hflag := h.waiting (List.mem_of_getElem? place)
    rcases hs.exists_owns hflag with ⟨c, hc, howns⟩ | ⟨worker, hworker, howns⟩
    · cases c with
      | starting =>
          obtain ⟨j, place'⟩ := List.getElem?_of_mem hc
          have hij := hlocked.eq place rfl place' rfl
          subst hij
          cases place.symm.trans place'
      | startingLate key =>
          exact .inr ⟨key, mem_setCall_of_ne (s := { s with lock := none }) place hc
            fun he => by cases he⟩
      | _ => cases howns
    · refine .inl ⟨worker, hworker, ?_⟩
      rintro rfl
      cases howns

end IsAttended

end State

theorem leave_ne_waiting (key : Option κ) : State.leave key ≠ .waiting := by
  cases key <;> exact fun he => by cases he

theorem leave_ne_blocked (key : Option κ) : State.leave key ≠ .blocked := by
  cases key <;> exact fun he => by cases he

/-- Every step keeps calls that wait attended, unless it strands them. -/
theorem Step.isAttended {s t : State κ} {event : Event κ} {size : Nat} (h : Step s event t)
    (hs : s.IsGuarded size) (hlocked : s.IsLocked) (hkept : ¬ s.Strands event)
    (ha : s.IsAttended) : t.IsAttended := by
  cases h with
  | begin used =>
      refine ⟨fun hmem => ha.waiting (State.mem_of_begin (by simp) (by simp) hmem), fun hmem => ?_⟩
      rcases ha.blocked (State.mem_of_begin (by simp) (by simp) hmem) with hworker | ⟨key, hlate⟩
      · exact .inl hworker
      · exact .inr ⟨key, List.mem_append_left _ hlate⟩
  | @lock i place free =>
      exact State.IsAttended.setCall (s := { s with lock := some i }) ⟨ha.waiting, ha.blocked⟩ place
        (by simp) (by simp) (.inr (by simp))
  | @take i key keys place ready =>
      exact State.IsAttended.setCall (s := { s with ready := keys, lock := none })
        ⟨ha.waiting, ha.blocked⟩ place (by simp) (by simp) (.inr (by simp))
  | miss place | generate place => exact ha.setCall place (by simp) (by simp) (.inr (by simp))
  | join place flag => exact ha.setCall place (fun _ => flag) (by simp) (.inr (by simp))
  | claim place | claimLate place =>
      exact ha.claim.setCall place (fun _ => rfl) (by simp) (.inr (by simp))
  | leave place flag =>
      exact ha.setCall place (fun he => absurd he (leave_ne_waiting _)) (leave_ne_blocked _)
        (.inr (by simp))
  | start place =>
      exact ha.start.setCall place (fun _ => hs.refilling_of_owns place rfl) (by simp)
        (.inr (by simp))
  | startFails place =>
      have hnone := hlocked.not_mem_waiting_of_holds place rfl (by simp)
      have hreleased := ha.release hnone
      exact State.IsAttended.setCall (s := { s with refilling := false, lock := none })
        ⟨hreleased.waiting, hreleased.blocked⟩ place (by simp) (by simp) (.inr (by simp))
  | startLate place =>
      exact ha.start.setCall place (fun he => absurd he (leave_ne_waiting _)) (leave_ne_blocked _)
        (.inl fun _ => s.hasWorker_start)
  | @startLateFails i key place =>
      have hnone : .waiting ∉ s.calls := fun hmem => hkept ⟨i, key, rfl, place, .inl hmem⟩
      have hworker : .blocked ∈ s.calls → s.HasWorker := fun hblocked =>
        Classical.byContradiction fun hgone => hkept ⟨i, key, rfl, place, .inr ⟨hblocked, hgone⟩⟩
      exact (ha.release hnone).setCall place (fun he => absurd he (leave_ne_waiting _))
        (leave_ne_blocked _) (.inl hworker)
  | wait place => exact ha.wait hs hlocked place
  | finish place free | giveUp place free =>
      exact (ha.release (hlocked.not_mem_waiting free)).setWorker place (by simp)
  | proceed place | produce place | produceFails place | announceNone place =>
      exact ha.setWorker place (by simp)
  | @add w key place free =>
      exact State.IsAttended.setWorker (s := { s with ready := s.ready ++ [key] })
        ⟨ha.waiting, ha.blocked⟩ place (by simp)
  | announce place blocked =>
      exact (ha.setWorker place (by simp)).setCall blocked (by simp) (by simp) (.inr (by simp))
  | close place => exact .wakeAll ha.waiting
  | drop ended => exact ⟨ha.waiting, ha.blocked⟩

/-- Where all workers have ended, and all calls have ended or wait, nothing happens
to them by itself. -/
theorem Step.eq_begin_or_drop {s t : State κ} {event : Event κ} (h : Step s event t)
    (hworkers : ¬ s.HasWorker)
    (hcalls : ∀ c ∈ s.calls, c = .blocked ∨ State.isDone c = true) :
    event = .begin ∨ event = .drop := by
  have call : ∀ {i : Nat} {c : Call κ}, s.calls[i]? = some c →
      c = .blocked ∨ State.isDone c = true :=
    fun place => hcalls _ (List.mem_of_getElem? place)
  have gone : ∀ {w : Nat} {worker : Worker κ}, s.workers[w]? = some worker → worker = .gone :=
    fun place => Classical.byContradiction fun hne =>
      hworkers ⟨_, List.mem_of_getElem? place, hne⟩
  cases h with
  | begin used => exact .inl rfl
  | drop ended => exact .inr rfl
  | lock place | take place | miss place | join place | claim place | leave place
  | claimLate place | start place | startFails place | startLate place | startLateFails place
  | wait place | generate place => rcases call place with he | he <;> cases he
  | finish place | proceed place | produce place | produceFails place | add place
  | announce place | announceNone place | giveUp place | close place => cases gone place

/-! ## Runs that strand no call -/

section Runs

variable [DecidableEq κ] {size : Nat} {s t : State κ}

/-- The states that a stack of a given size can come to without an event that
strands a call. -/
inductive Sheltered (size : Nat) : State κ → Prop
  | initial (started : Bool) : Sheltered size (.initial size started)
  | step {s t : State κ} (event : Event κ) (before : Sheltered size s)
      (h : s.after? event = some t) (hkept : ¬ s.Strands event) : Sheltered size t

theorem Sheltered.reachable (h : Sheltered size s) : Reachable size s := by
  induction h with
  | initial started => exact .initial started
  | step event _ h _ ih => exact .step event ih h

theorem Reachable.isLocked (h : Reachable size s) : s.IsLocked := by
  induction h with
  | initial started =>
      intro i
      exact ⟨fun hfalse => (by cases hfalse), fun hnone => (by cases hnone)⟩
  | step event _ h ih => exact (step_of_after? h).isLocked ih

theorem Sheltered.isAttended (h : Sheltered size s) : s.IsAttended := by
  induction h with
  | initial started =>
      exact ⟨fun hmem => absurd hmem List.not_mem_nil, fun hmem => absurd hmem List.not_mem_nil⟩
  | step event before h hkept ih =>
      have hs := before.reachable
      exact (step_of_after? h).isAttended hs.isGuarded hs.isLocked hkept ih

/-- Only events in which a worker is not started can strand a call. -/
theorem Sheltered.afterAll {events : List (Event κ)} (h : Sheltered size s)
    (hstarts : ∀ event ∈ events, ∀ i, event ≠ .start i false)
    (ht : s.afterAll? events = some t) : Sheltered size t := by
  induction events generalizing s with
  | nil =>
      cases ht
      exact h
  | cons event events ih =>
      obtain ⟨next, hnext, ht⟩ := State.afterAll?_cons.mp ht
      have hkept : ¬ s.Strands event :=
        fun ⟨i, _, he, _⟩ => hstarts event (List.mem_cons_self ..) i he
      have hlater : ∀ event ∈ events, ∀ i, event ≠ .start i false :=
        fun event he => hstarts event (List.mem_cons_of_mem _ he)
      exact ih (.step event h hnext hkept) hlater ht

/-! ## Calls that are left behind -/

/-- The states that a state can come to. -/
inductive Leads (s : State κ) : State κ → Prop
  | refl : Leads s s
  | step {t u : State κ} (event : Event κ) (before : Leads s t) (h : t.after? event = some u) :
    Leads s u

theorem Leads.head {u : State κ} {event : Event κ} (h : s.after? event = some t)
    (hlater : Leads t u) : Leads s u := by
  induction hlater with
  | refl => exact .step event .refl h
  | step event _ h ih => exact .step event ih h

/-- One of the workers that are about to end does, while a call is about to wait. -/
theorem exists_close {i n : Nat} (hn : s.workers.countP Worker.isClosing = n + 1)
    (howners : s.owners = 0) (place : s.calls[i]? = some .waiting) :
    ∃ w t, s.after? (.close w) = some t ∧ t.workers.countP Worker.isClosing = n ∧
      t.owners = 0 ∧ t.calls[i]? = some .waiting := by
  have hpos : 0 < s.workers.countP Worker.isClosing := hn ▸ Nat.succ_pos n
  obtain ⟨worker, hworker, hclosing⟩ := List.countP_pos_iff.mp hpos
  obtain ⟨w, hw⟩ := List.getElem?_of_mem hworker
  have hplace : s.workers[w]? = some .closing := by
    cases worker with
    | closing => exact hw
    | _ => cases hclosing
  refine ⟨w, (s.setWorker w .gone).wakeAll, if_pos hplace, ?_, ?_, ?_⟩
  · have hset := countP_set_add (p := Worker.isClosing) hplace .gone
    rw [hn] at hset
    exact Nat.add_right_cancel hset
  · have hset := s.owners_setWorker hplace .gone
    rw [State.owners_wakeAll]
    exact hset.trans howners
  · change (s.calls.map _)[i]? = _
    rw [List.getElem?_map, place]
    rfl

/-- All of them can end. -/
theorem exists_leads_ended {i n : Nat} (hn : s.workers.countP Worker.isClosing = n)
    (howners : s.owners = 0) (place : s.calls[i]? = some .waiting) :
    ∃ t, Leads s t ∧ t.owners = 0 ∧ t.calls[i]? = some .waiting ∧ ¬ t.HasWorker := by
  induction n generalizing s with
  | zero =>
      refine ⟨s, .refl, howners, place, ?_⟩
      rintro ⟨worker, hworker, hne⟩
      rcases (State.not_owns howners).2 worker hworker with rfl | rfl
      · exact List.countP_eq_zero.mp hn _ hworker rfl
      · exact hne rfl
  | succ n ih =>
      obtain ⟨w, next, hnext, hcount, hnone, hcall⟩ := exists_close hn howners place
      obtain ⟨t, hleads, ht⟩ := ih hcount hnone hcall
      exact ⟨t, hleads.head hnext, ht⟩

/-- After an event that strands a call, there can be a call that waits for
nothing. -/
theorem Reachable.exists_not_isServed {event : Event κ} (h : Reachable size s)
    (hstrands : s.Strands event) (ht : s.after? event = some t) :
    ∃ u, Leads t u ∧ ¬ u.IsServed := by
  obtain ⟨i, key, rfl, place, hcalls⟩ := hstrands
  have hguarded : t.IsGuarded size := (h.step _ ht).isGuarded
  cases step_of_after? ht with
  | startFails place' => cases place.symm.trans place'
  | @startLateFails _ key' place' =>
      have howners : State.owners _ = 0 := hguarded.owned
      have hkeeps : ∀ d : Call κ, (∀ key, d ≠ .startingLate key) → d ∈ s.calls →
          d ∈ (s.setCall i (State.leave key')).calls := fun d hd hmem =>
        State.mem_setCall_of_ne place hmem (hd key)
      rcases hcalls with hwaiting | ⟨hblocked, hworkers⟩
      · obtain ⟨j, hj⟩ := List.getElem?_of_mem (hkeeps .waiting (by simp) hwaiting)
        obtain ⟨u, hleads, hu, hplace, hworkers⟩ := exists_leads_ended rfl howners hj
        refine ⟨_, .step (.wait j) hleads (if_pos hplace), State.not_isServed ?_ ?_ hworkers⟩
        · obtain ⟨hlt, -⟩ := List.getElem?_eq_some_iff.mp hplace
          exact List.mem_set hlt _
        · have hset := State.owners_setCall (s := { u with lock := none }) hplace .blocked
          exact hset.trans hu
      · exact ⟨_, .refl, State.not_isServed (hkeeps .blocked (by simp) hblocked) howners hworkers⟩

/-- As long as no event has stranded a call, every call that waits is served.  Any
event that strands a call can be followed by a state in which one is not. -/
theorem Sheltered.isServed_until_stranded (h : Sheltered size s) :
    s.IsServed ∧ ∀ event t, s.after? event = some t → s.Strands event →
      ∃ u, Leads t u ∧ ¬ u.IsServed :=
  ⟨h.isAttended.isServed, fun _ _ ht hstrands => h.reachable.exists_not_isServed hstrands ht⟩

end Runs

/-- For example, a call takes the only key after the worker has ended, and claims
the flag.  A second call sees the flag set and waits, and then the first one fails
to start a worker. -/
theorem isServed_until_stranded_second :
    ∃ s t : State Nat, Sheltered 1 s ∧ s.calls = [.startingLate (some 7), .blocked] ∧ s.IsServed ∧
      s.after? (.start 0 false) = some t ∧ ∃ u, Leads t u ∧ ¬ u.IsServed := by
  let s : State Nat := ⟨1, [], true, false, none, [.startingLate (some 7), .blocked], [.gone]⟩
  let t : State Nat := ⟨1, [], false, false, none, [.done (some 7), .blocked], [.gone]⟩
  let events : List (Event Nat) := [.check 0, .produce 0 (some 7), .add 0, .announce 0 none,
    .check 0, .close 0, .begin, .begin, .lock 0, .look 0, .claim 0, .lock 1, .look 1, .claim 1,
    .wait 1]
  have hevents : (State.initial 1 true).afterAll? events = some s := rfl
  have hs : Sheltered 1 s := (Sheltered.initial true).afterAll (by simp [events]) hevents
  have ht : s.after? (.start 0 false) = some t := rfl
  have hstrands : s.Strands (.start 0 false) :=
    ⟨0, some 7, rfl, rfl, .inr ⟨by decide, fun ⟨worker, hworker, hne⟩ =>
      hne (List.mem_singleton.mp hworker)⟩⟩
  obtain ⟨hserved, hstranded⟩ := hs.isServed_until_stranded
  exact ⟨s, t, hs, rfl, hserved, ht, hstranded _ t ht hstrands⟩

/-- Nothing wakes the second call then.  All that can happen is that a new call
begins. -/
theorem exists_reachable_not_isServed :
    ∃ s : State Nat, Reachable 1 s ∧ s.calls = [.done (some 7), .blocked] ∧ ¬ s.IsServed ∧
      ∀ event t, s.after? event = some t → event = .begin := by
  let s : State Nat := ⟨1, [], false, false, none, [.done (some 7), .blocked], [.gone]⟩
  let events : List (Event Nat) := [.check 0, .produce 0 (some 7), .add 0, .announce 0 none,
    .check 0, .close 0, .begin, .begin, .lock 0, .look 0, .claim 0, .lock 1, .look 1, .claim 1,
    .wait 1, .start 0 false]
  have hevents : (State.initial 1 true).afterAll? events = some s := rfl
  have hworkers : ¬ s.HasWorker :=
    fun ⟨worker, hworker, hne⟩ => hne (List.mem_singleton.mp hworker)
  refine ⟨s, (Reachable.initial true).afterAll hevents, rfl,
    State.not_isServed (by decide) (by decide) hworkers, fun event t h => ?_⟩
  rcases (step_of_after? h).eq_begin_or_drop hworkers (by decide) with he | rfl
  · exact he
  · cases h

end Presign.KeyStack
