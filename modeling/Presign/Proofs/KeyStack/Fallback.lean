import Presign.KeyStack.Schedule
import Presign.Proofs.KeyStack.Waiting

/-!
# Calls that generate a key of their own

A stack that keeps keys ready lets a call generate a key of its own only if the call
could not start a worker (`Trace.start_mem_of_isAlone`).  A worker that fails to
generate a key is no reason: the calls that it wakes find the stack empty and the
flag released, and the first one starts the next worker and waits again.

So as long as generation fails and workers can be started, no call comes to an end
(`Trace.isBarren`), and one call can wait for any number of workers
(`exists_trace_retried`).  A stack that keeps no keys ready answers with the failure
instead.
-/

namespace Presign.KeyStack

variable {κ : Type}

/-! ## Traces -/

/-- The states that a stack of a given size can come to, with the events so far. -/
inductive Trace [DecidableEq κ] (size : Nat) : List (Event κ) → State κ → Prop
  | initial (started : Bool) : Trace size [] (.initial size started)
  | step {events : List (Event κ)} {s t : State κ} (event : Event κ)
      (before : Trace size events s) (h : s.after? event = some t) :
      Trace size (events ++ [event]) t

section Traces

variable [DecidableEq κ] {size : Nat} {events : List (Event κ)} {s t : State κ}

theorem Trace.reachable (h : Trace size events s) : Reachable size s := by
  induction h with
  | initial started => exact .initial started
  | step event _ h ih => exact .step event ih h

theorem Trace.afterAll {more : List (Event κ)} (h : Trace size events s)
    (hmore : s.afterAll? more = some t) : Trace size (events ++ more) t := by
  induction more generalizing events s with
  | nil =>
      cases hmore
      rwa [List.append_nil]
  | cons event more ih =>
      obtain ⟨next, hnext, hmore⟩ := State.afterAll?_cons.mp hmore
      rw [List.append_cons]
      exact ih (.step event h hnext) hmore

end Traces

/-! ## Calls without the stack -/

/-- Whether a call has given up on the stack: it is about to generate a key of its
own, or has failed to. -/
def Call.isAlone : Call κ → Bool
  | .leaving none => true
  | .startingLate none => true
  | .generating => true
  | .done none => true
  | _ => false

section Alone

variable {s t : State κ} {i j : Nat} {c c' : Call κ}

/-- A call that moves on gives up on the stack only if it had before. -/
theorem State.isAlone_of_setCall {r : State κ} (hcalls : r.calls = s.calls)
    (place : s.calls[i]? = some c) (hback : c'.isAlone = true → c.isAlone = true)
    (h : (r.setCall i c').callIs Call.isAlone j = true) : s.callIs Call.isAlone j = true := by
  rw [State.callIs_setCall (hcalls ▸ place)] at h
  split at h
  · rename_i hj
    rw [hj, State.callIs_of_place place]
    exact hback h
  · rwa [State.callIs, hcalls] at h

/-- Where keys are kept ready, a call gives up on the stack only when it fails to
start a worker. -/
theorem Step.isAlone_or_start {event : Event κ} (h : Step s event t) (hsize : s.size ≠ 0)
    (hj : t.callIs Call.isAlone j = true) :
    s.callIs Call.isAlone j = true ∨ event = .start j false := by
  cases h with
  | begin used =>
      rw [State.callIs_begin (by rw [if_neg hsize]; rfl)] at hj
      exact .inl hj
  | lock place | take place | miss place | join place | claim place | start place | wait place
  | announce _ place =>
      exact .inl (State.isAlone_of_setCall rfl place (by simp [Call.isAlone]) hj)
  | @leave i key place | @claimLate i key place | @startLate i key place
  | @startLateFails i key place =>
      exact .inl (State.isAlone_of_setCall rfl place (by cases key <;> exact id) hj)
  | @startFails i place =>
      rw [State.callIs_setCall (s := { s with refilling := false, lock := none }) place] at hj
      split at hj
      · rename_i hji
        exact .inr (hji ▸ rfl)
      · exact .inl hj
  | generate place => exact .inl (State.isAlone_of_setCall rfl place (fun _ => rfl) hj)
  | close place =>
      rw [State.callIs_wakeAll rfl] at hj
      exact .inl hj
  | _ => exact .inl hj

end Alone

/-! ## Runs without keys -/

/-- Whether an event neither brings a key nor fails to start a worker. -/
def Event.isBarren : Event κ → Bool
  | .start _ false => false
  | .produce _ (some _) => false
  | _ => true

/-- Whether a call still wants a key from the stack. -/
def Call.isTrying : Call κ → Bool
  | .entering => true
  | .looking => true
  | .claiming => true
  | .starting => true
  | .waiting => true
  | .blocked => true
  | _ => false

/-- There are no keys, and all calls still want one. -/
structure State.IsBarren (s : State κ) : Prop where
  ready : s.ready = []
  calls : ∀ c ∈ s.calls, c.isTrying = true
  workers : ∀ key, .adding key ∉ s.workers

theorem State.IsBarren.initial (size : Nat) (started : Bool) :
    (State.initial (κ := κ) size started).IsBarren := by
  refine ⟨rfl, fun c hc => absurd hc List.not_mem_nil, fun key hmem => ?_⟩
  unfold State.initial at hmem
  dsimp only at hmem
  split at hmem
  · cases List.mem_singleton.mp hmem
  · cases hmem

section Barren

variable {s t : State κ} {i w : Nat} {c' : Call κ} {worker' : Worker κ}

theorem State.IsBarren.setCall (h : s.IsBarren) (hc' : c'.isTrying = true) :
    (s.setCall i c').IsBarren := by
  refine ⟨h.ready, fun c hc => ?_, h.workers⟩
  rcases List.mem_or_eq_of_mem_set hc with hc | rfl
  · exact h.calls c hc
  · exact hc'

theorem State.IsBarren.setWorker (h : s.IsBarren) (hne : ∀ key, worker' ≠ .adding key) :
    (s.setWorker w worker').IsBarren := by
  refine ⟨h.ready, h.calls, fun key hmem => ?_⟩
  rcases List.mem_or_eq_of_mem_set hmem with hmem | he
  · exact h.workers key hmem
  · exact hne key he.symm

/-- Without keys, and while workers can be started, all calls go on trying. -/
theorem Step.isBarren {event : Event κ} (h : Step s event t) (hsize : s.size ≠ 0)
    (hevent : event.isBarren = true) (hs : s.IsBarren) : t.IsBarren := by
  have trying : ∀ {i : Nat} {c : Call κ}, s.calls[i]? = some c → c.isTrying = true :=
    fun place => hs.calls _ (List.mem_of_getElem? place)
  cases h with
  | begin used =>
      refine ⟨hs.ready, fun c hc => ?_, hs.workers⟩
      rw [if_neg hsize] at hc
      rcases List.mem_append.mp hc with hc | hc
      · exact hs.calls c hc
      · rw [List.mem_singleton.mp hc]
        rfl
  | lock place | claim place | wait place =>
      exact State.IsBarren.setCall ⟨hs.ready, hs.calls, hs.workers⟩ rfl
  | miss place | join place => exact hs.setCall rfl
  | take place ready => cases hs.ready.symm.trans ready
  | leave place | claimLate place | startLate place | generate place => cases trying place
  | startFails | startLateFails | produce => cases hevent
  | start place =>
      refine State.IsBarren.setCall ⟨hs.ready, hs.calls, fun key hmem => ?_⟩ rfl
      rcases List.mem_append.mp hmem with hmem | hmem
      · exact hs.workers key hmem
      · cases List.mem_singleton.mp hmem
  | proceed place | produceFails place | announceNone place => exact hs.setWorker (by simp)
  | finish place | giveUp place =>
      exact State.IsBarren.setWorker ⟨hs.ready, hs.calls, hs.workers⟩ (by simp)
  | add place free => exact absurd (List.mem_of_getElem? place) (hs.workers _)
  | announce place blocked => exact (hs.setWorker (by simp)).setCall rfl
  | @close w place =>
      have hgone : (s.setWorker w .gone).IsBarren := hs.setWorker (by simp)
      refine ⟨hgone.ready, fun c hc => ?_, hgone.workers⟩
      obtain ⟨d, hd, rfl⟩ := List.mem_map.mp hc
      split
      · rfl
      · exact hs.calls d hd
  | drop ended => exact ⟨hs.ready, hs.calls, hs.workers⟩

end Barren

section Traces

variable [DecidableEq κ] {size : Nat} {events : List (Event κ)} {s : State κ}

/-- Where keys are kept ready, a call that has given up on the stack has failed to
start a worker. -/
theorem Trace.start_mem_of_isAlone (h : Trace size events s) (hsize : 0 < size) {i : Nat}
    (hi : s.callIs Call.isAlone i = true) : .start i false ∈ events := by
  induction h with
  | initial started => cases hi
  | step event before h ih =>
      have hpositive : State.size _ ≠ 0 := before.reachable.isGuarded.sized ▸ Nat.ne_of_gt hsize
      rcases (step_of_after? h).isAlone_or_start hpositive hi with hi | rfl
      · exact List.mem_append_left _ (ih hi)
      · exact List.mem_append_right _ (List.mem_singleton_self _)

theorem Trace.isBarren (h : Trace size events s) (hsize : 0 < size)
    (hevents : ∀ event ∈ events, event.isBarren = true) : s.IsBarren := by
  induction h with
  | initial started => exact .initial size started
  | step event before h ih =>
      have hpositive : State.size _ ≠ 0 := before.reachable.isGuarded.sized ▸ Nat.ne_of_gt hsize
      have hevent := hevents event (List.mem_append_right _ (List.mem_singleton_self _))
      exact (step_of_after? h).isBarren hpositive hevent
        (ih fun event he => hevents event (List.mem_append_left _ he))

/-- Where keys are kept ready, a call that has given up on the stack has failed to
start a worker.  While no call fails to, and all workers fail to generate keys,
every call goes on trying to get one from the stack. -/
theorem Trace.start_mem_and_isTrying (h : Trace size events s) (hsize : 0 < size) :
    (∀ i, s.callIs Call.isAlone i = true → .start i false ∈ events) ∧
      ((∀ event ∈ events, event.isBarren = true) → ∀ c ∈ s.calls, c.isTrying = true) :=
  ⟨fun _ => h.start_mem_of_isAlone hsize, fun hevents => (h.isBarren hsize hevents).calls⟩

end Traces

/-! ## One worker after the other -/

/-- A call waits for a worker that generates a key.  Other workers have ended. -/
def State.retried (size : Nat) (ended : List (Worker κ)) : State κ :=
  ⟨size, [], true, false, none, [.blocked], ended ++ [.generating]⟩

/-- The call begins, and waits for the first worker. -/
def firstTry : List (Event κ) := [.begin, .lock 0, .look 0, .claim 0, .wait 0, .check 0]

/-- The worker in a place fails, and the call that it wakes starts the next one. -/
def retry (w : Nat) : List (Event κ) :=
  [.produce w none, .giveUp w, .close w, .lock 0, .look 0, .claim 0, .start 0 true, .wait 0,
    .check (w + 1)]

section Retries

variable [DecidableEq κ] {size : Nat}

theorem afterAll?_firstTry (hsize : 0 < size) :
    (State.initial size true).afterAll? firstTry = some (State.retried (κ := κ) size []) := by
  obtain ⟨n, rfl⟩ := Nat.exists_eq_add_one.mpr hsize
  rfl

theorem afterAll?_retry (hsize : 0 < size) (ended : List (Worker κ)) :
    (State.retried size ended).afterAll? (retry ended.length)
      = some (State.retried size (ended ++ [.gone])) := by
  simp [State.afterAll?, retry, State.retried, State.after?, State.setWorker, State.setCall,
    State.wakeAll, State.isBlocked, State.afterLook, State.afterClaim, State.afterStart,
    State.afterCheck, State.hasRoom, Nat.ne_of_gt hsize]

/-- A call can wait for any number of workers that fail one after the other. -/
theorem exists_trace_retried (hsize : 0 < size) (n : Nat) :
    ∃ events : List (Event κ), (∀ event ∈ events, event.isBarren = true) ∧
      Trace size events (State.retried size (List.replicate n .gone)) := by
  induction n with
  | zero =>
      exact ⟨firstTry, by simp [firstTry, Event.isBarren],
        (Trace.initial true).afterAll (afterAll?_firstTry hsize)⟩
  | succ n ih =>
      obtain ⟨events, hevents, htrace⟩ := ih
      have hretry := afterAll?_retry hsize (List.replicate n (Worker.gone (κ := κ)))
      rw [List.length_replicate, ← List.replicate_succ'] at hretry
      refine ⟨events ++ retry n, fun event he => ?_, htrace.afterAll hretry⟩
      rcases List.mem_append.mp he with he | he
      · exact hevents event he
      · have hretry : ∀ event ∈ retry (κ := κ) n, event.isBarren = true := by
          simp [retry, Event.isBarren]
        exact hretry event he

end Retries

/-- For example, the first worker fails, and the call that waited for it waits for
the second one. -/
theorem start_mem_and_isTrying_second :
    ∃ (events : List (Event Nat)) (s : State Nat), Trace 1 events s ∧
      (∀ event ∈ events, event.isBarren = true) ∧ .giveUp 0 ∈ events ∧ s.calls = [.blocked] ∧
      s.workers = [.gone, .generating] ∧ s.callIs Call.isAlone 0 = false ∧
      ∀ c ∈ s.calls, c.isTrying = true := by
  let events : List (Event Nat) := firstTry ++ retry 0
  have hbarren : ∀ event ∈ events, event.isBarren = true := by decide
  have htrace : Trace 1 events (State.retried 1 [.gone]) := (Trace.initial true).afterAll rfl
  obtain ⟨halone, htrying⟩ := htrace.start_mem_and_isTrying Nat.one_pos
  refine ⟨events, _, htrace, hbarren, by decide, rfl, rfl, ?_, htrying hbarren⟩
  exact Bool.not_eq_true _ ▸ fun hi => absurd (halone 0 hi) (by decide)

end Presign.KeyStack

namespace Presign

/-- No key has fewer than twelve bits. -/
theorem PrivateKey.generateRsa_of_lt {bits : Nat} (h : bits < 12) (seed : Octets) :
    PrivateKey.generateRsa bits seed = .error .rsa := by
  have hfew : Rsa.hasEnoughPrimes bits = false := decide_eq_false (by omega)
  rw [PrivateKey.generateRsa, Rsa.generate?, hfew]
  rfl

namespace KeyStack

/-! ## Key sizes for which generation fails -/

section Failing

variable {k : KeyStack} {i : Nat} {event : Event PrivateKey}

theorem nextKey_of_failing
    (hfails : ∀ seed, PrivateKey.generateRsa k.config.keyBits seed = .error .rsa) :
    k.nextKey = none := by
  rw [nextKey, hfails]
  rfl

theorem callEvent?_isBarren {c : Call PrivateKey} (hc : c.isTrying = true)
    (h : k.callEvent? i c = some event) : event.isBarren = true := by
  cases c with
  | leaving key => cases hc
  | startingLate key => cases hc
  | generating => cases hc
  | done key => cases hc
  | _ => cases h <;> rfl

theorem nextWorkerEvent?_isBarren (hnone : k.nextKey = none)
    (h : k.nextWorkerEvent? = some event) : event.isBarren = true := by
  obtain ⟨⟨worker, w⟩, -, hworker⟩ := List.exists_of_findSome?_eq_some h
  cases worker with
  | generating =>
      cases hworker
      rw [hnone]
      rfl
  | _ => cases hworker <;> rfl

/-- A call that has not ended goes on after the next event. -/
theorem finishCall_next {k' : KeyStack} {c : Call PrivateKey} (hc : k.state.calls[i]? = some c)
    (hdone : ∀ key, c ≠ .done key)
    (hnext : ((k.callEvent? i c).or k.nextWorkerEvent?).bind k.after? = some k') {events : Nat} :
    finishCall i (events + 1) k = finishCall i events k' := by
  rw [finishCall]
  split
  · rename_i hnone
    cases hc.symm.trans hnone
  · rename_i key hend
    cases hc.symm.trans hend
    exact absurd rfl (hdone key)
  · rename_i c' _ hc'
    cases hc.symm.trans hc'
    rw [hnext]

/-- A call to a stack without keys does not come to an end, however many events
there are. -/
theorem finishCall_of_failing {size : Nat} (hsize : 0 < size)
    (hfails : ∀ seed, PrivateKey.generateRsa k.config.keyBits seed = .error .rsa)
    (hs : k.state.IsGuarded size) (hbarren : k.state.IsBarren) (events : Nat) :
    finishCall i events k = none := by
  induction events generalizing k with
  | zero => rfl
  | succ events ih =>
      rw [finishCall]
      split
      · rfl
      · rename_i key hc
        cases hbarren.calls _ (List.mem_of_getElem? hc)
      · rename_i c _ hc
        split
        · rfl
        · rename_i k' hk
          obtain ⟨event, hevent, hk⟩ := Option.bind_eq_some_iff.mp hk
          obtain ⟨t, ht, rfl⟩ := Option.map_eq_some_iff.mp hk
          have hkept : event.isBarren = true := by
            rcases Option.or_eq_some_iff.mp hevent with hevent | ⟨-, hevent⟩
            · exact callEvent?_isBarren (hbarren.calls c (List.mem_of_getElem? hc)) hevent
            · exact nextWorkerEvent?_isBarren (nextKey_of_failing hfails) hevent
          have hstep := step_of_after? ht
          exact ih hfails (hstep.isGuarded hs)
            (hstep.isBarren (hs.sized ▸ Nat.ne_of_gt hsize) hkept hbarren)

end Failing

section Acquire

variable {config : KeyStackConfig}
  (hfails : ∀ seed, PrivateKey.generateRsa config.keyBits seed = .error .rsa)
include hfails

/-- Where keys are kept ready, a call never comes to an end. -/
theorem finishCall_stacked_of_failing (hstack : 0 < config.stackSize) {seed : Octets}
    {k : KeyStack} (hk : (ofConfig config seed).after? .begin = some k) (i events : Nat) :
    finishCall i events k = none := by
  obtain ⟨t, ht, rfl⟩ := Option.map_eq_some_iff.mp hk
  have hstep := step_of_after? ht
  have hs : (State.initial (κ := PrivateKey) config.stackSize true).IsGuarded config.stackSize :=
    .initial _ _
  exact finishCall_of_failing hstack hfails (hstep.isGuarded hs)
    (hstep.isBarren (Nat.ne_of_gt hstack) rfl (.initial _ _)) events

/-- So there is no answer, neither a key nor a failure. -/
theorem acquire_stacked_of_failing (hstack : 0 < config.stackSize) (seed : Octets) :
    (ofConfig config seed).acquire = none := by
  have hend : ((ofConfig config seed).after? .begin).bind
      (finishCall (ofConfig config seed).state.calls.length callEvents) = none := by
    cases hk : (ofConfig config seed).after? .begin with
    | none => rfl
    | some k => exact finishCall_stacked_of_failing hfails hstack hk _ _
  rw [acquire, hend]

/-- Where no keys are kept ready, the failure is the answer. -/
theorem acquire_unstacked_of_failing (hstack : config.stackSize = 0) (seed : Octets) :
    ∃ k, (ofConfig config seed).acquire = some (.error .rsa, k) := by
  obtain ⟨bits, size⟩ := config
  cases hstack
  let k : KeyStack := ⟨⟨bits, 0⟩, seed, 0, ⟨0, [], false, false, none, [.generating], []⟩⟩
  let k' : KeyStack := ⟨⟨bits, 0⟩, seed, 1, ⟨0, [], false, false, none, [.done none], []⟩⟩
  have hbegin : (ofConfig ⟨bits, 0⟩ seed).after? .begin = some k := rfl
  have hgenerate :
      ((k.callEvent? 0 .generating).or k.nextWorkerEvent?).bind k.after? = some k' := by
    rw [callEvent?, nextKey_of_failing hfails]
    rfl
  have hstep : finishCall 0 32 k = finishCall 0 31 k' :=
    finishCall_next rfl (fun key he => by cases he) hgenerate
  have hfinish : finishCall (ofConfig ⟨bits, 0⟩ seed).state.calls.length callEvents k
      = some (none, k') := hstep.trans rfl
  refine ⟨k', ?_⟩
  rw [acquire, hbegin, Option.bind_some, hfinish]

end Acquire

/-- For example, keys of eight bits cannot be generated.  A stack that keeps one of
them ready gives no answer after any number of events, and a stack that keeps none
answers with the failure. -/
theorem acquire_eq_none_small :
    (ofConfig ⟨8, 1⟩ []).acquire = none ∧
      (∀ k, (ofConfig ⟨8, 1⟩ []).after? .begin = some k →
        ∀ events, finishCall 0 events k = none) ∧
      ∃ k, (ofConfig ⟨8, 0⟩ []).acquire = some (.error .rsa, k) := by
  have hfails : ∀ seed, PrivateKey.generateRsa 8 seed = .error .rsa :=
    PrivateKey.generateRsa_of_lt (by decide)
  exact ⟨acquire_stacked_of_failing hfails Nat.one_pos [],
    fun k hk => finishCall_stacked_of_failing hfails Nat.one_pos hk 0,
    acquire_unstacked_of_failing hfails rfl []⟩

end KeyStack

end Presign
