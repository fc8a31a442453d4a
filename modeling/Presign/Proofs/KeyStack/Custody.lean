import Presign.Proofs.KeyStack.Flag

/-!
# Custody of keys

What calls take and what workers add is not in a state.  `Past` records it along
a run.  The keys that workers have added are those that calls have taken, in the
order in which they took them, followed by those that are ready.  Every key that
was taken is with the call that took it, until the call ends with it.
-/

namespace Presign.KeyStack

variable {κ : Type}

/-! ## The keys of calls -/

/-- The key that a call has, or has ended with. -/
def Call.key? : Call κ → Option κ
  | .leaving key => key
  | .startingLate key => key
  | .done key => key
  | _ => none

/-- The key that the call in a place has, or has ended with. -/
def State.key? (s : State κ) (i : Nat) : Option κ := s.calls[i]?.bind Call.key?

section Calls

variable {s : State κ}

theorem State.key?_of_place {c : Call κ} {i : Nat} (h : s.calls[i]? = some c) :
    s.key? i = c.key? := by
  rw [key?, h, Option.bind_some]

theorem State.key?_setCall {c : Call κ} {i : Nat} (h : s.calls[i]? = some c) (c' : Call κ)
    (j : Nat) : (s.setCall i c').key? j = if j = i then c'.key? else s.key? j := by
  rw [key?, key?, State.getElem?_setCall h]
  split
  · rw [Option.bind_some]
  · rfl

/-- A call moves on with the key that it has. -/
theorem State.key?_setCall_same {c c' : Call κ} {i : Nat} (h : s.calls[i]? = some c)
    (hkey : c'.key? = c.key?) (j : Nat) : (s.setCall i c').key? j = s.key? j := by
  rw [State.key?_setCall h]
  split
  · rename_i hj
    rw [hj, hkey, State.key?_of_place h]
  · rfl

theorem key?_leave (key : Option κ) : (State.leave key).key? = key := by
  cases key <;> rfl

theorem State.key?_begin {c : Call κ} (h : c.key? = none) (j : Nat) :
    { s with calls := s.calls ++ [c] }.key? j = s.key? j := by
  rw [key?, key?, getElem?_concat]
  split
  · rename_i hj
    rw [Option.bind_some, h, hj, List.getElem?_eq_none (Nat.le_refl _), Option.bind_none]
  · rfl

theorem State.key?_wakeAll (j : Nat) : s.wakeAll.key? j = s.key? j := by
  rw [key?, key?, wakeAll]
  dsimp only
  rw [List.getElem?_map]
  cases s.calls[j]? with
  | none => rfl
  | some c => cases c <;> rfl

end Calls

/-! ## What has become of the keys -/

/-- What has become of the keys so far. -/
structure Past (κ : Type) where
  /-- The keys that workers have added. -/
  added : List κ := []
  /-- The keys that calls have taken from the stack, each with its call. -/
  taken : List (Nat × κ) := []
  /-- The keys that calls have generated of their own, each with its call. -/
  made : List (Nat × κ) := []

/-- What has become of the keys after an event. -/
def Past.after (past : Past κ) (s : State κ) : Event κ → Past κ
  | .look i =>
    match s.ready with
    | key :: _ => { past with taken := past.taken ++ [(i, key)] }
    | [] => past
  | .generate i (some key) => { past with made := past.made ++ [(i, key)] }
  | .add w =>
    match s.workers[w]? with
    | some (.adding key) => { past with added := past.added ++ [key] }
    | _ => past
  | _ => past

/-- The keys have gone the way that the past tells. -/
structure Past.Accounts (past : Past κ) (s : State κ) : Prop where
  queue : past.added = past.taken.map Prod.snd ++ s.ready
  once : ((past.taken ++ past.made).map Prod.fst).Nodup
  held : ∀ i key, s.key? i = some key ↔ (i, key) ∈ past.taken ++ past.made

namespace Past.Accounts

variable {past : Past κ} {i : Nat}

/-- Nothing is done to keys. -/
theorem of_same {t : State κ} (h : past.Accounts s) (hready : t.ready = s.ready)
    (hkey : ∀ j, t.key? j = s.key? j) : past.Accounts t :=
  ⟨hready ▸ h.queue, h.once, fun j key => hkey j ▸ h.held j key⟩

/-- A call without a key comes to one. -/
theorem give {past' : Past κ} {t : State κ} {key : κ} (h : past.Accounts s)
    (hnone : s.key? i = none) (hkey : ∀ j, t.key? j = if j = i then some key else s.key? j)
    (hkeys : (past'.taken ++ past'.made).Perm ((i, key) :: (past.taken ++ past.made)))
    (hqueue : past'.added = past'.taken.map Prod.snd ++ t.ready) : past'.Accounts t := by
  have hfree : ∀ key, (i, key) ∉ past.taken ++ past.made := by
    intro key hmem
    rw [← h.held, hnone] at hmem
    cases hmem
  refine ⟨hqueue, ?_, fun j key' => ?_⟩
  · rw [(hkeys.map Prod.fst).nodup_iff, List.map_cons, List.nodup_cons]
    refine ⟨fun hmem => ?_, h.once⟩
    obtain ⟨⟨j, other⟩, hmem, hj⟩ := List.mem_map.mp hmem
    cases hj
    exact hfree other hmem
  · rw [hkeys.mem_iff, List.mem_cons, hkey]
    split
    · rename_i hj
      subst hj
      rw [Option.some.injEq, Prod.mk.injEq]
      constructor
      · intro hk
        exact .inl ⟨rfl, hk.symm⟩
      · rintro (⟨-, hk⟩ | hmem)
        · exact hk.symm
        · exact absurd hmem (hfree key')
    · rename_i hj
      rw [h.held, Prod.mk.injEq]
      exact ⟨.inr, fun hmem => hmem.resolve_left fun hk => hj hk.1⟩

end Past.Accounts

/-- Every step keeps the past and the keys in agreement. -/
theorem Step.accounts {past : Past κ} {event : Event κ} {s t : State κ} (h : Step s event t)
    (hp : past.Accounts s) : (past.after s event).Accounts t := by
  cases h with
  | begin used => exact hp.of_same rfl (State.key?_begin (by split <;> rfl))
  | lock place free => exact hp.of_same rfl (State.key?_setCall_same place rfl)
  | @take i key keys place ready =>
      have hqueue := hp.queue
      rw [Past.after, ready]
      rw [ready] at hqueue
      refine hp.give (State.key?_of_place place) (State.key?_setCall place _) ?_ ?_
      · change ((past.taken ++ [(i, key)]) ++ past.made).Perm _
        rw [List.append_assoc]
        exact List.perm_middle
      · change past.added = (past.taken ++ [(i, key)]).map Prod.snd ++ keys
        rw [hqueue, List.map_append, List.append_assoc]
        rfl
  | miss place ready =>
      rw [Past.after, ready]
      exact hp.of_same rfl (State.key?_setCall_same place rfl)
  | join place flag => exact hp.of_same rfl (State.key?_setCall_same place rfl)
  | claim place flag => exact hp.of_same rfl (State.key?_setCall_same place rfl)
  | leave place flag => exact hp.of_same rfl (State.key?_setCall_same place (key?_leave _))
  | claimLate place flag => exact hp.of_same rfl (State.key?_setCall_same place rfl)
  | start place => exact hp.of_same rfl (State.key?_setCall_same place rfl)
  | startFails place => exact hp.of_same rfl (State.key?_setCall_same place rfl)
  | startLate place => exact hp.of_same rfl (State.key?_setCall_same place (key?_leave _))
  | startLateFails place => exact hp.of_same rfl (State.key?_setCall_same place (key?_leave _))
  | wait place => exact hp.of_same rfl (State.key?_setCall_same place rfl)
  | @generate i key place =>
      cases key with
      | none => exact hp.of_same rfl (State.key?_setCall_same place rfl)
      | some key =>
          refine hp.give (State.key?_of_place place) (State.key?_setCall place _) ?_ hp.queue
          change (past.taken ++ (past.made ++ [(i, key)])).Perm _
          rw [← List.append_assoc]
          exact List.perm_append_singleton _ _
  | @add w key place free =>
      rw [Past.after, place]
      refine ⟨?_, hp.once, hp.held⟩
      change past.added ++ [key] = past.taken.map Prod.snd ++ (s.ready ++ [key])
      rw [hp.queue, List.append_assoc]
  | announce place blocked => exact hp.of_same rfl (State.key?_setCall_same blocked rfl)
  | close place => exact hp.of_same rfl (State.key?_wakeAll (s := s.setWorker _ _))
  | _ => exact hp.of_same rfl fun _ => rfl

/-! ## Runs -/

section Runs

variable [DecidableEq κ] {size : Nat} {s : State κ}

/-- The states that a stack of a given size can come to, with what has become of
the keys on the way. -/
inductive Run (size : Nat) : Past κ → State κ → Prop
  | initial (started : Bool) : Run size {} (.initial size started)
  | step {past : Past κ} {s t : State κ} (event : Event κ) (before : Run size past s)
      (h : s.after? event = some t) : Run size (past.after s event) t

theorem reachable_iff_exists_run : Reachable size s ↔ ∃ past, Run size past s := by
  constructor
  · intro h
    induction h with
    | initial started => exact ⟨_, .initial started⟩
    | step event _ h ih =>
        obtain ⟨past, hpast⟩ := ih
        exact ⟨_, .step event hpast h⟩
  · rintro ⟨past, h⟩
    induction h with
    | initial started => exact .initial started
    | step event _ h ih => exact .step event ih h

/-- What events lead to, if they can happen one after the other. -/
def follow? (past : Past κ) (s : State κ) : List (Event κ) → Option (Past κ × State κ)
  | [] => some (past, s)
  | event :: events => (s.after? event).bind fun t => follow? (past.after s event) t events

theorem Run.follow {past past' : Past κ} {s t : State κ} (h : Run size past s)
    (events : List (Event κ)) (hfollow : follow? past s events = some (past', t)) :
    Run size past' t := by
  induction events generalizing past s with
  | nil =>
      cases hfollow
      exact h
  | cons event events ih =>
      obtain ⟨next, hnext, hfollow⟩ := Option.bind_eq_some_iff.mp hfollow
      exact ih (.step event h hnext) hfollow

theorem Run.accounts {past : Past κ} (h : Run size past s) : past.Accounts s := by
  induction h with
  | initial started =>
      refine ⟨rfl, List.nodup_nil, fun i key => ?_⟩
      exact ⟨fun h => (by cases h), fun h => (by cases h)⟩
  | step event _ h ih => exact (step_of_after? h).accounts ih

/-- In every reachable state the flag is set exactly while it has an owner, which
is a call about to start a worker or a worker that has not released it, and it
has one owner at most.  A worker that can still add a key is such an owner, and
the only one that can.  The stack never holds more keys than its size.  The keys
added so far are those taken by calls, followed by those that are ready.  No call
has two keys, and what a call has, or has ended with, is the key that it took or
generated. -/
theorem Reachable.owned_roomy_accounted (h : Reachable size s) :
    s.owners = s.refilling.toNat ∧
      (∀ w, s.CanAdd w → ∃ worker, s.workers[w]? = some worker ∧ worker.owns = true) ∧
      (∀ w v, s.CanAdd w → s.CanAdd v → w = v) ∧
      s.ready.length ≤ size ∧
      ∀ past, Run size past s →
        past.added = past.taken.map Prod.snd ++ s.ready ∧
        ((past.taken ++ past.made).map Prod.fst).Nodup ∧
        ∀ i key, s.key? i = some key ↔ (i, key) ∈ past.taken ++ past.made := by
  have hs := h.isGuarded
  refine ⟨hs.owned, fun w hw => hw.exists_owns, fun w v => hs.eq_of_canAdd,
    Nat.le_trans (Nat.le_add_right ..) hs.room, fun past hrun => ?_⟩
  exact ⟨hrun.accounts.queue, hrun.accounts.once, hrun.accounts.held⟩

end Runs

/-- For example, a worker fills the stack and releases the flag.  A call takes its
key and starts another worker before the first has ended.  Then only the second
can still add a key. -/
theorem owned_roomy_accounted_second :
    ∃ (past : Past Nat) (s : State Nat), Run 1 past s ∧ s.workers = [.closing, .checking] ∧
      s.calls = [.done (some 7)] ∧ s.owners = 1 ∧ s.CanAdd 1 ∧ (∀ w, s.CanAdd w → w = 1) ∧
      past.added = past.taken.map Prod.snd ++ s.ready ∧ past.taken = [(0, 7)] := by
  let past : Past Nat := ⟨[7], [(0, 7)], []⟩
  let s : State Nat := ⟨1, [], true, false, none, [.done (some 7)], [.closing, .checking]⟩
  have hrun : Run 1 past s := (Run.initial true).follow [.check 0, .produce 0 (some 7),
    .add 0, .announce 0 none, .check 0, .begin, .lock 0, .look 0, .claim 0, .start 0 true] rfl
  have hcan : s.CanAdd 1 := ⟨by decide, .later (.check 1) rfl
    (.later (.produce 1 (some 8)) rfl (.now rfl))⟩
  obtain ⟨howned, -, honly, -, haccounts⟩ :=
    Reachable.owned_roomy_accounted (reachable_iff_exists_run.mpr ⟨past, hrun⟩)
  exact ⟨past, s, hrun, rfl, rfl, howned, hcan, fun w hw => honly w 1 hw hcan,
    (haccounts past hrun).1, rfl⟩

end Presign.KeyStack
