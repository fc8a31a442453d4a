import Presign.Proofs.KeyStack.Step

/-!
# The flag of the key stack

Whatever calls and workers do, and in whatever order, the flag has one owner
while it is set and none while it is not: a call that is about to start a worker,
or a worker that has not released it (`State.IsGuarded.owned`).  So there is one
worker at most that can still add keys, and the room that it has found is still
there when it adds its key.

The flag is set and released at different places, some of them outside of the
lock.  Only an owner releases it, and only where it is not set does a call
become one.  The lock has no part in that.
-/

namespace Presign.KeyStack

variable {κ : Type}

/-! ## Owners of the flag -/

/-- Whether a call owns the flag.  It is about to start a worker. -/
def Call.owns : Call κ → Bool
  | .starting => true
  | .startingLate _ => true
  | _ => false

/-- Whether a worker owns the flag.  It does until it releases it. -/
def Worker.owns : Worker κ → Bool
  | .closing => false
  | .gone => false
  | _ => true

/-- Whether a worker has found room for a key that it has not added. -/
def Worker.isFilling : Worker κ → Bool
  | .generating => true
  | .adding _ => true
  | _ => false

namespace State

/-- The number of owners of the flag. -/
def owners (s : State κ) : Nat := s.calls.countP Call.owns + s.workers.countP Worker.owns

/-- The number of keys that workers have found room for and not added. -/
def filling (s : State κ) : Nat := s.workers.countP Worker.isFilling

end State

/-- A change in one place changes a count by what stood there and what stands there. -/
theorem countP_set_add {α : Type} {p : α → Bool} {l : List α} {i : Nat} {a : α}
    (h : l[i]? = some a) (b : α) :
    (l.set i b).countP p + (p a).toNat = l.countP p + (p b).toNat := by
  obtain ⟨hi, rfl⟩ := List.getElem?_eq_some_iff.mp h
  have hle := List.boole_getElem_le_countP (p := p) hi
  rw [List.countP_set hi]
  cases hp : p l[i] <;> cases hb : p b <;> simp only [hp, if_true] at hle <;> simp <;> omega

/-- Two places in a list in which a condition holds are the same, if it holds once
at most. -/
theorem eq_of_countP_le_one {α : Type} {p : α → Bool} {l : List α} (h : l.countP p ≤ 1)
    {i j : Nat} {a b : α} (hi : l[i]? = some a) (ha : p a = true) (hj : l[j]? = some b)
    (hb : p b = true) : i = j := by
  have hnot : ∀ {i j : Nat} {a b : α}, l[i]? = some a → p a = true → l[j]? = some b →
      p b = true → ¬ i < j := by
    intro i j a b hi ha hj hb hlt
    have hfirst : 0 < (l.take j).countP p :=
      List.countP_pos_iff.mpr ⟨a, List.mem_of_getElem? (List.getElem?_take_of_lt hlt ▸ hi), ha⟩
    have hsecond : 0 < (l.drop j).countP p := by
      refine List.countP_pos_iff.mpr ⟨b, List.mem_of_getElem? (i := 0) ?_, hb⟩
      rw [List.getElem?_drop]
      exact hj
    have hsum : (l.take j).countP p + (l.drop j).countP p = l.countP p := by
      rw [← List.countP_append, List.take_append_drop]
    omega
  exact Nat.le_antisymm (Nat.not_lt.mp (hnot hj hb hi ha)) (Nat.not_lt.mp (hnot hi ha hj hb))

namespace State

variable {s : State κ} {i w : Nat}

theorem owners_setCall {c : Call κ} (h : s.calls[i]? = some c) (c' : Call κ) :
    (s.setCall i c').owners + c.owns.toNat = s.owners + c'.owns.toNat := by
  have hcount := countP_set_add (p := Call.owns) h c'
  simp only [owners, setCall]
  omega

theorem owners_setWorker {worker : Worker κ} (h : s.workers[w]? = some worker)
    (worker' : Worker κ) :
    (s.setWorker w worker').owners + worker.owns.toNat = s.owners + worker'.owns.toNat := by
  have hcount := countP_set_add (p := Worker.owns) h worker'
  simp only [owners, setWorker]
  omega

theorem filling_setWorker {worker : Worker κ} (h : s.workers[w]? = some worker)
    (worker' : Worker κ) :
    (s.setWorker w worker').filling + worker.isFilling.toNat
      = s.filling + worker'.isFilling.toNat :=
  countP_set_add h worker'

@[simp] theorem filling_setCall (s : State κ) (i : Nat) (c : Call κ) :
    (s.setCall i c).filling = s.filling := rfl

@[simp] theorem filling_wakeAll (s : State κ) : s.wakeAll.filling = s.filling := rfl

theorem owners_wakeAll (s : State κ) : s.wakeAll.owners = s.owners := by
  have hcount : (s.calls.map fun c => if isBlocked c then .entering else c).countP Call.owns
      = s.calls.countP Call.owns := by
    rw [List.countP_map]
    refine List.countP_congr fun c _ => ?_
    cases c <;> rfl
  simp only [owners, wakeAll, hcount]

theorem owners_begin (s : State κ) (c : Call κ) (h : c.owns = false) :
    { s with calls := s.calls ++ [c] }.owners = s.owners := by
  simp [owners, h]

theorem owners_start (s : State κ) :
    { s with workers := s.workers ++ [Worker.checking] }.owners = s.owners + 1 := by
  simp [owners, Worker.owns]
  omega

theorem filling_le_owners (s : State κ) : s.filling ≤ s.owners := by
  have hle : s.workers.countP Worker.isFilling ≤ s.workers.countP Worker.owns :=
    List.countP_mono_left fun worker _ h => by cases worker <;> first | rfl | cases h
  exact Nat.le_trans hle (Nat.le_add_left ..)

end State

/-! ## What every step keeps -/

/-- The flag has one owner while it is set, and none while it is not.  The keys
that are ready and those that will be added fit in the stack. -/
structure State.IsGuarded (size : Nat) (s : State κ) : Prop where
  sized : s.size = size
  owned : s.owners = s.refilling.toNat
  room : s.ready.length + s.filling ≤ size

namespace State.IsGuarded

variable {size : Nat} {s : State κ} {i w : Nat}

theorem initial (size : Nat) (started : Bool) :
    (State.initial (κ := κ) size started).IsGuarded size := by
  cases started <;> cases size <;> exact ⟨rfl, rfl, Nat.zero_le _⟩

theorem owners_le (h : s.IsGuarded size) : s.owners ≤ 1 :=
  h.owned ▸ Bool.toNat_le _

section Calls

variable {c c' : Call κ}

/-- A call moves on, and owns the flag as before. -/
theorem setCall (h : s.IsGuarded size) (place : s.calls[i]? = some c) (howns : c'.owns = c.owns) :
    (s.setCall i c').IsGuarded size := by
  refine ⟨h.sized, ?_, h.room⟩
  have howners := s.owners_setCall place c'
  rw [howns, Nat.add_right_cancel_iff] at howners
  exact howners.trans h.owned

/-- A call claims the flag. -/
theorem claim (h : s.IsGuarded size) (place : s.calls[i]? = some c) (flag : s.refilling = false)
    (howns : c.owns = false) (howns' : c'.owns = true) :
    ({ s with refilling := true }.setCall i c').IsGuarded size := by
  refine ⟨h.sized, ?_, h.room⟩
  have howners := State.owners_setCall (s := { s with refilling := true }) place c'
  have howned := h.owned
  rw [flag] at howned
  rw [howns, howns'] at howners
  exact howners.trans (congrArg (· + 1) howned)

/-- A call releases the flag. -/
theorem release (h : s.IsGuarded size) (place : s.calls[i]? = some c) (howns : c.owns = true)
    (howns' : c'.owns = false) :
    ({ s with refilling := false }.setCall i c').IsGuarded size := by
  refine ⟨h.sized, ?_, h.room⟩
  have howners := State.owners_setCall (s := { s with refilling := false }) place c'
  rw [howns, howns'] at howners
  exact Nat.le_zero.mp (Nat.le_of_succ_le_succ (Nat.le_trans (Nat.le_of_eq howners) h.owners_le))

/-- A call leaves the flag to a new worker. -/
theorem start (h : s.IsGuarded size) (place : s.calls[i]? = some c) (howns : c.owns = true)
    (howns' : c'.owns = false) :
    ({ s with workers := s.workers ++ [Worker.checking] }.setCall i c').IsGuarded size := by
  have hfilling : { s with workers := s.workers ++ [Worker.checking] }.filling = s.filling := by
    simp [filling, Worker.isFilling]
  refine ⟨h.sized, ?_, hfilling ▸ h.room⟩
  have howners := State.owners_setCall
    (s := { s with workers := s.workers ++ [Worker.checking] }) place c'
  rw [howns, howns', owners_start] at howners
  exact (Nat.add_right_cancel howners).trans h.owned

end Calls

section Workers

variable {worker : Worker κ}

/-- A worker moves on, and owns the flag as before.  It gives up room that it has
found for keys that are added. -/
theorem setWorker (h : s.IsGuarded size) (place : s.workers[w]? = some worker)
    (worker' : Worker κ) (ready : List κ) (howns : worker'.owns = worker.owns)
    (hroom : ready.length + worker'.isFilling.toNat ≤ s.ready.length + worker.isFilling.toNat) :
    ({ s with ready := ready }.setWorker w worker').IsGuarded size := by
  have howners := State.owners_setWorker (s := { s with ready := ready }) place worker'
  have hfilling := State.filling_setWorker (s := { s with ready := ready }) place worker'
  rw [howns, Nat.add_right_cancel_iff] at howners
  refine ⟨h.sized, howners.trans h.owned, ?_⟩
  have hle := h.room
  change _ = s.filling + _ at hfilling
  change ready.length + _ ≤ size
  omega

/-- A worker that has the flag is the only one, so it finds room for one more key
where the stack is not full. -/
theorem proceed (h : s.IsGuarded size) (place : s.workers[w]? = some .checking)
    (room : s.hasRoom = true) : (s.setWorker w .generating).IsGuarded size := by
  have howners := s.owners_setWorker place .gone
  have hfilling := s.filling_setWorker place .gone
  have hothers := (s.setWorker w .gone).filling_le_owners
  have hle := h.owners_le
  have hnone : s.filling = 0 := by
    simp only [Worker.owns, Worker.isFilling, Bool.toNat_true, Bool.toNat_false] at howners hfilling
    omega
  refine ⟨h.sized, ?_, ?_⟩
  · exact (Nat.add_right_cancel (s.owners_setWorker place .generating)).trans h.owned
  · have hfilling := s.filling_setWorker place .generating
    have hroom := h.sized ▸ of_decide_eq_true room
    rw [hnone] at hfilling
    exact Nat.le_trans (Nat.add_le_add_left (Nat.le_of_eq hfilling) _) hroom

/-- A worker releases the flag. -/
theorem releaseWorker (h : s.IsGuarded size) (place : s.workers[w]? = some worker)
    (howns : worker.owns = true) :
    ({ s with refilling := false }.setWorker w .closing).IsGuarded size := by
  refine ⟨h.sized, ?_, ?_⟩
  · have howners := State.owners_setWorker (s := { s with refilling := false }) place .closing
    rw [howns] at howners
    exact Nat.le_zero.mp (Nat.le_of_succ_le_succ (Nat.le_trans (Nat.le_of_eq howners) h.owners_le))
  · have hfilling := State.filling_setWorker (s := { s with refilling := false }) place .closing
    exact Nat.le_trans (Nat.add_le_add_left (Nat.le_of_add_right_le (Nat.le_of_eq hfilling)) _)
      h.room

end Workers

end State.IsGuarded

theorem owns_leave (key : Option κ) : (State.leave key).owns = false := by
  cases key <;> rfl

namespace Step

variable {s t : State κ} {event : Event κ} {size : Nat}

theorem isGuarded (h : Step s event t) (hs : s.IsGuarded size) : t.IsGuarded size := by
  cases h with
  | begin used =>
      refine ⟨hs.sized, ?_, hs.room⟩
      rw [State.owners_begin s _ (by split <;> rfl)]
      exact hs.owned
  | lock place free =>
      exact State.IsGuarded.setCall (s := { s with lock := some _ }) ⟨hs.sized, hs.owned, hs.room⟩
        place rfl
  | take place ready =>
      have hlength := congrArg List.length ready
      have hroom := hs.room
      refine State.IsGuarded.setCall (s := { s with ready := _, lock := none })
        ⟨hs.sized, hs.owned, ?_⟩ place rfl
      rw [hlength, List.length_cons] at hroom
      exact Nat.le_trans (Nat.add_le_add_right (Nat.le_succ _) _) hroom
  | miss place ready => exact hs.setCall place rfl
  | join place flag => exact hs.setCall place rfl
  | claim place flag => exact hs.claim place flag rfl rfl
  | leave place flag => exact hs.setCall place (owns_leave _)
  | claimLate place flag => exact hs.claim place flag rfl rfl
  | start place => exact hs.start place rfl rfl
  | startFails place =>
      exact State.IsGuarded.release (s := { s with lock := none }) ⟨hs.sized, hs.owned, hs.room⟩
        place rfl rfl
  | startLate place => exact hs.start place rfl (owns_leave _)
  | startLateFails place => exact hs.release place rfl (owns_leave _)
  | wait place =>
      exact State.IsGuarded.setCall (s := { s with lock := none }) ⟨hs.sized, hs.owned, hs.room⟩
        place rfl
  | generate place => exact hs.setCall place rfl
  | finish place free enough => exact hs.releaseWorker place rfl
  | proceed place free used room => exact hs.proceed place room
  | produce place => exact hs.setWorker place (.adding _) s.ready rfl (Nat.le_refl _)
  | produceFails place => exact hs.setWorker place .failing s.ready rfl (Nat.le_succ _)
  | add place free =>
      refine hs.setWorker place .announcing _ rfl ?_
      rw [List.length_append]
      exact Nat.le_refl _
  | announce place blocked =>
      exact (hs.setWorker place .checking s.ready rfl (Nat.le_refl _)).setCall blocked rfl
  | announceNone place awake => exact hs.setWorker place .checking s.ready rfl (Nat.le_refl _)
  | giveUp place free => exact hs.releaseWorker place rfl
  | close place =>
      have hclosed := hs.setWorker place .gone s.ready rfl (Nat.le_refl _)
      exact ⟨hclosed.sized, (State.owners_wakeAll _).trans hclosed.owned, hclosed.room⟩
  | drop ended => exact ⟨hs.sized, hs.owned, hs.room⟩
end Step

/-! ## Workers that can still add a key -/

section Released

variable {s t : State κ} {w : Nat}

/-- The worker in a place has released the flag. -/
def State.HasReleased (s : State κ) (w : Nat) : Prop :=
  ∃ worker, s.workers[w]? = some worker ∧ worker.owns = false

theorem State.HasReleased.setWorker {v : Nat} {worker : Worker κ} (h : s.HasReleased w)
    (place : s.workers[v]? = some worker) (worker' : Worker κ)
    (howns : worker.owns = true ∨ worker'.owns = false) :
    (s.setWorker v worker').HasReleased w := by
  obtain ⟨released, hw, hreleased⟩ := h
  obtain ⟨hv, -⟩ := List.getElem?_eq_some_iff.mp place
  rw [HasReleased, State.setWorker, List.getElem?_set]
  split
  · rename_i hvw
    subst hvw
    rw [place] at hw
    cases hw
    refine ⟨worker', rfl, howns.resolve_left ?_⟩
    rw [hreleased]
    exact Bool.false_ne_true
  · exact ⟨released, hw, hreleased⟩

theorem State.HasReleased.start (h : s.HasReleased w) (worker : Worker κ) :
    { s with workers := s.workers ++ [worker] }.HasReleased w := by
  obtain ⟨released, hw, hreleased⟩ := h
  obtain ⟨hlt, -⟩ := List.getElem?_eq_some_iff.mp hw
  exact ⟨released, (List.getElem?_append_left hlt).trans hw, hreleased⟩

/-- A worker that has released the flag does not get it again. -/
theorem Step.hasReleased {event : Event κ} (h : Step s event t)
    (hw : s.HasReleased w) : t.HasReleased w := by
  cases h with
  | start place => exact hw.start _
  | startLate place => exact hw.start _
  | finish place free enough =>
      exact State.HasReleased.setWorker (s := { s with refilling := false }) hw place _ (.inl rfl)
  | proceed place free used room => exact hw.setWorker place _ (.inl rfl)
  | produce place => exact hw.setWorker place _ (.inl rfl)
  | produceFails place => exact hw.setWorker place _ (.inl rfl)
  | add place free =>
      exact State.HasReleased.setWorker (s := { s with ready := _ }) hw place _ (.inl rfl)
  | announce place blocked => exact hw.setWorker place _ (.inl rfl)
  | announceNone place awake => exact hw.setWorker place _ (.inl rfl)
  | giveUp place free =>
      exact State.HasReleased.setWorker (s := { s with refilling := false }) hw place _ (.inl rfl)
  | close place => exact hw.setWorker place _ (.inr rfl)
  | _ => exact hw

end Released

section Reachable

variable [DecidableEq κ] {size : Nat} {s : State κ} {w : Nat}

theorem Reachable.isGuarded (h : Reachable size s) : s.IsGuarded size := by
  induction h with
  | initial started => exact .initial size started
  | step event _ h ih => exact (step_of_after? h).isGuarded ih

/-- A worker adds a key at some time from now on. -/
inductive Adds (w : Nat) : State κ → Prop where
  | now {s t : State κ} (h : s.after? (.add w) = some t) : Adds w s
  | later {s t : State κ} (event : Event κ) (h : s.after? event = some t) (after : Adds w t) :
    Adds w s

/-- A worker that is there can still add a key. -/
def State.CanAdd (s : State κ) (w : Nat) : Prop := w < s.workers.length ∧ Adds w s

theorem Adds.not_hasReleased (h : Adds w s) : ¬ s.HasReleased w := by
  induction h with
  | now h =>
      rintro ⟨worker, hw, howns⟩
      cases step_of_after? h with
      | add place free =>
          rw [place] at hw
          cases hw
          cases howns
  | later event h _ ih => exact fun hw => ih ((step_of_after? h).hasReleased hw)

/-- A worker that can still add a key owns the flag. -/
theorem State.CanAdd.exists_owns (h : s.CanAdd w) :
    ∃ worker, s.workers[w]? = some worker ∧ worker.owns = true := by
  obtain ⟨hw, hadds⟩ := h
  refine ⟨s.workers[w], List.getElem?_eq_getElem hw, ?_⟩
  cases howns : s.workers[w].owns with
  | true => rfl
  | false => exact absurd ⟨_, List.getElem?_eq_getElem hw, howns⟩ hadds.not_hasReleased

/-- One worker at most can still add a key. -/
theorem State.IsGuarded.eq_of_canAdd (h : s.IsGuarded size) {v : Nat} (hw : s.CanAdd w)
    (hv : s.CanAdd v) : w = v := by
  obtain ⟨worker, hw, howns⟩ := hw.exists_owns
  obtain ⟨worker', hv, howns'⟩ := hv.exists_owns
  exact eq_of_countP_le_one (Nat.le_trans (Nat.le_add_left ..) h.owners_le) hw howns hv howns'

end Reachable

end Presign.KeyStack
