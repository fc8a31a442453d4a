import Mathlib.Data.List.Forall2
import Mathlib.Logic.Basic

/-!
# Computations that may fail

How a computation with a value came about, step by step, and which errors a computation
can have.
-/

namespace Presign

variable {ε ε' α β : Type}

/-- A step with a value passes it on. -/
@[simp] theorem Except.ok_bind (a : α) (f : α → Except ε β) : Except.ok a >>= f = f a := rfl

/-- A sequence of two steps has a value if both have one. -/
theorem Except.bind_eq_ok {x : Except ε α} {f : α → Except ε β} {b : β} :
    x >>= f = .ok b ↔ ∃ a, x = .ok a ∧ f a = .ok b := by
  cases x with
  | error e =>
      constructor
      · intro h; cases h
      · rintro ⟨_, h, _⟩; cases h
  | ok a =>
      constructor
      · intro h; exact ⟨a, rfl, h⟩
      · rintro ⟨_, h, hf⟩; cases h; exact hf

/-- Another error does not change the values. -/
theorem Except.mapError_eq_ok {x : Except ε α} {f : ε → ε'} {a : α} :
    x.mapError f = .ok a ↔ x = .ok a := by
  cases x with
  | error e =>
      constructor
      · intro h; cases h
      · intro h; cases h
  | ok b =>
      constructor
      · intro h; cases h; rfl
      · intro h; cases h; rfl

theorem Except.map_eq_ok {x : Except ε α} {f : α → β} {b : β} :
    x.map f = .ok b ↔ ∃ a, x = .ok a ∧ f a = b := by
  cases x with
  | error e =>
      constructor
      · intro h; cases h
      · rintro ⟨_, h, _⟩; cases h
  | ok a =>
      constructor
      · intro h; cases h; exact ⟨a, rfl, rfl⟩
      · rintro ⟨_, h, hf⟩; cases h; cases hf; rfl

theorem Except.map_eq_bind {x : Except ε α} {f : α → β} : x.map f = x >>= fun a => .ok (f a) := by
  cases x with
  | error e => rfl
  | ok a => rfl

/-- Steps for the members of a list have the values that the single steps have. -/
theorem Except.mapM_eq_ok_iff {f : α → Except ε β} {R : α → β → Prop} {as : List α} {bs : List β}
    (h : ∀ a ∈ as, ∀ b, f a = .ok b ↔ R a b) : as.mapM f = .ok bs ↔ List.Forall₂ R as bs := by
  induction as generalizing bs with
  | nil => cases bs <;> simp [pure, Except.pure]
  | cons a as ih =>
      have hfirst := h a (List.mem_cons_self ..)
      have hrest (bs : List β) : as.mapM f = .ok bs ↔ List.Forall₂ R as bs :=
        ih fun a' ha' => h a' (List.mem_cons_of_mem _ ha')
      rw [List.mapM_cons, Except.bind_eq_ok, List.forall₂_cons_left_iff]
      constructor
      · rintro ⟨b, hb, hmore⟩
        obtain ⟨bs, hbs, hmore⟩ := Except.bind_eq_ok.mp hmore
        cases hmore
        exact ⟨b, bs, (hfirst b).mp hb, (hrest bs).mp hbs, rfl⟩
      · rintro ⟨b, bs, hb, hbs, rfl⟩
        exact ⟨b, (hfirst b).mpr hb, Except.bind_eq_ok.mpr ⟨bs, (hrest bs).mpr hbs, rfl⟩⟩

theorem Except.isOk_iff {x : Except ε α} : x.isOk = true ↔ ∃ a, x = .ok a := by
  cases x with
  | error e => simp [Except.isOk, Except.toBool]
  | ok a => simp [Except.isOk, Except.toBool]

/-! ## Errors -/

theorem Except.map_eq_error {x : Except ε α} {f : α → β} {e : ε} :
    x.map f = .error e ↔ x = .error e := by
  cases x with
  | error e' =>
      constructor
      · intro h; cases h; rfl
      · intro h; cases h; rfl
  | ok a =>
      constructor
      · intro h; cases h
      · intro h; cases h

/-- All errors of a computation satisfy a condition. -/
def FailsOnly (P : ε → Prop) (x : Except ε α) : Prop := ∀ e, x = .error e → P e

namespace FailsOnly

variable {P : ε → Prop} {Q : ε' → Prop} {x : Except ε α} {e : ε}

theorem ok {a : α} : FailsOnly P (.ok a) := by
  intro e h
  cases h

theorem error (h : P e) : FailsOnly P (.error e : Except ε α) := by
  intro e' he
  cases he
  exact h

theorem bind {f : α → Except ε β} (hx : FailsOnly P x) (hf : ∀ a, FailsOnly P (f a)) :
    FailsOnly P (x >>= f) := by
  cases x with
  | error e => exact .error (hx e rfl)
  | ok a => exact hf a

theorem map {f : α → β} (hx : FailsOnly P x) : FailsOnly P (x.map f) := by
  intro e he
  exact hx e (Except.map_eq_error.mp he)

theorem mapError {f : ε → ε'} (hx : FailsOnly P x) (hf : ∀ e, P e → Q (f e)) :
    FailsOnly Q (x.mapError f) := by
  cases x with
  | error e => exact .error (hf e (hx e rfl))
  | ok a => exact .ok

/-- Errors that are all turned into such as satisfy the condition. -/
theorem of_mapError {f : ε → ε'} (hf : ∀ e, Q (f e)) : FailsOnly Q (x.mapError f) :=
  mapError (fun _ _ => trivial) fun e _ => hf e

theorem imp {R : ε → Prop} (hx : FailsOnly P x) (h : ∀ e, P e → R e) : FailsOnly R x :=
  fun e he => h e (hx e he)

/-- An error that the first of two steps cannot have is one of the second. -/
theorem bind_eq_error_iff {f : α → Except ε β} (hx : FailsOnly P x) (he : ¬ P e) :
    x >>= f = .error e ↔ ∃ a, x = .ok a ∧ f a = .error e := by
  cases x with
  | error e' =>
      constructor
      · intro h
        cases h
        exact absurd (hx e rfl) he
      · rintro ⟨a, h, -⟩
        cases h
  | ok a =>
      constructor
      · intro h
        exact ⟨a, rfl, h⟩
      · rintro ⟨a', h, hf⟩
        cases h
        exact hf

end FailsOnly

end Presign
