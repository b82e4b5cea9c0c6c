import Mathlib.Tactic.Common

/-!
# Computations that may stop

`Avoids bad x` says that a computation ends with a result, or stops with a fault that is not bad. `Settles bad p x` is the exact
form: it ends with a result when `p` holds, and otherwise stops with a bad fault. The rules follow how a computation is put
together, and `Settles.avoids` reads the first off the second.
-/

namespace Faults

variable {ε α β : Type} {bad : ε → Prop} {p q : Prop}

/-- A computation does not stop with a bad fault. -/
def Avoids (bad : ε → Prop) (x : Except ε α) : Prop := ∀ e, x = .error e → ¬ bad e

theorem avoids_ok (a : α) : Avoids bad (.ok a : Except ε α) := fun _ h => by cases h

theorem avoids_of_eq_ok {x : Except ε α} {a : α} (h : x = .ok a) : Avoids bad x := h ▸ avoids_ok a

theorem avoids_bind {f : α → Except ε β} {x : Except ε α} (h : Avoids bad x) (hf : ∀ a, x = .ok a → Avoids bad (f a)) :
    Avoids bad (x >>= f) := by
  cases x with
  | ok a => exact hf a rfl
  | error e =>
    rintro _ he
    cases he
    exact h e rfl

/-- A computation ends with a result exactly under a condition, and otherwise stops with a bad fault. -/
structure Settles (bad : ε → Prop) (p : Prop) (x : Except ε α) : Prop where
  ends : p → ∃ a, x = .ok a
  stops : ¬ p → ∃ e, x = .error e ∧ bad e

theorem settles_ok (h : p) (a : α) : Settles bad p (.ok a : Except ε α) := ⟨fun _ => ⟨a, rfl⟩, fun hn => absurd h hn⟩

theorem settles_error (h : ¬ p) {e : ε} (he : bad e) : Settles bad p (.error e : Except ε α) :=
  ⟨fun hp => absurd hp h, fun _ => ⟨e, rfl, he⟩⟩

namespace Settles

variable {x : Except ε α}

theorem congr (h : Settles bad p x) (hpq : p ↔ q) : Settles bad q x :=
  ⟨fun hq => h.ends (hpq.mpr hq), fun hq => h.stops fun hp => hq (hpq.mp hp)⟩

theorem map (h : Settles bad p x) (f : α → β) : Settles bad p (x.map f) := by
  refine ⟨fun hp => ?_, fun hp => ?_⟩
  · obtain ⟨a, rfl⟩ := h.ends hp
    exact ⟨f a, rfl⟩
  · obtain ⟨e, rfl, he⟩ := h.stops hp
    exact ⟨e, rfl, he⟩

theorem bind (h : Settles bad p x) {f : α → Except ε β} (hf : ∀ a, x = .ok a → Settles bad q (f a)) :
    Settles bad (p ∧ q) (x >>= f) := by
  by_cases hp : p
  · obtain ⟨a, rfl⟩ := h.ends hp
    exact (hf a rfl).congr (by simp [hp])
  · obtain ⟨e, rfl, he⟩ := h.stops hp
    exact ⟨fun hpq => absurd hpq.1 hp, fun _ => ⟨e, rfl, he⟩⟩

/-- What a computation that settles avoids. -/
theorem avoids (h : Settles bad p x) : Avoids bad x ↔ p := by
  constructor
  · intro ha
    by_contra hp
    obtain ⟨e, hx, he⟩ := h.stops hp
    exact ha e hx he
  · intro hp
    obtain ⟨a, rfl⟩ := h.ends hp
    exact avoids_ok a

end Settles

end Faults
