import Mathlib.Tactic.Common

/-!
# Machines that stop with a result

A machine takes a state to the next one or to its result, or faults. `Halts` says that it stops with a result after finitely many
steps, none of which faults; `run` looks for the result within a number of steps. That a machine halts is shown with a measure that
every step lowers, under a relation between states and the result they are to give.
-/

namespace Machines

variable {σ ρ ε : Type} (step : σ → Except ε (σ ⊕ ρ))

/-- The machine stops with a result, and no step faults. -/
inductive Halts : σ → ρ → Prop
  | done {s : σ} {r : ρ} (h : step s = .ok (.inr r)) : Halts s r
  | step {s s' : σ} {r : ρ} (h : step s = .ok (.inl s')) (rest : Halts s' r) : Halts s r

/-- The result within a number of steps. -/
def run : Nat → σ → Option (Except ε ρ)
  | 0, _ => none
  | n + 1, s =>
    match step s with
    | .error e => some (.error e)
    | .ok (.inr r) => some (.ok r)
    | .ok (.inl s') => run n s'

variable {step}

theorem run_done {s : σ} {r : ρ} (h : step s = .ok (.inr r)) (n : Nat) : run step (n + 1) s = some (.ok r) := by
  rw [run, h]

theorem run_step {s s' : σ} (h : step s = .ok (.inl s')) (n : Nat) : run step (n + 1) s = run step n s' := by
  rw [run, h]

theorem halts_iff_run {s : σ} {r : ρ} : Halts step s r ↔ ∃ n, run step n s = some (.ok r) := by
  constructor
  · intro h
    induction h with
    | done h => exact ⟨1, run_done h 0⟩
    | step h _ ih =>
      obtain ⟨n, hn⟩ := ih
      exact ⟨n + 1, (run_step h n).trans hn⟩
  · rintro ⟨n, hn⟩
    induction n generalizing s with
    | zero => cases hn
    | succ n ih =>
      unfold run at hn
      split at hn
      · cases hn
      · rename_i h
        cases hn
        exact .done h
      · rename_i h
        exact .step h (ih hn)

/-- A machine has one result. -/
theorem Halts.unique {s : σ} {r r' : ρ} (h : Halts step s r) (h' : Halts step s r') : r' = r := by
  induction h with
  | done h =>
    cases h' with
    | done h1 =>
      rw [h] at h1
      cases h1
      rfl
    | step h1 _ =>
      rw [h] at h1
      cases h1
  | step h _ ih =>
    cases h' with
    | done h1 =>
      rw [h] at h1
      cases h1
    | step h1 rest =>
      rw [h] at h1
      cases h1
      exact ih rest

/-- A machine halts with the result that its states stand for, when every step gives it or lowers a measure. -/
theorem Halts.of_measure {Stands : σ → ρ → Prop} (μ : σ → Nat)
    (hstep : ∀ s r, Stands s r → step s = .ok (.inr r) ∨ ∃ s', step s = .ok (.inl s') ∧ Stands s' r ∧ μ s' < μ s) {s : σ} {r : ρ}
    (h : Stands s r) : Halts step s r := by
  induction hn : μ s using Nat.strongRecOn generalizing s with
  | ind n ih =>
    subst hn
    rcases hstep s r h with hd | ⟨s', hs, h', hlt⟩
    · exact .done hd
    · exact .step hs (ih _ hlt h' rfl)

theorem Halts.next {s s' : σ} {r : ρ} (h : Halts step s r) (hs : step s = .ok (.inl s')) : Halts step s' r := by
  cases h with
  | done h =>
    rw [hs] at h
    cases h
  | step h rest =>
    rw [hs] at h
    cases h
    exact rest

theorem Halts.ne_error {s : σ} {r : ρ} (h : Halts step s r) (e : ε) : step s ≠ .error e := by
  intro he
  cases h with
  | done h =>
    rw [he] at h
    cases h
  | step h _ =>
    rw [he] at h
    cases h

/-- A machine halts from the states of an invariant, when every step from them stops or keeps it and lowers a measure. -/
theorem exists_halts_of_invariant {I : σ → Prop} (μ : σ → Nat)
    (hstep : ∀ s, I s → (∃ r, step s = .ok (.inr r)) ∨ ∃ s', step s = .ok (.inl s') ∧ I s' ∧ μ s' < μ s) {s : σ} (h : I s) :
    ∃ r, Halts step s r := by
  induction hn : μ s using Nat.strongRecOn generalizing s with
  | ind n ih =>
    subst hn
    rcases hstep s h with ⟨r, hd⟩ | ⟨s', hs, h', hlt⟩
    · exact ⟨r, .done hd⟩
    · obtain ⟨r, hr⟩ := ih _ hlt h' rfl
      exact ⟨r, .step hs hr⟩

end Machines
