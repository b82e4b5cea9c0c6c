import Mathlib.Logic.Function.Basic
import Mathlib.Tactic.Common

/-!
# Evaluating some of an ordered list of equations

Each number below a bound has an equation for its value. `sweep` evaluates the equations of the chosen numbers in order and leaves
the other values as they are. When every equation reads values in front of its own only, a sweep gives the one solution of the
chosen equations that has the other values (`sweep_eq`, `sweep_unique`); a sweep that evaluates other equations than those to be
solved solves them exactly when the two agree at the solution (`solves_iff`).
-/

namespace Sweep

variable {α : Type}

/-- An equation reads only the values below a number. -/
def ReadsBelow (i : Nat) (f : (Nat → α) → α) : Prop := ∀ v v' : Nat → α, (∀ j < i, v j = v' j) → f v = f v'

/-- Every chosen equation reads only values in front of its own. -/
def Ordered (chosen : Nat → Bool) (eqn : Nat → (Nat → α) → α) : Prop := ∀ i, chosen i = true → ReadsBelow i (eqn i)

/-- The values after the chosen equations below `n` are evaluated in order. -/
def sweep (chosen : Nat → Bool) (eqn : Nat → (Nat → α) → α) : Nat → (Nat → α) → Nat → α
  | 0, v => v
  | n + 1, v =>
    if chosen n then Function.update (sweep chosen eqn n v) n (eqn n (sweep chosen eqn n v)) else sweep chosen eqn n v

variable {chosen : Nat → Bool} {eqn eqn' : Nat → (Nat → α) → α}

/-- A sweep leaves the values that are not chosen. -/
theorem sweep_of_not_chosen {i : Nat} (h : chosen i = false) (n : Nat) (v : Nat → α) : sweep chosen eqn n v i = v i := by
  induction n with
  | zero => rfl
  | succ n ih =>
    rw [sweep]
    split
    · rename_i hn
      have hne : i ≠ n := by
        rintro rfl
        rw [h] at hn
        cases hn
      rw [Function.update_of_ne hne, ih]
    · exact ih

/-- A sweep below a number leaves the values from there on. -/
theorem sweep_of_le {n i : Nat} (h : n ≤ i) (v : Nat → α) : sweep chosen eqn n v i = v i := by
  induction n with
  | zero => rfl
  | succ n ih =>
    rw [sweep]
    split
    · rw [Function.update_of_ne (by omega), ih (by omega)]
    · exact ih (by omega)

/-- A value is settled when its own equation has been evaluated. -/
theorem sweep_settled {i n : Nat} (h : i < n) (v : Nat → α) : sweep chosen eqn n v i = sweep chosen eqn (i + 1) v i := by
  induction n with
  | zero => omega
  | succ n ih =>
    rcases Nat.lt_succ_iff_lt_or_eq.mp h with h | rfl
    · rw [sweep]
      split
      · rw [Function.update_of_ne (by omega), ih h]
      · exact ih h
    · rfl

/-- A sweep solves the chosen equations. -/
theorem sweep_eq (ho : Ordered chosen eqn) {i n : Nat} (h : i < n) (hc : chosen i = true) (v : Nat → α) :
    sweep chosen eqn n v i = eqn i (sweep chosen eqn n v) := by
  have hbelow : ∀ j < i, sweep chosen eqn i v j = sweep chosen eqn n v j := by
    intro j hj
    rw [sweep_settled hj, sweep_settled (by omega : j < n)]
  rw [sweep_settled h, sweep, if_pos hc, Function.update_self]
  exact ho i hc _ _ hbelow

/-- The values that are not swept over. -/
theorem sweep_of_not {i n : Nat} (h : ¬ (i < n ∧ chosen i = true)) (v : Nat → α) : sweep chosen eqn n v i = v i := by
  by_cases hn : i < n
  · exact sweep_of_not_chosen (Bool.eq_false_iff.mpr fun hc => h ⟨hn, hc⟩) n v
  · exact sweep_of_le (Nat.le_of_not_lt hn) v

/-- What solves the chosen equations and has the other values is what the sweep gives. -/
theorem sweep_unique (ho : Ordered chosen eqn) {n : Nat} {u v : Nat → α} (hu : ∀ i < n, chosen i = true → u i = eqn i u)
    (hv : ∀ i, ¬ (i < n ∧ chosen i = true) → u i = v i) : u = sweep chosen eqn n v := by
  funext i
  induction i using Nat.strongRecOn with
  | ind i ih =>
    by_cases hi : i < n ∧ chosen i = true
    · rw [hu i hi.1 hi.2, sweep_eq ho hi.1 hi.2]
      exact ho i hi.2 _ _ ih
    · rw [hv i hi, sweep_of_not hi]

/-- A sweep over some equations solves others exactly when both agree at the solution of the others. -/
theorem solves_iff (ho : Ordered chosen eqn) (ho' : Ordered chosen eqn') (n : Nat) (v : Nat → α) :
    (∀ i < n, chosen i = true → sweep chosen eqn' n v i = eqn i (sweep chosen eqn' n v)) ↔
      ∀ i < n, chosen i = true → eqn' i (sweep chosen eqn n v) = eqn i (sweep chosen eqn n v) := by
  constructor
  · intro h i hi hc
    rw [← sweep_unique ho h fun j hj => sweep_of_not hj v, ← h i hi hc]
    exact (sweep_eq ho' hi hc v).symm
  · intro h i hi hc
    have hsame : sweep chosen eqn n v = sweep chosen eqn' n v :=
      sweep_unique ho' (fun j hj hcj => (sweep_eq ho hj hcj v).trans (h j hj hcj).symm) fun j hj => sweep_of_not hj v
    rw [← hsame]
    exact sweep_eq ho hi hc v

/-- Where a sweep solves the other equations, it gives their solution. -/
theorem sweep_eq_of_solves (ho : Ordered chosen eqn) {n : Nat} {v : Nat → α}
    (h : ∀ i < n, chosen i = true → sweep chosen eqn' n v i = eqn i (sweep chosen eqn' n v)) :
    sweep chosen eqn' n v = sweep chosen eqn n v :=
  sweep_unique ho h fun _ hj => sweep_of_not hj v

end Sweep
