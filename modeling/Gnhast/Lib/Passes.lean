import Mathlib.Tactic.Common

/-!
# Passing from one side to another

A list passes from `P` to `Q` when an entry with `P` is followed directly by one with `Q`. A list that starts in `P` and ends in
`Q` passes unless it rests between them.
-/

variable {α β : Type}

/-- Somewhere in the list, an entry with `P` is followed directly by one with `Q`. -/
def Passes (P Q : α → Prop) : List α → Prop
  | x :: y :: xs => (P x ∧ Q y) ∨ Passes P Q (y :: xs)
  | _ => False

variable {P Q : α → Prop}

instance decidablePasses [DecidablePred P] [DecidablePred Q] : ∀ xs, Decidable (Passes P Q xs)
  | [] => .isFalse id
  | [_] => .isFalse id
  | x :: y :: xs =>
    have : Decidable (Passes P Q (y :: xs)) := decidablePasses (y :: xs)
    inferInstanceAs (Decidable ((P x ∧ Q y) ∨ Passes P Q (y :: xs)))

theorem passes_cons_cons {x y : α} {xs : List α} : Passes P Q (x :: y :: xs) ↔ (P x ∧ Q y) ∨ Passes P Q (y :: xs) := Iff.rfl

/-- An entry in front of one without `Q` does not count. -/
theorem passes_cons_of_not {x y : α} {xs : List α} (h : ¬ Q y) : Passes P Q (x :: y :: xs) ↔ Passes P Q (y :: xs) := by
  rw [passes_cons_cons]
  exact or_iff_right fun hpq => h hpq.2

theorem passes_map {f : β → α} {xs : List β} : Passes P Q (xs.map f) ↔ Passes (fun b => P (f b)) (fun b => Q (f b)) xs := by
  induction xs with
  | nil => exact Iff.rfl
  | cons x xs ih =>
    cases xs with
    | nil => exact Iff.rfl
    | cons y xs => exact or_congr Iff.rfl ih

/-- A list that starts in `P`, ends in `Q` and is always in one of them passes, when no entry is in both. -/
theorem passes_of_ends {x : α} {xs : List α} (hx : P x) (hlast : Q ((x :: xs).getLast (List.cons_ne_nil x xs)))
    (hall : ∀ y ∈ xs, P y ∨ Q y) (hexcl : ∀ y, P y → ¬ Q y) : Passes P Q (x :: xs) := by
  induction xs generalizing x with
  | nil => exact absurd hlast (hexcl x hx)
  | cons y xs ih =>
    rcases hall y List.mem_cons_self with hy | hy
    · rw [List.getLast_cons_cons] at hlast
      exact Or.inr (ih hy hlast fun z hz => hall z (List.mem_cons_of_mem _ hz))
    · exact Or.inl ⟨hx, hy⟩
