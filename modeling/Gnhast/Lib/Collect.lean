import Mathlib.Data.List.Basic

/-!
# Loops that collect

A loop goes through a list, and each entry gives something, or nothing, or stops the loop with an error.
-/

namespace Collect

variable {α β ε : Type}

/-- What the entries of a list give. -/
def collect (f : α → Except ε (Option β)) : List α → Except ε (List β)
  | [] => .ok []
  | x :: xs => do
    let y ← f x
    let ys ← collect f xs
    .ok (y.toList ++ ys)

variable {f : α → Except ε (Option β)} {xs : List α}

theorem collect_cons_eq_ok {x : α} {ys : List β} : collect f (x :: xs) = .ok ys ↔
    ∃ y ys', f x = .ok y ∧ collect f xs = .ok ys' ∧ ys = y.toList ++ ys' := by
  rw [show collect f (x :: xs) = f x >>= fun y => collect f xs >>= fun ys => .ok (y.toList ++ ys) from rfl]
  cases f x with
  | error e => simp [bind, Except.bind]
  | ok y =>
    cases collect f xs with
    | error e => simp [bind, Except.bind]
    | ok ys' =>
      simp only [bind, Except.bind, Except.ok.injEq, exists_eq_left', exists_and_left]
      exact eq_comm

/-- What a loop has collected is what its entries give. -/
theorem mem_collect {ys : List β} (h : collect f xs = .ok ys) {y : β} : y ∈ ys ↔ ∃ x ∈ xs, f x = .ok (some y) := by
  induction xs generalizing ys with
  | nil =>
    cases h
    simp
  | cons x xs ih =>
    obtain ⟨o, ys', hx, hxs, rfl⟩ := collect_cons_eq_ok.mp h
    rw [List.mem_append, ih hxs, List.exists_mem_cons_iff, hx]
    cases o <;> simp [eq_comm]

/-- A loop ends when no entry stops it. -/
theorem exists_collect_iff : (∃ ys, collect f xs = .ok ys) ↔ ∀ x ∈ xs, ∃ y, f x = .ok y := by
  induction xs with
  | nil => exact iff_of_true ⟨[], rfl⟩ (by simp)
  | cons x xs ih =>
    rw [List.forall_mem_cons, ← ih]
    constructor
    · rintro ⟨ys, h⟩
      obtain ⟨y, ys', hx, hxs, -⟩ := collect_cons_eq_ok.mp h
      exact ⟨⟨y, hx⟩, ys', hxs⟩
    · rintro ⟨⟨y, hx⟩, ys', hxs⟩
      exact ⟨_, collect_cons_eq_ok.mpr ⟨y, ys', hx, hxs, rfl⟩⟩

end Collect
