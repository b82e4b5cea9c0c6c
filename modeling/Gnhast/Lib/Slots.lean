import Mathlib.Data.List.TakeWhile

/-!
# Slots

A table is a list of slots, of which some are in use. The slots in use at its beginning are counted by a search for the first slot
that is free; where no slot is, such a search finds nothing, and the count is as it was before.
-/

namespace Slots

variable {α : Type} (used : α → Bool)

/-- How many slots at the beginning are in use. -/
def leading (l : List α) : Nat := (l.takeWhile used).length

/-- The place of the first free slot, or an old value where there is none. -/
def firstFree (old : Nat) (l : List α) : Nat := (l.findIdx? fun a => !used a).getD old

variable {used}

theorem leading_le (l : List α) : leading used l ≤ l.length := (List.takeWhile_sublist used).length_le

/-- All slots are counted when all are in use. -/
theorem leading_eq_length_iff {l : List α} : leading used l = l.length ↔ ∀ a ∈ l, used a = true := by
  unfold leading
  constructor
  · intro h
    have he : l.takeWhile used = l := (List.takeWhile_sublist used).eq_of_length h
    exact List.takeWhile_eq_self_iff.mp he
  · intro h
    rw [List.takeWhile_eq_self_iff.mpr h]

/-- The search counts the slots in use where there is a free slot. -/
theorem firstFree_of_free {l : List α} (h : ∃ a ∈ l, used a = false) (old : Nat) : firstFree used old l = leading used l := by
  unfold firstFree leading
  induction l with
  | nil =>
    obtain ⟨a, ha, -⟩ := h
    cases ha
  | cons b l ih =>
    cases hb : used b with
    | false => simp [List.findIdx?_cons, hb]
    | true =>
      obtain ⟨a, ha, hf⟩ := h
      have hl : a ∈ l := by
        rcases List.mem_cons.mp ha with rfl | ha
        · rw [hb] at hf
          cases hf
        · exact ha
      have ih := ih ⟨a, hl, hf⟩
      have hsome : (l.findIdx? fun a => !used a).isSome := by
        rw [List.findIdx?_isSome, List.any_eq_true]
        exact ⟨a, hl, by rw [hf]; rfl⟩
      obtain ⟨i, hi⟩ := Option.isSome_iff_exists.mp hsome
      rw [hi, Option.getD_some] at ih
      simp [List.findIdx?_cons, hb, hi, ih]

/-- Where there is none, the old value stays. -/
theorem firstFree_of_full {l : List α} (h : ∀ a ∈ l, used a = true) (old : Nat) : firstFree used old l = old := by
  have hnone : (l.findIdx? fun a => !used a) = none := by
    rw [List.findIdx?_eq_none_iff]
    intro a ha
    rw [h a ha]
    rfl
  rw [firstFree, hnone, Option.getD_none]

/-- A count that is short of the whole table is right after the search exactly when there is a free slot. -/
theorem firstFree_eq_leading_iff {l : List α} {old : Nat} (h : old < l.length) :
    firstFree used old l = leading used l ↔ ∃ a ∈ l, used a = false := by
  by_cases hf : ∃ a ∈ l, used a = false
  · exact iff_of_true (firstFree_of_free hf old) hf
  · refine iff_of_false (fun he => ?_) hf
    have hall : ∀ a ∈ l, used a = true := by
      intro a ha
      by_contra hn
      exact hf ⟨a, ha, by simpa using hn⟩
    rw [firstFree_of_full hall, leading_eq_length_iff.mpr hall] at he
    omega

/-- A search in a table that is not empty leaves a count short of the whole table. -/
theorem firstFree_lt {l : List α} {old : Nat} (h : old < l.length) : firstFree used old l < l.length := by
  by_cases hf : ∃ a ∈ l, used a = false
  · rw [firstFree_of_free hf]
    refine Nat.lt_of_le_of_ne (leading_le l) fun he => ?_
    obtain ⟨a, ha, hn⟩ := hf
    have := leading_eq_length_iff.mp he a ha
    rw [hn] at this
    cases this
  · have hall : ∀ a ∈ l, used a = true := by
      intro a ha
      by_contra hn
      exact hf ⟨a, ha, by simpa using hn⟩
    rwa [firstFree_of_full hall]

end Slots
