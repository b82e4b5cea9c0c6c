import Mathlib.Algebra.Order.Field.Basic
import Mathlib.Tactic.Linarith
import Mathlib.Tactic.Ring

/-!
# Conversions through a pivot unit

A value in one unit is converted to the pivot and from there to another unit. Where both ways invert each other exactly, conversions
compose. Where they are factors that were rounded on their own, the product of the two factors of a unit is near one, and by how much
it misses one bounds what a stop at that unit costs.
-/

namespace Pivots

variable {ι K : Type}

/-- The conversion from one unit to another through the pivot. -/
def through (up down : ι → K → K) (a b : ι) (x : K) : K := down b (up a x)

section Exact

variable {up down : ι → K → K}

/-- Where the way from the pivot is inverted by the way to it, a stop at another unit changes nothing. -/
theorem through_trans (h : ∀ b y, up b (down b y) = y) (a b c : ι) (x : K) :
    through up down b c (through up down a b x) = through up down a c x := by
  unfold through
  rw [h]

/-- Where the two ways invert each other, a value converted and converted back is the value. -/
theorem through_back (h : ∀ b y, up b (down b y) = y) (h' : ∀ a x, down a (up a x) = x) (a b : ι) (x : K) :
    through up down b a (through up down a b x) = x := by
  rw [through_trans h]
  exact h' a x

end Exact

/-- The conversion with a factor to the pivot and one from it. -/
def scaled [Field K] (up down : ι → K) (a b : ι) (x : K) : K := x * up a * down b

section Rounded

variable [Field K] [LinearOrder K] [IsStrictOrderedRing K] {up down : ι → K} {δ : K}

/-- A stop at a unit costs at most as much as its factors miss each other by. -/
theorem scaled_trans (h : ∀ b, |up b * down b - 1| ≤ δ) (a b c : ι) (x : K) :
    |scaled up down b c (scaled up down a b x) - scaled up down a c x| ≤ δ * |scaled up down a c x| := by
  have he : scaled up down b c (scaled up down a b x) - scaled up down a c x = (up b * down b - 1) * scaled up down a c x := by
    unfold scaled
    ring
  rw [he, abs_mul]
  exact mul_le_mul_of_nonneg_right (h b) (abs_nonneg _)

/-- A value converted and converted back misses itself by what both units cost. -/
theorem scaled_back (h : ∀ b, |up b * down b - 1| ≤ δ) (a b : ι) (x : K) :
    |scaled up down b a (scaled up down a b x) - x| ≤ (2 * δ + δ * δ) * |x| := by
  have hδ : 0 ≤ δ := (abs_nonneg _).trans (h a)
  have he : scaled up down b a (scaled up down a b x) - x =
      ((up a * down a - 1) + (up b * down b - 1) + (up a * down a - 1) * (up b * down b - 1)) * x := by
    unfold scaled
    ring
  have hprod : |(up a * down a - 1) * (up b * down b - 1)| ≤ δ * δ := by
    rw [abs_mul]
    exact mul_le_mul (h a) (h b) (abs_nonneg _) hδ
  have hsum : |(up a * down a - 1) + (up b * down b - 1) + (up a * down a - 1) * (up b * down b - 1)| ≤ 2 * δ + δ * δ :=
    calc |(up a * down a - 1) + (up b * down b - 1) + (up a * down a - 1) * (up b * down b - 1)|
        ≤ |(up a * down a - 1) + (up b * down b - 1)| + |(up a * down a - 1) * (up b * down b - 1)| := abs_add_le _ _
      _ ≤ |up a * down a - 1| + |up b * down b - 1| + |(up a * down a - 1) * (up b * down b - 1)| :=
          add_le_add (abs_add_le _ _) le_rfl
      _ ≤ 2 * δ + δ * δ := by linarith [h a, h b]
  rw [he, abs_mul]
  exact mul_le_mul_of_nonneg_right hsum (abs_nonneg _)

end Rounded

end Pivots
