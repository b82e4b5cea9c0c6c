import Mathlib.Algebra.Group.Int.Defs
import Mathlib.Data.List.OfFn
import Mathlib.Tactic.Common

/-!
# Counters that run over

A counter of a fixed width starts again at zero when it runs over. What it has counted between two readings is their difference modulo
that width, and a formula that allows for one running over computes it, when it has the right width.
-/

namespace Counters

/-! ## Bytes -/

/-- A number of some bytes, the least significant first. -/
def leVal {n : Nat} (b : Fin n → BitVec 8) : Int := (List.ofFn b).foldr (fun x v => x.toNat + 256 * v) 0

theorem leVal_succ {n : Nat} (b : Fin (n + 1) → BitVec 8) : leVal b = (b 0).toNat + 256 * leVal fun i => b i.succ := by
  unfold leVal
  rw [List.ofFn_succ, List.foldr_cons]

theorem leVal_mem {n : Nat} (b : Fin n → BitVec 8) : 0 ≤ leVal b ∧ leVal b < 2 ^ (8 * n) := by
  induction n with
  | zero => simp [leVal]
  | succ n ih =>
    have hrest := ih fun i => b i.succ
    have hbyte := (b 0).isLt
    have hpow : (2 : Int) ^ (8 * (n + 1)) = 256 * 2 ^ (8 * n) := by
      rw [Nat.mul_succ, Int.pow_add]
      omega
    rw [leVal_succ, hpow]
    omega

/-! ## Readings -/

/-- What a counter of some width reads. -/
structure Reading where
  width : Nat
  value : Int
  inRange : 0 ≤ value ∧ value < 2 ^ width

/-- The reading of a counter in a message. -/
def Reading.ofBytes {n : Nat} (b : Fin n → BitVec 8) : Reading := ⟨8 * n, leVal b, leVal_mem b⟩

/-- What has been counted from one reading to the next. -/
def Reading.counted (x y : Reading) : Int := (y.value - x.value) % 2 ^ y.width

/-! ## Running over -/

/-- How far a counter that runs over at `m` has gone, when it has run over at most once. -/
def elapsed (m prev cur : Int) : Int := if prev > cur then m - prev + cur else cur - prev

variable {m prev cur : Int}

theorem elapsed_eq_emod (hp : 0 ≤ prev ∧ prev < m) (hc : 0 ≤ cur ∧ cur < m) : elapsed m prev cur = (cur - prev) % m := by
  unfold elapsed
  split
  · rename_i h
    rw [← Int.add_emod_right, Int.emod_eq_of_lt (by omega) (by omega)]
    omega
  · rename_i h
    rw [Int.emod_eq_of_lt (by omega) (by omega)]

theorem elapsed_eq_zero_iff (hp : 0 ≤ prev ∧ prev < m) (hc : 0 ≤ cur ∧ cur < m) : elapsed m prev cur = 0 ↔ prev = cur := by
  unfold elapsed
  split <;> omega

/-- For a counter that runs over much earlier, the formula is right as long as it does not. -/
theorem elapsed_eq_emod_iff {k : Int} (hk : 2 * k ≤ m) (hp : 0 ≤ prev ∧ prev < k) (hc : 0 ≤ cur ∧ cur < k) :
    elapsed m prev cur = (cur - prev) % k ↔ prev ≤ cur := by
  have hlt := Int.emod_lt_of_pos (cur - prev) (b := k) (by omega)
  unfold elapsed
  split
  · rename_i h
    exact iff_of_false (by omega) (by omega)
  · rename_i h
    rw [Int.emod_eq_of_lt (by omega) (by omega)]
    exact iff_of_true rfl (by omega)

end Counters
