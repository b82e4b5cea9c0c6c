import Mathlib.Tactic.Common

/-!
# Fields of a word

A field is what a shift and a mask take of a word, so it goes by the bits of the word under the shifted mask. Two words that agree
outside of one mask agree under another mask when the masks share no bit; when they share one, some word differs from a given one
only under the first mask and differs from it under the second.
-/

namespace Fields

variable {w : Nat}

/-- A field of two words is the same when the words agree under its mask. -/
theorem field_eq_iff {m : BitVec w} {i : Nat} (hm : (m <<< i) >>> i = m) (x y : BitVec w) :
    x >>> i &&& m = y >>> i &&& m ↔ x &&& m <<< i = y &&& m <<< i := by
  have hfield : ∀ z : BitVec w, z >>> i &&& m = (z &&& m <<< i) >>> i := by
    intro z
    rw [BitVec.ushiftRight_and_distrib, hm]
  have hback : ∀ z : BitVec w, (z &&& m <<< i) >>> i <<< i = z &&& m <<< i := by
    intro z
    rw [BitVec.shiftLeft_ushiftRight, BitVec.and_assoc, ← BitVec.shiftLeft_and_distrib, BitVec.and_allOnes]
  rw [hfield, hfield]
  constructor
  · intro h
    rw [← hback x, h, hback]
  · intro h
    rw [h]

theorem field_eq_zero_iff {m : BitVec w} {i : Nat} (hm : (m <<< i) >>> i = m) (x : BitVec w) :
    x >>> i &&& m = 0 ↔ x &&& m <<< i = 0 := by
  have h := field_eq_iff hm x 0#w
  rwa [BitVec.zero_ushiftRight, BitVec.zero_and, BitVec.zero_and] at h

/-- Under a mask that shares no bit with another, nothing is lost by the bits of the other. -/
theorem not_and_of_disjoint {m n : BitVec w} (hd : m &&& n = 0) : ~~~m &&& n = n := by
  have hsplit : (m &&& n) ||| (~~~m &&& n) = n := by
    rw [← BitVec.and_or_distrib_right, BitVec.or_not_self, BitVec.allOnes_and]
  rw [hd, BitVec.ofNat_eq_ofNat, BitVec.zero_or] at hsplit
  exact hsplit

/-- Two words that agree outside of a mask agree under one that shares no bit with it. -/
theorem and_eq_of_disjoint {m n x y : BitVec w} (hd : m &&& n = 0) (h : x &&& ~~~m = y &&& ~~~m) : x &&& n = y &&& n := by
  rw [← not_and_of_disjoint hd, ← BitVec.and_assoc, h, BitVec.and_assoc]

/-- Two words that agree outside of a mask have the same under another without its bits. -/
theorem and_and_not_eq {m n x y : BitVec w} (h : x &&& ~~~m = y &&& ~~~m) : x &&& n &&& ~~~m = y &&& n &&& ~~~m := by
  rw [BitVec.and_assoc, BitVec.and_comm n, ← BitVec.and_assoc, h, BitVec.and_assoc, BitVec.and_comm (~~~m), ← BitVec.and_assoc]

/-- Where nothing is under a mask without the bits of another, what is under it is under both. -/
theorem and_eq_of_and_not {m n x : BitVec w} (h : x &&& n &&& ~~~m = 0) : x &&& n = x &&& (m &&& n) := by
  have hsplit : (x &&& n &&& m) ||| (x &&& n &&& ~~~m) = x &&& n := by
    rw [← BitVec.and_or_distrib_left, BitVec.or_not_self, BitVec.and_allOnes]
  rw [h, BitVec.ofNat_eq_ofNat, BitVec.or_zero, BitVec.and_assoc, BitVec.and_comm n] at hsplit
  exact hsplit.symm

/-- Some word agrees with a given one outside of a mask, and has bits in a part of the mask exactly when the given one has none. -/
theorem exists_flipped {m t : BitVec w} (ht : t &&& ~~~m = 0) (h0 : t ≠ 0) (x : BitVec w) :
    ∃ y, y &&& ~~~m = x &&& ~~~m ∧ (y &&& t = 0 ↔ x &&& t ≠ 0) := by
  by_cases hx : x &&& t = 0
  · refine ⟨x ||| t, ?_, iff_of_false ?_ (fun h => h hx)⟩
    · rw [BitVec.and_or_distrib_right, ht, BitVec.ofNat_eq_ofNat, BitVec.or_zero]
    · rw [BitVec.and_or_distrib_right, hx, BitVec.ofNat_eq_ofNat, BitVec.zero_or, BitVec.and_self]
      exact h0
  · refine ⟨x &&& ~~~t, ?_, iff_of_true ?_ hx⟩
    · rw [BitVec.and_assoc, not_and_of_disjoint ht]
    · rw [BitVec.and_assoc, BitVec.not_and_self]
      exact BitVec.and_zero

end Fields
