import Gnhast.Common
import Gnhast.Theorems.Restart

/-!
# What `mk_rrdname` returns

The loop never gets behind the NUL, and what it has written when it stops is a first part of the characters that are kept: the output
cursor is never ahead of the input cursor, so it does not meet the length of the string before the input is used up. It does so only
where the length does not fit an `int`.
-/

namespace Gnhast

open CStr

/-- The length of a string in memory. -/
theorem strlen_terminated {orig : Str} (h : chNul ∉ orig) : strlen (orig ++ [chNul]) = .ok orig.length := by
  induction orig with
  | nil => rfl
  | cons c s ih =>
    have hc : c ≠ chNul := fun he => h (by simp [he])
    have hs : chNul ∉ s := fun hm => h (by simp [hm])
    rw [List.cons_append, strlen, if_neg hc, ih hs]
    rfl

/-- What the loop returns, from any state it can be in: it adds the characters that are kept until `l` of them, or 19, are there. -/
theorem mkRrdnameLoop_terminated {l : Int} {p : Str} (h : chNul ∉ p) {newbuf : Str} (hi : newbuf.length ≤ 19) :
    mkRrdnameLoop l (p ++ [chNul]) newbuf =
      .ok (newbuf ++ (p.filter rrdChar).take (min 19 l.toNat - newbuf.length) ++ [chNul]) := by
  have hput : ∀ b : Str, b.length ≤ 19 → newbufPut b chNul = .ok (b ++ [chNul]) := fun b hb => if_pos (by omega)
  induction p generalizing newbuf with
  | nil =>
    rw [List.nil_append, mkRrdnameLoop, if_neg (fun hc => hc.1 rfl), hput newbuf hi]
    simp
  | cons c p ih =>
    have hc : c ≠ chNul := fun he => h (by simp [he])
    have hp : chNul ∉ p := fun hm => h (by simp [hm])
    rw [List.cons_append, mkRrdnameLoop]
    by_cases hroom : (newbuf.length : Int) < l ∧ newbuf.length < 19
    · rw [if_pos ⟨hc, hroom⟩]
      by_cases hk : rrdChar c = true
      · have hsub : min 19 l.toNat - newbuf.length = (min 19 l.toNat - (newbuf ++ [c]).length) + 1 := by
          rw [List.length_append, List.length_singleton]
          omega
        have hnext : newbufPut newbuf c = .ok (newbuf ++ [c]) := if_pos (by omega)
        rw [if_pos hk, hnext, List.filter_cons_of_pos hk, hsub, List.take_succ_cons]
        change mkRrdnameLoop l (p ++ [chNul]) (newbuf ++ [c]) = _
        rw [ih hp (by rw [List.length_append, List.length_singleton]; omega)]
        simp
      · rw [if_neg hk, ih hp hi, List.filter_cons_of_neg hk]
    · have hfull : min 19 l.toNat - newbuf.length = 0 := by omega
      rw [if_neg (fun hc => hroom hc.2), hput newbuf hi, hfull, List.take_zero, List.append_nil]

/-- What `mk_rrdname` returns on any string: it ends, and reads nothing behind the NUL. -/
theorem mkRrdnameMem_terminated {orig : Str} (h : chNul ∉ orig) :
    mkRrdnameMem (orig ++ [chNul]) =
      .ok ((orig.filter rrdChar).take (min 19 (BitVec.ofNat 32 orig.length).toInt.toNat) ++ [chNul]) := by
  unfold mkRrdnameMem
  rw [strlen_terminated h]
  exact mkRrdnameLoop_terminated h (Nat.zero_le _)

/-- The length of a string that has fewer than `2^31` characters fits an `int`. -/
theorem toInt_length {n : Nat} (h : n < 2 ^ 31) : (BitVec.ofNat 32 n).toInt = n := by
  rw [BitVec.toInt_eq_toNat_cond, BitVec.toNat_ofNat, Nat.mod_eq_of_lt (by omega), if_pos (by omega)]

/-- On a string of fewer than `2^31` characters the loop computes `mkRrdname`. -/
theorem mkRrdnameMem_eq {orig : Str} (h : chNul ∉ orig) (hl : orig.length < 2 ^ 31) :
    mkRrdnameMem (orig ++ [chNul]) = .ok (mkRrdname orig ++ [chNul]) := by
  have hf : (orig.filter rrdChar).length ≤ orig.length := List.length_filter_le _ _
  rw [mkRrdnameMem_terminated h, toInt_length hl, Int.toNat_natCast]
  congr 2
  rcases Nat.le_total 19 orig.length with h19 | h19
  · rw [min_eq_left h19]
    rfl
  · rw [min_eq_right h19, List.take_of_length_le hf]
    exact (List.take_of_length_le (hf.trans h19)).symm

/-- The characters of an rrdname are no NULs. -/
theorem notMem_mkRrdname (orig : Str) : chNul ∉ mkRrdname orig := by
  intro hm
  have h := (List.mem_filter.mp (List.mem_of_mem_take hm)).2
  exact absurd h (by decide)

/-- Nothing of an rrdname is dropped. -/
theorem mkRrdname_mkRrdname (orig : Str) : mkRrdname (mkRrdname orig) = mkRrdname orig := by
  have hkept : ∀ c ∈ mkRrdname orig, rrdChar c = true := fun c hc => (List.mem_filter.mp (List.mem_of_mem_take hc)).2
  have hlen : (mkRrdname orig).length ≤ 19 := List.length_take_le _ _
  change ((mkRrdname orig).filter rrdChar).take 19 = mkRrdname orig
  rw [List.filter_eq_self.mpr hkept, List.take_of_length_le hlen]

/-- `mk_rrdname` makes of a string its first 19 letters, digits and underscores, and that is a valid rrdname, of which it makes the
same. -/
def Normalises (orig : Str) : Prop :=
  mkRrdnameMem (orig ++ [chNul]) = .ok (mkRrdname orig ++ [chNul]) ∧ confValidateRrdname (mkRrdname orig) = true ∧
    mkRrdnameMem (mkRrdname orig ++ [chNul]) = .ok (mkRrdname orig ++ [chNul])

/-- `mk_rrdname` normalises a string exactly when there is nothing to keep, or the length of the string, as an `int`, is not less than
the number of characters to be kept. -/
theorem normalises_iff (orig : Str) (h : chNul ∉ orig) :
    Normalises orig ↔ mkRrdname orig = [] ∨ ((mkRrdname orig).length : Int) ≤ (BitVec.ofNat 32 orig.length).toInt := by
  have hlen : (mkRrdname orig).length ≤ 19 := List.length_take_le _ _
  have hself : mkRrdnameMem (mkRrdname orig ++ [chNul]) = .ok (mkRrdname orig ++ [chNul]) := by
    rw [mkRrdnameMem_eq (notMem_mkRrdname orig) (by omega), mkRrdname_mkRrdname]
  have htake : ∀ n, (orig.filter rrdChar).take (min 19 n) = (mkRrdname orig).take n := by
    intro n
    rw [min_comm, ← List.take_take]
    rfl
  unfold Normalises
  rw [mkRrdnameMem_terminated h, htake, and_iff_left ⟨valid_mkRrdname orig, hself⟩, Except.ok.injEq, List.append_left_inj,
    List.take_eq_self_iff, ← List.length_eq_zero_iff]
  omega

theorem normalises_spaced : Normalises (str "Front door (2)") :=
  (normalises_iff (str "Front door (2)") (by decide)).mpr (.inr (by decide))

/-- Of `2^31` letters nothing is kept: their number, as an `int`, is negative. -/
theorem not_normalises : ¬ ∀ orig : Str, chNul ∉ orig → Normalises orig := by
  intro hall
  have hnul : chNul ∉ List.replicate (2 ^ 31) (97 : Byte) := by
    intro hm
    exact absurd (List.eq_of_mem_replicate hm) (by decide)
  have h := (hall _ hnul).1
  rw [mkRrdnameMem_terminated hnul, List.length_replicate] at h
  have hneg : (BitVec.ofNat 32 (2 ^ 31)).toInt.toNat = 0 := by decide
  rw [hneg, Nat.min_zero, List.take_zero, List.nil_append, Except.ok.injEq] at h
  have hkept : mkRrdname (List.replicate (2 ^ 31) (97 : Byte)) ≠ [] := by
    have hp : rrdChar 97 = true := by decide
    have hf : (List.replicate (2 ^ 31) (97 : Byte)).filter rrdChar = List.replicate (2 ^ 31) 97 :=
      List.filter_replicate_of_pos hp
    intro he
    have hl := congrArg List.length he
    change (((List.replicate (2 ^ 31) (97 : Byte)).filter rrdChar).take 19).length = 0 at hl
    rw [hf, List.length_take, List.length_replicate] at hl
    omega
  exact hkept (List.append_left_eq_self.mp h.symm)

end Gnhast
