import Gnhast.Lib.Double
import Mathlib.Data.Int.ConditionallyCompleteOrder

/-!
# Rounding keeps the order

The nearest integer of a greater number is not less, and neither is the nearest double: within one exponent the significands are in order,
and a power of two is between the doubles of two exponents. `OrderedDoubles` is a platform that rounds so.
-/

/-- Rounding stops at the integers. -/
theorem roundHalfEven_le {q : ℚ} {z : ℤ} (h : q ≤ z) : roundHalfEven q ≤ z := by
  have hr := (abs_le.mp (abs_roundHalfEven_sub_le q)).2
  by_contra hlt
  have h1 : (z : ℚ) + 1 ≤ roundHalfEven q := by exact_mod_cast (not_le.mp hlt : z + 1 ≤ roundHalfEven q)
  linarith

theorem le_roundHalfEven {q : ℚ} {z : ℤ} (h : (z : ℚ) ≤ q) : z ≤ roundHalfEven q := by
  have hr := (abs_le.mp (abs_roundHalfEven_sub_le q)).1
  by_contra hlt
  have h1 : (roundHalfEven q : ℚ) + 1 ≤ z := by exact_mod_cast (not_le.mp hlt : roundHalfEven q + 1 ≤ z)
  linarith

theorem roundHalfEven_mono : Monotone roundHalfEven := by
  intro q q' h
  have hfloor : ⌊q⌋ ≤ ⌊q'⌋ := Int.floor_mono h
  rcases hfloor.lt_or_eq with hlt | heq
  · -- an integer is between the two
    have hq : q ≤ ((⌊q⌋ + 1 : ℤ) : ℚ) := by
      push_cast
      exact (Int.lt_floor_add_one q).le
    calc roundHalfEven q ≤ ⌊q⌋ + 1 := roundHalfEven_le hq
      _ ≤ ⌊q'⌋ := hlt
      _ ≤ roundHalfEven q' := le_roundHalfEven (Int.floor_le q')
  · unfold roundHalfEven
    rw [heq]
    split_ifs <;> first | omega | linarith

/-- Below an even integer, a tie under it goes to it. -/
theorem roundHalfEven_lt_iff {q : ℚ} {z : ℤ} (hz : z % 2 = 0) : roundHalfEven q < z ↔ q < z - 1 / 2 := by
  constructor
  · intro h
    by_contra hq
    rcases lt_or_ge q z with hlt | hge
    · have hfloor : ⌊q⌋ = z - 1 := by
        rw [Int.floor_eq_iff]
        push_cast
        exact ⟨by linarith, by linarith⟩
      have heven : ¬ (z - 1) % 2 = 0 := by omega
      unfold roundHalfEven at h
      rw [hfloor, if_neg (by push_cast; linarith), if_neg heven, ite_self] at h
      omega
    · exact absurd (le_roundHalfEven hge) (not_le.mpr h)
  · intro h
    have hr := (abs_le.mp (abs_roundHalfEven_sub_le q)).2
    exact_mod_cast (by linarith : (roundHalfEven q : ℚ) < z)

/-- Above an even integer, a tie over it goes to it. -/
theorem lt_roundHalfEven_iff {q : ℚ} {z : ℤ} (hz : z % 2 = 0) : z < roundHalfEven q ↔ (z : ℚ) + 1 / 2 < q := by
  constructor
  · intro h
    by_contra hq
    rcases le_or_gt q z with hle | hgt
    · exact absurd (roundHalfEven_le hle) (not_le.mpr h)
    · have hfloor : ⌊q⌋ = z := by
        rw [Int.floor_eq_iff]
        exact ⟨hgt.le, by linarith⟩
      unfold roundHalfEven at h
      rw [hfloor, if_neg (by linarith : ¬ (1 : ℚ) / 2 < q - z), if_pos hz, ite_self] at h
      omega
  · intro h
    have hr := (abs_le.mp (abs_roundHalfEven_sub_le q)).1
    exact_mod_cast (by linarith : (z : ℚ) < roundHalfEven q)

/-- How long a printed double is: a point, six decimals, and a sign if it is negative. -/
theorem CStr.length_fmtF_lt_iff {k : Nat} (hk : 0 < k) (q : ℚ) :
    (fmtF q).length < k + 9 ↔ -(10 ^ (k + 6)) + 1 / 2 < q * 10 ^ 6 ∧ q * 10 ^ 6 < 10 ^ (k + 7) - 1 / 2 := by
  have heven : ∀ n : Nat, (10 ^ (n + 1) : ℤ) % 2 = 0 ∧ (-(10 ^ (n + 1)) : ℤ) % 2 = 0 := by
    intro n
    rw [pow_succ]
    omega
  have hlow := @lt_roundHalfEven_iff (q * 10 ^ 6) _ (heven (k + 5)).2
  have hhigh := @roundHalfEven_lt_iff (q * 10 ^ 6) _ (heven (k + 6)).1
  push_cast at hlow hhigh
  rw [← hlow, ← hhigh]
  have hpad : (padNat 6 ((roundHalfEven (q * 10 ^ 6)).natAbs % 10 ^ 6)).length = 6 := length_padNat (by decide) (Nat.mod_lt _ (by decide))
  have hdiv : ∀ {n j : Nat}, n / 10 ^ 6 < 10 ^ j ↔ n < 10 ^ (j + 6) := by
    intro n j
    rw [Nat.div_lt_iff_lt_mul (by decide), ← pow_add]
  have hdigits : ∀ {n j : Nat}, 0 < j → ((decNat (n / 10 ^ 6)).length ≤ j ↔ (n : ℤ) < 10 ^ (j + 6)) := by
    intro n j hj
    rw [length_decNat_le_iff hj, hdiv]
    norm_cast
  rw [fmtF, List.length_append, List.length_append, List.length_cons, hpad]
  generalize hr : roundHalfEven (q * 10 ^ 6) = r
  have hone := @hdigits r.natAbs k hk
  have hten := @hdigits r.natAbs (k + 1) (Nat.succ_pos k)
  have hpow : (10 ^ (k + 7) : ℤ) = 10 * 10 ^ (k + 6) := pow_succ' 10 (k + 6)
  have hpos : (0 : ℤ) < 10 ^ (k + 6) := by positivity
  rw [show k + 1 + 6 = k + 7 by omega, hpow] at hten
  rw [hpow]
  generalize (10 ^ (k + 6) : ℤ) = p at hone hten hpos ⊢
  by_cases hq : q < 0
  · have hneg : r ≤ 0 := hr ▸ roundHalfEven_nonpos (mul_neg_of_neg_of_pos hq (by norm_num : (0 : ℚ) < 10 ^ 6))
    rw [if_pos hq, List.length_singleton, Nat.add_comm 1, show ∀ n : Nat, n + 1 + (6 + 1) < k + 9 ↔ n ≤ k by omega, hone]
    omega
  · have hnonneg : 0 ≤ r := hr ▸ roundHalfEven_nonneg (mul_nonneg (not_lt.mp hq) (by norm_num : (0 : ℚ) ≤ 10 ^ 6))
    rw [if_neg hq, List.length_nil, Nat.zero_add, show ∀ n : Nat, n + (6 + 1) < k + 9 ↔ n ≤ k + 1 by omega, hten]
    omega

/-! ## Doubles -/

/-- The exponent of the last bit of the double nearest to a number. -/
def lastBit (q : ℚ) : ℤ := max (Int.log 2 |q|) (-1022) - 52

theorem binary64_eq {q : ℚ} (h : q ≠ 0) : binary64 q = roundHalfEven (q / 2 ^ lastBit q) * 2 ^ lastBit q := by
  unfold binary64 lastBit
  rw [if_neg h]

theorem lt_of_lastBit (q : ℚ) : |q| < 2 ^ (lastBit q + 53) := by
  have hlog := Int.lt_zpow_succ_log_self (b := 2) (by decide) |q|
  have hle : Int.log 2 |q| + 1 ≤ lastBit q + 53 := by
    unfold lastBit
    omega
  calc |q| < (2 : ℚ) ^ (Int.log 2 |q| + 1) := by exact_mod_cast hlog
    _ ≤ 2 ^ (lastBit q + 53) := zpow_le_zpow_right₀ (by norm_num) hle

theorem le_of_lastBit {q : ℚ} (h : q ≠ 0) (hb : -1074 < lastBit q) : 2 ^ (lastBit q + 52) ≤ |q| := by
  have hlog := Int.zpow_log_le_self (b := 2) (by decide) (abs_pos.mpr h)
  have heq : lastBit q + 52 = Int.log 2 |q| := by
    unfold lastBit at hb ⊢
    omega
  rw [heq]
  exact_mod_cast hlog

theorem lastBit_mono {q q' : ℚ} (h : q ≠ 0) (hle : |q| ≤ |q'|) : lastBit q ≤ lastBit q' := by
  have hlog := Int.log_mono_right (b := 2) (abs_pos.mpr h) hle
  unfold lastBit
  omega

theorem neg_1074_le_lastBit (q : ℚ) : -1074 ≤ lastBit q := by
  unfold lastBit
  omega

/-- The double nearest to a number is on the same side of a power of two. -/
theorem binary64_le {q : ℚ} (h : q ≠ 0) {z : ℤ} (hz : q ≤ z * 2 ^ lastBit q) : binary64 q ≤ z * 2 ^ lastBit q := by
  have hpos : (0 : ℚ) < 2 ^ lastBit q := zpow_pos (by norm_num) _
  rw [binary64_eq h]
  have hround : roundHalfEven (q / 2 ^ lastBit q) ≤ z := roundHalfEven_le ((div_le_iff₀ hpos).mpr hz)
  gcongr

theorem le_binary64 {q : ℚ} (h : q ≠ 0) {z : ℤ} (hz : z * 2 ^ lastBit q ≤ q) : z * 2 ^ lastBit q ≤ binary64 q := by
  have hpos : (0 : ℚ) < 2 ^ lastBit q := zpow_pos (by norm_num) _
  rw [binary64_eq h]
  have hround : z ≤ roundHalfEven (q / 2 ^ lastBit q) := le_roundHalfEven ((le_div_iff₀ hpos).mpr hz)
  gcongr

theorem binary64_nonneg {q : ℚ} (h : 0 ≤ q) : 0 ≤ binary64 q := by
  rcases h.eq_or_lt with rfl | hpos
  · simp [binary64]
  · have hz := le_binary64 (z := 0) hpos.ne' (by simpa using h)
    simpa using hz

theorem binary64_nonpos {q : ℚ} (h : q ≤ 0) : binary64 q ≤ 0 := by
  rcases h.eq_or_lt with rfl | hneg
  · simp [binary64]
  · have hz := binary64_le (z := 0) hneg.ne (by simpa using h)
    simpa using hz

/-- Two numbers with one exponent. -/
theorem binary64_le_of_lastBit_eq {q q' : ℚ} (h : q ≠ 0) (h' : q' ≠ 0) (he : lastBit q = lastBit q') (hle : q ≤ q') :
    binary64 q ≤ binary64 q' := by
  have hpos : (0 : ℚ) < 2 ^ lastBit q' := zpow_pos (by norm_num) _
  rw [binary64_eq h, binary64_eq h', he]
  have hround : roundHalfEven (q / 2 ^ lastBit q') ≤ roundHalfEven (q' / 2 ^ lastBit q') :=
    roundHalfEven_mono (div_le_div_of_nonneg_right hle hpos.le)
  gcongr

/-- The power of two above a number is above its double. -/
theorem abs_binary64_le {q : ℚ} (h : q ≠ 0) : |binary64 q| ≤ 2 ^ (lastBit q + 53) := by
  have hlt := abs_lt.mp (lt_of_lastBit q)
  have hpow : (2 : ℚ) ^ (lastBit q + 53) = ((2 ^ 53 : ℤ) : ℚ) * 2 ^ lastBit q := by
    rw [zpow_add₀ (by norm_num), mul_comm]
    norm_num
  rw [hpow] at hlt ⊢
  rw [abs_le]
  refine ⟨?_, binary64_le h hlt.2.le⟩
  have hneg := le_binary64 (z := -2 ^ 53) h (by push_cast at hlt ⊢; linarith)
  push_cast at hneg ⊢
  linarith

/-- The power of two below a number is below its double. -/
theorem le_abs_binary64 {q : ℚ} (h : q ≠ 0) (hb : -1074 < lastBit q) : 2 ^ (lastBit q + 52) ≤ |binary64 q| := by
  have hle := le_of_lastBit h hb
  have hpow : (2 : ℚ) ^ (lastBit q + 52) = ((2 ^ 52 : ℤ) : ℚ) * 2 ^ lastBit q := by
    rw [zpow_add₀ (by norm_num), mul_comm]
    norm_num
  rw [hpow] at hle ⊢
  rcases le_abs.mp hle with hpos | hneg
  · exact le_abs.mpr (Or.inl (le_binary64 h hpos))
  · refine le_abs.mpr (Or.inr ?_)
    have hz := binary64_le (z := -2 ^ 52) h (by push_cast at hneg ⊢; linarith)
    push_cast at hz ⊢
    linarith

/-- Between the doubles of two exponents is a power of two. -/
theorem abs_binary64_le_of_lastBit_lt {q q' : ℚ} (h : q ≠ 0) (h' : q' ≠ 0) (he : lastBit q < lastBit q') :
    |binary64 q| ≤ |binary64 q'| := by
  have hmin := neg_1074_le_lastBit q
  calc |binary64 q| ≤ 2 ^ (lastBit q + 53) := abs_binary64_le h
    _ ≤ 2 ^ (lastBit q' + 52) := zpow_le_zpow_right₀ (by norm_num) (by omega)
    _ ≤ |binary64 q'| := le_abs_binary64 h' (by omega)

theorem binary64_mono : Monotone binary64 := by
  intro q q' hle
  rcases lt_or_ge q 0 with hneg | hpos
  · rcases lt_or_ge q' 0 with hneg' | hpos'
    · -- the exponent falls towards zero
      have hexp : lastBit q' ≤ lastBit q := lastBit_mono hneg'.ne (by rw [abs_of_neg hneg, abs_of_neg hneg']; linarith)
      rcases hexp.lt_or_eq with hlt | heq
      · have habs := abs_binary64_le_of_lastBit_lt hneg'.ne hneg.ne hlt
        rw [abs_of_nonpos (binary64_nonpos hneg.le), abs_of_nonpos (binary64_nonpos hneg'.le)] at habs
        linarith
      · exact binary64_le_of_lastBit_eq hneg.ne hneg'.ne heq.symm hle
    · exact (binary64_nonpos hneg.le).trans (binary64_nonneg hpos')
  · rcases hpos.eq_or_lt with rfl | hpos
    · exact (binary64_nonpos (le_refl 0)).trans (binary64_nonneg hle)
    · have hpos' : 0 < q' := hpos.trans_le hle
      have hexp : lastBit q ≤ lastBit q' := lastBit_mono hpos.ne' (by rwa [abs_of_pos hpos, abs_of_pos hpos'])
      rcases hexp.lt_or_eq with hlt | heq
      · have habs := abs_binary64_le_of_lastBit_lt hpos.ne' hpos'.ne' hlt
        rwa [abs_of_nonneg (binary64_nonneg hpos.le), abs_of_nonneg (binary64_nonneg hpos'.le)] at habs
      · exact binary64_le_of_lastBit_eq hpos.ne' hpos'.ne' heq hle

/-! ## Platforms -/

/-- A platform whose rounding keeps the order. -/
structure OrderedDoubles extends Doubles where
  round_mono : Monotone round

/-- The idealised platform. -/
def OrderedDoubles.exact : OrderedDoubles := { Doubles.exact with round_mono := monotone_id }

/-- The platform whose doubles have 53 significant bits. -/
def OrderedDoubles.ieee : OrderedDoubles := { Doubles.ieee with round_mono := binary64_mono }

/-- What is between two integers that are doubles stays between them. -/
theorem OrderedDoubles.round_between (F : OrderedDoubles) {q : ℚ} {a b : ℤ} (ha : |a| ≤ 2 ^ 53) (hb : |b| ≤ 2 ^ 53) (hq : a ≤ q)
    (hq' : q ≤ b) : a ≤ F.round q ∧ F.round q ≤ b := by
  constructor
  · rw [← F.round_small ha]
    exact F.round_mono hq
  · rw [← F.round_small hb]
    exact F.round_mono hq'
