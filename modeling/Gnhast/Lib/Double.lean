import Gnhast.Lib.CStr
import Mathlib.Data.Int.Log
import Mathlib.Data.Rat.Floor
import Mathlib.Tactic.Linarith
import Mathlib.Tactic.NormNum
import Mathlib.Tactic.Positivity

/-!
# Doubles as rationals, printed with six decimals and read back

A double is the rational number it denotes. What a program relies on of the platform is gathered in `Doubles`: which rational a
decimal numeral is read as, how a double lies in memory, and that the integers of magnitude at most `2 ^ 53` are doubles.
`%f` prints the exact value rounded to six decimals (`fmtF`), so reading back what was printed gives the nearest double to the
value rounded to six decimals (`Doubles.strtod_fmtF`). `Doubles.exact` has every rational as a double; `Doubles.ieee` rounds to
53 significant bits.
-/

open CStr

/-- The nearest integer, a tie going to the even one (the rounding mode a program starts in). -/
def roundHalfEven (q : ℚ) : ℤ :=
  if q - ⌊q⌋ < 1 / 2 then ⌊q⌋
  else if 1 / 2 < q - ⌊q⌋ then ⌊q⌋ + 1
  else if ⌊q⌋ % 2 = 0 then ⌊q⌋ else ⌊q⌋ + 1

@[simp] theorem roundHalfEven_intCast (z : ℤ) : roundHalfEven (z : ℚ) = z := by
  simp [roundHalfEven]

/-- The nearest integer is at most a half away. -/
theorem abs_roundHalfEven_sub_le (q : ℚ) : |(roundHalfEven q : ℚ) - q| ≤ 1 / 2 := by
  have h1 := Int.floor_le q
  have h2 := Int.lt_floor_add_one q
  unfold roundHalfEven
  rw [abs_le]
  split_ifs <;> push_cast <;> constructor <;> linarith

theorem roundHalfEven_nonpos {q : ℚ} (h : q < 0) : roundHalfEven q ≤ 0 := by
  have hr := (abs_le.mp (abs_roundHalfEven_sub_le q)).2
  have hlt : (roundHalfEven q : ℚ) < 1 := by linarith
  have hlt' : roundHalfEven q < 1 := by exact_mod_cast hlt
  omega

theorem roundHalfEven_nonneg {q : ℚ} (h : 0 ≤ q) : 0 ≤ roundHalfEven q := by
  have hr := (abs_le.mp (abs_roundHalfEven_sub_le q)).1
  have hlt : (-1 : ℚ) < roundHalfEven q := by linarith
  have hlt' : -1 < roundHalfEven q := by exact_mod_cast hlt
  omega

/-- A value rounded to six decimals. -/
def round6 (q : ℚ) : ℚ := roundHalfEven (q * 10 ^ 6) / 10 ^ 6

theorem round6_zero : round6 0 = 0 := by
  have h := roundHalfEven_intCast 0
  rw [Int.cast_zero] at h
  rw [round6, zero_mul, h, Int.cast_zero, zero_div]

/-- A number that is small enough has only zeros in its first six decimals. -/
theorem round6_of_small {q : ℚ} (h0 : 0 ≤ q) (h1 : q ≤ 1 / 2 ^ 1000) : round6 q = 0 := by
  have hlt : q * 10 ^ 6 < 1 / 2 := by
    have h2 : (1 : ℚ) / 2 ^ 1000 ≤ 1 / 2 ^ 30 := by
      apply one_div_le_one_div_of_le
      · positivity
      · exact pow_le_pow_right₀ (by norm_num) (by norm_num)
    calc q * 10 ^ 6 ≤ 1 / 2 ^ 30 * 10 ^ 6 := by gcongr; exact h1.trans h2
      _ < 1 / 2 := by norm_num
  have hf : ⌊q * 10 ^ 6⌋ = 0 := by
    rw [Int.floor_eq_zero_iff]
    exact ⟨by positivity, by linarith⟩
  have hr : roundHalfEven (q * 10 ^ 6) = 0 := by
    rw [roundHalfEven, hf]
    simp only [Int.cast_zero, sub_zero]
    rw [if_pos hlt]
  rw [round6, hr]
  simp

/-- `lrint` and `llrint`: the nearest integer as a 64-bit value; out of range gives the least one. -/
def lrint (q : ℚ) : ℤ := if -2 ^ 63 ≤ roundHalfEven q ∧ roundHalfEven q < 2 ^ 63 then roundHalfEven q else -2 ^ 63

theorem lrint_range (q : ℚ) : -2 ^ 63 ≤ lrint q ∧ lrint q < 2 ^ 63 := by
  unfold lrint
  split <;> omega

theorem lrint_intCast {z : ℤ} (h1 : -2 ^ 63 ≤ z) (h2 : z < 2 ^ 63) : lrint (z : ℚ) = z := by
  rw [lrint, roundHalfEven_intCast, if_pos ⟨h1, h2⟩]

namespace CStr

/-- A number in decimal, filled with zeros on the left to a width. -/
def padNat (w n : Nat) : Str := List.replicate (w - (decNat n).length) 48 ++ decNat n

/-- `%f`: the value rounded to six decimals. -/
def fmtF (q : ℚ) : Str :=
  (if q < 0 then [chMinus] else []) ++ decNat ((roundHalfEven (q * 10 ^ 6)).natAbs / 10 ^ 6) ++
    chDot :: padNat 6 ((roundHalfEven (q * 10 ^ 6)).natAbs % 10 ^ 6)

/-- The value of a decimal numeral: its sign, the digits before the point and those after it. -/
def decimalValue (neg : Bool) (ip fp : Str) : ℚ := (if neg then -1 else 1) * digitsVal (ip ++ fp) / 10 ^ fp.length

theorem digitsVal_replicate_zero (k : Nat) : digitsVal (List.replicate k 48) = 0 := by
  induction k with
  | zero => rfl
  | succ k ih => simpa [digitsVal, List.replicate_succ] using ih

theorem digitsVal_padNat (w n : Nat) : digitsVal (padNat w n) = n := by
  rw [padNat, digitsVal_append, digitsVal_replicate_zero, digitsVal_decNat, Nat.zero_mul, Nat.zero_add]

theorem padNat_inj {w m n : Nat} (h : padNat w m = padNat w n) : m = n := by
  rw [← digitsVal_padNat w m, h, digitsVal_padNat]

theorem length_decNat_le_iff {n k : Nat} (hk : 0 < k) : (decNat n).length ≤ k ↔ n < 10 ^ k := by
  rw [decNat, List.length_map]
  exact Nat.length_toDigits_le_iff (by decide) hk

theorem length_decNat_le {n k : Nat} (hk : 0 < k) (h : n < 10 ^ k) : (decNat n).length ≤ k := (length_decNat_le_iff hk).mpr h

theorem length_decInt_le {z : ℤ} {k : Nat} (hk : 0 < k) (h : z.natAbs < 10 ^ k) : (decInt z).length ≤ k + 1 := by
  cases z with
  | ofNat n => exact Nat.le_succ_of_le (length_decNat_le hk h)
  | negSucc n => exact Nat.succ_le_succ (length_decNat_le hk h)

theorem length_padNat {w n : Nat} (hw : 0 < w) (h : n < 10 ^ w) : (padNat w n).length = w := by
  have := length_decNat_le hw h
  rw [padNat, List.length_append, List.length_replicate]
  omega

theorem isdigit_of_mem_padNat {w n : Nat} {c : Byte} (h : c ∈ padNat w n) : isdigit c = true := by
  rcases List.mem_append.mp h with h | h
  · rw [List.eq_of_mem_replicate h]
    rfl
  · exact isdigit_of_mem_decNat h

/-- The bytes of a printed double: digits, a point and perhaps a minus sign. -/
theorem of_mem_fmtF {q : ℚ} {c : Byte} (h : c ∈ fmtF q) : c = chMinus ∨ c = chDot ∨ isdigit c = true := by
  simp only [fmtF, List.mem_append, List.mem_cons] at h
  rcases h with (h | h) | h | h
  · split at h
    · exact Or.inl (List.mem_singleton.mp h)
    · cases h
  · exact Or.inr (Or.inr (isdigit_of_mem_decNat h))
  · exact Or.inr (Or.inl h)
  · exact Or.inr (Or.inr (isdigit_of_mem_padNat h))

theorem fmtF_ne_nil (q : ℚ) : fmtF q ≠ [] := by
  simp [fmtF]

/-- The numeral `%f` prints has the value rounded to six decimals. -/
theorem decimalValue_fmtF (q : ℚ) :
    decimalValue (decide (q < 0)) (decNat ((roundHalfEven (q * 10 ^ 6)).natAbs / 10 ^ 6))
      (padNat 6 ((roundHalfEven (q * 10 ^ 6)).natAbs % 10 ^ 6)) = round6 q := by
  have hlen : (padNat 6 ((roundHalfEven (q * 10 ^ 6)).natAbs % 10 ^ 6)).length = 6 :=
    length_padNat (by decide) (Nat.mod_lt _ (by decide))
  have hval : ∀ m : Nat, m / 10 ^ 6 * 10 ^ 6 + m % 10 ^ 6 = m := fun m => Nat.div_add_mod' m _
  rw [decimalValue, digitsVal_append, hlen, digitsVal_decNat, digitsVal_padNat, hval, round6]
  congr 1
  by_cases hq : q < 0
  · have hz := roundHalfEven_nonpos (mul_neg_of_neg_of_pos hq (by norm_num : (0 : ℚ) < 10 ^ 6))
    rw [Nat.cast_natAbs, abs_of_nonpos hz]
    simp [hq]
  · have hz := roundHalfEven_nonneg (mul_nonneg (not_lt.mp hq) (by norm_num : (0 : ℚ) ≤ 10 ^ 6))
    rw [Nat.cast_natAbs, abs_of_nonneg hz]
    simp [hq]

end CStr

/-- What a program relies on of the platform's doubles: `strtod` reads a decimal numeral as the double `round` gives for its
value, small integers are doubles, a double lies in memory as 64 bits, the all-zero pattern is zero, and a pattern below 256 is
one of the smallest subnormal numbers. -/
structure Doubles where
  /-- The double a string opens with. -/
  strtod : Str → ℚ
  /-- The double nearest to a number. -/
  round : ℚ → ℚ
  /-- A double as it lies in memory. -/
  toBits : ℚ → BitVec 64
  /-- The double a bit pattern denotes. -/
  ofBits : BitVec 64 → ℚ
  strtod_decimal : ∀ (neg : Bool) (ip fp : Str), ip ≠ [] → (∀ c ∈ ip, isdigit c = true) → (∀ c ∈ fp, isdigit c = true) →
    strtod ((if neg then [chMinus] else []) ++ ip ++ chDot :: fp) = round (decimalValue neg ip fp)
  strtod_int : ∀ (neg : Bool) (ip : Str), ip ≠ [] → (∀ c ∈ ip, isdigit c = true) →
    strtod ((if neg then [chMinus] else []) ++ ip) = round (decimalValue neg ip [])
  round_int : ∀ (z : ℤ) (k : ℕ), |z| ≤ 2 ^ 53 → k ≤ 64 → round (z * 2 ^ k : ℤ) = (z * 2 ^ k : ℤ)
  round_integral : ∀ z : ℤ, ∃ y : ℤ, round z = y
  toBits_zero : toBits 0 = 0
  ofBits_small : ∀ w : BitVec 64, w.toNat < 256 → 0 ≤ ofBits w ∧ ofBits w ≤ 1 / 2 ^ 1000
  ofBits_zero : ofBits 0 = 0

namespace Doubles

theorem round_zero (F : Doubles) : F.round 0 = 0 := by
  have h := F.round_int 0 0 (by norm_num) (by decide)
  simpa using h

/-- Reading what `%f` printed gives the double nearest to the value rounded to six decimals. -/
theorem strtod_fmtF (F : Doubles) (q : ℚ) : F.strtod (fmtF q) = F.round (round6 q) := by
  have h := F.strtod_decimal (decide (q < 0)) (decNat ((roundHalfEven (q * 10 ^ 6)).natAbs / 10 ^ 6))
    (padNat 6 ((roundHalfEven (q * 10 ^ 6)).natAbs % 10 ^ 6)) (decNat_ne_nil _) (fun _ => isdigit_of_mem_decNat)
    (fun _ => isdigit_of_mem_padNat)
  rw [decimalValue_fmtF] at h
  rw [← h, fmtF]
  simp

/-- Reading a printed integer as a double gives the double nearest to it. -/
theorem strtod_decInt (F : Doubles) (z : ℤ) : F.strtod (decInt z) = F.round z := by
  cases z with
  | ofNat n =>
    have h := F.strtod_int false (decNat n) (decNat_ne_nil n) (fun _ => isdigit_of_mem_decNat)
    simpa [decInt, decimalValue, digitsVal_decNat] using h
  | negSucc n =>
    have h := F.strtod_int true (decNat (n + 1)) (decNat_ne_nil _) (fun _ => isdigit_of_mem_decNat)
    simpa [decInt, decimalValue, digitsVal_decNat, Int.cast_negSucc] using h

theorem round_small (F : Doubles) {z : ℤ} (h : |z| ≤ 2 ^ 53) : F.round z = z := by
  have h0 := F.round_int z 0 h (by decide)
  simpa using h0

/-- A small integer printed and read as a double comes back. -/
theorem strtod_decInt_of_small (F : Doubles) {z : ℤ} (h : |z| ≤ 2 ^ 53) : F.strtod (decInt z) = z := by
  rw [strtod_decInt, F.round_small h]

/-- Printing a 64-bit integer, reading it as a double and rounding that to an integer gives the integer back exactly when it is
a double. -/
theorem lrint_strtod_decInt (F : Doubles) {z : ℤ} (h1 : -2 ^ 63 ≤ z) (h2 : z < 2 ^ 63) :
    lrint (F.strtod (decInt z)) = z ↔ F.round z = z := by
  obtain ⟨y, hy⟩ := F.round_integral z
  rw [strtod_decInt, hy]
  constructor
  · intro h
    by_cases hr : -2 ^ 63 ≤ y ∧ y < 2 ^ 63
    · rw [lrint_intCast hr.1 hr.2] at h
      rw [h]
    · rw [lrint, roundHalfEven_intCast, if_neg hr] at h
      have hmin := F.round_int (-1) 63 (by norm_num) (by decide)
      have hz : z = -1 * 2 ^ 63 := by omega
      rw [← hz, hy] at hmin
      exact hmin
  · intro h
    have hyz : y = z := by exact_mod_cast h
    rw [hyz, lrint_intCast h1 h2]

end Doubles

/-! ## Two platforms -/

/-- The plain decimal numeral a string opens with, as an exact number. -/
def readDecimal (s : Str) : ℚ :=
  let p := scanSign (s.dropWhile isspace)
  let ip := p.2.takeWhile isdigit
  match p.2.dropWhile isdigit with
  | [] => decimalValue p.1 ip []
  | c :: r => if c = chDot then decimalValue p.1 ip (r.takeWhile isdigit) else decimalValue p.1 ip []

/-- A number rounded to 53 significant bits, a tie going to the even significand. -/
def binary64 (q : ℚ) : ℚ :=
  if q = 0 then 0 else
    let e := max (Int.log 2 |q|) (-1022) - 52
    roundHalfEven (q / 2 ^ e) * 2 ^ e

/-- The 64 bits of a double: sign, biased exponent and significand, the last without its leading one. -/
def binary64Bits (q : ℚ) : BitVec 64 :=
  if q = 0 then 0 else
    let e := max (Int.log 2 |q|) (-1022)
    let m := (roundHalfEven (|q| / 2 ^ (e - 52))).toNat
    BitVec.ofNat 64 ((if q < 0 then 2 ^ 63 else 0) + (e + 1022).toNat * 2 ^ 52 + m)

/-- The number a pattern of 64 bits denotes (the patterns of the infinities and of NaN are taken as zero). -/
def ofBinary64Bits (w : BitVec 64) : ℚ :=
  let e : Nat := w.toNat / 2 ^ 52 % 2048
  let m : Nat := w.toNat % 2 ^ 52
  let s : ℚ := if w.msb then -1 else 1
  if e = 2047 then 0 else if e = 0 then s * m / 2 ^ 1074 else s * (2 ^ 52 + m) * 2 ^ ((e : ℤ) - 1075)

theorem takeWhile_digits {ip r : Str} (h : ∀ c ∈ ip, isdigit c = true) (hr : ∀ c ∈ r.head?, isdigit c = false) :
    (ip ++ r).takeWhile isdigit = ip ∧ (ip ++ r).dropWhile isdigit = r := by
  induction ip with
  | nil =>
    cases r with
    | nil => simp
    | cons c r => simp [hr c (by simp)]
  | cons d ip ih =>
    have hd : isdigit d = true := h d (by simp)
    obtain ⟨h1, h2⟩ := ih (fun c hc => h c (by simp [hc]))
    simp [hd, h1, h2]

/-- Before a digit, only the minus sign is skipped. -/
theorem scanSign_digits (neg : Bool) {ip r : Str} (hne : ip ≠ []) (h : ∀ c ∈ ip, isdigit c = true) :
    scanSign (((if neg then [chMinus] else []) ++ (ip ++ r)).dropWhile isspace) = (neg, ip ++ r) := by
  obtain ⟨d, t, rfl⟩ := List.exists_cons_of_ne_nil hne
  have hd := ne_of_isdigit (h d (by simp))
  cases neg with
  | true => rfl
  | false =>
    have h45 : d ≠ 45 := hd.2.2.2.2.2.2.1
    have h43 : d ≠ 43 := hd.2.2.2.2.2.2.2.2.2.2.1
    have hs : isspace d = false := hd.2.2.2.2.2.2.2.2.2.2.2
    simp [hs, scanSign, h45, h43]

theorem readDecimal_point (neg : Bool) {ip fp : Str} (hne : ip ≠ []) (h : ∀ c ∈ ip, isdigit c = true)
    (hf : ∀ c ∈ fp, isdigit c = true) :
    readDecimal ((if neg then [chMinus] else []) ++ ip ++ chDot :: fp) = decimalValue neg ip fp := by
  obtain ⟨h1, h2⟩ := takeWhile_digits (r := chDot :: fp) h (by rintro c hc; cases hc; rfl)
  have h3 : fp.takeWhile isdigit = fp := List.takeWhile_eq_self_iff.mpr hf
  simp only [readDecimal, List.append_assoc, scanSign_digits neg hne h, h1, h2, if_true, h3]

theorem readDecimal_int (neg : Bool) {ip : Str} (hne : ip ≠ []) (h : ∀ c ∈ ip, isdigit c = true) :
    readDecimal ((if neg then [chMinus] else []) ++ ip) = decimalValue neg ip [] := by
  obtain ⟨h1, h2⟩ := takeWhile_digits (r := []) h (by simp)
  have h3 := scanSign_digits (r := []) neg hne h
  simp only [List.append_nil] at h1 h2 h3
  simp only [readDecimal, h3, h1, h2]

theorem binary64_of_scaled {z : ℤ} (hz : z ≠ 0) {k : ℤ}
    (hk : (z : ℚ) / 2 ^ (max (Int.log 2 |(z : ℚ)|) (-1022) - 52) = k) : binary64 (z : ℚ) = z := by
  have hq : (z : ℚ) ≠ 0 := by exact_mod_cast hz
  have h2 : (2 : ℚ) ^ (max (Int.log 2 |(z : ℚ)|) (-1022) - 52) ≠ 0 := zpow_ne_zero _ (by norm_num)
  simp only [binary64, hq, if_false]
  rw [hk, roundHalfEven_intCast, ← hk, div_mul_cancel₀ _ h2]

/-- The exponent of an integer. -/
theorem log_abs_intCast (z : ℤ) : max (Int.log 2 |(z : ℚ)|) (-1022) = (Nat.log 2 z.natAbs : ℤ) := by
  have habs : |(z : ℚ)| = (z.natAbs : ℚ) := by
    rw [Nat.cast_natAbs, Int.cast_abs]
  rw [habs, Int.log_natCast]
  omega

theorem log_mul_two_pow {n : ℕ} (h : n ≠ 0) (k : ℕ) : Nat.log 2 (n * 2 ^ k) = Nat.log 2 n + k := by
  induction k with
  | zero => simp
  | succ k ih => rw [pow_succ, ← Nat.mul_assoc, Nat.log_mul_base (by decide) (by positivity), ih, Nat.add_assoc]

/-- Integers with at most 53 significant bits are doubles. -/
theorem binary64_intCast {z : ℤ} (k : ℕ) (h : |z| ≤ 2 ^ 53) : binary64 ((z * 2 ^ k : ℤ) : ℚ) = (z * 2 ^ k : ℤ) := by
  by_cases hz : z = 0
  · simp [hz, binary64]
  have hn : z.natAbs ≤ 2 ^ 53 := by
    have : (z.natAbs : ℤ) ≤ 2 ^ 53 := by rwa [Int.natCast_natAbs]
    exact_mod_cast this
  have hz0 : z.natAbs ≠ 0 := Int.natAbs_ne_zero.mpr hz
  have hlog : Nat.log 2 (z * 2 ^ k).natAbs = Nat.log 2 z.natAbs + k := by
    rw [Int.natAbs_mul, Int.natAbs_pow]
    exact log_mul_two_pow hz0 k
  have hle : Nat.log 2 z.natAbs ≤ 53 := by
    calc Nat.log 2 z.natAbs ≤ Nat.log 2 (2 ^ 53) := Nat.log_mono_right hn
      _ = 53 := Nat.log_pow (by decide) 53
  have hexp : max (Int.log 2 |((z * 2 ^ k : ℤ) : ℚ)|) (-1022) - 52 = ((Nat.log 2 z.natAbs : ℤ) - 52) + k := by
    rw [log_abs_intCast, hlog]
    omega
  have hscale : ((z * 2 ^ k : ℤ) : ℚ) / 2 ^ (((Nat.log 2 z.natAbs : ℤ) - 52) + k) = z / 2 ^ ((Nat.log 2 z.natAbs : ℤ) - 52) := by
    rw [zpow_add₀ (by norm_num), zpow_natCast]
    push_cast
    field_simp
  have hne : z * 2 ^ k ≠ 0 := mul_ne_zero hz (by positivity)
  rcases Nat.lt_or_ge (Nat.log 2 z.natAbs) 53 with hlt | hge
  · have he : ((Nat.log 2 z.natAbs : ℤ) - 52) = -((52 - Nat.log 2 z.natAbs : ℕ) : ℤ) := by omega
    refine binary64_of_scaled (k := z * 2 ^ (52 - Nat.log 2 z.natAbs)) hne ?_
    rw [hexp, hscale, he, zpow_neg, zpow_natCast, div_inv_eq_mul]
    push_cast
    rfl
  · have h53 : Nat.log 2 z.natAbs = 53 := by omega
    have hge2 : 2 ^ 53 ≤ z.natAbs := by
      have := Nat.pow_log_le_self 2 hz0
      rwa [h53] at this
    have hz53 : z = 2 ^ 53 ∨ z = -2 ^ 53 := by omega
    rcases hz53 with hz53 | hz53
    · refine binary64_of_scaled (k := 2 ^ 52) hne ?_
      rw [hexp, hscale, h53, hz53]
      norm_num
    · refine binary64_of_scaled (k := -2 ^ 52) hne ?_
      rw [hexp, hscale, h53, hz53]
      norm_num

/-- Rounding an integer gives an integer. -/
theorem binary64_integral (z : ℤ) : ∃ y : ℤ, binary64 (z : ℚ) = y := by
  by_cases hz : z = 0
  · exact ⟨0, by simp [hz, binary64]⟩
  rcases Nat.lt_or_ge (Nat.log 2 z.natAbs) 52 with hlt | hge
  · refine ⟨z, binary64_of_scaled (k := z * 2 ^ (52 - Nat.log 2 z.natAbs)) hz ?_⟩
    have he : ((Nat.log 2 z.natAbs : ℤ) - 52) = -((52 - Nat.log 2 z.natAbs : ℕ) : ℤ) := by omega
    rw [log_abs_intCast, he, zpow_neg, zpow_natCast, div_inv_eq_mul]
    push_cast
    rfl
  · have hq : (z : ℚ) ≠ 0 := by exact_mod_cast hz
    have he : ((Nat.log 2 z.natAbs : ℤ) - 52) = ((Nat.log 2 z.natAbs - 52 : ℕ) : ℤ) := by omega
    refine ⟨roundHalfEven ((z : ℚ) / 2 ^ (Nat.log 2 z.natAbs - 52)) * 2 ^ (Nat.log 2 z.natAbs - 52), ?_⟩
    simp only [binary64, hq, if_false, log_abs_intCast, he, zpow_natCast]
    push_cast
    rfl

theorem ofBinary64Bits_small {w : BitVec 64} (h : w.toNat < 256) :
    0 ≤ ofBinary64Bits w ∧ ofBinary64Bits w ≤ 1 / 2 ^ 1000 := by
  have he : w.toNat / 2 ^ 52 % 2048 = 0 := by omega
  have hm : w.toNat % 2 ^ 52 = w.toNat := by omega
  have hs : w.msb = false := by
    rw [BitVec.msb_eq_decide, decide_eq_false_iff_not]
    omega
  have hw : (w.toNat : ℚ) ≤ 2 ^ 8 := by exact_mod_cast h.le
  have hval : ofBinary64Bits w = w.toNat / 2 ^ 1074 := by
    simp only [ofBinary64Bits, he, hm, hs]
    norm_num
  rw [hval]
  constructor
  · positivity
  · calc (w.toNat : ℚ) / 2 ^ 1074 ≤ 2 ^ 8 / 2 ^ 1074 := by gcongr
      _ ≤ 2 ^ 74 / 2 ^ 1074 := by gcongr <;> norm_num
      _ = 1 / 2 ^ 1000 := by rw [show (1074 : ℕ) = 74 + 1000 from rfl, pow_add, div_mul_eq_div_div, div_self (by positivity)]

/-- The idealised platform: every rational is a double. -/
def Doubles.exact : Doubles where
  strtod := readDecimal
  round := id
  toBits := binary64Bits
  ofBits := ofBinary64Bits
  strtod_decimal neg _ _ hne h hf := readDecimal_point neg hne h hf
  strtod_int neg _ hne h := readDecimal_int neg hne h
  round_int _ _ _ _ := rfl
  round_integral z := ⟨z, rfl⟩
  toBits_zero := rfl
  ofBits_small _ h := ofBinary64Bits_small h
  ofBits_zero := by simp [ofBinary64Bits]

/-- The platform whose doubles have 53 significant bits. -/
def Doubles.ieee : Doubles where
  strtod s := binary64 (readDecimal s)
  round := binary64
  toBits := binary64Bits
  ofBits := ofBinary64Bits
  strtod_decimal neg _ _ hne h hf := congrArg binary64 (readDecimal_point neg hne h hf)
  strtod_int neg _ hne h := congrArg binary64 (readDecimal_int neg hne h)
  round_int _ k h _ := binary64_intCast k h
  round_integral := binary64_integral
  toBits_zero := rfl
  ofBits_small _ h := ofBinary64Bits_small h
  ofBits_zero := by simp [ofBinary64Bits]
