import Gnhast.Wmr918coll

/-!
# The units of a weather station

A WX200 says in a frame in which units it measures, and the configuration says in which scales values are stored. Rain and wind are
converted once. A pressure is converted by `wx2_calc_baro` and then again by its handler, so that it is right in millibars only; and
nothing is ever converted to Rankine.
-/

namespace Gnhast.Wmr918coll

open CStr

/-! ## Temperatures -/

theorem scale_cases (s : Fin 4) : s = 0 ∨ s = 1 ∨ s = 2 ∨ s = 3 := by
  revert s
  decide

/-- A temperature that is not far below zero is converted, but for Rankine. -/
theorem celsius_once_iff (conf : WmrConf) {x : ℚ} (hx : -600 < x) : Once gnScaleTemp x 1 conf.tscale (celsius conf x) ↔ conf.tscale ≠ 3 := by
  unfold Once celsius
  rcases scale_cases conf.tscale with h | h | h | h
  all_goals rw [h]
  · exact iff_of_true (Or.inl rfl) (by decide)
  · exact iff_of_true (Or.inr ⟨rfl, rfl⟩) (by decide)
  · have hk : ctok x = gnScaleTemp x 1 2 := by
      simp only [gnScaleTemp, ctok, ftoc, ctof]
      ring
    exact iff_of_true (Or.inl hk) (by decide)
  · refine iff_of_false ?_ (by decide)
    rintro (h | ⟨h, -⟩)
    · have hr : x = x * (18 / 10) + 32 + 45967 / 100 := h
      linarith
    · cases h

/-- A station cannot send a temperature as cold as that. -/
theorem neg_600_lt_tempReading (d1 d2 : BitVec 8) : -600 < tempReading d1 d2 := by
  have h1 : (((d1 &&& 0xF).toNat % 16 : Nat) : ℚ) ≤ 16 := by exact_mod_cast (Nat.mod_lt _ (by decide)).le
  have h2 : ((d1.toNat / 16 : Nat) : ℚ) ≤ 16 := by
    have hlt := d1.isLt
    exact_mod_cast (by omega : d1.toNat / 16 ≤ 16)
  have h3 : ((d2 &&& 0x7).toNat : ℚ) ≤ 7 := by
    have hle : (d2 &&& 0x7).toNat ≤ 7 := by
      rw [BitVec.toNat_and]
      exact Nat.and_le_right
    exact_mod_cast hle
  unfold tempReading
  dsimp only
  split
  · linarith
  · have h0 : (0 : ℚ) ≤ ((d1 &&& 0xF).toNat % 16 : Nat) / 10 + (d1.toNat / 16 : Nat) + (d2 &&& 0x7).toNat * 10 := by positivity
    linarith

theorem temp_once_iff (conf : WmrConf) (d1 d2 format : BitVec 8) :
    Once gnScaleTemp (tempReading d1 d2) (tempUnit format) conf.tscale (wx2CalcTemp conf d1 d2 format) ↔ conf.tscale ≠ 3 := by
  unfold wx2CalcTemp tempUnit
  dsimp only
  by_cases hf : format &&& 0x4 ≠ 0
  · rw [if_pos hf, if_pos hf]
    unfold Once
    rcases scale_cases conf.tscale with h | h | h | h
    all_goals rw [h]
    · exact iff_of_true (Or.inr ⟨rfl, rfl⟩) (by decide)
    · exact iff_of_true (Or.inl rfl) (by decide)
    · exact iff_of_true (Or.inl rfl) (by decide)
    · refine iff_of_false ?_ (by decide)
      rintro (h | ⟨h, -⟩)
      · have hr : tempReading d1 d2 = tempReading d1 d2 + 45967 / 100 := h
        linarith
      · cases h
  · rw [if_neg hf, if_neg hf]
    exact celsius_once_iff conf (neg_600_lt_tempReading d1 d2)

/-! ## Lengths and speeds -/

theorem length_once (conf : WmrConf) (format : BitVec 8) (x : ℚ) :
    Once gnScaleLength x (lengthUnit format) conf.lengthscale (lengthScaled conf format x) := by
  have hcases : ∀ s : Fin 2, s = 0 ∨ s = 1 := by decide
  unfold lengthScaled lengthUnit
  by_cases hf : format &&& 0x2 ≠ 0
  · rw [if_pos hf]
    rcases hcases conf.lengthscale with h | h
    all_goals rw [h]
    · rw [if_neg (by simp), if_neg (by simpa using hf)]
      exact Or.inr ⟨rfl, rfl⟩
    · rw [if_pos ⟨hf, rfl⟩]
      exact Or.inl rfl
  · rw [if_neg hf, if_neg (fun h => hf h.1)]
    rcases hcases conf.lengthscale with h | h
    all_goals rw [h]
    · rw [if_pos ⟨by simpa using hf, rfl⟩]
      exact Or.inl rfl
    · rw [if_neg (by simp)]
      exact Or.inr ⟨rfl, rfl⟩

theorem speedUnit_cases (format : BitVec 8) :
    ((format &&& 0xC0).toNat = 0x40 ∧ speedUnit format = 1) ∨ ((format &&& 0xC0).toNat = 0x80 ∧ speedUnit format = 2) ∨
      ((format &&& 0xC0).toNat = 0xc0 ∧ speedUnit format = 3) ∨ ((format &&& 0xC0).toNat = 0 ∧ speedUnit format = 0) := by
  revert format
  decide +kernel

/-- Speeds are converted as the library does. -/
theorem speed_once (conf : WmrConf) (format : BitVec 8) (x : ℚ) :
    Once gnScaleSpeed x (speedUnit format) conf.speedscale (speedScaled conf format x) := by
  refine Or.inl ?_
  unfold speedScaled
  rcases speedUnit_cases format with ⟨hf, hu⟩ | ⟨hf, hu⟩ | ⟨hf, hu⟩ | ⟨hf, hu⟩
  all_goals
    rw [hf, hu]
    rcases scale_cases conf.speedscale with h | h | h | h
    all_goals
      rw [h]
      rfl

/-! ## Pressures -/

/-- `wx2_calc_baro` goes by millibars. -/
theorem wx2CalcBaro_eq (conf : WmrConf) (d1 d2 d3 format : BitVec 8) (sealevel : Bool) :
    ∃ k : ℚ, k ≠ 0 ∧ ∀ s, wx2CalcBaro { conf with baroscale := s } d1 d2 d3 format sealevel =
      baroScaled { conf with baroscale := s } (baroReading d1 d2 d3 sealevel * k) := by
  unfold wx2CalcBaro
  dsimp only
  split
  · exact ⟨338639 / 10000, by norm_num, fun _ => rfl⟩
  · exact ⟨1333224 / 1000000, by norm_num, fun _ => rfl⟩
  · exact ⟨1, one_ne_zero, fun _ => by rw [mul_one]⟩

/-- A factor that is applied twice. -/
theorem mul_mul_eq_mul_iff {x c : ℚ} (hc : c ≠ 0) (hc1 : c ≠ 1) : x * c * c = x * c ↔ x = 0 := by
  constructor
  · intro h
    have hprod : x * (c * (c - 1)) = 0 := by linarith
    exact (mul_eq_zero.mp hprod).resolve_right (mul_ne_zero hc (sub_ne_zero.mpr hc1))
  · rintro rfl
    ring

/-- A pressure is converted twice, unless it is stored in millibars or there is none. -/
theorem pressure_single_iff (conf : WmrConf) (d1 d2 d3 format : BitVec 8) (sealevel : Bool) :
    baroScaled conf (wx2CalcBaro conf d1 d2 d3 format sealevel) =
      gnScalePressure (baroScaled { conf with baroscale := 2 } (wx2CalcBaro { conf with baroscale := 2 } d1 d2 d3 format sealevel)) 2
        conf.baroscale ↔ conf.baroscale = 2 ∨ baroReading d1 d2 d3 sealevel = 0 := by
  obtain ⟨k, hk, hcalc⟩ := wx2CalcBaro_eq conf d1 d2 d3 format sealevel
  have hconf := hcalc conf.baroscale
  rw [show ({ conf with baroscale := conf.baroscale } : WmrConf) = conf from rfl] at hconf
  rw [hconf, hcalc 2]
  have hzero : baroReading d1 d2 d3 sealevel * k = 0 ↔ baroReading d1 d2 d3 sealevel = 0 := by
    rw [mul_eq_zero]
    exact or_iff_left hk
  generalize baroReading d1 d2 d3 sealevel * k = y at hzero ⊢
  unfold baroScaled gnScalePressure
  rcases scale_cases conf.baroscale with h | h | h | h
  all_goals rw [h, ← hzero]
  · exact (mul_mul_eq_mul_iff (by norm_num) (by norm_num)).trans (or_iff_right (by decide)).symm
  · exact (mul_mul_eq_mul_iff (by norm_num) (by norm_num)).trans (or_iff_right (by decide)).symm
  · exact iff_of_true rfl (Or.inl rfl)
  · exact (mul_mul_eq_mul_iff (by norm_num) (by norm_num)).trans (or_iff_right (by decide)).symm

/-! ## Frames -/

/-- Whatever the scales of the configuration and the bytes of a frame, the values that are stored are those of the frame, converted once
to these scales, exactly when the frame can be converted. -/
theorem handle_consistent_iff (conf : WmrConf) (g : Group) (data : Data g) : Consistent conf g data ↔ Convertible conf g data := by
  have hdew : ∀ d : BitVec 8, Once gnScaleTemp (digits d) 1 conf.tscale (celsius conf (digits d)) ↔ conf.tscale ≠ 3 := by
    intro d
    have h0 : (0 : ℚ) ≤ digits d := by positivity
    exact celsius_once_iff conf (by linarith)
  unfold Consistent
  cases g with
  | time => exact iff_of_true .nil trivial
  | humid => exact iff_of_true (.cons ⟨rfl, rfl⟩ (.cons ⟨rfl, rfl⟩ .nil)) trivial
  | temp =>
    simp only [Group.handle, wx2HandleTemp, announced, List.forall₂_cons, List.forall₂_nil_left_iff, Single, true_and, and_true, Convertible]
    rw [temp_once_iff, temp_once_iff, and_self]
  | baro =>
    simp only [Group.handle, wx2HandleBaro, announced, List.forall₂_cons, List.forall₂_nil_left_iff, Single, true_and, and_true, Convertible]
    rw [hdew, hdew, pressure_single_iff, pressure_single_iff]
    tauto
  | rain =>
    exact iff_of_true (.cons ⟨rfl, length_once conf _ _⟩ (.cons ⟨rfl, length_once conf _ _⟩ (.cons ⟨rfl, length_once conf _ _⟩ .nil))) trivial
  | wind =>
    simp only [Group.handle, wx2HandleWind, announced, List.forall₂_cons, List.forall₂_nil_left_iff, Single, true_and, and_true, Convertible]
    rw [hdew]
    exact and_iff_right (speed_once conf _ _) |>.trans (and_iff_right (speed_once conf _ _))

/-- Inches of mercury are converted twice. -/
theorem not_handle_consistent : ¬ ∀ (conf : WmrConf) (g : Group) (data : Data g), Consistent conf g data := by
  intro h
  have hframe := h { baroscale := 0 } .baro (Vector.replicate 31 0x11)
  unfold Consistent at hframe
  simp only [Group.handle, wx2HandleBaro, announced, List.forall₂_cons, Single] at hframe
  obtain ⟨-, -, ⟨-, hlocal⟩, -⟩ := hframe
  rcases (pressure_single_iff _ _ _ _ _ _).mp hlocal with h2 | h0
  · exact absurd h2 (by decide)
  · revert h0
    decide +kernel

end Gnhast.Wmr918coll
