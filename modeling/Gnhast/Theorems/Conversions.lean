import Gnhast.Gncoll
import Gnhast.Lib.Pivots
import Mathlib.Tactic.NormNum

/-!
# Conversions between scales compose

Every kind of reading is converted through one unit: Fahrenheit, millibars, miles per hour, inches or lux. The ways to and from
Fahrenheit invert each other exactly. Of the factors of the other kinds the two of a scale miss each other by less than three
millionths, so that a stop at a scale, and a way there and back, stay within a hundred thousandth.
-/

namespace Gnhast

open Pivots

/-! ## The ways to and from the pivots -/

def tempTo : Nat → ℚ → ℚ
  | 2, x => ktof x
  | 1, x => ctof x
  | 3, x => rtof x
  | _, x => x

def tempFrom : Nat → ℚ → ℚ
  | 2, d => ctok (ftoc d)
  | 1, d => ftoc d
  | 3, d => ftor d
  | _, d => d

def pressureTo : Nat → ℚ
  | 0 => 338639 / 10000
  | 1 => 1333224 / 1000000
  | 3 => 10
  | _ => 1

def pressureFrom : Nat → ℚ
  | 0 => 2953 / 100000
  | 1 => 750062 / 1000000
  | 3 => 1 / 10
  | _ => 1

def speedTo : Nat → ℚ
  | 1 => 115078 / 100000
  | 2 => 223694 / 100000
  | 3 => 621371 / 1000000
  | _ => 1

def speedFrom : Nat → ℚ
  | 1 => 868976 / 1000000
  | 2 => 44704 / 100000
  | 3 => 160934 / 100000
  | _ => 1

def lengthTo : Nat → ℚ
  | 1 => 393701 / 10000000
  | _ => 1

def lengthFrom : Nat → ℚ
  | 1 => 254 / 10
  | _ => 1

def lightTo : Nat → ℚ
  | 1 => (79 / 10000)⁻¹
  | _ => 1

def lightFrom : Nat → ℚ
  | 1 => 79 / 10000
  | _ => 1

theorem gnScaleTemp_eq (x : ℚ) (a b : Nat) : gnScaleTemp x a b = through tempTo tempFrom a b x := by
  rcases a with _ | _ | _ | _ | a
  all_goals rcases b with _ | _ | _ | _ | b <;> rfl

theorem gnScalePressure_eq (x : ℚ) (a b : Nat) : gnScalePressure x a b = scaled pressureTo pressureFrom a b x := by
  rcases a with _ | _ | _ | _ | a
  all_goals rcases b with _ | _ | _ | _ | b <;> simp only [gnScalePressure, scaled, pressureTo, pressureFrom, mul_one]

theorem gnScaleSpeed_eq (x : ℚ) (a b : Nat) : gnScaleSpeed x a b = scaled speedTo speedFrom a b x := by
  rcases a with _ | _ | _ | _ | a
  all_goals rcases b with _ | _ | _ | _ | b <;> simp only [gnScaleSpeed, scaled, speedTo, speedFrom, mul_one]

theorem gnScaleLength_eq (x : ℚ) (a b : Nat) : gnScaleLength x a b = scaled lengthTo lengthFrom a b x := by
  rcases a with _ | _ | a
  all_goals rcases b with _ | _ | b <;> simp only [gnScaleLength, scaled, lengthTo, lengthFrom, mul_one]

theorem gnScaleLight_eq (x : ℚ) (a b : Nat) : gnScaleLight x a b = scaled lightTo lightFrom a b x := by
  rcases a with _ | _ | a
  all_goals rcases b with _ | _ | b <;> simp only [gnScaleLight, scaled, lightTo, lightFrom, mul_one, div_eq_mul_inv]

/-! ## How exact they are -/

theorem tempTo_tempFrom (b : Nat) (y : ℚ) : tempTo b (tempFrom b y) = y := by
  rcases b with _ | _ | _ | _ | b
  · rfl
  · simp only [tempTo, tempFrom, ctof, ftoc]
    linarith
  · simp only [tempTo, tempFrom, ktof, ctof, ktoc, ctok, ftoc]
    linarith
  · simp only [tempTo, tempFrom, rtof, ftor]
    linarith
  · rfl

theorem tempFrom_tempTo (a : Nat) (x : ℚ) : tempFrom a (tempTo a x) = x := by
  rcases a with _ | _ | _ | _ | a
  · rfl
  · simp only [tempTo, tempFrom, ctof, ftoc]
    linarith
  · simp only [tempTo, tempFrom, ktof, ctof, ktoc, ctok, ftoc]
    linarith
  · simp only [tempTo, tempFrom, rtof, ftor]
    linarith
  · rfl

/-- What the two factors of a scale miss each other by at most. -/
def slip : ℚ := 3 / 1000000

theorem pressure_slip (b : Nat) : |pressureTo b * pressureFrom b - 1| ≤ slip := by
  rcases b with _ | _ | _ | _ | b <;> simp only [pressureTo, pressureFrom] <;> norm_num [slip, abs_le]

theorem speed_slip (b : Nat) : |speedTo b * speedFrom b - 1| ≤ slip := by
  rcases b with _ | _ | _ | _ | b <;> simp only [speedTo, speedFrom] <;> norm_num [slip, abs_le]

theorem length_slip (b : Nat) : |lengthTo b * lengthFrom b - 1| ≤ slip := by
  rcases b with _ | _ | b <;> simp only [lengthTo, lengthFrom] <;> norm_num [slip, abs_le]

theorem light_slip (b : Nat) : |lightTo b * lightFrom b - 1| ≤ slip := by
  rcases b with _ | _ | b <;> simp only [lightTo, lightFrom] <;> norm_num [slip, abs_le]

/-- The bound on two ways to convert a value. -/
def tolerance : ℚ := 1 / 100000

theorem slip_le_tolerance : slip ≤ tolerance ∧ 2 * slip + slip * slip ≤ tolerance := by
  norm_num [slip, tolerance]

section Factors

variable {up down : Nat → ℚ} (h : ∀ b, |up b * down b - 1| ≤ slip)

include h

theorem scaled_trans_le (a b c : Nat) (x : ℚ) :
    |scaled up down b c (scaled up down a b x) - scaled up down a c x| ≤ tolerance * |scaled up down a c x| :=
  (scaled_trans h a b c x).trans (mul_le_mul_of_nonneg_right slip_le_tolerance.1 (abs_nonneg _))

theorem scaled_back_le (a b : Nat) (x : ℚ) : |scaled up down b a (scaled up down a b x) - x| ≤ tolerance * |x| :=
  (scaled_back h a b x).trans (mul_le_mul_of_nonneg_right slip_le_tolerance.2 (abs_nonneg _))

end Factors

/-! ## Conversions compose -/

/-- The kinds of readings whose factors were rounded. -/
inductive Kind
  | pressure | speed | length | light
deriving DecidableEq

/-- The conversion of a kind. -/
def Kind.convert : Kind → ℚ → Nat → Nat → ℚ
  | .pressure => gnScalePressure
  | .speed => gnScaleSpeed
  | .length => gnScaleLength
  | .light => gnScaleLight

/-- A value of a device, converted to a scale and converted back from a device with that scale. -/
def thereAndBack (dev : Device) (scale : BitVec 8) (val : ℚ) : ℚ :=
  gnMaybeScale { dev with scale := scale } dev.scale.toNat (gnMaybeScale dev scale.toNat val)

theorem convert_trans (k : Kind) (a b c : Nat) (x : ℚ) :
    |k.convert (k.convert x a b) b c - k.convert x a c| ≤ tolerance * |k.convert x a c| := by
  cases k with
  | pressure =>
    simp only [Kind.convert, gnScalePressure_eq]
    exact scaled_trans_le pressure_slip a b c x
  | speed =>
    simp only [Kind.convert, gnScaleSpeed_eq]
    exact scaled_trans_le speed_slip a b c x
  | length =>
    simp only [Kind.convert, gnScaleLength_eq]
    exact scaled_trans_le length_slip a b c x
  | light =>
    simp only [Kind.convert, gnScaleLight_eq]
    exact scaled_trans_le light_slip a b c x

theorem thereAndBack_le (dev : Device) (scale : BitVec 8) (val : ℚ) : |thereAndBack dev scale val - val| ≤ tolerance * |val| := by
  have hsame : |val - val| ≤ tolerance * |val| := by
    rw [sub_self, abs_zero]
    exact mul_nonneg (by norm_num [tolerance]) (abs_nonneg _)
  unfold thereAndBack gnMaybeScale
  by_cases h : dev.scale.toNat = scale.toNat
  · rw [if_pos h, if_pos h.symm]
    exact hsame
  · rw [if_neg h, if_neg (Ne.symm h)]
    have hsub : ({ dev with scale := scale } : Device).devSubtype = dev.devSubtype := rfl
    rw [hsub]
    cases hs : dev.devSubtype with
    | temp =>
      simp only [gnScaleTemp_eq]
      rw [through_back tempTo_tempFrom tempFrom_tempTo]
      exact hsame
    | pressure =>
      simp only [gnScalePressure_eq]
      exact scaled_back_le pressure_slip _ _ val
    | speed =>
      simp only [gnScaleSpeed_eq]
      exact scaled_back_le speed_slip _ _ val
    | rainrate =>
      simp only [gnScaleLength_eq]
      exact scaled_back_le length_slip _ _ val
    | lux =>
      simp only [gnScaleLight_eq]
      exact scaled_back_le light_slip _ _ val
    | _ => exact hsame

/-- Temperatures are converted exactly: a stop at another scale changes nothing, and a way there and back ends at the value. For the
other kinds a stop costs at most a hundred thousandth of the converted value; and so does the way of a device's value there and back
through `gn_maybe_scale`. -/
theorem conversions_compose :
    (∀ (a b c : Nat) (x : ℚ), gnScaleTemp (gnScaleTemp x a b) b c = gnScaleTemp x a c) ∧
    (∀ (a b : Nat) (x : ℚ), gnScaleTemp (gnScaleTemp x a b) b a = x) ∧
    (∀ (k : Kind) (a b c : Nat) (x : ℚ), |k.convert (k.convert x a b) b c - k.convert x a c| ≤ 1 / 100000 * |k.convert x a c|) ∧
    ∀ (dev : Device) (scale : BitVec 8) (val : ℚ), |thereAndBack dev scale val - val| ≤ 1 / 100000 * |val| := by
  refine ⟨fun a b c x => ?_, fun a b x => ?_, convert_trans, thereAndBack_le⟩
  · simp only [gnScaleTemp_eq]
    exact through_trans tempTo_tempFrom a b c x
  · simp only [gnScaleTemp_eq]
    exact through_back tempTo_tempFrom tempFrom_tempTo a b x

end Gnhast
