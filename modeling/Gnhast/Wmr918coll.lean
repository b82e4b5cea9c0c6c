import Gnhast.Gncoll
import Gnhast.Lib.Drains

/-!
# The weather station collector

What `wmr918coll/collector.c` reads from a WX200 or a WMR918: how the callbacks take frames from their buffer, and which values the
handlers of the WX200 find in a frame. Values are exact rationals. A handler gives each value with its subtype and the suffix of a uid
to `new_dev` or `update_dev`, which store it. Left out are the log, the dump of the configuration, the time of the last update, and
what the handlers of the WMR918 make of their frames.
-/

namespace Gnhast.Wmr918coll

open CStr Drains

/-- `wx2_calc_cs`. -/
def wx2CalcCs (data : List (BitVec 8)) (len : Nat) : BitVec 8 :=
  BitVec.ofNat 8 (((data.take (len - 1)).map BitVec.toNat).sum % 256)

/-- The last byte of a frame is the checksum of the others. -/
def checked (size : Nat) (data : List (BitVec 8)) : Bool := wx2CalcCs data size == data.getD (size - 1) 0

/-! ## The WX200 -/

/-- `GROUP_*`. -/
inductive Group
  | humid | temp | baro | rain | wind | time
deriving Repr, DecidableEq

/-- The group that a byte opens. -/
def groupOf (c : BitVec 8) : Option Group :=
  match c.toNat with
  | 0x8F => some .humid
  | 0x9F => some .temp
  | 0xAF => some .baro
  | 0xBF => some .rain
  | 0xCF => some .wind
  | 0xFF => some .time
  | _ => none

/-- `GROUP_*_SIZE`. -/
def Group.size : Group → Nat
  | humid => 35
  | temp => 34
  | baro => 31
  | rain => 14
  | wind => 27
  | time => 5

/-- The `switch` of `wx2_buf_read_cb` and the `while` around it: other bytes have no case, and stay. -/
def wx2Front : List (BitVec 8) → Front Group
  | [] => .leave
  | c :: _ =>
    match groupOf c with
    | some g => .frame g
    | none => .stay

/-- `wx2_buf_read_cb`. -/
def wx2BufReadCb : Loop (BitVec 8) Group where
  front := wx2Front
  size := Group.size
  good g data := checked g.size data
  size_pos g := by cases g <;> decide
  front_local b g h hle rest := by
    cases b with
    | nil => cases h
    | cons c b => cases g <;> exact h

/-! ## The WMR918 -/

/-- `WMR_TYPE_*`. -/
inductive WmrType
  | wind | rain | th | mush | therm | thb | min | clock | extthb
deriving Repr, DecidableEq

/-- The type that the third byte of a frame names. -/
def typeOf (c : BitVec 8) : Option WmrType :=
  match c.toNat with
  | 0x00 => some .wind
  | 0x01 => some .rain
  | 0x02 => some .th
  | 0x03 => some .mush
  | 0x04 => some .therm
  | 0x05 => some .thb
  | 0x06 => some .extthb
  | 0x0e => some .min
  | 0x0f => some .clock
  | _ => none

/-- `WMR_TYPE_*_SIZE`. -/
def WmrType.size : WmrType → Nat
  | wind => 11
  | rain => 16
  | th => 9
  | mush => 9
  | therm => 7
  | thb => 13
  | min => 5
  | clock => 9
  | extthb => 14

/-- The `switch` of `wmr_buf_read_cb` and the `while` around it, which wants two bytes in front of the type. -/
def wmrFront : List (BitVec 8) → Front WmrType
  | a :: b :: c :: _ =>
    if a = 0xff ∧ b = 0xff then
      match typeOf c with
      | some t => .frame t
      | none => .stay
    else .leave
  | _ => .leave

/-- `wmr_buf_read_cb`. -/
def wmrBufReadCb : Loop (BitVec 8) WmrType where
  front := wmrFront
  size := WmrType.size
  good t data := checked t.size data
  size_pos t := by cases t <;> decide
  front_local b t h hle rest := by
    match b, h with
    | a :: b :: c :: l, h => cases t <;> exact h

/-! ## The frames of the WX200 -/

/-- The scales of the configuration, by the numbers of `gnhast.h`. -/
structure WmrConf where
  tscale : Fin 4 := 0
  baroscale : Fin 4 := 2
  lengthscale : Fin 2 := 0
  speedscale : Fin 4 := 0
deriving Repr, DecidableEq

/-- A value that `new_dev` or `update_dev` stores. -/
structure Reading where
  subtype : DevSubtype
  val : ℚ
  suffix : Str
deriving Repr, DecidableEq

/-- The bytes of a frame. -/
abbrev Data (g : Group) : Type := Vector (BitVec 8) g.size

/-- Two digits in a byte. -/
def digits (d : BitVec 8) : Nat := d.toNat / 16 * 10 + d.toNat % 16

/-- What `wx2_calc_baro` reads before it converts. -/
def baroReading (d1 d2 d3 : BitVec 8) (sealevel : Bool) : ℚ :=
  if sealevel then digits d1 / 10 + digits d2 * 10 + ((d3 &&& 0xF).toNat % 16 : Nat) * 1000
  else digits d1 + (d2.toNat / 16 + d2.toNat % 16 : Nat) * 100

/-- A pressure in millibars in the scale of the configuration. -/
def baroScaled (conf : WmrConf) (baro : ℚ) : ℚ :=
  match conf.baroscale with
  | 0 => baro * (2953 / 100000)
  | 1 => baro * (750062 / 1000000)
  | 3 => baro * (1 / 10)
  | _ => baro

/-- `wx2_calc_baro`. -/
def wx2CalcBaro (conf : WmrConf) (d1 d2 d3 format : BitVec 8) (sealevel : Bool) : ℚ :=
  let baro := baroReading d1 d2 d3 sealevel
  baroScaled conf <|
    match (format &&& 0x30).toNat with
    | 0x00 => baro * (338639 / 10000)
    | 0x10 => baro * (1333224 / 1000000)
    | _ => baro

/-- What `wx2_calc_temp` reads before it converts. -/
def tempReading (d1 d2 : BitVec 8) : ℚ :=
  let temp : ℚ := ((d1 &&& 0xF).toNat % 16 : Nat) / 10 + (d1.toNat / 16 : Nat) + (d2 &&& 0x7).toNat * 10
  if d2 &&& 0x8 ≠ 0 then 0 - temp else temp

/-- `wx2_calc_temp`. -/
def wx2CalcTemp (conf : WmrConf) (d1 d2 format : BitVec 8) : ℚ :=
  let temp := tempReading d1 d2
  if format &&& 0x4 ≠ 0 then
    match conf.tscale with
    | 1 => ftoc temp
    | 2 => ctok (ftoc temp)
    | _ => temp
  else
    match conf.tscale with
    | 0 => ctof temp
    | 2 => ctok temp
    | _ => temp

/-- What the handlers do to a temperature that comes in Celsius. -/
def celsius (conf : WmrConf) (temp : ℚ) : ℚ :=
  match conf.tscale with
  | 0 => ctof temp
  | 2 => ctok temp
  | _ => temp

/-- `wx2_handle_humid`. -/
def wx2HandleHumid (data : Data .humid) : List Reading :=
  [⟨.humid, digits data[8], str "inhumid"⟩, ⟨.humid, digits data[20], str "outhumid"⟩]

/-- `wx2_handle_temp`. -/
def wx2HandleTemp (conf : WmrConf) (data : Data .temp) : List Reading :=
  [⟨.temp, wx2CalcTemp conf data[1] data[2] data[15], str "intemp"⟩,
   ⟨.temp, wx2CalcTemp conf data[16] data[17] data[15], str "outtemp"⟩]

/-- `wx2_handle_baro`: the pressures come from `wx2_calc_baro`. -/
def wx2HandleBaro (conf : WmrConf) (data : Data .baro) : List Reading :=
  let lcl := wx2CalcBaro conf data[1] data[2] 0 data[5] false
  let sealevel := wx2CalcBaro conf data[3] data[4] data[5] data[5] true
  [⟨.temp, celsius conf (digits data[7]), str "indew"⟩, ⟨.temp, celsius conf (digits data[18]), str "outdew"⟩,
   ⟨.pressure, baroScaled conf lcl, str "localbaro"⟩, ⟨.pressure, baroScaled conf sealevel, str "sealevelbaro"⟩]

/-- The two hundreds and two ones of a length. -/
def lengthReading (d1 d2 : BitVec 8) : ℚ :=
  (d1.toNat / 16 + d1.toNat % 16 : Nat) + (d2.toNat / 16 + d2.toNat % 16 : Nat) * 100

/-- A length in the scale of the configuration. -/
def lengthScaled (conf : WmrConf) (format : BitVec 8) (x : ℚ) : ℚ :=
  if format &&& 0x2 ≠ 0 ∧ conf.lengthscale = 1 then x * (254 / 10)
  else if format &&& 0x2 = 0 ∧ conf.lengthscale = 0 then x * (393701 / 10000000)
  else x

/-- `wx2_handle_rain`. -/
def wx2HandleRain (conf : WmrConf) (data : Data .rain) : List Reading :=
  [⟨.rainrate, lengthScaled conf data[10] (lengthReading data[1] (data[2] &&& 0xF)), str "rain"⟩,
   ⟨.rainrate, lengthScaled conf data[10] (lengthReading data[3] data[4]), str "ydayrain"⟩,
   ⟨.rainrate, lengthScaled conf data[10] (lengthReading data[5] data[6]), str "totalrain"⟩]

/-- A speed by two digits and a half byte. -/
def speedReading (d1 d2 : BitVec 8) : ℚ := digits d1 / 10 + ((d2 &&& 0xF).toNat % 16 : Nat) * 10

/-- A direction by a half byte and two digits. -/
def dirReading (d1 d2 : BitVec 8) : ℚ := ((d1 &&& 0xF0).toNat : ℚ) / 16 + digits d2 * 10

/-- A speed in the scale of the configuration, by way of miles per hour. -/
def speedScaled (conf : WmrConf) (format : BitVec 8) (x : ℚ) : ℚ :=
  let mph :=
    match (format &&& 0xC0).toNat with
    | 0x40 => x * (115078 / 100000)
    | 0x80 => x * (223694 / 100000)
    | 0xc0 => x * (621371 / 1000000)
    | _ => x
  match conf.speedscale with
  | 3 => mph * (160934 / 100000)
  | 2 => mph * (44704 / 100000)
  | 1 => mph * (868976 / 1000000)
  | _ => mph

/-- `wx2_handle_wind`. -/
def wx2HandleWind (conf : WmrConf) (data : Data .wind) : List Reading :=
  [⟨.speed, speedScaled conf data[15] (speedReading data[1] data[2]), str "windgust"⟩,
   ⟨.speed, speedScaled conf data[15] (speedReading data[4] data[5]), str "windavg"⟩,
   ⟨.dir, dirReading data[2] data[3], str "windgustdir"⟩,
   ⟨.dir, dirReading data[5] data[6], str "windavgdir"⟩,
   ⟨.temp, celsius conf (digits data[16]), str "windchill"⟩]

/-- What the handler of a group stores; `wx2_handle_time` stores nothing. -/
def Group.handle (conf : WmrConf) : (g : Group) → Data g → List Reading
  | .humid, data => wx2HandleHumid data
  | .temp, data => wx2HandleTemp conf data
  | .baro, data => wx2HandleBaro conf data
  | .rain, data => wx2HandleRain conf data
  | .wind, data => wx2HandleWind conf data
  | .time, _ => []

/-! ## What is announced -/

/-- A value as a frame has it, with the number of its unit. -/
structure Announced where
  subtype : DevSubtype
  val : ℚ
  unit : Nat

/-- The unit of the temperatures of a frame: Fahrenheit or Celsius. -/
def tempUnit (format : BitVec 8) : Nat := if format &&& 0x4 ≠ 0 then 0 else 1

/-- The unit of the lengths of a frame: inches or millimeters. -/
def lengthUnit (format : BitVec 8) : Nat := if format &&& 0x2 ≠ 0 then 0 else 1

/-- The unit of the speeds of a frame: miles per hour, knots, meters per second or kilometers per hour. -/
def speedUnit (format : BitVec 8) : Nat :=
  match (format &&& 0xC0).toNat with
  | 0x40 => 1
  | 0x80 => 2
  | 0xc0 => 3
  | _ => 0

/-- The values of a frame. Dew points and windchill are in Celsius; a pressure is what the frame gives in millibars. -/
def announced (conf : WmrConf) : (g : Group) → Data g → List Announced
  | .humid, data => [⟨.humid, digits data[8], 0⟩, ⟨.humid, digits data[20], 0⟩]
  | .temp, data => [⟨.temp, tempReading data[1] data[2], tempUnit data[15]⟩, ⟨.temp, tempReading data[16] data[17], tempUnit data[15]⟩]
  | .baro, data =>
    let mb := { conf with baroscale := 2 }
    [⟨.temp, digits data[7], 1⟩, ⟨.temp, digits data[18], 1⟩,
     ⟨.pressure, baroScaled mb (wx2CalcBaro mb data[1] data[2] 0 data[5] false), 2⟩,
     ⟨.pressure, baroScaled mb (wx2CalcBaro mb data[3] data[4] data[5] data[5] true), 2⟩]
  | .rain, data =>
    [⟨.rainrate, lengthReading data[1] (data[2] &&& 0xF), lengthUnit data[10]⟩,
     ⟨.rainrate, lengthReading data[3] data[4], lengthUnit data[10]⟩, ⟨.rainrate, lengthReading data[5] data[6], lengthUnit data[10]⟩]
  | .wind, data =>
    [⟨.speed, speedReading data[1] data[2], speedUnit data[15]⟩, ⟨.speed, speedReading data[4] data[5], speedUnit data[15]⟩,
     ⟨.dir, dirReading data[2] data[3], 0⟩, ⟨.dir, dirReading data[5] data[6], 0⟩, ⟨.temp, digits data[16], 1⟩]
  | .time, _ => []

/-- A value is converted once: by the library, or not at all if it is in its scale. -/
def Once (convert : ℚ → Nat → Nat → ℚ) (x : ℚ) (cur new : Nat) (y : ℚ) : Prop := y = convert x cur new ∨ (cur = new ∧ y = x)

/-- A stored value is what a frame has, in the scale that the configuration has for its kind. -/
def Single (conf : WmrConf) (r : Reading) (a : Announced) : Prop :=
  r.subtype = a.subtype ∧
    match a.subtype with
    | .temp => Once gnScaleTemp a.val a.unit conf.tscale r.val
    | .pressure => r.val = gnScalePressure a.val a.unit conf.baroscale
    | .speed => Once gnScaleSpeed a.val a.unit conf.speedscale r.val
    | .rainrate => Once gnScaleLength a.val a.unit conf.lengthscale r.val
    | _ => r.val = a.val

/-- All values of a frame are stored as that. -/
def Consistent (conf : WmrConf) (g : Group) (data : Data g) : Prop := List.Forall₂ (Single conf) (g.handle conf data) (announced conf g data)

/-- The frames whose values the handlers can convert. -/
def Convertible (conf : WmrConf) : (g : Group) → Data g → Prop
  | .temp, _ => conf.tscale ≠ 3
  | .wind, _ => conf.tscale ≠ 3
  | .baro, data => conf.tscale ≠ 3 ∧
      (conf.baroscale = 2 ∨ (baroReading data[1] data[2] 0 false = 0 ∧ baroReading data[3] data[4] data[5] true = 0))
  | _, _ => True

end Gnhast.Wmr918coll
