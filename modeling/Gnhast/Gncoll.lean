import Gnhast.Devices

/-!
# What is written on the wire

The functions of `gncoll.c` that print devices, groups and alarms as command lines, and the conversions between the scales of a
reading, over exact rationals. A function that refuses to print gives no line.
-/

namespace Gnhast

open CStr

/-! ## Scales -/

def ctof (x : ℚ) : ℚ := x * (18 / 10) + 32
def ftoc (x : ℚ) : ℚ := (x - 32) / (18 / 10)
def ctok (x : ℚ) : ℚ := x + 27315 / 100
def ktoc (x : ℚ) : ℚ := x - 27315 / 100
def ktof (x : ℚ) : ℚ := ctof (ktoc x)
def ftor (x : ℚ) : ℚ := x + 45967 / 100
def rtof (x : ℚ) : ℚ := x - 45967 / 100

/-- `gn_scale_temp`: scale 0 is Fahrenheit, 1 Celsius, 2 Kelvin and 3 Rankine. -/
def gnScaleTemp (temp : ℚ) (cur new : Nat) : ℚ :=
  let d := match cur with | 2 => ktof temp | 1 => ctof temp | 3 => rtof temp | _ => temp
  match new with | 2 => ctok (ftoc d) | 1 => ftoc d | 3 => ftor d | _ => d

/-- `gn_scale_pressure`: scale 0 is inches, 1 millimeters, 2 millibars and 3 centibars. -/
def gnScalePressure (press : ℚ) (cur new : Nat) : ℚ :=
  let d := match cur with
    | 0 => press * (338639 / 10000) | 1 => press * (1333224 / 1000000) | 3 => press * 10 | _ => press
  match new with
    | 0 => d * (2953 / 100000) | 1 => d * (750062 / 1000000) | 3 => d * (1 / 10) | _ => d

/-- `gn_scale_speed`: scale 0 is miles per hour, 1 knots, 2 meters per second and 3 kilometers per hour. -/
def gnScaleSpeed (speed : ℚ) (cur new : Nat) : ℚ :=
  let d := match cur with
    | 1 => speed * (115078 / 100000) | 2 => speed * (223694 / 100000) | 3 => speed * (621371 / 1000000) | _ => speed
  match new with
    | 1 => d * (868976 / 1000000) | 2 => d * (44704 / 100000) | 3 => d * (160934 / 100000) | _ => d

/-- `gn_scale_length`: scale 0 is inches and 1 millimeters. -/
def gnScaleLength (length : ℚ) (cur new : Nat) : ℚ :=
  let d := match cur with | 1 => length * (393701 / 10000000) | _ => length
  match new with | 1 => d * (254 / 10) | _ => d

/-- `gn_scale_light`: scale 0 is lux and 1 watts per square meter. -/
def gnScaleLight (light : ℚ) (cur new : Nat) : ℚ :=
  let d := match cur with | 1 => light / (79 / 10000) | _ => light
  match new with | 1 => d * (79 / 10000) | _ => d

/-- `gn_maybe_scale`. -/
def gnMaybeScale (dev : Device) (scale : Nat) (val : ℚ) : ℚ :=
  if dev.scale.toNat = scale then val
  else
    match dev.devSubtype with
    | .temp => gnScaleTemp val dev.scale.toNat scale
    | .pressure => gnScalePressure val dev.scale.toNat scale
    | .speed => gnScaleSpeed val dev.scale.toNat scale
    | .rainrate => gnScaleLength val dev.scale.toNat scale
    | .lux => gnScaleLight val dev.scale.toNat scale
    | _ => val

/-! ## Flags of an update -/

def gncNoscale : BitVec 32 := 0x1
def gncUpdName : BitVec 32 := 0x2
def gncUpdRrdname : BitVec 32 := 0x4
def gncUpdCacti : BitVec 32 := 0x8
def gncUpdHandler : BitVec 32 := 0x10
def gncUpdHargs : BitVec 32 := 0x20
def gncUpdWater : BitVec 32 := 0x40
def gncUpdFull : BitVec 32 := 0x80
def gncUpdTags : BitVec 32 := 0x20000

/-- `GNC_UPD_SCALE`: a shift counts modulo the width. -/
def gncUpdScale (x : BitVec 32) : BitVec 32 := 1#32 <<< ((8#32 + x).toNat % 32)

/-- `ffs`: the position of the lowest bit set, counted from one. -/
def ffs (x : BitVec 32) : Nat :=
  match (List.range 32).find? (fun i => x.getLsbD i) with
  | some i => i + 1
  | none => 0

/-- `GNC_GET_SCALE`. -/
def gncGetScale (x : BitVec 32) : Nat := ffs ((x &&& 0xff00#32) >>> 9)

/-- `QUERY_BIT`. -/
def queryBit (xyz p : BitVec 32) : Bool := xyz &&& p != 0

/-! ## Lines -/

/-- `"%s:%s"` with the name of a keyword. -/
def field (k : Sc) (v : Str) : Str := argnm k ++ chColon :: v

/-- A string in quotes. -/
def quote (v : Str) : Str := chQuote :: v ++ [chQuote]

/-- `"%d"` of a byte. -/
def fmtByte (b : BitVec 8) : Str := decNat b.toNat

/-- `"%d"` of 32 bits. -/
def fmtD (v : BitVec 32) : Str := decInt v.toInt

/-- `"%u"` of 32 bits. -/
def fmtU (v : BitVec 32) : Str := decNat v.toNat

/-- `"%jd"` of 64 bits. -/
def fmtJd (v : BitVec 64) : Str := decInt v.toInt

/-- The text of an optional string, written by `p`. -/
def optText (o : Option Str) (p : Str → Str) : Str :=
  match o with
  | some v => p v
  | none => []

/-- `gn_register_device`. -/
def gnRegisterDevice (dev : Device) : Option Str :=
  match dev.name with
  | none => none
  | some name =>
    if dev.type = 0 ∨ dev.subtype = 0 ∨ dev.proto = 0 then none
    else some (str "reg " ++ field .uid dev.uid ++ str " " ++ field .name (quote name) ++ str " " ++
      optText dev.rrdname (fun r => field .rrdname r ++ str " ") ++
      (if dev.scale = 0 then [] else field .scale (fmtByte dev.scale) ++ str " ") ++
      field .devtype (fmtByte dev.type) ++ str " " ++ field .proto (fmtByte dev.proto) ++ str " " ++
      field .subtype (fmtByte dev.subtype) ++ [chLf])

variable (F : Doubles)

/-- The value at a location of a device, printed by its datatype from a local that is zero before; a double is scaled by `sc`. -/
def printData (dev : Device) (loc : DataLoc) (sc : ℚ → ℚ) : Str :=
  match datatypeDev dev with
  | .uint => fmtD ((getDataDev F dev loc (.raw 0)).uint F)
  | .ll => fmtJd ((getDataDev F dev loc (.raw 0)).int64 F)
  | .double => fmtF (sc ((getDataDev F dev loc (.dbl 0)).double F))

/-- The number for the spamhandler setting. -/
def spamSetting (dev : Device) : Str :=
  if dev.spamhandler then str "1" else if dev.changehandler then str "2" else str "0"

/-- The strings of the tags array; a slot never written cannot be read. -/
def readTags : List Tag → Except Fault (List Str)
  | [] => .ok []
  | t :: tags =>
    match t.str? with
    | some s => (readTags tags).map (fun ss => s :: ss)
    | none => .error .uninitialised

/-- `gn_modify_device`. -/
def gnModifyDevice (dev : Device) : Except Fault (Option Str) :=
  match dev.name with
  | none => .ok none
  | some name =>
    (readTags dev.tags.items).map fun tags =>
      some (str "mod " ++ field .uid dev.uid ++ str " " ++ field .name (quote name) ++ str " " ++
        optText dev.rrdname (fun r => field .rrdname r ++ str " ") ++
        (if dev.scale = 0 then [] else field .scale (fmtByte dev.scale) ++ str " ") ++
        str " " ++ field .lowat (printData F dev .lowat id) ++ str " " ++ field .hiwat (printData F dev .hiwat id) ++
        (if datatypeDev dev = .uint then str " " else []) ++
        optText dev.handler (fun h => str " " ++ field .handler h ++ str " " ++ field .spam (spamSetting dev) ++ str " ") ++
        (if dev.hargs.items = [] then [] else str " " ++ field .hargs (join chComma dev.hargs.items)) ++
        (if tags = [] then [] else str " " ++ field .tags (join chComma tags)) ++ [chLf])

/-- The strings of a list, each in quotes, with commas between them. -/
def quotedList (ss : List Str) : Str := join chComma (ss.map quote)

/-- The two watermarks of an update; only integers of 32 bits have a blank after the second. -/
def waterText (dev : Device) : Str :=
  str " " ++ field .lowat (printData F dev .lowat id) ++ str " " ++ field .hiwat (printData F dev .hiwat id) ++
    (if datatypeDev dev = .uint then str " " else [])

/-- `gn_update_device`. -/
def gnUpdateDevice (dev : Device) (what : BitVec 32) : Except Fault (Option Str) :=
  match dev.name with
  | none => .ok none
  | some name =>
    if dev.type = 0 ∨ dev.subtype = 0 ∨ dev.proto = 0 then .ok none
    else
      let scale := if queryBit what gncNoscale then dev.scale.toNat else gncGetScale what
      let full := queryBit what gncUpdFull
      if queryBit what gncUpdCacti then
        match dev.rrdname with
        | none => .error .nullString
        | some rrdname => .ok (some (rrdname ++ str ":" ++ printData F dev .data (gnMaybeScale dev scale) ++ [chLf]))
      else
        (if queryBit what gncUpdTags || full then readTags dev.tags.items else .ok []).map fun tags =>
          some (str "upd " ++ field .uid dev.uid ++ str " " ++
            (if queryBit what gncUpdName || full then field .name (quote name) ++ str " " else []) ++
            (if queryBit what gncUpdRrdname || full then optText dev.rrdname (fun r => field .rrdname r ++ str " ") else []) ++
            (if queryBit what gncUpdHandler || full then optText dev.handler (fun h => field .handler h ++ str " ") else []) ++
            (if (queryBit what gncUpdHargs || full) && !dev.hargs.items.isEmpty then
              field .hargs (quotedList dev.hargs.items) ++ str " " else []) ++
            (if tags = [] then [] else field .tags (quotedList tags) ++ str " ") ++
            (if full then
              field .devtype (fmtByte dev.type) ++ str " " ++ field .proto (fmtByte dev.proto) ++ str " " ++
                field .subtype (fmtByte dev.subtype) ++ str " " ++ field .spam (spamSetting dev) ++ str " " ++
                (if dev.scale = 0 then [] else field .scale (fmtByte dev.scale) ++ str " ") else []) ++
            argdev dev ++ chColon :: printData F dev .data (gnMaybeScale dev scale) ++
            (if queryBit what gncUpdWater || full then waterText F dev else []) ++ [chLf])

/-- `gn_register_devgroup`. -/
def gnRegisterDevgroup (s : Server) (devgrp : GroupId) : Option Str :=
  match (s.group devgrp).name with
  | none => none
  | some name =>
    let children := (s.group devgrp).children.map (fun w => (s.group w.group).uid)
    let members := (s.group devgrp).members.map (fun w => (s.dev w.dev).uid)
    some (str "regg " ++ field .uid (s.group devgrp).uid ++ str " " ++ field .name (quote name) ++ str " " ++
      (if children = [] then [] else field .grouplist (join chComma children)) ++ str " " ++
      (if members = [] then [] else field .devlist (join chComma members)) ++ [chLf])

/-- `gn_ping`. -/
def gnPing : Str := str "ping" ++ [chLf]

/-- `gn_setalarm`, with a text. -/
def gnSetalarm (aluid altext : Str) (alsev alchan : BitVec 32) : Str :=
  str "setalarm " ++ field .aluid aluid ++ str " " ++ field .altext (quote altext) ++ str " " ++
    field .alsev (fmtD alsev) ++ str " " ++ field .alchan (fmtU alchan) ++ [chLf]

end Gnhast
