import Gnhast.Devices

/-!
# The Balboa spa collector

`balboacoll/collector.c`: the frames of the spa and their checksum (`balboa_buf_read_cb`, `balboa_calc_cs`), what is done with the
messages in them (`parse_config_resp`, `parse_panel_config_resp`, `parse_status_update`), the devices that are built when all three
have come in (`init_balboa_devs`), and the buttons that are pushed for a change (`coll_chg_switch_cb`). The devices of the spa are
its parts; the order of the parts is that of the code. Left out are the log, the lines to gnhastd with the texts that only they
read, and setting the temperature.
-/

namespace Gnhast.Balboacoll

open CStr

/-- What a handler does that the language does not define. -/
inductive SpaFault
  /-- A checksum over a negative number of bytes. -/
  | negativeLength
  /-- A byte behind the end of the message is read. -/
  | readBeyond
deriving Repr, DecidableEq

/-! ## Checksums -/

/-- One bit of `crc_update` and of `crc_finalize`. -/
def crcBit (crc : BitVec 8) (bit : Bool) : BitVec 8 :=
  let next := crc <<< 1 ||| (BitVec.ofBool bit).setWidth 8
  if crc &&& 0x80 ≠ 0 then next ^^^ 0x07 else next

/-- `crc_update` -/
def crcUpdate (crc : BitVec 8) (data : List (BitVec 8)) : BitVec 8 :=
  data.foldl (fun crc c => (List.range 8).foldl (fun crc i => crcBit crc (c.getLsbD (7 - i))) crc) crc

/-- `crc_finalize` -/
def crcFinalize (crc : BitVec 8) : BitVec 8 := (List.range 8).foldl (fun crc _ => crcBit crc false) crc ^^^ 0x02

/-- `balboa_calc_cs` -/
def balboaCalcCs (data : List (BitVec 8)) : BitVec 8 := crcFinalize (crcUpdate 0xb5 data)

set_option maxRecDepth 4000 in
example : balboaCalcCs [0x05, 0x0a, 0xbf, 0x04] = 0x77 := by decide

/-! ## The configuration of the spa -/

/-- `spaconfig_t` -/
structure Spaconfig where
  pumpArray : Fin 6 → Bool := fun _ => false
  lightArray : Fin 2 → Bool := fun _ => false
  mister : Bool := false
  auxArray : Fin 2 → Bool := fun _ => false
  blower : Bool := false
  tscale : BitVec 8 := 0
  trange : Bool := false
  circpump : Bool := false
  cfgdoneConf : Bool := false
  cfgdonePanel : Bool := false
  cfgdoneStatus : Bool := false

/-- A place of `spaconfig_t` that `parse_panel_config_resp` writes. -/
inductive SpaCell
  | pump (i : Fin 6)
  | light (i : Fin 2)
  | blower
  | circpump
  | aux (i : Nat)
  | mister
deriving Repr, DecidableEq

/-- The place lies in its array. -/
def SpaCell.Inside : SpaCell → Prop
  | .aux i => i < 2
  | _ => True

instance (c : SpaCell) : Decidable c.Inside := by
  unfold SpaCell.Inside
  split <;> infer_instance

/-- Writing one to a place. Behind the array of the aux devices lies the blower. -/
def Spaconfig.write (spacfg : Spaconfig) : SpaCell → Spaconfig
  | .pump i => { spacfg with pumpArray := Function.update spacfg.pumpArray i true }
  | .light i => { spacfg with lightArray := Function.update spacfg.lightArray i true }
  | .blower => { spacfg with blower := true }
  | .circpump => { spacfg with circpump := true }
  | .aux i => if h : i < 2 then { spacfg with auxArray := Function.update spacfg.auxArray ⟨i, h⟩ true }
    else { spacfg with blower := true }
  | .mister => { spacfg with mister := true }

/-- The tests of `parse_panel_config_resp`: the byte, the mask and the place. -/
def panelTests : List (Nat × BitVec 8 × SpaCell) :=
  [(5, 0x03, .pump 0), (5, 0x0c, .pump 1), (5, 0x30, .pump 2), (5, 0xc0, .pump 3), (6, 0x03, .pump 4), (6, 0xc0, .pump 5),
    (7, 0x03, .light 0), (7, 0xc0, .light 1), (8, 0x03, .blower), (8, 0x80, .circpump), (9, 0x01, .aux 1), (9, 0x02, .aux 2),
    (9, 0x30, .mister)]

/-- The places that a panel response writes. -/
def panelCells (data : List (BitVec 8)) : List SpaCell :=
  (panelTests.filter fun t => data.getD t.1 0 &&& t.2.1 != 0).map fun t => t.2.2

/-! ## The parts of the spa -/

/-- What a device is built for. -/
inductive SpaPart
  | pump (i : Fin 6)
  | circpump
  | light (i : Fin 2)
  | aux (i : Fin 2)
  | mister | curtemp | settemp | heatmode | heatstate | temprange
deriving Repr, DecidableEq

/-- The parts in the order in which `init_balboa_devs` builds them. -/
def buildOrder : List SpaPart :=
  (List.finRange 6).map SpaPart.pump ++ [SpaPart.circpump] ++ (List.finRange 2).map SpaPart.light ++
    (List.finRange 2).map SpaPart.aux ++
    [SpaPart.mister, SpaPart.curtemp, SpaPart.settemp, SpaPart.heatmode, SpaPart.heatstate, SpaPart.temprange]

/-- The parts in the order in which `parse_status_update` stores them. -/
def statusOrder : List SpaPart :=
  [SpaPart.curtemp, SpaPart.settemp, SpaPart.heatmode, SpaPart.heatstate, SpaPart.temprange] ++
    (List.finRange 6).map SpaPart.pump ++ [SpaPart.circpump] ++ (List.finRange 2).map SpaPart.light ++ [SpaPart.mister] ++
    (List.finRange 2).map SpaPart.aux

/-- The spa has the part. -/
def SpaPart.installed (spacfg : Spaconfig) : SpaPart → Bool
  | .pump i => spacfg.pumpArray i
  | .circpump => spacfg.circpump
  | .light i => spacfg.lightArray i
  | .aux i => spacfg.auxArray i
  | .mister => spacfg.mister
  | .curtemp | .settemp | .heatmode | .heatstate | .temprange => true

/-- What stands behind the address in the uid of a part. -/
def SpaPart.suffix : SpaPart → Str
  | .pump i => str "-pump" ++ padNat 2 i
  | .circpump => str "-circpump"
  | .light i => str "-light" ++ padNat 2 i
  | .aux i => str "-aux" ++ padNat 2 i
  | .mister => str "-mister"
  | .curtemp => str "-curtemp"
  | .settemp => str "-settemp"
  | .heatmode => str "-heatmode"
  | .heatstate => str "-heatstate"
  | .temprange => str "-temprange"

/-- The locator of a part, for those that can be changed. -/
def SpaPart.loc : SpaPart → Option Str
  | .pump i => some (str "p" ++ padNat 2 i)
  | .light i => some (str "l" ++ decNat i)
  | .aux i => some (str "a" ++ decNat i)
  | .mister => some (str "mi")
  | .settemp => some (str "st")
  | .heatmode => some (str "hm")
  | .temprange => some (str "tr")
  | .circpump | .curtemp | .heatstate => none

def deviceSensor : BitVec 8 := 3
def subtypeSwitch : BitVec 8 := 1
def subtypeTemp : BitVec 8 := 3
def subtypeTristate : BitVec 8 := 36

/-- The type of a part's device. -/
def SpaPart.type : SpaPart → BitVec 8
  | .pump _ | .circpump | .light _ | .aux _ | .mister => deviceSwitch
  | .curtemp | .settemp | .heatmode | .heatstate | .temprange => deviceSensor

/-- The subtype of a part's device. -/
def SpaPart.subtype : SpaPart → BitVec 8
  | .pump _ | .heatmode | .heatstate => subtypeTristate
  | .circpump | .light _ | .aux _ | .mister | .temprange => subtypeSwitch
  | .curtemp | .settemp => subtypeTemp

/-! ## The state -/

/-- A device with its locator. -/
structure SpaDev where
  dev : Device
  loc : Option Str
deriving Repr, DecidableEq

/-- `mac_suffix` -/
structure MacSuffix where
  b0 : BitVec 8 := 0
  b1 : BitVec 8 := 0
  b2 : BitVec 8 := 0
deriving Repr, DecidableEq

/-- The globals of the collector and the bytes that have come in. -/
structure Spa where
  input : List (BitVec 8) := []
  devicesReady : Bool := false
  spacfg : Spaconfig := {}
  macSuffix : MacSuffix := {}
  prevStat : List (BitVec 8) := List.replicate 23 0
  devices : Str → Option SpaDev := fun _ => none

/-- `"%0.2X"` of a byte. -/
def fmtX2 (b : BitVec 8) : Str :=
  let digit := fun n : Nat => UInt8.ofNat (if n < 10 then 48 + n else 55 + n)
  [digit (b.toNat / 16), digit (b.toNat % 16)]

/-- The address in front of the uids. -/
def MacSuffix.text (m : MacSuffix) : Str := fmtX2 m.b0 ++ fmtX2 m.b1 ++ fmtX2 m.b2

/-- The uid of a part. -/
def SpaPart.uid (m : MacSuffix) (k : SpaPart) : Str := m.text ++ k.suffix

variable (F : Doubles) (conf : Str → Option SpaDev)

/-! ## Building the devices -/

/-- `generic_build_device` for a part; `conf` is `new_dev_from_conf`. -/
def genericBuildDevice (s : Spa) (k : SpaPart) : Spa :=
  let uid := k.uid s.macSuffix
  let d : SpaDev :=
    match conf uid with
    | some d => { d with loc := k.loc.orElse fun _ => d.loc }
    | none =>
      { dev := { uid, type := k.type, subtype := k.subtype, scale := if k.subtype = subtypeTemp then s.spacfg.tscale else 0 }
        loc := k.loc }
  let s := { s with devices := Function.update s.devices uid (some { d with dev := { d.dev with nodata := true } }) }
  -- The scale of the current temperature is that of its device, which may be configured.
  if k = .curtemp then { s with spacfg := { s.spacfg with tscale := d.dev.scale } } else s

/-- `init_balboa_devs` -/
def initBalboaDevs (s : Spa) : Spa :=
  if s.macSuffix = {} then s
  else if s.spacfg.cfgdoneConf = false ∨ s.spacfg.cfgdonePanel = false ∨ s.spacfg.cfgdoneStatus = false then s
  else
    let s := (buildOrder.filter fun k => k.installed s.spacfg).foldl (genericBuildDevice conf) s
    { s with devicesReady := true, prevStat := List.replicate 23 0 }

/-! ## Messages -/

/-- `parse_config_resp` -/
def parseConfigResp (data : List (BitVec 8)) (s : Spa) : Except SpaFault Spa :=
  if s.macSuffix = {} ∧ data.length < 14 then .error .readBeyond
  else
    let s := if s.macSuffix = {} then { s with macSuffix := ⟨data.getD 11 0, data.getD 12 0, data.getD 13 0⟩ } else s
    if s.devicesReady then .ok s
    else .ok (initBalboaDevs conf { s with spacfg := { s.spacfg with cfgdoneConf := true } })

/-- `parse_panel_config_resp` -/
def parsePanelConfigResp (data : List (BitVec 8)) (s : Spa) : Except SpaFault Spa :=
  if s.devicesReady then .ok s
  else if data.length < 10 then .error .readBeyond
  else
    let spacfg := (panelCells data).foldl Spaconfig.write s.spacfg
    .ok (initBalboaDevs conf { s with spacfg := { spacfg with cfgdonePanel := true } })

/-- The number that a status gives for a part, in whole; `b` are the bytes of the message. -/
def SpaPart.value (b : Nat → BitVec 8) : SpaPart → BitVec 8
  | .pump i => if i.val < 4 then b 16 >>> i.val &&& 0x03 else b 17 >>> (i.val - 4) &&& 0x03
  | .circpump => if b 18 = 0x02 then 1 else 0
  | .light i => if b 19 >>> i.val &&& 0x03 ≠ 0 then 1 else 0
  | .aux i => if i = 0 then b 20 &&& 0x08 else b 20 &&& 0x10
  | .mister => b 20 &&& 0x01
  | .curtemp => b 7
  | .settemp => b 25
  | .heatmode => if b 10 &&& 0x03 = 3 then 2 else b 10 &&& 0x03
  | .heatstate => (b 15 &&& 0x30) >>> 4
  | .temprange => (b 15 &&& 0x04) >>> 2

/-- The local that is stored for a part: a `double` for a temperature, or else one byte. -/
def SpaPart.word (tscale : BitVec 8) (b : Nat → BitVec 8) (k : SpaPart) : Word :=
  if k = .curtemp ∨ k = .settemp then .dbl (if tscale ≠ 0 then (k.value b).toNat / 2 else (k.value b).toNat)
  else .raw ((k.value b).setWidth 64)

/-- One part of a status; `upd` says that the scale has changed. -/
def storePart (b : Nat → BitVec 8) (upd : Bool) (s : Spa) (k : SpaPart) (d : SpaDev) : Spa :=
  let dev := storeDataDev F .data (k.word s.spacfg.tscale b) d.dev
  let dev := if upd = true ∧ (k = .curtemp ∨ k = .settemp) then { dev with scale := s.spacfg.tscale } else dev
  let s := { s with devices := Function.update s.devices (k.uid s.macSuffix) (some { d with dev }) }
  if k = .temprange then { s with spacfg := { s.spacfg with trange := k.value b != 0 } } else s

/-- The parts of a status, up to one whose device is missing; then the result is false. -/
def storeParts (b : Nat → BitVec 8) (upd : Bool) : List SpaPart → Spa → Spa × Bool
  | [], s => (s, true)
  | k :: ks, s =>
    match s.devices (k.uid s.macSuffix) with
    | none => (s, false)
    | some d => storeParts b upd ks (storePart F b upd s k d)

/-- The 23 bytes that a status is compared by. -/
def statusBytes (data : List (BitVec 8)) : List (BitVec 8) := (data.drop 6).take 23

/-- The scale that a status announces. -/
def statusTscale (b : Nat → BitVec 8) : BitVec 8 := if b 14 &&& 0x01 ≠ 0 then 1 else 0

/-- `parse_status_update`, with its result. -/
def parseStatusUpdate (data : List (BitVec 8)) (s : Spa) : Except SpaFault (Spa × Bool) :=
  let b := fun k => data.getD k 0
  if s.devicesReady = false then
    if data.length < 16 then .error .readBeyond
    else
      let spacfg := { s.spacfg with tscale := statusTscale b, trange := b 15 &&& 0x04 != 0, cfgdoneStatus := true }
      .ok (initBalboaDevs conf { s with spacfg }, true)
  else if data.length < 29 then .error .readBeyond
  else if s.prevStat = statusBytes data then .ok (s, false)
  else
    let upd := statusTscale b != s.spacfg.tscale
    let s := { s with spacfg := { s.spacfg with tscale := statusTscale b } }
    let r := storeParts F b upd (statusOrder.filter fun k => k.installed s.spacfg) s
    if r.2 then .ok ({ r.1 with prevStat := statusBytes data }, false) else .ok (r.1, true)

/-! ## Frames -/

/-- `BALBOA_MTYPES` -/
inductive Bmt
  | statusUpdate | filterConfig | configReq | configResp | filterReq | controlReq | setTemp | setTime | setWifi | panelReq
  | setTscale | panelResp | panelNoclue1 | panelNoclue2
deriving Repr, DecidableEq

/-- `mtypes` -/
def mtypes : List (BitVec 8 × BitVec 8 × BitVec 8 × Bmt) :=
  [(0xFF, 0xAF, 0x13, .statusUpdate), (0x0A, 0xBF, 0x23, .filterConfig), (0x0A, 0xBF, 0x04, .configReq),
    (0x0A, 0xBF, 0x94, .configResp), (0x0A, 0xBF, 0x22, .filterReq), (0x0A, 0xBF, 0x11, .controlReq),
    (0x0A, 0xBF, 0x20, .setTemp), (0x0A, 0xBF, 0x21, .setTime), (0x0A, 0xBF, 0x92, .setWifi), (0x0A, 0xBF, 0x22, .panelReq),
    (0x0A, 0xBF, 0x27, .setTscale), (0x0A, 0xBF, 0x2E, .panelResp), (0x0A, 0xBF, 0x24, .panelNoclue1),
    (0x0A, 0xBF, 0x25, .panelNoclue2)]

/-- A byte of a message. -/
def readAt (data : List (BitVec 8)) (k : Nat) : Except SpaFault (BitVec 8) :=
  match data[k]? with
  | some b => .ok b
  | none => .error .readBeyond

/-- The comparison of a message with a type, which stops at the first difference. -/
def isMtype (data : List (BitVec 8)) (t : BitVec 8 × BitVec 8 × BitVec 8 × Bmt) : Except SpaFault Bool := do
  if (← readAt data 2) ≠ t.1 then return false
  if (← readAt data 3) ≠ t.2.1 then return false
  return (← readAt data 4) = t.2.2.1

/-- `find_balboa_mtype` -/
def findBalboaMtype (data : List (BitVec 8)) :
    List (BitVec 8 × BitVec 8 × BitVec 8 × Bmt) → Except SpaFault (Option Bmt)
  | [] => .ok none
  | t :: ts => do
    if ← isMtype data t then return some t.2.2.2
    findBalboaMtype data ts

/-- What `balboa_buf_read_cb` does with a message, and what it sends. -/
inductive SpaOut
  /-- A call of `balboa_calc_cs` with a length, on a message of which some bytes have come in. -/
  | check (len : Int) (received : Nat)
  /-- A message with the right checksum. -/
  | dispatch (data : List (BitVec 8))
  /-- `send_config_req` -/
  | configReq
deriving Repr, DecidableEq

/-- A dispatched message; `stale` says that nothing was heard for a while, and `j` is what the local holds that only a status sets. -/
def balboaDispatch (stale j : Bool) (data : List (BitVec 8)) (s : Spa) : Except SpaFault (Spa × List SpaOut) := do
  let wake := fun j : Bool => if stale && j then [SpaOut.configReq] else []
  match ← findBalboaMtype data mtypes with
  | none => return (s, [])
  -- A response, and a status when the devices are ready, was heard just now.
  | some .configResp => return (← parseConfigResp conf data s, [])
  | some .panelResp => return (← parsePanelConfigResp conf data s, [])
  | some .statusUpdate =>
    let r ← parseStatusUpdate F conf data s
    return (r.1, if s.devicesReady then [] else wake r.2)
  | some _ => return (s, wake j)

/-- `balboa_buf_read_cb`; a message that has not come in whole is filled up with zeros. What it does is kept also where it ends in
a fault. -/
def balboaBufReadCb (stale j : Bool) (s : Spa) : List SpaOut × Except SpaFault (Spa × List SpaOut) :=
  match s.input with
  | h :: n :: _ =>
    if h ≠ 0x7e then ([], .ok (s, []))
    else
      let rlen := n.toNat + 2
      let data := (s.input.take rlen) ++ List.replicate (rlen - s.input.length) 0
      let s' := { s with input := s.input.drop rlen }
      let checked := SpaOut.check ((rlen : Int) - 3) (min s.input.length rlen)
      if rlen < 3 then ([checked], .error .negativeLength)
      else if balboaCalcCs ((data.drop 1).take (rlen - 3)) ≠ data.getD (rlen - 2) 0 then ([checked], .ok (s', []))
      else ([checked, .dispatch data], balboaDispatch F conf stale j data s')
  | _ => ([], .ok (s, []))

/-! ## Pushing buttons -/

/-- A message with the code of a button. -/
def controlReq (code : BitVec 8) : List (BitVec 8) :=
  [0x7e, 7, 0x0a, 0xbf, 0x11, code, 0x00, balboaCalcCs [7, 0x0a, 0xbf, 0x11, code, 0x00], 0x7e]

/-- How often a button is pushed that goes through some states in turn. -/
def pushes (states : Nat) (curval : BitVec 8) (state : Int) : Nat :=
  ((List.range states).find? fun iter => decide (state = ((curval.toNat + iter) % states : Nat))).getD states

/-- The byte that `get_data_dev` reads of a device. -/
def curval (d : SpaDev) : BitVec 8 := ((getDataDev F d.dev .data (.raw 0)).bits F).setWidth 8

/-- The pump whose locator it is. -/
def pumpOfLoc (loc : Str) : Option (Fin 6) := (List.finRange 6).find? fun i => decide (loc = str "p" ++ padNat 2 i)

/-- `coll_chg_switch_cb`: the messages to the spa. -/
def collChgSwitchCb (d : SpaDev) (state : Int) : List (List (BitVec 8)) :=
  match d.loc with
  | none => []
  | some loc =>
    if ((curval F d).toNat : Int) = state then []
    else if loc = str "l0" then [controlReq 0x11]
    else if loc = str "l1" then [controlReq 0x12]
    else
      match pumpOfLoc loc with
      | some i => List.replicate (pushes 3 (curval F d) state) (controlReq (0x04 + BitVec.ofNat 8 i))
      | none =>
        if loc = str "hm" then [controlReq 0x51]
        else if loc = str "tr" then [controlReq 0x50]
        else if loc = str "a0" then [controlReq 0x16]
        else if loc = str "a1" then [controlReq 0x17]
        else if loc = str "mi" then [controlReq 0x0e]
        else if loc = str "bl" then List.replicate (pushes 4 (curval F d) state) (controlReq 0x0c)
        else []

end Gnhast.Balboacoll
