import Gnhast.Gncoll
import Gnhast.Lib.Buffers
import Gnhast.Lib.Headers
import Gnhast.Lib.Rounds
import Gnhast.Lib.Scanf

/-!
# The alarm panel collector

`ad2usb_buf_read_cb` of `ad2usbcoll/collector.c` and the handlers of the three kinds of messages, with what they use of the devices, and
`maybe_dump_conf`, which builds the devices of the panel at the start. A local variable that was not assigned is `none`. Left out are the
log and the time that only `collector_is_ok` reads. `new_conf_from_dev` is left out too: a section it adds is one of a device that is known
from then on, and only the sections of unknown devices are read.
-/

namespace Gnhast.Ad2usbcoll

open CStr Faults Buffers

/-- What goes wrong in the read callback. -/
inductive PanelFault
  /-- NULL where a string is read. -/
  | nullString
  /-- A variable is used that was not assigned. -/
  | uninitialised
  /-- An access behind the end of a local variable. -/
  | beyond
  /-- An access to `zonefaults` behind its end or in front of it. -/
  | outOfBounds
  /-- A buffer is used that was freed. -/
  | freed
  /-- `LOG_FATAL` stops the collector. -/
  | fatal
deriving Repr, DecidableEq

def deviceSensor : BitVec 8 := 3
def protoSensorAd2usb : BitVec 8 := 8
def subtypeSwitch : BitVec 8 := 1
def subtypeAlarmstatus : BitVec 8 := 19

/-- `ALARMSTATUS_TYPES`. -/
def alarmReady : BitVec 32 := 0
def alarmStay : BitVec 32 := 1
def alarmNightstay : BitVec 32 := 2
def alarmInstantmax : BitVec 32 := 3
def alarmAway : BitVec 32 := 4
def alarmFault : BitVec 32 := 5

/-- What the collector is set up with: the prefix of its uids, the `zones` setting, and what the configuration file has of a device. -/
structure PanelConf where
  uidprefix : Str
  zones : BitVec 32
  newDevFromConf : Str → Option Device

/-- The globals: the devices by uid, the fault counters, `first_update`, and whether there is a server to tell. -/
structure Panel where
  devices : Str → Option Device
  zonefaults : List Int
  firstUpdate : Bool
  connected : Bool

/-- What the callback does, in order: an `int` is stored in a device, a line goes to gnhastd, keys go to the panel, or the configuration
file is written again. -/
inductive PanelOut
  | stored (uid : Str) (val : BitVec 32)
  | gnhastd (line : Str)
  | panel (keys : Str)
  | dumpConf
deriving Repr, DecidableEq

/-- `extratype`. -/
def extratype : List Str := [str "none", str "exp", str "rel"]

/-- `%0.Nd`: the digits filled with zeros to a number of places, behind the sign. -/
def fmtDigits (places : Nat) (v : BitVec 32) : Str :=
  if v.toInt < 0 then chMinus :: padNat places v.toInt.natAbs else padNat places v.toInt.natAbs

/-- `sprintf` to a buffer. -/
def intoBuffer (size : Nat) (text : Str) : Except PanelFault Str := if text.length < size then .ok text else .error .beyond

variable (F : Doubles) (conf : PanelConf)

/-! ## Devices with an `int` -/

/-- The uid with a suffix, in a buffer of 256 bytes. -/
def devUid (suffix : Str) : Except PanelFault Str := intoBuffer 256 (conf.uidprefix ++ chMinus :: suffix)

/-- `get_data_dev` to an `uint8_t` that was not assigned. -/
def getByte (dev : Device) : Except PanelFault (Option (BitVec 8)) :=
  match getMember dev.devType dev.devSubtype with
  | some .state => .ok (some ((dev.data.bits F).setWidth 8))
  | none => .ok none
  | some _ => .error .beyond

/-- `store_data_dev` from an `int`. -/
def storeInt (val : BitVec 32) (dev : Device) : Except PanelFault Device :=
  match storeMember dev.devType dev.devSubtype with
  | some .ll | some .d => .error .beyond
  | _ => .ok (storeDataDev F .data (.raw (val.setWidth 64)) dev)

/-- `gn_update_device` in the native scale. -/
def updateLine (dev : Device) : Except PanelFault (List PanelOut) :=
  match gnUpdateDevice F dev gncNoscale with
  | .ok line => .ok (line.map .gnhastd).toList
  | .error _ => .error .nullString

/-- gnhastd is told of a device that was built, when there is a connection. -/
def announce (connected : Bool) (dev : Device) : Except PanelFault (List PanelOut) :=
  if connected then (updateLine F dev).map fun update => ((gnRegisterDevice dev).map .gnhastd).toList ++ update else .ok []

/-- `new_int_dev`. -/
def newIntDev (subtype : BitVec 8) (val : BitVec 32) (suffix : Str) (s : Panel) : Except PanelFault (Panel × List PanelOut) := do
  let buf ← devUid conf suffix
  let dev := (conf.newDevFromConf buf).getD { uid := buf, type := deviceSensor, proto := protoSensorAd2usb, subtype := subtype }
  let dev ← storeInt F val dev
  (announce F s.connected dev).map fun out =>
    ({ s with devices := Function.update s.devices buf (some dev) }, .stored buf val :: out)

/-- gnhastd is told of a device with a name when its value changed, or is the first. -/
def sendChange (prevval : Option (BitVec 8)) (val : BitVec 32) (first send : Bool) (dev : Device) : Except PanelFault (List PanelOut) :=
  match dev.name, prevval with
  | none, _ => .ok []
  | some _, none => .error .uninitialised
  | some _, some prevval => if (prevval.setWidth 32 ≠ val ∨ first) ∧ send then updateLine F dev else .ok []

/-- `update_int_dev`. -/
def updateIntDev (val : BitVec 32) (suffix : Str) (send : Bool) (s : Panel) : Except PanelFault (Panel × List PanelOut) := do
  let buf ← devUid conf suffix
  match s.devices buf with
  | none => .error .fatal
  | some dev => do
    let prevval ← getByte F dev
    let dev ← storeInt F val dev
    (sendChange F prevval val s.firstUpdate send dev).map fun out =>
      ({ s with devices := Function.update s.devices buf (some dev) }, .stored buf val :: out)

/-- A device is updated if it is known. -/
def updateKnown (val : Option (BitVec 32)) (suffix : Str) (s : Panel) : Except PanelFault (Panel × List PanelOut) := do
  let buf2 ← devUid conf suffix
  match s.devices buf2 with
  | none => .ok (s, [])
  | some _ =>
    match val with
    | none => .error .uninitialised
    | some val => updateIntDev F conf val suffix true s

/-- The suffix of the uid of a zone. -/
def zoneName (z : Int) : Str := str "zone" ++ decInt z

/-- The devices of a panel, with their subtypes and first values. -/
def panelDevices (zones : Nat) : List (Str × BitVec 8 × BitVec 32) :=
  (List.range zones).map (fun i => (zoneName (i + 1), subtypeSwitch, 0)) ++
    [(str "status", subtypeAlarmstatus, 0), (str "lowbat", subtypeSwitch, 0), (str "acpower", subtypeSwitch, 1),
      (str "fire", subtypeSwitch, 1)]

/-- A device of the panel is built if it is not known. -/
def buildRound (d : Str × BitVec 8 × BitVec 32) (s : Panel) : Except PanelFault (Panel × List PanelOut) := do
  let buf ← intoBuffer 16 d.1
  let buf2 ← devUid conf buf
  match s.devices buf2 with
  | none => newIntDev F conf d.2.1 d.2.2 buf s
  | some _ => .ok (s, [])

/-- `maybe_dump_conf`, when no configuration file is asked for. -/
def maybeDumpConf (zones : Nat) : Panel → Except PanelFault (Panel × List PanelOut) :=
  rounds (buildRound F conf) (panelDevices zones)

/-! ## Messages of expanders and relays -/

/-- The `int`s that `sscanf` assigns from a list with commas between them. -/
def scanInts : Nat → Str → List (BitVec 32)
  | 0, _ => []
  | n + 1, s =>
    match scanD s with
    | none => []
    | some (v, c :: s) => v :: (if c = chComma then scanInts n s else [])
    | some (v, []) => [v]

/-- `type`, from the first token. -/
def extraKind (p : Option Str) : Option Nat :=
  match p with
  | none => none
  | some p => if p ≠ str "!EXP" then some 1 else if p ≠ str "!REL" then some 2 else none

/-- The suffix of the uid of an input of an expander, or of a relay. -/
def extraName (kind : Str) (addr input : BitVec 32) : Str :=
  kind ++ chMinus :: fmtDigits 2 addr ++ chMinus :: fmtDigits 2 input

/-- The device of an expander or a relay is updated, and built before if it is not known. -/
def setExtra (suffix : Str) (val : BitVec 32) (s : Panel) : Except PanelFault (Panel × List PanelOut) := do
  let buf ← intoBuffer 32 suffix
  let buf2 ← devUid conf buf
  match s.devices buf2 with
  | none => do
    let r ← newIntDev F conf subtypeSwitch val buf s
    (updateIntDev F conf val buf true r.1).map fun r' => (r'.1, r.2 ++ .dumpConf :: r'.2)
  | some _ => updateIntDev F conf val buf true s

/-- `ad2usb_handle_exp`. -/
def ad2usbHandleExp (data : Str) (len : Nat) (s : Panel) : Except PanelFault (Panel × List PanelOut) :=
  if len < 10 then .ok (s, [])
  else
    match (strtok chColon data)[1]? with
    | none => .ok (s, [])
    | some p =>
      match extraKind (strtok chColon data)[0]?, scanInts 3 p with
      | some type, [addr, input, val] => setExtra F conf (extraName (extratype.getD type []) addr input) val s
      | _, _ => .error .uninitialised

/-! ## Messages of wireless devices -/

/-- The bits of the four loops in a message. -/
def loops : List (Nat × BitVec 8) := [(1, 0x80), (2, 0x20), (3, 0x10), (4, 0x40)]

/-- The bit of a low battery. -/
def lowbatBit : BitVec 8 := 0x02

/-- The suffixes of the uids of a wireless device, with their bits. -/
def rfxNames (serial : BitVec 32) : List (Str × BitVec 8) :=
  loops.map (fun l => (fmtDigits 7 serial ++ str "-l" ++ decNat l.1, l.2)) ++ [(fmtDigits 7 serial ++ str "-lowbat", lowbatBit)]

/-- The value of a bit of the message. -/
def bitVal (msg bit : BitVec 8) : BitVec 32 := if msg &&& bit ≠ 0 then 1 else 0

/-- One device of `ad2usb_handle_rfx`. -/
def rfxRound (msg : Option (BitVec 8)) (d : Str × BitVec 8) (s : Panel) : Except PanelFault (Panel × List PanelOut) := do
  let buf ← intoBuffer 32 d.1
  updateKnown F conf (msg.map (bitVal · d.2)) buf s

/-- `%hhx` behind a comma. -/
def scanMsg : Str → Option (BitVec 8)
  | c :: s => if c = chComma then (scanX s).map (·.1.setWidth 8) else none
  | [] => none

/-- `ad2usb_handle_rfx`. -/
def ad2usbHandleRfx (data : Str) (len : Nat) (s : Panel) : Except PanelFault (Panel × List PanelOut) :=
  if len ≠ 15 then .ok (s, [])
  else
    match (strtok chColon data)[1]? with
    | none => .ok (s, [])
    | some p =>
      match scanD p with
      | none => .error .uninitialised
      | some (serial, rest) => rounds (rfxRound F conf (scanMsg rest)) (rfxNames serial) s

/-! ## Messages of the panel itself -/

def hitStar : Str := str "Hit * for faults"

/-- The byte at a place of the first section. -/
def bitIs (p : Str) (i : Nat) (c : Byte) : Bool := p[i]? = some c

/-- No mode is on, and the panel does not ask for a key: a zone is faulted. -/
def stdFault (p : Str) (hit : Bool) : Bool :=
  bitIs p 1 48 && bitIs p 2 48 && bitIs p 3 48 && bitIs p 13 48 && bitIs p 16 48 && !hit

/-- The update of a device that follows one bit. -/
def bitUpdate (p : Str) (i : Nat) (suffix : Str) : List (Str × BitVec 32) :=
  if bitIs p i 49 then [(suffix, 1)] else if bitIs p i 48 then [(suffix, 0)] else []

/-- The updates for the first section. -/
def stdUpdates (p : Str) (hit : Bool) : List (Str × BitVec 32) :=
  (if bitIs p 1 49 then [(str "status", alarmReady)]
    else if bitIs p 2 49 then [(str "status", alarmAway)]
    else if bitIs p 3 49 then [(str "status", alarmStay)]
    else if bitIs p 13 49 then [(str "status", alarmInstantmax)]
    else if bitIs p 16 49 then [(str "status", alarmNightstay)] else []) ++
  (if stdFault p hit then [(str "status", alarmFault)] else []) ++
  bitUpdate p 8 (str "acpower") ++ bitUpdate p 12 (str "lowbat") ++ bitUpdate p 12 (str "fire")

/-- An assignment to an entry of `zonefaults`. -/
def setFaults (zonefaults : List Int) (i : Int) (v : Int) : Except PanelFault (List Int) :=
  if 0 ≤ i ∧ i < zonefaults.length then .ok (zonefaults.set i.toNat v) else .error .outOfBounds

/-- How often a loop over the zones runs. -/
def PanelConf.count : Nat := conf.zones.toInt.toNat

/-- The number of zones that are faulted now. -/
def countFaults (s : Panel) : Except PanelFault Nat :=
  if conf.count ≤ s.zonefaults.length then .ok ((s.zonefaults.take conf.count).countP (0 < ·)) else .error .outOfBounds

/-- The second section, when a zone is faulted; `data` ends where the first section does. -/
def faultZone (data : Str) (val : Option (BitVec 32)) (s : Panel) : Except PanelFault (Panel × List PanelOut) := do
  let zf ← countFaults conf s
  match val with
  | none => .error .uninitialised
  | some val => do
    let buf ← intoBuffer 16 (zoneName val.toInt)
    if val = 8 ∧ (strstr (str "FAULT ") data).isSome then .ok (s, [])
    else do
      let r ← updateIntDev F conf 1 buf true s
      (setFaults r.1.zonefaults (val.toInt - 1) (zf + 3)).map fun zonefaults => ({ r.1 with zonefaults := zonefaults }, r.2)

/-- One zone, when all faults are cleared. -/
def clearRound (i : Nat) (s : Panel) : Except PanelFault (Panel × List PanelOut) := do
  let zonefaults ← setFaults s.zonefaults i 0
  let buf ← intoBuffer 16 (zoneName (i + 1))
  updateKnown F conf (some 0) buf { s with zonefaults := zonefaults }

/-- What is done with the second section. -/
def sectionTwo (p : Str) (hit : Bool) (p2 : Str) (s : Panel) : Except PanelFault (Panel × List PanelOut) :=
  if stdFault p hit then faultZone F conf p ((scanD p2).map (·.1)) s
  else if hit then .ok (s, []) else rounds (clearRound F conf) (List.range conf.count) s

/-- The keys sent to the panel: the buffer is freed once it has been written. -/
def sendKeys (fault hit : Bool) : Except PanelFault (List PanelOut) :=
  if hit then if fault then .error .freed else .ok [.panel (str "*" ++ [chLf])]
  else .ok (if fault then [.panel [chLf]] else [])

/-- `ad2usb_handle_std`. -/
def ad2usbHandleStd (data : Str) (s : Panel) : Except PanelFault (Panel × List PanelOut) :=
  let hit := (strcasestr hitStar data).isSome
  match strtok chComma data with
  | [] => .error .nullString
  | p :: sections =>
    if p.length < 22 then .ok (s, [])
    else do
      let r ← rounds (fun u s => updateIntDev F conf u.2 u.1 true s) (stdUpdates p hit) s
      match sections with
      | [] => .error .nullString
      | p2 :: sections => do
        let r' ← sectionTwo F conf p hit p2 r.1
        match sections[1]? with
        | none => .error .nullString
        | some p4 => (sendKeys (stdFault p hit) (strcasestr hitStar p4).isSome).map fun out => (r'.1, r.2 ++ r'.2 ++ out)

/-! ## The read callback -/

/-- One line: `data` is the string that the bytes of the line hold, and `len` how many they are. -/
def handleData (line : Str) (s : Panel) : Except PanelFault (Panel × List PanelOut) :=
  let data := cstr line
  let len := line.length
  if 2 < len ∧ line.head? = some 91 then ad2usbHandleStd F conf data s
  else if (strstr (str "!RFX:") data).isSome then ad2usbHandleRfx F conf data len s
  else if (strstr (str "!EXP:") data).isSome ∨ (strstr (str "!REL:") data).isSome then ad2usbHandleExp F conf data len s
  else .ok (s, [])

/-- One zone, when its fault counter is decremented. -/
def decrementRound (i : Nat) (s : Panel) : Except PanelFault (Panel × List PanelOut) :=
  match s.zonefaults[i]? with
  | none => .error .outOfBounds
  | some j =>
    let k := if 0 < j then j - 1 else j
    let s := { s with zonefaults := s.zonefaults.set i k }
    if k = 0 ∧ 0 < j then do
      let buf ← intoBuffer 16 (zoneName (i + 1))
      updateKnown F conf (some 0) buf s
    else .ok (s, [])

/-- The lines the loop handles: an empty one ends it. -/
def handled (lines : List Str) : List Str := lines.takeWhile fun line => !line.isEmpty

/-- `ad2usb_buf_read_cb`, with the lines that are in the buffer. -/
def ad2usbBufReadCb (lines : List Str) (s : Panel) : Except PanelFault (Panel × List PanelOut) := do
  let r ← rounds (handleData F conf) (handled lines) s
  if handled lines = [] then .ok r
  else (rounds (decrementRound F conf) (List.range conf.count) r.1).map fun r' => ({ r'.1 with firstUpdate := false }, r.2 ++ r'.2)

end Gnhast.Ad2usbcoll
