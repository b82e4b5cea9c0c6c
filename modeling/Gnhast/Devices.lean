import Gnhast.Netparser

/-!
# Devices and groups in memory

The functions of `devices.c`: reading and storing the data of a device, watermarks, handler arguments and tags, and the lists
that hold devices, clients and groups. Locals whose address the C code passes on are words: a read of a narrow member
leaves the rest of the local as it was.
-/

namespace Gnhast

open CStr

variable (F : Doubles)

/-! ## Data -/

/-- The member a subtype's data lies in, for the types that go by subtype. -/
def subtypeMember : DevSubtype → Option Member
  | .trigger => some .count
  | .orp | .salinity | .moonph => some .d
  | .temp | .humid | .percentage => some .d
  | .timer | .counter => some .count
  | .pressure | .speed | .dir | .ph | .wetness | .lux => some .d
  | .wattsec => some .ll
  | .voltage | .watt | .amps | .rainrate => some .d
  | .switch | .weather | .alarmstatus | .thmode | .thstate | .smnumber | .collector | .blind | .daylight | .tristate =>
    some .state
  | .number => some .ll
  | .flowrate | .distance | .volume => some .d
  | .none | .outlet | .hub | .bool | .other => none

/-- The subtypes whose readings have scales. -/
def Scalable (st : DevSubtype) : Prop := st = .temp ∨ st = .pressure ∨ st = .speed ∨ st = .rainrate ∨ st = .lux

instance (st : DevSubtype) : Decidable (Scalable st) := inferInstanceAs (Decidable (_ ∨ _))

/-- The member `get_data_dev` reads. -/
def getMember : DevType → DevSubtype → Option Member
  | .switch, _ => some .state
  | .dimmer, _ => some .d
  | .sensor, st | .timer, st => subtypeMember st
  | .none, _ | .blind, _ | .other, _ => none

/-- The member `store_data_dev` writes. -/
def storeMember : DevType → DevSubtype → Option Member
  | .switch, _ => some .state
  | .dimmer, _ => some .d
  | .sensor, st | .timer, st | .blind, st => subtypeMember st
  | .none, _ | .other, _ => none

/-- The word at a location. -/
def Device.store (dev : Device) : DataLoc → Word
  | .data => dev.data
  | .last => dev.last
  | .lowat => dev.lowat
  | .hiwat => dev.hiwat
  | .change => dev.change

/-- Writing the word at a location. -/
def Device.setStore (dev : Device) (loc : DataLoc) (w : Word) : Device :=
  match loc with
  | .data => { dev with data := w }
  | .last => { dev with last := w }
  | .lowat => { dev with lowat := w }
  | .hiwat => { dev with hiwat := w }
  | .change => { dev with change := w }

/-- `get_data_dev` into a local that holds `data` before. -/
def getDataDev (dev : Device) (loc : DataLoc) (data : Word) : Word :=
  match getMember dev.devType dev.devSubtype with
  | some m => data.assign F m (dev.store loc)
  | none => data

/-- `store_data_dev`: storing current data keeps the data before as `last`. -/
def storeDataDev (loc : DataLoc) (data : Word) (dev : Device) : Device :=
  let dev := if loc = .data then { dev with last := dev.data, nodata := false } else dev
  match storeMember dev.devType dev.devSubtype with
  | some m => dev.setStore loc ((dev.store loc).assign F m data)
  | none => dev

/-- The datatype of a subtype, for the types that go by subtype. -/
def subtypeDatatype : DevSubtype → DataType
  | .switch | .timer | .counter | .outlet | .weather | .alarmstatus | .thmode | .thstate | .smnumber | .collector | .blind
  | .daylight | .trigger | .tristate => .uint
  | .wattsec | .number => .ll
  | _ => .double

/-- `datatype_dev`. -/
def datatypeDev (dev : Device) : DataType :=
  if dev.devType = .dimmer then .double else subtypeDatatype dev.devSubtype

/-- The outcome of the comparisons of `device_watermark`: without marks 2; else below, above or neither, and when the handler
is not spammed only for data that were on the other side before. -/
def watermarkResult (nomark below above wasAbove wasBelow spam : Bool) : Int :=
  if nomark then 2
  else if spam then (if below then -1 else if above then 1 else 0)
  else if below && wasAbove then -1
  else if above && wasBelow then 1
  else 0

/-- `device_watermark`, on a stack with the given contents. -/
def deviceWatermark (stack : DataLoc → Word) (dev : Device) : Int :=
  let get := fun loc => getDataDev F dev loc (stack loc)
  if dev.changehandler then
    match datatypeDev dev with
    | .uint => if (get .data).uint F ≠ (get .last).uint F then 1 else 0
    | .ll => if (get .data).int64 F ≠ (get .last).int64 F then 1 else 0
    | .double => if (get .data).double F ≠ (get .last).double F then 1 else 0
  else
    match datatypeDev dev with
    | .uint =>
      let lwu := ((get .lowat).uint F).toNat
      let hwu := ((get .hiwat).uint F).toNat
      let du := ((get .data).uint F).toNat
      let pdu := ((get .last).uint F).toNat
      watermarkResult (lwu == 0 && hwu == 0) (du < lwu) (du > hwu) (pdu > lwu) (pdu < hwu) dev.spamhandler
    | .ll =>
      let lwj := ((get .lowat).int64 F).toInt
      let hwj := ((get .hiwat).int64 F).toInt
      let dj := ((get .data).int64 F).toInt
      let pdj := ((get .last).int64 F).toInt
      watermarkResult (lwj == 0 && hwj == 0) (dj < lwj) (dj > hwj) (pdj > lwj) (pdj < hwj) dev.spamhandler
    | .double =>
      let lwd := (get .lowat).double F
      let hwd := (get .hiwat).double F
      let dd := (get .data).double F
      let pdd := (get .last).double F
      watermarkResult (lwd == 0 && hwd == 0) (dd < lwd) (dd > hwd) (pdd > lwd) (pdd < hwd) dev.spamhandler

/-! ## Handler arguments and tags -/

/-- `free` of a pointer to an array: NULL may be freed, a freed block may not. -/
def Arr.free {α : Type} : Arr α → List Out
  | .null => []
  | .block _ => []
  | .freed => [.badFree]

/-- A pointer that was freed and not set anew. -/
def Arr.dangling {α : Type} : Arr α → Arr α
  | .null => .null
  | .block _ => .freed
  | .freed => .freed

/-- `parse_hargs`. -/
def parseHargs (data : Str) (dev : Device) : Device × List Out :=
  if data = [] then ({ dev with hargs := dev.hargs.dangling }, dev.hargs.free)
  else ({ dev with hargs := .block (strtok chComma data) }, dev.hargs.free)

/-- Freeing the strings of the tags array. -/
def freeTags : List Tag → Except Fault (List Out)
  | [] => .ok []
  | .text _ :: tags => freeTags tags
  | .junk :: tags => (freeTags tags).map (fun out => .badFree :: out)
  | .unset :: _ => .error .uninitialised

/-- The slots for a list of tokens: an odd list is filled up. -/
def tagSlots (toks : List Str) : List Tag := toks.map .text ++ if toks.length % 2 = 1 then [.junk] else []

/-- `parse_tags`. -/
def parseTags (data : Str) (dev : Device) : Except Fault (Device × List Out) :=
  (freeTags dev.tags.items).map fun out =>
    if data = [] then
      -- the test is on the handler arguments
      if dev.hargs = .null then
        ({ dev with tags := match dev.tags with | .block _ => .block [] | t => t }, out)
      else ({ dev with tags := dev.tags.dangling }, out ++ dev.tags.free)
    else ({ dev with tags := .block (tagSlots (strtok chComma data)) }, out ++ dev.tags.free)

/-! ## Lists of devices, clients and groups -/

namespace Server

/-- `find_device_byuid`. -/
def findDeviceByUid (s : Server) (uid : Str) : Option DevId := s.devices uid

/-- `find_devgroup_byuid`. -/
def findDevgroupByUid (s : Server) (uid : Str) : Option GroupId := s.devgroups uid

/-- `add_wrapped_device`. -/
def addWrappedDevice (s : Server) (dev : DevId) (client : ClientId) (rate scale : BitVec 32) : Server :=
  s.modClient client fun c => { c with wdevices := c.wdevices ++ [{ dev := dev, rate := rate, scale := scale }] }

/-- `add_wrapped_client`. -/
def addWrappedClient (s : Server) (client : ClientId) (dev : DevId) : Server :=
  (s.modDev dev fun d => { d with watchers := d.watchers ++ [client] }).modClient client
    fun c => { c with watched := c.watched + 1 }

/-- `rb_tree_insert_node`: a node whose key is in the tree is not inserted. -/
def treeInsert (tree : Str → Option Nat) (key : Str) (node : Nat) : Str → Option Nat :=
  match tree key with
  | some _ => tree
  | none => Function.update tree key (some node)

/-- `insert_device`. -/
def insertDevice (s : Server) (dev : DevId) : Server :=
  let s := { s with devices := treeInsert s.devices (s.dev dev).uid dev, nrofdevs := s.nrofdevs + 1 }
  let s :=
    if (s.dev dev).onqAll then s
    else { s with alldevs := s.alldevs ++ [dev] }.modDev dev fun d => { d with onqAll := true }
  s.modDev dev fun d => { d with nodata := true }

/-- `new_devgroup`. -/
def newDevgroup (s : Server) (uid : Str) : Server × GroupId :=
  let g := s.nextGroup
  ({ s with
      group := Function.update s.group g { uid := uid }
      nextGroup := g + 1
      devgroups := treeInsert s.devgroups uid g
      allgroups := s.allgroups ++ [g] }, g)

/-- `add_dev_group`. -/
def addDevGroup (s : Server) (dev : DevId) (devgrp : GroupId) : Server :=
  { s with nextWrap := s.nextWrap + 1 }.modGroup devgrp
    fun g => { g with members := g.members ++ [WrapDevice.mk s.nextWrap dev] }

/-- `remove_dev_group`: the first entry for the device is removed. -/
def removeDevGroup (s : Server) (dev : DevId) (devgrp : GroupId) : Server :=
  s.modGroup devgrp fun g => { g with members := g.members.eraseP (fun w => w.dev = dev) }

/-- `add_group_group`. -/
def addGroupGroup (s : Server) (group1 group2 : GroupId) : Server :=
  ({ s with nextWrap := s.nextWrap + 1 }.modGroup group2
    fun g => { g with children := g.children ++ [WrapGroup.mk s.nextWrap group1] }).modGroup group1
    fun g => { g with subgroup := g.subgroup + 1 }

/-- `remove_group_group`: the first entry for the group is removed, if there is one. -/
def removeGroupGroup (s : Server) (group1 group2 : GroupId) : Server :=
  if (s.group group2).children.any (fun w => w.group = group1) then
    (s.modGroup group1 fun g => { g with subgroup := g.subgroup - 1 }).modGroup group2
      fun g => { g with children := g.children.eraseP (fun w => w.group = group1) }
  else s

/-- `dev_in_group`. -/
def devInGroup (s : Server) (dev : DevId) (devgrp : GroupId) : Bool :=
  (s.group devgrp).members.any (fun w => w.dev = dev)

/-- `group_in_group`. -/
def groupInGroup (s : Server) (grp devgrp : GroupId) : Bool :=
  (s.group devgrp).children.any (fun w => w.group = grp)

end Server

end Gnhast
