import Gnhast.Insteon
import Gnhast.Gncoll

/-!
# The Insteon collector

What `insteoncoll/collector.c` does with a standard message that the PLM has received. The records of the devices are kept by number;
`devices` and `devgroups` are the trees of the library, the second with the members of each group. What the collector writes to
gnhastd is kept beside the device it is about. Left out are the log, the time of the last answer, and the sizes of the buffers for
texts.
-/

namespace Gnhast.Insteon

open CStr

def stdcmdGetvers : Octet := 0x0D
def stdcmdPing : Octet := 0x0F
def stdcmdOn : Octet := 0x11
def stdcmdFaston : Octet := 0x12
def stdcmdOff : Octet := 0x13
def stdcmdFastoff : Octet := 0x14
def stdcmdManualdimstop : Octet := 0x18

def protoInsteonV1 : Octet := 1
def protoInsteonV2 : Octet := 2

/-- The state of the collector. -/
structure Coll where
  dev : DevId → PlmDevice
  devices : Str → Option DevId := fun _ => none
  devgroups : Str → Option (List DevId) := fun _ => none
  plm : Plm := {}
  needQuery : Nat := 0
  upds : List (DevId × Str) := []

/-- A change to one device. -/
def Coll.modDev (coll : Coll) (d : DevId) (f : PlmDevice → PlmDevice) : Coll :=
  { coll with dev := Function.update coll.dev d (f (coll.dev d)) }

/-- `%0.2X` of a byte. -/
def hex2 (o : Octet) : Str :=
  [(str "0123456789ABCDEF").getD (o.toNat / 16) 0, (str "0123456789ABCDEF").getD (o.toNat % 16) 0]

/-- `addr_to_string`. -/
def addrToString (addr : Vector Octet 3) : Str := hex2 (getElem addr 0 addrAt0) ++ chDot :: hex2 (getElem addr 1 addrAt1) ++ chDot :: hex2 (getElem addr 2 addrAt2)

/-! ## Queries -/

/-- `plm_query_grouped_devices`. -/
def plmQueryGroupedDevices (d : DevId) (group : Octet) (coll : Coll) : Coll :=
  match coll.devgroups ((coll.dev d).loc ++ chMinus :: hex2 group) with
  | none => { coll with needQuery := coll.needQuery + 1 }
  | some members =>
    let query (q : Plm) (d : DevId) : Plm := plmEnqStd (coll.dev d) stdcmdStatusreq 0x00 (cmdqWaitack ||| cmdqWaitany) q
    { coll with plm := plmEnqWait 1 (members.foldl query (plmEnqWait 10 coll.plm)) }

/-- `plm_set_hops`. -/
def plmSetHops (flag : Octet) (dev : PlmDevice) : PlmDevice :=
  if dev.dd.hopflag ≠ 255 then dev
  else if flag &&& plmflagRemhop1 = 0 then
    if flag &&& plmflagRemhop2 = 0 then
      { dev with dd := { dev.dd with hopflag := plmflagsetStd3hops, hop_ok := by decide } }
    else { dev with dd := { dev.dd with hopflag := plmflagRemhop2 ||| plmflagMaxhop2, hop_ok := by decide } }
  else if flag &&& plmflagRemhop2 = 0 then
    { dev with dd := { dev.dd with hopflag := plmflagRemhop1 ||| plmflagMaxhop1, hop_ok := by decide } }
  else { dev with dd := { dev.dd with hopflag := 0, hop_ok := by decide } }

variable (F : Doubles)

/-! ## Storing -/

/-- `storelog_switch`. -/
def storelogSwitch (s : Octet) (dev : Device) : Device := storeDataDev F .data (.raw (s.setWidth 64)) dev

/-- `storelog_dimmer`. -/
def storelogDimmer (d : ℚ) (dev : Device) : Device := storeDataDev F .data (.dbl d) dev

/-- The state of a switch or the level of anything else. -/
def storelog (s : Octet) (d : ℚ) (dev : Device) : Device :=
  if dev.type = deviceSwitch then storelogSwitch F s dev else storelogDimmer F d dev

/-- A device stores a state or a level, and gnhastd is told. -/
def Coll.storeUpdate (coll : Coll) (d : DevId) (s : Octet) (level : ℚ) : Except Fault Coll :=
  let coll := coll.modDev d fun dev => { dev with dev := storelog F s level dev.dev }
  (gnUpdateDevice F (coll.dev d).dev gncNoscale).map fun line =>
    { coll with upds := coll.upds ++ line.toList.map fun text => (d, text) }

/-- The level that the second command byte says. -/
def levelOf (com2 : Octet) : ℚ := F.round (com2.toNat / 255)

/-! ## Standard messages -/

/-- The device that the answer to a status request is for: the one that was asked, or the one that answers when none is named. -/
def Coll.statusDevice (coll : Coll) (cmd : CmdQ) (d : DevId) : Option DevId :=
  match cmd.uid with
  | some uid => coll.devices uid
  | none => some d

/-- A message while a status request is at the head of the queue. -/
def plmHandleStatus (cmd : CmdQ) (d : DevId) (com2 : Octet) (coll : Coll) : Except Fault Coll :=
  match coll.statusDevice cmd d with
  | none => .ok coll
  | some d => coll.storeUpdate F d (if 0 < com2 then 1 else 0) (levelOf F com2)

/-- The device is asked again, or the devices of its group. -/
def Coll.maybeQuery (coll : Coll) (fromaddr : Vector Octet 3) (d : DevId) (group : Octet) : Coll :=
  let coll := { coll with plm := plmCheckProperDelay fromaddr coll.plm }
  if group ≠ 0 then plmQueryGroupedDevices d group coll else { coll with needQuery := coll.needQuery + 1 }

/-- The `switch` of `plm_handle_stdrecv`. -/
def plmHandleCom1 (fromaddr toaddr : Vector Octet 3) (flags com1 com2 : Octet) (d : DevId) (coll : Coll) : Except Fault Coll :=
  let group := if flags &&& plmflagGroup ≠ 0 ∧ flags &&& plmflagBroad ≠ 0 then (getElem toaddr 2 addrAt2) else 0
  let grouped := flags &&& plmflagGroup ≠ 0 ∧ com2 = 0
  if com1 = stdcmdGetvers then
    .ok (coll.modDev d fun dev => { dev with dev := { dev.dev with proto :=
      if com2 = 0x00 then protoInsteonV1 else if com2 = 0x01 then protoInsteonV2
      else if com2 = 0x02 ∨ com2 = 0xFF then protoInsteonV2cs else dev.dev.proto } })
  else if com1 = stdcmdPing then .ok { coll.modDev d (plmSetHops flags) with needQuery := coll.needQuery + 1 }
  else if com1 = stdcmdOn ∨ com1 = stdcmdFaston then
    (coll.storeUpdate F d (if grouped then 1 else com2) (if grouped then 100 else levelOf F com2)).map fun coll =>
      coll.maybeQuery fromaddr d group
  else if com1 = stdcmdOff ∨ com1 = stdcmdFastoff then
    (coll.storeUpdate F d (if grouped then 0 else com2) (if grouped then 0 else levelOf F com2)).map fun coll =>
      coll.maybeQuery fromaddr d group
  else if com1 = stdcmdManualdimstop then .ok (coll.maybeQuery fromaddr d group)
  else .ok coll

/-- `plm_handle_stdrecv`. -/
def plmHandleStdrecv (now : Int) (fromaddr toaddr : Vector Octet 3) (flags com1 com2 : Octet) (coll : Coll) : Except Fault Coll :=
  let coll := { coll with plm := plmcmdqCheckRecv now fromaddr toaddr com1 cmdqWaitdata coll.plm }
  match coll.devices (addrToString fromaddr) with
  | none => .ok coll
  | some d =>
    match coll.plm.cmdfifo.head?.filter fun cmd => (getElem cmd.cmd 6 cmdAt6) == stdcmdStatusreq with
    | some cmd => plmHandleStatus F cmd d com2 coll
    | none => plmHandleCom1 F fromaddr toaddr flags com1 com2 d coll

end Gnhast.Insteon
