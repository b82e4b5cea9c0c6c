import Gnhast.Collcmd
import Gnhast.Cmdhandler

/-!
# The JSON event stream collector

`jsoncgicoll/collector.c`: the callbacks that print devices and alarms as events of a stream to standard output. Each `printf` stands as
one string with its conversions filled in; what a callback prints is the whole of it.
-/

namespace Gnhast.Jsoncgicoll

open CStr

/-- The size of the buffer of `print_data_dev`. -/
def printBufSize : Nat := 256

/-- The alarm channels when all flags are set. -/
def allFlagsSet : BitVec 32 := 0xffffffff#32

variable (F : Doubles)

/-- `print_data_dev` for a device that is there. -/
def printDataDev (dev : Device) (loc : DataLoc) : Except Fault Str := sprintf printBufSize (printData F dev loc id)

/-- The members of a device, which the dump and the update print alike, up to the closing brace. -/
def printDev (dev : Device) (buf : Str) : Str :=
  str "\"uid\" : \"" ++ dev.uid ++ str "\", " ++
  (str "\"type\" : \"" ++ fmtByte dev.type ++ str "\", ") ++
  (str "\"subt\" : \"" ++ fmtByte dev.subtype ++ str "\", ") ++
  (str "\"value\" : \"" ++ buf ++ str "\" \x7d")

/-- The devices of `json_dump_all` behind `count` others. -/
def dumpDevs (count : Nat) : List Device → Except Fault Str
  | [] => .ok []
  | dev :: devs => do
    let lead := if count ≠ 0 then str "data: , \x7b" else str "data: \x7b"
    let buf ← printDataDev F dev .data
    let rest ← dumpDevs (count + 1) devs
    .ok (lead ++ printDev dev buf ++ [chLf] ++ rest)

/-- `json_dump_all` of the devices of the table. -/
def jsonDumpAll (alldevs : List Device) : Except Fault Str := do
  let devs ← dumpDevs F 0 alldevs
  .ok (str "data: [" ++ [chLf] ++ devs ++ (str "data: ]" ++ [chLf, chLf]))

/-- The devices `coll_upd_cb` prints. -/
def isSwitch (dev : Device) : Bool := dev.devType = .switch || dev.devType = .dimmer || dev.devSubtype = .switch

/-- `coll_upd_cb`. -/
def collUpdCb (dev : Device) : Except Fault Str :=
  if isSwitch dev then do
    let buf ← printDataDev F dev .data
    .ok (str "data: [ " ++ (str "\x7b" ++ printDev dev buf ++ str " ") ++ (str " ]" ++ [chLf, chLf]))
  else .ok []

/-- `coll_alarm_cb`: without an alarm it was cleared. -/
def collAlarmCb (alarm : Option Alarm) (aluid : Str) : Str :=
  match alarm with
  | none =>
    str "data: [ " ++ (str "\x7b\"aluid\" : \"" ++ aluid ++ str "\", ") ++ str "\"altext\" : \"\", \"alsev\" : \"0\", " ++
      (str "\"alchan\" : \"" ++ fmtU allFlagsSet ++ str "\" \x7d ]" ++ [chLf, chLf])
  | some alarm =>
    str "data: [ " ++ (str "\x7b\"aluid\" : \"" ++ alarm.aluid ++ str "\", ") ++ (str "\"altext\" : \"" ++ alarm.altext ++ str "\", ") ++
      (str "\"alsev\" : \"" ++ fmtD alarm.alsev ++ str "\", ") ++
      (str "\"alchan\" : \"" ++ fmtU alarm.alchan ++ str "\" \x7d ]" ++ [chLf, chLf])

end Gnhast.Jsoncgicoll
