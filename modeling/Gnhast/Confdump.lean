import Gnhast.Confparser
import Gnhast.Lib.Keyed

/-!
# Writing the configuration

How `devconf_dump_cb` and `devgroupconf_dump_cb` bring the sections of the configuration in memory up to date and write them out,
and what `parse_conf` reads back. An option of a section that exists already is set in place, and a list index by index. The
server together with its configuration is a transition system of its own: a step is one of the server, or the timer that writes
the groups.
-/

namespace Gnhast

open CStr Keyed

/-! ## Values that are written as words -/

/-- `devtype_map`, `devproto_map` and `devsubtype_map`. -/
def devtypeMap : List Str :=
  [str "NONE", str "switch", str "dimmer", str "sensor", str "timer", str "blind"]

def devprotoMap : List Str :=
  [str "NONE", str "insteon-v1", str "insteon-v2", str "insteon-v2cs", str "sensor-owfs", str "brultech-gem",
   str "brultech-ecm1240", str "wmr918", str "ad2usb", str "icaddy", str "venstar", str "urtsi", str "collector",
   str "axiscamera", str "tuxedo", str "neptuneapex", str "calculated", str "balboa", str "generic", str "unused1",
   str "unused2", str "unused3", str "unused4", str "unused5", str "unused6", str "unused7", str "unused8", str "unused9",
   str "unused10", str "unused11", str "unused12", str "unused13", str "unused14", str "mains_switch", str "weather",
   str "sensor", str "sensor_indoor", str "sensor_outdoor", str "sensor_elec", str "poweruse", str "irrigation", str "entry",
   str "alarm", str "battery", str "camera", str "aquarium", str "solar", str "pool", str "waterheater", str "light", str "av",
   str "thermostat", str "settings", str "blind"]

def devsubtypeMap : List Str :=
  [str "NONE", str "switch", str "outlet", str "temp", str "humid", str "counter", str "pressure", str "windspeed", str "winddir",
   str "ph", str "wetness", str "hub", str "lux", str "voltage", str "wattsec", str "watt", str "amps", str "rainrate",
   str "weather", str "alarmstatus", str "number", str "percentage", str "flowrate", str "distance", str "volume", str "timer",
   str "thmode", str "thstate", str "smnumber", str "blind", str "collector", str "trigger", str "orp", str "salinity",
   str "daylight", str "moonph", str "tristate", str "bool"]

/-- `conf_validate_rrdname`. -/
def confValidateRrdname (value : Str) : Bool := decide (value.length ≤ 19) && value.all fun c => isalpha c || isdigit c || c == 95

/-! ## Sections -/

/-- `cfg_setnstr`: an index within a list is set, and the one behind it is appended. -/
def cfgSetnstr (opt : List Str) (value : Str) (index : Nat) : List Str :=
  if index < opt.length then opt.set index value else opt ++ [value]

/-- The loops that set a list option, from an index on. -/
def cfgSetList : List Str → List Str → Nat → List Str
  | [], opt, _ => opt
  | value :: values, opt, i => cfgSetList values (cfgSetnstr opt value i) (i + 1)

variable (F : Doubles)

/-- The watermark `new_conf_from_dev` sets, by the datatype of the device. -/
def confWater (dev : Device) (loc : DataLoc) : ℚ :=
  match datatypeDev dev with
  | .uint => ((getDataDev F dev loc (.raw 0)).uint F).toNat
  | .ll => F.round ((getDataDev F dev loc (.raw 0)).int64 F).toInt
  | .double => (getDataDev F dev loc (.dbl 0)).double F

/-- The scale that goes into a section, in the option of the subtype. -/
def DeviceConf.setScale (conf : DeviceConf) (dev : Device) : DeviceConf :=
  if dev.subtype = 0 ∨ dev.scale = 0 then conf
  else
    match dev.devSubtype with
    | .temp => { conf with tscale := dev.scale }
    | .speed => { conf with speedscale := dev.scale }
    | .pressure => { conf with baroscale := dev.scale }
    | .rainrate => { conf with lengthscale := dev.scale }
    | .lux => { conf with lightscale := dev.scale }
    | _ => conf

/-- `new_conf_from_dev` on the section of the device, with the strings of its tags. -/
def DeviceConf.update (conf : DeviceConf) (dev : Device) (tags : List Str) : DeviceConf :=
  let conf := { conf with
    name := dev.name.or conf.name, rrdname := dev.rrdname.or conf.rrdname, handler := dev.handler.or conf.handler
    hargs := cfgSetList dev.hargs.items conf.hargs 0, tags := cfgSetList tags conf.tags 0
    subtype := if dev.subtype = 0 then conf.subtype else dev.subtype }
  let conf := conf.setScale dev
  { conf with
    spamhandler := if dev.changehandler then 2 else if dev.spamhandler then 1 else 0
    type := if dev.type = 0 then conf.type else dev.type
    proto := if dev.proto = 0 then conf.proto else dev.proto
    lowat := confWater F dev .lowat, hiwat := confWater F dev .hiwat }

/-- `new_conf_from_dev`. -/
def newConfFromDev (sections : List DeviceConf) (dev : Device) : Except Fault (List DeviceConf) :=
  (readTags dev.tags.items).map fun tags =>
    upsert DeviceConf.title ({ title := dev.uid } : DeviceConf) (fun conf => conf.update F dev tags) sections

/-- The loops over a list of devices. -/
def newConfFromDevs (s : Server) : List DevId → List DeviceConf → Except Fault (List DeviceConf)
  | [], sections => .ok sections
  | d :: ds, sections => do
    let sections ← newConfFromDev F sections (s.dev d)
    newConfFromDevs s ds sections

/-- The sections after `devconf_dump_cb`, which goes over all devices, and `dump_conf`, which goes over them once more. -/
def dumpDevices (s : Server) (sections : List DeviceConf) : Except Fault (List DeviceConf) := do
  let sections ← newConfFromDevs F s s.alldevs sections
  newConfFromDevs F s (s.alldevs.filter fun d => (s.dev d).subtype ≠ subtypeCollector) sections

/-- `new_conf_from_devgrp` on the section of the group. -/
def DevgroupConf.update (conf : DevgroupConf) (s : Server) (devgrp : Group) : DevgroupConf :=
  { conf with
    name := devgrp.name.or conf.name
    devices := cfgSetList (devgrp.members.map fun w => (s.dev w.dev).uid) conf.devices 0
    devgroups := cfgSetList (devgrp.children.map fun w => (s.group w.group).uid) conf.devgroups 0 }

/-- The server, and the sections of the configuration it keeps in memory. -/
structure Store where
  mem : Server
  device : List DeviceConf
  devgroup : List DevgroupConf

/-- What happens to the process: an event of the server, or the timer that writes the groups. -/
inductive SaveEvent
  | event (e : Event)
  | devgroupconf

end Gnhast
