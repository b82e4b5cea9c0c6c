import Gnhast.Netloop

/-!
# Starting from a configuration

What `init_devtable`, `new_dev_from_conf` and `parse_devgroups` make of a configuration file that was read, and `print_group`,
which walks down the group graph. The configuration is what libconfuse hands over: the sections in order, each with its title,
and no two sections of a kind with one title (a second section with a title is merged into the first).
-/

namespace Gnhast

open CStr

/-- A `device` section. -/
structure DeviceConf where
  title : Str
  name : Option Str := none
  rrdname : Option Str := none
  handler : Option Str := none
  hargs : List Str := []
  tags : List Str := []
  proto : BitVec 8 := 0
  type : BitVec 8 := 0
  subtype : BitVec 8 := 0
  tscale : BitVec 8 := 0
  baroscale : BitVec 8 := 0
  speedscale : BitVec 8 := 0
  lengthscale : BitVec 8 := 0
  lightscale : BitVec 8 := 0
  spamhandler : Int := 0
  hiwat : ℚ := 0
  lowat : ℚ := 0

/-- A `devgroup` section. -/
structure DevgroupConf where
  title : Str
  name : Option Str := none
  devices : List Str := []
  devgroups : List Str := []

/-- The sections of a configuration file. -/
structure Config where
  device : List DeviceConf := []
  devgroup : List DevgroupConf := []
  device_nodup : (device.map DeviceConf.title).Nodup := by simp
  devgroup_nodup : (devgroup.map DevgroupConf.title).Nodup := by simp

variable (F : Doubles)

/-- The scale `new_dev_from_conf` reads for a subtype. -/
def DeviceConf.scale (conf : DeviceConf) : BitVec 8 :=
  match DevSubtype.ofByte conf.subtype with
  | .temp => conf.tscale
  | .speed => conf.speedscale
  | .pressure => conf.baroscale
  | .rainrate => conf.lengthscale
  | .lux => conf.lightscale
  | _ => 0

/-- The tags array for a list of the configuration: the counter is made even, but the slot it then counts is not allocated. -/
def confTags (tags : List Str) : Arr Tag :=
  if tags = [] then .null else .block (tags.map .text ++ if tags.length % 2 = 1 then [.unset] else [])

/-- `new_dev_from_conf`, for a title that is no device yet. -/
def newDevFromConf (conf : DeviceConf) : Device :=
  let dev : Device :=
    { uid := conf.title, name := conf.name, rrdname := conf.rrdname, handler := conf.handler
      hargs := if conf.hargs = [] then .null else .block conf.hargs
      tags := confTags conf.tags
      proto := conf.proto, type := conf.type, subtype := conf.subtype, scale := conf.scale }
  let dev := setWatermark F .lowat conf.lowat dev
  let dev := setWatermark F .hiwat conf.hiwat dev
  if conf.spamhandler = 1 then { dev with spamhandler := true }
  else if conf.spamhandler = 2 then { dev with changehandler := true }
  else dev

/-- `init_devtable`. -/
def initDevtable : List DeviceConf → Server → Server
  | [], s => s
  | conf :: confs, s =>
    let d := s.nextDev
    let s := { s with dev := Function.update s.dev d (newDevFromConf F conf), nextDev := d + 1 }
    initDevtable confs (s.insertDevice d)

/-- The devices of a section added to its group; uids that are not known are passed over. -/
def addConfDevices (grp : GroupId) : List Str → Server → Server
  | [], s => s
  | dname :: dnames, s =>
    match s.findDeviceByUid dname with
    | none => addConfDevices grp dnames s
    | some dev => addConfDevices grp dnames (s.addDevGroup dev grp)

/-- The first pass of `parse_devgroups`: the groups and their devices. -/
def parseDevgroups1 : List DevgroupConf → Server → Except Fault Server
  | [], s => .ok s
  | conf :: confs, s =>
    match conf.name with
    | none => .error .nullString
    | some name =>
      let (s, grp) := s.newDevgroup conf.title
      let s := s.modGroup grp fun g => { g with name := some name }
      parseDevgroups1 confs (addConfDevices grp conf.devices s)

/-- The child groups of a section chained to its group. -/
def addConfGroups (grp : GroupId) : List Str → Server → Server
  | [], s => s
  | gname :: gnames, s =>
    match s.findDevgroupByUid gname with
    | none => addConfGroups grp gnames s
    | some addgrp => addConfGroups grp gnames (s.addGroupGroup addgrp grp)

/-- The second pass of `parse_devgroups`: the links between groups. -/
def parseDevgroups2 : List DevgroupConf → Server → Server
  | [], s => s
  | conf :: confs, s =>
    match s.findDevgroupByUid conf.title with
    | none => parseDevgroups2 confs s
    | some grp => parseDevgroups2 confs (addConfGroups grp conf.devgroups s)

/-- `parse_devgroups`. -/
def parseDevgroups (cfg : Config) (s : Server) : Except Fault Server :=
  (parseDevgroups1 cfg.devgroup s).map (parseDevgroups2 cfg.devgroup)

/-- The memory of the server before the first event. -/
def startup (cfg : Config) : Except Fault Server := parseDevgroups cfg (initDevtable F cfg.device {})

/-- `print_group`, down to a depth: the uids of the lines it logs, and none when the recursion goes deeper. -/
def printGroup (s : Server) : Nat → GroupId → Option (List Str)
  | 0, _ => none
  | depth + 1, g =>
    ((s.group g).children.mapM fun w => printGroup s depth w.group).map fun texts => (s.group g).uid :: texts.flatten

/-- The head nodes `print_group_table` looks for. -/
def headGroups (s : Server) : List GroupId := s.allgroups.filter fun g => (s.group g).subgroup = 0

/-- `print_group_table`, down to a depth: the uid of each top group, with those of the lines below it. -/
def printGroupTable (s : Server) (depth : Nat) : Option (List (Str × List Str)) :=
  (headGroups s).mapM fun g => (printGroup s depth g).map fun texts => ((s.group g).uid, texts)

end Gnhast
