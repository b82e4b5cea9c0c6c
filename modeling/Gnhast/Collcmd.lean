import Gnhast.Netloop

/-!
# The commands of a collector

The handlers of `collcmd.c`, and of `alarms.c`, with which a client of the server executes what the server writes to it: lists
of devices and of groups, and alarms. A collector keeps the same tables as the server, in the same records. Left out are the
handlers of the other commands of the table, and the callbacks of the single collectors, which are empty here.
-/

namespace Gnhast

open CStr

/-- The memory of a collector: its tables, and the devices whose rrdname points to a string that was freed. -/
structure Collector where
  mem : Server := {}
  dangling : DevId → Bool := fun _ => false

namespace Collcmd

/-- The commands of a collector. -/
inductive Cmd
  | chg | reg | regg | endldevs | endlgrps | ping | imalive | die | upd | mod | setalarm | apiv
deriving Repr, DecidableEq

/-- The command table. -/
def commands : List (Str × Cmd) :=
  [(str "chg", .chg), (str "reg", .reg), (str "regg", .regg), (str "endldevs", .endldevs), (str "endlgrps", .endlgrps),
   (str "ping", .ping), (str "imalive", .imalive), (str "die", .die), (str "upd", .upd), (str "mod", .mod),
   (str "setalarm", .setalarm), (str "apiv", .apiv)]

/-- The command a word names, in any case. -/
def findCommand (command : Str) : Option Cmd := commands.lookup (command.map tolower)

/-- What a handler leaves. -/
structure Reply where
  coll : Collector
  out : List Out := []
  ret : Int := 0

/-- `strndup` of an rrdname, behind a `free` of the one before. Without an rrdname the pointer keeps its value. -/
def setRrdname (k : Collector) (d : DevId) (rrdname : Option Str) : Collector × List Out :=
  let out : List Out := if k.dangling d then [.badFree] else []
  match rrdname with
  | some r => ({ mem := k.mem.modDev d fun dev => { dev with rrdname := some (r.take 19) }
                 dangling := Function.update k.dangling d false }, out)
  | none =>
    ({ mem := k.mem.modDev d fun dev => { dev with rrdname := none }
       dangling := Function.update k.dangling d (k.dangling d || (k.mem.dev d).rrdname.isSome) }, out)

/-- `cmd_register`, which has no scale. -/
def cmdRegister (args : List PArg) (k : Collector) : Except Fault Reply :=
  let name : Option Str := lastArg .name args
  let rrdname : Option Str := lastArg .rrdname args
  let devtype := byteArg (lastArg .devtype args)
  let proto := byteArg (lastArg .proto args)
  let subtype := byteArg (lastArg .subtype args)
  match (lastArg .uid args : Option Str) with
  | none => .ok { coll := k, ret := -1 }
  | some uid =>
    match k.mem.findDeviceByUid uid with
    | none =>
      match name with
      | none => .ok { coll := k, ret := -1 }
      | some nm =>
        if subtype = 0 ∨ devtype = 0 ∨ proto = 0 then .ok { coll := k, ret := -1 }
        else
          let d := k.mem.nextDev
          let dev : Device :=
            { uid := uid, name := some nm, rrdname := some ((rrdname.getD (nm.take 19)).take 19), type := devtype
              proto := proto, subtype := subtype }
          let mem := { k.mem with dev := Function.update k.mem.dev d dev, nextDev := d + 1 }
          .ok { coll := { mem := mem.insertDevice d, dangling := Function.update k.dangling d false } }
    | some d =>
      match name with
      | none => .error .nullString
      | some nm =>
        let (k, out) := setRrdname k d rrdname
        .ok { coll := { k with mem := k.mem.modDev d fun dev =>
                { dev with name := some nm, type := devtype, proto := proto, subtype := subtype } }
              out := out }

/-- The rest of `cmd_register_group`, once the group is there: the name is written also when it is missing, and entries are
only added. -/
def updateGroup (devgrp : GroupId) (args : List PArg) (s : Server) : Server :=
  let s := s.modGroup devgrp fun g => { g with name := lastArg .name args }
  let s := match (lastArg .grouplist args : Option Str) with
    | some l => addGroups devgrp (strtok chComma l) s
    | none => s
  match (lastArg .devlist args : Option Str) with
  | some l => addDevs devgrp (strtok chComma l) s
  | none => s

/-- `cmd_register_group`. -/
def cmdRegisterGroup (args : List PArg) (k : Collector) : Reply :=
  match (lastArg .uid args : Option Str) with
  | none => { coll := k, ret := -1 }
  | some uid =>
    match k.mem.findDevgroupByUid uid with
    | none =>
      match (lastArg .name args : Option Str) with
      | none => { coll := k, ret := -1 }
      | some _ =>
        let (s, devgrp) := k.mem.newDevgroup uid
        { coll := { k with mem := updateGroup devgrp args s } }
    | some devgrp => { coll := { k with mem := updateGroup devgrp args k.mem } }

/-- `cmd_alarm`: without a severity the alarm is removed. -/
def cmdAlarm (args : List PArg) (k : Collector) : Reply :=
  match (lastArg .aluid args : Option Str) with
  | none => { coll := k, ret := -1 }
  | some aluid =>
    let alsev : BitVec 32 := (lastArg .alsev args : Option (BitVec 32)).getD 0
    let alchan : BitVec 32 := (lastArg .alchan args : Option (BitVec 32)).getD 1
    { coll := { k with mem := { k.mem with alarms := (updateAlarm aluid (lastArg .altext args) alsev alchan k.mem.alarms).1 } } }

variable (F : Doubles)

/-- The lines written to a client that are a given command, executed by its handler, one after the other. -/
def obey (cmd : Cmd) (handler : List PArg → Collector → Except Fault Reply) : List Str → Collector → Except Fault Collector
  | [], k => .ok k
  | line :: lines, k =>
    match readCommand F (readLine line) with
    | none => obey cmd handler lines k
    | some (command, args) =>
      if findCommand command = some cmd then do
        let r ← handler args k
        obey cmd handler lines r.coll
      else obey cmd handler lines k

end Collcmd

/-- The lines a reply writes to a client. -/
def linesTo (c : ClientId) (out : List Out) : List Str :=
  out.filterMap fun o => match o with
    | .write c' line => if c' = c then some line else none
    | _ => none

end Gnhast
