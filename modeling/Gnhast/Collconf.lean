import Gnhast.Collcmd
import Gnhast.Confdump

/-!
# The configuration of a collector

A collector loads its devices from the `device` sections of its own configuration file. `cmd_modify`, which executes the `mod` lines
of the server, changes a device in memory and ends with `dump_conf`, the function with which the server writes its files too. The
flags of `dump_conf` say whether the sections are brought up to date first, and which of them are printed.
-/

namespace Gnhast

open CStr

/-- `CONF_DUMP_DEVONLY`, `CONF_DUMP_GROUPONLY` and `CONF_DUMP_NOCOLLECTOR`: numbers of bits. -/
def confDumpDevonly : Nat := 0
def confDumpGrouponly : Nat := 1
def confDumpNocollector : Nat := 2

/-- `CONV_FLAG`. -/
def convFlag (p : Nat) : BitVec 32 := 1#32 <<< (p % 32)

/-- `QUERY_FLAG`. -/
def queryFlag (flags : BitVec 32) (p : Nat) : Bool := decide (flags &&& convFlag p ≠ 0)

/-- The sections for devices and for groups, of a configuration in memory or in a file. -/
structure Sections where
  device : List DeviceConf := []
  devgroup : List DevgroupConf := []

variable (F : Doubles)

/-- `dump_conf`, on a file that can be opened: the sections in memory, and those in the file. -/
def dumpConf (cfg : Sections) (flags : BitVec 32) (s : Server) : Except Fault (Sections × Sections) := do
  let device ←
    if queryFlag flags confDumpNocollector then
      newConfFromDevs F s (s.alldevs.filter fun d => (s.dev d).subtype ≠ subtypeCollector) cfg.device
    else pure cfg.device
  let devonly := queryFlag flags confDumpDevonly
  let grouponly := queryFlag flags confDumpGrouponly
  let devs :=
    if devonly && queryFlag flags confDumpNocollector then device.filter fun conf => conf.subtype ≠ subtypeCollector else []
  let groups := if grouponly then cfg.devgroup else []
  -- without either flag `cfg_print` prints everything
  if !devonly && !grouponly then
    return ({ cfg with device := device }, { device := devs ++ device, devgroup := groups ++ cfg.devgroup })
  else return ({ cfg with device := device }, { device := devs, devgroup := groups })

namespace Collcmd

/-- A collector with its configuration in memory and in the file. -/
structure Configured where
  coll : Collector
  cfg : Sections
  conffile : Sections

/-- What `cmd_modify` leaves. -/
structure Modified where
  conf : Configured
  out : List Out := []
  ret : Int := 0

/-- `cmd_modify`, whose dump has no flags. -/
def cmdModify (args : List PArg) (k : Configured) : Except Fault Modified :=
  match (lastArg .uid args : Option Str) with
  | none => .ok { conf := k, ret := -1 }
  | some uid =>
    match k.coll.mem.findDeviceByUid uid with
    | none => .ok { conf := k, ret := -1 }
    | some d =>
      let name : Option Str := lastArg .name args
      let rrdname : Option Str := lastArg .rrdname args
      -- the old strings are freed, and the rrdname may have been freed before
      let out : List Out := if rrdname.isSome && k.coll.dangling d then [.badFree] else []
      let coll : Collector :=
        { mem := k.coll.mem.modDev d fun dev => { dev with name := name.or dev.name, rrdname := rrdname.or dev.rrdname }
          dangling := Function.update k.coll.dangling d (k.coll.dangling d && rrdname.isNone) }
      (dumpConf F k.cfg 0 coll.mem).map fun r => { conf := { coll := coll, cfg := r.1, conffile := r.2 }, out := out }

end Collcmd

end Gnhast
