import Gnhast.Collconf
import Gnhast.Theorems.DeviceFile

/-!
# The `mod` lines of a collector and its file

`cmd_modify` of a collector says that it forces a rewrite of the configuration, but it calls `dump_conf` without flags, and then the
devices in memory are not copied into the sections before these are printed. What is printed is the configuration as it was loaded.
So the file has what a `mod` line changed exactly when the line changes nothing.
-/

namespace Gnhast.Collcmd

open CStr Keyed Runs

variable (F : Doubles)

/-! ## What `dump_conf` writes -/

/-- The timer of the server brings all devices into the sections, and has `dump_conf` print those that are no tracking devices. -/
theorem dumpDevices_eq_dumpConf (s : Server) (cfg : Sections) :
    dumpDevices F s cfg.device = (newConfFromDevs F s s.alldevs cfg.device) >>= fun device =>
      (dumpConf F { cfg with device := device } (convFlag confDumpDevonly ||| convFlag confDumpNocollector) s).map fun r =>
        r.1.device := by
  have h0 : queryFlag (convFlag confDumpDevonly ||| convFlag confDumpNocollector) confDumpNocollector = true := by decide
  have h1 : queryFlag (convFlag confDumpDevonly ||| convFlag confDumpNocollector) confDumpDevonly = true := by decide
  refine bind_congr fun device => ?_
  simp only [dumpConf, h0, h1, if_true]
  cases newConfFromDevs F s (s.alldevs.filter fun d => (s.dev d).subtype ≠ subtypeCollector) device <;> rfl

/-- A device that was loaded from a section, and perhaps named anew since. -/
def LoadedFrom (conf : DeviceConf) (dev : Device) : Prop :=
  dev = { loaded F conf with name := dev.name, rrdname := dev.rrdname }

/-- The devices are those of the sections, and the sections are those that were read. -/
structure Holds (cfg : Config) (k : Configured) : Prop where
  sections : k.cfg.device = cfg.device
  registry : Registry k.coll.mem
  devices : ∀ d ∈ k.coll.mem.alldevs, ∃ conf ∈ cfg.device, LoadedFrom F conf (k.coll.mem.dev d)

variable {F}

theorem LoadedFrom.uid {conf : DeviceConf} {dev : Device} (h : LoadedFrom F conf dev) : dev.uid = conf.title := by
  rw [h, loaded, newDevFromConf_eq]
  rfl

end Gnhast.Collcmd
