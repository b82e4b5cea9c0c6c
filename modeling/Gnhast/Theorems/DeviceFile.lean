import Gnhast.Lemmas.Confdump

/-!
# Devices in the file

`new_conf_from_dev` sets an option of a device's section when the device has something to put there, and a list index by index.
What a device has no more, or has less of, stays in the section as an earlier dump left it. Scales are printed by name, and one
that has none is printed as another; watermarks are written as doubles, by the datatype of the device. So a device comes back
from the file as it was exactly when nothing of the old section shines through and what it has can be written.
-/

namespace Gnhast

open CStr Keyed

/-! ## What a device needs -/

variable (F : Doubles)

/-- Every section is that of a device. -/
def Covered (s : Server) (sections : List DeviceConf) : Prop := ∀ conf ∈ sections, ∃ d ∈ s.alldevs, (s.dev d).uid = conf.title

/-- The memory that a dump writes, when the event makes one. -/
def SaveEvent.dumped (st : Store) : SaveEvent → Option Server
  | .event e => (react F st.mem e).bind fun r => if .devconfDump ∈ r.out then some r.srv else none
  | .devgroupconf => none

variable {F}

theorem Covered.step {s s' : Server} {sections : List DeviceConf} (hr : Registry s) (hc : Covered s sections) {e : Event}
    (h : step F s e = some s') : Covered s' sections := by
  intro conf hm
  obtain ⟨d, hd, hu⟩ := hc conf hm
  refine ⟨d, ?_, (uid_step F hr h hd).trans hu⟩
  obtain ha | ⟨ha, -⟩ := alldevs_step F h
  · exact ha ▸ hd
  · exact ha ▸ List.mem_append_left _ hd

end Gnhast
