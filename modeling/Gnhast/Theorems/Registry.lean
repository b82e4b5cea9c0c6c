import Gnhast.Lemmas.Registry

/-!
# Complete devices

`cmd_register` creates complete devices only. For an uid that is known it writes the name, the type, the protocol and the
subtype of the line into the device, present or not, and nothing else in the server touches them. So the devices of a run stay
complete exactly when every such line has all four.
-/

namespace Gnhast

open CStr Runs

variable (F : Doubles)

/-- A device that is not complete is never listed. -/
theorem gnRegisterDevice_eq_none_iff (dev : Device) : gnRegisterDevice dev = none ↔ ¬ dev.Complete := by
  unfold gnRegisterDevice
  cases hn : dev.name with
  | none => exact ⟨fun _ hc => hc.name hn, fun _ => rfl⟩
  | some name =>
    dsimp only
    split
    · rename_i hz
      refine ⟨fun _ hc => ?_, fun _ => rfl⟩
      rcases hz with hz | hz | hz
      · exact hc.type hz
      · exact hc.subtype hz
      · exact hc.proto hz
    · rename_i hz
      simp only [not_or] at hz
      exact ⟨fun h => absurd h (by simp), fun hc => absurd ⟨by simp [hn], hz.1, hz.2.2, hz.2.1⟩ hc⟩

/-- Every device is complete. -/
def AllComplete (s : Server) : Prop := ∀ d ∈ s.alldevs, (s.dev d).Complete

/-- A line that registers an uid that is known has a name, and a type, a protocol and a subtype that are not zero. -/
def ReregistersAll (s : Server) (e : Event) : Prop :=
  ∀ c args uid d, Reregisters F s e c args uid d →
    (lastArg .name args : Option Str) ≠ none ∧ byteArg (lastArg .devtype args) ≠ 0 ∧ byteArg (lastArg .proto args) ≠ 0 ∧
      byteArg (lastArg .subtype args) ≠ 0

/-- A line that registers an uid that is known does so. -/
theorem Reregisters.keeps {s s' : Server} {e : Event} {c : ClientId} {args : List PArg} {uid : Str} {d : DevId}
    (h : Reregisters F s e c args uid d) (hs : step F s e = some s') :
    Keeps (reregistered args (s.dev d)) (s'.dev d) ∧ (s'.dev d).name = lastArg .name args := by
  obtain ⟨text, env, rfl, hl⟩ := h.line
  obtain ⟨r, hr, rfl⟩ := (step_eq_some F).mp hs
  have hh : handleLine F env c text s = .ok r := ((react_eq_some F).mp hr).2
  rw [handleLine_some F hl] at hh
  have hh : cmdRegister args c (s.mark c env) = r := Except.ok.inj hh
  have hf : (s.mark c env).findDeviceByUid uid = some d := h.found
  rw [cmdRegister_known c h.arg hf] at hh
  have hd : r.srv.dev d = { reregistered args (s.dev d) with collector := some c, onqClient := true } := by
    rw [← hh]
    change (claimDevice _ d c).dev d = _
    rw [claimDevice_dev, if_pos rfl, Server.modDev_dev, if_pos rfl]
    rfl
  rw [hd]
  exact ⟨⟨rfl, rfl, rfl, rfl, id⟩, rfl⟩

/-- One step keeps the devices complete exactly under the condition. -/
theorem allComplete_step_iff {s s' : Server} {e : Event} (hr : Registry s) (hc : AllComplete s) (hs : step F s e = some s') :
    AllComplete s' ↔ ReregistersAll F s e := by
  constructor
  · intro hc' c args uid d hre
    obtain ⟨hk, hname⟩ := hre.keeps F hs
    have hd : d ∈ s.alldevs := ((hr.found uid d).mp hre.found).1
    have hd' : d ∈ s'.alldevs := by
      obtain ha | ⟨ha, -⟩ := alldevs_step F hs
      · rwa [ha]
      · rw [ha]
        exact List.mem_append_left _ hd
    have hcomp := hc' d hd'
    have htype : (s'.dev d).type = byteArg (lastArg .devtype args) := hk.type
    have hproto : (s'.dev d).proto = byteArg (lastArg .proto args) := hk.proto
    have hsub : (s'.dev d).subtype = byteArg (lastArg .subtype args) := hk.subtype
    exact ⟨hname ▸ hcomp.name, htype ▸ hcomp.type, hproto ▸ hcomp.proto, hsub ▸ hcomp.subtype⟩
  · intro hok d hd'
    have hold : d ∈ s.alldevs → (s'.dev d).Complete := by
      intro hd
      obtain hk | ⟨c, args, uid, hre, hk, -⟩ := dev_step F hr hs hd
      · exact hk.complete (hc d hd)
      · obtain ⟨h1, h2, h3, h4⟩ := hok c args uid d hre
        exact hk.complete ⟨h1, h2, h3, h4⟩
    obtain ha | ⟨ha, hnew⟩ := alldevs_step F hs
    · exact hold (ha ▸ hd')
    · rw [ha] at hd'
      rcases List.mem_append.mp hd' with hd | hd
      · exact hold hd
      · rw [List.mem_singleton.mp hd]
        exact hnew

theorem startup_noDevices {cfg : Config} {s : Server} (h : startup F cfg = .ok s) (hcfg : cfg.device = []) :
    s.alldevs = [] := by
  unfold startup at h
  rw [hcfg] at h
  exact (onlyGroups_parseDevgroups h).alldevs

/-- In every run from an empty registry, all devices are complete in every state exactly when each line that registers a known
uid has a name, a type, a protocol and a subtype. -/
theorem allComplete_iff {cfg : Config} {s₀ : Server} (h : startup F cfg = .ok s₀) (hcfg : cfg.device = []) (es : List Event) :
    Throughout (step F) AllComplete s₀ es ↔ Along (step F) (ReregistersAll F) s₀ es := by
  have hempty : AllComplete s₀ := by
    intro d hd
    rw [startup_noDevices F h hcfg] at hd
    cases hd
  exact throughout_iff_along (fun _ _ _ hI hs => registry_step F hI hs)
    (fun _ _ _ hI hp hs => allComplete_step_iff F hI hp hs) (startup_registry F h).1 hempty es

theorem allComplete_iff_one_device :
    Throughout (step Doubles.exact) AllComplete {}
        [.accept 0 10 0 0 1, .line 0 (str "reg uid:lamp name:Lamp devt:1 proto:1 subt:1") {}] ↔
      Along (step Doubles.exact) (ReregistersAll Doubles.exact) {}
        [.accept 0 10 0 0 1, .line 0 (str "reg uid:lamp name:Lamp devt:1 proto:1 subt:1") {}] :=
  @allComplete_iff Doubles.exact {} {} rfl rfl _

/-- A second registration with the uid only: the device loses its name and its types. -/
theorem not_allComplete_uid_only : startup Doubles.exact {} = .ok {} ∧
    ¬ Throughout (step Doubles.exact) AllComplete {}
        [.accept 0 10 0 0 1, .line 0 (str "reg uid:lamp name:Lamp devt:1 proto:1 subt:1") {},
          .line 0 (str "reg uid:lamp") {}] := by
  refine ⟨rfl, fun h => ?_⟩
  have hex : ((exec (step Doubles.exact) {} [.accept 0 10 0 0 1,
      .line 0 (str "reg uid:lamp name:Lamp devt:1 proto:1 subt:1") {}, .line 0 (str "reg uid:lamp") {}]).map
        fun s => ((s.dev 0).name, s.alldevs)) = some (none, [0]) := by rfl
  obtain ⟨s, hs, he⟩ := Option.map_eq_some_iff.mp hex
  simp only [Prod.mk.injEq] at he
  obtain ⟨h1, h2⟩ := he
  exact (h.last hs 0 (by simp [h2])).name h1

end Gnhast
