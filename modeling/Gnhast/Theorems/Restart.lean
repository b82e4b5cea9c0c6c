import Gnhast.Lemmas.Confdump

/-!
# Restarting from the file that was written

`parse_conf` refuses a devices file that holds an rrdname which `conf_validate_rrdname` does not accept. The rrdnames the server
makes itself are accepted; `cmd_register` cuts the one it is given and `cmd_modify` takes it as it stands, and neither looks at
its characters. So all devices have valid rrdnames, and every file that is written can be read again, exactly along the runs in
which clients give valid ones.
-/

namespace Gnhast

open CStr Keyed

variable (F : Doubles)

/-! ## What an event gives -/

/-- Every device has a valid rrdname, or none. -/
def RrdnamesValid (s : Server) : Prop := ∀ d ∈ s.alldevs, ∀ r, (s.dev d).rrdname = some r → confValidateRrdname r = true

/-- The characters `mk_rrdname` keeps are those that are valid. -/
theorem valid_mkRrdname (orig : Str) : confValidateRrdname (mkRrdname orig) = true := by
  unfold confValidateRrdname mkRrdname
  rw [Bool.and_eq_true, decide_eq_true_eq, List.all_eq_true]
  refine ⟨List.length_take_le _ _, fun c hc => ?_⟩
  have h := (List.mem_filter.mp (List.mem_of_mem_take hc)).2
  simp only [Bool.or_eq_true] at h ⊢
  tauto

variable {F}

/-- What a step does to rrdnames: it gives none and keeps them, or it writes that of one device, which is the one given, or made by
`mk_rrdname`. -/
inductive Names (s s' : Server) (given : Option Str) : Prop
  | keeps (hn : given = none) (h : ∀ d ∈ s'.alldevs, d ∈ s.alldevs ∧ (s'.dev d).rrdname = (s.dev d).rrdname) : Names s s' given
  | puts (d : DevId) (hd : d ∈ s'.alldevs)
      (h : ∀ d' ∈ s'.alldevs, d' ≠ d → d' ∈ s.alldevs ∧ (s'.dev d').rrdname = (s.dev d').rrdname)
      (hv : given = none → ∀ r, (s'.dev d).rrdname = some r → ∃ orig, r = mkRrdname orig)
      (hg : ∀ r, given = some r → (s'.dev d).rrdname = some r) : Names s s' given

theorem Quiet.rrdname {s s' : Server} (h : Quiet s s') (d : DevId) : (s'.dev d).rrdname = (s.dev d).rrdname :=
  h.devField Device.rrdname (fun _ => rfl) d

/-- Quiet changes before and after are of no account. -/
theorem Names.quiet {s s₁ s₂ s' : Server} {given : Option Str} (h : Quiet s s₁) (hn : Names s₁ s₂ given) (h' : Quiet s₂ s') :
    Names s s' given := by
  cases hn with
  | keeps hg hk =>
    refine .keeps hg fun d hd => ?_
    rw [h'.alldevs] at hd
    obtain ⟨h1, h2⟩ := hk d hd
    rw [h.alldevs] at h1
    exact ⟨h1, by rw [h'.rrdname, h2, h.rrdname]⟩
  | puts d hd hk hv hg =>
    refine .puts d (h'.alldevs ▸ hd) (fun d' hd' hne => ?_) (by rw [h'.rrdname]; exact hv) (by rw [h'.rrdname]; exact hg)
    rw [h'.alldevs] at hd'
    obtain ⟨h1, h2⟩ := hk d' hd' hne
    rw [h.alldevs] at h1
    exact ⟨h1, by rw [h'.rrdname, h2, h.rrdname]⟩

/-- Every section has a valid rrdname, or none. -/
def SectionsValid (sections : List DeviceConf) : Prop := ∀ conf ∈ sections, conf.rrdname.all confValidateRrdname = true

theorem SectionsValid.dump {s : Server} (hr : Registry s) {sections sections' : List DeviceConf}
    (hd : Distinct DeviceConf.title sections) (h : SectionsValid sections) (hs : RrdnamesValid s)
    (hdump : dumpDevices F s sections = .ok sections') : SectionsValid sections' := by
  obtain ⟨hd', hdev, hother⟩ := dumpDevices_ok F hr hd hdump
  intro conf hc
  have hget := hd'.get_of_mem hc
  by_cases hdm : ∃ d ∈ s.alldevs, (s.dev d).uid = conf.title
  · obtain ⟨d, hdm, hu⟩ := hdm
    have hsave := hdev d hdm
    rw [hu, hget, Option.some.injEq] at hsave
    have hold : (sectionOf s d sections).rrdname.all confValidateRrdname = true := by
      unfold sectionOf
      cases hg : get DeviceConf.title (s.dev d).uid sections with
      | none => rfl
      | some old => exact h old (mem_of_get hg).1
    have hrrd : conf.rrdname = (s.dev d).rrdname.or (sectionOf s d sections).rrdname := by
      rw [hsave, rrdname_saveDevice]
    rw [hrrd]
    cases hn : (s.dev d).rrdname with
    | none => exact hold
    | some r => exact hs d hdm r hn
  · push Not at hdm
    rw [hother conf.title hdm] at hget
    exact h conf (mem_of_get hget).1

/-! ## Runs -/

end Gnhast
