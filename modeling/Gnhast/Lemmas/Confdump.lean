import Gnhast.Confdump
import Gnhast.Lemmas.Registry
import Gnhast.Lemmas.Modify
import Mathlib.Data.List.GetD

/-!
# What is written and read back

Closed forms for the loops that bring the sections up to date, for the words that are printed and parsed, and for the table that
`init_devtable` makes of the sections.
-/

namespace Gnhast

open CStr Keyed

variable (F : Doubles)

/-! ## Lists of strings -/

theorem cfgSetList_append (values pre opt : List Str) :
    cfgSetList values (pre ++ opt) pre.length = pre ++ values ++ opt.drop values.length := by
  induction values generalizing pre opt with
  | nil => simp [cfgSetList]
  | cons value values ih =>
    cases opt with
    | nil =>
      have hs : cfgSetnstr (pre ++ []) value pre.length = (pre ++ [value]) ++ [] := by simp [cfgSetnstr]
      rw [cfgSetList, hs]
      have h := ih (pre ++ [value]) []
      rw [List.length_append, List.length_singleton] at h
      rw [h]
      simp
    | cons o opt =>
      have hs : cfgSetnstr (pre ++ o :: opt) value pre.length = (pre ++ [value]) ++ opt := by simp [cfgSetnstr]
      rw [cfgSetList, hs]
      have h := ih (pre ++ [value]) opt
      rw [List.length_append, List.length_singleton] at h
      rw [h]
      simp

/-- A list option that is set keeps what it held behind the new values. -/
theorem cfgSetList_eq (values opt : List Str) : cfgSetList values opt 0 = values ++ opt.drop values.length :=
  cfgSetList_append values [] opt

/-- A number that has a name, or the one that means none. -/
def named (map : List Str) (i : BitVec 8) : BitVec 8 := if i.toNat < map.length then i else 0

/-- A section once it was printed and parsed. -/
def DeviceConf.printed (conf : DeviceConf) : DeviceConf :=
  { conf with
    proto := named devprotoMap conf.proto, type := named devtypeMap conf.type, subtype := named devsubtypeMap conf.subtype
    tscale := if conf.tscale.toNat < 3 then conf.tscale else 1
    baroscale := if conf.baroscale.toNat < 4 then conf.baroscale else 2
    speedscale := if conf.speedscale.toNat < 4 then conf.speedscale else 0
    lengthscale := if conf.lengthscale.toNat < 2 then conf.lengthscale else 0
    lightscale := if conf.lightscale.toNat < 2 then conf.lightscale else 0
    spamhandler := if conf.spamhandler = 1 then 1 else if conf.spamhandler = 2 then 2 else 0 }

/-- A device has a scale that goes into the option of a subtype. -/
def Device.scaledBy (dev : Device) (st : DevSubtype) : Bool := decide (dev.scale ≠ 0) && decide (dev.devSubtype = st)

theorem DeviceConf.setScale_eq (conf : DeviceConf) (dev : Device) : conf.setScale dev =
    { conf with
      tscale := if dev.scaledBy .temp then dev.scale else conf.tscale
      speedscale := if dev.scaledBy .speed then dev.scale else conf.speedscale
      baroscale := if dev.scaledBy .pressure then dev.scale else conf.baroscale
      lengthscale := if dev.scaledBy .rainrate then dev.scale else conf.lengthscale
      lightscale := if dev.scaledBy .lux then dev.scale else conf.lightscale } := by
  by_cases hz : dev.scale = 0
  · have hno : ∀ st, dev.scaledBy st = false := fun st => by
      simp only [Device.scaledBy, hz, ne_eq, not_true_eq_false, decide_false, Bool.false_and]
    simp only [DeviceConf.setScale, hz, or_true, if_true, hno, Bool.false_eq_true, if_false]
  · have hby : ∀ st, dev.scaledBy st = decide (dev.devSubtype = st) := fun st => by
      simp only [Device.scaledBy, hz, ne_eq, not_false_eq_true, decide_true, Bool.true_and]
    by_cases hs : dev.subtype = 0
    · have hsub : dev.devSubtype = .none := by
        rw [Device.devSubtype, hs]
        rfl
      simp [DeviceConf.setScale, hs, hby, hsub]
    · unfold DeviceConf.setScale
      rw [if_neg (not_or.mpr ⟨hs, hz⟩)]
      split
      case h_6 h1 h2 h3 h4 h5 =>
        simp only [hby, show dev.devSubtype ≠ .temp from h1, show dev.devSubtype ≠ .speed from h2,
          show dev.devSubtype ≠ .pressure from h3, show dev.devSubtype ≠ .rainrate from h4, show dev.devSubtype ≠ .lux from h5,
          decide_false, Bool.false_eq_true, if_false]
      all_goals
        rename_i hsub
        simp [hby, hsub]

/-- A device's section brought up to date. -/
def saveDevice (s : Server) (d : DevId) (conf : DeviceConf) : DeviceConf := conf.update F (s.dev d) (s.dev d).tagTexts

/-- The section that is made for a device which has none, and the one a device has. -/
def newSection (s : Server) (d : DevId) : DeviceConf := { title := (s.dev d).uid }
def sectionOf (s : Server) (d : DevId) (sections : List DeviceConf) : DeviceConf :=
  (get DeviceConf.title (s.dev d).uid sections).getD (newSection s d)

theorem title_saveDevice (s : Server) (d : DevId) (conf : DeviceConf) : (saveDevice F s d conf).title = conf.title := by
  rw [saveDevice, DeviceConf.update, DeviceConf.setScale_eq]

theorem rrdname_saveDevice (s : Server) (d : DevId) (conf : DeviceConf) :
    (saveDevice F s d conf).rrdname = (s.dev d).rrdname.or conf.rrdname := by
  rw [saveDevice, DeviceConf.update, DeviceConf.setScale_eq]

theorem newConfFromDevs_ok {s : Server} {ds : List DevId} {sections sections' : List DeviceConf}
    (h : newConfFromDevs F s ds sections = .ok sections') :
    sections' = upsertAll DeviceConf.title (newSection s) (saveDevice F s) ds sections := by
  induction ds generalizing sections with
  | nil =>
    cases h
    rfl
  | cons d ds ih =>
    obtain ⟨sections₁, h1, h2⟩ := Except.bind_eq_ok.mp h
    obtain ⟨tags, ht, rfl⟩ := Except.map_eq_ok.mp h1
    rw [ih h2, ← tagTexts_of_readTags ht]
    rfl

/-- Bringing a section up to date twice is doing it once. -/
theorem saveDevice_saveDevice (s : Server) (d : DevId) (conf : DeviceConf) :
    saveDevice F s d (saveDevice F s d conf) = saveDevice F s d conf := by
  have hor : ∀ {α : Type} (a b : Option α), a.or (a.or b) = a.or b := by
    intro α a b
    cases a <;> rfl
  have hset : ∀ values opt : List Str, cfgSetList values (cfgSetList values opt 0) 0 = cfgSetList values opt 0 := by
    intro values opt
    rw [cfgSetList_eq, cfgSetList_eq]
    simp
  have hif : ∀ {α : Type} (p : Prop) [Decidable p] (a b : α), (if p then a else if p then a else b) = if p then a else b := by
    intro α p _ a b
    split <;> rfl
  have hif' : ∀ {α : Type} (p : Prop) [Decidable p] (a b : α), (if p then if p then a else b else b) = if p then a else b := by
    intro α p _ a b
    split <;> rfl
  simp only [saveDevice, DeviceConf.update, DeviceConf.setScale_eq, hor, hset, hif, hif']

/-- After a dump, every device has its section brought up to date from the one it had, and there are no other sections. -/
theorem dumpDevices_ok {s : Server} (hr : Registry s) {sections sections' : List DeviceConf}
    (hd : Distinct DeviceConf.title sections) (h : dumpDevices F s sections = .ok sections') :
    Distinct DeviceConf.title sections' ∧
    (∀ d ∈ s.alldevs, get DeviceConf.title (s.dev d).uid sections' =
      some (saveDevice F s d (sectionOf s d sections))) ∧
    ∀ uid, (∀ d ∈ s.alldevs, (s.dev d).uid ≠ uid) → get DeviceConf.title uid sections' = get DeviceConf.title uid sections := by
  obtain ⟨sections₁, h1, h2⟩ := Except.bind_eq_ok.mp h
  have e1 := newConfFromDevs_ok F h1
  have e2 := newConfFromDevs_ok F h2
  have hn : (s.alldevs.map fun d => (newSection s d).title).Nodup :=
    List.Nodup.map_on (fun d hd d' hd' he => hr.uid_inj hd hd' he) hr.nodup
  have hd₁ : Distinct DeviceConf.title sections₁ := e1 ▸ hd.upsertAll _
  refine ⟨e2 ▸ hd₁.upsertAll _, fun d hdm => ?_, fun uid huid => ?_⟩
  · have hg : get DeviceConf.title (s.dev d).uid sections₁ = some (saveDevice F s d (sectionOf s d sections)) := by
      rw [e1]
      exact hd.get_upsertAll (title_saveDevice F s) hn hdm
    by_cases hc : (s.dev d).subtype = subtypeCollector
    · rw [e2, ← hg]
      refine hd₁.get_upsertAll_of_ne (title_saveDevice F s) fun d' hd' he => ?_
      obtain ⟨hm, hne⟩ := List.mem_filter.mp hd'
      rw [hr.uid_inj hm hdm he] at hne
      exact absurd hc (by simpa using hne)
    · rw [e2]
      have hm : d ∈ s.alldevs.filter fun d => (s.dev d).subtype ≠ subtypeCollector :=
        List.mem_filter.mpr ⟨hdm, by simpa using hc⟩
      have hn' : ((s.alldevs.filter fun d => (s.dev d).subtype ≠ subtypeCollector).map fun d => (newSection s d).title).Nodup :=
        hn.sublist (List.filter_sublist.map _)
      refine (hd₁.get_upsertAll (title_saveDevice F s) hn' hm).trans ?_
      rw [show (newSection s d).title = (s.dev d).uid from rfl, hg, Option.getD_some, saveDevice_saveDevice]
  · rw [e2]
    refine (hd₁.get_upsertAll_of_ne (title_saveDevice F s) fun d hm => huid d (List.mem_filter.mp hm).1).trans ?_
    rw [e1]
    exact hd.get_upsertAll_of_ne (title_saveDevice F s) huid

/-! ## Loading the devices -/

/-- The word at a location after a watermark was stored there. -/
def storedWater (dev : Device) (w : Word) (q : ℚ) : Word :=
  match storeMember dev.devType dev.devSubtype with
  | some m => w.assign F m (waterWord (datatypeDev dev) q)
  | none => w

theorem setWatermark_lowat (q : ℚ) (dev : Device) :
    setWatermark F .lowat q dev = { dev with lowat := storedWater F dev dev.lowat q } := by
  rw [setWatermark_eq, storeDataDev, storedWater]
  cases hm : storeMember dev.devType dev.devSubtype <;> simp [hm, Device.setStore, Device.store]

theorem setWatermark_hiwat (q : ℚ) (dev : Device) :
    setWatermark F .hiwat q dev = { dev with hiwat := storedWater F dev dev.hiwat q } := by
  rw [setWatermark_eq, storeDataDev, storedWater]
  cases hm : storeMember dev.devType dev.devSubtype <;> simp [hm, Device.setStore, Device.store]

/-- What `new_dev_from_conf` takes from a section as it stands. -/
def confDevice (conf : DeviceConf) : Device :=
  { uid := conf.title, name := conf.name, rrdname := conf.rrdname, handler := conf.handler
    hargs := if conf.hargs = [] then .null else .block conf.hargs
    tags := confTags conf.tags
    proto := conf.proto, type := conf.type, subtype := conf.subtype, scale := conf.scale
    spamhandler := decide (conf.spamhandler = 1), changehandler := decide (conf.spamhandler = 2) }

theorem newDevFromConf_eq (conf : DeviceConf) : newDevFromConf F conf =
    { confDevice conf with
      lowat := storedWater F (confDevice conf) (.raw 0) conf.lowat
      hiwat := storedWater F (confDevice conf) (.raw 0) conf.hiwat } := by
  unfold newDevFromConf
  simp only [setWatermark_lowat, setWatermark_hiwat]
  split
  · rename_i h
    simp only [confDevice, h]
    rfl
  · split
    · rename_i h
      simp only [confDevice, h]
      rfl
    · rename_i h1 h2
      simp only [confDevice, h1, h2, decide_false]
      rfl

/-- The device `init_devtable` makes of a section. -/
def loaded (conf : DeviceConf) : Device := { newDevFromConf F conf with onqAll := true, nodata := true }

end Gnhast
