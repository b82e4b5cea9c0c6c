import Gnhast.Balboacoll
import Gnhast.Lemmas.Accessors

/-!
# The devices of the spa

`Shows` says that the device of a part is there and holds a byte. `init_balboa_devs` builds the devices of the installed parts
with zero in them, and a status stores the value of each, because no device is missing. So after every message the devices hold
what the last status says, which is kept in `prev_stat` (`Healthy`).
-/

namespace Gnhast.Balboacoll

open CStr

variable (F : Doubles) (conf : Str → Option SpaDev)

/-! ## Parts -/

theorem mem_buildOrder (k : SpaPart) : k ∈ buildOrder := by
  cases k <;> simp [buildOrder]

theorem mem_statusOrder (k : SpaPart) : k ∈ statusOrder := by
  cases k <;> simp [statusOrder]

set_option maxRecDepth 4000 in
theorem suffix_injective {k k' : SpaPart} (h : k.suffix = k'.suffix) : k = k' := by
  have hall : ∀ k ∈ buildOrder, ∀ k' ∈ buildOrder, k.suffix = k'.suffix → k = k' := by decide
  exact hall k (mem_buildOrder k) k' (mem_buildOrder k') h

theorem uid_injective {m : MacSuffix} {k k' : SpaPart} (h : k.uid m = k'.uid m) : k = k' :=
  suffix_injective (List.append_cancel_left h)

/-- A device of the type and the subtype of a part, and of its locator if it has one. -/
structure SpaPart.Suits (k : SpaPart) (d : SpaDev) : Prop where
  type : d.dev.type = k.type
  subtype : d.dev.subtype = k.subtype
  loc : ∀ l, k.loc = some l → d.loc = some l

/-- What is configured for a part, if anything, has the type and the subtype of the part and holds nothing yet. -/
def SpaPart.Fresh (m : MacSuffix) (k : SpaPart) : Prop :=
  ∀ d, conf (k.uid m) = some d → d.dev.type = k.type ∧ d.dev.subtype = k.subtype ∧ d.dev.data = .raw 0

/-! ## Stored bytes -/

/-- Of the devices of a part, all but the temperatures keep a state. -/
theorem SpaPart.Suits.member {k : SpaPart} {d : SpaDev} (h : k.Suits d) (hk : k.subtype ≠ subtypeTemp) :
    getMember d.dev.devType d.dev.devSubtype = some .state := by
  rw [Device.devType, Device.devSubtype, h.type, h.subtype]
  cases k <;> first | rfl | exact absurd rfl hk

theorem SpaPart.Suits.curval {k : SpaPart} {d : SpaDev} (h : k.Suits d) (hk : k.subtype ≠ subtypeTemp) :
    curval F d = (d.dev.data.bits F).setWidth 8 := by
  unfold Balboacoll.curval getDataDev
  rw [h.member hk]
  exact setWidth_mask (by decide) (by decide) _ _

theorem word_of_ne {k : SpaPart} (hk : k.subtype ≠ subtypeTemp) (tscale : BitVec 8) (b : Nat → BitVec 8) :
    k.word tscale b = .raw ((k.value b).setWidth 64) := by
  unfold SpaPart.word
  refine if_neg ?_
  rintro (rfl | rfl)
  · exact hk rfl
  · exact hk rfl

/-- What a store leaves in a device that keeps a state. -/
theorem low_stored {dev : Device} (h : getMember dev.devType dev.devSubtype = some .state) (v : BitVec 8) :
    ((storeDataDev F .data (.raw (v.setWidth 64)) dev).data.bits F).setWidth 8 = v := by
  rw [low_storeDataDev F (storeMember_of_getMember h)]
  change (v.setWidth 64).setWidth 8 = v
  simp

/-! ## Changes of one device -/

/-- What the parts depend on: all but the devices, what they show, and the temperature. -/
def Spa.setup (s : Spa) : Spa :=
  { s with spacfg := { s.spacfg with tscale := 0, trange := false }, prevStat := [], devices := fun _ => none }

theorem setup_mac {s s' : Spa} (h : s'.setup = s.setup) : s'.macSuffix = s.macSuffix := by
  have hmac := congrArg Spa.macSuffix h
  exact hmac

theorem setup_input {s s' : Spa} (h : s'.setup = s.setup) : s'.input = s.input := by
  have hinput := congrArg Spa.input h
  exact hinput

theorem setup_ready {s s' : Spa} (h : s'.setup = s.setup) : s'.devicesReady = s.devicesReady := by
  have hready := congrArg Spa.devicesReady h
  exact hready

theorem installed_setup (s : Spa) (k : SpaPart) : k.installed s.setup.spacfg = k.installed s.spacfg := by
  cases k <;> rfl

theorem setup_installed {s s' : Spa} (h : s'.setup = s.setup) (k : SpaPart) : k.installed s'.spacfg = k.installed s.spacfg := by
  rw [← installed_setup s', h, installed_setup]

/-- The device of a part is there; when it is as it was built, it holds a byte. -/
def Shows (m : MacSuffix) (k : SpaPart) (v : BitVec 8) (s : Spa) : Prop :=
  ∃ d, s.devices (k.uid m) = some d ∧ (k.Fresh conf m → k.Suits d ∧ (k.subtype ≠ subtypeTemp → curval F d = v))

variable {F conf}

/-- A change of one device leaves the others. -/
theorem Shows.other {m : MacSuffix} {k k' : SpaPart} {v : BitVec 8} {s s' : Spa} {d : SpaDev} (h : Shows F conf m k v s)
    (hs' : s'.devices = Function.update s.devices (k'.uid m) (some d)) (hne : k ≠ k') : Shows F conf m k v s' := by
  obtain ⟨d', hd', hshow⟩ := h
  refine ⟨d', ?_, hshow⟩
  rw [hs', Function.update_of_ne (fun he => hne (uid_injective he)), hd']

variable (F conf)

theorem devices_ite {p : Prop} [Decidable p] {a b : Spa} (h : a.devices = b.devices) :
    (if p then a else b).devices = b.devices := by
  split
  · exact h
  · rfl

/-- What is configured for a part, or a new device. -/
theorem genericBuildDevice_devices (s : Spa) (k : SpaPart) :
    ∃ d, (genericBuildDevice conf s k).devices = Function.update s.devices (k.uid s.macSuffix) (some d) ∧
      (k.Fresh conf s.macSuffix → k.Suits d ∧ d.dev.data = .raw 0) := by
  unfold genericBuildDevice
  refine ⟨_, devices_ite rfl, fun hfresh => ?_⟩
  cases hconf : conf (k.uid s.macSuffix) with
  | none => exact ⟨⟨rfl, rfl, fun l hl => hl⟩, rfl⟩
  | some d =>
    obtain ⟨htype, hsubtype, hdata⟩ := hfresh d hconf
    exact ⟨⟨htype, hsubtype, fun l hl => by rw [hl]; rfl⟩, hdata⟩

/-- Building a device changes nothing else that the parts depend on. -/
theorem genericBuildDevice_setup (s : Spa) (k : SpaPart) : (genericBuildDevice conf s k).setup = s.setup := by
  unfold genericBuildDevice
  dsimp only
  split <;> rfl

/-- A device that was built holds zero. -/
theorem shows_genericBuildDevice (s : Spa) (k : SpaPart) : Shows F conf s.macSuffix k 0 (genericBuildDevice conf s k) := by
  obtain ⟨d, hdev, hfresh⟩ := genericBuildDevice_devices conf s k
  refine ⟨d, by rw [hdev, Function.update_self], fun hf => ?_⟩
  obtain ⟨hsuits, hdata⟩ := hfresh hf
  refine ⟨hsuits, fun hk => ?_⟩
  rw [hsuits.curval F hk, hdata]
  rfl

/-- Storing a part in its device. -/
theorem storePart_devices (b : Nat → BitVec 8) (upd : Bool) (s : Spa) (k : SpaPart) (d : SpaDev) :
    ∃ d', (storePart F b upd s k d).devices = Function.update s.devices (k.uid s.macSuffix) (some d') ∧
      (k.Suits d → k.Suits d' ∧ (k.subtype ≠ subtypeTemp → curval F d' = k.value b)) := by
  refine ⟨_, devices_ite rfl, fun hsuits => ?_⟩
  have hlinks := links_storeDataDev F .data (k.word s.spacfg.tscale b) d.dev
  have hsame : ∀ dev : Device, dev.type = k.type → dev.subtype = k.subtype → k.Suits { d with dev } :=
    fun _ htype hsubtype => ⟨htype, hsubtype, hsuits.loc⟩
  have hstored : k.Suits { d with dev := storeDataDev F .data (k.word s.spacfg.tscale b) d.dev } :=
    hsame _ ((congrArg Device.type hlinks).trans hsuits.type) ((congrArg Device.subtype hlinks).trans hsuits.subtype)
  by_cases htemp : upd = true ∧ (k = .curtemp ∨ k = .settemp)
  · rw [if_pos htemp]
    refine ⟨hsame _ hstored.type hstored.subtype, fun hk => absurd ?_ hk⟩
    rcases htemp.2 with rfl | rfl <;> rfl
  · rw [if_neg htemp]
    refine ⟨hstored, fun hk => ?_⟩
    rw [hstored.curval F hk, word_of_ne hk]
    exact low_stored F (hsuits.member hk) _

theorem storePart_setup (b : Nat → BitVec 8) (upd : Bool) (s : Spa) (k : SpaPart) (d : SpaDev) :
    (storePart F b upd s k d).setup = s.setup := by
  unfold storePart
  dsimp only
  split <;> rfl

theorem shows_storePart (b : Nat → BitVec 8) (upd : Bool) {m : MacSuffix} {s : Spa} (hm : s.macSuffix = m) {k : SpaPart}
    {d : SpaDev} {v : BitVec 8} (hd : s.devices (k.uid m) = some d) (h : Shows F conf m k v s) :
    Shows F conf m k (k.value b) (storePart F b upd s k d) := by
  obtain ⟨d', hdev, hstored⟩ := storePart_devices F b upd s k d
  obtain ⟨d₀, hd₀, hshow⟩ := h
  rw [hd] at hd₀
  cases hd₀
  refine ⟨d', by rw [hdev, hm, Function.update_self], fun hfresh => hstored (hshow hfresh).1⟩

/-! ## All devices -/

theorem foldl_genericBuildDevice_setup (ks : List SpaPart) (s : Spa) :
    (ks.foldl (genericBuildDevice conf) s).setup = s.setup := by
  induction ks generalizing s with
  | nil => rfl
  | cons k ks ih => rw [List.foldl_cons, ih, genericBuildDevice_setup]

theorem storeParts_setup (b : Nat → BitVec 8) (upd : Bool) (ks : List SpaPart) (s : Spa) :
    (storeParts F b upd ks s).1.setup = s.setup := by
  induction ks generalizing s with
  | nil => rfl
  | cons k ks ih =>
    unfold storeParts
    split
    · rfl
    · rw [ih, storePart_setup]

/-- After building, the devices of all parts that were built hold zero. -/
theorem shows_foldl_genericBuildDevice {m : MacSuffix} (ks : List SpaPart) {s : Spa} (hm : s.macSuffix = m) (k : SpaPart)
    (hk : k ∈ ks ∨ Shows F conf m k 0 s) : Shows F conf m k 0 (ks.foldl (genericBuildDevice conf) s) := by
  induction ks generalizing s with
  | nil => exact hk.resolve_left List.not_mem_nil
  | cons k' ks ih =>
    have hmac : (genericBuildDevice conf s k').macSuffix = m := (setup_mac (genericBuildDevice_setup conf s k')).trans hm
    refine ih hmac ?_
    by_cases he : k = k'
    · rw [he, ← hm]
      exact .inr (shows_genericBuildDevice F conf s k')
    · rcases hk with hk | hk
      · exact .inl ((List.mem_cons.mp hk).resolve_left he)
      · obtain ⟨d, hdev, -⟩ := genericBuildDevice_devices conf s k'
        rw [hm] at hdev
        exact .inr (hk.other hdev he)

/-- Where no device is missing, all parts are stored. -/
theorem shows_storeParts {m : MacSuffix} (b : Nat → BitVec 8) (upd : Bool) (ks : List SpaPart) {s : Spa} (hm : s.macSuffix = m)
    (hthere : ∀ k ∈ ks, ∃ v, Shows F conf m k v s) :
    (storeParts F b upd ks s).2 = true ∧
      ∀ k, k ∈ ks ∨ Shows F conf m k (k.value b) s → Shows F conf m k (k.value b) (storeParts F b upd ks s).1 := by
  induction ks generalizing s with
  | nil => exact ⟨rfl, fun k h => h.resolve_left List.not_mem_nil⟩
  | cons k' ks ih =>
    obtain ⟨v, hv⟩ := hthere k' List.mem_cons_self
    obtain ⟨d, hd, -⟩ := id hv
    have hstored := shows_storePart F conf b upd hm hd hv
    obtain ⟨d', hdev, -⟩ := storePart_devices F b upd s k' d
    rw [hm] at hdev
    have hthere' : ∀ k ∈ ks, ∃ v, Shows F conf m k v (storePart F b upd s k' d) := by
      intro k hk
      by_cases he : k = k'
      · rw [he]
        exact ⟨_, hstored⟩
      · obtain ⟨w, hw⟩ := hthere k (List.mem_cons_of_mem _ hk)
        exact ⟨w, hw.other hdev he⟩
    have hmac : (storePart F b upd s k' d).macSuffix = m := (setup_mac (storePart_setup F b upd s k' d)).trans hm
    obtain ⟨hall, hshow⟩ := ih hmac hthere'
    unfold storeParts
    rw [hm, hd]
    refine ⟨hall, fun k hk => hshow k ?_⟩
    by_cases he : k = k'
    · rw [he]
      exact .inr hstored
    · rcases hk with hk | hk
      · exact .inl ((List.mem_cons.mp hk).resolve_left he)
      · exact .inr (hk.other hdev he)

/-- All that the spa must have said has come in. -/
def CanBuild (s : Spa) : Prop :=
  s.macSuffix ≠ {} ∧ ¬ (s.spacfg.cfgdoneConf = false ∨ s.spacfg.cfgdonePanel = false ∨ s.spacfg.cfgdoneStatus = false)

theorem initBalboaDevs_of_not {s : Spa} (h : ¬ CanBuild s) : initBalboaDevs conf s = s := by
  unfold initBalboaDevs
  by_cases hmac : s.macSuffix = {}
  · rw [if_pos hmac]
  · rw [if_neg hmac, if_pos (not_not.mp fun hdone => h ⟨hmac, hdone⟩)]

/-- Building the devices of the installed parts. -/
theorem initBalboaDevs_of {s : Spa} (h : CanBuild s) :
    (initBalboaDevs conf s).setup = { s.setup with devicesReady := true } ∧
      (initBalboaDevs conf s).prevStat = List.replicate 23 0 ∧
      ∀ k, k.installed s.spacfg = true → Shows F conf s.macSuffix k 0 (initBalboaDevs conf s) := by
  have hsetup := foldl_genericBuildDevice_setup conf (buildOrder.filter fun k => k.installed s.spacfg) s
  unfold initBalboaDevs
  rw [if_neg h.1, if_neg h.2]
  refine ⟨congrArg (fun t : Spa => { t with devicesReady := true }) hsetup, rfl, fun k hk => ?_⟩
  exact shows_foldl_genericBuildDevice F conf (buildOrder.filter fun k => k.installed s.spacfg) rfl k
    (.inl (List.mem_filter.mpr ⟨mem_buildOrder k, hk⟩))

/-! ## Handlers -/

theorem input_storeParts (b : Nat → BitVec 8) (upd : Bool) (ks : List SpaPart) (s : Spa) :
    (storeParts F b upd ks s).1.input = s.input :=
  setup_input (storeParts_setup F b upd ks s)

theorem input_initBalboaDevs (s : Spa) : (initBalboaDevs conf s).input = s.input := by
  by_cases h : CanBuild s
  · exact setup_input (s := { s with devicesReady := true }) (initBalboaDevs_of Doubles.exact conf h).1
  · rw [initBalboaDevs_of_not conf h]

/-- A parser leaves the buffer as it is, and fails exactly when the message is too short. -/
theorem parseConfigResp_cases (data : List (BitVec 8)) (s : Spa) :
    if (if s.macSuffix = {} then 14 else 0) ≤ data.length then ∃ s', parseConfigResp conf data s = .ok s' ∧ s'.input = s.input
    else parseConfigResp conf data s = .error .readBeyond := by
  unfold parseConfigResp
  by_cases hmac : s.macSuffix = {}
  · by_cases hlen : 14 ≤ data.length
    · rw [if_pos hmac, if_pos hlen, if_neg (by omega), if_pos hmac]
      dsimp only
      split
      · exact ⟨_, rfl, rfl⟩
      · exact ⟨_, rfl, input_initBalboaDevs conf _⟩
    · rw [if_pos hmac, if_neg hlen, if_pos ⟨hmac, by omega⟩]
  · rw [if_neg hmac, if_pos (Nat.zero_le _), if_neg (fun h => hmac h.1), if_neg hmac]
    dsimp only
    split
    · exact ⟨_, rfl, rfl⟩
    · exact ⟨_, rfl, input_initBalboaDevs conf _⟩

theorem parsePanelConfigResp_cases (data : List (BitVec 8)) (s : Spa) :
    if (if s.devicesReady then 0 else 10) ≤ data.length then
      ∃ s', parsePanelConfigResp conf data s = .ok s' ∧ s'.input = s.input
    else parsePanelConfigResp conf data s = .error .readBeyond := by
  unfold parsePanelConfigResp
  cases s.devicesReady with
  | true => exact ⟨_, rfl, rfl⟩
  | false =>
    by_cases hlen : 10 ≤ data.length
    · rw [if_neg Bool.false_ne_true, if_pos hlen, if_neg Bool.false_ne_true, if_neg (by omega)]
      exact ⟨_, rfl, input_initBalboaDevs conf _⟩
    · rw [if_neg Bool.false_ne_true, if_neg hlen, if_neg Bool.false_ne_true, if_pos (by omega)]

theorem parseStatusUpdate_cases (data : List (BitVec 8)) (s : Spa) :
    if (if s.devicesReady then 29 else 16) ≤ data.length then
      ∃ r, parseStatusUpdate F conf data s = .ok r ∧ r.1.input = s.input
    else parseStatusUpdate F conf data s = .error .readBeyond := by
  unfold parseStatusUpdate
  cases hr : s.devicesReady with
  | true =>
    by_cases hlen : 29 ≤ data.length
    · rw [if_pos rfl, if_pos hlen]
      dsimp only
      rw [if_neg (by simp), if_neg (by omega)]
      split
      · exact ⟨_, rfl, rfl⟩
      · split
        · exact ⟨_, rfl, input_storeParts F _ _ _ _⟩
        · exact ⟨_, rfl, input_storeParts F _ _ _ _⟩
    · rw [if_pos rfl, if_neg hlen]
      dsimp only
      rw [if_neg (by simp), if_pos (by omega)]
  | false =>
    by_cases hlen : 16 ≤ data.length
    · rw [if_neg Bool.false_ne_true, if_pos hlen]
      dsimp only
      rw [if_pos rfl, if_neg (by omega)]
      exact ⟨_, rfl, input_initBalboaDevs conf _⟩
    · rw [if_neg Bool.false_ne_true, if_neg hlen]
      dsimp only
      rw [if_pos rfl, if_pos (by omega)]

/-! ## Statuses -/

theorem value_zero (k : SpaPart) : k.value (fun _ => 0) = 0 := by
  cases k <;> simp [SpaPart.value]

/-- The value of a part is in the bytes that a status is compared by. -/
theorem value_congr (k : SpaPart) {b b' : Nat → BitVec 8} (h : ∀ i, 6 ≤ i → i < 29 → b i = b' i) : k.value b = k.value b' := by
  have hb : ∀ i, 6 ≤ i ∧ i < 29 → b i = b' i := fun i hi => h i hi.1 hi.2
  cases k <;> simp only [SpaPart.value, hb _ (show 6 ≤ 7 ∧ 7 < 29 by decide), hb _ (show 6 ≤ 10 ∧ 10 < 29 by decide),
    hb _ (show 6 ≤ 15 ∧ 15 < 29 by decide), hb _ (show 6 ≤ 16 ∧ 16 < 29 by decide), hb _ (show 6 ≤ 17 ∧ 17 < 29 by decide),
    hb _ (show 6 ≤ 18 ∧ 18 < 29 by decide), hb _ (show 6 ≤ 19 ∧ 19 < 29 by decide), hb _ (show 6 ≤ 20 ∧ 20 < 29 by decide),
    hb _ (show 6 ≤ 25 ∧ 25 < 29 by decide)]

/-- A byte of the last status, by its place in the message. -/
def Spa.prevByte (s : Spa) (i : Nat) : BitVec 8 := s.prevStat.getD (i - 6) 0

theorem prevByte_zero {s : Spa} (h : s.prevStat = List.replicate 23 0) : s.prevByte = fun _ => 0 := by
  funext i
  unfold Spa.prevByte
  rw [h, List.getD_eq_getElem?_getD, List.getElem?_replicate]
  split <;> rfl

theorem value_prevByte {s : Spa} {data : List (BitVec 8)} (h : s.prevStat = statusBytes data) (k : SpaPart) :
    k.value s.prevByte = k.value fun i => data.getD i 0 := by
  refine value_congr k fun i h6 h29 => ?_
  unfold Spa.prevByte statusBytes at *
  rw [h, List.getD_eq_getElem?_getD, List.getElem?_take_of_lt (by omega), List.getElem?_drop, Nat.add_sub_cancel' h6,
    List.getD_eq_getElem?_getD]

/-- The address is known, and the devices of all installed parts are there and hold what the last status says. -/
structure Healthy (s : Spa) : Prop where
  mac : s.macSuffix ≠ {}
  shows : ∀ k, k.installed s.spacfg = true → Shows F conf s.macSuffix k (k.value s.prevByte) s

variable {F conf}

/-- Just built devices hold what a status of zeros says. -/
theorem healthy_initBalboaDevs {s : Spa} (h : CanBuild s) : Healthy F conf (initBalboaDevs conf s) := by
  obtain ⟨hsetup, hprev, hshow⟩ := initBalboaDevs_of F conf h
  have hmac : (initBalboaDevs conf s).macSuffix = s.macSuffix := setup_mac (s := { s with devicesReady := true }) hsetup
  have hinst := setup_installed (s := { s with devicesReady := true }) hsetup
  refine ⟨hmac ▸ h.1, fun k hk => ?_⟩
  rw [hmac, prevByte_zero hprev, value_zero]
  exact hshow k ((hinst k).symm.trans hk)

/-- Storing a status that is not as the last; `t` is the state with the new scale. -/
theorem Healthy.store {s t : Spa} (hh : Healthy F conf s) (hsetup' : t.setup = s.setup) (hdev : t.devices = s.devices)
    (data : List (BitVec 8)) (upd : Bool) :
    let r := storeParts F (fun k => data.getD k 0) upd (statusOrder.filter fun k => k.installed t.spacfg) t
    r.2 = true ∧ r.1.setup = s.setup ∧ Healthy F conf { r.1 with prevStat := statusBytes data } := by
  have hshow' : ∀ k, k.installed s.spacfg = true → Shows F conf s.macSuffix k (k.value s.prevByte) t := by
    intro k hk
    obtain ⟨d, hd, hshow⟩ := hh.shows k hk
    exact ⟨d, hdev ▸ hd, hshow⟩
  have hsetup := storeParts_setup F (fun k => data.getD k 0) upd (statusOrder.filter fun k => k.installed t.spacfg) t
  obtain ⟨hall, hshow⟩ := shows_storeParts F conf (fun k => data.getD k 0) upd (statusOrder.filter fun k => k.installed t.spacfg)
    (setup_mac hsetup') (fun k hk => ⟨_, hshow' k (setup_installed hsetup' k ▸ (List.mem_filter.mp hk).2)⟩)
  have hmac := setup_mac (hsetup.trans hsetup')
  refine ⟨hall, hsetup.trans hsetup', ?_, fun k hk => ?_⟩
  · rw [hmac]
    exact hh.mac
  · have hin : k.installed t.spacfg = true := (setup_installed hsetup k).symm.trans hk
    obtain ⟨d, hd, hv⟩ := hshow k (.inl (List.mem_filter.mpr ⟨mem_statusOrder k, hin⟩))
    rw [value_prevByte rfl]
    dsimp only
    rw [hmac]
    exact ⟨d, hd, hv⟩

/-- A status, whether it is stored or is as the last: the devices hold what it says. -/
theorem Healthy.parseStatusUpdate {s : Spa} (hh : Healthy F conf s) (hready : s.devicesReady = true) {data : List (BitVec 8)}
    {r : Spa × Bool} (h : parseStatusUpdate F conf data s = .ok r) :
    29 ≤ data.length ∧ r.1.setup = s.setup ∧ r.1.prevStat = statusBytes data ∧ Healthy F conf r.1 := by
  unfold Balboacoll.parseStatusUpdate at h
  dsimp only at h
  rw [if_neg (by rw [hready]; exact Bool.noConfusion)] at h
  by_cases hlen : data.length < 29
  · rw [if_pos hlen] at h
    cases h
  rw [if_neg hlen] at h
  by_cases hsame : s.prevStat = statusBytes data
  · rw [if_pos hsame] at h
    cases h
    exact ⟨Nat.le_of_not_lt hlen, rfl, hsame, hh⟩
  rw [if_neg hsame] at h
  obtain ⟨hall, hsetup, hhealthy⟩ := hh.store
    (t := { s with spacfg := { s.spacfg with tscale := statusTscale fun k => data.getD k 0 } }) rfl rfl data
    (statusTscale (fun k => data.getD k 0) != s.spacfg.tscale)
  cases (if_pos hall).symm.trans h
  exact ⟨Nat.le_of_not_lt hlen, hsetup, rfl, hhealthy⟩

end Gnhast.Balboacoll
