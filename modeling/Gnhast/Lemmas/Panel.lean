import Gnhast.Ad2usbcoll
import Gnhast.Lemmas.Accessors

/-!
# Updates of the devices of a panel

When `update_int_dev` and the loops around it come to an end, and what they change. Whether a device can be updated is a matter of its
types, and of its name where nothing can be read from it; no update changes that.
-/

namespace Gnhast.Ad2usbcoll

open CStr Faults Buffers

variable {F : Doubles} {conf : PanelConf}

/-- `store_data_dev` does not read behind an `int` for the device. -/
def StoresInt (dev : Device) : Prop :=
  storeMember dev.devType dev.devSubtype ≠ some .ll ∧ storeMember dev.devType dev.devSubtype ≠ some .d

/-- `update_int_dev` can be used on a device: it holds a byte, or it has no byte to read and no name. -/
def HoldsInt (dev : Device) : Prop :=
  StoresInt dev ∧ (getMember dev.devType dev.devSubtype = some .state ∨
    (getMember dev.devType dev.devSubtype = none ∧ dev.name = none))

instance (dev : Device) : Decidable (StoresInt dev) := inferInstanceAs (Decidable (_ ∧ _))

instance (dev : Device) : Decidable (HoldsInt dev) := inferInstanceAs (Decidable (_ ∧ _))

/-- The uid with a suffix. -/
def PanelConf.uid (conf : PanelConf) (suffix : Str) : Str := conf.uidprefix ++ chMinus :: suffix

/-- There is room for the uid with a suffix. -/
def Room (conf : PanelConf) (suffix : Str) : Prop := (conf.uid suffix).length < 256

instance (suffix : Str) : Decidable (Room conf suffix) := inferInstanceAs (Decidable (_ < _))

/-- Whether the device with a uid is known, and whether it can be updated. -/
def Panel.known (s : Panel) (uid : Str) : Option Bool := (s.devices uid).map fun dev => decide (HoldsInt dev)

/-- The device with a suffix is known and can be updated. -/
def Takes (conf : PanelConf) (s : Panel) (suffix : Str) : Prop := Room conf suffix ∧ s.known (conf.uid suffix) = some true

/-- The device with a suffix can be updated if it is known. -/
def MayTake (conf : PanelConf) (s : Panel) (suffix : Str) : Prop := Room conf suffix ∧ s.known (conf.uid suffix) ≠ some false

instance (s : Panel) (suffix : Str) : Decidable (Takes conf s suffix) := inferInstanceAs (Decidable (_ ∧ _))

instance (s : Panel) (suffix : Str) : Decidable (MayTake conf s suffix) := inferInstanceAs (Decidable (_ ∧ _))

/-- A device in which nothing is stored is as before. -/
def Framed (s s' : Panel) (out : List PanelOut) : Prop := ∀ u, (∀ w, PanelOut.stored u w ∉ out) → s'.devices u = s.devices u

theorem Framed.refl (s : Panel) : Framed s s [] := fun _ _ => rfl

theorem Framed.append {s s' s'' : Panel} {out out' : List PanelOut} (h : Framed s s' out) (h' : Framed s' s'' out') :
    Framed s s'' (out ++ out') := by
  intro u hu
  rw [h' u fun w hw => hu w (List.mem_append_right _ hw), h u fun w hw => hu w (List.mem_append_left _ hw)]

/-- What is stored goes to devices with some uids, the others are as before, and the same devices are known. -/
structure Stores (U : Str → Prop) (s s' : Panel) (out : List PanelOut) : Prop where
  known : s'.known = s.known
  length : s'.zonefaults.length = s.zonefaults.length
  within : ∀ u w, PanelOut.stored u w ∈ out → U u
  frame : Framed s s' out

theorem Stores.refl {U : Str → Prop} (s : Panel) : Stores U s s [] :=
  ⟨rfl, rfl, fun _ _ h => (List.not_mem_nil h).elim, .refl s⟩

theorem Stores.append {U : Str → Prop} {s s' s'' : Panel} {out out' : List PanelOut} (h : Stores U s s' out)
    (h' : Stores U s' s'' out') : Stores U s s'' (out ++ out') := by
  refine ⟨h'.known.trans h.known, h'.length.trans h.length, ?_, h.frame.append h'.frame⟩
  intro u w hw
  rcases List.mem_append.mp hw with hw | hw
  · exact h.within u w hw
  · exact h'.within u w hw

theorem Stores.mono {U V : Str → Prop} {s s' : Panel} {out : List PanelOut} (h : Stores U s s' out) (hUV : ∀ u, U u → V u) :
    Stores V s s' out :=
  ⟨h.known, h.length, fun u w hw => hUV u (h.within u w hw), h.frame⟩

theorem Stores.takes_iff {U : Str → Prop} {s s' : Panel} {out : List PanelOut} (h : Stores U s s' out) {suffix : Str} :
    Takes conf s' suffix ↔ Takes conf s suffix := by
  rw [Takes, Takes, h.known]

theorem Stores.mayTake_iff {U : Str → Prop} {s s' : Panel} {out : List PanelOut} (h : Stores U s s' out) {suffix : Str} :
    MayTake conf s' suffix ↔ MayTake conf s suffix := by
  rw [MayTake, MayTake, h.known]

/-! ## One device -/

theorem intoBuffer_settles (size : Nat) (text : Str) : Faults.Settles (fun _ => True) (text.length < size) (intoBuffer size text) := by
  unfold intoBuffer
  split
  · rename_i h
    exact settles_ok h _
  · rename_i h
    exact settles_error h trivial

theorem intoBuffer_eq_ok {size : Nat} {text t : Str} (h : intoBuffer size text = .ok t) : t = text := by
  unfold intoBuffer at h
  split at h
  · cases h
    rfl
  · cases h

theorem intoBuffer_of_lt {size : Nat} {text : Str} (h : text.length < size) : intoBuffer size text = .ok text := if_pos h

theorem devUid_settles (suffix : Str) : Faults.Settles (fun _ => True) (Room conf suffix) (devUid conf suffix) := intoBuffer_settles _ _

theorem devUid_eq_ok {suffix t : Str} (h : devUid conf suffix = .ok t) : t = conf.uid suffix := intoBuffer_eq_ok h

theorem room_of_devUid {suffix t : Str} (h : devUid conf suffix = .ok t) : Room conf suffix := by
  by_contra hn
  obtain ⟨e, he, -⟩ := (devUid_settles suffix).stops hn
  rw [he] at h
  cases h

/-- A line that says nothing but the data is always printed. -/
theorem updateLine_ok (dev : Device) : ∃ out, updateLine F dev = .ok out ∧ ∀ u w, PanelOut.stored u w ∉ out := by
  have hplain : ∃ line, gnUpdateDevice F dev gncNoscale = .ok line :=
    gnUpdateDevice_plain F dev (by decide) (by decide) (by decide)
  obtain ⟨line, hline⟩ := hplain
  refine ⟨_, by rw [updateLine, hline], fun u w hw => ?_⟩
  cases line with
  | none => cases hw
  | some line => simp at hw

theorem storeInt_settles (val : BitVec 32) (dev : Device) : Faults.Settles (fun _ => True) (StoresInt dev) (storeInt F val dev) := by
  unfold storeInt StoresInt
  split
  · rename_i h
    exact settles_error (fun hn => hn.1 h) trivial
  · rename_i h
    exact settles_error (fun hn => hn.2 h) trivial
  · rename_i h1 h2
    exact settles_ok ⟨h1, h2⟩ _

theorem holdsInt_storeDataDev (loc : DataLoc) (w : Word) (dev : Device) : HoldsInt (storeDataDev F loc w dev) ↔ HoldsInt dev := by
  obtain ⟨h1, h2⟩ := types_storeDataDev F loc w dev
  simp only [HoldsInt, StoresInt, h1, h2, name_storeDataDev]

theorem storeInt_eq_ok {val : BitVec 32} {dev dev' : Device} (h : storeInt F val dev = .ok dev') :
    (HoldsInt dev' ↔ HoldsInt dev) ∧ dev'.name = dev.name := by
  unfold storeInt at h
  split at h
  · cases h
  · cases h
  · cases h
    exact ⟨holdsInt_storeDataDev _ _ _, name_storeDataDev F _ _ _⟩

theorem sendChange_settles (prevval : Option (BitVec 8)) (val : BitVec 32) (first send : Bool) (dev : Device) :
    Faults.Settles (fun _ => True) (dev.name = none ∨ prevval ≠ none) (sendChange F prevval val first send dev) := by
  obtain ⟨out, hout, -⟩ := updateLine_ok (F := F) dev
  unfold sendChange
  rw [hout]
  split
  · rename_i hn
    exact settles_ok (Or.inl hn) _
  · rename_i name hn
    exact settles_error (by simp [hn]) trivial
  · split
    · exact settles_ok (by simp) _
    · exact settles_ok (by simp) _

theorem notMem_sendChange {prevval : Option (BitVec 8)} {val : BitVec 32} {first send : Bool} {dev : Device} {out : List PanelOut}
    (h : sendChange F prevval val first send dev = .ok out) (u : Str) (w : BitVec 32) : PanelOut.stored u w ∉ out := by
  obtain ⟨line, hline, hno⟩ := updateLine_ok (F := F) dev
  unfold sendChange at h
  rw [hline] at h
  split at h
  · cases h
    exact List.not_mem_nil
  · cases h
  · split at h
    · cases h
      exact hno u w
    · cases h
      exact List.not_mem_nil

theorem getByte_settles (dev : Device) : Faults.Settles (fun _ => True)
    (getMember dev.devType dev.devSubtype = some .state ∨ getMember dev.devType dev.devSubtype = none) (getByte F dev) := by
  unfold getByte
  split
  · rename_i h
    exact settles_ok (Or.inl h) _
  · rename_i h
    exact settles_ok (Or.inr h) _
  · rename_i m hm h
    refine settles_error ?_ trivial
    rintro (h' | h')
    · exact hm (Option.some.inj (h.symm.trans h'))
    · exact absurd (h.symm.trans h') (by simp)

/-- The local is assigned exactly when the device holds a byte. -/
theorem getByte_eq_ok {dev : Device} {prevval : Option (BitVec 8)} (h : getByte F dev = .ok prevval) :
    prevval ≠ none ↔ getMember dev.devType dev.devSubtype = some .state := by
  unfold getByte at h
  split at h
  · rename_i hm
    cases h
    simp [hm]
  · rename_i hm
    cases h
    simp [hm]
  · cases h

theorem updateIntDev_settles (val : BitVec 32) (suffix : Str) (send : Bool) (s : Panel) :
    Faults.Settles (fun _ => True) (Takes conf s suffix) (updateIntDev F conf val suffix send s) := by
  unfold updateIntDev Takes
  refine (devUid_settles suffix).bind fun buf hbuf => ?_
  obtain rfl := devUid_eq_ok hbuf
  unfold Panel.known
  cases hd : s.devices (conf.uid suffix) with
  | none => exact settles_error (by simp) trivial
  | some dev =>
    refine Faults.Settles.congr ((getByte_settles dev).bind (q := StoresInt dev ∧ (dev.name = none ∨
      getMember dev.devType dev.devSubtype = some .state)) fun prevval hp => ?_) ?_
    · refine (storeInt_settles val dev).bind fun dev' hdev' => (Faults.Settles.map ?_ _)
      rw [← getByte_eq_ok hp, ← (storeInt_eq_ok hdev').2]
      exact sendChange_settles _ _ _ _ _
    · rw [Option.map_some, Option.some.injEq, decide_eq_true_iff]
      unfold HoldsInt
      tauto

/-- What `update_int_dev` does. -/
theorem updateIntDev_eq_ok {val : BitVec 32} {suffix : Str} {send : Bool} {s s' : Panel} {out : List PanelOut}
    (h : updateIntDev F conf val suffix send s = .ok (s', out)) :
    Stores (· = conf.uid suffix) s s' out ∧ s'.zonefaults = s.zonefaults ∧ PanelOut.stored (conf.uid suffix) val ∈ out ∧
      ∀ u w, PanelOut.stored u w ∈ out → w = val := by
  unfold updateIntDev at h
  obtain ⟨buf, hbuf, h⟩ := bind_eq_ok.mp h
  obtain rfl := devUid_eq_ok hbuf
  cases hd : s.devices (conf.uid suffix) with
  | none =>
    rw [hd] at h
    cases h
  | some dev =>
    rw [hd] at h
    obtain ⟨prevval, -, h⟩ := bind_eq_ok.mp h
    obtain ⟨dev', hdev', h⟩ := bind_eq_ok.mp h
    obtain ⟨sent, hsent, hr⟩ := map_eq_ok.mp h
    cases hr
    have hno := notMem_sendChange hsent
    have hmem : ∀ u w, PanelOut.stored u w ∈ PanelOut.stored (conf.uid suffix) val :: sent → u = conf.uid suffix ∧ w = val := by
      intro u w hw
      rcases List.mem_cons.mp hw with hw | hw
      · cases hw
        exact ⟨rfl, rfl⟩
      · exact absurd hw (hno u w)
    refine ⟨⟨?_, rfl, fun u w hw => (hmem u w hw).1, ?_⟩, rfl, List.mem_cons_self, fun u w hw => (hmem u w hw).2⟩
    · funext u
      simp only [Panel.known]
      by_cases hu : u = conf.uid suffix
      · subst hu
        rw [Function.update_self, hd, Option.map_some, Option.map_some, decide_eq_decide.mpr (storeInt_eq_ok hdev').1]
      · rw [Function.update_of_ne hu]
    · intro u hu
      refine Function.update_of_ne ?_ _ _
      rintro rfl
      exact hu val List.mem_cons_self

theorem updateKnown_settles (val : Option (BitVec 32)) (suffix : Str) (s : Panel) :
    Faults.Settles (fun _ => True) (MayTake conf s suffix ∧ (val = none → s.known (conf.uid suffix) = none))
      (updateKnown F conf val suffix s) := by
  unfold updateKnown
  refine Faults.Settles.congr ((devUid_settles suffix).bind (q := s.known (conf.uid suffix) ≠ some false ∧
    (val = none → s.known (conf.uid suffix) = none)) fun buf hbuf => ?_) and_assoc.symm
  have hroom := room_of_devUid hbuf
  obtain rfl := devUid_eq_ok hbuf
  cases hd : s.devices (conf.uid suffix) with
  | none => exact settles_ok (by simp [Panel.known, hd]) _
  | some dev =>
    cases val with
    | none => exact settles_error (by simp [Panel.known, hd]) trivial
    | some val =>
      refine (updateIntDev_settles val suffix true s).congr ?_
      simp [Takes, hroom, Panel.known, hd]

theorem updateKnown_eq_ok {val : Option (BitVec 32)} {suffix : Str} {s s' : Panel} {out : List PanelOut}
    (h : updateKnown F conf val suffix s = .ok (s', out)) :
    Stores (· = conf.uid suffix) s s' out ∧ s'.zonefaults = s.zonefaults := by
  unfold updateKnown at h
  obtain ⟨buf, hbuf, h⟩ := bind_eq_ok.mp h
  obtain rfl := devUid_eq_ok hbuf
  split at h
  · cases h
    exact ⟨.refl _, rfl⟩
  · split at h
    · cases h
    · obtain ⟨hs, hz, -⟩ := updateIntDev_eq_ok h
      exact ⟨hs, hz⟩

/-! ## Loops over devices -/

theorem updates_settles (us : List (Str × BitVec 32)) (s : Panel) :
    Faults.Settles (fun _ => True) (∀ u ∈ us, Takes conf s u.1) (rounds (fun u s => updateIntDev F conf u.2 u.1 true s) us s) := by
  have hround : ∀ (u : Str × BitVec 32) (s : Panel), Faults.Settles (fun _ => True) (Takes conf s u.1)
      (updateIntDev F conf u.2 u.1 true s) := fun u s => updateIntDev_settles u.2 u.1 true s
  refine settles_rounds hround ?_ s
  exact List.pairwise_of_forall fun u u' s s' out h => (updateIntDev_eq_ok h).1.takes_iff

theorem updates_stores {us : List (Str × BitVec 32)} {s s' : Panel} {out : List PanelOut}
    (h : rounds (fun u s => updateIntDev F conf u.2 u.1 true s) us s = .ok (s', out)) : Stores (fun _ => True) s s' out :=
  rounds_induct (Q := Stores fun _ => True) .refl .append
    (fun _ _ _ _ _ hu => (updateIntDev_eq_ok hu).1.mono fun _ _ => trivial) h

/-! ## Names that fit their buffers -/

theorem length_padNat_le {w n k : Nat} (hw : w ≤ k) (hn : (decNat n).length ≤ k) : (padNat w n).length ≤ k := by
  rw [padNat, List.length_append, List.length_replicate]
  omega

theorem natAbs_toInt_lt (v : BitVec 32) : v.toInt.natAbs < 10 ^ 10 := by
  have h1 := v.toInt_lt
  have h2 := v.le_toInt
  omega

theorem length_fmtDigits_le (places : Nat) (hp : places ≤ 10) (v : BitVec 32) : (fmtDigits places v).length ≤ 11 := by
  have hpad := length_padNat_le hp (length_decNat_le (by decide) (natAbs_toInt_lt v))
  unfold fmtDigits
  split
  · exact Nat.succ_le_succ hpad
  · exact Nat.le_succ_of_le hpad

theorem length_zoneName_lt {z : ℤ} (h : z.natAbs < 10 ^ 10) : (zoneName z).length < 16 := by
  have hz := length_decInt_le (by decide) h
  rw [zoneName, List.length_append]
  have hstr : (str "zone").length = 4 := by decide
  omega

theorem length_zone_lt {i : Nat} (h : i < conf.count) : (zoneName (i + 1)).length < 16 := by
  refine length_zoneName_lt ?_
  have hlt := conf.zones.toInt_lt
  unfold PanelConf.count at h
  omega

theorem length_extraName_lt {kind : Str} (hk : kind.length ≤ 4) (addr input : BitVec 32) : (extraName kind addr input).length < 32 := by
  have h1 := length_fmtDigits_le 2 (by decide) addr
  have h2 := length_fmtDigits_le 2 (by decide) input
  simp only [extraName, List.length_append, List.length_cons]
  omega

theorem length_rfxName_lt {serial : BitVec 32} {d : Str × BitVec 8} (hd : d ∈ rfxNames serial) : d.1.length < 32 := by
  have h := length_fmtDigits_le 7 (by decide) serial
  have hl : (str "-l").length = 2 := by decide
  have hb : (str "-lowbat").length = 7 := by decide
  have hn : ∀ n ≤ 4, (decNat n).length ≤ 1 := fun n hn => length_decNat_le (by decide) (by omega)
  rcases List.mem_append.mp hd with hd | hd
  · obtain ⟨l, hl', rfl⟩ := List.mem_map.mp hd
    have hl4 : l.1 ≤ 4 := by
      have hall : ∀ l ∈ loops, l.1 ≤ 4 := by decide
      exact hall l hl'
    have := hn l.1 hl4
    simp only [List.length_append]
    omega
  · rw [List.mem_singleton.mp hd]
    simp only [List.length_append]
    omega

/-! ## Devices that are built -/

/-- The device that `new_int_dev` builds. -/
def built (conf : PanelConf) (subtype : BitVec 8) (uid : Str) : Device :=
  (conf.newDevFromConf uid).getD { uid := uid, type := deviceSensor, proto := protoSensorAd2usb, subtype := subtype }

theorem announce_ok (connected : Bool) (dev : Device) :
    ∃ out, announce F connected dev = .ok out ∧ ∀ u w, PanelOut.stored u w ∉ out := by
  obtain ⟨out, hout, hno⟩ := updateLine_ok (F := F) dev
  unfold announce
  rw [hout]
  split
  · refine ⟨_, rfl, fun u w hw => ?_⟩
    rcases List.mem_append.mp hw with hw | hw
    · rcases hreg : gnRegisterDevice dev with _ | line
      · simp [hreg] at hw
      · simp [hreg] at hw
    · exact hno u w hw
  · exact ⟨[], rfl, fun u w => List.not_mem_nil⟩

theorem newIntDev_settles (subtype : BitVec 8) (val : BitVec 32) (suffix : Str) (s : Panel) :
    Faults.Settles (fun _ => True) (Room conf suffix ∧ StoresInt (built conf subtype (conf.uid suffix)))
      (newIntDev F conf subtype val suffix s) := by
  unfold newIntDev
  refine (devUid_settles suffix).bind fun buf hbuf => ?_
  obtain rfl := devUid_eq_ok hbuf
  refine Faults.Settles.congr ((storeInt_settles val _).bind (q := True) fun dev' _ => (Faults.Settles.map ?_ _)) (and_iff_left trivial)
  obtain ⟨out, hout, -⟩ := announce_ok (F := F) s.connected dev'
  rw [hout]
  exact settles_ok trivial _

/-- What `new_int_dev` does: the device is known from then on. -/
theorem newIntDev_eq_ok {subtype : BitVec 8} {val : BitVec 32} {suffix : Str} {s s' : Panel} {out : List PanelOut}
    (h : newIntDev F conf subtype val suffix s = .ok (s', out)) :
    s'.known = Function.update s.known (conf.uid suffix) (some (decide (HoldsInt (built conf subtype (conf.uid suffix))))) ∧
      s'.zonefaults = s.zonefaults ∧ Framed s s' out ∧ ∀ u w, PanelOut.stored u w ∈ out → u = conf.uid suffix := by
  unfold newIntDev at h
  obtain ⟨buf, hbuf, h⟩ := bind_eq_ok.mp h
  obtain rfl := devUid_eq_ok hbuf
  obtain ⟨dev', hdev', h⟩ := bind_eq_ok.mp h
  obtain ⟨sent, hsent, hr⟩ := map_eq_ok.mp h
  obtain ⟨sent', hsent', hno⟩ := announce_ok (F := F) s.connected dev'
  rw [hsent'] at hsent
  cases hsent
  cases hr
  refine ⟨?_, rfl, ?_, ?_⟩
  · funext u
    simp only [Panel.known]
    by_cases hu : u = conf.uid suffix
    · subst hu
      rw [Function.update_self, Function.update_self, Option.map_some, decide_eq_decide.mpr (storeInt_eq_ok hdev').1]
      rfl
    · rw [Function.update_of_ne hu, Function.update_of_ne hu]
      rfl
  · intro u hu
    refine Function.update_of_ne ?_ _ _
    rintro rfl
    exact hu val List.mem_cons_self
  · intro u w hw
    rcases List.mem_cons.mp hw with hw | hw
    · cases hw
      rfl
    · exact absurd hw (hno u w)

/-- What building a device of the panel does: it is known afterwards, and what was known still is. -/
theorem buildRound_eq_ok {d : Str × BitVec 8 × BitVec 32} {s s' : Panel} {out : List PanelOut}
    (h : buildRound F conf d s = .ok (s', out)) :
    (Room conf d.1 ∧ s'.known (conf.uid d.1) ≠ none) ∧ (∀ u, s.known u ≠ none → s'.known u ≠ none) ∧
      ((∀ uid, HoldsInt (built conf d.2.1 uid)) → (∀ u, s.known u ≠ some false) → ∀ u, s'.known u ≠ some false) := by
  unfold buildRound at h
  obtain ⟨buf, hbuf, hrest⟩ := bind_eq_ok.mp h
  obtain rfl := intoBuffer_eq_ok hbuf
  obtain ⟨buf2, hbuf2, hbuild⟩ := bind_eq_ok.mp hrest
  have hroom := room_of_devUid hbuf2
  obtain rfl := devUid_eq_ok hbuf2
  split at hbuild
  · obtain ⟨hknown, -⟩ := newIntDev_eq_ok hbuild
    rw [hknown]
    refine ⟨⟨hroom, by rw [Function.update_self]; simp⟩, fun u hu => ?_, fun hint hgood u => ?_⟩
    · by_cases he : u = conf.uid d.1
      · rw [he, Function.update_self]
        simp
      · rw [Function.update_of_ne he]
        exact hu
    · by_cases he : u = conf.uid d.1
      · rw [he, Function.update_self, decide_eq_true (hint _)]
        simp
      · rw [Function.update_of_ne he]
        exact hgood u
  · rename_i dev hd
    cases hbuild
    exact ⟨⟨hroom, by simp [Panel.known, hd]⟩, fun u hu => hu, fun _ hgood => hgood⟩

/-- After `maybe_dump_conf` the devices of the panel can be updated, when the configuration has no others in their place. -/
theorem maybeDumpConf_takes {zones : Nat} (hconf : ∀ d ∈ panelDevices zones, ∀ uid, HoldsInt (built conf d.2.1 uid)) {s s' : Panel}
    {out : List PanelOut} (hs : ∀ u, s.known u ≠ some false) (h : maybeDumpConf F conf zones s = .ok (s', out)) :
    ∀ d ∈ panelDevices zones, Takes conf s' d.1 := by
  have hknown : ∀ d ∈ panelDevices zones, Room conf d.1 ∧ s'.known (conf.uid d.1) ≠ none := by
    refine rounds_establish (P := fun (d : Str × BitVec 8 × BitVec 32) (s : Panel) =>
      Room conf d.1 ∧ s.known (conf.uid d.1) ≠ none) ?_ ?_ h
    · intro d s s' out hbuild
      exact (buildRound_eq_ok hbuild).1
    · intro d d' s s' out hbuild hd
      exact ⟨hd.1, (buildRound_eq_ok hbuild).2.1 _ hd.2⟩
  have hgood : ∀ u, s'.known u ≠ some false := by
    refine rounds_induct (Q := fun (s s' : Panel) _ => (∀ u, s.known u ≠ some false) → ∀ u, s'.known u ≠ some false) ?_ ?_ ?_ h hs
    · exact fun _ hs => hs
    · exact fun h h' hs => h' (h hs)
    · exact fun d hd s s' out hbuild => (buildRound_eq_ok hbuild).2.2 (hconf d hd)
  intro d hd
  obtain ⟨hroom, hne⟩ := hknown d hd
  refine ⟨hroom, ?_⟩
  rcases hk : s'.known (conf.uid d.1) with _ | _ | _
  · exact absurd hk hne
  · exact absurd hk (hgood _)
  · rfl

end Gnhast.Ad2usbcoll
