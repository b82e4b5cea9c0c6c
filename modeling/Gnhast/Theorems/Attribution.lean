import Gnhast.Insteoncoll
import Gnhast.Lemmas.Insteon

/-!
# Whose data a standard message changes

The collector looks up a message by the address it came from, as the name of a device. While a status request is at the head of the
queue, every message is taken for the answer to it, whoever sent it.
-/

namespace Gnhast.Insteon

open CStr

variable (F : Doubles)

/-! ## What is claimed -/

/-- Between two states, only devices with an address have other data, and updates are sent for such devices only. -/
structure Attributed (addr : Vector Octet 3) (coll coll' : Coll) : Prop where
  data : ∀ d, (coll.dev d).dd.daddr ≠ addr →
    (coll'.dev d).dev.data = (coll.dev d).dev.data ∧ (coll'.dev d).dev.last = (coll.dev d).dev.last
  upds : ∃ new, coll'.upds = coll.upds ++ new ∧ ∀ p ∈ new, (coll.dev p.1).dd.daddr = addr

/-! ## What the handler does -/

/-- What a command that is not an answer stores: the state and the level. -/
def com1Writes (flags com1 com2 : Octet) : Option (Octet × ℚ) :=
  let grouped := flags &&& plmflagGroup ≠ 0 ∧ com2 = 0
  if com1 = stdcmdOn ∨ com1 = stdcmdFaston then some (if grouped then 1 else com2, if grouped then 100 else levelOf F com2)
  else if com1 = stdcmdOff ∨ com1 = stdcmdFastoff then some (if grouped then 0 else com2, if grouped then 0 else levelOf F com2)
  else none

/-- The device whose data a message changes, with the state and the level that are stored: the device that a status request at the
head of the queue names, else the one that has the sender's address for a name. -/
def written (fromaddr : Vector Octet 3) (flags com1 com2 : Octet) (coll : Coll) : Option (DevId × Octet × ℚ) :=
  match coll.devices (addrToString fromaddr) with
  | none => none
  | some d =>
    match coll.plm.cmdfifo.head?.filter fun cmd => (getElem cmd.cmd 6 cmdAt6) == stdcmdStatusreq with
    | some cmd =>
      (coll.statusDevice cmd d).map fun d => (d, if 0 < com2 then 1 else 0, levelOf F com2)
    | none => (com1Writes F flags com1 com2).map fun w => (d, w)

/-- A device that `gn_update_device` sends an update for. -/
def Announced (dev : Device) : Prop := dev.name ≠ none ∧ dev.type ≠ 0 ∧ dev.subtype ≠ 0 ∧ dev.proto ≠ 0

/-- Nothing of a device is stored or sent. -/
structure Quiet (coll coll' : Coll) : Prop where
  dev : ∀ d, (coll'.dev d).dev.data = (coll.dev d).dev.data ∧ (coll'.dev d).dev.last = (coll.dev d).dev.last
  upds : coll'.upds = coll.upds

/-- One device stores a state or a level, and an update is sent for it. -/
structure Stored (d : DevId) (s : Octet) (level : ℚ) (coll coll' : Coll) : Prop where
  others : ∀ d', d' ≠ d → (coll'.dev d').dev.data = (coll.dev d').dev.data ∧ (coll'.dev d').dev.last = (coll.dev d').dev.last
  data : (coll'.dev d).dev.data = (storelog F s level (coll.dev d).dev).data ∧
    (coll'.dev d).dev.last = (storelog F s level (coll.dev d).dev).last
  upds : ∃ line : Option Str, coll'.upds = coll.upds ++ line.toList.map (fun text => (d, text)) ∧
    (line = none ↔ ¬ Announced (coll.dev d).dev)

/-- Storing data leaves alone what an update needs. -/
theorem announced_storelog (s : Octet) (level : ℚ) (dev : Device) : Announced (storelog F s level dev) ↔ Announced dev := by
  have hstore : ∀ w, Announced (storeDataDev F .data w dev) ↔ Announced dev := by
    intro w
    unfold storeDataDev
    dsimp only
    split
    · split <;> rfl
    · split <;> rfl
  unfold storelog storelogSwitch storelogDimmer
  split
  · exact hstore _
  · exact hstore _

/-- Without the flags that ask for more, `gn_update_device` needs nothing but a device with a name and types. -/
theorem gnUpdateDevice_noscale (dev : Device) : ∃ line, gnUpdateDevice F dev gncNoscale = .ok line ∧ (line = none ↔ ¬ Announced dev) := by
  unfold gnUpdateDevice Announced
  cases hname : dev.name with
  | none => exact ⟨none, rfl, by simp⟩
  | some name =>
    dsimp only
    split
    · rename_i h
      exact ⟨none, rfl, by simp; tauto⟩
    · rename_i h
      have hcacti : queryBit gncNoscale gncUpdCacti = false := by decide
      have htags : (queryBit gncNoscale gncUpdTags || queryBit gncNoscale gncUpdFull) = false := by decide
      rw [hcacti, htags]
      refine ⟨_, rfl, ?_⟩
      simp; tauto

theorem storeUpdate_stored (coll : Coll) (d : DevId) (s : Octet) (level : ℚ) :
    ∃ coll', coll.storeUpdate F d s level = .ok coll' ∧ Stored F d s level coll coll' := by
  unfold Coll.storeUpdate
  dsimp only
  obtain ⟨line, hline, hnone⟩ := gnUpdateDevice_noscale F (storelog F s level (coll.dev d).dev)
  have hdev : ((coll.modDev d fun dev => { dev with dev := storelog F s level dev.dev }).dev d).dev =
      storelog F s level (coll.dev d).dev := by
    simp [Coll.modDev]
  rw [hdev, hline]
  refine ⟨_, rfl, fun d' hne => ?_, ?_, line, rfl, hnone.trans (not_congr (announced_storelog F s level _))⟩
  · simp [Coll.modDev, Function.update_of_ne hne]
  · simp [Coll.modDev]

/-- Asking again changes the queue only. -/
theorem maybeQuery_frame (coll : Coll) (fromaddr : Vector Octet 3) (d : DevId) (group : Octet) :
    (coll.maybeQuery fromaddr d group).dev = coll.dev ∧ (coll.maybeQuery fromaddr d group).upds = coll.upds := by
  unfold Coll.maybeQuery plmQueryGroupedDevices
  dsimp only
  split
  · split <;> exact ⟨rfl, rfl⟩
  · exact ⟨rfl, rfl⟩

/-- What a handler does to the devices when it stores a state and a level for one of them, or nothing. -/
def Effect (coll coll' : Coll) : Option (DevId × Octet × ℚ) → Prop
  | none => Quiet coll coll'
  | some (d, s, level) => Stored F d s level coll coll'

theorem Quiet.of_eq {coll coll' : Coll} (hdev : ∀ d, (coll'.dev d).dev.data = (coll.dev d).dev.data)
    (hlast : ∀ d, (coll'.dev d).dev.last = (coll.dev d).dev.last) (hupds : coll'.upds = coll.upds) : Quiet coll coll' :=
  ⟨fun d => ⟨hdev d, hlast d⟩, hupds⟩

theorem Stored.frame {d : DevId} {s : Octet} {level : ℚ} {coll coll' coll'' : Coll} (h : Stored F d s level coll coll')
    (hdev : coll''.dev = coll'.dev) (hupds : coll''.upds = coll'.upds) : Stored F d s level coll coll'' := by
  refine ⟨fun d' hne => ?_, ?_, ?_⟩
  · rw [hdev]
    exact h.others d' hne
  · rw [hdev]
    exact h.data
  · rw [hupds]
    exact h.upds

/-- A change to a device that is not to its data. -/
theorem quiet_modDev (coll : Coll) (d : DevId) {f : PlmDevice → PlmDevice} (hdata : ∀ dev, (f dev).dev.data = dev.dev.data)
    (hlast : ∀ dev, (f dev).dev.last = dev.dev.last) : Quiet coll (coll.modDev d f) := by
  refine Quiet.of_eq (fun d' => ?_) (fun d' => ?_) rfl
  · by_cases h : d' = d
    · subst h
      simp [Coll.modDev, hdata]
    · simp [Coll.modDev, Function.update_of_ne h]
  · by_cases h : d' = d
    · subst h
      simp [Coll.modDev, hlast]
    · simp [Coll.modDev, Function.update_of_ne h]

theorem dev_plmSetHops (flag : Octet) (dev : PlmDevice) : (plmSetHops flag dev).dev = dev.dev := by
  unfold plmSetHops
  split
  · rfl
  · split <;> split <;> rfl

/-- The `switch` of the handler stores for the device that the message came from, or nothing. -/
theorem plmHandleCom1_spec (fromaddr toaddr : Vector Octet 3) (flags com1 com2 : Octet) (d : DevId) (coll : Coll) :
    ∃ coll', plmHandleCom1 F fromaddr toaddr flags com1 com2 d coll = .ok coll' ∧
      Effect F coll coll' ((com1Writes F flags com1 com2).map fun w => (d, w)) := by
  have hstore : ∀ (s : Octet) (level : ℚ) (group : Octet), ∃ coll',
      (coll.storeUpdate F d s level).map (fun coll => coll.maybeQuery fromaddr d group) = .ok coll' ∧
        Stored F d s level coll coll' := by
    intro s level group
    obtain ⟨coll', hok, hstored⟩ := storeUpdate_stored F coll d s level
    obtain ⟨hdev, hupds⟩ := maybeQuery_frame coll' fromaddr d group
    exact ⟨_, by rw [hok]; rfl, hstored.frame F hdev hupds⟩
  unfold plmHandleCom1 com1Writes
  dsimp only
  split
  · rename_i h
    rw [h, if_neg (by decide), if_neg (by decide)]
    exact ⟨_, rfl, quiet_modDev coll d (fun _ => rfl) (fun _ => rfl)⟩
  · split
    · rename_i h
      rw [h, if_neg (by decide), if_neg (by decide)]
      have hquiet : Quiet coll (coll.modDev d (plmSetHops flags)) :=
        quiet_modDev coll d (fun dev => by rw [dev_plmSetHops]) (fun dev => by rw [dev_plmSetHops])
      exact ⟨_, rfl, hquiet.dev, hquiet.upds⟩
    · split
      · exact hstore _ _ _
      · split
        · exact hstore _ _ _
        · split
          · obtain ⟨hdev, hupds⟩ := maybeQuery_frame coll fromaddr d
              (if flags &&& plmflagGroup ≠ 0 ∧ flags &&& plmflagBroad ≠ 0 then toaddr[2] else 0)
            exact ⟨_, rfl, Quiet.of_eq (fun d' => by rw [hdev]) (fun d' => by rw [hdev]) hupds⟩
          · exact ⟨_, rfl, Quiet.of_eq (fun _ => rfl) (fun _ => rfl) rfl⟩

theorem head?_modHead (q : Plm) (f : CmdQ → CmdQ) : (q.modHead f).cmdfifo.head? = q.cmdfifo.head?.map f := by
  unfold Plm.modHead
  cases hq : q.cmdfifo with
  | nil => simp only [hq, List.head?_nil, Option.map_none]
  | cons cmd rest => rfl

/-- What came in may change what the head waits for, not what it is. -/
theorem head?_plmcmdqCheckRecv (now : Int) (fromaddr toaddr : Vector Octet 3) (cmd1 whatkind : Octet) (q : Plm) : ∃ f : CmdQ → CmdQ,
    (∀ cmd, (f cmd).cmd = cmd.cmd ∧ (f cmd).uid = cmd.uid) ∧
      (plmcmdqCheckRecv now fromaddr toaddr cmd1 whatkind q).cmdfifo.head? = q.cmdfifo.head?.map f := by
  have hcleared : ∀ (b : Bool) (kind : Octet) (cmd : CmdQ),
      (if b then cmd.cleared now kind else cmd).cmd = cmd.cmd ∧ (if b then cmd.cleared now kind else cmd).uid = cmd.uid := by
    intro b kind cmd
    cases b <;> exact ⟨rfl, rfl⟩
  unfold plmcmdqCheckRecv
  dsimp only
  rw [modHead_modHead, head?_modHead]
  refine ⟨_, ?_, rfl⟩
  exact fun cmd => ⟨(hcleared _ _ _).1.trans (hcleared _ _ _).1, (hcleared _ _ _).2.trans (hcleared _ _ _).2⟩

/-- The handler stores for one device, or nothing. -/
theorem plmHandleStdrecv_spec (now : Int) (fromaddr toaddr : Vector Octet 3) (flags com1 com2 : Octet) (coll : Coll) :
    ∃ coll', plmHandleStdrecv F now fromaddr toaddr flags com1 com2 coll = .ok coll' ∧
      Effect F coll coll' (written F fromaddr flags com1 com2 coll) := by
  unfold plmHandleStdrecv written
  dsimp only
  obtain ⟨f, hf, hhead⟩ := head?_plmcmdqCheckRecv now fromaddr toaddr com1 cmdqWaitdata coll.plm
  have hquiet : Quiet coll { coll with plm := plmcmdqCheckRecv now fromaddr toaddr com1 cmdqWaitdata coll.plm } :=
    Quiet.of_eq (fun _ => rfl) (fun _ => rfl) rfl
  have hcom1 : ∀ d, ∃ coll', plmHandleCom1 F fromaddr toaddr flags com1 com2 d
      { coll with plm := plmcmdqCheckRecv now fromaddr toaddr com1 cmdqWaitdata coll.plm } = .ok coll' ∧
      Effect F coll coll' ((com1Writes F flags com1 com2).map fun w => (d, w)) := by
    intro d
    obtain ⟨coll', hok, heffect⟩ := plmHandleCom1_spec F fromaddr toaddr flags com1 com2 d
      { coll with plm := plmcmdqCheckRecv now fromaddr toaddr com1 cmdqWaitdata coll.plm }
    refine ⟨coll', hok, ?_⟩
    revert heffect
    cases com1Writes F flags com1 com2 with
    | none => exact fun h => ⟨h.dev, h.upds⟩
    | some w => exact fun h => ⟨h.others, h.data, h.upds⟩
  cases coll.devices (addrToString fromaddr) with
  | none => exact ⟨_, rfl, hquiet⟩
  | some d =>
    dsimp only
    rw [hhead]
    cases coll.plm.cmdfifo.head? with
    | none => exact hcom1 d
    | some cmd =>
      have hcmd := (hf cmd).1
      rw [Option.map_some, Option.filter_some, Option.filter_some, hcmd]
      by_cases hstatus : (cmd.cmd[6] == stdcmdStatusreq) = true
      · rw [if_pos hstatus, if_pos hstatus]
        unfold plmHandleStatus
        have hsame : Coll.statusDevice { coll with plm := plmcmdqCheckRecv now fromaddr toaddr com1 cmdqWaitdata coll.plm } (f cmd) d =
            coll.statusDevice cmd d := by
          unfold Coll.statusDevice
          rw [(hf cmd).2]
        dsimp only
        rw [hsame]
        cases coll.statusDevice cmd d with
        | none => exact ⟨_, rfl, hquiet⟩
        | some d' =>
          obtain ⟨coll', hok, hstored⟩ := storeUpdate_stored F
            { coll with plm := plmcmdqCheckRecv now fromaddr toaddr com1 cmdqWaitdata coll.plm } d' (if 0 < com2 then 1 else 0)
            (levelOf F com2)
          exact ⟨coll', hok, hstored.others, hstored.data, hstored.upds⟩
      · rw [if_neg hstatus, if_neg hstatus]
        exact hcom1 d

/-! ## When it is right -/

/-- The device that is written, if any, has the address of the sender, or it holds what is stored already and is not announced. -/
def WrittenFits (fromaddr : Vector Octet 3) (flags com1 com2 : Octet) (coll : Coll) : Prop :=
  ∀ d s level, written F fromaddr flags com1 com2 coll = some (d, s, level) → (coll.dev d).dd.daddr = fromaddr ∨
    ((storelog F s level (coll.dev d).dev).data = (coll.dev d).dev.data ∧
      (storelog F s level (coll.dev d).dev).last = (coll.dev d).dev.last ∧ ¬ Announced (coll.dev d).dev)

/-- For every table of devices, every queue and every standard message, the handler changes the data of devices with the sender's
address only, and sends updates for such devices only, exactly when the device it writes fits. -/
theorem stdrecv_attributed_iff (now : Int) (fromaddr toaddr : Vector Octet 3) (flags com1 com2 : Octet) (coll : Coll) :
    (∃ coll', plmHandleStdrecv F now fromaddr toaddr flags com1 com2 coll = .ok coll' ∧ Attributed fromaddr coll coll') ↔
      WrittenFits F fromaddr flags com1 com2 coll := by
  obtain ⟨coll', hok, heffect⟩ := plmHandleStdrecv_spec F now fromaddr toaddr flags com1 com2 coll
  unfold WrittenFits
  rw [hok]
  simp only [Except.ok.injEq, exists_eq_left']
  cases hw : written F fromaddr flags com1 com2 coll with
  | none =>
    rw [hw] at heffect
    obtain ⟨hdev, hupds⟩ : Quiet coll coll' := heffect
    refine iff_of_true ⟨fun d _ => hdev d, [], by rw [hupds, List.append_nil], fun _ h => (nomatch h)⟩ (fun _ _ _ h => nomatch h)
  | some w =>
    obtain ⟨d, s, level⟩ := w
    rw [hw] at heffect
    obtain ⟨hothers, hdata, line, hupds, hline⟩ : Stored F d s level coll coll' := heffect
    constructor
    · rintro ⟨hframe, new, hnew, hall⟩ d s level ⟨⟩
      by_cases ha : (coll.dev d).dd.daddr = fromaddr
      · exact Or.inl ha
      · obtain ⟨h1, h2⟩ := hframe d ha
        refine Or.inr ⟨hdata.1 ▸ h1, hdata.2 ▸ h2, hline.mp ?_⟩
        rw [hupds] at hnew
        cases line with
        | none => rfl
        | some text =>
          have hmem : (d, text) ∈ new := by
            rw [← List.append_cancel_left hnew]
            exact List.mem_singleton_self _
          exact absurd (hall _ hmem) ha
    · intro h
      have h := h d s level rfl
      refine ⟨fun d' hd' => ?_, _, hupds, fun p hp => ?_⟩
      · by_cases hdd : d' = d
        · subst hdd
          obtain ⟨h1, h2, -⟩ := h.resolve_left hd'
          exact ⟨hdata.1.trans h1, hdata.2.trans h2⟩
        · exact hothers d' hdd
      · obtain ⟨text, htext, rfl⟩ := List.mem_map.mp hp
        refine h.resolve_right fun hsilent => ?_
        rw [hline.mpr hsilent.2.2] at htext
        cases htext

/-! ## A fan -/

/-- A second device. -/
def fan : PlmDevice where
  dev := { uid := str "11.22.33", name := str "Fan", proto := 2, type := 1, subtype := 1 }
  loc := str "11.22.33"
  dd := { daddr := #v[0x11, 0x22, 0x33], hop_ok := hopUnset }

/-- A collector for a lamp and a fan, with a status request to the lamp at the head of the queue. -/
def askingLamp : Coll where
  dev := fun d => if d = 0 then lamp else fan
  devices := fun uid => if uid = str "1A.2B.3C" then some 0 else if uid = str "11.22.33" then some 1 else none
  plm := plmEnqStd lamp stdcmdStatusreq 0x00 (cmdqWaitack ||| cmdqWaitany) {}

/-- The fan is turned on while the lamp is asked: the lamp's data change, and gnhastd is told so. -/
theorem stdrecv_misattributed : ∃ coll', plmHandleStdrecv Doubles.exact 0 #v[0x11, 0x22, 0x33] #v[0, 0, 1]
    (plmflagGroup ||| plmflagBroad) stdcmdOn 0xFF askingLamp = .ok coll' ∧ ¬ Attributed #v[0x11, 0x22, 0x33] askingLamp coll' := by
  refine ⟨_, rfl, fun h => ?_⟩
  have hdata := (h.data 0 (by decide)).1
  revert hdata
  decide

end Gnhast.Insteon
