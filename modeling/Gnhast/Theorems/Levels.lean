import Gnhast.Lemmas.Accessors
import Gnhast.Lemmas.Health
import Gnhast.Lib.Rounding
import Gnhast.Lib.Runs
import Gnhast.Theorems.Attribution

/-!
# What levels and states are stored

The level of a dimmer goes from 0 to 1, and a switch is off or on. The answer to a status request is stored as such. An ON or an OFF is
stored as the second byte of the message says: any byte for a switch, and for a dimmer that is turned on with its group, 100.
-/

namespace Gnhast.Insteon

open CStr Runs

/-! ## Runs -/

/-- What the collector meets: a standard message, or a queue that has changed. -/
inductive CollEvent
  | stdrecv (now : Int) (fromaddr toaddr : Vector Octet 3) (flags com1 com2 : Octet)
  | queue (plm : Plm)

/-- One step of the collector. -/
def collStep (F : Doubles) (coll : Coll) : CollEvent → Option Coll
  | .stdrecv now fromaddr toaddr flags com1 com2 => (plmHandleStdrecv F now fromaddr toaddr flags com1 com2 coll).toOption
  | .queue plm => some { coll with plm := plm }

/-- The state of a switch. -/
def switchState (F : Doubles) (dev : Device) : Octet := (dev.data.bits F).setWidth 8

/-- Dimmers hold levels, and switches are off or on. -/
structure Proper (F : Doubles) (dev : Device) : Prop where
  dimmer : dev.devType = .dimmer → 0 ≤ dev.data.double F ∧ dev.data.double F ≤ 1
  switch : dev.devType = .switch → switchState F dev = 0 ∨ switchState F dev = 1

/-- What a message must not say to the device that it comes from, unless it is taken for the answer to a status request: a group's ON
to a dimmer, and to a switch a level other than the first two. -/
structure Plain (dev : Device) (flags com1 com2 : Octet) : Prop where
  dimmer : dev.devType = .dimmer → com1 = stdcmdOn ∨ com1 = stdcmdFaston → ¬ (flags &&& plmflagGroup ≠ 0 ∧ com2 = 0)
  switch : dev.devType = .switch → com1 = stdcmdOn ∨ com1 = stdcmdFaston ∨ com1 = stdcmdOff ∨ com1 = stdcmdFastoff → com2 = 0 ∨ com2 = 1

/-- A message that is stored as it should be. -/
def Fitting (coll : Coll) : CollEvent → Prop
  | .queue _ => True
  | .stdrecv _ fromaddr _ flags com1 com2 => ∀ d, coll.devices (addrToString fromaddr) = some d →
    (∀ cmd ∈ coll.plm.cmdfifo.head?, (getElem cmd.cmd 6 cmdAt6) ≠ stdcmdStatusreq) → Plain (coll.dev d).dev flags com1 com2

/-! ## What is stored -/

/-- A state and a level that a device may be given. -/
def Allowed (dev : Device) (s : Octet) (level : ℚ) : Prop :=
  (dev.devType = .dimmer → 0 ≤ level ∧ level ≤ 1) ∧ (dev.devType = .switch → s = 0 ∨ s = 1)

/-- The state that is assigned is the state that is read. -/
theorem setWidth_assign_state (x : BitVec 64) (s : Octet) : ((x &&& ~~~0xff#64) ||| (s.setWidth 64 &&& 0xff#64)).setWidth 8 = s := by
  rw [BitVec.setWidth_or, BitVec.setWidth_and, BitVec.setWidth_and, BitVec.setWidth_setWidth_of_le _ (by decide)]
  rw [show (~~~0xff#64).setWidth 8 = 0#8 from rfl, show (0xff#64).setWidth 8 = BitVec.allOnes 8 from rfl]
  rw [BitVec.and_zero, BitVec.and_allOnes, BitVec.zero_or, BitVec.setWidth_eq]

theorem devType_eq_switch_iff (dev : Device) : dev.devType = .switch ↔ dev.type = deviceSwitch := by
  have hall : ∀ b : BitVec 8, DevType.ofByte b = .switch ↔ b = deviceSwitch := by decide +kernel
  exact hall dev.type

section

variable (F : Doubles)

theorem proper_congr {dev dev' : Device} (hdata : dev'.data = dev.data) (htype : dev'.type = dev.type) :
    Proper F dev' ↔ Proper F dev := by
  have hdev : dev'.devType = dev.devType := congrArg DevType.ofByte htype
  constructor
  · rintro ⟨hd, hs⟩
    exact ⟨fun h => hdata ▸ hd (hdev.trans h), fun h => by simpa [switchState, hdata] using hs (hdev.trans h)⟩
  · rintro ⟨hd, hs⟩
    exact ⟨fun h => hdata ▸ hd (hdev ▸ h), fun h => by simpa [switchState, hdata] using hs (hdev ▸ h)⟩

theorem data_storeDataDev (w : Word) (dev : Device) : (storeDataDev F .data w dev).data =
    match storeMember dev.devType dev.devSubtype with
    | some m => dev.data.assign F m w
    | none => dev.data :=
  store_storeDataDev_self F .data w dev

theorem type_storelog (s : Octet) (level : ℚ) (dev : Device) : (storelog F s level dev).type = dev.type := by
  unfold storelog storelogSwitch storelogDimmer
  split
  · exact storeDataDev_type F .data _ dev
  · exact storeDataDev_type F .data _ dev

/-- A device is in range when what it has been given is. -/
theorem proper_storelog (s : Octet) (level : ℚ) (dev : Device) : Proper F (storelog F s level dev) ↔ Allowed dev s level := by
  have htype : (storelog F s level dev).devType = dev.devType := congrArg DevType.ofByte (type_storelog F s level dev)
  have hswitch : dev.devType = .switch → switchState F (storelog F s level dev) = s := by
    intro h
    unfold switchState storelog storelogSwitch
    rw [if_pos ((devType_eq_switch_iff dev).mp h), data_storeDataDev, h]
    exact setWidth_assign_state _ s
  have hdimmer : dev.devType = .dimmer → (storelog F s level dev).data = .dbl level := by
    intro h
    unfold storelog storelogDimmer
    rw [if_neg fun hs => absurd (h.symm.trans ((devType_eq_switch_iff dev).mpr hs)) (by decide), data_storeDataDev, h]
    rfl
  constructor
  · rintro ⟨hd, hs⟩
    refine ⟨fun h => ?_, fun h => ?_⟩
    · have hrange := hd (htype.trans h)
      rwa [hdimmer h] at hrange
    · have hstate := hs (htype.trans h)
      rwa [hswitch h] at hstate
  · rintro ⟨hd, hs⟩
    refine ⟨fun h => ?_, fun h => ?_⟩
    · rw [hdimmer (htype.symm.trans h)]
      exact hd (htype.symm.trans h)
    · rw [hswitch (htype.symm.trans h)]
      exact hs (htype.symm.trans h)

/-! ## The types of devices -/

/-- Devices are of the types they were. -/
def SameTypes (coll coll' : Coll) : Prop := ∀ d, (coll'.dev d).dev.type = (coll.dev d).dev.type

theorem sameTypes_modDev (coll : Coll) (d : DevId) {f : PlmDevice → PlmDevice} (hf : ∀ dev, (f dev).dev.type = dev.dev.type) :
    SameTypes coll (coll.modDev d f) := by
  intro d'
  by_cases h : d' = d
  · subst h
    simp [Coll.modDev, hf]
  · simp [Coll.modDev, Function.update_of_ne h]

theorem sameTypes_storeUpdate {coll coll' : Coll} {d : DevId} {s : Octet} {level : ℚ} (h : coll.storeUpdate F d s level = .ok coll') :
    SameTypes coll coll' := by
  unfold Coll.storeUpdate at h
  obtain ⟨line, -, rfl⟩ := Except.map_eq_ok.mp h
  exact sameTypes_modDev coll d (f := fun dev => { dev with dev := storelog F s level dev.dev }) fun dev =>
    type_storelog F s level dev.dev

theorem sameTypes_plmHandleCom1 {fromaddr toaddr : Vector Octet 3} {flags com1 com2 : Octet} {d : DevId} {coll coll' : Coll}
    (h : plmHandleCom1 F fromaddr toaddr flags com1 com2 d coll = .ok coll') : SameTypes coll coll' := by
  have hquery : ∀ (c : Coll) (group : Octet), SameTypes c (c.maybeQuery fromaddr d group) := by
    intro c group d'
    rw [(maybeQuery_frame c fromaddr d group).1]
  have hstore : ∀ {s level group}, (coll.storeUpdate F d s level).map (fun coll => coll.maybeQuery fromaddr d group) = .ok coll' →
      SameTypes coll coll' := by
    intro s level group h
    obtain ⟨c, hc, rfl⟩ := Except.map_eq_ok.mp h
    exact fun d' => (hquery c group d').trans (sameTypes_storeUpdate F hc d')
  unfold plmHandleCom1 at h
  dsimp only at h
  split at h
  · cases h
    exact sameTypes_modDev coll d fun _ => rfl
  · split at h
    · cases h
      exact sameTypes_modDev coll d fun dev => by rw [dev_plmSetHops]
    · split at h
      · exact hstore h
      · split at h
        · exact hstore h
        · split at h
          · cases h
            exact hquery coll _
          · cases h
            exact fun _ => rfl

theorem sameTypes_plmHandleStdrecv {now : Int} {fromaddr toaddr : Vector Octet 3} {flags com1 com2 : Octet} {coll coll' : Coll}
    (h : plmHandleStdrecv F now fromaddr toaddr flags com1 com2 coll = .ok coll') : SameTypes coll coll' := by
  unfold plmHandleStdrecv at h
  dsimp only at h
  split at h
  · cases h
    exact fun _ => rfl
  · split at h
    · unfold plmHandleStatus at h
      split at h
      · cases h
        exact fun _ => rfl
      · exact fun d => sameTypes_storeUpdate F h d
    · exact fun d => sameTypes_plmHandleCom1 F h d

end

/-! ## Steps and runs -/

/-- What the second byte says is between the ends of a dimmer. -/
theorem levelOf_range (F : OrderedDoubles) (com2 : Octet) : 0 ≤ levelOf F.toDoubles com2 ∧ levelOf F.toDoubles com2 ≤ 1 := by
  have hlt : (com2.toNat : ℚ) ≤ 255 := by exact_mod_cast Nat.le_of_lt_succ com2.isLt
  have h : ((0 : ℤ) : ℚ) ≤ F.round (com2.toNat / 255) ∧ F.round (com2.toNat / 255) ≤ ((1 : ℤ) : ℚ) := by
    refine F.round_between (by norm_num) (by norm_num) ?_ ?_
    · push_cast
      positivity
    · push_cast
      rw [div_le_one (by norm_num)]
      exact hlt
  simpa [levelOf] using h

/-- What an ON or an OFF stores is allowed exactly when the message is plain. -/
theorem plain_iff (F : OrderedDoubles) (dev : Device) (flags com1 com2 : Octet) :
    Plain dev flags com1 com2 ↔ ∀ s level, com1Writes F.toDoubles flags com1 com2 = some (s, level) → Allowed dev s level := by
  have hlevel := levelOf_range F com2
  have hsome : ∀ (s₀ : Octet) (l₀ : ℚ), (∀ s level, some (s₀, l₀) = some (s, level) → Allowed dev s level) ↔ Allowed dev s₀ l₀ := by
    intro s₀ l₀
    constructor
    · intro h
      exact h s₀ l₀ rfl
    · rintro h s level ⟨⟩
      exact h
  unfold com1Writes
  dsimp only
  by_cases hon : com1 = stdcmdOn ∨ com1 = stdcmdFaston
  · rw [if_pos hon, hsome]
    by_cases hg : flags &&& plmflagGroup ≠ 0 ∧ com2 = 0
    · rw [if_pos hg, if_pos hg]
      constructor
      · rintro ⟨hd, -⟩
        exact ⟨fun h => absurd hg (hd h hon), fun _ => Or.inr rfl⟩
      · rintro ⟨hd, -⟩
        refine ⟨fun h _ => ?_, fun _ _ => Or.inl hg.2⟩
        have h100 := (hd h).2
        norm_num at h100
    · rw [if_neg hg, if_neg hg]
      constructor
      · rintro ⟨-, hs⟩
        exact ⟨fun _ => hlevel, fun h => hs h (by tauto)⟩
      · rintro ⟨-, hs⟩
        exact ⟨fun _ _ => hg, fun h _ => hs h⟩
  · rw [if_neg hon]
    by_cases hoff : com1 = stdcmdOff ∨ com1 = stdcmdFastoff
    · rw [if_pos hoff, hsome]
      by_cases hg : flags &&& plmflagGroup ≠ 0 ∧ com2 = 0
      · rw [if_pos hg, if_pos hg]
        refine iff_of_true ⟨fun _ h => absurd h hon, fun _ _ => Or.inl hg.2⟩ ⟨fun _ => by norm_num, fun _ => Or.inl rfl⟩
      · rw [if_neg hg, if_neg hg]
        constructor
        · rintro ⟨-, hs⟩
          exact ⟨fun _ => hlevel, fun h => hs h (by tauto)⟩
        · rintro ⟨-, hs⟩
          exact ⟨fun _ h => absurd h hon, fun h _ => hs h⟩
    · rw [if_neg hoff]
      exact iff_of_true ⟨fun _ h => absurd h hon, fun _ h => by tauto⟩ (fun _ _ h => nomatch h)

theorem fitting_iff (F : OrderedDoubles) (coll : Coll) (now : Int) (fromaddr toaddr : Vector Octet 3) (flags com1 com2 : Octet) :
    Fitting coll (.stdrecv now fromaddr toaddr flags com1 com2) ↔ ∀ d s level,
      written F.toDoubles fromaddr flags com1 com2 coll = some (d, s, level) → Allowed (coll.dev d).dev s level := by
  unfold Fitting written
  cases hdev : coll.devices (addrToString fromaddr) with
  | none =>
    refine iff_of_true (fun d h => ?_) ?_
    · rw [hdev] at h
      cases h
    · intro _ _ _ h
      cases h
  | some d =>
    dsimp only
    cases hhead : coll.plm.cmdfifo.head?.filter fun cmd => cmd.cmd[6] == stdcmdStatusreq with
    | some cmd =>
      -- the answer to a status request is allowed
      obtain ⟨hmem, hcmd⟩ := Option.filter_eq_some_iff.mp hhead
      refine iff_of_true (fun _ _ h => absurd (beq_iff_eq.mp hcmd) (h cmd hmem)) ?_
      intro d' s level h
      obtain ⟨d'', -, heq⟩ := Option.map_eq_some_iff.mp h
      cases heq
      refine ⟨fun _ => levelOf_range F com2, fun _ => ?_⟩
      split
      · exact Or.inr rfl
      · exact Or.inl rfl
    | none =>
      dsimp only
      have hno : ∀ cmd ∈ coll.plm.cmdfifo.head?, cmd.cmd[6] ≠ stdcmdStatusreq := by
        intro cmd hmem hcmd
        have hfilter := Option.filter_eq_none_iff.mp hhead cmd hmem
        exact hfilter (beq_iff_eq.mpr hcmd)
      constructor
      · intro h d' s level hw
        obtain ⟨w, hw, heq⟩ := Option.map_eq_some_iff.mp hw
        cases heq
        exact (plain_iff F _ flags com1 com2).mp (h d hdev hno) s level hw
      · intro h d' hd' _
        obtain rfl : d = d' := Option.some.inj (hdev.symm.trans hd')
        refine (plain_iff F _ flags com1 com2).mpr fun s level hw => h d s level ?_
        rw [hw]
        rfl

/-- A step keeps the devices in range exactly when the message fits. -/
theorem collStep_proper_iff (F : OrderedDoubles) {coll coll' : Coll} {e : CollEvent} (hin : ∀ d, Proper F.toDoubles (coll.dev d).dev)
    (hs : collStep F.toDoubles coll e = some coll') : (∀ d, Proper F.toDoubles (coll'.dev d).dev) ↔ Fitting coll e := by
  cases e with
  | queue plm =>
    cases hs
    exact iff_of_true hin trivial
  | stdrecv now fromaddr toaddr flags com1 com2 =>
    obtain ⟨c, hok, heffect⟩ := plmHandleStdrecv_spec F.toDoubles now fromaddr toaddr flags com1 com2 coll
    unfold collStep at hs
    simp only [hok, Except.toOption, Option.some.injEq] at hs
    subst hs
    have htypes := sameTypes_plmHandleStdrecv F.toDoubles hok
    rw [fitting_iff F]
    cases hw : written F.toDoubles fromaddr flags com1 com2 coll with
    | none =>
      rw [hw] at heffect
      have hquiet : Quiet coll c := heffect
      refine iff_of_true (fun d => (proper_congr F.toDoubles (hquiet.dev d).1 (htypes d)).mpr (hin d)) ?_
      intro _ _ _ h
      cases h
    | some w =>
      obtain ⟨d, s, level⟩ := w
      rw [hw] at heffect
      obtain ⟨hothers, hdata, -⟩ : Stored F.toDoubles d s level coll c := heffect
      have hd : Proper F.toDoubles (c.dev d).dev ↔ Allowed (coll.dev d).dev s level := by
        rw [← proper_storelog F.toDoubles]
        exact proper_congr F.toDoubles hdata.1 ((htypes d).trans (type_storelog F.toDoubles s level _).symm)
      constructor
      · rintro h d' s' level' ⟨⟩
        exact hd.mp (h d)
      · intro h d'
        by_cases hdd : d' = d
        · rw [hdd]
          exact hd.mpr (h d s level rfl)
        · exact (proper_congr F.toDoubles (hothers d' hdd).1 (htypes d')).mpr (hin d')

/-- From a table of devices that all start at zero, whatever messages come and however the queue changes in between, the levels of dimmers
stay between 0 and 1 and the states of switches 0 or 1 exactly along the runs whose messages all fit. -/
theorem collStep_proper (F : OrderedDoubles) {coll : Coll} (hzero : ∀ d, (coll.dev d).dev.data = .raw 0) (es : List CollEvent) :
    Throughout (collStep F.toDoubles) (fun coll => ∀ d, Proper F.toDoubles (coll.dev d).dev) coll es ↔
      Along (collStep F.toDoubles) Fitting coll es := by
  refine throughout_iff_along (I := fun _ => True) (fun _ _ _ _ _ => trivial) (fun coll e coll' _ => collStep_proper_iff F) trivial ?_ es
  intro d
  have hbits : switchState F.toDoubles (coll.dev d).dev = 0 := by
    unfold switchState
    rw [hzero d]
    rfl
  refine ⟨fun _ => ?_, fun _ => Or.inl hbits⟩
  rw [hzero d]
  have h0 : (Word.raw 0).double F.toDoubles = 0 := F.ofBits_zero
  rw [h0]
  norm_num

/-- A collector for a lamp that is switched. -/
def oneLamp : Coll where
  dev := fun _ => lamp
  devices := fun uid => if uid = str "1A.2B.3C" then some 0 else none

/-- The lamp is turned off. -/
theorem collStep_proper_off : Throughout (collStep Doubles.exact) (fun coll => ∀ d, Proper Doubles.exact (coll.dev d).dev) oneLamp
    [.stdrecv 0 #v[0x1A, 0x2B, 0x3C] #v[0, 0, 0] 0 stdcmdOff 0x00] := by
  refine (@collStep_proper OrderedDoubles.exact oneLamp (fun _ => rfl) _).mpr fun coll' _ => ⟨?_, trivial⟩
  intro d _ _
  have hswitch : (oneLamp.dev d).dev.devType = .switch := rfl
  exact ⟨fun h => absurd (hswitch.symm.trans h) (by decide), fun _ _ => Or.inl rfl⟩

/-- The lamp is turned on, and says how bright it is: its state is 255. -/
theorem not_collStep_proper : ¬ ∀ coll : Coll, (∀ d, (coll.dev d).dev.data = .raw 0) → ∀ es,
    Throughout (collStep Doubles.exact) (fun coll => ∀ d, Proper Doubles.exact (coll.dev d).dev) coll es := by
  intro h
  have hrun := h oneLamp (fun _ => rfl) [.stdrecv 0 #v[0x1A, 0x2B, 0x3C] #v[0, 0, 0] 0 stdcmdOn 0xFF]
  obtain ⟨coll', hok, -⟩ := plmHandleStdrecv_spec Doubles.exact 0 #v[0x1A, 0x2B, 0x3C] #v[0, 0, 0] 0 stdcmdOn 0xFF oneLamp
  have hs : collStep Doubles.exact oneLamp (.stdrecv 0 #v[0x1A, 0x2B, 0x3C] #v[0, 0, 0] 0 stdcmdOn 0xFF) = some coll' :=
    congrArg Except.toOption hok
  have hfit := (collStep_proper_iff OrderedDoubles.exact hrun.first hs).mp (hrun.2 coll' hs).first
  have hplain : Plain lamp.dev 0 stdcmdOn 0xFF := hfit 0 (by decide) (fun cmd hcmd => nomatch hcmd)
  exact absurd (hplain.switch rfl (Or.inl rfl)) (by decide)

end Gnhast.Insteon
