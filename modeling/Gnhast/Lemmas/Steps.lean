import Gnhast.Lemmas.Memory

/-!
# What one step does to the memory

`Does` lists it: each event changes the memory quietly and then, for the few events that do more, by one operation on the
links between records. The invariants of the server follow from this list, case by case.
-/

namespace Gnhast

open CStr

variable (F : Doubles)

/-! ## Lines as commands -/

/-- The handler a line selects, and its arguments. -/
def lineCmd (text : Str) : Option (Cmd × List PArg) :=
  (readCommand F text).bind fun p => (findCommand p.1).map fun cmd => (cmd, p.2)

/-- A line of a client marks the client. -/
def Server.mark (s : Server) (c : ClientId) (env : Env) : Server := s.modClient c fun cl => { cl with lastupd := env.now }

theorem quiet_mark (s : Server) (c : ClientId) (env : Env) : Quiet s (s.mark c env) := Quiet.modClient s c rfl

/-- A line that selects a handler is what the handler does. -/
theorem handleLine_some {text : Str} {cmd : Cmd} {args : List PArg} (h : lineCmd F text = some (cmd, args)) (env : Env)
    (c : ClientId) (s : Server) : handleLine F env c text s = cmd.run F env args c (s.mark c env) := by
  obtain ⟨p, hp, h⟩ := Option.bind_eq_some_iff.mp h
  obtain ⟨cmd', hcmd, h⟩ := Option.map_eq_some_iff.mp h
  cases h
  simp only [handleLine, hp, parsedCommand, hcmd, Server.mark]

/-- A line that selects none only marks the client. -/
theorem handleLine_none {text : Str} (h : lineCmd F text = none) (env : Env) (c : ClientId) (s : Server) :
    ∃ ret, handleLine F env c text s = .ok { srv := s.mark c env, ret := ret } := by
  unfold lineCmd at h
  unfold handleLine
  cases hp : readCommand F text with
  | none => exact ⟨some 0, rfl⟩
  | some p =>
    rw [hp, Option.bind_some, Option.map_eq_none_iff] at h
    exact ⟨some (-1), by simp only [parsedCommand, h, Server.mark]⟩

/-! ## Groups -/

/-- Only groups and their lists differ. -/
def OnlyGroups (s s' : Server) : Prop :=
  s' = { s with
    group := s'.group, nextGroup := s'.nextGroup, allgroups := s'.allgroups, devgroups := s'.devgroups, nextWrap := s'.nextWrap }

namespace OnlyGroups

theorem refl (s : Server) : OnlyGroups s s := rfl

theorem trans {s s' s'' : Server} (h : OnlyGroups s s') (h' : OnlyGroups s' s'') : OnlyGroups s s'' := by
  unfold OnlyGroups at *
  rw [h', h]

variable {s s' : Server} (h : OnlyGroups s s')

include h

theorem dev : s'.dev = s.dev := by rw [h]
theorem nextDev : s'.nextDev = s.nextDev := by rw [h]
theorem alldevs : s'.alldevs = s.alldevs := by rw [h]
theorem devices : s'.devices = s.devices := by rw [h]
theorem client : s'.client = s.client := by rw [h]
theorem nextClient : s'.nextClient = s.nextClient := by rw [h]
theorem clients : s'.clients = s.clients := by rw [h]

theorem findDeviceByUid (uid : Str) : s'.findDeviceByUid uid = s.findDeviceByUid uid := by
  unfold Server.findDeviceByUid
  rw [h.devices]

end OnlyGroups

theorem onlyGroups_modGroup (s : Server) (g : GroupId) (f : Group → Group) : OnlyGroups s (s.modGroup g f) := rfl

theorem onlyGroups_newDevgroup (s : Server) (uid : Str) : OnlyGroups s (s.newDevgroup uid).1 := rfl

theorem onlyGroups_addGroupGroup (s : Server) (g1 g2 : GroupId) : OnlyGroups s (s.addGroupGroup g1 g2) := rfl

theorem onlyGroups_addDevGroup (s : Server) (d : DevId) (g : GroupId) : OnlyGroups s (s.addDevGroup d g) := rfl

theorem onlyGroups_removeDevGroup (s : Server) (d : DevId) (g : GroupId) : OnlyGroups s (s.removeDevGroup d g) := rfl

theorem onlyGroups_removeGroupGroup (s : Server) (g1 g2 : GroupId) : OnlyGroups s (s.removeGroupGroup g1 g2) := by
  unfold Server.removeGroupGroup
  split
  · rfl
  · rfl

theorem onlyGroups_addGroups (g : GroupId) (ps : List Str) (s : Server) : OnlyGroups s (addGroups g ps s) := by
  induction ps generalizing s with
  | nil => rfl
  | cons p ps ih =>
    unfold addGroups
    split
    · exact ih s
    · split
      · exact ih s
      · exact (onlyGroups_addGroupGroup s _ g).trans (ih _)

theorem onlyGroups_addDevs (g : GroupId) (ps : List Str) (s : Server) : OnlyGroups s (addDevs g ps s) := by
  induction ps generalizing s with
  | nil => rfl
  | cons p ps ih =>
    unfold addDevs
    split
    · exact ih s
    · split
      · exact ih s
      · exact (onlyGroups_addDevGroup s _ g).trans (ih _)

theorem onlyGroups_pruneGroups (toks : List Str) (g : GroupId) (ws : List WrapGroup) (s : Server) :
    OnlyGroups s (pruneGroups toks g ws s).1 := by
  induction ws generalizing s with
  | nil => rfl
  | cons w ws ih =>
    unfold pruneGroups
    split
    · exact ih s
    · exact (onlyGroups_removeGroupGroup s _ g).trans (ih _)

theorem onlyGroups_pruneDevs (toks : List Str) (g : GroupId) (ws : List WrapDevice) (s : Server) :
    OnlyGroups s (pruneDevs toks g ws s).1 := by
  induction ws generalizing s with
  | nil => rfl
  | cons w ws ih =>
    unfold pruneDevs
    split
    · exact ih s
    · exact (onlyGroups_removeDevGroup s _ g).trans (ih _)

theorem onlyGroups_setGroups (g : GroupId) (l : Option Str) (s : Server) : OnlyGroups s (setGroups g l s).1 := by
  unfold setGroups
  split
  · rfl
  · exact (onlyGroups_addGroups g _ s).trans (onlyGroups_pruneGroups _ g _ _)

theorem onlyGroups_setDevs (g : GroupId) (l : Option Str) (s : Server) : OnlyGroups s (setDevs g l s).1 := by
  unfold setDevs
  split
  · rfl
  · exact (onlyGroups_addDevs g _ s).trans (onlyGroups_pruneDevs _ g _ _)

theorem onlyGroups_updateGroup (g : GroupId) (args : List PArg) (s : Server) : OnlyGroups s (updateGroup g args s).srv := by
  unfold updateGroup
  split
  · exact ((onlyGroups_modGroup s g _).trans (onlyGroups_setGroups g _ _)).trans (onlyGroups_setDevs g _ _)
  · exact (onlyGroups_setGroups g _ _).trans (onlyGroups_setDevs g _ _)

theorem onlyGroups_cmdRegisterGroup (args : List PArg) (c : ClientId) (s : Server) :
    OnlyGroups s (cmdRegisterGroup args c s).srv := by
  unfold cmdRegisterGroup
  split
  · exact OnlyGroups.refl s
  · split
    · split
      · exact OnlyGroups.refl s
      · exact (onlyGroups_newDevgroup s _).trans (onlyGroups_updateGroup _ args _)
    · exact onlyGroups_updateGroup _ args s

/-! ## Handlers that make or take devices -/

/-- A new device at the next free address. -/
def Server.newDevice (s : Server) (dev : Device) : Server :=
  { s with dev := Function.update s.dev s.nextDev dev, nextDev := s.nextDev + 1 }

/-- The device a `reg` command creates. -/
def registered (args : List PArg) (uid nm : Str) : Device :=
  { uid := uid, name := some nm
    rrdname := some (((lastArg .rrdname args : Option Str).map (fun r => r.take 19)).getD (mkRrdname nm))
    type := byteArg (lastArg .devtype args), proto := byteArg (lastArg .proto args)
    subtype := byteArg (lastArg .subtype args), scale := byteArg (lastArg .scale args) }

/-- What a `reg` command does to a device that is there already. -/
def reregistered (args : List PArg) (dev : Device) : Device :=
  { dev with
    name := lastArg .name args, rrdname := (lastArg .rrdname args : Option Str).map (fun r => r.take 19)
    type := byteArg (lastArg .devtype args), proto := byteArg (lastArg .proto args)
    subtype := byteArg (lastArg .subtype args), scale := byteArg (lastArg .scale args) }

/-- A device that `gn_update_device` and `gn_register_device` send. -/
structure Device.Complete (dev : Device) : Prop where
  name : dev.name ≠ none
  type : dev.type ≠ 0
  proto : dev.proto ≠ 0
  subtype : dev.subtype ≠ 0

/-- A device that is not complete is never sent to a feed, to a watcher or in answer to a question. -/
theorem gnUpdateDevice_incomplete {dev : Device} (h : ¬ dev.Complete) (what : BitVec 32) :
    gnUpdateDevice F dev what = .ok none := by
  unfold gnUpdateDevice
  cases hn : dev.name with
  | none => rfl
  | some name =>
    dsimp only
    split
    · rfl
    · rename_i hz
      simp only [not_or] at hz
      exact absurd ⟨by simp [hn], hz.1, hz.2.2, hz.2.1⟩ h

/-- A `reg` command for an uid that is not known, with all that is needed. -/
theorem cmdRegister_new {args : List PArg} {uid nm : Str} {s : Server} (c : ClientId) (hu : lastArg .uid args = some uid)
    (hf : s.findDeviceByUid uid = none) (hn : lastArg .name args = some nm) (h1 : byteArg (lastArg .subtype args) ≠ 0)
    (h2 : byteArg (lastArg .devtype args) ≠ 0) (h3 : byteArg (lastArg .proto args) ≠ 0) :
    cmdRegister args c s =
      { srv := (claimDevice (s.newDevice (registered args uid nm)) s.nextDev c).insertDevice s.nextDev } := by
  simp only [cmdRegister, hu, hf, hn, h1, h2, h3, or_self, if_false]
  rfl

/-- A `reg` command for an uid that is known. -/
theorem cmdRegister_known {args : List PArg} {uid : Str} {d : DevId} {s : Server} (c : ClientId)
    (hu : lastArg .uid args = some uid) (hf : s.findDeviceByUid uid = some d) :
    cmdRegister args c s = { srv := claimDevice (s.modDev d (reregistered args)) d c } := by
  simp only [cmdRegister, hu, hf]
  rfl

theorem cmdRegister_cases (args : List PArg) (c : ClientId) (s : Server) :
    cmdRegister args c s = { srv := s, ret := some (-1) } ∨
      (∃ uid nm, lastArg .uid args = some uid ∧ lastArg .name args = some nm ∧ s.findDeviceByUid uid = none ∧
        (registered args uid nm).Complete ∧
        cmdRegister args c s =
          { srv := (claimDevice (s.newDevice (registered args uid nm)) s.nextDev c).insertDevice s.nextDev }) ∨
      ∃ uid d, lastArg .uid args = some uid ∧ s.findDeviceByUid uid = some d ∧
        cmdRegister args c s = { srv := claimDevice (s.modDev d (reregistered args)) d c } := by
  cases hu : (lastArg .uid args : Option Str) with
  | none => exact Or.inl (by simp only [cmdRegister, hu])
  | some uid =>
    cases hf : s.findDeviceByUid uid with
    | some d => exact Or.inr (Or.inr ⟨uid, d, rfl, hf, cmdRegister_known c hu hf⟩)
    | none =>
      cases hn : (lastArg .name args : Option Str) with
      | none => exact Or.inl (by simp only [cmdRegister, hu, hf, hn])
      | some nm =>
        by_cases hz : byteArg (lastArg .subtype args) = 0 ∨ byteArg (lastArg .devtype args) = 0 ∨
            byteArg (lastArg .proto args) = 0
        · exact Or.inl (by simp only [cmdRegister, hu, hf, hn, hz, if_true])
        · obtain ⟨h1, h2, h3⟩ := not_or.mp hz |>.imp_right not_or.mp
          exact Or.inr (Or.inl ⟨uid, nm, rfl, rfl, hf, ⟨Option.some_ne_none nm, h2, h3, h1⟩, cmdRegister_new c hu hf hn h1 h2 h3⟩)

/-- `cmd_cfeed` adds a watcher. -/
theorem cmdCfeed_cases (args : List PArg) (c : ClientId) (s : Server) :
    cmdCfeed args c s = { srv := s, ret := some (-1) } ∨
      ∃ uid d, s.findDeviceByUid uid = some d ∧ cmdCfeed args c s = { srv := s.addWrappedClient c d } := by
  cases hu : (lastArg .uid args : Option Str) with
  | none => exact Or.inl (by simp only [cmdCfeed, hu])
  | some uid =>
    cases hf : s.findDeviceByUid uid with
    | none => exact Or.inl (by simp only [cmdCfeed, hu, hf])
    | some d => exact Or.inr ⟨uid, d, hf, by simp only [cmdCfeed, hu, hf]⟩

/-- A device that was made to track a client. -/
structure Tracks (c : ClientId) (dev : Device) : Prop where
  collector : dev.collector = some c
  onqClient : dev.onqClient = false
  onqAll : dev.onqAll = false
  watchers : dev.watchers = []
  complete : dev.Complete
  rrdname : ∃ orig, dev.rrdname = some (mkRrdname orig)

/-- `cmd_client` is quiet, or makes a tracking device. -/
theorem cmdClient_cases {env : Env} {args : List PArg} {c : ClientId} {s : Server} {r : Reply}
    (h : cmdClient F env args c s = .ok r) :
    r.out = [] ∧ (Quiet s r.srv ∨ ∃ s₁ dev, Quiet s s₁ ∧ s₁.findDeviceByUid dev.uid = none ∧ Tracks c dev ∧
      Quiet ((s₁.newDevice dev).insertDevice s₁.nextDev) r.srv) := by
  unfold cmdClient at h
  split at h
  · cases h
    exact ⟨rfl, Or.inl (Quiet.refl s)⟩
  · obtain ⟨cliaddr, -, h⟩ := Except.bind_eq_ok.mp h
    split at h
    · cases h
      exact ⟨rfl, Or.inl (Quiet.refl s)⟩
    · obtain ⟨uid, -, h⟩ := Except.bind_eq_ok.mp h
      split at h
      · rename_i hf
        obtain ⟨name, -, h⟩ := Except.bind_eq_ok.mp h
        obtain ⟨buf, -, h⟩ := Except.bind_eq_ok.mp h
        cases h
        have hc : deviceSwitch ≠ 0 ∧ protoCollector ≠ 0 ∧ subtypeCollector ≠ 0 := by decide
        refine ⟨rfl, Or.inr ⟨s.modClient c fun cl => { cl with collDev := some s.nextDev }, _, Quiet.modClient s c rfl, ?_, ?_,
          Quiet.modDev _ _ (core_storeDataDev F _ _)⟩⟩
        · exact hf
        · exact ⟨rfl, rfl, rfl, rfl, ⟨Option.some_ne_none name, hc.1, hc.2.1, hc.2.2⟩, buf, rfl⟩
      · cases h
        exact ⟨rfl, Or.inl ((Quiet.modClient s c rfl).trans (Quiet.modDev _ _ (core_storeDataDev F _ _)))⟩

/-! ## The timers -/

theorem quiet_timerdevUpdate (ds : List DevId) (s : Server) : Quiet s (timerdevUpdate F ds s) := by
  induction ds generalizing s with
  | nil => exact Quiet.refl s
  | cons d ds ih =>
    simp only [timerdevUpdate]
    split
    · split
      · exact ih s
      · exact (Quiet.modDev s d (core_storeDataDev F _ _)).trans (ih _)
    · exact ih s

theorem quiet_healthUpdateClientsCb (env : Env) (cs : List ClientId) (s : Server) :
    Quiet s (healthUpdateClientsCb F env cs s) := by
  induction cs generalizing s with
  | nil => exact Quiet.refl s
  | cons c cs ih =>
    unfold healthUpdateClientsCb
    split
    · exact (quiet_storeCollDev F c _ s).trans (ih _)
    · exact ih s

theorem quiet_feeddataCb {now : Int} {c : ClientId} {s : Server} {r : Reply} (h : feeddataCb F now c s = .ok r) :
    Quiet s r.srv := by
  obtain ⟨x, -, rfl⟩ := Except.map_eq_ok.mp h
  dsimp only
  exact Quiet.modClient s c rfl

/-! ## The list -/

/-- The longest text of an address. -/
def hostMax : Nat := 15

/-- What an event does to the links between records. -/
inductive Act : Event → Server → Server → Prop
  | none {e : Event} {s : Server} : Act e s s
  | connect {e : Event} {s : Server} {cl : Client} (hp : cl.provider = false) (hd : cl.devices = [])
      (hh : ∀ h, cl.host = some h → h.length ≤ hostMax) : Act e s (s.connect cl)
  | create {c : ClientId} {text : Str} {env : Env} {args : List PArg} {s : Server} {uid nm : Str}
      (hl : lineCmd F text = some (.reg, args)) (hu : lastArg .uid args = some uid) (hf : s.findDeviceByUid uid = .none)
      (hd : (registered args uid nm).Complete) :
      Act (.line c text env) s ((claimDevice (s.newDevice (registered args uid nm)) s.nextDev c).insertDevice s.nextDev)
  | claim {c : ClientId} {text : Str} {env : Env} {args : List PArg} {s : Server} {uid : Str} {d : DevId}
      (hl : lineCmd F text = some (.reg, args)) (hu : lastArg .uid args = some uid) (hf : s.findDeviceByUid uid = some d) :
      Act (.line c text env) s (claimDevice (s.modDev d (reregistered args)) d c)
  | regroup {c : ClientId} {text : Str} {env : Env} {args : List PArg} {s : Server}
      (hl : lineCmd F text = some (.regg, args)) : Act (.line c text env) s (cmdRegisterGroup args c s).srv
  | modify {c : ClientId} {text : Str} {env : Env} {args : List PArg} {s : Server} {uid : Str} {d : DevId} {dev : Device}
      (hl : lineCmd F text = some (.mod, args)) (hf : s.findDeviceByUid uid = some d) (hm : Modified (s.dev d) dev) :
      Act (.line c text env) s (s.modDev d fun _ => dev)
  | watch {c : ClientId} {text : Str} {env : Env} {args : List PArg} {s : Server} {uid : Str} {d : DevId}
      (hl : lineCmd F text = some (.cfeed, args)) (hf : s.findDeviceByUid uid = some d) :
      Act (.line c text env) s (s.addWrappedClient c d)
  | track {c : ClientId} {text : Str} {env : Env} {args : List PArg} {s : Server} {dev : Device}
      (hl : lineCmd F text = some (.client, args)) (hf : s.findDeviceByUid dev.uid = .none) (ht : Tracks c dev) :
      Act (.line c text env) s ((s.newDevice dev).insertDevice s.nextDev)
  | close {c : ClientId} {env : Env} {s : Server} : Act (.close c env) s (bufErrorCb F env c s)
  | drained {c : ClientId} {env : Env} {s : Server} : Act (.drained c env) s (bufErrorCb F env c s)

/-- An event acts on the links between records, with quiet changes before and after. -/
def Does (e : Event) (s s' : Server) : Prop := ∃ s₁ s₂, Quiet s s₁ ∧ Act F e s₁ s₂ ∧ Quiet s₂ s'

theorem Does.quiet {e : Event} {s s' : Server} (h : Quiet s s') : Does F e s s' := ⟨s', s', h, .none, Quiet.refl s'⟩

theorem Does.act {e : Event} {s s₁ s' : Server} (h : Quiet s s₁) (ha : Act F e s₁ s') : Does F e s s' :=
  ⟨s₁, s', h, ha, Quiet.refl s'⟩

theorem length_inetNtoa (a b c d : Byte) : (inetNtoa a b c d).length ≤ hostMax := by
  have hdec : ∀ b : Byte, (decNat b.toNat).length ≤ 3 := fun b => length_decNat_le (by omega) (by have := b.toNat_lt; omega)
  have h1 := hdec a
  have h2 := hdec b
  have h3 := hdec c
  have h4 := hdec d
  simp only [inetNtoa, List.length_append, hostMax]
  have : (str ".").length = 1 := rfl
  omega

/-- What a handler does, after the client was marked. -/
theorem does_run {c : ClientId} {text : Str} {env : Env} {cmd : Cmd} {args : List PArg}
    (hl : lineCmd F text = some (cmd, args)) {s s₁ : Server} (hs : Quiet s s₁) {r : Reply}
    (h : cmd.run F env args c s₁ = .ok r) : Does F (.line c text env) s r.srv := by
  cases cmd with
  | reg =>
    cases h
    obtain h | ⟨uid, nm, hu, -, hf, hd, h⟩ | ⟨uid, d, hu, hf, h⟩ := cmdRegister_cases args c s₁
    · rw [h]
      exact Does.quiet F hs
    · rw [h]
      exact Does.act F hs (.create hl hu hf hd)
    · rw [h]
      exact Does.act F hs (.claim hl hu hf)
  | regg =>
    cases h
    exact Does.act F hs (.regroup hl)
  | upd =>
    have h : cmdUpdate F env args c s₁ = .ok r := h
    obtain ⟨h, -⟩ | ⟨uid, d, s₂, out, told, -, hq, -, -, h⟩ := cmdUpdate_cases F h
    · rw [h]
      exact Does.quiet F hs
    · obtain ⟨h, -⟩ | ⟨h, -⟩ := h
      · rw [h]
        exact Does.quiet F (hs.trans hq)
      · rw [h]
        exact Does.act F (hs.trans hq) (.connect rfl rfl (fun _ hh => by cases hh))
  | mod =>
    have h : cmdModify F args c s₁ = .ok r := h
    obtain ⟨h, -⟩ | ⟨uid, d, dev, out, text', hf, -, hm, h, -⟩ := cmdModify_cases F h
    · rw [h]
      exact Does.quiet F hs
    · rw [h]
      exact Does.act F hs (.modify hl hf hm)
  | cfeed =>
    cases h
    obtain h | ⟨uid, d, hf, h⟩ := cmdCfeed_cases args c s₁
    · rw [h]
      exact Does.quiet F hs
    · rw [h]
      exact Does.act F hs (.watch hl hf)
  | client =>
    obtain ⟨-, h | ⟨s₂, dev, hq, hf, ht, h⟩⟩ := cmdClient_cases F h
    · exact Does.quiet F (hs.trans h)
    · exact ⟨s₂, _, hs.trans hq, .track hl hf ht, h⟩
  | chg | feed | ldevs | lgrps | ask | askf | cactiask | disconnect | ping | imalive | setalarm | listenalarms | dumpalarms
  | getapiv => exact Does.quiet F (hs.trans (quiet_run F rfl h))

/-- What an event does. -/
theorem does_handle {e : Event} {s : Server} {r : Reply} (h : handle F s e = .ok r) : Does F e s r.srv := by
  cases e with
  | accept now a b c d =>
    cases h
    refine Does.act F (Quiet.refl s) (.connect rfl rfl ?_)
    intro h hh
    cases hh
    exact length_inetNtoa a b c d
  | data c now =>
    cases h
    dsimp only
    exact Does.quiet F (Quiet.modClient s c rfl)
  | line c text env =>
    have h : handleLine F env c text s = .ok r := h
    cases hl : lineCmd F text with
    | none =>
      obtain ⟨ret, hr⟩ := handleLine_none F hl env c s
      rw [hr] at h
      cases h
      exact Does.quiet F (quiet_mark s c env)
    | some p =>
      rw [handleLine_some F (by exact hl)] at h
      exact does_run F hl (quiet_mark s c env) h
  | close c env =>
    cases h
    exact Does.act F (Quiet.refl s) .close
  | drained c env =>
    cases h
    exact Does.act F (Quiet.refl s) .drained
  | feed c now => exact Does.quiet F (quiet_feeddataCb F h)
  | timer =>
    cases h
    exact Does.quiet F (quiet_timerdevUpdate F _ s)
  | ping =>
    cases h
    exact Does.quiet F (Quiet.refl s)
  | health env =>
    cases h
    exact Does.quiet F (quiet_healthUpdateClientsCb F env _ s)
  | devconf =>
    obtain ⟨out, -, rfl⟩ := Except.map_eq_ok.mp h
    exact Does.quiet F (Quiet.refl s)

theorem react_eq_some {s : Server} {e : Event} {r : Reply} :
    react F s e = some r ↔ e.possible s = true ∧ handle F s e = .ok r := by
  unfold react
  split
  · rename_i h
    cases handle F s e <;> simp [h, Except.toOption]
  · rename_i h
    simp [h]

theorem step_eq_some {s s' : Server} {e : Event} :
    step F s e = some s' ↔ ∃ r, react F s e = some r ∧ r.srv = s' := by
  simp [step]

/-- What a step does. -/
theorem does_step {s s' : Server} {e : Event} (h : step F s e = some s') : e.possible s = true ∧ Does F e s s' := by
  obtain ⟨r, hr, rfl⟩ := (step_eq_some F).mp h
  obtain ⟨hp, hh⟩ := (react_eq_some F).mp hr
  exact ⟨hp, does_handle F hh⟩

/-- A step on a line that selects a handler is what the handler does. -/
theorem react_line {s : Server} {c : ClientId} {text : Str} {env : Env} {cmd : Cmd} {args : List PArg} {r : Reply}
    (hl : lineCmd F text = some (cmd, args)) (h : react F s (.line c text env) = some r) :
    c ∈ s.clients ∧ cmd.run F env args c (s.mark c env) = .ok r := by
  obtain ⟨hp, hh⟩ := (react_eq_some F).mp h
  refine ⟨of_decide_eq_true hp, ?_⟩
  rw [← handleLine_some F hl]
  exact hh

theorem step_line {s s' : Server} {c : ClientId} {text : Str} {env : Env} {cmd : Cmd} {args : List PArg}
    (hl : lineCmd F text = some (cmd, args)) (h : step F s (.line c text env) = some s') :
    c ∈ s.clients ∧ ∃ r, cmd.run F env args c (s.mark c env) = .ok r ∧ s' = r.srv := by
  obtain ⟨r, hr, rfl⟩ := (step_eq_some F).mp h
  obtain ⟨hc, hrun⟩ := react_line F hl hr
  exact ⟨hc, r, hrun, rfl⟩

end Gnhast
