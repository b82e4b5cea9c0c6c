import Gnhast.Lemmas.Registry
import Gnhast.Lib.Keyed

/-!
# The alarm table

Only `setalarm` changes the table. It is a table with keys, and `update_alarm` is a change of it: a record is set, or the record
with the uid is deleted; what it returns says which.
-/

namespace Gnhast

open CStr Keyed

variable (F : Doubles)

/-! ## Who writes alarms -/

theorem alarms_insertDevice (s : Server) (d : DevId) : (s.insertDevice d).alarms = s.alarms := by
  unfold Server.insertDevice
  dsimp only
  split
  · rfl
  · rfl

theorem alarms_claimDevice (s : Server) (d : DevId) (c : ClientId) : (claimDevice s d c).alarms = s.alarms := by
  rw [claimDevice_frame]

theorem alarms_storeCollDev (c : ClientId) (w : Word) (s : Server) : (storeCollDev F c w s).alarms = s.alarms := by
  unfold storeCollDev
  split
  · rfl
  · rfl

theorem alarms_onlyGroups {s s' : Server} (h : OnlyGroups s s') : s'.alarms = s.alarms := by
  rw [h]

theorem alarms_cmdRegister (args : List PArg) (c : ClientId) (s : Server) : (cmdRegister args c s).srv.alarms = s.alarms := by
  obtain h | ⟨uid, nm, -, -, -, -, h⟩ | ⟨uid, d, -, -, h⟩ := cmdRegister_cases args c s
  · rw [h]
  · rw [h, alarms_insertDevice, alarms_claimDevice]
    rfl
  · rw [h, alarms_claimDevice]
    rfl

theorem alarms_runHandlerOnUpdate {env : Env} {d : DevId} {b : Bool} {s : Server} {r : Server × List Out}
    (h : runHandlerOnUpdate F env d b s = .ok r) : r.1.alarms = s.alarms := by
  unfold runHandlerOnUpdate at h
  split at h
  · obtain ⟨s', out⟩ := r
    obtain ⟨rfl, -⟩ | ⟨rfl, -⟩ := runHandlerDev_cases F h
    · rfl
    · rfl
  · cases h
    rfl

theorem alarms_cmdUpdate {env : Env} {args : List PArg} {c : ClientId} {s : Server} {r : Reply}
    (h : cmdUpdate F env args c s = .ok r) : r.srv.alarms = s.alarms := by
  unfold cmdUpdate at h
  split at h
  · cases h
    rfl
  · split at h
    · cases h
      rfl
    · obtain ⟨x, h1, h⟩ := Except.bind_eq_ok.mp h
      obtain ⟨told, -, h⟩ := Except.bind_eq_ok.mp h
      cases h
      exact (alarms_runHandlerOnUpdate F h1).trans rfl

theorem alarms_cmdModify {args : List PArg} {c : ClientId} {s : Server} {r : Reply} (h : cmdModify F args c s = .ok r) :
    r.srv.alarms = s.alarms := by
  obtain ⟨h, -⟩ | ⟨uid, d, dev, out, text, -, -, -, h, -⟩ := cmdModify_cases F h
  · rw [h]
  · rw [h]
    rfl

theorem alarms_cmdFeed {args : List PArg} {c : ClientId} {s : Server} {r : Reply} (h : cmdFeed args c s = .ok r) :
    r.srv.alarms = s.alarms := by
  unfold cmdFeed at h
  split at h
  · cases h
    rfl
  · split at h
    · cases h
      rfl
    · dsimp only at h
      split at h
      · obtain ⟨g, -, h⟩ := Except.bind_eq_ok.mp h
        cases h
        rfl
      · cases h
        rfl

theorem alarms_cmdCfeed (args : List PArg) (c : ClientId) (s : Server) : (cmdCfeed args c s).srv.alarms = s.alarms := by
  obtain h | ⟨uid, d, -, h⟩ := cmdCfeed_cases args c s
  · rw [h]
  · rw [h]
    rfl

theorem alarms_cmdChange (args : List PArg) (c : ClientId) (s : Server) : (cmdChange F args c s).srv.alarms = s.alarms := by
  unfold cmdChange
  split
  · rfl
  · split
    · rfl
    · dsimp only
      split
      · rfl
      · rfl

theorem alarms_cmdClient {env : Env} {args : List PArg} {c : ClientId} {s : Server} {r : Reply}
    (h : cmdClient F env args c s = .ok r) : r.srv.alarms = s.alarms := by
  unfold cmdClient at h
  split at h
  · cases h
    rfl
  · obtain ⟨cliaddr, -, h⟩ := Except.bind_eq_ok.mp h
    split at h
    · cases h
      rfl
    · obtain ⟨uid, -, h⟩ := Except.bind_eq_ok.mp h
      split at h
      · obtain ⟨name, -, h⟩ := Except.bind_eq_ok.mp h
        obtain ⟨buf, -, h⟩ := Except.bind_eq_ok.mp h
        cases h
        exact alarms_insertDevice _ _
      · cases h
        rfl

/-- No command but `setalarm` changes the table. -/
theorem alarms_run {env : Env} {cmd : Cmd} (hc : cmd ≠ .setalarm) {args : List PArg} {c : ClientId} {s : Server} {r : Reply}
    (h : cmd.run F env args c s = .ok r) : r.srv.alarms = s.alarms := by
  cases cmd with
  | setalarm => exact absurd rfl hc
  | reg => cases h; exact alarms_cmdRegister args c s
  | regg => cases h; exact alarms_onlyGroups (onlyGroups_cmdRegisterGroup args c s)
  | upd => exact alarms_cmdUpdate F (c := c) h
  | mod => exact alarms_cmdModify F (c := c) h
  | feed => exact alarms_cmdFeed h
  | cfeed => cases h; exact alarms_cmdCfeed args c s
  | chg => cases h; exact alarms_cmdChange F args c s
  | client => exact alarms_cmdClient F h
  | lgrps => rw [srv_cmdListGroups h]
  | ask => rw [srv_cmdAskDevice F h]
  | askf => rw [srv_cmdAskFullDevice F h]
  | cactiask => rw [srv_cmdCactiaskDevice F h]
  | disconnect => cases h; exact alarms_storeCollDev F c _ _
  | imalive => cases h; exact alarms_storeCollDev F c _ s
  | ldevs | ping | listenalarms | dumpalarms | getapiv => cases h; rfl

theorem alarms_bufErrorCb (env : Env) (c : ClientId) (s : Server) : (bufErrorCb F env c s).alarms = s.alarms := by
  have h : ∀ s₁ : Server, (disownAll c (unwatch c s₁.alldevs s₁)).alarms = s₁.alarms := by
    intro s₁
    rw [disownAll_frame, unwatch_frame]
  exact (h _).trans (alarms_storeCollDev F c _ s)

theorem alarms_timerdevUpdate (ds : List DevId) (s : Server) : (timerdevUpdate F ds s).alarms = s.alarms := by
  induction ds generalizing s with
  | nil => rfl
  | cons d ds ih =>
    unfold timerdevUpdate
    dsimp only
    split
    · split
      · exact ih s
      · exact ih _
    · exact ih s

theorem alarms_healthUpdateClientsCb (env : Env) (cs : List ClientId) (s : Server) :
    (healthUpdateClientsCb F env cs s).alarms = s.alarms := by
  induction cs generalizing s with
  | nil => rfl
  | cons c cs ih =>
    unfold healthUpdateClientsCb
    split
    · exact (ih _).trans (alarms_storeCollDev F c _ s)
    · exact ih s

/-- A line that sets an alarm: its arguments, with an uid. -/
structure SetsAlarm (e : Event) (args : List PArg) (aluid : Str) : Prop where
  line : ∃ c text env, e = .line c text env ∧ lineCmd F text = some (.setalarm, args)
  uid : lastArg .aluid args = some aluid

/-- The severity and the channel a `setalarm` line gives. -/
def sevArg (args : List PArg) : BitVec 32 := (lastArg .alsev args : Option (BitVec 32)).getD (-1)
def chanArg (args : List PArg) : BitVec 32 := (lastArg .alchan args : Option (BitVec 32)).getD 1

/-- The table after a `setalarm` line. -/
def alarmsAfter (args : List PArg) (aluid : Str) (alarms : List Alarm) : List Alarm :=
  (updateAlarm aluid (lastArg .altext args) (sevArg args) (chanArg args) alarms).1

theorem alarms_cmdSetalarm {args : List PArg} {aluid : Str} (h : lastArg .aluid args = some aluid) (c : ClientId) (s : Server) :
    (cmdSetalarm args c s).srv.alarms = alarmsAfter args aluid s.alarms := by
  simp only [cmdSetalarm, h]
  rfl

theorem alarms_handle {e : Event} {s : Server} {r : Reply} (h : handle F s e = .ok r) :
    r.srv.alarms = s.alarms ∨ ∃ args aluid, SetsAlarm F e args aluid ∧ r.srv.alarms = alarmsAfter args aluid s.alarms := by
  cases e with
  | accept => cases h; exact Or.inl rfl
  | data => cases h; exact Or.inl rfl
  | line c text env =>
    have h : handleLine F env c text s = .ok r := h
    cases hl : lineCmd F text with
    | none =>
      obtain ⟨ret, hr⟩ := handleLine_none F hl env c s
      rw [hr] at h
      cases h
      exact Or.inl rfl
    | some p =>
      obtain ⟨cmd, args⟩ := p
      rw [handleLine_some F hl] at h
      by_cases hc : cmd = .setalarm
      · subst hc
        cases h
        cases hu : (lastArg .aluid args : Option Str) with
        | none =>
          simp only [cmdSetalarm, hu]
          exact Or.inl rfl
        | some aluid => exact Or.inr ⟨args, aluid, ⟨⟨c, text, env, rfl, hl⟩, hu⟩, alarms_cmdSetalarm hu c _⟩
      · exact Or.inl ((alarms_run F hc h).trans rfl)
  | close => cases h; exact Or.inl (alarms_bufErrorCb F _ _ s)
  | drained => cases h; exact Or.inl (alarms_bufErrorCb F _ _ s)
  | feed =>
    obtain ⟨x, -, rfl⟩ := Except.map_eq_ok.mp h
    exact Or.inl rfl
  | timer => cases h; exact Or.inl (alarms_timerdevUpdate F _ s)
  | ping => cases h; exact Or.inl rfl
  | health => cases h; exact Or.inl (alarms_healthUpdateClientsCb F _ _ s)
  | devconf =>
    obtain ⟨out, -, rfl⟩ := Except.map_eq_ok.mp h
    exact Or.inl rfl

/-- A step leaves the table as it was, unless it is a line that sets an alarm. -/
theorem alarms_step {e : Event} {s s' : Server} (h : step F s e = some s') :
    s'.alarms = s.alarms ∨ ∃ args aluid, SetsAlarm F e args aluid ∧ s'.alarms = alarmsAfter args aluid s.alarms := by
  obtain ⟨r, hr, rfl⟩ := (step_eq_some F).mp h
  exact alarms_handle F ((react_eq_some F).mp hr).2

/-- What a step on such a line does. -/
theorem SetsAlarm.step {e : Event} {args : List PArg} {aluid : Str} (h : SetsAlarm F e args aluid) {s s' : Server}
    (hs : step F s e = some s') : s'.alarms = alarmsAfter args aluid s.alarms := by
  obtain ⟨c, text, env, rfl, hl⟩ := h.line
  obtain ⟨-, r, hr, rfl⟩ := step_line F hl hs
  cases hr
  exact alarms_cmdSetalarm h.uid c _

/-- The line of an event determines the arguments. -/
theorem SetsAlarm.unique {e : Event} {args args' : List PArg} {aluid aluid' : Str} (h : SetsAlarm F e args aluid)
    (h' : SetsAlarm F e args' aluid') : args' = args ∧ aluid' = aluid := by
  obtain ⟨c, text, env, rfl, hl⟩ := h.line
  obtain ⟨c', text', env', he, hl'⟩ := h'.line
  cases he
  rw [hl] at hl'
  cases hl'
  have hu := h.uid.symm.trans h'.uid
  cases hu
  exact ⟨rfl, rfl⟩

/-! ## A table with keys -/

theorem findAlarmByAluid_eq (alarms : List Alarm) (aluid : Str) :
    findAlarmByAluid alarms aluid = Keyed.get Alarm.aluid aluid alarms := rfl

theorem replaceAlarm_eq (aluid : Str) (new : Alarm) (alarms : List Alarm) :
    replaceAlarm aluid new alarms = Keyed.put Alarm.aluid aluid new alarms := by
  induction alarms with
  | nil => rfl
  | cons a as ih => rw [replaceAlarm, Keyed.put, ih]

/-- The change that `update_alarm` makes, which its result tells. -/
def alarmChange (aluid : Str) (made : Option Alarm) : Change Alarm Str :=
  match made with
  | some alarm => .set alarm
  | none => .del aluid

theorem del_of_absent {aluid : Str} {alarms : List Alarm} (h : Keyed.get Alarm.aluid aluid alarms = none) :
    Keyed.del Alarm.aluid aluid alarms = alarms := by
  unfold Keyed.del
  rw [List.eraseP_of_forall_not]
  intro a ha hk
  exact Keyed.get_eq_none.mp h a ha (of_decide_eq_true hk)

/-- The strings of an alarm that is made or changed are those of the line, or of the alarm as it was. -/
theorem updateAlarm_strings {P Q : Str → Prop} {aluid : Str} {altext : Option Str} (hu : P aluid) (ht : ∀ t, altext = some t → Q t)
    {alarms : List Alarm} (hp : ∀ a ∈ alarms, P a.aluid ∧ Q a.altext) {alsev alchan : BitVec 32} {a : Alarm}
    (h : (updateAlarm aluid altext alsev alchan alarms).2 = some a) : P a.aluid ∧ Q a.altext := by
  unfold updateAlarm at h
  split at h
  · split at h
    · cases h
    · split at h
      · cases h
      · cases h
        exact ⟨hu, ht _ rfl⟩
  · rename_i old hold
    have hboth := hp old (List.mem_of_find?_eq_some hold)
    split at h
    · cases h
    · cases h
      refine ⟨hboth.1, ?_⟩
      cases altext with
      | none => exact hboth.2
      | some t => exact ht t rfl

/-- `update_alarm` is the change that its result tells. -/
theorem updateAlarm_eq (aluid : Str) (altext : Option Str) (alsev alchan : BitVec 32) (alarms : List Alarm) :
    (updateAlarm aluid altext alsev alchan alarms).1 =
      (alarmChange aluid (updateAlarm aluid altext alsev alchan alarms).2).apply Alarm.aluid alarms := by
  unfold updateAlarm
  rw [findAlarmByAluid_eq]
  cases hg : Keyed.get Alarm.aluid aluid alarms with
  | none =>
    dsimp only
    split
    · exact (del_of_absent hg).symm
    · cases altext with
      | none => exact (del_of_absent hg).symm
      | some text => simp only [alarmChange, Change.apply, hg]
  | some a =>
    dsimp only
    split
    · rfl
    · have hk : (a.update altext alsev alchan).aluid = aluid := (Keyed.mem_of_get hg).2
      simp only [alarmChange, Change.apply, hk, hg, replaceAlarm_eq]

end Gnhast
