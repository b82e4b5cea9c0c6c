import Gnhast.Lemmas.Alarms

/-!
# The alarm table of the server

`update_alarm` keeps one alarm for an uid, and a severity of zero removes it. But where it makes an alarm it stores what it was
given: the severity -1 that stands for none, other negative numbers, and a channel mask of zero, which it repairs only in an
alarm that exists. So the alarms of a run can all be seen exactly when no line sets one otherwise.
-/

namespace Gnhast

open CStr Runs Keyed

variable (F : Doubles)

/-- There is one alarm for an uid, and it can be seen: it has a severity of at least one, and a channel. -/
structure AlarmTable (s : Server) : Prop where
  one : Distinct Alarm.aluid s.alarms
  severity : ∀ a ∈ s.alarms, 1 ≤ a.alsev.toInt
  channel : ∀ a ∈ s.alarms, a.alchan ≠ 0

/-- A line with severity zero leaves no alarm with its uid. -/
def ClearsAlarm (s : Server) (e : Event) : Prop :=
  ∀ args aluid s', SetsAlarm F e args aluid → (lastArg .alsev args : Option (BitVec 32)) = some 0 → step F s e = some s' →
    ∀ a ∈ s'.alarms, a.aluid ≠ aluid

/-- A line that makes an alarm gives it a severity of at least one and a channel; a line that changes one gives it no negative
severity, if it gives one. -/
def SetsVisible (s : Server) (e : Event) : Prop :=
  ∀ args aluid, SetsAlarm F e args aluid →
    match findAlarmByAluid s.alarms aluid with
    | none => sevArg args = 0 ∨ (lastArg .altext args : Option Str) = none ∨ (1 ≤ (sevArg args).toInt ∧ chanArg args ≠ 0)
    | some _ => sevArg args = -1 ∨ 0 ≤ (sevArg args).toInt

theorem distinct_alarmsAfter {alarms : List Alarm} (h : Distinct Alarm.aluid alarms) (args : List PArg) (aluid : Str) :
    Distinct Alarm.aluid (alarmsAfter args aluid alarms) := by
  rw [alarmsAfter, updateAlarm_eq]
  exact h.apply _

theorem distinct_step {e : Event} {s s' : Server} (h : Distinct Alarm.aluid s.alarms) (hs : step F s e = some s') :
    Distinct Alarm.aluid s'.alarms := by
  obtain he | ⟨args, aluid, -, he⟩ := alarms_step F hs
  · rw [he]
    exact h
  · rw [he]
    exact distinct_alarmsAfter h args aluid

/-- With severity zero, the alarm is deleted if it is there. -/
theorem alarmsAfter_clear {args : List PArg} (h : (lastArg .alsev args : Option (BitVec 32)) = some 0) (aluid : Str)
    (alarms : List Alarm) : alarmsAfter args aluid alarms = Keyed.del Alarm.aluid aluid alarms := by
  have hsev : sevArg args = 0 := by
    unfold sevArg
    rw [h]
    rfl
  have hnone : (updateAlarm aluid (lastArg .altext args) (sevArg args) (chanArg args) alarms).2 = none := by
    unfold updateAlarm
    rw [hsev]
    split
    · rfl
    · rfl
  rw [alarmsAfter, updateAlarm_eq, hnone]
  rfl

theorem clearsAlarm_of_distinct {s : Server} (h : Distinct Alarm.aluid s.alarms) (e : Event) : ClearsAlarm F s e := by
  intro args aluid s' hset hsev hs a ha
  rw [hset.step F hs, alarmsAfter_clear hsev] at ha
  exact (h.mem_del.mp ha).2

/-- An alarm that can be seen. -/
def Alarm.Visible (a : Alarm) : Prop := 1 ≤ a.alsev.toInt ∧ a.alchan ≠ 0

/-- An update keeps an alarm visible exactly when it gives no negative severity. -/
theorem visible_update_iff {a : Alarm} (h : a.Visible) (altext : Option Str) {alsev : BitVec 32} (h0 : alsev ≠ 0)
    (alchan : BitVec 32) : (a.update altext alsev alchan).Visible ↔ alsev = -1 ∨ 0 ≤ alsev.toInt := by
  have hchan : (a.update altext alsev alchan).alchan ≠ 0 := by
    simp only [Alarm.update]
    split
    · decide
    · rename_i hz
      exact hz
  have hne : alsev.toInt ≠ 0 := fun hz => h0 (BitVec.eq_of_toInt_eq (by rw [hz]; rfl))
  unfold Alarm.Visible
  rw [and_iff_left hchan]
  simp only [Alarm.update]
  split
  · rename_i h1
    simp only [h1, true_or, iff_true]
    exact h.1
  · rename_i h1
    simp only [h1, false_or]
    omega

/-- Where all alarms can be seen, they can be after a line exactly when the line sets a visible one. -/
theorem visible_alarmsAfter_iff {alarms : List Alarm} (hd : Distinct Alarm.aluid alarms) (hv : ∀ a ∈ alarms, a.Visible)
    (args : List PArg) (aluid : Str) : (∀ a ∈ alarmsAfter args aluid alarms, a.Visible) ↔
      match findAlarmByAluid alarms aluid with
      | none => sevArg args = 0 ∨ (lastArg .altext args : Option Str) = none ∨ (1 ≤ (sevArg args).toInt ∧ chanArg args ≠ 0)
      | some _ => sevArg args = -1 ∨ 0 ≤ (sevArg args).toInt := by
  unfold alarmsAfter updateAlarm
  cases hf : findAlarmByAluid alarms aluid with
  | none =>
    dsimp only
    split
    · rename_i h0
      exact iff_of_true hv (Or.inl h0)
    · rename_i h0
      rw [or_iff_right h0]
      cases ht : (lastArg .altext args : Option Str) with
      | none => exact iff_of_true hv (Or.inl rfl)
      | some text =>
        rw [or_iff_right (by simp)]
        constructor
        · intro h
          exact h _ (List.mem_append_right _ (List.mem_singleton_self _))
        · intro h a ha
          rcases List.mem_append.mp ha with ha | ha
          · exact hv a ha
          · rw [List.mem_singleton.mp ha]
            exact h
  | some old =>
    have hold := Keyed.mem_of_get hf
    dsimp only
    split
    · rename_i h0
      refine iff_of_true (fun a ha => hv a (List.mem_of_mem_eraseP ha)) (Or.inr ?_)
      rw [h0]
      rfl
    · rename_i h0
      have hnew := visible_update_iff (hv old hold.1) (lastArg .altext args) h0 (chanArg args)
      dsimp only
      rw [replaceAlarm_eq, ← hnew]
      have hmem : ∀ b, b ∈ put Alarm.aluid aluid (old.update (lastArg .altext args) (sevArg args) (chanArg args)) alarms ↔ _ :=
        fun b => hd.mem_put ⟨old, hold.1, hold.2⟩
      constructor
      · intro h
        exact h _ ((hmem _).mpr (Or.inl rfl))
      · intro h a ha
        rcases (hmem a).mp ha with rfl | ⟨ha, -⟩
        · exact h
        · exact hv a ha

theorem alarmTable_iff (s : Server) : AlarmTable s ↔ Distinct Alarm.aluid s.alarms ∧ ∀ a ∈ s.alarms, a.Visible :=
  ⟨fun h => ⟨h.one, fun a ha => ⟨h.severity a ha, h.channel a ha⟩⟩,
    fun h => ⟨h.1, fun a ha => (h.2 a ha).1, fun a ha => (h.2 a ha).2⟩⟩

/-- One step keeps the table exactly under the condition. -/
theorem alarmTable_step_iff {s s' : Server} {e : Event} (h : AlarmTable s) (hs : step F s e = some s') :
    AlarmTable s' ↔ SetsVisible F s e := by
  obtain ⟨hd, hv⟩ := (alarmTable_iff s).mp h
  rw [alarmTable_iff, and_iff_right (distinct_step F hd hs)]
  constructor
  · intro h' args aluid hset
    rw [hset.step F hs] at h'
    exact (visible_alarmsAfter_iff hd hv args aluid).mp h'
  · intro hset
    obtain he | ⟨args, aluid, hset', he⟩ := alarms_step F hs
    · rw [he]
      exact hv
    · rw [he]
      exact (visible_alarmsAfter_iff hd hv args aluid).mpr (hset args aluid hset')

theorem alarms_initDevtable (confs : List DeviceConf) (s : Server) : (initDevtable F confs s).alarms = s.alarms := by
  induction confs generalizing s with
  | nil => rfl
  | cons conf confs ih =>
    rw [initDevtable, ih, alarms_insertDevice]

theorem startup_noAlarms {cfg : Config} {s : Server} (h : startup F cfg = .ok s) : s.alarms = [] := by
  rw [alarms_onlyGroups (onlyGroups_parseDevgroups h), alarms_initDevtable]

/-- In every run the table has one visible alarm for an uid in every state, and every line with severity zero removes the alarm
with its uid, exactly when each line that makes an alarm gives it a severity of at least one and a channel, and each line that
changes one gives it no negative severity. -/
theorem alarmTable_iff_setsVisible {cfg : Config} {s₀ : Server} (h : startup F cfg = .ok s₀) (es : List Event) :
    (Throughout (step F) AlarmTable s₀ es ∧ Along (step F) (ClearsAlarm F) s₀ es) ↔ Along (step F) (SetsVisible F) s₀ es := by
  have h0 := startup_noAlarms F h
  have hd : Distinct Alarm.aluid s₀.alarms := by
    rw [h0]
    exact List.nodup_nil
  have htable : AlarmTable s₀ := by
    refine (alarmTable_iff s₀).mpr ⟨hd, ?_⟩
    rw [h0]
    intro a ha
    cases ha
  have hclears : Along (step F) (ClearsAlarm F) s₀ es :=
    along_of_invariant (I := fun s => Distinct Alarm.aluid s.alarms) (fun _ _ _ hI hs => distinct_step F hI hs)
      (fun _ _ _ hI _ => clearsAlarm_of_distinct F hI _) hd es
  rw [and_iff_left hclears]
  exact throughout_iff_along (I := fun _ => True) (fun _ _ _ _ _ => trivial)
    (fun _ _ _ _ hp hs => alarmTable_step_iff F hp hs) trivial htable es

theorem alarmTable_iff_setsVisible_fire :
    (Throughout (step Doubles.exact) AlarmTable {}
        [.accept 0 10 0 0 1, .line 0 (str "setalarm aluid:fire altext:Fire alsev:5") {}] ∧
      Along (step Doubles.exact) (ClearsAlarm Doubles.exact) {}
        [.accept 0 10 0 0 1, .line 0 (str "setalarm aluid:fire altext:Fire alsev:5") {}]) ↔
      Along (step Doubles.exact) (SetsVisible Doubles.exact) {}
        [.accept 0 10 0 0 1, .line 0 (str "setalarm aluid:fire altext:Fire alsev:5") {}] :=
  @alarmTable_iff_setsVisible Doubles.exact {} {} rfl _

/-- An alarm that is made without a severity is stored with severity -1. -/
theorem not_alarmTable_noSeverity : startup Doubles.exact {} = .ok {} ∧
    ¬ Throughout (step Doubles.exact) AlarmTable {}
        [.accept 0 10 0 0 1, .line 0 (str "setalarm aluid:fire altext:Fire") {}] := by
  refine ⟨rfl, fun h => ?_⟩
  have hex : ((exec (step Doubles.exact) {} [.accept 0 10 0 0 1, .line 0 (str "setalarm aluid:fire altext:Fire") {}]).map
      fun s => s.alarms) = some [⟨str "fire", str "Fire", -1, 1⟩] := by rfl
  obtain ⟨s, hs, he⟩ := Option.map_eq_some_iff.mp hex
  have hsev := (h.last hs).severity ⟨str "fire", str "Fire", -1, 1⟩ (by rw [he]; exact List.mem_singleton_self _)
  exact absurd hsev (by decide)

end Gnhast
