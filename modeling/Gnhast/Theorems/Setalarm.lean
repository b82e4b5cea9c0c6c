import Gnhast.Theorems.AlarmReplica

/-!
# Partial updates of an alarm

A `setalarm` for an alarm that is there may leave out the text, the severity and the channel. An omitted text or severity is kept.
The channel is not: `cmd_setalarm` takes the generic channel for an omitted one, and `update_alarm` stores what it is given. The
markers take two values out of what a line can store: the severity -1 means that there is none, and channel zero is the generic one.
-/

namespace Gnhast

open CStr Runs Keyed

variable (F : Doubles)

/-- An alarm after a line, where an omitted field is kept and a given one stored. -/
def Alarm.withArgs (a : Alarm) (args : List PArg) : Alarm :=
  { a with
    altext := (lastArg .altext args : Option Str).getD a.altext
    alsev := (lastArg .alsev args : Option (BitVec 32)).getD a.alsev
    alchan := (lastArg .alchan args : Option (BitVec 32)).getD a.alchan }

/-- An alarm after a line, where an omitted channel or channel zero is the generic one, and severity -1 stands for none. -/
def Alarm.withDefaults (a : Alarm) (args : List PArg) : Alarm :=
  { a with
    altext := (lastArg .altext args : Option Str).getD a.altext
    alsev := match (lastArg .alsev args : Option (BitVec 32)) with
      | none => a.alsev
      | some alsev => if alsev = -1 then a.alsev else alsev
    alchan := match (lastArg .alchan args : Option (BitVec 32)) with
      | none => 1
      | some alchan => if alchan = 0 then 1 else alchan }

/-- What a reply does to the alarms of a server when one of them becomes a new one: the others stay, and each listener that it
interests is sent its line, from which its fields can be read. -/
structure StoresAlarm (s : Server) (r : Reply) (new : Alarm) : Prop where
  stored : ∀ b, b ∈ r.srv.alarms ↔ b = new ∨ (b ∈ s.alarms ∧ b.aluid ≠ new.aluid)
  told : r.out = (s.clients.filter fun c => (s.client c).hears new).map
    fun c => Out.write c (gnSetalarm new.aluid new.altext new.alsev new.alchan)
  reads : new.Plain → readCommand F (readLine (gnSetalarm new.aluid new.altext new.alsev new.alchan)) =
    some (str "setalarm", alarmArgs new.aluid new.altext new.alsev new.alchan)

/-- The update of an alarm that exists, by the arguments of a line. -/
theorem update_eq_withDefaults (a : Alarm) (args : List PArg) :
    a.update (lastArg .altext args) (sevArg args) (chanArg args) = a.withDefaults args := by
  unfold Alarm.update Alarm.withDefaults sevArg chanArg
  have hsev : (if ((lastArg .alsev args : Option (BitVec 32)).getD (-1)) = -1 then a.alsev
      else (lastArg .alsev args : Option (BitVec 32)).getD (-1)) =
      match (lastArg .alsev args : Option (BitVec 32)) with
      | none => a.alsev
      | some alsev => if alsev = -1 then a.alsev else alsev := by
    cases (lastArg .alsev args : Option (BitVec 32)) with
    | none => simp
    | some alsev => rfl
  have hchan : (if ((lastArg .alchan args : Option (BitVec 32)).getD 1) = 0 then 1
      else (lastArg .alchan args : Option (BitVec 32)).getD 1) =
      match (lastArg .alchan args : Option (BitVec 32)) with
      | none => 1
      | some alchan => if alchan = 0 then 1 else alchan := by
    cases (lastArg .alchan args : Option (BitVec 32)) with
    | none => simp
    | some alchan => rfl
  rw [hsev, hchan]

/-- A severity that is not zero, given or not, does not clear the alarm. -/
theorem sevArg_ne_zero {args : List PArg} (h : (lastArg .alsev args : Option (BitVec 32)) ≠ some 0) : sevArg args ≠ 0 := by
  unfold sevArg
  cases hl : (lastArg .alsev args : Option (BitVec 32)) with
  | none => decide
  | some alsev =>
    rw [hl] at h
    intro h0
    rw [Option.getD_some] at h0
    exact h (by rw [h0])

/-- `update_alarm` on an alarm that is there. -/
theorem updateAlarm_some {alarms : List Alarm} {a : Alarm} (hd : Distinct Alarm.aluid alarms) (ha : a ∈ alarms)
    {alsev : BitVec 32} (h0 : alsev ≠ 0) (altext : Option Str) (alchan : BitVec 32) :
    updateAlarm a.aluid altext alsev alchan alarms =
      (put Alarm.aluid a.aluid (a.update altext alsev alchan) alarms, some (a.update altext alsev alchan)) := by
  unfold updateAlarm
  rw [findAlarmByAluid_eq, hd.get_of_mem ha]
  dsimp only
  rw [if_neg h0, replaceAlarm_eq]

theorem hears_mark (s : Server) (c c' : ClientId) (env : Env) (a : Alarm) :
    ((s.mark c env).client c').hears a = (s.client c').hears a := by
  rw [Server.mark, Server.modClient_client]
  split
  · rename_i he
    rw [he]
    rfl
  · rfl

theorem storesAlarm_cmdSetalarm {s : Server} {a : Alarm} (hd : Distinct Alarm.aluid s.alarms) (ha : a ∈ s.alarms)
    {args : List PArg} (hu : lastArg .aluid args = some a.aluid)
    (h0 : (lastArg .alsev args : Option (BitVec 32)) ≠ some 0) (c : ClientId) (env : Env) :
    StoresAlarm F s (cmdSetalarm args c (s.mark c env)) (a.withDefaults args) := by
  have hr : cmdSetalarm args c (s.mark c env) =
      { srv := { s.mark c env with alarms := put Alarm.aluid a.aluid (a.withDefaults args) s.alarms }
        out := (s.clients.filter fun c' => ((s.mark c env).client c').hears (a.withDefaults args)).map fun c' => Out.write c'
          (gnSetalarm a.aluid (a.withDefaults args).altext (a.withDefaults args).alsev (a.withDefaults args).alchan) } := by
    have hup := updateAlarm_some hd ha (sevArg_ne_zero h0) (lastArg .altext args) (chanArg args)
    rw [update_eq_withDefaults] at hup
    have hup' : updateAlarm a.aluid (lastArg .altext args) ((lastArg .alsev args : Option (BitVec 32)).getD (-1))
        ((lastArg .alchan args : Option (BitVec 32)).getD 1) (s.mark c env).alarms = _ := hup
    simp only [cmdSetalarm, hu, hup']
    rfl
  rw [hr]
  refine ⟨fun b => ?_, ?_, fun hp => readCommand_gnSetalarm F hp.aluid hp.altext _ _⟩
  · exact hd.mem_put ⟨a, ha, rfl⟩
  · simp only [hears_mark]
    rfl

/-- In every run, a line for a stored alarm that does not clear it keeps its text where there is none and its severity where there
is none or -1, sets the generic channel where there is none or zero, and stores what else it gives; the other alarms stay. Each
listener that the new alarm interests, and no other client, is sent one line with exactly its fields. -/
theorem setalarm_withDefaults {cfg : Config} {s₀ s : Server} (h : startup F cfg = .ok s₀) {es : List Event}
    (hex : exec (step F) s₀ es = some s) {a : Alarm} (ha : a ∈ s.alarms) {e : Event} {args : List PArg}
    (hset : SetsAlarm F e args a.aluid) (h0 : (lastArg .alsev args : Option (BitVec 32)) ≠ some 0) {r : Reply}
    (hr : react F s e = some r) : StoresAlarm F s r (a.withDefaults args) := by
  have hd : Distinct Alarm.aluid s.alarms := by
    refine exec_induct (fun _ _ _ hI hs => distinct_step F hI hs) ?_ hex
    rw [startup_noAlarms F h]
    exact List.nodup_nil
  obtain ⟨c, text, env, rfl, hl⟩ := hset.line
  obtain ⟨-, hrun⟩ := react_line F hl hr
  cases hrun
  exact storesAlarm_cmdSetalarm F hd ha hset.uid h0 c env

/-- A run in which a client sets an alarm on the second channel. -/
def powerAlarm : List Event := [.accept 0 10 0 0 1, .line 0 (str "setalarm aluid:fire altext:Fire alsev:5 alchan:2") {}]

/-- The line that changes its severity. -/
def lowerAlarm : Event := .line 0 (str "setalarm aluid:fire alsev:3") {}

theorem exec_powerAlarm : ∃ s, exec (step Doubles.exact) {} powerAlarm = some s ∧ s.alarms = [⟨str "fire", str "Fire", 5, 2⟩] := by
  have hex : ((exec (step Doubles.exact) {} powerAlarm).map fun s => s.alarms) = some [⟨str "fire", str "Fire", 5, 2⟩] := by
    decide +kernel
  obtain ⟨s, hs, he⟩ := Option.map_eq_some_iff.mp hex
  exact ⟨s, hs, he⟩

theorem setsAlarm_lowerAlarm : SetsAlarm Doubles.exact lowerAlarm [⟨.aluid, str "fire"⟩, ⟨.alsev, (3 : BitVec 32)⟩] (str "fire") :=
  ⟨⟨0, _, _, rfl, by rfl⟩, by rfl⟩

theorem setalarm_withDefaults_lower : ∃ s, exec (step Doubles.exact) {} powerAlarm = some s ∧ ∀ r,
    react Doubles.exact s lowerAlarm = some r → StoresAlarm Doubles.exact s r ⟨str "fire", str "Fire", 3, 1⟩ := by
  obtain ⟨s, hs, he⟩ := exec_powerAlarm
  refine ⟨s, hs, fun r hr => ?_⟩
  have ha : (⟨str "fire", str "Fire", 5, 2⟩ : Alarm) ∈ s.alarms := by
    rw [he]
    exact List.mem_singleton_self _
  have hst : startup Doubles.exact {} = .ok {} := rfl
  exact setalarm_withDefaults Doubles.exact hst hs ha setsAlarm_lowerAlarm (by decide) hr

/-- A line without a channel takes the alarm off the second channel. -/
theorem not_setalarm_withArgs : ∃ s r, exec (step Doubles.exact) {} powerAlarm = some s ∧
    (⟨str "fire", str "Fire", 5, 2⟩ : Alarm) ∈ s.alarms ∧ react Doubles.exact s lowerAlarm = some r ∧
    ¬ StoresAlarm Doubles.exact s r
      (Alarm.withArgs ⟨str "fire", str "Fire", 5, 2⟩ [⟨.aluid, str "fire"⟩, ⟨.alsev, (3 : BitVec 32)⟩]) := by
  obtain ⟨s, hs, he⟩ := exec_powerAlarm
  have hex : (exec (step Doubles.exact) {} powerAlarm).bind (fun s => (react Doubles.exact s lowerAlarm).map fun r => r.srv.alarms) =
      some [⟨str "fire", str "Fire", 3, 1⟩] := by decide +kernel
  rw [hs, Option.bind_some] at hex
  obtain ⟨r, hr, hal⟩ := Option.map_eq_some_iff.mp hex
  refine ⟨s, r, hs, ?_, hr, fun h => ?_⟩
  · rw [he]
    exact List.mem_singleton_self _
  · have hm := (h.stored _).mpr (Or.inl rfl)
    rw [hal] at hm
    exact absurd hm (by decide)

end Gnhast
