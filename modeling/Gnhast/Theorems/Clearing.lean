import Gnhast.Lib.Runs
import Gnhast.Moncoll

/-!
# A restart alarm is cleared

A restart pass over a collector that is alive advances its passes. Behind 60 passes both counters start again, and with no restart
counted the alarm is cleared behind 10 passes. `due` says how many passes are to come before the one that clears; it is at most 71,
and nothing but a restart pass changes the counters.
-/

namespace Gnhast.Moncoll

open CStr Runs

/-- How many restart passes over a living collector come before the one that clears its alarm. -/
def Moncol.due (mon : Moncol) : Nat :=
  if 60 ≤ mon.passes then 11 else if mon.restarts = 0 then 10 - mon.passes else 71 - mon.passes

theorem Moncol.due_lt (mon : Moncol) : mon.due < 72 := by
  unfold due
  split
  · omega
  · split <;> omega

/-- What names the alarm of a collector is kept. -/
def SameAlarm (mon mon' : Moncol) : Prop := mon'.name = mon.name ∧ mon'.instanceNo = mon.instanceNo

theorem SameAlarm.clearing {mon mon' : Moncol} (h : SameAlarm mon mon') (collectorInstance : BitVec 32) :
    clearing collectorInstance mon' = clearing collectorInstance mon := by
  unfold Moncoll.clearing alarmUid
  rw [h.1, h.2]

/-- What names the alarm of a collector is kept, and its counters are. -/
def SameCounters (mon mon' : Moncol) : Prop := SameAlarm mon mon' ∧ mon'.passes = mon.passes ∧ mon'.restarts = mon.restarts

theorem SameCounters.refl (mon : Moncol) : SameCounters mon mon := ⟨⟨rfl, rfl⟩, rfl, rfl⟩

theorem SameCounters.due {mon mon' : Moncol} (h : SameCounters mon mon') : mon'.due = mon.due := by
  unfold Moncol.due
  rw [h.2.1, h.2.2]

/-! ## One step -/

/-- A restart pass over a living collector clears its alarm, or fewer passes are to come; and it counts no restart. -/
theorem restartCollector_alive {mon : Moncol} (ha : mon.alive ≠ 0) (inst : BitVec 32) (calls : RestartCalls) :
    SameAlarm mon (restartCollector inst calls mon).1 ∧
      (mon.restarts = 0 → (restartCollector inst calls mon).1.restarts = 0) ∧
      (((restartCollector inst calls mon).1.restarts = 0 ∧ clearing inst mon ∈ (restartCollector inst calls mon).2) ∨
        (restartCollector inst calls mon).1.due < mon.due) := by
  unfold restartCollector
  simp only [if_pos ha]
  by_cases h60 : 60 < mon.passes + 1
  · -- both counters start again
    rw [if_pos h60]
    refine ⟨⟨rfl, rfl⟩, fun _ => rfl, Or.inr ?_⟩
    have h1 : mon.due = 11 := if_pos (by omega)
    rw [h1]
    simp [Moncol.due]
  · rw [if_neg h60]
    refine ⟨⟨rfl, rfl⟩, fun h => h, ?_⟩
    by_cases hsend : 10 < mon.passes + 1 ∧ mon.restarts = 0
    · left
      rw [if_pos hsend]
      exact ⟨hsend.2, List.mem_singleton.mpr rfl⟩
    · right
      have h59 : ¬ 60 ≤ mon.passes := by omega
      unfold Moncol.due
      by_cases h0 : mon.restarts = 0
      · simp only [h0, if_neg h59, if_true]
        split <;> omega
      · simp only [h0, if_neg h59, if_false]
        split <;> omega

/-- What an update and a pid check leave of every collector. -/
theorem collUpdCb_same {uid : Str} {data : BitVec 8} {mons mons' : List Moncol} (h : collUpdCb uid data mons = some mons') {i : Nat}
    {mon : Moncol} (hi : mons[i]? = some mon) : ∃ mon', mons'[i]? = some mon' ∧ SameCounters mon mon' := by
  induction mons generalizing mons' i with
  | nil => simp at hi
  | cons m rest ih =>
    unfold collUpdCb at h
    split at h
    · cases h
    · split at h
      · cases h
        cases i with
        | zero =>
          cases hi
          exact ⟨_, rfl, ⟨rfl, rfl⟩, rfl, rfl⟩
        | succ i => exact ⟨mon, hi, .refl mon⟩
      · obtain ⟨rest', hr, rfl⟩ := Option.map_eq_some_iff.mp h
        cases i with
        | zero => exact ⟨m, rfl, (Option.some.inj hi) ▸ .refl m⟩
        | succ i => exact ih hr hi

theorem checkPid_same {calls : CheckCalls} {mon : Moncol} {r : Moncol × List Act} (h : checkPid calls mon = some r) :
    SameCounters mon r.1 := by
  unfold checkPid at h
  split at h
  · simp only at h
    split at h
    · cases h
      dsimp only
      split <;> exact ⟨⟨rfl, rfl⟩, rfl, rfl⟩
    · cases h
  · split at h
    · cases h
      exact .refl mon
    · cases h
      dsimp only
      split <;> exact ⟨⟨rfl, rfl⟩, rfl, rfl⟩

theorem checkPids_same {calls : Nat → CheckCalls} {mons : List Moncol} {k : Nat} {rs : List (Moncol × List Act)}
    (h : checkPids calls k mons = some rs) {i : Nat} {mon : Moncol} (hi : mons[i]? = some mon) :
    ∃ mon', (rs.map Prod.fst)[i]? = some mon' ∧ SameCounters mon mon' := by
  induction mons generalizing k rs i with
  | nil => simp at hi
  | cons m rest ih =>
    obtain ⟨r, hr, h⟩ := Option.bind_eq_some_iff.mp h
    obtain ⟨rest', hrest, h⟩ := Option.bind_eq_some_iff.mp h
    cases h
    cases i with
    | zero => exact ⟨r.1, rfl, (Option.some.inj hi) ▸ checkPid_same hr⟩
    | succ i => exact ih hrest hi

/-- What happens apart from restart passes keeps the counters of every collector, and takes nothing back. -/
theorem step_same {s s' : Monitor} {e : MonEvent} (he : e.isRestart = false) (h : step s e = some s') {i : Nat} {mon : Moncol}
    (hi : s.collectors[i]? = some mon) :
    (∃ mon', s'.collectors[i]? = some mon' ∧ SameCounters mon mon') ∧ s.acts <+: s'.acts ∧
      s'.collectorInstance = s.collectorInstance := by
  cases e with
  | restart calls => cases he
  | upd uid data =>
    obtain ⟨mons, hm, rfl⟩ := Option.map_eq_some_iff.mp h
    exact ⟨collUpdCb_same hm hi, List.prefix_refl _, rfl⟩
  | checkpids calls =>
    obtain ⟨rs, hr, h⟩ := Option.bind_eq_some_iff.mp h
    cases h
    refine ⟨checkPids_same hr hi, ?_, rfl⟩
    dsimp only
    split
    · exact List.prefix_append _ _
    · rw [List.append_assoc]
      exact List.prefix_append _ _

/-- What a restart pass does for the collector at a place. -/
theorem step_restart {s s' : Monitor} {calls : Nat → RestartCalls} (h : step s (.restart calls) = some s') {i : Nat} {mon : Moncol}
    (hi : s.collectors[i]? = some mon) :
    s'.collectors[i]? = some (restartCollector s.collectorInstance (calls i) mon).1 ∧
      s'.collectorInstance = s.collectorInstance ∧
      ∃ acts, s'.acts = s.acts ++ acts ∧ (restartCollector s.collectorInstance (calls i) mon).2 ⊆ acts := by
  have hs : (if s.restartEventRunning then some (cbRestartCollectors calls s) else none) = some s' := h
  split at hs
  · cases hs
    have hp : (s.collectors.mapIdx fun i mon => restartCollector s.collectorInstance (calls i) mon)[i]? =
        some (restartCollector s.collectorInstance (calls i) mon) := by
      rw [List.getElem?_mapIdx, hi]
      rfl
    refine ⟨?_, rfl, _, rfl, ?_⟩
    · change (List.map Prod.fst _)[i]? = _
      rw [List.getElem?_map, hp]
      rfl
    · intro act hact
      exact List.mem_flatMap.mpr ⟨_, List.mem_of_getElem? hp, hact⟩
  · cases hs

/-! ## Runs -/

/-- The collector at a place is alive when a restart pass comes. -/
def AliveAt (i : Nat) (s : Monitor) (e : MonEvent) : Prop :=
  e.isRestart = true → ∀ mon ∈ s.collectors[i]?, mon.alive ≠ 0

instance (i : Nat) (s : Monitor) (e : MonEvent) : Decidable (AliveAt i s e) :=
  inferInstanceAs (Decidable (e.isRestart = true → ∀ mon ∈ s.collectors[i]?, mon.alive ≠ 0))

/-- The alarm of the collector at a place is cleared since a state, and it has no restarts. -/
def Cleared (s₀ : Monitor) (i : Nat) (mon : Moncol) (s : Monitor) : Prop :=
  s.collectorInstance = s₀.collectorInstance ∧
    (∃ acts, s.acts = s₀.acts ++ acts ∧ clearing s₀.collectorInstance mon ∈ acts) ∧
    ∃ mon', s.collectors[i]? = some mon' ∧ mon'.restarts = 0

/-- The collector at a place is the same since a state, and nothing is taken back. -/
def Since (s₀ : Monitor) (i : Nat) (mon : Moncol) (s : Monitor) : Prop :=
  s.collectorInstance = s₀.collectorInstance ∧ s₀.acts <+: s.acts ∧ ∃ mon', s.collectors[i]? = some mon' ∧ SameAlarm mon mon'

/-- How many restart passes are to come for the collector at a place. -/
def dueAt (i : Nat) (s : Monitor) : Nat := (s.collectors[i]?.map Moncol.due).getD 0

theorem dueAt_eq {i : Nat} {s : Monitor} {mon : Moncol} (hi : s.collectors[i]? = some mon) : dueAt i s = mon.due := by
  rw [dueAt, hi]
  rfl

section
variable {s₀ : Monitor} {i : Nat} {mon : Moncol}

/-- What is cleared stays so while the collector is alive at every restart pass. -/
theorem cleared_step {s s' : Monitor} {e : MonEvent} (hc : Cleared s₀ i mon s) (ha : AliveAt i s e) (h : step s e = some s') :
    Cleared s₀ i mon s' := by
  obtain ⟨hinst, ⟨acts, hacts, hmem⟩, mon₁, hi, h0⟩ := hc
  rcases he : e.isRestart with _ | _
  · obtain ⟨⟨mon₂, hi₂, hsame⟩, ⟨new, hnew⟩, hinst'⟩ := step_same he h hi
    refine ⟨hinst'.trans hinst, ⟨acts ++ new, ?_, List.mem_append_left _ hmem⟩, mon₂, hi₂, hsame.2.2.trans h0⟩
    rw [← hnew, hacts, List.append_assoc]
  · cases e with
    | upd uid data => cases he
    | checkpids calls => cases he
    | restart calls =>
      obtain ⟨hi₂, hinst', new, hnew, _⟩ := step_restart h hi
      have halive := restartCollector_alive (ha rfl mon₁ hi) s.collectorInstance (calls i)
      refine ⟨hinst'.trans hinst, ⟨acts ++ new, ?_, List.mem_append_left _ hmem⟩, _, hi₂, halive.2.1 h0⟩
      rw [hnew, hacts, List.append_assoc]

/-- A restart pass clears the alarm of a collector that is alive, or fewer passes are to come. -/
theorem since_restart {s s' : Monitor} {e : MonEvent} (hs : Since s₀ i mon s) (ha : AliveAt i s e) (he : e.isRestart = true)
    (h : step s e = some s') : Cleared s₀ i mon s' ∨ (Since s₀ i mon s' ∧ dueAt i s' < dueAt i s) := by
  obtain ⟨hinst, ⟨acts, hacts⟩, mon₁, hi, hsame⟩ := hs
  cases e with
  | upd uid data => cases he
  | checkpids calls => cases he
  | restart calls =>
    obtain ⟨hi₂, hinst', new, hnew, hsub⟩ := step_restart h hi
    obtain ⟨hkept, _, hgoal⟩ := restartCollector_alive (ha rfl mon₁ hi) s.collectorInstance (calls i)
    rcases hgoal with ⟨h0, hmem⟩ | hdue
    · left
      have hclear : clearing s.collectorInstance mon₁ = clearing s₀.collectorInstance mon := by rw [hsame.clearing, hinst]
      refine ⟨hinst'.trans hinst, ⟨acts ++ new, ?_, List.mem_append_right _ (hclear ▸ hsub hmem)⟩, _, hi₂, h0⟩
      rw [hnew, ← hacts, List.append_assoc]
    · right
      refine ⟨⟨hinst'.trans hinst, ?_, _, hi₂, hkept.1.trans hsame.1, hkept.2.trans hsame.2⟩, ?_⟩
      · rw [hnew, ← hacts, List.append_assoc]
        exact List.prefix_append _ _
      · rw [dueAt_eq hi₂, dueAt_eq hi]
        exact hdue

/-- What happens in between leaves the number of passes to come. -/
theorem since_other {s s' : Monitor} {e : MonEvent} (hs : Since s₀ i mon s) (he : e.isRestart = false) (h : step s e = some s') :
    Since s₀ i mon s' ∧ dueAt i s' ≤ dueAt i s := by
  obtain ⟨hinst, hacts, mon₁, hi, hsame⟩ := hs
  obtain ⟨⟨mon₂, hi₂, hkept⟩, hnew, hinst'⟩ := step_same he h hi
  refine ⟨⟨hinst'.trans hinst, hacts.trans hnew, mon₂, hi₂, hkept.1.1.trans hsame.1, hkept.1.2.trans hsame.2⟩, ?_⟩
  rw [dueAt_eq hi₂, dueAt_eq hi, hkept.due]

end

/-- When a collector is alive at 72 restart passes in a row, its alarm is cleared during them and it has no restarts at the end, from
any state and whatever happens in between. -/
theorem restart_alarm_cleared {s s' : Monitor} {events : List MonEvent} {i : Nat} {mon : Moncol}
    (hi : s.collectors[i]? = some mon) (halive : Along step (AliveAt i) s events) (hrun : exec step s events = some s')
    (hpasses : events.countP MonEvent.isRestart = 72) :
    (∃ acts, s'.acts = s.acts ++ acts ∧ clearing s.collectorInstance mon ∈ acts) ∧
      ∃ mon', s'.collectors[i]? = some mon' ∧ mon'.restarts = 0 := by
  have hstart : Since s i mon s := ⟨rfl, List.prefix_refl _, mon, hi, rfl, rfl⟩
  have hdue : dueAt i s < events.countP MonEvent.isRestart := by
    rw [hpasses, dueAt_eq hi]
    exact mon.due_lt
  have hend : Cleared s i mon s' :=
    @along_reaches _ _ step (Since s i mon) (Cleared s i mon) (AliveAt i) MonEvent.isRestart (dueAt i)
      (fun _ _ _ hc ha h => cleared_step hc ha h) (fun _ _ _ hs ha he h => since_restart hs ha he h)
      (fun _ _ _ hs _ he h => Or.inr (since_other hs he h)) s s' events hstart halive hrun hdue
  exact hend.2

/-- A collector that could not be started five times, and that the server then says is alive. -/
def restarted : Monitor :=
  (exec step (setupMonitors 1 [{ name := some (str "heat"), uid := some (str "heat-1"), path := some (str "/usr/bin/heat") }])
    ([.checkpids fun _ => {}, .upd (str "heat-1") 0] ++ List.replicate 5 (.restart fun _ => { system := 256 }) ++
      [.upd (str "heat-1") 1])).getD {}

theorem restart_alarm_cleared_restarted :
    ∃ mon s', restarted.collectors[0]? = some mon ∧ mon.restarts = 5 ∧
      exec step restarted (List.replicate 72 (.restart fun _ => {})) = some s' ∧
      (∃ acts, s'.acts = restarted.acts ++ acts ∧ clearing restarted.collectorInstance mon ∈ acts) ∧
      ∃ mon', s'.collectors[0]? = some mon' ∧ mon'.restarts = 0 := by
  have hfive : restarted.collectors[0]?.map Moncol.restarts = some 5 := by decide +kernel
  obtain ⟨mon, hi, h5⟩ := Option.map_eq_some_iff.mp hfive
  have hrun : (exec step restarted (List.replicate 72 (.restart fun _ => {}))).isSome = true := by decide +kernel
  obtain ⟨s', hs'⟩ := Option.isSome_iff_exists.mp hrun
  have halive : Along step (AliveAt 0) restarted (List.replicate 72 (.restart fun _ => {})) := by decide +kernel
  exact ⟨mon, s', hi, h5, hs', restart_alarm_cleared hi halive hs' (by decide)⟩

end Gnhast.Moncoll
