import Gnhast.Astrocoll
import Gnhast.Lemmas.Memory

/-!
# The phase of the day

`Day.phase` is the phase of a time: around noon the solar noon, else what the last event began. The timers of the events to come and of
the noon realise it from the phase of now on (`valueAt_future`), so what is at stake is the phase that is set at once, the timer for the
end of a noon that has begun, and timers for the same time. `Day.Fits` is when all of these are right.
-/

namespace Gnhast.Astrocoll

open CStr Timers

/-- The eight events of a day in the order of time, and a noon that is half an hour from sunrise and from sunset. -/
structure Day where
  times : SsTimes → ℤ
  increasing : ∀ i j : SsTimes, i < j → j < ssSolarNoon → times i < times j
  afterSunrise : times 3 + 1800 ≤ times ssSolarNoon
  beforeSunset : times ssSolarNoon + 1800 ≤ times 4

namespace Day

variable (d : Day)

def noon : ℤ := d.times ssSolarNoon

/-- The events up to sunrise, with the phases they begin. -/
def dawn : List (Timer Dayl) := [
  ⟨d.times 0, .dawnAstroTwilight⟩,
  ⟨d.times 1, .dawnNauticalTwilight⟩,
  ⟨d.times 2, .dawnCivilTwilight⟩,
  ⟨d.times 3, .day⟩]

/-- The events from sunset on. -/
def dusk : List (Timer Dayl) := [
  ⟨d.times 4, .duskCivilTwilight⟩,
  ⟨d.times 5, .duskNauticalTwilight⟩,
  ⟨d.times 6, .duskAstroTwilight⟩,
  ⟨d.times 7, .night⟩]

/-- The beginning and the end of the solar noon. -/
def noonChanges : List (Timer Dayl) := [⟨d.noon - 1800, .solarNoon⟩, ⟨d.noon + 1800, .day⟩]

/-- The phase of a time: within half an hour of noon the solar noon, else what the last event not later began, and night before the first. -/
def phase (t : ℤ) : Dayl := if d.noon - 1800 ≤ t ∧ t < d.noon + 1800 then .solarNoon else valueAt .night (d.dawn ++ d.dusk) t

/-- When an answer at a time is handled as it should be: no event but the last is at that time, after the last but one the device has the
phase already, a noon to come does not touch an event to come, and a noon that has begun has begun before and ends with sunset. -/
def Fits (now : ℤ) (before : Dayl) : Prop :=
  (∀ j < ssAstroEnd, now ≠ d.times j) ∧ (d.times 6 < now → before = d.phase now) ∧
    (now < d.noon - 1800 → d.noon + 1800 ≠ d.times 4 ∧ (now < d.times 3 → d.noon - 1800 ≠ d.times 3)) ∧
    (d.noon - 1800 ≤ now → now < d.noon + 1800 → now ≠ d.noon - 1800 ∧ d.noon + 1800 = d.times 4)

/-! ## The phase as a schedule -/

/-- What is before what. -/
theorem order : d.times 0 < d.times 1 ∧ d.times 1 < d.times 2 ∧ d.times 2 < d.times 3 ∧ d.times 3 + 1800 ≤ d.noon ∧
    d.noon + 1800 ≤ d.times 4 ∧ d.times 4 < d.times 5 ∧ d.times 5 < d.times 6 ∧ d.times 6 < d.times 7 :=
  ⟨d.increasing 0 1 (by decide) (by decide), d.increasing 1 2 (by decide) (by decide), d.increasing 2 3 (by decide) (by decide),
    d.afterSunrise, d.beforeSunset, d.increasing 4 5 (by decide) (by decide), d.increasing 5 6 (by decide) (by decide),
    d.increasing 6 7 (by decide) (by decide)⟩

/-- All changes of the phase. -/
def schedule : List (Timer Dayl) := d.dawn ++ d.noonChanges ++ d.dusk

theorem lt_dusk {t : ℤ} (h : t < d.times 4) : ∀ e ∈ d.dusk, t < e.time := by
  have := d.order
  simp only [dusk, List.forall_mem_cons]
  exact ⟨h, by omega, by omega, by omega, List.forall_mem_nil _⟩

/-- From sunset on it does not matter what was before. -/
theorem valueAt_dusk {t : ℤ} (h : d.times 4 ≤ t) (v w : Dayl) : valueAt v d.dusk t = valueAt w d.dusk t := by
  simp only [dusk, valueAt_cons, if_pos h]

/-- At sunrise the day has begun. -/
theorem valueAt_dawn {t : ℤ} (h : d.times 3 ≤ t) (v : Dayl) : valueAt v d.dawn t = .day := by
  simp only [dawn, valueAt_cons, if_pos h]
  rfl

/-- The phase is what the schedule prescribes. -/
theorem phase_eq (t : ℤ) : d.phase t = valueAt .night d.schedule t := by
  have hord := d.order
  rw [phase, schedule, valueAt_append, valueAt_append, valueAt_append]
  split
  · rename_i hnoon
    simp only [d.valueAt_dawn (show d.times 3 ≤ t by omega), noonChanges, valueAt_cons, if_pos hnoon.1, if_neg (Int.not_le.mpr hnoon.2)]
    exact (valueAt_before (d.lt_dusk (by omega)) _).symm
  · rename_i hnoon
    by_cases hlow : t < d.noon - 1800
    · have hend : ¬d.noon + 1800 ≤ t := by omega
      simp only [noonChanges, valueAt_cons, if_neg (Int.not_le.mpr hlow), if_neg hend]
      rfl
    · have hend : d.noon + 1800 ≤ t := by omega
      simp only [d.valueAt_dawn (show d.times 3 ≤ t by omega), noonChanges, valueAt_cons, if_pos hend]
      rfl

end Day

variable (conf : AstroConf)

/-- An answer tells the times of a day. -/
structure Answers (req : AstroReq) (d : Day) : Prop where
  ok : req.responseCode = 200
  body : req.body ≠ []
  told : ∃ token, conf.jsmnParse req.body = some token ∧ ∀ j : SsTimes, ∃ i : Nat,
    jtokFindTokenVal token req.body (apiwords j) token.length = .ok (i : Int) ∧ ∃ t ∈ token[i]?, ∃ text ∈ jtokString t req.body,
      conf.eventTime text = d.times j

/-- From a time on the sunrise device has the phase of the day, and no other value. -/
def KeepsPhase (d : Day) (now : ℤ) (r : Except Fault Astro) : Prop :=
  ∃ s, r = .ok s ∧ ∀ t, now ≤ t → ∀ v, Elapses t s.pending s.sunrise v ↔ v = d.phase t

/-! ## What an answer arms -/

/-- The times of some fields were converted. -/
structure Converted (d : Day) (now : ℤ) (js : List SsTimes) (s s' : Astro) : Prop where
  offsets : ∀ j, s'.sunriseOffsets j = if j ∈ js then d.times j - now else s.sunriseOffsets j
  sunEv : ∀ j, s'.sunEv j = if j ∈ js ∧ j ≠ ssSolarNoon ∧ now < d.times j then some ⟨d.times j, apidayl j⟩ else s.sunEv j
  noonStart : s'.solarNoonStartEv =
    if ssSolarNoon ∈ js ∧ now < d.noon - 1800 then some ⟨d.noon - 1800, .solarNoon⟩ else s.solarNoonStartEv
  noonEnd : s'.solarNoonEndEv = if ssSolarNoon ∈ js ∧ now < d.noon - 1800 then some ⟨d.noon + 1800, .day⟩ else s.solarNoonEndEv
  sunrise : s'.sunrise = s.sunrise

theorem Converted.refl (d : Day) (now : ℤ) (s : Astro) : Converted d now [] s s := by
  constructor <;> simp

/-- What is set by the second or by the first is set by either. -/
theorem ite_ite_or {α : Type} {p q c : Prop} [Decidable p] [Decidable q] [Decidable c] (x y : α) :
    (if q ∧ c then x else if p ∧ c then x else y) = if (p ∨ q) ∧ c then x else y := by
  by_cases hp : p <;> by_cases hq : q <;> by_cases hc : c <;> simp [hp, hq, hc]

theorem Converted.trans {d : Day} {now : ℤ} {js ks : List SsTimes} {s s' s'' : Astro} (h : Converted d now js s s')
    (h' : Converted d now ks s' s'') : Converted d now (js ++ ks) s s'' := by
  constructor
  · intro j
    rw [h'.offsets, h.offsets]
    by_cases hj : j ∈ js <;> by_cases hk : j ∈ ks <;> simp [hj, hk]
  · intro j
    simp only [h'.sunEv, h.sunEv, List.mem_append]
    exact ite_ite_or _ _
  · simp only [h'.noonStart, h.noonStart, List.mem_append]
    exact ite_ite_or _ _
  · simp only [h'.noonEnd, h.noonEnd, List.mem_append]
    exact ite_ite_or _ _
  · exact h'.sunrise.trans h.sunrise

theorem converted_one (d : Day) (now : ℤ) (j : SsTimes) (s : Astro) :
    Converted d now [j] s (convertSunriseData now (d.times j - now) (apidayl j) j s) := by
  have hback : now + (d.times j - now) = d.times j := by omega
  by_cases hnoon : j = ssSolarNoon
  · subst hnoon
    have hstart : now + (d.times ssSolarNoon - now - 1800) = d.noon - 1800 := by
      rw [Day.noon]
      omega
    have hend : now + (d.times ssSolarNoon - now + 1800) = d.noon + 1800 := by
      rw [Day.noon]
      omega
    have hiff : 0 < d.times ssSolarNoon - now - 1800 ↔ now < d.noon - 1800 := by
      rw [Day.noon]
      omega
    unfold convertSunriseData
    simp only [hstart, hend, hiff, true_and, ne_eq, not_true_eq_false, and_false, if_false]
    constructor
    · intro k
      by_cases hk : k = ssSolarNoon
      · subst hk
        split <;> simp
      · split <;> simp [hk]
    · intro k
      have hk : ¬(k ∈ [ssSolarNoon] ∧ k ≠ ssSolarNoon ∧ now < d.times k) := fun h => h.2.1 (List.mem_singleton.mp h.1)
      rw [if_neg hk]
      split <;> rfl
    · simp only [List.mem_singleton, true_and]
      split <;> rfl
    · simp only [List.mem_singleton, true_and]
      split <;> rfl
    · split <;> rfl
  · have hiff : 0 < d.times j - now ↔ now < d.times j := by omega
    have hne : ssSolarNoon ∉ [j] := fun h => hnoon (List.mem_singleton.mp h).symm
    unfold convertSunriseData
    simp only [hback, hiff, hnoon, false_and, if_false, ne_eq, not_false_eq_true, and_true]
    constructor
    · intro k
      by_cases hk : k = j
      · subst hk
        split <;> simp
      · split <;> simp [hk]
    · intro k
      by_cases hk : k = j
      · subst hk
        split <;> simp_all
      · split <;> simp [hk]
    · simp only [hne, false_and, if_false]
      split <;> rfl
    · simp only [hne, false_and, if_false]
      split <;> rfl
    · split <;> rfl

/-- The loop converts the times that the answer tells. -/
theorem readTimes_converted {d : Day} {token : List Jsmntok} {buf : Str} (now : ℤ)
    (h : ∀ j : SsTimes, ∃ i : Nat, jtokFindTokenVal token buf (apiwords j) token.length = .ok (i : Int) ∧ ∃ t ∈ token[i]?,
      ∃ text ∈ jtokString t buf, conf.eventTime text = d.times j) (js : List SsTimes) (s : Astro) :
    ∃ s', readTimes conf now token buf js s = .ok (true, s') ∧ Converted d now js s s' := by
  induction js generalizing s with
  | nil => exact ⟨s, rfl, Converted.refl d now s⟩
  | cons j js ih =>
    obtain ⟨i, hi, t, ht, text, htext, htime⟩ := h j
    obtain ⟨s', hs', hconv⟩ := ih (convertSunriseData now (d.times j - now) (apidayl j) j s)
    have hne : (i : Int) ≠ -1 := by omega
    have htok : tokAt token i = .ok t := by rw [tokAt, Option.mem_def.mp ht]
    refine ⟨s', ?_, (converted_one d now j s).trans hconv⟩
    rw [readTimes]
    simp only [hi, bind, Except.bind, if_neg hne, Int.toNat_natCast, htok, Option.mem_def.mp htext, htime]
    exact hs'

/-! ## The events by their numbers -/

namespace Day

variable (d : Day)

theorem mono {i j : SsTimes} (hij : i ≤ j) (hj : j < ssSolarNoon) : d.times i ≤ d.times j := by
  rcases lt_or_eq_of_le hij with h | rfl
  · exact Int.le_of_lt (d.increasing i j h hj)
  · exact Int.le_refl _

theorem events_eq : d.dawn ++ d.dusk = ((List.finRange 9).take 8).map fun j => (⟨d.times j, apidayl j⟩ : Timer Dayl) := rfl

theorem mem_events {tm : Timer Dayl} : tm ∈ d.dawn ++ d.dusk ↔ ∃ j, j ≠ ssSolarNoon ∧ tm = ⟨d.times j, apidayl j⟩ := by
  have htake : ∀ j : SsTimes, j ∈ (List.finRange 9).take 8 ↔ j ≠ ssSolarNoon := by decide
  rw [events_eq, List.mem_map]
  refine exists_congr fun j => ?_
  rw [htake, eq_comm]

theorem sorted_events : (d.dawn ++ d.dusk).Pairwise fun a b => a.time < b.time := by
  have := d.order
  simp only [dawn, dusk, List.cons_append, List.nil_append, List.pairwise_cons, List.forall_mem_cons, List.not_mem_nil, List.Pairwise.nil,
    false_implies, implies_true, and_true]
  omega

/-- Between two events the phase is that of the first. -/
theorem valueAt_between {j : SsTimes} (hj : j < ssSolarNoon) {t : ℤ} (h : d.times j ≤ t) (hnext : ∀ k, j < k → k < ssSolarNoon → t < d.times k) :
    valueAt .night (d.dawn ++ d.dusk) t = apidayl j := by
  refine valueAt_mem d.sorted_events (d.mem_events.mpr ⟨j, ne_of_lt hj, rfl⟩) h (fun x hx hlt => ?_) .night
  obtain ⟨k, hk, rfl⟩ := d.mem_events.mp hx
  refine hnext k ?_ (lt_of_le_of_ne (Fin.le_last k) hk)
  by_contra hle
  have := d.mono (Fin.not_lt.mp hle) hj
  dsimp only at hlt
  omega

/-- The phase that `pickPhase` sets. -/
def picked (now : ℤ) (before : Dayl) : Dayl :=
  if d.noon - 1800 < now ∧ now < d.noon + 1800 then .solarNoon
  else if now ≤ d.times 6 then valueAt .night (d.dawn ++ d.dusk) (now - 1) else before

/-- What was before the event at a time, or at the event that comes next. -/
theorem valueAt_pred {j : SsTimes} (hj : j < ssAstroEnd) {now : ℤ} (h : now ≤ d.times j) (hlow : ∀ i, i < j → d.times i < now) :
    valueAt .night (d.dawn ++ d.dusk) (now - 1) = apidayl (if 0 < j then j - 1 else ssAstroEnd) := by
  have hj8 : j < ssSolarNoon := lt_trans hj (by decide)
  split
  · rename_i hpos
    have hpred : ∀ j : SsTimes, 0 < j → j - 1 < j ∧ ∀ k, j - 1 < k → j ≤ k := by decide
    obtain ⟨h1, h2⟩ := hpred j hpos
    refine d.valueAt_between (lt_trans h1 hj8) ?_ fun k hk hk8 => ?_
    · have := hlow _ h1
      omega
    · have := d.mono (h2 k hk) hk8
      omega
  · rename_i hzero
    refine valueAt_before (fun e he => ?_) _
    obtain ⟨k, hk, rfl⟩ := d.mem_events.mp he
    have := d.mono (Fin.not_lt.mp hzero |>.trans (Fin.zero_le k)) (lt_of_le_of_ne (Fin.le_last k) hk)
    dsimp only
    omega

end Day

theorem sunrise_pickPhase {d : Day} {now : ℤ} {s : Astro} (h : ∀ j, s.sunriseOffsets j = d.times j - now) :
    (pickPhase s).sunrise = d.picked now s.sunrise := by
  have hord := d.order
  have hwindow : (-1800 < s.sunriseOffsets ssSolarNoon ∧ s.sunriseOffsets ssSolarNoon < 1800) ↔ d.noon - 1800 < now ∧ now < d.noon + 1800 := by
    rw [h, Day.noon]
    omega
  unfold pickPhase Day.picked
  simp only [hwindow]
  split
  · rfl
  · cases hf : (List.finRange 9).find? fun j => decide (j < ssAstroEnd ∧ 0 ≤ s.sunriseOffsets j) with
    | none =>
      have hlate : ¬now ≤ d.times 6 := by
        have h6 := List.find?_eq_none.mp hf 6 (List.mem_finRange 6)
        rw [decide_eq_true_eq, h] at h6
        intro hle
        exact h6 ⟨by decide, by omega⟩
      rw [if_neg hlate]
    | some j =>
      obtain ⟨hp, i, hi, hget, hfirst⟩ := List.find?_eq_some_iff_getElem.mp hf
      rw [List.getElem_finRange] at hget
      rw [decide_eq_true_eq, h] at hp
      obtain ⟨hj, hle⟩ := hp
      have hj6 : j ≤ 6 := Fin.le_def.mpr (Nat.lt_succ_iff.mp hj)
      have hearly := d.mono hj6 (by decide)
      rw [if_pos (by omega)]
      refine (d.valueAt_pred hj (by omega) fun k hk => ?_).symm
      have hk' := hfirst k.val (by rw [← hget] at hk; exact hk)
      rw [List.getElem_finRange] at hk'
      simp only [h] at hk'
      have hk7 : k < ssAstroEnd := lt_trans hk hj
      simpa [hk7] using hk'

/-! ## The phase that is set at once -/

namespace Day

variable (d : Day)

/-- Outside the noon the phase is that of the events. -/
theorem phase_of_not_noon {t : ℤ} (h : ¬(d.noon - 1800 ≤ t ∧ t < d.noon + 1800)) : d.phase t = valueAt .night (d.dawn ++ d.dusk) t :=
  if_neg h

/-- No event begins the solar noon. -/
theorem valueAt_ne_noon (t : ℤ) : valueAt .night (d.dawn ++ d.dusk) t ≠ .solarNoon := by
  rcases valueAt_cases .night (d.dawn ++ d.dusk) t with h | ⟨e, he, h⟩
  · rw [h]
    nofun
  · obtain ⟨j, hj, rfl⟩ := d.mem_events.mp he
    have hall : ∀ j : SsTimes, j ≠ ssSolarNoon → apidayl j ≠ .solarNoon := by decide
    rw [h]
    exact hall j hj

/-- No event begins what the event before it began. -/
theorem apidayl_pred_ne : ∀ j < ssAstroEnd, apidayl (if 0 < j then j - 1 else ssAstroEnd) ≠ apidayl j := by
  decide

/-- At an event the phase before it is set. -/
theorem picked_ne_of_event {j : SsTimes} (hj : j < ssAstroEnd) (before : Dayl) :
    d.picked (d.times j) before ≠ d.phase (d.times j) := by
  have hord := d.order
  have hj8 : j < ssSolarNoon := lt_trans hj (by decide)
  have hj6 : j ≤ 6 := Fin.le_def.mpr (Nat.lt_succ_iff.mp hj)
  have hpos : d.times j ≤ d.times 3 ∨ d.times 4 ≤ d.times j := by
    rcases Nat.lt_or_ge j.val 4 with h | h
    · exact .inl (d.mono (Fin.le_def.mpr (Nat.lt_succ_iff.mp h)) (by decide))
    · exact .inr (d.mono (Fin.le_def.mpr h) hj8)
  have hpick : d.picked (d.times j) before = valueAt .night (d.dawn ++ d.dusk) (d.times j - 1) := by
    rw [picked, if_neg (by omega), if_pos (d.mono hj6 (by decide))]
  rw [hpick, phase]
  by_cases hnoon : d.noon - 1800 ≤ d.times j ∧ d.times j < d.noon + 1800
  · rw [if_pos hnoon]
    exact d.valueAt_ne_noon _
  · rw [if_neg hnoon, d.valueAt_between hj8 (Int.le_refl _) fun k hk hk8 => d.increasing j k hk hk8,
      d.valueAt_pred hj (Int.le_refl _) fun i hi => d.increasing i j hi hj8]
    exact apidayl_pred_ne j hj

/-- When the phase that is set at once is that of the time. -/
theorem picked_eq_iff (now : ℤ) (before : Dayl) :
    d.picked now before = d.phase now ↔
      (∀ j < ssAstroEnd, now ≠ d.times j) ∧ (d.times 6 < now → before = d.phase now) ∧ now ≠ d.noon - 1800 := by
  have hord := d.order
  constructor
  · intro h
    refine ⟨?_, ?_, ?_⟩
    · rintro j hj rfl
      exact d.picked_ne_of_event hj before h
    · intro hlate
      rw [← h, picked, if_neg (by omega), if_neg (by omega)]
    · intro hnow
      rw [picked, if_neg (by omega), if_pos (by omega), phase, if_pos (by omega)] at h
      exact d.valueAt_ne_noon _ h
  · rintro ⟨hevents, hlate, hnoon⟩
    unfold picked
    split
    · rename_i hw
      exact (if_pos ⟨Int.le_of_lt hw.1, hw.2⟩).symm
    · rename_i hw
      split
      · rename_i hle
        rw [d.phase_of_not_noon (by omega)]
        refine valueAt_congr (fun e he => ?_) _
        obtain ⟨k, hk, rfl⟩ := d.mem_events.mp he
        dsimp only
        rcases Nat.lt_or_ge k.val 7 with hk7 | hk7
        · have := hevents k hk7
          omega
        · have hk8 : k < ssSolarNoon := lt_of_le_of_ne (Fin.le_last k) hk
          have := d.mono (show (7 : SsTimes) ≤ k from Fin.le_def.mpr hk7) hk8
          omega
      · exact hlate (by omega)

end Day

/-! ## From the answer on -/

theorem mem_pending {s : Astro} {tm : Timer Dayl} :
    tm ∈ s.pending ↔ (∃ j, s.sunEv j = some tm) ∨ s.solarNoonStartEv = some tm ∨ s.solarNoonEndEv = some tm := by
  simp [Astro.pending]

namespace Day

variable (d : Day)

/-- The changes that timers are armed for. -/
def armed (now : ℤ) : List (Timer Dayl) := (if now < d.noon - 1800 then d.schedule else d.dawn ++ d.dusk).filter fun e => now < e.time

theorem mem_armed {now : ℤ} {tm : Timer Dayl} :
    tm ∈ d.armed now ↔ (tm ∈ d.dawn ++ d.dusk ∧ now < tm.time) ∨ (now < d.noon - 1800 ∧ tm ∈ d.noonChanges) := by
  have hnoon : now < d.noon - 1800 → ∀ e ∈ d.noonChanges, now < e.time := by
    intro h
    simp only [noonChanges, List.forall_mem_cons]
    exact ⟨h, by omega, List.forall_mem_nil _⟩
  rw [armed, List.mem_filter, decide_eq_true_eq]
  split
  · rename_i h
    rw [schedule, List.append_assoc, List.mem_append, List.mem_append, List.mem_append, and_iff_right h]
    constructor
    · rintro ⟨hd | hn | hd, hlt⟩
      · exact .inl ⟨.inl hd, hlt⟩
      · exact .inr hn
      · exact .inl ⟨.inr hd, hlt⟩
    · rintro (⟨hd | hd, hlt⟩ | hn)
      · exact ⟨.inl hd, hlt⟩
      · exact ⟨.inr (.inr hd), hlt⟩
      · exact ⟨.inr (.inl hn), hnoon h tm hn⟩
  · rename_i h
    rw [or_iff_left fun hn => h hn.1]

/-- What is armed from nothing. -/
theorem mem_pending_converted {now : ℤ} {s s' : Astro} (hclear : s.pending = []) (h : Converted d now (List.finRange 9) s s') (tm : Timer Dayl) :
    tm ∈ s'.pending ↔ tm ∈ d.armed now := by
  have hnone : ∀ tm, ¬((∃ j, s.sunEv j = some tm) ∨ s.solarNoonStartEv = some tm ∨ s.solarNoonEndEv = some tm) := by
    intro tm htm
    have := mem_pending.mpr htm
    rw [hclear] at this
    cases this
  have hsun : ∀ j, s.sunEv j ≠ some tm := fun j hj => hnone tm (.inl ⟨j, hj⟩)
  have hstart : s.solarNoonStartEv ≠ some tm := fun hs => hnone tm (.inr (.inl hs))
  have hend : s.solarNoonEndEv ≠ some tm := fun hs => hnone tm (.inr (.inr hs))
  rw [mem_pending, d.mem_armed, d.mem_events, h.noonStart, h.noonEnd]
  refine or_congr ?_ ?_
  · constructor
    · rintro ⟨j, hj⟩
      rw [h.sunEv] at hj
      split at hj
      · rename_i hc
        cases hj
        exact ⟨⟨j, hc.2.1, rfl⟩, hc.2.2⟩
      · exact absurd hj (hsun j)
    · rintro ⟨⟨j, hj, rfl⟩, hlt⟩
      exact ⟨j, by rw [h.sunEv, if_pos ⟨List.mem_finRange j, hj, hlt⟩]⟩
  · simp only [List.mem_finRange, true_and]
    split
    · rename_i hc
      simp [noonChanges, hc, eq_comm]
    · rename_i hc
      simp [hc, hstart, hend]

/-- The events to come, and the noon when it is to come, are in the order of time, unless they touch. -/
theorem sorted_armed {now : ℤ} (h : now < d.noon - 1800 → d.noon + 1800 ≠ d.times 4 ∧ (now < d.times 3 → d.noon - 1800 ≠ d.times 3)) :
    (d.armed now).Pairwise fun a b => a.time < b.time := by
  have hord := d.order
  rw [armed, List.pairwise_filter]
  split
  · rename_i hlt
    obtain ⟨h4, h3⟩ := h hlt
    simp only [schedule, dawn, noonChanges, dusk, List.cons_append, List.nil_append, List.pairwise_cons, List.forall_mem_cons,
      List.not_mem_nil, List.Pairwise.nil, false_implies, implies_true, and_true, decide_eq_true_eq]
    omega
  · exact d.sorted_events.imp fun hab _ _ => hab

theorem sorted_schedule : d.schedule.Pairwise fun a b => a.time ≤ b.time := by
  have hord := d.order
  simp only [schedule, dawn, noonChanges, dusk, List.cons_append, List.nil_append, List.pairwise_cons, List.forall_mem_cons,
    List.not_mem_nil, List.Pairwise.nil, false_implies, implies_true, and_true]
  omega

variable {now : ℤ} {ps : List (Timer Dayl)}

theorem lt_of_mem_armed {tm : Timer Dayl} (h : tm ∈ d.armed now) : now < tm.time := by
  have := (List.mem_filter.mp h).2
  rwa [decide_eq_true_eq] at this

/-- What it takes that the phase is right from now on. -/
theorem fits_of_elapses (hps : ∀ tm, tm ∈ ps ↔ tm ∈ d.armed now) {before : Dayl}
    (h : ∀ t, now ≤ t → ∀ v, Elapses t ps (d.picked now before) v → v = d.phase t) :
    d.Fits now before := by
  have hord := d.order
  have hnow : d.picked now before = d.phase now := h now (Int.le_refl _) _ (.rest fun tm htm => d.lt_of_mem_armed ((hps tm).mp htm))
  obtain ⟨hevents, hlate, hne⟩ := (d.picked_eq_iff now before).mp hnow
  -- two timers of one time would leave two values
  have htie : ∀ a ∈ d.armed now, ∀ b ∈ d.armed now, a.time = b.time → a.val = b.val := by
    intro a ha b hb he
    have hla := d.lt_of_mem_armed ha
    have h1 := h a.time (Int.le_of_lt hla) _ (elapses_of_mem ((hps a).mpr ha) _)
    have h2 := h b.time (by omega) _ (elapses_of_mem ((hps b).mpr hb) _)
    rw [h1, h2, he]
  refine ⟨hevents, hlate, fun hlt => ⟨fun he => ?_, fun h3 he => ?_⟩, fun hle hlt => ⟨hne, ?_⟩⟩
  · have := htie ⟨d.times 4, .duskCivilTwilight⟩ (d.mem_armed.mpr (.inl ⟨by simp [dusk], by dsimp only; omega⟩))
      ⟨d.noon + 1800, .day⟩ (d.mem_armed.mpr (.inr ⟨hlt, by simp [noonChanges]⟩)) he.symm
    cases this
  · have := htie ⟨d.times 3, .day⟩ (d.mem_armed.mpr (.inl ⟨by simp [dawn], h3⟩))
      ⟨d.noon - 1800, .solarNoon⟩ (d.mem_armed.mpr (.inr ⟨hlt, by simp [noonChanges]⟩)) he.symm
    cases this
  · -- nothing ends the noon
    by_contra hne4
    have hquiet : ∀ tm ∈ ps, d.noon + 1800 < tm.time := by
      intro tm htm
      have hlt' := d.lt_of_mem_armed ((hps tm).mp htm)
      rcases d.mem_armed.mp ((hps tm).mp htm) with ⟨hev, -⟩ | ⟨hn, -⟩
      · obtain ⟨j, hj, rfl⟩ := d.mem_events.mp hev
        dsimp only at hlt' ⊢
        rcases Nat.lt_or_ge j.val 4 with hj4 | hj4
        · have := d.mono (show j ≤ 3 from Fin.le_def.mpr (Nat.lt_succ_iff.mp hj4)) (by decide)
          omega
        · have := d.mono (show (4 : SsTimes) ≤ j from Fin.le_def.mpr hj4) (lt_of_le_of_ne (Fin.le_last j) hj)
          omega
      · omega
    have hend := h (d.noon + 1800) (by omega) _ (.rest hquiet)
    rw [hnow, phase, if_pos ⟨hle, hlt⟩, d.phase_of_not_noon (by omega)] at hend
    exact d.valueAt_ne_noon _ hend.symm

/-- When all fits, the timers realise the phase. -/
theorem elapses_of_fits (hps : ∀ tm, tm ∈ ps ↔ tm ∈ d.armed now) {before : Dayl} (h : d.Fits now before) {t : ℤ} (ht : now ≤ t) (v : Dayl) :
    Elapses t ps (d.picked now before) v ↔ v = d.phase t := by
  have hord := d.order
  obtain ⟨hevents, hlate, hcome, hbegun⟩ := h
  have hne : now ≠ d.noon - 1800 := fun he => (hbegun (by omega) (by omega)).1 he
  rw [(d.picked_eq_iff now before).mpr ⟨hevents, hlate, hne⟩, elapses_iff_valueAt hps (d.sorted_armed hcome)]
  have hsorted : (d.dawn ++ d.dusk).Pairwise fun a b => a.time ≤ b.time := d.sorted_events.imp fun hab => Int.le_of_lt hab
  suffices hv : valueAt (d.phase now) (d.armed now) t = d.phase t by rw [hv]
  rcases lt_or_ge now (d.noon - 1800) with hlow | hlow
  · rw [armed, if_pos hlow, d.phase_eq, d.phase_eq]
    exact valueAt_future d.sorted_schedule ht .night
  · rw [armed, if_neg (Int.not_lt.mpr hlow)]
    by_cases hhigh : now < d.noon + 1800
    · have hset := (hbegun hlow hhigh).2
      have hfilter : ((d.dawn ++ d.dusk).filter fun e => now < e.time) = d.dusk := by
        rw [List.filter_append, List.filter_eq_nil_iff.mpr, List.nil_append, List.filter_eq_self.mpr]
        · intro e he
          rw [decide_eq_true_eq]
          exact d.lt_dusk (by omega) e he
        · simp only [dawn, List.forall_mem_cons, List.not_mem_nil, false_implies, implies_true, and_true, decide_eq_true_eq]
          omega
      rw [hfilter, phase, if_pos ⟨hlow, hhigh⟩]
      by_cases hdusk : t < d.times 4
      · rw [valueAt_before (d.lt_dusk hdusk), phase, if_pos (by omega)]
      · rw [d.phase_of_not_noon (by omega), valueAt_append]
        exact d.valueAt_dusk (by omega) _ _
    · rw [d.phase_of_not_noon (by omega), d.phase_of_not_noon (by omega)]
      exact valueAt_future hsorted ht .night

end Day

/-- What is left of an answer, with no timer from an earlier one. -/
theorem ssRequestCb_answers {d : Day} {req : AstroReq} (h : Answers conf req d) {s : Astro} (hclear : s.pending = []) (now : ℤ) :
    ∃ s', ssRequestCb conf now (some req) s = .ok s' ∧ s'.sunrise = d.picked now s.sunrise ∧ ∀ tm, tm ∈ s'.pending ↔ tm ∈ d.armed now := by
  obtain ⟨token, hparse, htold⟩ := h.told
  obtain ⟨s₁, hread, hconv⟩ := readTimes_converted conf now htold (List.finRange 9) (flushOffsets s)
  have hok : ¬(req.responseCode ≠ 200 ∨ req.body = []) := not_or.mpr ⟨not_not.mpr h.ok, h.body⟩
  have hpending : (pickPhase s₁).pending = s₁.pending := by
    unfold pickPhase
    split
    · rfl
    · split <;> rfl
  refine ⟨pickPhase s₁, ?_, ?_, ?_⟩
  · unfold ssRequestCb
    simp only [if_neg hok, hparse, hread, Except.map, if_true]
  · rw [sunrise_pickPhase fun j => by rw [hconv.offsets, if_pos (List.mem_finRange j)], hconv.sunrise]
    rfl
  · rw [hpending]
    exact @Day.mem_pending_converted d now (flushOffsets s) s₁ hclear hconv

/-- A device that keeps the phase does so because all fits. -/
theorem KeepsPhase.fits {d : Day} {req : AstroReq} (h : Answers conf req d) {s : Astro} (hclear : s.pending = []) {now : ℤ}
    (hk : KeepsPhase d now (ssRequestCb conf now (some req) s)) : d.Fits now s.sunrise := by
  obtain ⟨s', hs', hsunrise, hps⟩ := ssRequestCb_answers conf h hclear now
  obtain ⟨_, hr, hall⟩ := hk
  rw [hs'] at hr
  cases hr
  refine d.fits_of_elapses hps fun t ht v hv => (hall t ht v).mp ?_
  rw [hsunrise]
  exact hv

/-- After an answer, with no timer left from an earlier one, the sunrise device keeps the phase exactly when all fits. -/
theorem keepsPhase_iff {d : Day} {req : AstroReq} (h : Answers conf req d) {s : Astro} (hclear : s.pending = []) (now : ℤ) :
    KeepsPhase d now (ssRequestCb conf now (some req) s) ↔ d.Fits now s.sunrise := by
  refine ⟨KeepsPhase.fits conf h hclear, fun hfits => ?_⟩
  obtain ⟨s', hs', hsunrise, hps⟩ := ssRequestCb_answers conf h hclear now
  refine ⟨s', hs', fun t ht v => ?_⟩
  rw [hsunrise]
  exact d.elapses_of_fits hps hfits ht v

/-! ## A day in May -/

/-- A time of the day, at a full hour. -/
def mayTime (hour : Str) : Str := str "2015-05-21T" ++ hour ++ str ":00:00+00:00"

/-- The hours of the events and of noon. -/
def mayHours : SsTimes → Str :=
  ![str "02", str "03", str "04", str "05", str "19", str "20", str "21", str "22", str "12"]

def mayFields : List (Str × Str) := (List.finRange 9).map fun j => (apiwords j, mayTime (mayHours j))

/-- The tokens of some fields, of which the first is at a place and the first token has a number. -/
def fieldTokens : Nat → Nat → List (Str × Str) → List Jsmntok
  | _, _, [] => []
  | pos, i, (k, v) :: fs =>
    { type := .string, start := pos + 1, stop := pos + 1 + k.length } ::
      { type := .string, start := pos + k.length + 4, stop := pos + k.length + 4 + v.length, valueof := i } ::
        fieldTokens (pos + k.length + v.length + 6) (i + 2) fs

/-- The answer of the service. -/
def mayAnswer : AstroReq where
  responseCode := 200
  body := str "\x7b" ++ join chComma (mayFields.map fun f => chQuote :: f.1 ++ str "\":\"" ++ f.2 ++ [chQuote]) ++ str "\x7d"

def mayTokens : List Jsmntok := { type := .object, start := 0, stop := mayAnswer.body.length, size := 18 } :: fieldTokens 1 1 mayFields

/-- The parser and the clock, for full hours of that day. -/
def mayConf : AstroConf where
  jsmnParse _ := some mayTokens
  eventTime text := 1432166400 + 3600 * digitsVal ((text.drop 11).take 2)

def mayDay : Day where
  times j := 1432166400 + 3600 * digitsVal (mayHours j)
  increasing := by decide
  afterSunrise := by decide
  beforeSunset := by decide

theorem answers_may : Answers mayConf mayAnswer mayDay where
  ok := rfl
  body := by decide
  told := by
    have hall : ∀ j : SsTimes,
        jtokFindTokenVal mayTokens mayAnswer.body (apiwords j) mayTokens.length = .ok ((2 + 2 * j.val : Nat) : Int) ∧
          (mayTokens[2 + 2 * j.val]?.bind fun t => jtokString t mayAnswer.body) = some (mayTime (mayHours j)) ∧
          mayConf.eventTime (mayTime (mayHours j)) = mayDay.times j := by
      decide +kernel
    refine ⟨mayTokens, rfl, fun j => ?_⟩
    obtain ⟨hfind, htext, htime⟩ := hall j
    obtain ⟨t, ht, htext⟩ := Option.bind_eq_some_iff.mp htext
    exact ⟨_, hfind, t, ht, _, htext, htime⟩

theorem keepsPhase_morning :
    KeepsPhase mayDay (1432166400 + 3600) (ssRequestCb mayConf (1432166400 + 3600) (some mayAnswer) {}) := by
  refine (keepsPhase_iff mayConf answers_may rfl _).mpr ⟨?_, ?_, ?_, ?_⟩
  · decide
  · intro h
    exact absurd h (by decide)
  · intro _
    exact ⟨by decide, fun _ => by decide⟩
  · intro h
    exact absurd h (by decide)

/-- At noon nothing is armed for the end of the solar noon. -/
theorem not_keepsPhase : ¬ ∀ (conf : AstroConf) (d : Day) (req : AstroReq) (s : Astro) (now : ℤ), Answers conf req d → s.pending = [] →
    KeepsPhase d now (ssRequestCb conf now (some req) s) := by
  intro hall
  have hfits := (hall mayConf mayDay mayAnswer {} mayDay.noon answers_may rfl).fits mayConf answers_may rfl
  have hset := (hfits.2.2.2 (by decide) (by decide)).2
  exact absurd hset (by decide)

end Gnhast.Astrocoll
