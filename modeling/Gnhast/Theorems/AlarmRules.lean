import Gnhast.Lemmas.Alarmcoll
import Gnhast.Lib.Runs

/-!
# Alarm rules follow the data

An update re-evaluates the rows of the updated device in the order of the table, so a pass over the table is a sweep over equations,
one for each row (`updRows_spec`). Whether the fired flags are those of the rules after an update is then a question about the rows
that are left alone, and about what `coll_upd_cb` reads (`follows_step_iff`).
-/

namespace Gnhast.Alarmcoll

open CStr Sweep

variable (F : Doubles)

/-! ## Rules -/

/-- The rule of a row, from the result of its simple test and the fired flag of its comparison row. -/
def Watch.rule (watch : Watch) (simple comparison : Bool) : Bool :=
  if watch.is .and then simple && comparison
  else if watch.is .or then simple || comparison
  else simple

/-- The rules of a table, with the simple tests made on a word. -/
def rules (watched : List Watch) (dt : DataType) (data : Word) (row : Nat) (fired : Nat → Bool) : Bool :=
  match watched[row]? with
  | some watch => watch.rule (simpleTest F dt data watch) (fired watch.comparison.toNat)
  | none => false

/-- The rows of a device. -/
def rowsOf (watched : List Watch) (uid : Str) (row : Nat) : Bool :=
  match watched[row]? with
  | some watch => decide (watch.uid = some uid)
  | none => false

/-- The data that a device has: the member its type and subtype store, with nothing beside it. -/
def latest (dev : Device) : Word :=
  match storeMember dev.devType dev.devSubtype with
  | some m => (Word.raw 0).assign F m dev.data
  | none => dev.data

/-- The fired flags as the rules of a device's rows have them for its data; the other rows keep theirs. -/
def verdicts (coll : Coll) (dev : Device) : Nat → Bool :=
  sweep (rowsOf coll.watched dev.uid) (rules F coll.watched (datatypeDev dev) (latest F dev)) coll.watched.length coll.rowFired

/-! ## Runs -/

/-- An update: the time, what lies on the stack, and the record of the device. -/
structure Upd where
  now : Int
  stack : Word
  dev : Device

/-- One update; a fault ends the run. -/
def updStep (coll : Coll) (upd : Upd) : Option Coll := (collUpdCb F upd.now upd.stack upd.dev coll).toOption

/-- The collector with a table that was just read. -/
def startColl (watched : List Watch) : Coll := { watched := watched }

/-- Every row of a device that has data fires as its rule says. -/
def Follows (coll : Coll) : Prop :=
  ∀ row ∈ List.range coll.watched.length, ∀ watch ∈ coll.watched[row]?, ∀ uid ∈ watch.uid, ∀ dev ∈ coll.devices uid,
    watch.fired = watch.rule (simpleTest F (datatypeDev dev) (latest F dev) watch) (coll.rowFired watch.comparison.toNat)
deriving Decidable

/-- The messages about a row, by whether they set or clear the alarm. -/
def Coll.told (coll : Coll) (row : Nat) : List Bool := (coll.sent.filter (·.row = row)).map fun msg => decide (msg.sev ≠ 0)

/-- The messages about each row with a severity set and clear the alarm by turns, setting it first. -/
def Alternates (coll : Coll) : Prop :=
  ∀ row watch, coll.watched[row]? = some watch → watch.sev ≠ 0 →
    (coll.told row).head? ≠ some false ∧ (coll.told row).IsChain (· ≠ ·)

/-- What `coll_upd_cb` reads of a device decides its rules as its data do, and no rule of another device's row changes its value
with the fired flags of the device's rows. -/
def Undisturbed (coll : Coll) (upd : Upd) : Prop :=
  ∀ row ∈ List.range coll.watched.length, ∀ watch ∈ coll.watched[row]?, ∀ uid ∈ watch.uid,
    (uid = upd.dev.uid →
      watch.rule (simpleTest F (datatypeDev upd.dev) (updData F upd.stack upd.dev) watch)
          (verdicts F coll upd.dev watch.comparison.toNat) =
        watch.rule (simpleTest F (datatypeDev upd.dev) (latest F upd.dev) watch)
          (verdicts F coll upd.dev watch.comparison.toNat)) ∧
    (uid ≠ upd.dev.uid → ∀ dev ∈ coll.devices uid,
      watch.rule (simpleTest F (datatypeDev dev) (latest F dev) watch) (verdicts F coll upd.dev watch.comparison.toNat) =
        watch.rule (simpleTest F (datatypeDev dev) (latest F dev) watch) (coll.rowFired watch.comparison.toNat))
deriving Decidable

/-! ## One row -/

/-- A row without its fired flag. -/
def Watch.still (watch : Watch) : Watch := { watch with fired := false }

variable {F}

theorem complexTests_eq_rule {watch : Watch} (h : ¬ (watch.is .and = true ∧ watch.is .or = true)) (comparison fired : Bool) :
    complexTests watch comparison fired = watch.rule fired comparison := by
  rw [complexTests, Watch.rule]
  cases ha : watch.is .and <;> cases ho : watch.is .or <;> cases comparison <;> cases fired <;> simp_all

/-- A row without a jitter test makes its simple test and stays as it is. -/
theorem simpleTests_of_steady {watch : Watch} (h : watch.is .jitter = false) (now : Int) (dev : Device) (dt : DataType)
    (data : Word) : simpleTests F now dev dt data watch = (watch, simpleTest F dt data watch) := by
  rw [simpleTests, h, Bool.and_false]
  rfl

/-- What a report leaves: the row, the devices, and at most one more message. -/
theorem report_spec (coll : Coll) (row : Nat) (watch : Watch) (fired : Bool) :
    (coll.report row watch fired).watched = coll.watched.set row { watch with fired := fired } ∧
      (coll.report row watch fired).devices = coll.devices ∧
      (coll.report row watch fired).sent = coll.sent ++
        if fired && !watch.fired then
          (if watch.sev ≠ 0 then [⟨row, watch.aluid, watch.msg, watch.sev, watch.channel⟩] else [])
        else if watch.fired && !fired then [⟨row, watch.aluid, watch.msg, 0, watch.channel⟩] else [] := by
  rw [Coll.report]
  cases watch.handler with
  | none => exact ⟨rfl, rfl, rfl⟩
  | some handler =>
    dsimp only
    split <;> exact ⟨rfl, rfl, rfl⟩

/-- A report about a row with a severity tells each change of its flag, and nothing about other rows. -/
theorem told_report (coll : Coll) (row : Nat) (watch : Watch) (fired : Bool) (i : Nat) (hsev : i = row → watch.sev ≠ 0) :
    (coll.report row watch fired).told i = coll.told i ++ if i = row ∧ fired ≠ watch.fired then [fired] else [] := by
  rw [Coll.told, Coll.told, (report_spec coll row watch fired).2.2, List.filter_append, List.map_append]
  congr 1
  by_cases hi : i = row
  · subst hi
    have hs : ¬ watch.sev = 0#32 := hsev rfl
    cases fired <;> cases watch.fired <;> simp [hs]
  · have hi' : row ≠ i := fun h => hi h.symm
    cases fired <;> cases watch.fired <;> by_cases hs : watch.sev = 0#32 <;> simp [hi, hi', hs]

/-- The flags after a row got one. -/
theorem rowFired_set {coll coll' : Coll} {row : Nat} (hrow : row < coll.watched.length) {watch : Watch} {fired : Bool}
    (h : coll'.watched = coll.watched.set row { watch with fired := fired }) :
    coll'.rowFired = Function.update coll.rowFired row fired := by
  funext i
  rw [Coll.rowFired, h]
  by_cases hi : i = row
  · subst hi
    rw [List.getElem?_set_self hrow, Function.update_self]
  · rw [List.getElem?_set_ne (fun he => hi he.symm), Function.update_of_ne hi]
    rfl

/-- The messages about each row with a severity tell the changes of its flag, from a cleared one on. -/
def Told (coll : Coll) : Prop :=
  ∀ row watch, coll.watched[row]? = some watch → watch.sev ≠ 0 →
    (false :: coll.told row).IsChain (· ≠ ·) ∧ (false :: coll.told row).getLast? = some watch.fired

/-- What the rules and the messages of a table go by stays as it is from one state to the next. -/
structure Still (coll coll' : Coll) : Prop where
  devices : coll'.devices = coll.devices
  watched : coll'.watched.map Watch.still = coll.watched.map Watch.still

theorem Still.trans {coll coll' coll'' : Coll} (h : Still coll coll') (h' : Still coll' coll'') : Still coll coll'' :=
  ⟨h'.devices.trans h.devices, h'.watched.trans h.watched⟩

/-- The entry of a row before and after, without its flag. -/
theorem Still.getElem? {coll coll' : Coll} (h : Still coll coll') (row : Nat) :
    (coll'.watched[row]?).map Watch.still = (coll.watched[row]?).map Watch.still := by
  rw [← List.getElem?_map, h.watched, List.getElem?_map]

theorem Still.length {coll coll' : Coll} (h : Still coll coll') : coll'.watched.length = coll.watched.length := by
  have hl := congrArg List.length h.watched
  rwa [List.length_map, List.length_map] at hl

/-- The entry that is now in the place of a row differs in its flag at most. -/
theorem Still.row {coll coll' : Coll} (h : Still coll coll') {row : Nat} {watch' : Watch} (hw : coll'.watched[row]? = some watch') :
    ∃ watch fired, coll.watched[row]? = some watch ∧ watch' = { watch with fired := fired } := by
  have he := h.getElem? row
  rw [hw] at he
  cases hc : coll.watched[row]? with
  | none =>
    rw [hc] at he
    cases he
  | some watch =>
    rw [hc, Option.map_some, Option.map_some, Option.some.injEq] at he
    refine ⟨watch, watch'.fired, rfl, ?_⟩
    cases watch
    cases watch'
    simp only [Watch.still, Watch.mk.injEq] at he ⊢
    tauto

theorem Still.none {coll coll' : Coll} (h : Still coll coll') {row : Nat} (hw : coll'.watched[row]? = none) :
    coll.watched[row]? = none := by
  have he := h.getElem? row
  rw [hw, Option.map_none] at he
  exact Option.map_eq_none_iff.mp he.symm

theorem Still.rules {coll coll' : Coll} (h : Still coll coll') : rules F coll'.watched = rules F coll.watched := by
  funext dt data row fired
  rw [Alarmcoll.rules, Alarmcoll.rules]
  cases hw : coll'.watched[row]? with
  | none => rw [h.none hw]
  | some watch' =>
    obtain ⟨watch, b, hw', rfl⟩ := h.row hw
    rw [hw']
    rfl

theorem Still.rowsOf {coll coll' : Coll} (h : Still coll coll') : rowsOf coll'.watched = rowsOf coll.watched := by
  funext uid row
  rw [Alarmcoll.rowsOf, Alarmcoll.rowsOf]
  cases hw : coll'.watched[row]? with
  | none => rw [h.none hw]
  | some watch' =>
    obtain ⟨watch, b, hw', rfl⟩ := h.row hw
    rw [hw']

theorem Still.rowsOk {coll coll' : Coll} (h : Still coll coll') (hok : RowsOk coll.watched) : RowsOk coll'.watched := by
  intro row watch' hw
  obtain ⟨watch, b, hw', rfl⟩ := h.row hw
  obtain ⟨h1, h2, h3, h4⟩ := hok row watch hw'
  exact ⟨h1, h2, h3, h4⟩

/-- The rules of a table read flags in front of their own only. -/
theorem ordered_rules {watched : List Watch} (h : RowsOk watched) (uid : Str) (dt : DataType) (data : Word) :
    Ordered (Alarmcoll.rowsOf watched uid) (Alarmcoll.rules F watched dt data) := by
  intro row _ fired fired' hbelow
  rw [Alarmcoll.rules, Alarmcoll.rules]
  cases hw : watched[row]? with
  | none => rfl
  | some watch =>
    have hbefore := (h row watch hw).before
    dsimp only
    rw [Watch.rule, Watch.rule]
    split
    · rename_i ha
      rw [hbelow _ (hbefore (Or.inl ha))]
    · split
      · rename_i ho
        rw [hbelow _ (hbefore (Or.inr ho))]
      · rfl

theorem still_report {coll : Coll} {row : Nat} {watch : Watch} (hw : coll.watched[row]? = some watch) (fired : Bool) :
    Still coll (coll.report row watch fired) := by
  obtain ⟨hwatched, hdevices, -⟩ := report_spec coll row watch fired
  refine ⟨hdevices, ?_⟩
  have hrow : row < (coll.watched.map Watch.still).length := by
    rw [List.length_map]
    exact (List.getElem?_eq_some_iff.mp hw).1
  have he : Watch.still { watch with fired := fired } = (coll.watched.map Watch.still)[row] := by
    rw [List.getElem_map, (List.getElem?_eq_some_iff.mp hw).2]
    rfl
  rw [hwatched, List.map_set, he, List.set_getElem_self]

/-- A report keeps that the messages tell the changes. -/
theorem told_of_report {coll : Coll} {row : Nat} {watch : Watch} (hw : coll.watched[row]? = some watch) (fired : Bool)
    (ht : Told coll) : Told (coll.report row watch fired) := by
  have hrow : row < coll.watched.length := (List.getElem?_eq_some_iff.mp hw).1
  intro i w hi hsev
  rw [(report_spec coll row watch fired).1] at hi
  by_cases hir : i = row
  · subst hir
    rw [List.getElem?_set_self hrow] at hi
    cases hi
    obtain ⟨hchain, hlast⟩ := ht i watch hw hsev
    rw [told_report coll i watch fired i fun _ => hsev]
    by_cases hf : fired = watch.fired
    · rw [if_neg fun h => h.2 hf, List.append_nil, hf]
      exact ⟨hchain, hlast⟩
    · rw [if_pos ⟨rfl, hf⟩, ← List.cons_append, List.getLast?_append]
      refine ⟨List.isChain_append.mpr ⟨hchain, List.isChain_singleton _, ?_⟩, rfl⟩
      intro x hx y hy
      rw [hlast] at hx
      cases hx
      cases hy
      exact fun he => hf he.symm
  · rw [List.getElem?_set_ne fun he => hir he.symm] at hi
    rw [told_report coll row watch fired i fun he => absurd he hir, if_neg fun h => hir h.1, List.append_nil]
    exact ht i w hi hsev

/-- One row of the loop: a row of the device gets the flag of its rule, another one stays. -/
theorem updRow_spec {coll : Coll} (hok : RowsOk coll.watched) (now : Int) (dev : Device) (data : Word) {row : Nat}
    (hrow : row < coll.watched.length) :
    ∃ coll', updRow F now dev data coll row = .ok coll' ∧ Still coll coll' ∧ (Told coll → Told coll') ∧
      coll'.rowFired =
        if rowsOf coll.watched dev.uid row then
          Function.update coll.rowFired row (rules F coll.watched (datatypeDev dev) data row coll.rowFired)
        else coll.rowFired := by
  obtain ⟨watch, hw⟩ : ∃ watch, coll.watched[row]? = some watch := ⟨_, List.getElem?_eq_getElem hrow⟩
  have hrok := hok row watch hw
  obtain ⟨uid, huid⟩ := Option.isSome_iff_exists.mp hrok.uid
  simp only [updRow, rowsOf, rules, hw, huid, Option.some.injEq, simpleTests_of_steady hrok.steady,
    complexTests_eq_rule hrok.single]
  by_cases hu : uid = dev.uid
  · simp only [hu, ne_eq, not_true_eq_false, if_false, decide_true, if_true, Except.ok.injEq, exists_eq_left']
    exact ⟨still_report hw _, told_of_report hw _, rowFired_set hrow (report_spec coll row watch _).1⟩
  · simp only [hu, ne_eq, not_false_eq_true, if_true, decide_false, Bool.false_eq_true, if_false, Except.ok.injEq,
      exists_eq_left']
    exact ⟨⟨rfl, rfl⟩, fun ht => ht, trivial⟩

/-- The loop over the first rows: a sweep over the rules of the device's rows. -/
theorem updRows_spec {coll : Coll} (hok : RowsOk coll.watched) (now : Int) (dev : Device) (data : Word) {n : Nat}
    (hn : n ≤ coll.watched.length) :
    ∃ coll', (List.range n).foldlM (updRow F now dev data) coll = .ok coll' ∧ Still coll coll' ∧ (Told coll → Told coll') ∧
      coll'.rowFired =
        sweep (rowsOf coll.watched dev.uid) (rules F coll.watched (datatypeDev dev) data) n coll.rowFired := by
  induction n with
  | zero => exact ⟨coll, rfl, ⟨rfl, rfl⟩, fun ht => ht, rfl⟩
  | succ n ih =>
    obtain ⟨mid, hmid, hstill, htold, hfired⟩ := ih (by omega)
    obtain ⟨coll', hcoll', hstill', htold', hfired'⟩ :=
      updRow_spec (F := F) (hstill.rowsOk hok) now dev data (show n < mid.watched.length by rw [hstill.length]; omega)
    refine ⟨coll', ?_, hstill.trans hstill', fun ht => htold' (htold ht), ?_⟩
    · rw [List.range_succ, List.foldlM_append, hmid]
      change (updRow F now dev data mid n >>= pure) = _
      rw [hcoll']
      rfl
    · rw [hfired', hstill.rules, hstill.rowsOf, hfired]
      rfl

/-! ## One update -/

/-- The collector when the library has stored an update. -/
def Coll.stored (coll : Coll) (dev : Device) : Coll :=
  { coll with devices := Function.update coll.devices dev.uid (some dev) }

/-- An update ends, and the rows of its device are swept over. -/
theorem collUpdCb_spec {coll : Coll} (hok : RowsOk coll.watched) (now : Int) (stack : Word) (dev : Device) :
    ∃ coll', collUpdCb F now stack dev coll = .ok coll' ∧ Still (coll.stored dev) coll' ∧ (Told coll → Told coll') ∧
      coll'.rowFired = sweep (rowsOf coll.watched dev.uid) (rules F coll.watched (datatypeDev dev) (updData F stack dev))
        coll.watched.length coll.rowFired :=
  updRows_spec (show RowsOk (coll.stored dev).watched from hok) now dev (updData F stack dev) le_rfl

/-- What the rule of a row says of the data of its device, when the device has some. -/
def expected (F : Doubles) (coll : Coll) (row : Nat) (fired : Nat → Bool) : Option Bool :=
  coll.watched[row]?.bind fun watch => watch.uid.bind fun uid => (coll.devices uid).map fun dev =>
    watch.rule (simpleTest F (datatypeDev dev) (latest F dev) watch) (fired watch.comparison.toNat)

theorem follows_iff {coll : Coll} :
    Follows F coll ↔ ∀ row b, expected F coll row coll.rowFired = some b → coll.rowFired row = b := by
  constructor
  · intro h row b hb
    simp only [expected, Option.bind_eq_some_iff, Option.map_eq_some_iff] at hb
    obtain ⟨watch, hw, uid, hu, dev, hd, rfl⟩ := hb
    have hrow := (List.getElem?_eq_some_iff.mp hw).1
    rw [← h row (List.mem_range.mpr hrow) watch hw uid hu dev hd, Coll.rowFired, hw]
  · intro h row _ watch hw uid hu dev hd
    have hfired := h row (watch.rule (simpleTest F (datatypeDev dev) (latest F dev) watch) (coll.rowFired watch.comparison.toNat)) (by
      rw [Option.mem_def] at hw hu hd
      rw [expected, hw, Option.bind_some, hu, Option.bind_some, hd, Option.map_some])
    rw [Option.mem_def] at hw
    rw [← hfired, Coll.rowFired, hw]

theorem expected_still {coll coll' : Coll} (h : Still coll coll') (row : Nat) (fired : Nat → Bool) :
    expected F coll' row fired = expected F coll row fired := by
  rw [expected, expected, h.devices]
  cases hw : coll'.watched[row]? with
  | none => rw [h.none hw]
  | some watch' =>
    obtain ⟨watch, b, hw', rfl⟩ := h.row hw
    rw [hw']
    rfl

/-- The rows of a device go by the data just stored, the others by what they went by before. -/
theorem expected_stored (coll : Coll) (dev : Device) (row : Nat) (fired : Nat → Bool) :
    expected F (coll.stored dev) row fired =
      if rowsOf coll.watched dev.uid row then some (rules F coll.watched (datatypeDev dev) (latest F dev) row fired)
      else expected F coll row fired := by
  cases hw : coll.watched[row]? with
  | none => simp [expected, rowsOf, Coll.stored, hw]
  | some watch =>
    simp only [expected, rowsOf, rules, Coll.stored, hw, Option.bind_some, decide_eq_true_eq]
    cases hu : watch.uid with
    | none => simp
    | some uid =>
      by_cases hdev : uid = dev.uid
      · subst hdev
        simp
      · simp [hdev]

theorem rowsOf_lt {watched : List Watch} {uid : Str} {row : Nat} (h : rowsOf watched uid row = true) : row < watched.length := by
  rw [rowsOf] at h
  cases hw : watched[row]? with
  | none =>
    rw [hw] at h
    cases h
  | some watch => exact (List.getElem?_eq_some_iff.mp hw).1

/-- The condition, said of the rules of the table. -/
theorem undisturbed_iff {coll : Coll} {upd : Upd} :
    Undisturbed F coll upd ↔
      (∀ row < coll.watched.length, rowsOf coll.watched upd.dev.uid row = true →
        rules F coll.watched (datatypeDev upd.dev) (updData F upd.stack upd.dev) row (verdicts F coll upd.dev) =
          rules F coll.watched (datatypeDev upd.dev) (latest F upd.dev) row (verdicts F coll upd.dev)) ∧
      ∀ row, rowsOf coll.watched upd.dev.uid row = false →
        expected F coll row (verdicts F coll upd.dev) = expected F coll row coll.rowFired := by
  constructor
  · intro h
    refine ⟨fun row hrow hof => ?_, fun row hof => ?_⟩
    · cases hw : coll.watched[row]? with
      | none => simp [rowsOf, hw] at hof
      | some watch =>
        simp only [rowsOf, hw, decide_eq_true_eq] at hof
        simp only [rules, hw]
        exact (h row (List.mem_range.mpr hrow) watch hw _ hof).1 rfl
    · cases hw : coll.watched[row]? with
      | none => simp [expected, hw]
      | some watch =>
        simp only [rowsOf, hw, decide_eq_false_iff_not] at hof
        have hrow := List.mem_range.mpr (List.getElem?_eq_some_iff.mp hw).1
        cases hu : watch.uid with
        | none => simp [expected, hw, hu]
        | some uid =>
          cases hd : coll.devices uid with
          | none => simp [expected, hw, hu, hd]
          | some dev =>
            rw [hu, Option.some.injEq] at hof
            simp only [expected, hw, hu, hd, Option.bind_some, Option.map_some]
            rw [(h row hrow watch hw uid hu).2 hof dev hd]
  · rintro ⟨h1, h2⟩ row hrow watch hw uid hu
    rw [Option.mem_def] at hw hu
    refine ⟨fun huid => ?_, fun huid dev hd => ?_⟩
    · have h := h1 row (List.mem_range.mp hrow) (by simp [rowsOf, hw, hu, huid])
      simpa only [rules, hw] using h
    · rw [Option.mem_def] at hd
      have h := h2 row (by simp [rowsOf, hw, hu, huid])
      simpa only [expected, hw, hu, hd, Option.bind_some, Option.map_some, Option.some.injEq] using h

/-- A flag that is as the rule of its row says stays so exactly when the rule keeps its value. -/
theorem expected_eq_iff {coll : Coll} {row : Nat} {fired fired' : Nat → Bool} {flag : Bool}
    (h : ∀ b, expected F coll row fired = some b → flag = b) :
    expected F coll row fired' = expected F coll row fired ↔ ∀ b, expected F coll row fired' = some b → flag = b := by
  cases hw : coll.watched[row]? with
  | none => simp [expected, hw]
  | some watch =>
    cases hu : watch.uid with
    | none => simp [expected, hw, hu]
    | some uid =>
      cases hd : coll.devices uid with
      | none => simp [expected, hw, hu, hd]
      | some dev =>
        simp only [expected, hw, hu, hd, Option.bind_some, Option.map_some, Option.some.injEq, forall_eq'] at h ⊢
        rw [h]
        exact eq_comm

/-- An update keeps that the flags follow the data exactly when it is undisturbed. -/
theorem follows_step_iff {coll coll' : Coll} {upd : Upd} (hok : RowsOk coll.watched) (hf : Follows F coll)
    (hstep : updStep F coll upd = some coll') : Follows F coll' ↔ Undisturbed F coll upd := by
  obtain ⟨c, hc, hstill, -, hfired⟩ := collUpdCb_spec (F := F) hok upd.now upd.stack upd.dev
  rw [updStep, hc] at hstep
  cases hstep
  have ho := ordered_rules (F := F) hok upd.dev.uid (datatypeDev upd.dev)
  -- the flags solve the rules of the device's rows when what is read of the device decides them as its data do
  have hsolves := solves_iff (ho (latest F upd.dev)) (ho (updData F upd.stack upd.dev)) coll.watched.length coll.rowFired
  rw [← hfired] at hsolves
  have hexpected : ∀ row fired, expected F coll' row fired =
      if rowsOf coll.watched upd.dev.uid row then
        some (rules F coll.watched (datatypeDev upd.dev) (latest F upd.dev) row fired)
      else expected F coll row fired := by
    intro row fired
    rw [expected_still hstill, expected_stored]
  have hsplit : Follows F coll' ↔
      (∀ row < coll.watched.length, rowsOf coll.watched upd.dev.uid row = true →
        coll'.rowFired row = rules F coll.watched (datatypeDev upd.dev) (latest F upd.dev) row coll'.rowFired) ∧
      ∀ row, rowsOf coll.watched upd.dev.uid row = false →
        ∀ b, expected F coll row coll'.rowFired = some b → coll.rowFired row = b := by
    rw [follows_iff]
    constructor
    · intro h
      refine ⟨fun row _ hof => h row _ (by rw [hexpected, if_pos hof]), fun row hof b hb => ?_⟩
      rw [← sweep_of_not_chosen hof coll.watched.length coll.rowFired, ← hfired]
      exact h row b (by rw [hexpected, hof, if_neg Bool.false_ne_true, hb])
    · rintro ⟨h1, h2⟩ row b hb
      rw [hexpected] at hb
      cases hof : rowsOf coll.watched upd.dev.uid row with
      | true =>
        rw [hof, if_pos rfl, Option.some.injEq] at hb
        rw [h1 row (rowsOf_lt hof) hof, hb]
      | false =>
        rw [hof, if_neg Bool.false_ne_true] at hb
        rw [hfired, sweep_of_not_chosen hof]
        exact h2 row hof b hb
  rw [hsplit, undisturbed_iff, hsolves]
  refine and_congr_right fun h => ?_
  have hsame : coll'.rowFired = verdicts F coll upd.dev := by
    have hrules := hsolves.mpr h
    rw [hfired] at hrules ⊢
    exact sweep_eq_of_solves (ho (latest F upd.dev)) hrules
  refine forall_congr' fun row => forall_congr' fun _ => ?_
  rw [hsame]
  exact (expected_eq_iff (follows_iff.mp hf row)).symm

/-! ## Runs of updates -/

theorem Told.alternates {coll : Coll} (h : Told coll) : Alternates coll := by
  intro row watch hw hsev
  obtain ⟨hhead, hchain⟩ := List.isChain_cons.mp (h row watch hw hsev).1
  exact ⟨fun he => hhead false he rfl, hchain⟩

/-- Every update is possible on a table of such rows, and keeps them and what was told of them. -/
theorem updStep_total {coll : Coll} (h : RowsOk coll.watched ∧ Told coll) (upd : Upd) :
    ∃ coll', updStep F coll upd = some coll' ∧ RowsOk coll'.watched ∧ Told coll' := by
  obtain ⟨coll', hc, hstill, htold, -⟩ := collUpdCb_spec (F := F) h.1 upd.now upd.stack upd.dev
  exact ⟨coll', by rw [updStep, hc]; rfl, hstill.rowsOk h.1, htold h.2⟩

theorem updStep_keeps {coll coll' : Coll} {upd : Upd} (h : RowsOk coll.watched ∧ Told coll)
    (hstep : updStep F coll upd = some coll') : RowsOk coll'.watched ∧ Told coll' := by
  obtain ⟨c, hc, hkept⟩ := updStep_total h upd
  rw [hstep] at hc
  cases hc
  exact hkept

/-- In every run of updates from a table that `parse_csv` made of well-formed rows, the fired flags follow the data, and the
messages set and clear by turns, exactly when every update is undisturbed; and no update fails. -/
theorem fired_follows_iff {rows : List (List Str)} (hrows : WellFormed rows) {now : Int} {watched : List Watch}
    (hparse : parseCsv F now rows = .ok watched) (upds : List Upd) :
    (∃ coll, Runs.exec (updStep F) (startColl watched) upds = some coll) ∧
      (Runs.Throughout (updStep F) (fun coll => Follows F coll ∧ Alternates coll) (startColl watched) upds ↔
        Runs.Along (updStep F) (Undisturbed F) (startColl watched) upds) := by
  obtain ⟨hok, hquiet⟩ := rowsOk_parseCsv F hrows hparse
  have htold : Told (startColl watched) := by
    intro row watch hw _
    refine ⟨List.isChain_singleton _, ?_⟩
    rw [hquiet watch (List.mem_of_getElem? hw)]
    rfl
  have hfollows : Follows F (startColl watched) := by
    intro row _ watch _ uid _ dev hdev
    cases hdev
  refine ⟨Runs.exec_total (I := fun coll => RowsOk coll.watched ∧ Told coll) (fun _ upd h => updStep_total h upd) ⟨hok, htold⟩ upds,
    Runs.throughout_iff_along (I := fun coll => RowsOk coll.watched ∧ Told coll) (fun _ _ _ h hs => updStep_keeps h hs)
      (fun coll upd coll' h hp hs => ?_) ⟨hok, htold⟩ ⟨hfollows, htold.alternates⟩ upds⟩
  rw [and_iff_left (updStep_keeps h hs).2.alternates]
  exact follows_step_iff h.1 hp.1 hs

/-- A row on one device, and a row on another device that fires only with the first. -/
def twoRows : List (List Str) :=
  [[str "x", str "=", str "1", str "0", str "a", str "m", str "1"],
   [str "y", str "=&", str "1", str "0", str "b", str "m", str "1", [], str "a"]]

theorem wellFormed_twoRows : WellFormed twoRows := by
  refine ⟨by decide, by decide, by decide, Graph.acyclic_of_halts fun row => ⟨2, ?_⟩⟩
  match row with
  | 0 => exact fun _ h => by cases h
  | 1 =>
    intro b hb c hc
    cases List.mem_singleton.mp hb
    cases hc
  | _ + 2 => exact fun _ h => by cases h

/-- A switch that is on. -/
def switchOn (uid : Str) : Device := { uid := uid, type := 1, subtype := 1, data := .raw 1 }

/-- The table of the two rows. -/
def twoWatches : List Watch :=
  [{ uid := some (str "x"), wtype := 16, sev := 1, channel := 1, aluid := some (str "a"), msg := some (str "m"),
     val := .raw 1 },
   { uid := some (str "y"), wtype := 144, sev := 1, channel := 1, aluid := some (str "b"), msg := some (str "m"),
     val := .raw 1 }]

theorem parseCsv_twoRows : parseCsv Doubles.exact 0 twoRows = .ok twoWatches := by
  decide

theorem fired_follows_two :
    (∃ coll, Runs.exec (updStep Doubles.exact) (startColl twoWatches)
      [⟨0, .raw 0, switchOn (str "x")⟩, ⟨0, .raw 0, switchOn (str "y")⟩] = some coll) ∧
    Runs.Throughout (updStep Doubles.exact) (fun coll => Follows Doubles.exact coll ∧ Alternates coll) (startColl twoWatches)
      [⟨0, .raw 0, switchOn (str "x")⟩, ⟨0, .raw 0, switchOn (str "y")⟩] :=
  have h := @fired_follows_iff Doubles.exact twoRows wellFormed_twoRows 0 twoWatches parseCsv_twoRows
    [⟨0, .raw 0, switchOn (str "x")⟩, ⟨0, .raw 0, switchOn (str "y")⟩]
  ⟨h.1, h.2.mpr (by decide)⟩

/-- When the device of the second row is updated first, the second row stays cleared although its rule holds after the update of the
first device. -/
theorem not_fired_follows :
    ¬ ∀ (rows : List (List Str)) (now : Int) (watched : List Watch) (upds : List Upd), WellFormed rows →
      parseCsv Doubles.exact now rows = .ok watched →
      Runs.Throughout (updStep Doubles.exact) (fun coll => Follows Doubles.exact coll ∧ Alternates coll) (startColl watched) upds := by
  intro h
  have hrun := h twoRows 0 twoWatches [⟨0, .raw 0, switchOn (str "y")⟩, ⟨0, .raw 0, switchOn (str "x")⟩] wellFormed_twoRows
    parseCsv_twoRows
  obtain ⟨coll, hcoll⟩ : ∃ coll, Runs.exec (updStep Doubles.exact) (startColl twoWatches)
      [⟨0, .raw 0, switchOn (str "y")⟩, ⟨0, .raw 0, switchOn (str "x")⟩] = some coll := Option.isSome_iff_exists.mp (by decide)
  have hstale : ∀ c ∈ Runs.exec (updStep Doubles.exact) (startColl twoWatches)
      [⟨0, .raw 0, switchOn (str "y")⟩, ⟨0, .raw 0, switchOn (str "x")⟩], ¬ Follows Doubles.exact c := by decide
  exact hstale coll hcoll (hrun.last hcoll).1

end Gnhast.Alarmcoll
