import Gnhast.Lemmas.Alarmcoll
import Gnhast.Lemmas.Memory

/-!
# The table of watches

What `parse_csv` makes of the rows of any file. A row is skipped when it has fewer than six fields, its seventh is read all the same, it may
depend on another from the eighth on, and that one is looked up when there is a ninth, in a table whose later rows are still empty.
-/

namespace Gnhast.Alarmcoll

open CStr

/-! ## Statement -/

/-- A row that `parse_wtype` gives one of the types & and |. -/
def Compares (row : List Str) : Prop :=
  queryFlag (parseWtype (row.getD 1 []) row.length) Wtype.and.num = true ∨
    queryFlag (parseWtype (row.getD 1 []) row.length) Wtype.or.num = true

/-- The first entry of a name. -/
def FirstNamed (watched : List Watch) (name : Str) (j : Nat) : Prop :=
  (∃ watch, watched[j]? = some watch ∧ watch.aluid = some name) ∧
    ∀ j' < j, ∀ watch, watched[j']? = some watch → watch.aluid ≠ some name

/-- All entries have their names, and those of the types & and | refer to the entry that their ninth field names. -/
structure Usable (rows : List (List Str)) (watched : List Watch) : Prop where
  named : ∀ watch ∈ watched, watch.uid ≠ none ∧ watch.aluid ≠ none
  compared : ∀ (i : Nat) (row : List Str) (watch : Watch), rows[i]? = some row → watched[i]? = some watch → watch.is .and = true ∨ watch.is .or = true →
    ∃ name j, row[8]? = some name ∧ watch.comparison = (j : Nat) ∧ FirstNamed watched name j

/-- The row that a row names is itself or before it, or the row is the last and refers to none. -/
def Known (rows : List (List Str)) (i : Nat) (row : List Str) : Prop :=
  Compares row → ∀ name ∈ row[8]?, (∃ j ≤ i, ∃ row' ∈ rows[j]?, row'[4]? = some name) ∨ i + 1 = rows.length

/-- Rows with all fields that are read, and with the ones that & and | need. -/
structure Parsable (rows : List (List Str)) : Prop where
  fields : ∀ row ∈ rows, 7 ≤ row.length
  ninth : ∀ row ∈ rows, Compares row → 9 ≤ row.length
  known : ∀ (i : Nat) (row : List Str), rows[i]? = some row → Known rows i row

/-! ## Looking up -/

/-- A search ends when the name stands in front of the empty rows, or when there are none. -/
theorem exists_findRowFrom_iff {aluid : Str} {k : Int} {done rest : List Watch} (hd : ∀ watch ∈ done, watch.aluid ≠ none)
    (hr : ∀ watch ∈ rest, watch.aluid = none) :
    (∃ row, findRowFrom aluid k (done ++ rest) = .ok row) ↔ (∃ watch ∈ done, watch.aluid = some aluid) ∨ rest = [] := by
  induction done generalizing k with
  | nil =>
    cases rest with
    | nil => exact iff_of_true ⟨-1, rfl⟩ (.inr rfl)
    | cons watch rest =>
      refine iff_of_false ?_ (by simp)
      rintro ⟨row, h⟩
      rw [List.nil_append, findRowFrom, hr watch List.mem_cons_self] at h
      cases h
  | cons watch done ih =>
    obtain ⟨hw, hd⟩ := List.forall_mem_cons.mp hd
    rw [List.cons_append, findRowFrom]
    cases ha : watch.aluid with
    | none => exact absurd ha hw
    | some a =>
      dsimp only
      by_cases he : a = aluid
      · rw [if_pos he]
        exact iff_of_true ⟨_, rfl⟩ (.inl ⟨watch, List.mem_cons_self, ha.trans (congrArg some he)⟩)
      · rw [if_neg he, ih hd, List.exists_mem_cons_iff, ha, Option.some.injEq, or_iff_right he]

variable (F : Doubles)

/-- A row of seven fields or more, field by field. -/
theorem exists_seven {row : List Str} (hlen : 7 ≤ row.length) :
    ∃ a b c d e f g rest, row = a :: b :: c :: d :: e :: f :: g :: rest := by
  rcases row with _ | ⟨a, _ | ⟨b, _ | ⟨c, _ | ⟨d, _ | ⟨e, _ | ⟨f, _ | ⟨g, rest⟩⟩⟩⟩⟩⟩⟩
  any_goals solve | simp at hlen
  exact ⟨a, b, c, d, e, f, g, rest, rfl⟩

/-- Whether a row can be read is up to its comparison row alone. -/
theorem exists_parseRow_iff {now : Int} {n : Nat} {row : List Str} (hlen : 7 ≤ row.length) (watched : List Watch) :
    ∃ watch : Watch, watch.aluid = row[4]? ∧ ((∃ watched', parseRow F now n row watched = .ok watched') ↔
      (Compares row → ∀ name ∈ row[8]?, ∃ r, findRowByAluid name (watched.set n watch) = .ok r)) := by
  obtain ⟨uid, wtype, sev, alchan, aluid, msg, val, rest, rfl⟩ := exists_seven hlen
  · rw [parseRow]
    simp only [List.getElem?_cons_zero, List.getElem?_cons_succ]
    generalize hwatch : parseSpan F rest[0]? _ = watch
    have hnames : watch.aluid = some aluid ∧
        watch.wtype = parseWtype wtype (uid :: wtype :: sev :: alchan :: aluid :: msg :: val :: rest).length := by
      rw [← hwatch]
      exact (parseSpan_spec F _ _).2
    obtain ⟨haluid, htype⟩ := hnames
    refine ⟨watch, haluid, ?_⟩
    have hcompares : Compares (uid :: wtype :: sev :: alchan :: aluid :: msg :: val :: rest) ↔ (watch.is .and || watch.is .or) = true := by
      unfold Compares Watch.is
      rw [Bool.or_eq_true, htype]
      rfl
    rw [hcompares]
    unfold parseComparison
    cases rest[1]? with
    | none =>
      refine iff_of_true ⟨_, rfl⟩ fun _ _ h => ?_
      cases h
    | some name =>
      dsimp only
      split
      · rename_i hc
        rw [forall_prop_of_true hc]
        cases hf : findRowByAluid name (watched.set n watch) with
        | error e =>
          refine iff_of_false ?_ fun h => ?_
          · rintro ⟨_, h⟩
            cases h
          · obtain ⟨r, hr⟩ := h name rfl
            rw [hf] at hr
            cases hr
        | ok r =>
          refine iff_of_true ⟨_, rfl⟩ fun name' hname' => ?_
          cases hname'
          exact ⟨r, hf⟩
      · rename_i hc
        exact iff_of_true ⟨_, rfl⟩ fun h => absurd h hc

/-! ## Reading the rows -/

/-- What a row has left in its entry. -/
structure Entry (rows : List (List Str)) (row : List Str) (watch : Watch) : Prop where
  uid : watch.uid = row[0]?
  aluid : watch.aluid = row[4]?
  types : watch.is .and = true ∨ watch.is .or = true → Compares row
  bare : Compares row → row[8]? = none → watch.is .and = true ∨ watch.is .or = true
  compared : watch.is .and = true ∨ watch.is .or = true → ∀ name ∈ row[8]?, ∃ j : Nat, watch.comparison = j ∧
    (∃ row' ∈ rows[j]?, row'[4]? = some name) ∧ ∀ j' < j, ∀ row' ∈ rows[j']?, row'[4]? ≠ some name

/-- The table once the first rows are read. -/
structure Table (rows : List (List Str)) (n : Nat) (watched : List Watch) : Prop where
  length : watched.length = rows.length
  done : ∀ i < n, ∀ row ∈ rows[i]?, ∃ watch, watched[i]? = some watch ∧ Entry rows row watch
  rest : ∀ i, n ≤ i → ∀ watch ∈ watched[i]?, watch.aluid = none

theorem table_start (rows : List (List Str)) : Table rows 0 (List.replicate rows.length {}) := by
  refine ⟨List.length_replicate, fun i hi => absurd hi (Nat.not_lt_zero i), fun i _ watch hw => ?_⟩
  rw [List.eq_of_mem_replicate (List.mem_of_getElem? hw)]

variable {rows : List (List Str)}

/-- The names in a table are those of the rows that are read. -/
theorem Table.aluid_iff {n : Nat} {watched : List Watch} (h : Table rows n watched) {row : List Str} (hrow : rows[n]? = some row)
    {watch : Watch} (hw : watch.aluid = row[4]?) (j : Nat) (name : Str) :
    (∃ w, (watched.set n watch)[j]? = some w ∧ w.aluid = some name) ↔ j ≤ n ∧ ∃ row' ∈ rows[j]?, row'[4]? = some name := by
  have hn : n < watched.length := by
    rw [h.length]
    exact (List.getElem?_eq_some_iff.mp hrow).1
  rcases Nat.lt_trichotomy j n with hj | rfl | hj
  · rw [List.getElem?_set_ne (by omega), and_iff_right hj.le]
    obtain ⟨row', hrow'⟩ : ∃ row', rows[j]? = some row' := ⟨_, List.getElem?_eq_getElem (by rw [← h.length]; omega)⟩
    obtain ⟨w, hwj, hentry⟩ := h.done j hj row' hrow'
    rw [hwj, hrow']
    constructor
    · rintro ⟨w', hw', ha⟩
      cases hw'
      exact ⟨row', rfl, hentry.aluid.symm.trans ha⟩
    · rintro ⟨row'', hrow'', ha⟩
      cases hrow''
      exact ⟨w, rfl, hentry.aluid.trans ha⟩
  · rw [List.getElem?_set_self hn, hrow, and_iff_right (Nat.le_refl j)]
    constructor
    · rintro ⟨w', hw', ha⟩
      cases hw'
      exact ⟨row, rfl, hw.symm.trans ha⟩
    · rintro ⟨row', hrow', ha⟩
      cases hrow'
      exact ⟨watch, rfl, hw.trans ha⟩
  · refine iff_of_false ?_ fun h' => absurd h'.1 (by omega)
    rintro ⟨w, hwj, ha⟩
    rw [List.getElem?_set_ne (by omega)] at hwj
    rw [h.rest j hj.le w hwj] at ha
    exact nomatch ha

/-- A name is looked up among the rows that are read, and the row itself; what is not found there is compared with an empty row. -/
theorem Table.exists_find_iff (hlen : ∀ row ∈ rows, 7 ≤ row.length) {n : Nat} {watched : List Watch} (h : Table rows n watched)
    {row : List Str} (hrow : rows[n]? = some row) {watch : Watch} (hw : watch.aluid = row[4]?) (name : Str) :
    (∃ r, findRowByAluid name (watched.set n watch) = .ok r) ↔
      (∃ j ≤ n, ∃ row' ∈ rows[j]?, row'[4]? = some name) ∨ n + 1 = rows.length := by
  have hn : n < rows.length := (List.getElem?_eq_some_iff.mp hrow).1
  have hset : (watched.set n watch).length = rows.length := by rw [List.length_set, h.length]
  have hsome : ∀ row ∈ rows, row[4]? ≠ none := by
    intro row' hrow'
    have h7 := hlen row' hrow'
    rw [List.getElem?_eq_getElem (by omega)]
    exact Option.some_ne_none _
  have hdone : ∀ w ∈ (watched.set n watch).take (n + 1), w.aluid ≠ none := by
    intro w hw'
    obtain ⟨i, hi⟩ := List.mem_iff_getElem?.mp hw'
    rw [List.getElem?_take] at hi
    obtain ⟨hlt, hi⟩ := Option.ite_none_right_eq_some.mp hi
    by_cases hin : i = n
    · subst hin
      rw [List.getElem?_set_self (by rw [h.length]; exact hn)] at hi
      cases hi
      rw [hw]
      exact hsome row (List.mem_of_getElem? hrow)
    · rw [List.getElem?_set_ne (Ne.symm hin)] at hi
      have hrowi := List.getElem?_eq_getElem (show i < rows.length by omega)
      obtain ⟨w', hw', hentry⟩ := h.done i (by omega) rows[i] hrowi
      cases hi.symm.trans hw'
      rw [hentry.aluid]
      exact hsome _ (List.mem_of_getElem? hrowi)
  have hrest : ∀ w ∈ (watched.set n watch).drop (n + 1), w.aluid = none := by
    intro w hw'
    obtain ⟨i, hi⟩ := List.mem_iff_getElem?.mp hw'
    rw [List.getElem?_drop, List.getElem?_set_ne (by omega)] at hi
    exact h.rest (n + 1 + i) (by omega) w hi
  have hfind := @exists_findRowFrom_iff name 0 _ _ hdone hrest
  rw [List.take_append_drop, List.drop_eq_nil_iff, hset] at hfind
  unfold findRowByAluid
  rw [hfind]
  refine or_congr ⟨?_, ?_⟩ (by omega)
  · rintro ⟨w, hw', ha⟩
    obtain ⟨j, hj⟩ := List.mem_iff_getElem?.mp (List.mem_of_mem_take hw')
    exact ⟨j, (h.aluid_iff hrow hw j name).mp ⟨w, hj, ha⟩⟩
  · rintro ⟨j, hj⟩
    obtain ⟨w, hwj, ha⟩ := (h.aluid_iff hrow hw j name).mpr hj
    refine ⟨w, List.mem_of_getElem? (i := j) ?_, ha⟩
    rw [List.getElem?_take, if_pos (by omega), hwj]

theorem table_parseRow {now : Int} {n : Nat} {row : List Str} (h7 : 7 ≤ row.length) {watched watched' : List Watch}
    (h : Table rows n watched) (hrow : rows[n]? = some row) (hp : parseRow F now n row watched = .ok watched') :
    Table rows (n + 1) watched' := by
  have hn : n < watched.length := by
    rw [h.length]
    exact (List.getElem?_eq_some_iff.mp hrow).1
  obtain ⟨watch, found, stored, huid, haluid, htype, hcomp, rfl, hs1, hs2, hs3, hs4, -⟩ := parseRow_spec F h7 hp
  obtain ⟨hf1, hf2, hf3, hf4⟩ := parseComparison_spec hcomp
  have his : ∀ p : Wtype, stored.is p = found.is p := by
    intro p
    unfold Watch.is
    rw [hs3]
  have hentry : Entry rows row stored := by
    have hwatch : ∀ p : Wtype, watch.is p = queryFlag (parseWtype (row.getD 1 []) row.length) p.num := by
      intro p
      unfold Watch.is
      rw [htype]
    refine ⟨by rw [hs1, hf1, huid], by rw [hs2, hf2, haluid], fun hc => ?_, fun hc hnone => ?_, fun hc name hname => ?_⟩
    · rw [his, his] at hc
      unfold Compares
      rw [← hwatch, ← hwatch]
      exact hc.imp (hf3 .and) (hf3 .or)
    · rw [hnone] at hcomp
      cases hcomp
      rw [his, his, hwatch, hwatch]
      exact hc
    · rw [his, his] at hc
      rcases hf4 hc with hnone | ⟨name', j, w, hname', hj, hwj, ha, hfirst⟩
      · exact nomatch hnone.symm.trans hname
      · cases hname.symm.trans hname'
        obtain ⟨hjn, hrowj⟩ := (h.aluid_iff hrow haluid j name).mp ⟨w, hwj, ha⟩
        refine ⟨j, hs4.trans hj, hrowj, fun j' hj' row' hrow' ha' => ?_⟩
        obtain ⟨w', hw', ha''⟩ := (h.aluid_iff hrow haluid j' name).mpr ⟨by omega, row', hrow', ha'⟩
        exact hfirst j' hj' w' hw' ha''
  refine ⟨by rw [List.length_set, h.length], fun i hi row' hrow' => ?_, fun i hi w hw => ?_⟩
  · by_cases hin : i = n
    · subst hin
      cases hrow.symm.trans hrow'
      exact ⟨stored, List.getElem?_set_self hn, hentry⟩
    · rw [List.getElem?_set_ne (Ne.symm hin)]
      exact h.done i (by omega) row' hrow'
  · rw [List.getElem?_set_ne (by omega)] at hw
    exact h.rest i (by omega) w hw

/-- The rest of the rows is read when all of them are known. -/
theorem exists_parseRows_iff (hlen : ∀ row ∈ rows, 7 ≤ row.length) {now : Int} {rest : List (List Str)} {n : Nat}
    (hrest : rows.drop n = rest) {watched : List Watch} (h : Table rows n watched) :
    ((∃ watched', parseRows F now n rest watched = .ok watched') ↔ ∀ i ≥ n, ∀ row ∈ rows[i]?, Known rows i row) ∧
      ∀ watched', parseRows F now n rest watched = .ok watched' → Table rows rows.length watched' := by
  induction rest generalizing n watched with
  | nil =>
    have hn := List.drop_eq_nil_iff.mp hrest
    have hnone : ∀ i ≥ n, rows[i]? = none := fun i hi => List.getElem?_eq_none (by omega)
    refine ⟨iff_of_true ⟨watched, rfl⟩ fun i hi row hrow => ?_, fun watched' hp => ?_⟩
    · exact nomatch (hnone i hi).symm.trans hrow
    · cases hp
      refine ⟨h.length, fun i hi => h.done i (by omega), fun i hi w hw => ?_⟩
      exact absurd (List.getElem?_eq_some_iff.mp hw).1 (by rw [h.length]; omega)
  | cons row rest ih =>
    have hrow : rows[n]? = some row := by rw [← List.head?_drop, hrest, List.head?_cons]
    have hdrop : rows.drop (n + 1) = rest := by rw [← List.tail_drop, hrest, List.tail_cons]
    have h7 := hlen row (List.mem_of_getElem? hrow)
    obtain ⟨watch, haluid, hiff⟩ := @exists_parseRow_iff F now n row h7 watched
    simp only [h.exists_find_iff hlen hrow haluid] at hiff
    rw [parseRows]
    constructor
    · constructor
      · rintro ⟨watched', hp⟩ i hi row' hrow'
        obtain ⟨table, htable, hp⟩ := Except.bind_eq_ok.mp hp
        by_cases hin : i = n
        · subst hin
          cases hrow.symm.trans hrow'
          exact hiff.mp ⟨table, htable⟩
        · exact (ih hdrop (table_parseRow F h7 h hrow htable)).1.mp ⟨watched', hp⟩ i (by omega) row' hrow'
      · intro hknown
        obtain ⟨table, htable⟩ := hiff.mpr (hknown n (Nat.le_refl n) row hrow)
        obtain ⟨watched', hp⟩ := (ih hdrop (table_parseRow F h7 h hrow htable)).1.mpr fun i hi => hknown i (by omega)
        exact ⟨watched', Except.bind_eq_ok.mpr ⟨table, htable, hp⟩⟩
    · intro watched' hp
      obtain ⟨table, htable, hp⟩ := Except.bind_eq_ok.mp hp
      exact (ih hdrop (table_parseRow F h7 h hrow htable)).2 watched' hp

/-! ## Short rows -/

/-- A row without a seventh field leaves the table as it is, if it can be read. -/
theorem parseRow_of_short {now : Int} {n : Nat} {row : List Str} (hlen : row.length < 7) {watched watched' : List Watch}
    (h : parseRow F now n row watched = .ok watched') : watched' = watched := by
  unfold parseRow at h
  split at h
  · rename_i uid wtype sev alchan aluid msg rest
    cases rest with
    | nil => exact nomatch h
    | cons val rest =>
      simp only [List.length_cons] at hlen
      omega
  · exact (Except.ok.inj h).symm

/-- Each row has its own entry. -/
theorem parseRow_other {now : Int} {n : Nat} {row : List Str} {watched watched' : List Watch}
    (h : parseRow F now n row watched = .ok watched') {i : Nat} (hi : i ≠ n) : watched'[i]? = watched[i]? := by
  by_cases hlen : 7 ≤ row.length
  · obtain ⟨_, _, stored, -, -, -, -, rfl, -⟩ := parseRow_spec F hlen h
    exact List.getElem?_set_ne (Ne.symm hi)
  · rw [parseRow_of_short F (by omega) h]

theorem parseRows_before {now : Int} {n : Nat} {rows : List (List Str)} {watched watched' : List Watch}
    (h : parseRows F now n rows watched = .ok watched') {i : Nat} (hi : i < n) : watched'[i]? = watched[i]? := by
  induction rows generalizing n watched with
  | nil =>
    cases h
    rfl
  | cons row rows ih =>
    obtain ⟨table, htable, hrest⟩ := Except.bind_eq_ok.mp h
    rw [ih hrest (by omega), parseRow_other F htable (by omega)]

theorem parseRows_short {now : Int} {n : Nat} {rows : List (List Str)} {watched watched' : List Watch}
    (h : parseRows F now n rows watched = .ok watched') {k : Nat} {row : List Str} (hrow : rows[k]? = some row)
    (hlen : row.length < 7) : watched'[n + k]? = watched[n + k]? := by
  induction rows generalizing n watched k with
  | nil => exact nomatch hrow
  | cons row' rows ih =>
    obtain ⟨table, htable, hrest⟩ := Except.bind_eq_ok.mp h
    cases k with
    | zero =>
      cases hrow
      rw [Nat.add_zero, parseRows_before F hrest (by omega), parseRow_of_short F hlen htable]
    | succ k =>
      have hk := ih hrest hrow
      rw [show n + 1 + k = n + (k + 1) by omega] at hk
      rw [hk, parseRow_other F htable (by omega)]

/-! ## Every file -/

/-- A table that can be used has no rows that are short. -/
theorem fields_of_usable {now : Int} {watched : List Watch} (h : parseCsv F now rows = .ok watched) (hu : Usable rows watched) :
    ∀ row ∈ rows, 7 ≤ row.length := by
  intro row hmem
  by_contra hlen
  obtain ⟨k, hk⟩ := List.mem_iff_getElem?.mp hmem
  have hleft := parseRows_short F h hk (by omega)
  rw [Nat.zero_add, List.getElem?_replicate, if_pos (List.getElem?_eq_some_iff.mp hk).1] at hleft
  exact (hu.named _ (List.mem_of_getElem? hleft)).1 rfl

/-- What the entries of a table say when it is complete. -/
theorem usable_of_table (hlen : ∀ row ∈ rows, 7 ≤ row.length) (hninth : ∀ row ∈ rows, Compares row → 9 ≤ row.length)
    {watched : List Watch} (h : Table rows rows.length watched) : Usable rows watched := by
  have hnamed : ∀ (i : Nat) (row : List Str), rows[i]? = some row → ∃ watch, watched[i]? = some watch ∧ Entry rows row watch :=
    fun i row hrow => h.done i (List.getElem?_eq_some_iff.mp hrow).1 row hrow
  refine ⟨fun watch hw => ?_, fun i row watch hrow hw hc => ?_⟩
  · obtain ⟨i, hi⟩ := List.mem_iff_getElem?.mp hw
    have hlt := (List.getElem?_eq_some_iff.mp hi).1
    rw [h.length] at hlt
    obtain ⟨watch', hw', hentry⟩ := hnamed i rows[i] (List.getElem?_eq_getElem hlt)
    cases hi.symm.trans hw'
    have h7 := hlen rows[i] (List.getElem_mem hlt)
    rw [hentry.uid, hentry.aluid, List.getElem?_eq_getElem (by omega), List.getElem?_eq_getElem (by omega)]
    exact ⟨Option.some_ne_none _, Option.some_ne_none _⟩
  · obtain ⟨watch', hw', hentry⟩ := hnamed i row hrow
    cases hw.symm.trans hw'
    have h9 := hninth row (List.mem_of_getElem? hrow) (hentry.types hc)
    obtain ⟨j, hj, ⟨row', hrow', ha⟩, hfirst⟩ := hentry.compared hc row[8] (List.getElem?_eq_getElem (by omega))
    obtain ⟨w, hwj, hentryj⟩ := hnamed j row' hrow'
    refine ⟨row[8], j, List.getElem?_eq_getElem (by omega), hj, ⟨w, hwj, hentryj.aluid.trans ha⟩, fun j' hj' w' hw' ha' => ?_⟩
    have hlt := (List.getElem?_eq_some_iff.mp hw').1
    rw [h.length] at hlt
    obtain ⟨w'', hw'', hentry'⟩ := hnamed j' rows[j'] (List.getElem?_eq_getElem hlt)
    cases hw'.symm.trans hw''
    exact hfirst j' hj' _ (List.getElem?_eq_getElem hlt) (hentry'.aluid.symm.trans ha')

/-- For every file: `parse_csv` reads no field that is not there, compares no name that is missing, and leaves a table that can be used,
exactly when all rows have a seventh field, those of the types & and | a ninth, and this names no later row, and an existing one but for the
last row. -/
theorem parseCsv_usable_iff (now : Int) (rows : List (List Str)) :
    (∃ watched, parseCsv F now rows = .ok watched ∧ Usable rows watched) ↔ Parsable rows := by
  constructor
  · rintro ⟨watched, hp, hu⟩
    have hlen := fields_of_usable F hp hu
    obtain ⟨hiff, htable⟩ := @exists_parseRows_iff F rows hlen now _ _ List.drop_zero _ (table_start rows)
    have ht := htable watched hp
    refine ⟨hlen, fun row hrow hc => ?_, fun i row hrow => hiff.mp ⟨watched, hp⟩ i (Nat.zero_le i) row hrow⟩
    by_contra h9
    obtain ⟨i, hi⟩ := List.mem_iff_getElem?.mp hrow
    obtain ⟨watch, hw, hentry⟩ := ht.done i (List.getElem?_eq_some_iff.mp hi).1 row hi
    have hnone : row[8]? = none := List.getElem?_eq_none (by omega)
    obtain ⟨name, -, hname, -⟩ := hu.compared i row watch hi hw (hentry.bare hc hnone)
    exact nomatch hnone.symm.trans hname
  · intro h
    obtain ⟨hiff, htable⟩ := @exists_parseRows_iff F rows h.fields now _ _ List.drop_zero _ (table_start rows)
    obtain ⟨watched, hp⟩ := hiff.mpr fun i _ row hrow => h.known i row hrow
    exact ⟨watched, hp, usable_of_table h.fields h.ninth (htable watched hp)⟩

/-- A table of two rows, the second of which has eight fields and the type &. -/
theorem not_parseCsv_usable : ¬ ∀ (now : Int) (rows : List (List Str)),
    ∃ watched, parseCsv Doubles.exact now rows = .ok watched ∧ Usable rows watched := by
  intro h
  obtain ⟨watched, hp, hu⟩ := h 0 [[str "freezer", str ">", str "1", str "1", str "hot", str "too hot", str "80"],
    [str "switch", str "&=", str "1", str "1", str "both", str "on and too hot", str "1", str "0"]]
  cases (Except.ok.inj (hp.symm.trans rfl) : watched = _)
  obtain ⟨name, -, hname, -⟩ := hu.compared 1 _ _ rfl rfl (by decide +kernel)
  exact nomatch hname

end Gnhast.Alarmcoll
