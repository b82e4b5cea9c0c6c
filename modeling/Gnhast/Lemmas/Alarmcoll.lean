import Gnhast.Alarmcoll
import Gnhast.Lib.Graph
import Gnhast.Lib.Sweep
import Mathlib.Data.List.GetD

/-!
# The rows of a watch table

What `parse_wtype` sets, flag by flag, and what `parse_csv` makes of well-formed rows: rows that all name a device, have no jitter
test, and depend on rows in front of them only (`rowsOk_parseCsv`).
-/

namespace Gnhast.Alarmcoll

open CStr

/-! ## Flags -/

theorem queryFlag_eq (xyz : BitVec 32) (p : Nat) : queryFlag xyz p = xyz.getLsbD (p % 32) := by
  have hp : p % 32 < 32 := Nat.mod_lt _ (by decide)
  rw [queryFlag]
  generalize p % 32 = k at hp
  by_cases h : xyz.getLsbD k = true
  · rw [h, bne_iff_ne]
    intro h0
    have hk : (xyz &&& 1#32 <<< k).getLsbD k = false := by
      rw [h0]
      exact BitVec.getLsbD_zero
    rw [BitVec.getLsbD_and, h] at hk
    simp [hp] at hk
  · rw [Bool.not_eq_true] at h
    rw [h, bne_eq_false_iff_eq]
    apply BitVec.eq_of_getLsbD_eq
    intro i hi
    by_cases hik : i = k
    · subst hik
      simp [h]
    · simp
      omega

/-- A flag after another one, or the same, was set. -/
theorem queryFlag_setFlag (xyz : BitVec 32) (p q : Wtype) :
    queryFlag (setFlag xyz p.num) q.num = (queryFlag xyz q.num || decide (p = q)) := by
  rw [queryFlag_eq, queryFlag_eq, setFlag, BitVec.getLsbD_or]
  cases p <;> cases q <;> rfl

/-- A flag after another one, or the same, was cleared. -/
theorem queryFlag_clearFlag (xyz : BitVec 32) (p q : Wtype) :
    queryFlag (clearFlag xyz p.num) q.num = (queryFlag xyz q.num && decide (p ≠ q)) := by
  rw [queryFlag_eq, queryFlag_eq, clearFlag, BitVec.getLsbD_and]
  cases p <;> cases q <;> rfl

theorem queryFlag_of_setFlag {xyz : BitVec 32} {p q : Wtype} (h : queryFlag (setFlag xyz p.num) q.num = true) :
    queryFlag xyz q.num = true ∨ p = q := by
  simpa [queryFlag_setFlag] using h

theorem queryFlag_of_clearFlag {xyz : BitVec 32} {p q : Wtype} (h : queryFlag (clearFlag xyz p.num) q.num = true) :
    queryFlag xyz q.num = true := by
  rw [queryFlag_clearFlag, Bool.and_eq_true] at h
  exact h.1

/-- One character sets the flag that it is the sign of, or none of jitter, & and |. -/
theorem parseWtypeChar_cases (numfields : Nat) (wtype : BitVec 32) (c : Byte) :
    (∀ q : Wtype, q = .jitter ∨ q = .and ∨ q = .or → queryFlag (parseWtypeChar numfields wtype c) q.num = true →
      queryFlag wtype q.num = true) ∨
    c = chJ ∧ parseWtypeChar numfields wtype c = setFlag wtype Wtype.jitter.num ∨
    c = chAmp ∧ queryFlag wtype Wtype.or.num = false ∧ parseWtypeChar numfields wtype c = setFlag wtype Wtype.and.num ∨
    c = chBar ∧ queryFlag wtype Wtype.and.num = false ∧ parseWtypeChar numfields wtype c = setFlag wtype Wtype.or.num := by
  have hset : ∀ {w : BitVec 32} {p q : Wtype}, p ≠ .jitter ∧ p ≠ .and ∧ p ≠ .or → q = .jitter ∨ q = .and ∨ q = .or →
      queryFlag (setFlag w p.num) q.num = true → queryFlag w q.num = true := by
    rintro w p q ⟨hj, ha, ho⟩ hq h
    refine (queryFlag_of_setFlag h).resolve_right ?_
    rintro rfl
    exact hq.elim hj fun hq => hq.elim ha ho
  have hzero : wtype + BitVec.ofNat 32 Wtype.gt.num = wtype := by simp [Wtype.num]
  generalize hw : parseWtypeChar numfields wtype c = w
  rw [parseWtypeChar, hzero] at hw
  by_cases hgt : c = chGt
  · rw [if_pos hgt] at hw
    split at hw <;> subst hw <;> exact .inl fun q => hset (by decide)
  rw [if_neg hgt] at hw
  by_cases hlt : c = chLt
  · rw [if_pos hlt] at hw
    split at hw <;> subst hw <;> exact .inl fun q => hset (by decide)
  rw [if_neg hlt] at hw
  by_cases heq : c = chEq
  · rw [if_pos heq] at hw
    split at hw
    · subst hw
      exact .inl fun q hq h => queryFlag_of_clearFlag (hset (by decide) hq h)
    · split at hw
      · subst hw
        exact .inl fun q hq h => queryFlag_of_clearFlag (hset (by decide) hq h)
      · subst hw
        exact .inl fun q => hset (by decide)
  rw [if_neg heq] at hw
  by_cases hj : c = chJ
  · rw [if_pos hj] at hw
    exact .inr (.inl ⟨hj, hw.symm⟩)
  rw [if_neg hj] at hw
  by_cases hamp : c = chAmp
  · rw [if_pos hamp] at hw
    split at hw
    · exact .inl fun _ _ h => hw ▸ h
    · rename_i hor
      split at hw
      · exact .inl fun _ _ h => hw ▸ h
      · exact .inr (.inr (.inl ⟨hamp, eq_false_of_ne_true hor, hw.symm⟩))
  rw [if_neg hamp] at hw
  by_cases hbar : c = chBar
  · rw [if_pos hbar] at hw
    split at hw
    · exact .inl fun _ _ h => hw ▸ h
    · rename_i hand
      split at hw
      · exact .inl fun _ _ h => hw ▸ h
      · exact .inr (.inr (.inr ⟨hbar, eq_false_of_ne_true hand, hw.symm⟩))
  rw [if_neg hbar] at hw
  split at hw
  · split at hw
    · exact .inl fun _ _ h => hw ▸ h
    · subst hw
      exact .inl fun q => hset (by decide)
  · exact .inl fun _ _ h => hw ▸ h

/-- One character sets the flag of jitter, of & or of | only when it is their sign, and never both of the last two. -/
theorem flag_parseWtypeChar (numfields : Nat) (wtype : BitVec 32) (c : Byte) :
    (queryFlag (parseWtypeChar numfields wtype c) Wtype.jitter.num = true →
      queryFlag wtype Wtype.jitter.num = true ∨ c = chJ) ∧
    (queryFlag (parseWtypeChar numfields wtype c) Wtype.and.num = true →
      queryFlag wtype Wtype.and.num = true ∨ c = chAmp ∧ queryFlag wtype Wtype.or.num = false) ∧
    (queryFlag (parseWtypeChar numfields wtype c) Wtype.or.num = true →
      queryFlag wtype Wtype.or.num = true ∨ c = chBar ∧ queryFlag wtype Wtype.and.num = false) := by
  have hother : ∀ {p q : Wtype}, p ≠ q → queryFlag (setFlag wtype p.num) q.num = true → queryFlag wtype q.num = true :=
    fun hpq h => (queryFlag_of_setFlag h).resolve_right hpq
  rcases parseWtypeChar_cases numfields wtype c with h | ⟨hc, h⟩ | ⟨hc, hor, h⟩ | ⟨hc, hand, h⟩
  · exact ⟨fun hj => .inl (h .jitter (.inl rfl) hj), fun ha => .inl (h .and (.inr (.inl rfl)) ha),
      fun ho => .inl (h .or (.inr (.inr rfl)) ho)⟩
  · rw [h]
    exact ⟨fun _ => .inr hc, fun ha => .inl (hother (by decide) ha), fun ho => .inl (hother (by decide) ho)⟩
  · rw [h]
    exact ⟨fun hj => .inl (hother (by decide) hj), fun _ => .inr ⟨hc, hor⟩, fun ho => .inl (hother (by decide) ho)⟩
  · rw [h]
    exact ⟨fun hj => .inl (hother (by decide) hj), fun ha => .inl (hother (by decide) ha), fun _ => .inr ⟨hc, hand⟩⟩

/-- The flags of a watch type that `parse_csv` and `coll_upd_cb` look at beside the simple tests. -/
theorem flag_parseWtype (field : Str) (numfields : Nat) :
    (queryFlag (parseWtype field numfields) Wtype.jitter.num = true → chJ ∈ field) ∧
    (queryFlag (parseWtype field numfields) Wtype.and.num = true → chAmp ∈ field) ∧
    (queryFlag (parseWtype field numfields) Wtype.or.num = true → chBar ∈ field) ∧
    ¬ (queryFlag (parseWtype field numfields) Wtype.and.num = true ∧
      queryFlag (parseWtype field numfields) Wtype.or.num = true) := by
  rw [parseWtype]
  induction field using List.reverseRecOn with
  | nil => simp [queryFlag]
  | append_singleton field c ih =>
    rw [List.foldl_append, List.foldl_cons, List.foldl_nil]
    obtain ⟨hj, ha, ho, hao⟩ := ih
    obtain ⟨hcj, hca, hco⟩ := flag_parseWtypeChar numfields (field.foldl (parseWtypeChar numfields) 0) c
    refine ⟨fun h => ?_, fun h => ?_, fun h => ?_, fun h => ?_⟩
    · rcases hcj h with h | h
      · exact List.mem_append_left _ (hj h)
      · exact List.mem_append_right _ (List.mem_singleton.mpr h.symm)
    · rcases hca h with h | h
      · exact List.mem_append_left _ (ha h)
      · exact List.mem_append_right _ (List.mem_singleton.mpr h.1.symm)
    · rcases hco h with h | h
      · exact List.mem_append_left _ (ho h)
      · exact List.mem_append_right _ (List.mem_singleton.mpr h.1.symm)
    · have hne : chAmp ≠ chBar := by decide
      rcases hca h.1 with h1 | h1 <;> rcases hco h.2 with h2 | h2
      · exact hao ⟨h1, h2⟩
      · rw [h2.2] at h1
        cases h1
      · rw [h1.2] at h2
        cases h2
      · exact hne (h1.1.symm.trans h2.1)

/-! ## Well-formed rows -/

/-- The type of a row has & or |. -/
def Depends (row : List Str) : Prop := chAmp ∈ row.getD 1 [] ∨ chBar ∈ row.getD 1 []
deriving Decidable

/-- The row that a row is compared with: the first one named by its ninth field. -/
def comparisonOf (rows : List (List Str)) (row : List Str) : Option Nat :=
  row[8]?.bind fun name => rows.findIdx? fun r => r[4]? = some name

/-- The row that a row depends on, if its type has & or |. -/
def comparedWith (rows : List (List Str)) (i : Nat) : List Nat :=
  match rows[i]? with
  | some row => if Depends row then (comparisonOf rows row).toList else []
  | none => []

/-- Rows with all the fields that are read, no jitter, and comparison rows that exist and do not go in a circle. -/
structure WellFormed (rows : List (List Str)) : Prop where
  fields : ∀ row ∈ rows, 7 ≤ row.length
  steady : ∀ row ∈ rows, chJ ∉ row.getD 1 []
  compared : ∀ row ∈ rows, Depends row → (comparisonOf rows row).isSome
  acyclic : Graph.Acyclic (comparedWith rows)

/-! ## Rows of a table -/

/-- A row that names a device, has no jitter test and not both & and |, and depends on a row in front of it only. -/
structure RowOk (i : Nat) (watch : Watch) : Prop where
  uid : watch.uid.isSome
  steady : watch.is .jitter = false
  single : ¬ (watch.is .and = true ∧ watch.is .or = true)
  before : watch.is .and = true ∨ watch.is .or = true → watch.comparison.toNat < i

/-- A table all of whose rows are so. -/
def RowsOk (watched : List Watch) : Prop := ∀ i watch, watched[i]? = some watch → RowOk i watch

/-- The row that `find_row_by_aluid` finds is the first of its name. -/
theorem findRowFrom_spec {aluid : Str} {k row : Int} {watched : List Watch} (h : findRowFrom aluid k watched = .ok row) :
    row = -1 ∨ ∃ (i : Nat) (watch : Watch), row = k + i ∧ watched[i]? = some watch ∧ watch.aluid = some aluid ∧
      ∀ j < i, ∀ w, watched[j]? = some w → w.aluid ≠ some aluid := by
  induction watched generalizing k with
  | nil =>
    cases h
    exact Or.inl rfl
  | cons watch watched ih =>
    rw [findRowFrom] at h
    cases hn : watch.aluid with
    | none =>
      rw [hn] at h
      cases h
    | some a =>
      simp only [hn] at h
      split at h
      · rename_i ha
        cases h
        exact Or.inr ⟨0, watch, by simp, rfl, by rw [hn, ha], fun j hj => absurd hj (Nat.not_lt_zero j)⟩
      · rename_i ha
        rcases ih h with h1 | ⟨i, w, rfl, h1, h2, h3⟩
        · exact Or.inl h1
        · refine Or.inr ⟨i + 1, w, by push_cast; omega, h1, h2, fun j hj w' hw' => ?_⟩
          cases j with
          | zero =>
            cases hw'
            rw [hn]
            exact fun he => ha (Option.some.inj he)
          | succ j => exact h3 j (by omega) w' hw'

/-- What looking for the comparison row leaves of a row. -/
theorem parseComparison_spec {watched : List Watch} {field : Option Str} {watch watch' : Watch}
    (h : parseComparison watched field watch = .ok watch') :
    watch'.uid = watch.uid ∧ watch'.aluid = watch.aluid ∧ (∀ p : Wtype, watch'.is p = true → watch.is p = true) ∧
      (watch'.is .and = true ∨ watch'.is .or = true → field = none ∨
        ∃ (name : Str) (i : Nat) (w : Watch), field = some name ∧ watch'.comparison = i ∧ watched[i]? = some w ∧
          w.aluid = some name ∧ ∀ j < i, ∀ w', watched[j]? = some w' → w'.aluid ≠ some name) := by
  cases field with
  | none =>
    cases h
    exact ⟨rfl, rfl, fun _ hp => hp, fun _ => Or.inl rfl⟩
  | some name =>
    rw [parseComparison] at h
    by_cases hd : (watch.is .and || watch.is .or) = true
    · rw [if_pos hd] at h
      cases hf : findRowByAluid name watched with
      | error e =>
        rw [hf] at h
        cases h
      | ok row =>
        rw [hf] at h
        by_cases hr : row = -1
        · simp only [Except.map, hr, if_true, Except.ok.injEq] at h
          subst h
          refine ⟨rfl, rfl, fun p hp => ?_, fun hp => ?_⟩
          · rw [Watch.is, queryFlag_clearFlag, queryFlag_clearFlag] at hp
            exact (Bool.and_eq_true_iff.mp (Bool.and_eq_true_iff.mp hp).1).1
          · simp [Watch.is, queryFlag_clearFlag] at hp
        · simp only [Except.map, hr, if_false, Except.ok.injEq] at h
          subst h
          refine ⟨rfl, rfl, fun _ hp => hp, fun _ => Or.inr ?_⟩
          rcases findRowFrom_spec hf with h1 | ⟨i, w, h1, h2, h3, h4⟩
          · exact absurd h1 hr
          · exact ⟨name, i, w, rfl, by simpa using h1, h2, h3, h4⟩
    · rw [if_neg hd] at h
      cases h
      rw [Bool.or_eq_true] at hd
      exact ⟨rfl, rfl, fun _ hp => hp, fun hp => absurd hp hd⟩

/-! ## Reading the rows -/

/-- The table once the first rows are parsed: the others are still empty. -/
structure Filled (rows : List (List Str)) (n : Nat) (watched : List Watch) : Prop where
  length : watched.length = rows.length
  done : ∀ i < n, ∀ watch, watched[i]? = some watch → RowOk i watch ∧ ∀ row, rows[i]? = some row → watch.aluid = row[4]?
  rest : ∀ i, n ≤ i → ∀ watch, watched[i]? = some watch → watch.aluid = none
  quiet : ∀ watch ∈ watched, watch.fired = false

/-- A row of well-formed rows that depends on another has a ninth field, and the row found for it is in front of it. -/
theorem comparison_before {rows : List (List Str)} (hw : WellFormed rows) {n : Nat} {row : List Str} (hrow : rows[n]? = some row)
    (hd : Depends row) {watched : List Watch} (hf : Filled rows n watched) {watch : Watch} (ha : watch.aluid = row[4]?)
    {name : Str} (hname : row[8]? = some name) {i : Nat} {w : Watch} (hi : (watched.set n watch)[i]? = some w)
    (hwname : w.aluid = some name) (hfirst : ∀ j < i, ∀ w', (watched.set n watch)[j]? = some w' → w'.aluid ≠ some name) :
    i < n := by
  have hn : n < rows.length := (List.getElem?_eq_some_iff.mp hrow).1
  rcases Nat.lt_trichotomy i n with h | h | h
  · exact h
  · subst h
    rw [List.getElem?_set_self (by rw [hf.length]; exact hn)] at hi
    cases hi
    -- the row would be the first of the name it is compared with
    have hidx : comparisonOf rows row = some i := by
      rw [comparisonOf, hname, Option.bind_some, List.findIdx?_eq_some_iff_getElem]
      refine ⟨hn, ?_, fun j hj => ?_⟩
      · have hri : rows[i] = row := (List.getElem?_eq_some_iff.mp hrow).2
        rw [hri, ← ha, hwname]
        exact decide_eq_true rfl
      · have hj' : j < watched.length := by
          rw [hf.length]
          omega
        have hwj := hfirst j hj watched[j] (by rw [List.getElem?_set_ne (by omega), List.getElem?_eq_getElem hj'])
        have hrj := (hf.done j hj _ (List.getElem?_eq_getElem hj')).2 _ (List.getElem?_eq_getElem (by omega : j < rows.length))
        rw [hrj] at hwj
        simpa using hwj
    have hedge : Graph.Edge (comparedWith rows) i i := by
      rw [Graph.Edge, comparedWith, hrow]
      simp only [if_pos hd, hidx]
      exact List.mem_singleton.mpr rfl
    exact absurd (Relation.TransGen.single hedge) (hw.acyclic i)
  · rw [List.getElem?_set_ne (by omega)] at hi
    rw [hf.rest i h.le w hi] at hwname
    cases hwname

/-- A timespan changes neither the names of a row nor its type. -/
theorem parseSpan_spec (F : Doubles) (field : Option Str) (watch : Watch) :
    (parseSpan F field watch).uid = watch.uid ∧ (parseSpan F field watch).aluid = watch.aluid ∧
      (parseSpan F field watch).wtype = watch.wtype := by
  unfold parseSpan
  split
  · split <;> exact ⟨rfl, rfl, rfl⟩
  · exact ⟨rfl, rfl, rfl⟩

/-- What reading one row leaves in the table, when the row has a seventh field: an entry named and typed by the row, with the
comparison row that is found for it. -/
theorem parseRow_spec (F : Doubles) {now : Int} {n : Nat} {row : List Str} (hlen : 7 ≤ row.length) {watched watched' : List Watch}
    (h : parseRow F now n row watched = .ok watched') :
    ∃ watch found stored : Watch, watch.uid = row[0]? ∧ watch.aluid = row[4]? ∧
      watch.wtype = parseWtype (row.getD 1 []) row.length ∧ parseComparison (watched.set n watch) row[8]? watch = .ok found ∧
      watched' = watched.set n stored ∧ stored.uid = found.uid ∧ stored.aluid = found.aluid ∧ stored.wtype = found.wtype ∧
      stored.comparison = found.comparison ∧ stored.fired = false := by
  match row, hlen with
  | uid :: wtype :: sev :: alchan :: aluid :: msg :: val :: rest, _ =>
    rw [parseRow] at h
    simp only [List.getElem?_cons_zero, List.getElem?_cons_succ] at h
    generalize hwatch : parseSpan F rest[0]? _ = watch at h
    have hnames : watch.uid = some uid ∧ watch.aluid = some aluid ∧
        watch.wtype = parseWtype wtype (uid :: wtype :: sev :: alchan :: aluid :: msg :: val :: rest).length := by
      rw [← hwatch]
      exact parseSpan_spec F _ _
    cases hp : parseComparison (watched.set n watch) rest[1]? watch with
    | error e =>
      rw [hp] at h
      cases h
    | ok found =>
      rw [hp] at h
      cases h
      exact ⟨watch, found, _, hnames.1, hnames.2.1, hnames.2.2, hp, rfl, rfl, rfl, rfl, rfl, rfl⟩

/-- One row is read. -/
theorem filled_parseRow (F : Doubles) {now : Int} {rows : List (List Str)} (hw : WellFormed rows) {n : Nat} {row : List Str}
    (hrow : rows[n]? = some row) {watched watched' : List Watch} (hf : Filled rows n watched)
    (h : parseRow F now n row watched = .ok watched') : Filled rows (n + 1) watched' := by
  have hmem : row ∈ rows := List.mem_of_getElem? hrow
  have hn : n < watched.length := by
    rw [hf.length]
    exact (List.getElem?_eq_some_iff.mp hrow).1
  obtain ⟨watch, found, stored, huid, haluid, htype, hp, rfl, hs1, hs2, hs3, hs4, hs5⟩ := parseRow_spec F (hw.fields row hmem) h
  obtain ⟨hf1, hf2, hf3, hf4⟩ := parseComparison_spec hp
  obtain ⟨hfj, hfa, hfo, hfs⟩ := flag_parseWtype (row.getD 1 []) row.length
  have htypes : ∀ p : Wtype, stored.is p = true → queryFlag (parseWtype (row.getD 1 []) row.length) p.num = true := by
    intro p hsp
    rw [Watch.is, hs3] at hsp
    have hwp := hf3 p hsp
    rwa [Watch.is, htype] at hwp
  have hok : RowOk n stored := by
    refine ⟨?_, ?_, ?_, ?_⟩
    · have h0 : 0 < row.length := by
        have := hw.fields row hmem
        omega
      rw [hs1, hf1, huid, List.getElem?_eq_getElem h0]
      rfl
    · exact Bool.eq_false_iff.mpr fun hj => hw.steady row hmem (hfj (htypes .jitter hj))
    · exact fun hao => hfs ⟨htypes .and hao.1, htypes .or hao.2⟩
    · intro hao
      have hd : Depends row := hao.imp (fun ha => hfa (htypes .and ha)) fun ho => hfo (htypes .or ho)
      have hao' : found.is .and = true ∨ found.is .or = true := by
        rwa [Watch.is, Watch.is, hs3] at hao
      rcases hf4 hao' with hnone | ⟨name, i, w, hname, hcomp, hi, hwname, hfirst⟩
      · have hc := hw.compared row hmem hd
        rw [comparisonOf, hnone] at hc
        cases hc
      · rw [hs4, hcomp, Int.toNat_natCast]
        exact comparison_before hw hrow hd hf haluid hname hi hwname hfirst
  refine ⟨by rw [List.length_set, hf.length], fun i hi w hw' => ?_, fun i hi w hw' => ?_, fun w hw' => ?_⟩
  · by_cases hin : i = n
    · subst hin
      rw [List.getElem?_set_self hn] at hw'
      cases hw'
      refine ⟨hok, fun row' hrow' => ?_⟩
      rw [hrow] at hrow'
      cases hrow'
      rw [hs2, hf2, haluid]
    · rw [List.getElem?_set_ne (by omega)] at hw'
      exact hf.done i (by omega) w hw'
  · rw [List.getElem?_set_ne (by omega)] at hw'
    exact hf.rest i (by omega) w hw'
  · rcases List.mem_or_eq_of_mem_set hw' with hw' | rfl
    · exact hf.quiet w hw'
    · exact hs5

theorem filled_parseRows (F : Doubles) {now : Int} {allRows : List (List Str)} (hw : WellFormed allRows) {rows : List (List Str)}
    {n : Nat} (hrows : allRows.drop n = rows) {watched watched' : List Watch} (hf : Filled allRows n watched)
    (h : parseRows F now n rows watched = .ok watched') : Filled allRows allRows.length watched' := by
  induction rows generalizing n watched with
  | nil =>
    cases h
    have hn := List.drop_eq_nil_iff.mp hrows
    refine ⟨hf.length, fun i hi w hw' => hf.done i (by omega) w hw', fun i hi w hw' => ?_, hf.quiet⟩
    have hlt := (List.getElem?_eq_some_iff.mp hw').1
    rw [hf.length] at hlt
    omega
  | cons row rows ih =>
    rw [parseRows] at h
    cases hp : parseRow F now n row watched with
    | error e =>
      rw [hp] at h
      cases h
    | ok table =>
      rw [hp] at h
      have hrow : allRows[n]? = some row := by
        rw [← List.head?_drop, hrows, List.head?_cons]
      have hdrop : allRows.drop (n + 1) = rows := by
        rw [← List.tail_drop, hrows, List.tail_cons]
      exact ih hdrop (filled_parseRow F hw hrow hf hp) h

/-- The table that `parse_csv` makes of well-formed rows, none of which has fired. -/
theorem rowsOk_parseCsv (F : Doubles) {now : Int} {rows : List (List Str)} (hw : WellFormed rows) {watched : List Watch}
    (h : parseCsv F now rows = .ok watched) : RowsOk watched ∧ ∀ watch ∈ watched, watch.fired = false := by
  have hf : Filled rows 0 (List.replicate rows.length {}) := by
    refine ⟨List.length_replicate, fun i hi => absurd hi (Nat.not_lt_zero i), fun i _ w hw' => ?_, fun w hw' => ?_⟩
    · rw [List.eq_of_mem_replicate (List.mem_of_getElem? hw')]
    · rw [List.eq_of_mem_replicate hw']
  have hfin := filled_parseRows F hw List.drop_zero hf h
  refine ⟨fun i w hw' => ?_, hfin.quiet⟩
  have hlt := (List.getElem?_eq_some_iff.mp hw').1
  rw [hfin.length] at hlt
  exact (hfin.done i hlt w hw').1

end Gnhast.Alarmcoll
