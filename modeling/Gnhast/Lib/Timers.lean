import Mathlib.Data.List.MinMax
import Mathlib.Tactic.Common

/-!
# Timers that set a value

Each armed timer sets a value when it fires. Timers fire when they are due, in the order of their times; those of one time fire in no
given order. `Elapses` is what the value can be at a later time: that of a timer among the last that were due. `valueAt` is the value
that a list of changes in the order of time prescribes, and the timers armed for the changes to come realise it.
-/

namespace Timers

variable {α : Type}

/-- A timer, or a change: its time and the value that it sets. -/
structure Timer (α : Type) where
  time : ℤ
  val : α
deriving Repr, DecidableEq

/-- With some timers armed and the value `v`, the value at the time `t` can be `w`. -/
inductive Elapses (t : ℤ) : List (Timer α) → α → α → Prop
  | rest {ps : List (Timer α)} {v : α} : (∀ tm ∈ ps, t < tm.time) → Elapses t ps v v
  | fire {ps rest : List (Timer α)} {tm : Timer α} {v w : α} : ps.Perm (tm :: rest) → tm.time ≤ t → (∀ tm' ∈ rest, tm.time ≤ tm'.time) →
      Elapses t rest tm.val w → Elapses t ps v w

/-- A timer that is due at a time, and none that is due is later. -/
def Latest (t : ℤ) (ps : List (Timer α)) (tm : Timer α) : Prop := tm ∈ ps ∧ tm.time ≤ t ∧ ∀ tm' ∈ ps, tm'.time ≤ t → tm'.time ≤ tm.time

/-! ## What the value can be -/

/-- The value is that of before, or of a latest timer. -/
theorem Elapses.cases {t : ℤ} {ps : List (Timer α)} {v w : α} (h : Elapses t ps v w) :
    (∀ tm ∈ ps, t < tm.time) ∧ w = v ∨ ∃ tm, Latest t ps tm ∧ w = tm.val := by
  induction h with
  | rest hnone => exact .inl ⟨hnone, rfl⟩
  | @fire ps rest tm v w hperm hdue hfirst _ ih =>
    right
    rcases ih with ⟨hnone, hw⟩ | ⟨tm', ⟨hmem, hdue', hlast⟩, hw⟩
    · refine ⟨tm, ⟨hperm.mem_iff.mpr List.mem_cons_self, hdue, fun x hx hxt => ?_⟩, hw⟩
      rcases List.mem_cons.mp (hperm.mem_iff.mp hx) with rfl | hx
      · exact Int.le_refl _
      · have := hnone x hx
        omega
    · refine ⟨tm', ⟨hperm.mem_iff.mpr (List.mem_cons_of_mem _ hmem), hdue', fun x hx hxt => ?_⟩, hw⟩
      rcases List.mem_cons.mp (hperm.mem_iff.mp hx) with rfl | hx
      · exact hfirst tm' hmem
      · exact hlast x hx hxt

/-- A list with a member has an earliest one, and is that and the others. -/
theorem exists_earliest {ps : List (Timer α)} {d : Timer α} (hd : d ∈ ps) :
    ∃ m rest, ps.Perm (m :: rest) ∧ ∀ x ∈ ps, m.time ≤ x.time := by
  cases hm : ps.argmin Timer.time with
  | none =>
    rw [List.argmin_eq_none] at hm
    rw [hm] at hd
    cases hd
  | some m =>
    obtain ⟨pre, post, hps⟩ := List.append_of_mem (List.argmin_mem hm)
    exact ⟨m, pre ++ post, hps ▸ List.perm_middle, fun x hx => List.le_of_mem_argmin hx hm⟩

/-- Each latest timer can be the last to fire. -/
theorem Latest.elapses {t : ℤ} {ps : List (Timer α)} {tm : Timer α} (h : Latest t ps tm) (v : α) : Elapses t ps v tm.val := by
  generalize hn : ps.length = n
  induction n generalizing ps v with
  | zero =>
    rw [List.length_eq_zero_iff] at hn
    rw [hn] at h
    cases h.1
  | succ n ih =>
    obtain ⟨hmem, hdue, hlast⟩ := h
    obtain ⟨pre, post, hps⟩ := List.append_of_mem hmem
    have hperm : ps.Perm (tm :: (pre ++ post)) := hps ▸ List.perm_middle
    by_cases hothers : ∃ d ∈ pre ++ post, d.time ≤ t
    · -- the earliest of the others goes first
      obtain ⟨d, hd, hdt⟩ := hothers
      obtain ⟨m, rest, hperm', hmin⟩ := exists_earliest hd
      have hall : ps.Perm (m :: tm :: rest) := (hperm.trans (hperm'.cons tm)).trans (List.Perm.swap m tm rest)
      have hmd := hmin d hd
      have hdtm := hlast d (hperm.mem_iff.mpr (List.mem_cons_of_mem _ hd)) hdt
      refine .fire hall (by omega) ?_ (ih ⟨List.mem_cons_self, hdue, fun x hx => ?_⟩ m.val ?_)
      · intro x hx
        rcases List.mem_cons.mp hx with rfl | hx
        · omega
        · exact hmin x (hperm'.mem_iff.mpr (List.mem_cons_of_mem _ hx))
      · exact hlast x (hall.mem_iff.mpr (List.mem_cons_of_mem _ hx))
      · have := hall.length_eq
        simp only [List.length_cons] at this ⊢
        omega
    · have hnone : ∀ x ∈ pre ++ post, t < x.time := fun x hx => Int.not_le.mp fun hxt => hothers ⟨x, hx, hxt⟩
      refine .fire hperm hdue (fun x hx => ?_) (.rest hnone)
      have := hnone x hx
      omega

/-- When a timer is due it can be the last to fire. -/
theorem elapses_of_mem {ps : List (Timer α)} {tm : Timer α} (h : tm ∈ ps) (v : α) : Elapses tm.time ps v tm.val :=
  Latest.elapses ⟨h, Int.le_refl _, fun _ _ hle => hle⟩ v

/-! ## The value that is prescribed -/

/-- The value at a time: that of the last change not later than it, of a list in the order of time, or else the first value. -/
def valueAt (v : α) (evs : List (Timer α)) (t : ℤ) : α := evs.foldl (fun v e => if e.time ≤ t then e.val else v) v

theorem valueAt_cons (v : α) (e : Timer α) (evs : List (Timer α)) (t : ℤ) :
    valueAt v (e :: evs) t = valueAt (if e.time ≤ t then e.val else v) evs t := rfl

theorem valueAt_append (v : α) (xs ys : List (Timer α)) (t : ℤ) : valueAt v (xs ++ ys) t = valueAt (valueAt v xs t) ys t :=
  List.foldl_append

theorem valueAt_before {evs : List (Timer α)} {t : ℤ} (h : ∀ e ∈ evs, t < e.time) (v : α) : valueAt v evs t = v := by
  induction evs with
  | nil => rfl
  | cons e evs ih =>
    have he := h e List.mem_cons_self
    rw [valueAt_cons, if_neg (by omega)]
    exact ih fun x hx => h x (List.mem_cons_of_mem _ hx)

/-- The value is the first one or that of a change. -/
theorem valueAt_cases (v : α) (evs : List (Timer α)) (t : ℤ) : valueAt v evs t = v ∨ ∃ e ∈ evs, valueAt v evs t = e.val := by
  induction evs generalizing v with
  | nil => exact .inl rfl
  | cons e evs ih =>
    rw [valueAt_cons]
    rcases ih (if e.time ≤ t then e.val else v) with h | ⟨x, hx, h⟩
    · rw [h]
      split
      · exact .inr ⟨e, List.mem_cons_self, rfl⟩
      · exact .inl rfl
    · exact .inr ⟨x, List.mem_cons_of_mem _ hx, h⟩

/-- The value changes only where there is a change. -/
theorem valueAt_congr {evs : List (Timer α)} {t t' : ℤ} (h : ∀ e ∈ evs, e.time ≤ t ↔ e.time ≤ t') (v : α) :
    valueAt v evs t = valueAt v evs t' := by
  induction evs generalizing v with
  | nil => rfl
  | cons e evs ih =>
    rw [valueAt_cons, valueAt_cons, ih fun x hx => h x (List.mem_cons_of_mem _ hx)]
    simp only [h e List.mem_cons_self]

/-- The value behind a change that is due, when those behind it are not. -/
theorem valueAt_split {pre post : List (Timer α)} {e : Timer α} {t : ℤ} (he : e.time ≤ t) (hpost : ∀ x ∈ post, t < x.time) (v : α) :
    valueAt v (pre ++ e :: post) t = e.val := by
  rw [valueAt_append, valueAt_cons, if_pos he]
  exact valueAt_before hpost _

/-- The value of a change that is due, when those of later times are not. -/
theorem valueAt_mem {evs : List (Timer α)} (hs : evs.Pairwise fun a b => a.time < b.time) {e : Timer α} (he : e ∈ evs) {t : ℤ}
    (hdue : e.time ≤ t) (hlater : ∀ x ∈ evs, e.time < x.time → t < x.time) (v : α) : valueAt v evs t = e.val := by
  obtain ⟨pre, post, rfl⟩ := List.append_of_mem he
  refine valueAt_split hdue (fun x hx => ?_) v
  exact hlater x (List.mem_append_right _ (List.mem_cons_of_mem _ hx)) ((List.pairwise_cons.mp (List.pairwise_append.mp hs).2.1).1 x hx)

/-- The changes to come lead on from the value of now. -/
theorem valueAt_future {evs : List (Timer α)} (hs : evs.Pairwise fun a b => a.time ≤ b.time) {now t : ℤ} (ht : now ≤ t) (v : α) :
    valueAt (valueAt v evs now) (evs.filter fun e => now < e.time) t = valueAt v evs t := by
  induction evs generalizing v with
  | nil => rfl
  | cons e evs ih =>
    obtain ⟨hle, hs⟩ := List.pairwise_cons.mp hs
    by_cases he : e.time ≤ now
    · rw [valueAt_cons, if_pos he, List.filter_cons_of_neg (by simpa using he), valueAt_cons, if_pos (by omega)]
      exact ih hs e.val
    · have hall : ∀ x ∈ e :: evs, now < x.time := by
        intro x hx
        rcases List.mem_cons.mp hx with rfl | hx
        · omega
        · have := hle x hx
          omega
      rw [valueAt_before hall, List.filter_eq_self.mpr fun x hx => by simpa using hall x hx]

/-- Timers whose times differ leave one value: what they prescribe in the order of their times. -/
theorem elapses_iff_valueAt {ps evs : List (Timer α)} (hmem : ∀ tm, tm ∈ ps ↔ tm ∈ evs) (hs : evs.Pairwise fun a b => a.time < b.time)
    {t : ℤ} {v w : α} : Elapses t ps v w ↔ w = valueAt v evs t := by
  have hlatest : ∀ tm, Latest t ps tm → valueAt v evs t = tm.val := by
    intro tm ⟨hm, hdue, hlast⟩
    refine valueAt_mem hs ((hmem tm).mp hm) hdue (fun x hx hlt => ?_) v
    have hle := hlast x ((hmem x).mpr hx)
    omega
  constructor
  · intro h
    rcases h.cases with ⟨hnone, rfl⟩ | ⟨tm, hl, rfl⟩
    · exact (valueAt_before (fun x hx => hnone x ((hmem x).mpr hx)) w).symm
    · exact (hlatest tm hl).symm
  · rintro rfl
    cases hm : (ps.filter fun x => x.time ≤ t).argmax Timer.time with
    | none =>
      rw [List.argmax_eq_none, List.filter_eq_nil_iff] at hm
      have hnone : ∀ x ∈ ps, t < x.time := by
        intro x hx
        have := hm x hx
        rw [decide_eq_true_eq] at this
        omega
      rw [valueAt_before fun x hx => hnone x ((hmem x).mpr hx)]
      exact .rest hnone
    | some tm =>
      obtain ⟨hmemtm, htm⟩ := List.mem_filter.mp (List.argmax_mem hm)
      have hl : Latest t ps tm := by
        refine ⟨hmemtm, by simpa using htm, fun x hx hxt => ?_⟩
        exact List.le_of_mem_argmax (List.mem_filter.mpr ⟨hx, by simpa using hxt⟩) hm
      rw [hlatest tm hl]
      exact hl.elapses v

end Timers
