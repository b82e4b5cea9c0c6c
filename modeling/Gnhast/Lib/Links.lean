import Mathlib.Data.List.Nodup
import Mathlib.Tactic.Common

/-!
# Linked lists kept in line with a list of targets

A list of entries, each allocated under a name and pointing to a target, is brought in line with a list of targets in two passes:
one adds entries for the targets that are missing, the other walks over the entries and takes out the stale ones. The second
pass goes on from the entry it stands on even when it has just taken it out, so it reads entries that are gone.
-/

namespace Links

variable {ω τ : Type} [DecidableEq ω] [DecidableEq τ] (tgt : ω → τ)

/-- The add pass: entries for the targets that are missing, under the next names. -/
def add (mk : Nat → τ → ω) : List τ → List ω × Nat → List ω × Nat
  | [], st => st
  | t :: ts, st => add mk ts (if t ∈ st.1.map tgt then st else (st.1 ++ [mk st.2 t], st.2 + 1))

/-- The prune pass over a list of entries: the list that is left, and the entries that were read after they were taken out. -/
def prune (stale : τ → Bool) : List ω → List ω → List ω × List ω
  | [], xs => (xs, [])
  | w :: ws, xs =>
    if stale (tgt w) then
      let xs := xs.eraseP (fun x => tgt x = tgt w)
      ((prune stale ws xs).1, (if w ∈ xs then [] else [w]) ++ (prune stale ws xs).2)
    else prune stale ws xs

/-- Each entry has a name of its own, and the next names are free. -/
structure Named (name : ω → Nat) (st : List ω × Nat) : Prop where
  nodup : st.1.Nodup
  below : ∀ w ∈ st.1, name w < st.2

omit [DecidableEq ω] in
/-- An entry under the next name. -/
theorem Named.snoc {name : ω → Nat} {ws : List ω} {n : Nat} (h : Named name (ws, n)) {w : ω} (hw : name w = n) :
    Named name (ws ++ [w], n + 1) := by
  refine ⟨?_, fun x hx => ?_⟩
  · refine List.nodup_append.mpr ⟨h.nodup, List.nodup_singleton _, fun a ha b hb he => ?_⟩
    have := h.below a ha
    rw [he, List.mem_singleton.mp hb, hw] at this
    exact Nat.lt_irrefl _ this
  · rcases List.mem_append.mp hx with hx | hx
    · exact Nat.lt_succ_of_lt (h.below x hx)
    · rw [List.mem_singleton.mp hx, hw]
      exact Nat.lt_succ_self _

section Add

variable {mk : Nat → τ → ω} (hmk : ∀ n t, tgt (mk n t) = t)

omit [DecidableEq ω] in
/-- The add pass keeps the entries there are. -/
theorem prefix_add (mk : Nat → τ → ω) (ts : List τ) (st : List ω × Nat) : st.1 <+: (add tgt mk ts st).1 := by
  induction ts generalizing st with
  | nil => exact List.prefix_rfl
  | cons t ts ih =>
    rw [add]
    split
    · exact ih st
    · have h := ih (st.1 ++ [mk st.2 t], st.2 + 1)
      exact (List.prefix_append _ _).trans h

include hmk

omit [DecidableEq ω] in
theorem mem_add {ts : List τ} {st : List ω × Nat} {t : τ} :
    t ∈ (add tgt mk ts st).1.map tgt ↔ t ∈ st.1.map tgt ∨ t ∈ ts := by
  induction ts generalizing st with
  | nil => simp [add]
  | cons t' ts ih =>
    rw [add, ih]
    by_cases h : t' ∈ st.1.map tgt
    · rw [if_pos h, List.mem_cons]
      constructor
      · rintro (h' | h')
        · exact Or.inl h'
        · exact Or.inr (Or.inr h')
      · rintro (h' | rfl | h')
        · exact Or.inl h'
        · exact Or.inl h
        · exact Or.inr h'
    · simp only [if_neg h, List.map_append, List.map_cons, List.map_nil, hmk, List.mem_append, List.mem_cons,
        List.not_mem_nil, or_false, or_assoc]

omit [DecidableEq ω] hmk in
theorem le_add (mk : Nat → τ → ω) (ts : List τ) (st : List ω × Nat) : st.2 ≤ (add tgt mk ts st).2 := by
  induction ts generalizing st with
  | nil => exact Nat.le_refl _
  | cons t ts ih =>
    rw [add]
    split
    · exact ih st
    · have h := ih (st.1 ++ [mk st.2 t], st.2 + 1)
      exact Nat.le_trans (Nat.le_succ _) h

omit [DecidableEq ω] in
/-- Targets are added at most once. -/
theorem nodup_add_iff {ts : List τ} {st : List ω × Nat} :
    ((add tgt mk ts st).1.map tgt).Nodup ↔ (st.1.map tgt).Nodup := by
  induction ts generalizing st with
  | nil => rfl
  | cons t ts ih =>
    rw [add, ih]
    by_cases h : t ∈ st.1.map tgt
    · rw [if_pos h]
    · simp only [if_neg h, List.map_append, List.map_cons, List.map_nil, hmk, List.nodup_append, List.nodup_singleton, true_and,
        List.mem_singleton]
      refine ⟨fun hn => hn.1, fun hn => ⟨hn, ?_⟩⟩
      rintro a ha b rfl rfl
      exact h ha

omit [DecidableEq ω] hmk in
theorem named_add {name : ω → Nat} (hname : ∀ n t, name (mk n t) = n) {ts : List τ} {st : List ω × Nat}
    (h : Named name st) : Named name (add tgt mk ts st) := by
  induction ts generalizing st with
  | nil => exact h
  | cons t ts ih =>
    rw [add]
    refine ih ?_
    split
    · exact h
    · exact h.snoc (hname _ _)

end Add

/-- The prune pass over the rest of a list whose front it has gone over. -/
theorem prune_append {stale : τ → Bool} {pre ws : List ω} (hpre : ∀ w ∈ pre, stale (tgt w) = false) (hn : (pre ++ ws).Nodup) :
    prune tgt stale ws (pre ++ ws) =
      (pre ++ ws.filter (fun w => !stale (tgt w)), ws.filter (fun w => stale (tgt w))) := by
  induction ws generalizing pre with
  | nil => simp [prune]
  | cons w ws ih =>
    rw [prune]
    by_cases hw : stale (tgt w) = true
    · -- the first entry with the target is the one the walk stands on
      have herase : (pre ++ w :: ws).eraseP (fun x => tgt x = tgt w) = pre ++ ws := by
        rw [List.eraseP_append_right _ (fun x hx => ?_), List.eraseP_cons_of_pos (by simp)]
        intro he
        have hx' := hpre x hx
        rw [of_decide_eq_true he, hw] at hx'
        cases hx'
      have hmem : w ∉ pre ++ ws := by
        have := (List.perm_middle.nodup_iff.mp hn)
        exact (List.nodup_cons.mp this).1
      have hn' : (pre ++ ws).Nodup := (List.nodup_cons.mp (List.perm_middle.nodup_iff.mp hn)).2
      simp only [hw, if_true, herase, ih hpre hn', if_neg hmem]
      simp [hw]
    · have hw' : stale (tgt w) = false := by simpa using hw
      have happ : pre ++ w :: ws = (pre ++ [w]) ++ ws := by simp
      rw [if_neg hw, happ, ih]
      · simp [hw']
      · intro x hx
        rcases List.mem_append.mp hx with hx | hx
        · exact hpre x hx
        · rw [List.mem_singleton.mp hx]
          exact hw'
      · rwa [← happ]

/-- The prune pass takes out the stale entries, and reads each of them once it is gone. -/
theorem prune_self {stale : τ → Bool} {ws : List ω} (hn : ws.Nodup) :
    prune tgt stale ws ws = (ws.filter (fun w => !stale (tgt w)), ws.filter (fun w => stale (tgt w))) := by
  have := @prune_append _ _ _ _ tgt stale [] ws (by simp) (by simpa using hn)
  simpa using this

section Sync

variable {mk : Nat → τ → ω} (hmk : ∀ n t, tgt (mk n t) = t) {name : ω → Nat} (hname : ∀ n t, name (mk n t) = n)
  {ts : List τ} {st : List ω × Nat} (h : Named name st) {stale : τ → Bool} (hts : ∀ t ∈ ts, stale t = false)
  (hst : ∀ w ∈ st.1, stale (tgt w) = false → tgt w ∈ ts)

/-- Both passes, one after the other. -/
def sync (mk : Nat → τ → ω) (stale : τ → Bool) (ts : List τ) (st : List ω × Nat) : List ω × List ω :=
  prune tgt stale (add tgt mk ts st).1 (add tgt mk ts st).1

include hmk hname h hts hst

omit hmk hts hst in
/-- The entries that are left are named as well. -/
theorem named_sync : Named name ((sync tgt mk stale ts st).1, (add tgt mk ts st).2) := by
  have hadd : Named name (add tgt mk ts st) := named_add tgt hname h
  rw [sync, prune_self tgt hadd.nodup]
  exact ⟨hadd.nodup.filter _, fun w hw => hadd.below w (List.mem_filter.mp hw).1⟩

/-- The targets that are left are those of the list. -/
theorem mem_sync {t : τ} : t ∈ (sync tgt mk stale ts st).1.map tgt ↔ t ∈ ts := by
  rw [sync, prune_self tgt (named_add tgt hname h).nodup]
  constructor
  · intro ht
    obtain ⟨w, hw, rfl⟩ := List.mem_map.mp ht
    obtain ⟨hw, hs⟩ := List.mem_filter.mp hw
    rcases (mem_add tgt hmk).mp (List.mem_map_of_mem hw) with hw' | hw'
    · obtain ⟨w', hw', he⟩ := List.mem_map.mp hw'
      rw [← he] at hs ⊢
      exact hst w' hw' (by simpa using hs)
    · exact hw'
  · intro ht
    have hadd : t ∈ (add tgt mk ts st).1.map tgt := (mem_add tgt hmk).mpr (Or.inr ht)
    obtain ⟨w, hw, rfl⟩ := List.mem_map.mp hadd
    exact List.mem_map_of_mem (List.mem_filter.mpr ⟨hw, by simp [hts _ ht]⟩)

/-- The passes read nothing that is gone, and leave each target once, exactly when all targets were in the list before, each
once. -/
theorem sync_iff : (((sync tgt mk stale ts st).1.map tgt).Nodup ∧ (sync tgt mk stale ts st).2 = []) ↔
    (∀ w ∈ st.1, tgt w ∈ ts) ∧ (st.1.map tgt).Nodup := by
  have hclean : (sync tgt mk stale ts st).2 = [] ↔ ∀ w ∈ st.1, tgt w ∈ ts := by
    rw [sync, prune_self tgt (named_add tgt hname h).nodup, List.filter_eq_nil_iff]
    constructor
    · intro hc w hw
      exact hst w hw (by simpa using hc w ((prefix_add tgt mk ts st).subset hw))
    · intro hc w hw
      rcases (mem_add tgt hmk).mp (List.mem_map_of_mem hw) with hw' | hw'
      · obtain ⟨w', hw', he⟩ := List.mem_map.mp hw'
        rw [← he, hts _ (hc w' hw')]
        simp
      · rw [hts _ hw']
        simp
  have hleft : (sync tgt mk stale ts st).2 = [] → (sync tgt mk stale ts st).1 = (add tgt mk ts st).1 := by
    rw [sync, prune_self tgt (named_add tgt hname h).nodup]
    intro hc
    refine List.filter_eq_self.mpr fun w hw => ?_
    have := List.filter_eq_nil_iff.mp hc w hw
    simpa using this
  constructor
  · rintro ⟨hn, hc⟩
    rw [hleft hc, nodup_add_iff tgt hmk] at hn
    exact ⟨hclean.mp hc, hn⟩
  · rintro ⟨hc, hn⟩
    have hc' := hclean.mpr hc
    rw [hleft hc', nodup_add_iff tgt hmk]
    exact ⟨hn, hc'⟩

end Sync

end Links
