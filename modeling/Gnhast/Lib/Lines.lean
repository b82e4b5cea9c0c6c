import Mathlib.Data.List.Basic
import Mathlib.Data.List.Infix
import Mathlib.Data.List.Induction
import Mathlib.Data.List.TakeWhile

/-!
# Reading a stream line by line, chunk by chunk

A stream is cut into lines at a separator (`cut`). A `Reader` takes the next complete line from a buffer, and none when there is
no complete line. `Reader.loop` is the usual read callback: it takes lines and hands over what `accept` makes of them, until
there is no line or `accept` refuses one. `Reader.feed` calls the loop after every chunk that arrives.

A loop that may stop early is right only for some ways of cutting a stream into chunks, and `Reader.exact_iff` says for which:
exactly when every line it stops at is one that was not wanted and the last line its chunk completes.
-/

namespace Lines

variable {α β σ : Type} {sep : α}

/-! ## Readers -/

/-- A stream is without the separator, or opens with a line. -/
theorem eq_line_or_notMem (sep : α) (b : List α) : sep ∉ b ∨ ∃ l r, sep ∉ l ∧ b = l ++ sep :: r := by
  classical
  by_cases h : sep ∈ b
  · obtain ⟨l, r, rfl, hl⟩ := List.eq_append_cons_of_mem h
    exact Or.inr ⟨l, r, hl, rfl⟩
  · exact Or.inl h

/-- A function that takes the next complete line from a buffer: the line, put in its final form by `strip`, and the rest. -/
structure Reader (sep : α) (strip : List α → List α) where
  readln : List α → Option (List α × List α)
  readln_open : ∀ b, sep ∉ b → readln b = none
  readln_line : ∀ l r, sep ∉ l → readln (l ++ sep :: r) = some (strip l, r)

namespace Reader

variable {strip : List α → List α} (R : Reader sep strip)

theorem length_readln {b l r : List α} (h : R.readln b = some (l, r)) : r.length < b.length := by
  rcases eq_line_or_notMem sep b with hb | ⟨l', r', hl, rfl⟩
  · rw [R.readln_open b hb] at h
    cases h
  · rw [R.readln_line l' r' hl, Option.some.injEq, Prod.mk.injEq] at h
    simp [← h.2]
    omega

/-- The read callback: lines are taken and handed over, until there is none or one is not accepted. -/
def loop (accept : List α → Option β) (handle : β → σ → σ) (b : List α) (st : σ) : List α × σ :=
  match _h : R.readln b with
  | none => (b, st)
  | some (l, r) =>
    match accept l with
    | none => (r, st)
    | some x => loop accept handle r (handle x st)
termination_by b.length
decreasing_by exact R.length_readln _h

variable (accept : List α → Option β) (handle : β → σ → σ)

theorem loop_open {b : List α} (h : sep ∉ b) (st : σ) : R.loop accept handle b st = (b, st) := by
  unfold loop
  split
  · rfl
  · rename_i h'
    rw [R.readln_open b h] at h'
    cases h'

theorem loop_line {l : List α} (h : sep ∉ l) (r : List α) (st : σ) :
    R.loop accept handle (l ++ sep :: r) st =
      match accept (strip l) with
      | none => (r, st)
      | some x => R.loop accept handle r (handle x st) := by
  have hr := R.readln_line l r h
  rw [loop]
  split
  · rename_i h'
    rw [hr] at h'
    cases h'
  · rename_i l' r' h'
    rw [hr, Option.some.injEq, Prod.mk.injEq] at h'
    obtain ⟨rfl, rfl⟩ := h'
    rfl

/-- Buffer and state after chunks have arrived one by one, the loop being called after each. -/
def feed (chunks : List (List α)) (st : σ) : List α × σ :=
  chunks.foldl (fun p c => R.loop accept handle (p.1 ++ c) p.2) ([], st)

theorem feed_append_singleton (cs : List (List α)) (c : List α) (st : σ) :
    R.feed accept handle (cs ++ [c]) st =
      R.loop accept handle ((R.feed accept handle cs st).1 ++ c) (R.feed accept handle cs st).2 := by
  simp [feed]

end Reader

/-! ## Lines -/

variable [DecidableEq α]

/-- The complete lines of a stream, without their separators, and the unfinished line at its end. -/
def cut (sep : α) : List α → List (List α) × List α
  | [] => ([], [])
  | c :: s =>
    if c = sep then ([] :: (cut sep s).1, (cut sep s).2)
    else
      match (cut sep s).1 with
      | [] => ([], c :: (cut sep s).2)
      | l :: ls => ((c :: l) :: ls, (cut sep s).2)

theorem cut_of_notMem {b : List α} (h : sep ∉ b) : cut sep b = ([], b) := by
  induction b with
  | nil => rfl
  | cons c b ih =>
    have hc : c ≠ sep := fun he => h (by simp [he])
    have hb := ih (fun hm => h (by simp [hm]))
    simp [cut, hc, hb]

theorem cut_line {l : List α} (h : sep ∉ l) (r : List α) : cut sep (l ++ sep :: r) = (l :: (cut sep r).1, (cut sep r).2) := by
  induction l with
  | nil => simp [cut]
  | cons c l ih =>
    have hc : c ≠ sep := fun he => h (by simp [he])
    have hl := ih (fun hm => h (by simp [hm]))
    simp [cut, hc, hl]

/-- Lines that were written one after the other are cut again. -/
theorem cut_flatten {ls : List (List α)} (h : ∀ l ∈ ls, sep ∉ l) : cut sep (ls.map fun l => l ++ [sep]).flatten = (ls, []) := by
  induction ls with
  | nil => rfl
  | cons l ls ih =>
    rw [List.map_cons, List.flatten_cons, List.append_assoc, List.singleton_append, cut_line (h l List.mem_cons_self),
      ih fun l' hl' => h l' (List.mem_cons_of_mem l hl')]

/-- A stream without a complete line does not hold the separator. -/
theorem notMem_of_cut {b : List α} (h : (cut sep b).1 = []) : sep ∉ b := by
  induction b with
  | nil => simp
  | cons c b ih =>
    unfold cut at h
    split at h
    · cases h
    · rename_i hc
      split at h
      · rename_i hb
        simp [Ne.symm hc, ih hb]
      · cases h

/-- What arrives later joins the unfinished line. -/
theorem cut_append (a b : List α) :
    cut sep (a ++ b) = ((cut sep a).1 ++ (cut sep ((cut sep a).2 ++ b)).1, (cut sep ((cut sep a).2 ++ b)).2) := by
  generalize hn : a.length = n
  induction n using Nat.strong_induction_on generalizing a with
  | _ n ih =>
    rcases eq_line_or_notMem sep a with h | ⟨l, r, hl, rfl⟩
    · simp [cut_of_notMem h]
    · have hr := ih r.length (by simp at hn; omega) r rfl
      rw [List.append_assoc, List.cons_append, cut_line hl, hr, cut_line hl]
      rfl

/-- The reader that looks for the first separator. -/
def Reader.first (sep : α) (strip : List α → List α) : Reader sep strip where
  readln b :=
    match b.dropWhile (fun c => decide (c ≠ sep)) with
    | [] => none
    | _ :: r => some (strip (b.takeWhile (fun c => decide (c ≠ sep))), r)
  readln_open b h := by
    have hb : b.dropWhile (fun c => decide (c ≠ sep)) = [] := by
      rw [List.dropWhile_eq_nil_iff]
      intro c hc
      exact decide_eq_true (fun he => h (he ▸ hc))
    rw [hb]
  readln_line l r h := by
    have hl : ∀ c ∈ l, decide (c ≠ sep) = true := fun c hc => decide_eq_true (fun he => h (he ▸ hc))
    rw [List.dropWhile_append_of_pos hl, List.takeWhile_append_of_pos hl]
    simp

/-- The lines the last of some chunks completes. -/
def newLines (sep : α) (before : List (List α)) (c : List α) : List (List α) := (cut sep ((cut sep before.flatten).2 ++ c)).1

theorem cut_flatten_append_singleton (cs : List (List α)) (c : List α) :
    cut sep (cs ++ [c]).flatten = ((cut sep cs.flatten).1 ++ newLines sep cs c, (cut sep ((cut sep cs.flatten).2 ++ c)).2) := by
  rw [List.flatten_append, cut_append]
  simp [newLines]

namespace Reader

variable {strip : List α → List α} (R : Reader sep strip) (accept want : List α → Option β)

/-- The loop uses up some of the complete lines and hands over the accepted ones among them: all lines, or those up to the
first that is not accepted. -/
theorem loop_spec (handle : β → σ → σ) (b : List α) (st : σ) :
    ∃ used left, (cut sep b).1 = used ++ left ∧ cut sep (R.loop accept handle b st).1 = (left, (cut sep b).2) ∧
      (R.loop accept handle b st).2 = ((used.map strip).filterMap accept).foldl (fun st x => handle x st) st ∧
      ((left = [] ∧ ∀ l ∈ used, accept (strip l) ≠ none) ∨
        ∃ u l, used = u ++ [l] ∧ (∀ x ∈ u, accept (strip x) ≠ none) ∧ accept (strip l) = none) := by
  generalize hn : b.length = n
  induction n using Nat.strong_induction_on generalizing b st with
  | _ n ih =>
    rcases eq_line_or_notMem sep b with h | ⟨l, r, hl, rfl⟩
    · refine ⟨[], [], ?_, ?_, ?_, Or.inl ⟨rfl, by simp⟩⟩
      · rw [cut_of_notMem h]
        rfl
      · rw [R.loop_open accept handle h, cut_of_notMem h]
      · rw [R.loop_open accept handle h]
        rfl
    · rw [R.loop_line accept handle hl, cut_line hl]
      cases ha : accept (strip l) with
      | none =>
        refine ⟨[l], (cut sep r).1, rfl, rfl, ?_, Or.inr ⟨[], l, rfl, by simp, ha⟩⟩
        simp [ha]
      | some x =>
        obtain ⟨used, left, hu, hc, hs, hd⟩ := ih r.length (by simp at hn; omega) r (handle x st) rfl
        refine ⟨l :: used, left, by simp [hu], hc, ?_, ?_⟩
        · simp [hs, ha]
        · rcases hd with ⟨hleft, hall⟩ | ⟨u, l', rfl, hall, hl'⟩
          · refine Or.inl ⟨hleft, fun y hy => ?_⟩
            rcases List.mem_cons.mp hy with rfl | hy
            · simp [ha]
            · exact hall y hy
          · refine Or.inr ⟨l :: u, l', rfl, fun y hy => ?_, hl'⟩
            rcases List.mem_cons.mp hy with rfl | hy
            · simp [ha]
            · exact hall y hy

/-- Handing over by collecting. -/
def collect (x : β) (xs : List β) : List β := xs ++ [x]

theorem foldl_collect (xs ys : List β) : ys.foldl (fun st x => collect x st) xs = xs ++ ys := by
  induction ys generalizing xs with
  | nil => simp
  | cons y ys ih => rw [List.foldl_cons, ih, collect, List.append_assoc, List.singleton_append]

/-- As long as every call of the loop left no complete line, the buffer is the unfinished line of the stream, and what was
handed over are its accepted lines. -/
theorem feed_of_clean {chunks : List (List α)}
    (h : ∀ cs c, cs ++ [c] <+: chunks → sep ∉ (R.feed accept collect (cs ++ [c]) []).1) :
    R.feed accept collect chunks [] =
      ((cut sep chunks.flatten).2, ((cut sep chunks.flatten).1.map strip).filterMap accept) := by
  induction chunks using List.reverseRecOn with
  | nil => simp [feed, cut]
  | append_singleton cs c ih =>
    have hcs := ih (fun cs' c' hp => h cs' c' (hp.trans (List.prefix_append cs [c])))
    have hclean := h cs c (List.prefix_refl _)
    rw [feed_append_singleton, hcs] at hclean ⊢
    obtain ⟨used, left, hu, hc, hs, -⟩ := R.loop_spec accept collect ((cut sep cs.flatten).2 ++ c)
      (((cut sep cs.flatten).1.map strip).filterMap accept)
    rw [cut_of_notMem hclean, Prod.mk.injEq] at hc
    rw [← hc.1, List.append_nil] at hu
    refine Prod.ext ?_ ?_
    · rw [cut_flatten_append_singleton]
      exact hc.2
    · rw [hs, foldl_collect, cut_flatten_append_singleton, newLines, hu]
      simp

/-- The lines of some chunks are among those of all. -/
theorem mem_cut_of_prefix {cs chunks : List (List α)} (h : cs <+: chunks) {l : List α} (hl : l ∈ (cut sep cs.flatten).1) :
    l ∈ (cut sep chunks.flatten).1 := by
  obtain ⟨t, rfl⟩ := h
  rw [List.flatten_append, cut_append]
  exact List.mem_append_left _ hl

/-- Two functions that agree where the first is defined and give the same list agree on all of the list. -/
theorem eq_none_of_filterMap_eq {γ δ : Type} {f g : γ → Option δ} (hfg : ∀ x y, f x = some y → g x = some y) {xs : List γ}
    (h : xs.filterMap f = xs.filterMap g) : ∀ x ∈ xs, f x = none → g x = none := by
  have hle : ∀ xs : List γ, (xs.filterMap f).length ≤ (xs.filterMap g).length := by
    intro xs
    induction xs with
    | nil => simp
    | cons x xs ih =>
      cases hf : f x with
      | none =>
        rw [List.filterMap_cons_none hf]
        exact ih.trans (List.Sublist.length_le ((List.sublist_cons_self x xs).filterMap g))
      | some y =>
        rw [List.filterMap_cons_some hf, List.filterMap_cons_some (hfg x y hf)]
        simpa using ih
  induction xs with
  | nil => simp
  | cons x xs ih =>
    cases hf : f x with
    | some y =>
      rw [List.filterMap_cons_some hf, List.filterMap_cons_some (hfg x y hf), List.cons.injEq] at h
      intro z hz hn
      rcases List.mem_cons.mp hz with rfl | hz
      · rw [hf] at hn
        cases hn
      · exact ih h.2 z hz hn
    | none =>
      cases hg : g x with
      | some y =>
        rw [List.filterMap_cons_none hf, List.filterMap_cons_some hg] at h
        have hl := hle xs
        rw [h, List.length_cons] at hl
        omega
      | none =>
        rw [List.filterMap_cons_none hf, List.filterMap_cons_none hg] at h
        intro z hz hn
        rcases List.mem_cons.mp hz with rfl | hz
        · exact hg
        · exact ih h z hz hn

/-- Every wanted line of the stream is handed over, in order, and no call of the loop leaves a complete line in the buffer,
exactly when every line the loop does not accept is not wanted and is the last line that its chunk completes. -/
theorem exact_iff (haw : ∀ l x, accept l = some x → want l = some x) (chunks : List (List α)) :
    ((R.feed accept collect chunks []).2 = ((cut sep chunks.flatten).1.map strip).filterMap want ∧
        ∀ cs c, cs ++ [c] <+: chunks → sep ∉ (R.feed accept collect (cs ++ [c]) []).1) ↔
      ∀ cs c, cs ++ [c] <+: chunks → ∀ u l v, newLines sep cs c = u ++ l :: v → accept (strip l) = none →
        v = [] ∧ want (strip l) = none := by
  constructor
  · rintro ⟨hlines, hclean⟩ cs c hp u l v hnew hl
    have hcs := R.feed_of_clean accept (fun cs' c' hp' => hclean cs' c' (hp'.trans ((List.prefix_append cs [c]).trans hp)))
    have hall : ∀ x ∈ (cut sep chunks.flatten).1.map strip, accept x = none → want x = none := by
      refine eq_none_of_filterMap_eq haw ?_
      rw [← hlines, R.feed_of_clean accept hclean]
    have hmem : l ∈ (cut sep chunks.flatten).1 := by
      refine mem_cut_of_prefix hp ?_
      rw [cut_flatten_append_singleton, hnew]
      simp
    refine ⟨?_, hall _ (List.mem_map_of_mem hmem) hl⟩
    have hend := hclean cs c hp
    rw [feed_append_singleton, hcs] at hend
    obtain ⟨used, left, hu, hc, -, hd⟩ := R.loop_spec accept collect ((cut sep cs.flatten).2 ++ c)
      (((cut sep cs.flatten).1.map strip).filterMap accept)
    rw [cut_of_notMem hend, Prod.mk.injEq] at hc
    rw [← hc.1, List.append_nil, ← newLines, hnew] at hu
    rcases hd with ⟨-, hd⟩ | ⟨u', l', rfl, hd, -⟩
    · exact absurd hl (hd l (by simp [← hu]))
    · -- the first line that is not accepted is the last one used
      by_contra hv
      have hv' : v = v.dropLast ++ [v.getLast hv] := (List.dropLast_append_getLast hv).symm
      rw [hv', ← List.cons_append, ← List.append_assoc] at hu
      have hu' := (List.append_inj' hu rfl).1
      exact hd l (by simp [← hu']) hl
  · intro hcond
    induction chunks using List.reverseRecOn with
    | nil => exact ⟨by simp [feed, cut], by simp⟩
    | append_singleton cs c ih =>
      obtain ⟨hlines, hclean⟩ := ih (fun cs' c' hp => hcond cs' c' (hp.trans (List.prefix_append cs [c])))
      have hcs := R.feed_of_clean accept hclean
      have hlast := hcond cs c (List.prefix_refl _)
      obtain ⟨used, left, hu, hc, hs, hd⟩ := R.loop_spec accept collect ((cut sep cs.flatten).2 ++ c)
        (R.feed accept collect cs []).2
      rw [← newLines] at hu
      have hleft : left = [] := by
        rcases hd with ⟨hd, -⟩ | ⟨u, l, rfl, -, hl⟩
        · exact hd
        · exact (hlast u l left (by simpa using hu) hl).1
      subst hleft
      rw [List.append_nil] at hu
      have hsame : (used.map strip).filterMap accept = (used.map strip).filterMap want := by
        refine List.filterMap_congr fun x hx => ?_
        obtain ⟨l, hl, rfl⟩ := List.mem_map.mp hx
        cases ha : accept (strip l) with
        | some y => exact (haw _ _ ha).symm
        | none =>
          obtain ⟨u, v, huv⟩ := List.append_of_mem hl
          exact (hlast u l v (hu.trans huv) ha).2.symm
      constructor
      · rw [feed_append_singleton, hcs, ← hcs, cut_flatten_append_singleton, hu]
        rw [show (R.feed accept collect cs []).1 = (cut sep cs.flatten).2 by rw [hcs]]
        rw [hs, foldl_collect, hlines, hsame]
        simp
      · intro cs' c' hp
        rcases List.prefix_concat_iff.mp hp with he | hp
        · rw [he, feed_append_singleton]
          rw [show (R.feed accept collect cs []).1 = (cut sep cs.flatten).2 by rw [hcs]]
          exact notMem_of_cut (by rw [hc])
        · exact hclean cs' c' hp

end Reader

end Lines
