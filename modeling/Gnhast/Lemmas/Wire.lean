import Gnhast.Lemmas.Steps

/-!
# Lines through the tokenizer

How `parse_netcommand` and `parse_command` take apart a line that was printed. Printed fields that hold no quote and no blank
come back one by one. For the other direction the quotes are counted: the tokenizer drops a quote that opens a quoted text and
one that closes it, keeps every other one, and copies blanks only between quotes. So strings that come back as they were sent
leave no room for more than the quotes the printer wrote itself.
-/

namespace Gnhast

open CStr

variable (F : Doubles)

/-! ## Quotes that are dropped -/

/-- The mode after one byte. -/
def Mode.next (m : Mode) (c : Byte) : Mode :=
  match m with
  | .top => if c = chQuote then .quoted else if c = chSpace then .skip else .top
  | .quoted => if c = chQuote then .after else if c = chBackslash then .escaped else .quoted
  | .escaped => if c = chQuote then .quoted else if c = chBackslash then .escaped else .quoted
  | .after => if c = chSpace then .skip else .top
  | .skip => if c = chSpace then .skip else if c = chQuote then .quoted else .top

/-- The mode after a string. -/
def Mode.run (m : Mode) (s : Str) : Mode := s.foldl Mode.next m

/-- In a mode between quotes. -/
def Mode.inside : Mode → Bool
  | .quoted | .escaped => true
  | .top | .after | .skip => false

/-- A quote in these modes is not copied. -/
def Mode.drops : Mode → Bool
  | .top | .quoted | .skip => true
  | .escaped | .after => false

/-- How many quotes of a string the tokenizer drops. -/
def dropped : Mode → Str → Nat
  | _, [] => 0
  | m, c :: s => (if c = chQuote ∧ m.drops = true then 1 else 0) + dropped (m.next c) s

theorem dropped_append (m : Mode) (s t : Str) : dropped m (s ++ t) = dropped m s + dropped (m.run s) t := by
  induction s generalizing m with
  | nil => simp [dropped, Mode.run]
  | cons c s ih =>
    rw [List.cons_append, dropped, ih, dropped, Nat.add_assoc]
    rfl

/-- A quote of the line is in one of the words, or dropped. -/
theorem count_lex (m : Mode) (w s : Str) :
    (lex m w s).flatten.count chQuote + dropped m s = w.count chQuote + s.count chQuote := by
  induction s generalizing m w with
  | nil =>
    cases m with
    | escaped => simp [lex, dropped, chQuote, chBackslash]
    | top | quoted | after | skip => simp [lex, dropped]
  | cons c s ih =>
    by_cases hq : c = chQuote
    · subst hq
      have hs : chQuote ≠ chSpace := by decide
      have h := ih (m.next chQuote) (if m.drops then w else w ++ [chQuote])
      cases m <;> simp [lex, dropped, Mode.drops, Mode.next, hs] at h ⊢ <;> omega
    · have hb : chBackslash ≠ chQuote := by decide
      cases m with
      | top | skip | after =>
        by_cases hs : c = chSpace
        · subst hs
          have h : (lex .skip [] s).flatten.count chQuote + dropped .skip s = s.count chQuote := by simp [ih]
          have h' := ih .skip w
          simp [lex, dropped, Mode.next, hq]
          omega
        · simp [lex, dropped, Mode.next, hq, hs, ih]
      | quoted | escaped =>
        by_cases hs : c = chBackslash
        · simp [lex, dropped, Mode.next, hs, ih, hb]
        · simp [lex, dropped, Mode.next, hq, hs, ih, hb]

/-- No more quotes are dropped than there are. -/
theorem dropped_le_count (m : Mode) (s : Str) : dropped m s ≤ s.count chQuote := by
  have h := count_lex m [] s
  rw [List.count_nil] at h
  omega

/-- From outside quotes, the walk is inside again after an odd number of dropped quotes. -/
theorem inside_run (m : Mode) (s : Str) :
    (dropped m s + m.inside.toNat) % 2 = (m.run s).inside.toNat := by
  induction s generalizing m with
  | nil => cases m <;> rfl
  | cons c s ih =>
    have hrun : m.run (c :: s) = (m.next c).run s := rfl
    rw [hrun, ← ih, dropped]
    by_cases hq : c = chQuote
    · subst hq
      cases m <;> simp [Mode.drops, Mode.next, Mode.inside, chQuote, chSpace, Bool.toNat] <;> omega
    · cases m with
      | top | skip | after =>
        simp only [Mode.next, hq, false_and, if_false]
        split <;> simp [Mode.inside]
      | quoted | escaped =>
        simp only [Mode.next, hq, false_and, if_false]
        split <;> simp [Mode.inside]

theorem dropped_cons_of_ne {c : Byte} (h : c ≠ chQuote) (m : Mode) (s : Str) : dropped m (c :: s) = dropped (m.next c) s := by
  rw [dropped, if_neg (fun he => h he.1), Nat.zero_add]

/-- Outside quotes, a byte other than a quote leaves the walk outside. -/
theorem next_outside {m : Mode} (hm : m = .top ∨ m = .skip ∨ m = .after) {c : Byte} (h : c ≠ chQuote) :
    m.next c = .top ∨ m.next c = .skip := by
  rcases hm with rfl | rfl | rfl
  all_goals
    simp only [Mode.next, h, if_false]
    split <;> simp

/-- Outside quotes, the first quote is dropped. -/
theorem dropped_pos {m : Mode} (hm : m = .top ∨ m = .skip) {s : Str} (h : chQuote ∈ s) : 0 < dropped m s := by
  induction s generalizing m with
  | nil => cases h
  | cons c s ih =>
    by_cases hq : c = chQuote
    · rw [dropped]
      rcases hm with rfl | rfl <;> simp [hq, Mode.drops]
    · rw [dropped_cons_of_ne hq]
      exact ih (next_outside (by tauto) hq) ((List.mem_cons.mp h).resolve_left (fun he => hq he.symm))

/-! ## Words outside quotes -/

/-- Outside quotes, a text without quotes is cut into bare words. -/
theorem bare_lex {s : Str} (h : chQuote ∉ s) :
    (∀ w : Str, ∃ x ws, lex .top w s = (w ++ x) :: ws ∧ Bare x ∧ ∀ y ∈ ws, Bare y) ∧ ∀ y ∈ lex .skip [] s, Bare y := by
  induction s with
  | nil =>
    refine ⟨fun w => ⟨[], [], by simp [lex], bare_nil, by simp⟩, ?_⟩
    simp [lex, bare_nil]
  | cons c s ih =>
    have hc : c ≠ chQuote := fun he => h (by simp [he])
    obtain ⟨iht, ihs⟩ := ih (fun hm => h (by simp [hm]))
    have htop : ∀ w : Str, ∃ x ws, lex .top w (c :: s) = (w ++ x) :: ws ∧ Bare x ∧ ∀ y ∈ ws, Bare y := by
      intro w
      by_cases hs : c = chSpace
      · exact ⟨[], lex .skip [] s, by rw [hs, lex_top_space, List.append_nil], bare_nil, ihs⟩
      · obtain ⟨x, ws, hx, hb, hws⟩ := iht (w ++ [c])
        exact ⟨c :: x, ws, by simp [lex, hc, hs, hx], Bare.cons hc hs hb, hws⟩
    refine ⟨htop, ?_⟩
    by_cases hs : c = chSpace
    · subst hs
      rwa [lex_skip_space]
    · obtain ⟨x, ws, hx, hb, hws⟩ := htop []
      rw [lex_skip hs, hx]
      intro y hy
      rcases List.mem_cons.mp hy with rfl | hy
      · exact hb
      · exact hws y hy

/-- A text without quotes, up to a blank: the words before are bare and not empty. -/
theorem lex_append {s : Str} (h : chQuote ∉ s) :
    (∀ w : Str, Bare w → w ≠ [] → ∃ ws : List Str, (∀ y ∈ ws, Bare y ∧ y ≠ []) ∧
        ∀ t, lex .top w (s ++ chSpace :: t) = ws ++ lex .skip [] t) ∧
      ∃ ws : List Str, (∀ y ∈ ws, Bare y ∧ y ≠ []) ∧ ∀ t, lex .skip [] (s ++ chSpace :: t) = ws ++ lex .skip [] t := by
  induction s with
  | nil =>
    refine ⟨fun w hw hne => ⟨[w], by simpa using ⟨hw, hne⟩, fun t => ?_⟩, [], by simp, fun t => ?_⟩
    · rw [List.nil_append, lex_top_space]
      rfl
    · rw [List.nil_append, lex_skip_space]
      rfl
  | cons c s ih =>
    have hc : c ≠ chQuote := fun he => h (by simp [he])
    obtain ⟨iht, ws, hws, hskip⟩ := ih (fun hm => h (by simp [hm]))
    by_cases hs : c = chSpace
    · subst hs
      refine ⟨fun w hw hne => ⟨w :: ws, ?_, fun t => ?_⟩, ws, hws, fun t => ?_⟩
      · intro y hy
        rcases List.mem_cons.mp hy with rfl | hy
        · exact ⟨hw, hne⟩
        · exact hws y hy
      · rw [List.cons_append, lex_top_space, hskip t]
        rfl
      · rw [List.cons_append, lex_skip_space, hskip t]
    · have hstep : ∀ w t, lex .top w (c :: s ++ chSpace :: t) = lex .top (w ++ [c]) (s ++ chSpace :: t) := fun w t => by
        rw [List.cons_append, lex, if_neg hc, if_neg hs]
      constructor
      · intro w hw _
        obtain ⟨ws', hws', ht⟩ := iht (w ++ [c]) (hw.append (Bare.cons hc hs bare_nil)) (by simp)
        exact ⟨ws', hws', fun t => by rw [hstep, ht]⟩
      · obtain ⟨ws', hws', ht⟩ := iht [c] (Bare.cons hc hs bare_nil) (by simp)
        exact ⟨ws', hws', fun t => by rw [List.cons_append, lex_skip hs, ← List.cons_append, hstep, List.nil_append, ht]⟩

/-! ## The word with the quotes -/

/-- A list of words that opens with a word that has a prefix, with bare words behind. -/
def Opens (w : Str) (l : List Str) : Prop := ∃ x ws, l = (w ++ x) :: ws ∧ ∀ y ∈ ws, Bare y

theorem Opens.of_append {w v : Str} {l : List Str} (h : Opens (w ++ v) l) : Opens w l := by
  obtain ⟨x, ws, rfl, hws⟩ := h
  exact ⟨v ++ x, ws, by rw [List.append_assoc], hws⟩

/-- Behind a closing quote, with no quote dropped any more. -/
theorem opens_after {s : Str} (h : dropped .after s = 0) (w : Str) : Opens w (lex .after w s) := by
  cases s with
  | nil => exact ⟨[], [], by simp [lex], by simp⟩
  | cons c s =>
    have hd : ¬ Mode.after.drops = true := by decide
    rw [dropped, if_neg (fun he => hd he.2), Nat.zero_add] at h
    by_cases hs : c = chSpace
    · subst hs
      have hns : chQuote ∉ s := fun hm => absurd h (dropped_pos (Or.inr rfl) hm).ne'
      exact ⟨[], lex .skip [] s, by simp [lex], (bare_lex hns).2⟩
    · have hns : chQuote ∉ s := fun hm => absurd h (by
        simp only [Mode.next, hs, if_false]
        exact (dropped_pos (Or.inl rfl) hm).ne')
      rw [lex, if_neg hs]
      obtain ⟨x, ws, hx, -, hws⟩ := (bare_lex hns).1 (w ++ [c])
      exact Opens.of_append ⟨x, ws, hx, hws⟩

/-- Between quotes, with at most one quote dropped: the word goes on, and the words behind it are bare. -/
theorem opens_inside {m : Mode} (hm : m.inside = true) {s : Str} (h : dropped m s ≤ 1) (w : Str) : Opens w (lex m w s) := by
  induction s generalizing m w with
  | nil =>
    cases m with
    | quoted => exact ⟨[], [], by simp [lex], by simp⟩
    | escaped => exact ⟨[chBackslash], [], rfl, by simp⟩
    | top | after | skip => cases hm
  | cons c s ih =>
    by_cases hq : c = chQuote
    · subst hq
      cases m with
      | top | after | skip => cases hm
      | quoted =>
        have h0 : dropped .after s = 0 := by
          simp only [dropped, Mode.drops, Mode.next, and_self, if_true] at h
          omega
        rw [lex, if_pos rfl]
        exact opens_after h0 w
      | escaped =>
        have h0 : dropped .quoted s ≤ 1 := by simpa [dropped, Mode.drops, Mode.next] using h
        rw [lex, if_pos rfl]
        exact Opens.of_append (ih rfl h0 _)
    · rw [dropped_cons_of_ne hq] at h
      cases m with
      | top | after | skip => cases hm
      | quoted =>
        rw [lex, if_neg hq]
        rw [Mode.next, if_neg hq] at h
        split
        · rename_i hb
          rw [if_pos hb] at h
          exact ih rfl h w
        · rename_i hb
          rw [if_neg hb] at h
          exact Opens.of_append (ih rfl h _)
      | escaped =>
        rw [lex, if_neg hq]
        rw [Mode.next, if_neg hq] at h
        split
        · rename_i hb
          rw [if_pos hb] at h
          exact Opens.of_append (ih rfl h _)
        · rename_i hb
          rw [if_neg hb] at h
          exact Opens.of_append (ih rfl h _)

/-! ## Names in quotes -/

/-- One if a backslash is held back. -/
def Mode.held : Mode → Nat
  | .escaped => 1
  | .top | .quoted | .after | .skip => 0

theorem Mode.next_inside {m : Mode} (hm : m.inside = true) (c : Byte) : m.next c = .escaped ↔ c = chBackslash := by
  cases m with
  | top | after | skip => cases hm
  | quoted | escaped =>
    simp only [Mode.next]
    split
    · rename_i h
      simp [h, chQuote, chBackslash]
    · split
      · rename_i h
        simp [h]
      · rename_i h
        simp [h]

/-- A text between quotes from which no quote is dropped goes into the word, less the backslashes before its quotes. -/
theorem lex_undropped {m : Mode} (hm : m.inside = true) {s : Str} (h : dropped m s = 0) (w : Str) :
    ∃ x : Str, x.length + s.count chQuote + (m.run s).held = s.length + m.held ∧
      ∀ t, lex m w (s ++ t) = lex (m.run s) (w ++ x) t := by
  induction s generalizing m w with
  | nil => exact ⟨[], by simp [Mode.run], by simp [Mode.run]⟩
  | cons c s ih =>
    have hrun : m.run (c :: s) = (m.next c).run s := rfl
    have hstep : ∀ (v : Str) (m' : Mode), m'.inside = true → dropped m' s = 0 →
        (∀ t, lex m w (c :: s ++ t) = lex m' (w ++ v) (s ++ t)) → m.next c = m' →
        v.length + (if c = chQuote then 1 else 0) + m'.held = 1 + m.held →
        ∃ x : Str, x.length + (c :: s).count chQuote + (m.run (c :: s)).held = (c :: s).length + m.held ∧
          ∀ t, lex m w (c :: s ++ t) = lex (m.run (c :: s)) (w ++ x) t := by
      intro v m' hm' hd hl hn hlen
      obtain ⟨x, hx, ht⟩ := ih hm' hd (w ++ v)
      refine ⟨v ++ x, ?_, fun t => ?_⟩
      · rw [hrun, hn, List.length_append, List.count_cons, List.length_cons]
        simp only [beq_iff_eq]
        omega
      · rw [hrun, hn, hl, ht, List.append_assoc]
    by_cases hq : c = chQuote
    · subst hq
      cases m with
      | top | after | skip => cases hm
      | quoted => simp [dropped, Mode.drops] at h
      | escaped =>
        have h0 : dropped .quoted s = 0 := by simpa [dropped, Mode.drops, Mode.next] using h
        exact hstep [chQuote] .quoted rfl h0 (fun t => by simp [lex]) (by simp [Mode.next]) (by simp [Mode.held])
    · rw [dropped_cons_of_ne hq] at h
      by_cases hb : c = chBackslash
      · have hbq : chBackslash ≠ chQuote := by decide
        rw [(Mode.next_inside hm c).mpr hb] at h
        cases m with
        | top | after | skip => cases hm
        | quoted =>
          exact hstep [] .escaped rfl h (fun t => by simp [lex, hb, hbq]) ((Mode.next_inside hm c).mpr hb)
            (by simp [Mode.held, hq])
        | escaped =>
          exact hstep [chBackslash] .escaped rfl h (fun t => by simp [lex, hb, hbq]) ((Mode.next_inside hm c).mpr hb)
            (by simp [Mode.held, hq])
      · have hn : m.next c = .quoted := by
          cases m with
          | top | after | skip => cases hm
          | quoted | escaped => simp [Mode.next, hq, hb]
        rw [hn] at h
        cases m with
        | top | after | skip => cases hm
        | quoted => exact hstep [c] .quoted rfl h (fun t => by simp [lex, hq, hb]) hn (by simp [Mode.held, hq])
        | escaped =>
          exact hstep [chBackslash, c] .quoted rfl h (fun t => by simp [lex, hq, hb]) hn (by simp [Mode.held, hq])

/-- The first quote that is dropped between quotes closes them. -/
theorem exists_close {m : Mode} (hm : m.inside = true) {s : Str} (h : dropped m s ≠ 0) :
    ∃ u v, s = u ++ chQuote :: v ∧ dropped m u = 0 ∧ m.run u = .quoted := by
  induction s generalizing m with
  | nil => exact absurd rfl h
  | cons c s ih =>
    have hstep : (m.next c).inside = true → (if c = chQuote ∧ m.drops = true then 1 else 0) = 0 →
        ∃ u v, c :: s = u ++ chQuote :: v ∧ dropped m u = 0 ∧ m.run u = .quoted := by
      intro hn hd
      rw [dropped, hd, Nat.zero_add] at h
      obtain ⟨u, v, rfl, hu, hr⟩ := ih hn h
      exact ⟨c :: u, v, rfl, by rw [dropped, hd, hu], hr⟩
    cases m with
    | top | after | skip => cases hm
    | quoted =>
      by_cases hq : c = chQuote
      · exact ⟨[], s, by rw [hq]; rfl, rfl, rfl⟩
      · refine hstep ?_ (by simp [hq])
        simp only [Mode.next, hq, if_false]
        split <;> rfl
    | escaped =>
      refine hstep ?_ (by simp [Mode.drops])
      simp only [Mode.next]
      split
      · rfl
      · split <;> rfl

theorem inside_run_undropped {s : Str} (h : dropped .quoted s = 0) : (Mode.run .quoted s).inside = true := by
  have hin := inside_run .quoted s
  rw [h] at hin
  cases hr : (Mode.run .quoted s).inside with
  | true => rfl
  | false =>
    rw [hr] at hin
    cases hin

/-- Where no quote is dropped, a backslash is held back exactly behind a text that ends in one. -/
theorem run_undropped {s : Str} (h : dropped .quoted s = 0) :
    Mode.run .quoted s = if EndsInBackslash s then .escaped else .quoted := by
  have hin := inside_run_undropped h
  rcases List.eq_nil_or_concat s with rfl | ⟨u, c, rfl⟩
  · rfl
  · have hu : dropped .quoted u = 0 := by
      rw [List.concat_eq_append, dropped_append] at h
      omega
    have hr : Mode.run .quoted (u.concat c) = (Mode.run .quoted u).next c := by
      simp [Mode.run]
    have hesc := Mode.next_inside (inside_run_undropped hu) c
    rw [← hr] at hesc
    by_cases hb : c = chBackslash
    · rw [hesc.mpr hb, if_pos]
      simp [EndsInBackslash, hb]
    · rw [if_neg (by simp [EndsInBackslash, hb])]
      have hne := mt hesc.mp hb
      cases hm : Mode.run .quoted (u.concat c) with
      | quoted => rfl
      | escaped => exact absurd hm hne
      | top | after | skip =>
        rw [hm] at hin
        cases hin

/-- A name that comes back when it is printed in quotes: it holds no quote and does not end in a backslash, up to one quote
at its end. -/
def Quotable (name : Str) : Prop :=
  ∃ n, chQuote ∉ n ∧ ¬ EndsInBackslash n ∧ (name = n ∨ name = n ++ [chQuote])

/-- A name without quotes that does not end in a backslash. -/
theorem Quotable.of_notMem {name : Str} (hq : chQuote ∉ name) (hb : ¬ EndsInBackslash name) : Quotable name :=
  ⟨name, hq, hb, Or.inl rfl⟩

/-- Such a name, printed in quotes, goes into the word. -/
theorem lex_quotable {name : Str} (h : Quotable name) (w s : Str) :
    lex .quoted w (name ++ chQuote :: chSpace :: s) = (w ++ name) :: lex .skip [] s := by
  obtain ⟨n, hq, hb, rfl | rfl⟩ := h
  · rw [lex_quoted_close hq hb]
    simp [lex]
  · rw [List.append_assoc, List.singleton_append, lex_quoted_close hq hb, lex, if_neg (by decide), lex_top_space,
      List.append_assoc]

/-- A name that ends in a backslash keeps the quote that was to close it, and swallows the rest of the line. -/
theorem lex_swallowed {name s : Str} (h0 : dropped .quoted name = 0) (hb : EndsInBackslash name) (hs : chQuote ∉ s) (w : Str) :
    ∃ v, chQuote ∈ v ∧ lex .quoted w (name ++ chQuote :: chSpace :: s) = [w ++ v] := by
  obtain ⟨x, -, hl⟩ := lex_undropped (m := .quoted) rfl h0 w
  rw [run_undropped h0, if_pos hb] at hl
  rw [hl, lex, if_pos rfl]
  have hs' : chQuote ∉ chSpace :: s := by simpa using ⟨by decide, hs⟩
  have hone := lex_quoted_append hs' (w ++ x ++ [chQuote]) []
  rw [List.append_nil] at hone
  rw [hone]
  split
  · exact ⟨x ++ [chQuote] ++ (chSpace :: s).dropLast ++ [chBackslash], by simp, by simp [lex]⟩
  · exact ⟨x ++ [chQuote] ++ chSpace :: s, by simp, by simp [lex]⟩

/-- A name in quotes that leaves at most one quote to be dropped swallows the rest of the line, or comes back changed, or is
quotable. -/
theorem quotable_of_lex {name s : Str} (hd : dropped .quoted (name ++ chQuote :: chSpace :: s) ≤ 1) (hs : chQuote ∉ s) (w : Str) :
    (∃ v, chQuote ∈ v ∧ lex .quoted w (name ++ chQuote :: chSpace :: s) = [w ++ v]) ∨
      ∃ v, lex .quoted w (name ++ chQuote :: chSpace :: s) = (w ++ v) :: lex .skip [] s ∧ (v = name → Quotable name) := by
  by_cases h0 : dropped .quoted name = 0
  · by_cases hb : EndsInBackslash name
    · exact Or.inl (lex_swallowed h0 hb hs w)
    · obtain ⟨x, hx, hl⟩ := lex_undropped (m := .quoted) rfl h0 w
      rw [run_undropped h0, if_neg hb] at hx hl
      refine Or.inr ⟨x, ?_, ?_⟩
      · rw [hl, lex, if_pos rfl, lex, if_pos rfl]
      · rintro rfl
        refine ⟨x, ?_, hb, Or.inl rfl⟩
        simp only [Mode.held] at hx
        exact List.count_eq_zero.mp (by omega)
  · obtain ⟨n, v, rfl, hn, hr⟩ := exists_close (m := .quoted) rfl h0
    obtain ⟨x, hx, hl⟩ := lex_undropped (m := .quoted) rfl hn w
    rw [hr] at hx hl
    have hb : ¬ EndsInBackslash n := by
      intro hb
      rw [run_undropped hn, if_pos hb] at hr
      cases hr
    have hrest : dropped .after (v ++ chQuote :: chSpace :: s) = 0 := by
      rw [List.append_assoc, dropped_append, hn, hr, List.cons_append, dropped] at hd
      simp only [Mode.drops, Mode.next, and_self, if_true] at hd
      omega
    cases v with
    | nil =>
      refine Or.inr ⟨x ++ [chQuote], ?_, ?_⟩
      · rw [List.append_assoc, List.singleton_append, hl, lex, if_pos rfl, lex, if_neg (by decide), lex_top_space,
          List.append_assoc]
      · intro he
        have hxn : x = n := by simpa using he
        subst hxn
        simp only [Mode.held] at hx
        exact ⟨x, List.count_eq_zero.mp (by omega), hb, Or.inr rfl⟩
    | cons c v =>
      -- behind the first byte, the quote that was to close would be dropped
      exfalso
      have hd' : ¬ Mode.after.drops = true := by decide
      rw [List.cons_append, dropped, if_neg (fun he => hd' he.2), Nat.zero_add] at hrest
      have hmode : Mode.after.next c = .top ∨ Mode.after.next c = .skip := by
        simp only [Mode.next]
        split <;> simp
      exact absurd hrest (dropped_pos hmode (by simp)).ne'

/-! ## Lines and their arguments -/

/-- A string that stays in one line and is not cut as a C string. -/
def OneLine (s : Str) : Prop := chNul ∉ s ∧ chLf ∉ s

instance (s : Str) : Decidable (OneLine s) := inferInstanceAs (Decidable (_ ∧ _))

@[simp] theorem oneLine_nil : OneLine [] := by
  decide

@[simp] theorem oneLine_append {s t : Str} : OneLine (s ++ t) ↔ OneLine s ∧ OneLine t := by
  simp only [OneLine, List.mem_append, not_or]
  tauto

@[simp] theorem oneLine_cons {c : Byte} {s : Str} : OneLine (c :: s) ↔ (c ≠ chNul ∧ c ≠ chLf) ∧ OneLine s := by
  simp only [OneLine, List.mem_cons, not_or, ne_eq, eq_comm (a := c)]
  tauto

@[simp] theorem oneLine_argnm (k : Sc) : OneLine (argnm k) := ⟨notMem_argnm (by decide) k, notMem_argnm (by decide) k⟩

/-- The text of a number. -/
structure Numeral (s : Str) : Prop where
  nonempty : s ≠ []
  bytes : ∀ c ∈ s, c = chMinus ∨ c = chDot ∨ isdigit c = true

namespace Numeral

theorem decNat (n : Nat) : Numeral (decNat n) := ⟨decNat_ne_nil n, fun _ h => Or.inr (Or.inr (isdigit_of_mem_decNat h))⟩

theorem decInt (z : Int) : Numeral (decInt z) := ⟨decInt_ne_nil z, fun _ h => (of_mem_decInt h).imp_right Or.inr⟩

theorem fmtF (q : ℚ) : Numeral (fmtF q) := ⟨fmtF_ne_nil q, fun _ h => of_mem_fmtF h⟩

variable {s : Str} (h : Numeral s)

include h

theorem notMem {c : Byte} (hc : c ≠ chMinus ∧ c ≠ chDot ∧ isdigit c = false) : c ∉ s := by
  intro hm
  rcases h.bytes c hm with he | he | he
  · exact hc.1 he
  · exact hc.2.1 he
  · rw [hc.2.2] at he
    cases he

theorem bare : Bare s := ⟨h.notMem (by decide), h.notMem (by decide)⟩

theorem oneLine : OneLine s := ⟨h.notMem (by decide), h.notMem (by decide)⟩

/-- A line that ends in a number has no carriage return to strip. -/
theorem stripCr (u : Str) : stripCr (u ++ s) = u ++ s := by
  refine if_neg fun hcr => ?_
  rw [List.getLast?_append_of_ne_nil _ h.nonempty, List.getLast?_eq_some_getLast h.nonempty, Option.some.injEq] at hcr
  exact h.notMem (c := chCr) (by decide) (hcr ▸ List.getLast_mem h.nonempty)

end Numeral

theorem numeral_printData (dev : Device) (loc : DataLoc) (sc : ℚ → ℚ) : Numeral (printData F dev loc sc) := by
  unfold printData
  split
  · exact Numeral.decInt _
  · exact Numeral.decInt _
  · exact Numeral.fmtF _

/-- The number of an integer is short. -/
theorem length_fmtJd_le (v : BitVec 64) : (fmtJd v).length ≤ 20 := by
  have h1 := BitVec.toInt_lt (x := v)
  have h2 := BitVec.le_toInt v
  exact length_decInt_le (by decide) (by omega)

theorem length_fmtD_le (v : BitVec 32) : (fmtD v).length ≤ 20 := by
  have h1 := BitVec.toInt_lt (x := v)
  have h2 := BitVec.le_toInt v
  exact Nat.le_trans (length_decInt_le (k := 10) (by decide) (by omega)) (by decide)

theorem bare_fmtByte (b : BitVec 8) : Bare (fmtByte b) := (Numeral.decNat _).bare

theorem atoi_fmtByte (b : BitVec 8) : atoi (fmtByte b) = b.setWidth 32 := by
  have hlt := b.isLt
  have hnat : (b.setWidth 32).toNat = b.toNat := by
    rw [BitVec.toNat_setWidth, Nat.mod_eq_of_lt (by omega)]
  have h : fmtByte b = decInt (b.setWidth 32).toInt := by
    rw [fmtByte, BitVec.toInt_eq_toNat_of_lt (by omega), hnat]
    rfl
  rw [h, atoi_decInt]

/-- A made up rrdname is bare. -/
theorem bare_mkRrdname (orig : Str) : Bare (mkRrdname orig) := by
  have hkeep : ∀ c ∈ mkRrdname orig, (isalpha c || c == 95 || isdigit c) = true := fun c hc =>
    (List.mem_filter.mp (List.mem_of_mem_take hc)).2
  exact ⟨fun h => absurd (hkeep _ h) (by decide), fun h => absurd (hkeep _ h) (by decide)⟩

theorem readLine_append {text : Str} (h : chLf ∉ text) : readLine (text ++ [chLf]) = stripCr text := by
  have ht : (text ++ [chLf]).takeWhile (fun c => c != chLf) = text := by
    rw [List.takeWhile_append_of_pos (by intro c hc; simpa using fun he : c = chLf => h (he ▸ hc))]
    simp
  rw [readLine, ht]

/-- The arguments read from words. -/
def readArgs (ws : List Str) : List PArg := (ws.takeWhile (fun w => !w.isEmpty)).filterMap (parseWord F)

/-- A line that opens with a bare word is that word, with the arguments of the other words. -/
theorem readCommand_text {word rest : Str} (hw : Bare word) (hn : chNul ∉ word ++ chSpace :: rest) :
    readCommand F (word ++ chSpace :: rest) = some (word, readArgs F (lex .skip [] rest)) := by
  have hcstr : cstr (word ++ chSpace :: rest) = word ++ chSpace :: rest := by
    rw [cstr, List.takeWhile_eq_self_iff]
    intro c hc
    simpa using fun he : c = chNul => hn (he ▸ hc)
  have hlex : lex .top [] (word ++ chSpace :: rest) = word :: lex .skip [] rest := by
    rw [lex_top_append hw, lex_top_space, List.nil_append]
  rw [readCommand, if_neg (by simp), hcstr, parseNetcommand, if_neg (by simp), hlex]
  rfl

/-- A line that opens with a command is that command. -/
theorem lineCmd_text {word rest : Str} {cmd : Cmd} (hw : Bare word) (hcmd : findCommand word = some cmd)
    (hn : chNul ∉ word ++ chSpace :: rest) :
    lineCmd F (word ++ chSpace :: rest) = some (cmd, readArgs F (lex .skip [] rest)) := by
  rw [lineCmd, readCommand_text F hw hn, Option.bind_some, hcmd]
  rfl

@[simp] theorem readArgs_nil : readArgs F [] = [] := rfl

@[simp] theorem readArgs_field (k : Sc) (v : Str) (ws : List Str) :
    readArgs F (field k v :: ws) = ⟨k, readValue F k.type v⟩ :: readArgs F ws := by
  simp [readArgs, field, parseWord_argnm]

/-- An empty word ends the arguments. -/
@[simp] theorem readArgs_empty (ws : List Str) : readArgs F ([] :: ws) = [] := rfl

theorem readArgs_append {ws ws' : List Str} (h : ∀ w ∈ ws, w ≠ []) :
    readArgs F (ws ++ ws') = ws.filterMap (parseWord F) ++ readArgs F ws' := by
  rw [readArgs, List.takeWhile_append_of_pos (by simpa using h), List.filterMap_append]
  rfl

/-- A field of a bare value is a word. -/
theorem bare_field {k : Sc} {v : Str} (h : Bare v) : Bare (field k v) :=
  (bare_argnm k).append (h.cons (by decide) (by decide))

theorem field_ne_nil (k : Sc) (v : Str) : field k v ≠ [] := by
  simp [field]

/-- A field in quotes opens the quotes behind its colon. -/
theorem lex_field_quote (k : Sc) (s : Str) :
    lex .skip [] (argnm k ++ chColon :: chQuote :: s) = lex .quoted (argnm k ++ [chColon]) s := by
  obtain ⟨c, t, hk⟩ := List.exists_cons_of_ne_nil (argnm_ne_nil k)
  have hb := bare_argnm k
  have hc : c ≠ chSpace := fun he => hb.2 (by simp [hk, he])
  have hcolon : Bare [chColon] := by decide
  have hsplit : argnm k ++ chColon :: chQuote :: s = (argnm k ++ [chColon]) ++ chQuote :: s := by simp
  have hskip : lex .skip [] ((argnm k ++ [chColon]) ++ chQuote :: s) = lex .top [] ((argnm k ++ [chColon]) ++ chQuote :: s) := by
    rw [hk, List.cons_append, List.cons_append, lex_skip hc]
  rw [hsplit, hskip, lex_top_append (hb.append hcolon), lex, if_pos rfl, List.nil_append]

/-- An argument is read from a word, behind its colon. -/
theorem parseWord_as {word : Str} {a : PArg} {k : Sc} {v : k.type.Carrier} (h : parseWord F word = some a)
    (hv : a.as k = some v) : ∃ cp tmp, word = cp ++ chColon :: tmp ∧ v = readValue F k.type tmp := by
  unfold parseWord at h
  split at h
  · cases h
  · rename_i cp tmp hsp
    split at h
    · cases h
    · rename_i asp _
      cases h
      by_cases hk : asp.num = k
      · subst hk
        rw [PArg.as_self] at hv
        cases hv
        exact ⟨cp, tmp, (splitAt_eq_some hsp).1, rfl⟩
      · rw [PArg.as_of_ne hk] at hv
        cases hv

/-- An argument comes from one of the words. -/
theorem exists_word {ws : List Str} {k : Sc} {v : k.type.Carrier} (h : lastArg k (readArgs F ws) = some v) :
    ∃ word ∈ ws, ∃ a, parseWord F word = some a ∧ a.as k = some v := by
  obtain ⟨a, ha, hv⟩ := exists_of_lastArg h
  obtain ⟨word, hw, hp⟩ := List.mem_filterMap.mp ha
  exact ⟨word, (List.takeWhile_sublist _).subset hw, a, hp, hv⟩

/-- Where the words are bare, or fields of other keywords, an argument is read from a bare text. -/
theorem exists_bare {ws : List Str} {k : Sc} {v : k.type.Carrier}
    (hws : ∀ word ∈ ws, Bare word ∨ ∃ k' x, k' ≠ k ∧ word = field k' x) (h : lastArg k (readArgs F ws) = some v) :
    ∃ tmp, Bare tmp ∧ v = readValue F k.type tmp := by
  obtain ⟨word, hw, a, hp, hv⟩ := exists_word F h
  rcases hws word hw with hb | ⟨k', x, hne, rfl⟩
  · obtain ⟨cp, tmp, rfl, rfl⟩ := parseWord_as F hp hv
    exact ⟨tmp, ⟨fun hm => hb.1 (by simp [hm]), fun hm => hb.2 (by simp [hm])⟩, rfl⟩
  · rw [field, parseWord_argnm] at hp
    cases hp
    rw [PArg.as_of_ne hne] at hv
    cases hv

/-! ## Fields with blanks between them -/

/-- A text that is over, or goes on with a blank. -/
def Ends (s : Str) : Prop := s = [] ∨ ∃ t, s = chSpace :: t

theorem Ends.append {s t : Str} (hs : Ends s) (ht : Ends t) : Ends (s ++ t) := by
  rcases hs with rfl | ⟨u, rfl⟩
  · exact ht
  · exact Or.inr ⟨u ++ t, rfl⟩

/-- A text of fields, with blanks between them and around them. -/
inductive Spaced : List (Sc × Str) → Str → Prop
  | nil : Spaced [] []
  | blank {fs : List (Sc × Str)} {s : Str} : Spaced fs s → Spaced fs (chSpace :: s)
  | field {fs : List (Sc × Str)} {s : Str} (k : Sc) (v : Str) : Spaced fs s → Ends s → Spaced ((k, v) :: fs) (field k v ++ s)

theorem Spaced.noQuote {fs : List (Sc × Str)} {s : Str} (h : Spaced fs s) (hq : ∀ f ∈ fs, chQuote ∉ f.2) : chQuote ∉ s := by
  induction h with
  | nil => simp
  | blank h ih =>
    have hc : chQuote ≠ chSpace := by decide
    simp [hc, ih hq]
  | @field fs s k v h he ih =>
    have hc : chQuote ≠ chColon := by decide
    simp [Gnhast.field, hc, (bare_argnm k).1, hq (k, v) (by simp), ih (fun f hf => hq f (by simp [hf]))]

/-- A field and a blank in front of fields. -/
theorem Spaced.cons {fs : List (Sc × Str)} {s : Str} (k : Sc) (v : Str) (h : Spaced fs s) :
    Spaced ((k, v) :: fs) (Gnhast.field k v ++ chSpace :: s) :=
  .field k v (.blank h) (Or.inr ⟨s, rfl⟩)

/-- Texts of fields, one behind the other. -/
theorem Spaced.append {fs gs : List (Sc × Str)} {s t : Str} (h : Spaced fs s) (h' : Spaced gs t) (he : Ends t) :
    Spaced (fs ++ gs) (s ++ t) := by
  induction h with
  | nil => exact h'
  | blank h ih => exact ih.blank
  | @field fs s k v h hs ih =>
    rw [List.append_assoc]
    exact .field k v ih (hs.append he)

theorem Spaced.oneLine {fs : List (Sc × Str)} {s : Str} (h : Spaced fs s) (hf : ∀ f ∈ fs, OneLine f.2) : OneLine s := by
  have hc : chSpace ≠ chNul ∧ chSpace ≠ chLf ∧ chColon ≠ chNul ∧ chColon ≠ chLf := by decide
  induction h with
  | nil => exact oneLine_nil
  | blank h ih => simp [hc, ih hf]
  | @field fs s k v h he ih => simp [Gnhast.field, hc, hf (k, v) (by simp), ih fun f hm => hf f (by simp [hm])]

/-- The argument of a field. -/
def fieldArg (f : Sc × Str) : PArg := ⟨f.1, readValue F f.1.type f.2⟩

/-- Fields of bare values are read as they are. -/
theorem Spaced.readArgs {fs : List (Sc × Str)} {s : Str} (h : Spaced fs s) (hb : ∀ f ∈ fs, Bare f.2) :
    readArgs F (lex .skip [] s) = fs.map (fieldArg F) := by
  induction h with
  | nil => rfl
  | blank h ih =>
    rw [lex_skip_space]
    exact ih hb
  | @field fs s k v h he ih =>
    have hv : Bare (Gnhast.field k v) := bare_field (hb (k, v) (by simp))
    have ih := ih (fun f hf => hb f (by simp [hf]))
    rcases he with rfl | ⟨t, rfl⟩
    · rw [List.append_nil, lex_skip_last hv (field_ne_nil k v), readArgs_field, readArgs_nil, List.map_cons, ← ih]
      rfl
    · rw [lex_skip_space] at ih
      rw [lex_skip_word hv (field_ne_nil k v), readArgs_field, ih]
      rfl

/-- Behind a field, whatever its value, the words go on with its keyword. -/
theorem lex_field {k : Sc} {v : Str} (h : chQuote ∉ v) :
    ∃ x ws, lex .skip [] (field k v) = field k x :: ws ∧ Bare x ∧ ∀ y ∈ ws, Bare y := by
  have hb : Bare (argnm k ++ [chColon]) := (bare_argnm k).append (by decide)
  have hf : field k v = (argnm k ++ [chColon]) ++ v := by simp [field]
  obtain ⟨c, t, hk⟩ := List.exists_cons_of_ne_nil (argnm_ne_nil k)
  have hc : c ≠ chSpace := fun he => (bare_argnm k).2 (by simp [hk, he])
  have hskip : lex .skip [] (field k v) = lex .top [] (field k v) := by
    rw [field, hk, List.cons_append, lex_skip hc]
  obtain ⟨x, ws, hx, hbx, hws⟩ := (bare_lex h).1 (argnm k ++ [chColon])
  refine ⟨x, ws, ?_, hbx, hws⟩
  rw [hskip, hf, lex_top_append hb, List.nil_append, hx]
  simp [field]

/-- Every field that was printed gives its keyword an argument, with a bare text, whatever the values hold but quotes. -/
theorem Spaced.exists_lastArg {fs : List (Sc × Str)} {s : Str} (h : Spaced fs s) (hq : ∀ f ∈ fs, chQuote ∉ f.2) {k : Sc}
    (hk : ∃ v, (k, v) ∈ fs) :
    ∃ x, Bare x ∧ lastArg k (Gnhast.readArgs F (lex .skip [] s)) = some (readValue F k.type x) := by
  induction h with
  | nil =>
    obtain ⟨v, hv⟩ := hk
    cases hv
  | blank h ih =>
    rw [lex_skip_space]
    exact ih hq hk
  | @field fs s k' v' h he ih =>
    have hq' : ∀ f ∈ fs, chQuote ∉ f.2 := fun f hf => hq f (by simp [hf])
    have hs : chQuote ∉ s := h.noQuote hq'
    obtain ⟨v, hv⟩ := hk
    rcases List.mem_cons.mp hv with he' | hv
    · cases he'
      have hvs : chQuote ∉ v' ++ s := by simp [hq (k, v') (by simp), hs]
      have hcat : Gnhast.field k v' ++ s = Gnhast.field k (v' ++ s) := by simp [Gnhast.field]
      obtain ⟨x, ws, hx, hb, hws⟩ := lex_field (k := k) hvs
      rw [hcat, hx, readArgs_field, lastArg_cons, PArg.as_self]
      cases hl : lastArg k (Gnhast.readArgs F ws) with
      | none => exact ⟨x, hb, rfl⟩
      | some w =>
        obtain ⟨tmp, htmp, rfl⟩ := exists_bare F (fun word hw => Or.inl (hws word hw)) hl
        exact ⟨tmp, htmp, rfl⟩
    · obtain ⟨x, hb, hx⟩ := ih hq' ⟨v, hv⟩
      rcases he with rfl | ⟨t, rfl⟩
      · cases hx
      · have hf : chQuote ∉ Gnhast.field k' v' := by
          have := hq (k', v') (by simp)
          simp [Gnhast.field, (bare_argnm k').1, this, show chQuote ≠ chColon by decide]
        obtain ⟨ws, hws, hl⟩ := (lex_append hf).2
        rw [lex_skip_space] at hx
        refine ⟨x, hb, ?_⟩
        rw [hl, readArgs_append F (fun w hw => (hws w hw).2), lastArg_append, hx]
        rfl

/-! ## Lists -/

/-- A list as the value of a field, if there is something on it. -/
def listField (k : Sc) (uids : List Str) : List (Sc × Str) := if uids = [] then [] else [(k, join chComma uids)]

theorem bare_join {uids : List Str} (h : ∀ u ∈ uids, Bare u) : Bare (join chComma uids) := by
  have hc : chComma ≠ chQuote ∧ chComma ≠ chSpace := by decide
  constructor
  · intro hm
    rcases mem_join hm with he | ⟨u, hu, hm⟩
    · exact hc.1 he.symm
    · exact (h u hu).1 hm
  · intro hm
    rcases mem_join hm with he | ⟨u, hu, hm⟩
    · exact hc.2 he.symm
    · exact (h u hu).2 hm

theorem oneLine_join {uids : List Str} (h : ∀ u ∈ uids, OneLine u) : OneLine (join chComma uids) := by
  have hc : chComma ≠ chNul ∧ chComma ≠ chLf := by decide
  constructor
  · intro hm
    rcases mem_join hm with he | ⟨u, hu, hm⟩
    · exact hc.1 he.symm
    · exact (h u hu).1 hm
  · intro hm
    rcases mem_join hm with he | ⟨u, hu, hm⟩
    · exact hc.2 he.symm
    · exact (h u hu).2 hm

/-! ## The end of a line -/

/-- A list of strings as it is read at the end of a line: a carriage return at its end is taken for a part of the line's end. -/
def stripLast : List Str → List Str
  | [] => []
  | [u] => [stripCr u]
  | u :: us => u :: stripLast us

theorem mem_of_mem_stripCr {c : Byte} {s : Str} (h : c ∈ stripCr s) : c ∈ s := by
  unfold stripCr at h
  split at h
  · exact List.dropLast_subset _ h
  · exact h

theorem stripCr_append_cons {c : Byte} (hc : c ≠ chCr) (u w : Str) : stripCr (u ++ c :: w) = u ++ c :: stripCr w := by
  unfold stripCr
  cases w with
  | nil => simp [hc]
  | cons b w =>
    rw [List.getLast?_append_of_ne_nil _ (List.cons_ne_nil _ _), List.getLast?_cons_cons]
    split
    · rw [List.dropLast_append_of_ne_nil (List.cons_ne_nil _ _), List.dropLast_cons_of_ne_nil (List.cons_ne_nil _ _)]
    · rfl

theorem stripLast_eq_nil {us : List Str} : stripLast us = [] ↔ us = [] := by
  fun_cases stripLast us <;> simp

theorem stripCr_join (us : List Str) : stripCr (join chComma us) = join chComma (stripLast us) := by
  fun_induction stripLast us with
  | case1 => rfl
  | case2 u => rfl
  | case3 u us hne ih =>
    cases us with
    | nil => exact absurd rfl (hne ·)
    | cons v us =>
      rw [join, stripCr_append_cons (by decide), ih]
      cases hs : stripLast (v :: us) with
      | nil => cases stripLast_eq_nil.mp hs
      | cons w ws => rfl

theorem stripLast_append (us : List Str) (u : Str) : stripLast (us ++ [u]) = us ++ [stripCr u] := by
  induction us with
  | nil => rfl
  | cons v us ih =>
    rw [List.cons_append, List.cons_append, ← ih]
    cases us <;> rfl

theorem stripLast_subset {us : List Str} {u : Str} (h : u ∈ stripLast us) : u ∈ us ∨ us.getLast? = some (u ++ [chCr]) := by
  fun_induction stripLast us with
  | case1 => cases h
  | case2 v =>
    rw [List.mem_singleton] at h
    unfold stripCr at h
    split at h
    · rename_i hlast
      refine Or.inr ?_
      rw [h, List.dropLast_append_getLast? _ hlast, List.getLast?_singleton]
    · exact Or.inl (List.mem_singleton.mpr h)
  | case3 v us hne ih =>
    rcases List.mem_cons.mp h with rfl | h
    · exact Or.inl List.mem_cons_self
    · rcases ih h with h | h
      · exact Or.inl (List.mem_cons_of_mem _ h)
      · cases us with
        | nil => cases h
        | cons w ws => exact Or.inr (by rw [List.getLast?_cons_cons, h])

theorem length_stripLast (us : List Str) : (stripLast us).length = us.length := by
  fun_induction stripLast us with
  | case1 => rfl
  | case2 u => rfl
  | case3 u us hne ih => rw [List.length_cons, List.length_cons, ih]

theorem stripCr_eq_self_iff {u : Str} : stripCr u = u ↔ u.getLast? ≠ some chCr := by
  unfold stripCr
  split
  · rename_i h
    refine iff_of_false (fun he => ?_) (fun hne => hne h)
    have hlen := congrArg List.length he
    have hne : u ≠ [] := by
      rintro rfl
      cases h
    have hpos := List.length_pos_iff.mpr hne
    rw [List.length_dropLast] at hlen
    omega
  · rename_i h
    exact iff_of_true rfl h

theorem stripLast_eq_self_iff {us : List Str} : stripLast us = us ↔ ∀ u, us.getLast? = some u → u.getLast? ≠ some chCr := by
  rcases List.eq_nil_or_concat us with rfl | ⟨vs, w, rfl⟩
  · simp [stripLast]
  · rw [List.concat_eq_append, stripLast_append, List.append_cancel_left_eq, List.getLast?_concat, List.cons.injEq,
      and_iff_left rfl, stripCr_eq_self_iff]
    simp

/-- What holds of all strings holds of them as they are read, when a carriage return at the end is of no matter. -/
theorem forall_stripLast {P : Str → Prop} (hP : ∀ u, P (u ++ [chCr]) → P u) {us : List Str} (h : ∀ u ∈ us, P u) :
    ∀ u ∈ stripLast us, P u := by
  intro u hu
  rcases stripLast_subset hu with hu | hu
  · exact h u hu
  · exact hP u (h _ (List.mem_of_getLast? hu))

/-! ## Lines with a uid and a name in front -/

/-- A uid, a name in quotes, and what stands behind it. -/
def headed (uid name tail : Str) : Str :=
  field .uid uid ++ chSpace :: (argnm .name ++ chColon :: chQuote :: (name ++ chQuote :: chSpace :: tail))

/-- The words of such a line, where the uid holds no quote. -/
theorem words_headed {uid : Str} (hu : chQuote ∉ uid) (name tail : Str) :
    ∃ ws : List Str, (∀ y ∈ ws, Bare y ∧ y ≠ []) ∧ lex .skip [] (headed uid name tail) =
      ws ++ lex .quoted (argnm .name ++ [chColon]) (name ++ chQuote :: chSpace :: tail) := by
  have hq : chQuote ∉ field .uid uid := by
    simp [field, hu, (bare_argnm .uid).1]
    decide
  obtain ⟨ws, hws, hl⟩ := (lex_append hq).2
  exact ⟨ws, hws, by rw [headed, hl, lex_field_quote]⟩

/-- With a bare uid, the first word is its field. -/
theorem words_headed_bare {uid : Str} (hu : Bare uid) (name tail : Str) :
    lex .skip [] (headed uid name tail) =
      field .uid uid :: lex .quoted (argnm .name ++ [chColon]) (name ++ chQuote :: chSpace :: tail) := by
  rw [headed, lex_skip_word (bare_field hu) (field_ne_nil _ _), lex_field_quote]

theorem readArgs_headed {uid name : Str} (hu : Bare uid) (hn : Quotable name) (tail : Str) :
    readArgs F (lex .skip [] (headed uid name tail)) = ⟨.uid, uid⟩ :: ⟨.name, name⟩ :: readArgs F (lex .skip [] tail) := by
  have hname : argnm .name ++ [chColon] ++ name = field .name name := by simp [field]
  rw [words_headed_bare hu, lex_quotable hn, hname, readArgs_field, readArgs_field]
  rfl

/-- Where the text between the quotes drops at most one quote, the other arguments are read from bare texts. -/
theorem exists_bare_headed {uid name tail : Str} (hu : chQuote ∉ uid)
    (hd : dropped .quoted (name ++ chQuote :: chSpace :: tail) ≤ 1) {k : Sc} (hk : Sc.name ≠ k) {v : k.type.Carrier}
    (h : lastArg k (readArgs F (lex .skip [] (headed uid name tail))) = some v) :
    ∃ tmp, Bare tmp ∧ v = readValue F k.type tmp := by
  obtain ⟨ws, hws, hl⟩ := words_headed hu name tail
  obtain ⟨x, ws', hx, hws'⟩ := opens_inside (m := .quoted) rfl hd (argnm .name ++ [chColon])
  refine exists_bare F (fun word hw => ?_) h
  rw [hl, hx] at hw
  rcases List.mem_append.mp hw with hw | hw
  · exact Or.inl (hws word hw).1
  · rcases List.mem_cons.mp hw with rfl | hw
    · exact Or.inr ⟨.name, x, hk, by simp [field]⟩
    · exact Or.inl (hws' word hw)

/-! ## Quotes in arguments -/

/-- The quotes of a string that may be missing. -/
def quotes (o : Option Str) : Nat := (o.map (fun v => v.count chQuote)).getD 0

theorem quotes_or (x y : Option Str) : quotes (x.or y) ≤ quotes x + quotes y := by
  cases x <;> simp [quotes]

/-- The quotes in the strings an argument gives a device. -/
def PArg.quotes (a : PArg) : Nat :=
  Gnhast.quotes (a.as .uid : Option Str) + Gnhast.quotes (a.as .name : Option Str) + Gnhast.quotes (a.as .rrdname : Option Str)

theorem quotes_parseWord {word : Str} {a : PArg} (h : parseWord F word = some a) : a.quotes ≤ word.count chQuote := by
  unfold parseWord at h
  split at h
  · cases h
  · rename_i cp tmp hsp
    obtain ⟨rfl, -⟩ := splitAt_eq_some hsp
    split at h
    · cases h
    · rename_i asp _
      cases h
      generalize asp.num = k
      have hle : tmp.count chQuote ≤ (cp ++ chColon :: tmp).count chQuote := by
        simp only [List.count_append, List.count_cons]
        omega
      cases k <;> simp [PArg.quotes, PArg.as, quotes, readValue] at hle ⊢ <;> exact hle

theorem quotes_lastArg (args : List PArg) :
    quotes (lastArg .uid args : Option Str) + quotes (lastArg .name args : Option Str) +
      quotes (lastArg .rrdname args : Option Str) ≤ (args.map PArg.quotes).sum := by
  induction args with
  | nil => simp [quotes]
  | cons a args ih =>
    have h1 := quotes_or (lastArg .uid args) (a.as .uid)
    have h2 := quotes_or (lastArg .name args) (a.as .name)
    have h3 := quotes_or (lastArg .rrdname args) (a.as .rrdname)
    rw [lastArg_cons, lastArg_cons, lastArg_cons, List.map_cons, List.sum_cons]
    simp only [PArg.quotes]
    omega

/-- The quotes in the arguments were quotes in the words. -/
theorem quotes_readArgs (ws : List Str) : ((readArgs F ws).map PArg.quotes).sum ≤ ws.flatten.count chQuote := by
  induction ws with
  | nil => simp
  | cons w ws ih =>
    rw [List.flatten_cons, List.count_append]
    by_cases hw : w = []
    · subst hw
      simp
    · have hcons : readArgs F (w :: ws) = (parseWord F w).toList ++ readArgs F ws := by
        rw [← List.singleton_append, readArgs_append F (by simpa using hw)]
        cases hp : parseWord F w <;> simp [hp]
      rw [hcons, List.map_append, List.sum_append]
      cases hp : parseWord F w with
      | none =>
        simp only [Option.toList_none, List.map_nil, List.sum_nil]
        omega
      | some a =>
        have := quotes_parseWord F hp
        simp only [Option.toList_some, List.map_cons, List.map_nil, List.sum_cons, List.sum_nil]
        omega

end Gnhast
