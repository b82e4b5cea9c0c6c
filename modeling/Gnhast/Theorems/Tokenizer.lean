import Gnhast.Tokenizer
import Mathlib.Algebra.BigOperators.Group.List.Basic

/-!
# The tokenizer stays in its buffers, and takes quoted words apart

What the machine has copied to the scratch buffer is the word so far, and what is left of the line is read as `lex` reads it. Every
byte that is copied was read, so the offset in the scratch buffer never passes that in the line; and as a word ends with a blank or
with the line, the NULs of all words fit too. Between quotes a backslash is read together with the byte behind it, and only a quote
makes them one byte; so a word in quotes with its quotes escaped is read back when no backslash stands in front of the closing quote.
-/

namespace Gnhast.Tokenizer

open CStr Blocks Machines

/-! ## What the machine still makes of the line -/

/-- The words that are read from a place on. -/
def lexAt : Place → Str → Str → List Str
  | .top, w, s => lex .top w s
  | .quoted, w, s => lex .quoted w s
  | .close, w, s => match s with
    | [] => [w]
    | c :: s => if c = chQuote then lex .after w s else lex .after w (c :: s)
  | .test, w, s => lex .after w s
  | .skip, w, s => lex .skip w s

/-- The bytes that words take in a buffer, each with its NUL. -/
def room (words : List Str) : Nat := (words.map fun w => w.length + 1).sum

theorem room_append (xs ys : List Str) : room (xs ++ ys) = room xs + room ys := by
  simp [room]

theorem room_cons (w : Str) (ws : List Str) : room (w :: ws) = w.length + 1 + room ws := by
  simp [room]

/-- What is returned with some words. -/
def Parsed.of (words : List Str) : Parsed := ⟨words, words.length, room words⟩

/-- The machine has copied a word so far, and is to return a result. -/
structure At (line : Str) (st : Scan) (w : Str) (r : Parsed) : Prop where
  inside : st.buf ≤ line.length
  fits : w.length ≤ st.buf
  size : st.mem.length = line.length + 1
  mem : ∃ rest, st.mem = w.map some ++ rest
  buf2 : st.buf2 = w.length
  noNul : chNul ∉ w
  count : st.i = st.words.length
  writes : st.writes = room st.words + w.length
  fresh : st.place = .skip → w = []
  result : r = Parsed.of (st.words ++ lexAt st.place w (line.drop st.buf))

/-! ## The buffers -/

theorem readByte_nil {line : Str} {p : Nat} (hp : p ≤ line.length) (h : line.drop p = []) : readByte line p = .ok chNul := by
  have hlen : p = line.length := by
    have := List.drop_eq_nil_iff.mp h
    omega
  subst hlen
  simp [readByte]

theorem readByte_cons {line rest : Str} {p : Nat} {c : Byte} (h : line.drop p = c :: rest) : readByte line p = .ok c := by
  have hp : p < line.length := by
    by_contra hn
    rw [List.drop_eq_nil_of_le (by omega)] at h
    cases h
  rw [List.drop_eq_getElem_cons hp] at h
  obtain ⟨rfl, -⟩ := List.cons.inj h
  rw [readByte, List.getElem?_append_left hp, List.getElem?_eq_getElem hp]

theorem drop_succ {line rest : Str} {p : Nat} {c : Byte} (h : line.drop p = c :: rest) : line.drop (p + 1) = rest := by
  rw [← List.tail_drop, h, List.tail_cons]

theorem lt_length {line rest : Str} {p : Nat} {c : Byte} (h : line.drop p = c :: rest) : p < line.length := by
  by_contra hn
  rw [List.drop_eq_nil_of_le (by omega)] at h
  cases h

/-- No NUL is read within a line that has none. -/
theorem ne_chNul {line rest : Str} (hnul : chNul ∉ line) {p : Nat} {c : Byte} (h : line.drop p = c :: rest) : c ≠ chNul := by
  rintro rfl
  refine hnul (List.mem_of_mem_drop (i := p) ?_)
  rw [h]
  exact List.mem_cons_self

/-- The string a buffer holds is copied up to its NUL. -/
theorem dup_append {w : Str} (h : chNul ∉ w) (rest : List (Option Byte)) : dup (w.map some ++ some chNul :: rest) = .ok w := by
  induction w with
  | nil => rfl
  | cons c w ih =>
    have hc : c ≠ chNul := fun he => h (by simp [he])
    have hw : chNul ∉ w := fun hm => h (by simp [hm])
    rw [List.map_cons, List.cons_append, dup, if_neg hc, ih hw]
    rfl

/-- The next byte of a word goes behind it. -/
theorem set_mem {mem rest : List (Option Byte)} {w : Str} (h : mem = w.map some ++ rest) (hl : w.length < mem.length) (c : Byte) :
    mem.set w.length (some c) = w.map some ++ some c :: rest.tail := by
  obtain ⟨x, rest, rfl⟩ : ∃ x rest', rest = x :: rest' := by
    refine List.exists_cons_of_length_pos ?_
    rw [h] at hl
    simpa using hl
  rw [h, List.set_append_right _ _ (by simp)]
  simp

namespace At

variable {line : Str} {st : Scan} {w : Str} {r : Parsed}

/-- There is room for one byte more. -/
theorem put_eq (h : At line st w r) (c : Byte) : ∃ rest, (w.map some ++ some c :: rest).length = line.length + 1 ∧ st.put c =
    .ok { st with mem := w.map some ++ some c :: rest, buf2 := w.length + 1, writes := st.writes + 1 } := by
  obtain ⟨rest, hm⟩ := h.mem
  have hlt : w.length < st.mem.length := by
    have h1 := h.fits
    have h2 := h.inside
    have h3 := h.size
    omega
  have hset := set_mem hm hlt c
  refine ⟨rest.tail, ?_, ?_⟩
  · rw [← hset, List.length_set, h.size]
  · rw [Scan.put, h.buf2, if_pos hlt, hset]

/-- A byte is copied, and one or more were read. -/
theorem put (h : At line st w r) {c : Byte} (hc : c ≠ chNul) {p : Nat} (hp : st.buf < p) (hp' : p ≤ line.length) {place : Place}
    (hplace : place ≠ .skip) (hl : lexAt st.place w (line.drop st.buf) = lexAt place (w ++ [c]) (line.drop p)) :
    ∃ st', st.put c = .ok st' ∧ st'.place = st.place ∧ st'.buf = st.buf ∧
      At line { st' with buf := p, place := place } (w ++ [c]) r := by
  obtain ⟨rest, hlen, he⟩ := h.put_eq c
  refine ⟨_, he, rfl, rfl, ⟨hp', ?_, hlen, ⟨rest, by simp⟩, by simp, ?_, h.count, ?_, fun hs => absurd hs hplace, ?_⟩⟩
  · have := h.fits
    simp
    omega
  · simpa [Ne.symm hc] using h.noNul
  · have := h.writes
    simp
    omega
  · rw [h.result, hl]

/-- A word is ended and copied, and the scratch buffer used again. -/
theorem endWord (h : At line st w r) : ∃ mem, mem.length = line.length + 1 ∧ dup mem = .ok w ∧
    st.put chNul = .ok { st with mem := mem, buf2 := w.length + 1, writes := st.writes + 1 } ∧
    st.writes + 1 = room (st.words ++ [w]) := by
  obtain ⟨rest, hlen, he⟩ := h.put_eq chNul
  refine ⟨_, hlen, dup_append h.noNul rest, he, ?_⟩
  rw [room_append, h.writes, room_cons]
  rfl

/-- The machine goes on at another place, or reads a byte that it does not copy. -/
theorem move (h : At line st w r) {p : Nat} (hp : st.buf ≤ p) (hp' : p ≤ line.length) {place : Place} (hplace : place = .skip → w = [])
    (hl : lexAt st.place w (line.drop st.buf) = lexAt place w (line.drop p)) : At line { st with buf := p, place := place } w r :=
  ⟨hp', Nat.le_trans h.fits hp, h.size, h.mem, h.buf2, h.noNul, h.count, h.writes, hplace, by rw [h.result, hl]⟩

end At

/-! ## Steps -/

/-- A backslash between quotes is copied where no quote follows. -/
theorem lex_quoted_backslash {s : Str} (h : s.head? ≠ some chQuote) (w : Str) :
    lex .quoted w (chBackslash :: s) = lex .quoted (w ++ [chBackslash]) s := by
  have hne : chBackslash ≠ chQuote := by decide
  rw [lex, if_neg hne, if_pos rfl]
  cases s with
  | nil => rfl
  | cons c s => exact lex_escaped (fun he => h (by rw [he]; rfl)) w s

/-- How far the machine is from its end: each byte takes at most three statements. -/
def rank : Place → Nat
  | .top => 1
  | .quoted => 2
  | .close => 1
  | .test => 0
  | .skip => 2

def left (line : Str) (st : Scan) : Nat := 3 * (line.length - st.buf) + rank st.place

/-- A step returns the result, or brings the machine nearer to it. -/
def Goes (line : Str) (st : Scan) (r : Parsed) : Prop :=
  step line st = .ok (.inr r) ∨ ∃ st', step line st = .ok (.inl st') ∧ (∃ w, At line st' w r) ∧ left line st' < left line st

section Steps

variable {line : Str} {st : Scan} {w : Str} {r : Parsed}

/-- A step that moves to another place, or over a byte that is not copied. -/
theorem goes_move (h : At line st w r) {p : Nat} (hp : st.buf ≤ p) (hp' : p ≤ line.length) (place : Place)
    (hplace : place = .skip → w = []) (hl : lexAt st.place w (line.drop st.buf) = lexAt place w (line.drop p))
    (hlt : st.buf < p ∨ rank place < rank st.place) (hstep : step line st = .ok (.inl { st with buf := p, place := place })) :
    Goes line st r := by
  refine Or.inr ⟨_, hstep, ⟨w, h.move hp hp' hplace hl⟩, ?_⟩
  have h1 : rank place ≤ 2 := by cases place <;> decide
  simp only [left]
  omega

/-- A step that copies a byte. -/
theorem goes_put (h : At line st w r) {c : Byte} (hc : c ≠ chNul) {p : Nat} (hp : st.buf < p) (hp' : p ≤ line.length) (place : Place)
    (hplace : place ≠ .skip) (hl : lexAt st.place w (line.drop st.buf) = lexAt place (w ++ [c]) (line.drop p))
    (hstep : step line st = (st.put c).map fun st' => .inl { st' with buf := p, place := place }) : Goes line st r := by
  obtain ⟨st', hst', -, -, hat⟩ := h.put hc hp hp' hplace hl
  refine Or.inr ⟨{ st' with buf := p, place := place }, by rw [hstep, hst']; rfl, ⟨_, hat⟩, ?_⟩
  have h1 : rank place ≤ 2 := by cases place <;> decide
  simp only [left]
  omega

theorem goes_top (h : At line st w r) (hplace : st.place = .top) : Goes line st r := by
  cases hd : line.drop st.buf with
  | nil =>
    refine goes_move h le_rfl h.inside .test (by simp) (by rw [hplace, hd]; simp [lexAt, lex]) (by simp [hplace, rank]) ?_
    rw [step, readByte_nil h.inside hd, hplace]
    rfl
  | cons c rest =>
    have hstep : step line st = if c = chQuote then .ok (.inl { st with buf := st.buf + 1, place := .quoted })
        else .ok (.inl { st with place := .test }) := by
      rw [step, readByte_cons hd, hplace]
      rfl
    by_cases hq : c = chQuote
    · rw [if_pos hq] at hstep
      refine goes_move h (Nat.le_succ _) (lt_length hd) _ (by simp) ?_ (Or.inl (Nat.lt_succ_self _)) hstep
      rw [hplace, hd, drop_succ hd]
      simp [lexAt, lex, hq]
    · rw [if_neg hq] at hstep
      refine goes_move h le_rfl h.inside _ (by simp) ?_ (by simp [hplace, rank]) hstep
      rw [hplace, hd]
      simp [lexAt, lex, hq]

/-- A step that copies a byte and stays where it is. -/
theorem goes_copy (h : At line st w r) {c : Byte} (hc : c ≠ chNul) {p : Nat} (hp : st.buf < p) (hp' : p ≤ line.length)
    (hplace : st.place ≠ .skip) (hl : lexAt st.place w (line.drop st.buf) = lexAt st.place (w ++ [c]) (line.drop p))
    (hstep : step line st = (st.put c).map fun st' => .inl { st' with buf := p }) : Goes line st r := by
  refine goes_put h hc hp hp' _ hplace hl (hstep.trans ?_)
  obtain ⟨rest, -, he⟩ := h.put_eq c
  rw [he]
  rfl

/-- The statement that is chosen between quotes, for a byte that stands there. -/
theorem step_quoted (hplace : st.place = .quoted) {c : Byte} (hread : readByte line st.buf = .ok c) (hc : c ≠ chNul) (hq : c ≠ chQuote) :
    step line st = if c = chBackslash then
      (readByte line (st.buf + 1)).bind fun c' =>
        if c' = chQuote then (st.put c').map fun st => .inl { st with buf := st.buf + 2 }
        else (st.put c).map fun st => .inl { st with buf := st.buf + 1 }
    else (st.put c).map fun st => .inl { st with buf := st.buf + 1 } := by
  rw [step, hread, hplace]
  exact if_pos ⟨hc, hq⟩

/-- The offset in the line is not one of the things that a write changes. -/
theorem map_put_buf (h : At line st w r) (c : Byte) (n : Nat) :
    (st.put c).map (fun st' => (.inl { st' with buf := st'.buf + n } : Scan ⊕ Parsed)) =
      (st.put c).map fun st' => .inl { st' with buf := st.buf + n } := by
  obtain ⟨rest, -, he⟩ := h.put_eq c
  rw [he]
  rfl

/-- Between quotes a byte is copied, and of a backslash and a quote the quote is. -/
theorem goes_quoted (h : At line st w r) (hnul : chNul ∉ line) (hplace : st.place = .quoted) : Goes line st r := by
  have hskip : st.place ≠ .skip := by simp [hplace]
  cases hd : line.drop st.buf with
  | nil =>
    refine goes_move h le_rfl h.inside .close (by simp) (by rw [hplace, hd]; simp [lexAt, lex]) (by simp [hplace, rank]) ?_
    rw [step, readByte_nil h.inside hd, hplace]
    rfl
  | cons c rest =>
    have hread := readByte_cons hd
    have hlt := lt_length hd
    have hrest := drop_succ hd
    have hc := ne_chNul hnul hd
    by_cases hq : c = chQuote
    · refine goes_move h le_rfl h.inside .close (by simp) ?_ (by simp [hplace, rank]) ?_
      · rw [hplace, hd]
        simp [lexAt, lex, hq]
      · rw [step, hread, hplace]
        simp [Except.bind, hq]
    · have hstep := step_quoted hplace hread hc hq
      by_cases hb : c = chBackslash
      · rw [if_pos hb] at hstep
        by_cases hesc : rest.head? = some chQuote
        · obtain ⟨rest, rfl⟩ : ∃ rest', rest = chQuote :: rest' := List.head?_eq_some_iff.mp hesc
          rw [readByte_cons hrest] at hstep
          refine goes_copy h (c := chQuote) (by decide) (by omega) (lt_length hrest) hskip ?_ (hstep.trans (map_put_buf h _ 2))
          rw [hplace, hd, drop_succ hrest, hb]
          simp [lexAt, lex, chQuote, chBackslash]
        · have hnext : ∃ c', readByte line (st.buf + 1) = .ok c' ∧ c' ≠ chQuote := by
            cases rest with
            | nil => exact ⟨chNul, readByte_nil hlt hrest, by decide⟩
            | cons c' rest => exact ⟨c', readByte_cons hrest, fun he => hesc (by rw [he]; rfl)⟩
          obtain ⟨c', hread', hne⟩ := hnext
          rw [hread'] at hstep
          refine goes_copy h hc (Nat.lt_succ_self _) hlt hskip ?_ ((hstep.trans (if_neg hne)).trans (map_put_buf h c 1))
          rw [hplace, hd, hrest, hb]
          exact lex_quoted_backslash hesc w
      · rw [if_neg hb] at hstep
        refine goes_copy h hc (Nat.lt_succ_self _) hlt hskip ?_ (hstep.trans (map_put_buf h c 1))
        rw [hplace, hd, hrest]
        simp [lexAt, lex, hq, hb]

/-- A closing quote is passed over. -/
theorem goes_close (h : At line st w r) (hplace : st.place = .close) : Goes line st r := by
  cases hd : line.drop st.buf with
  | nil =>
    refine goes_move h le_rfl h.inside .test (by simp) (by rw [hplace, hd]; simp [lexAt, lex]) (by simp [hplace, rank]) ?_
    rw [step, readByte_nil h.inside hd, hplace]
    rfl
  | cons c rest =>
    have hstep : step line st = .ok (.inl { st with buf := if c = chQuote then st.buf + 1 else st.buf, place := .test }) := by
      rw [step, readByte_cons hd, hplace]
      rfl
    by_cases hq : c = chQuote
    · rw [if_pos hq] at hstep
      refine goes_move h (Nat.le_succ _) (lt_length hd) _ (by simp) ?_ (Or.inl (Nat.lt_succ_self _)) hstep
      rw [hplace, hd, drop_succ hd]
      simp [lexAt, hq]
    · rw [if_neg hq] at hstep
      refine goes_move h le_rfl h.inside _ (by simp) ?_ (by simp [hplace, rank]) hstep
      rw [hplace, hd]
      simp [lexAt, hq]

/-- At the end of a word the machine starts the next one, or returns. -/
theorem goes_test (h : At line st w r) (hnul : chNul ∉ line) (hplace : st.place = .test) : Goes line st r := by
  obtain ⟨mem, hlen, hdup, hput, hroom⟩ := h.endWord
  cases hd : line.drop st.buf with
  | nil =>
    refine Or.inl ?_
    rw [step, readByte_nil h.inside hd, hplace, h.result, hplace, hd]
    simp only [Except.bind, or_true, if_true, hput, hdup, Except.map, lexAt, lex, Parsed.of, hroom, h.count]
    simp
  | cons c rest =>
    have hc := ne_chNul hnul hd
    have hread := readByte_cons hd
    have hlt := lt_length hd
    have hrest := drop_succ hd
    by_cases hs : c = chSpace
    · have hstep : step line st = .ok (.inl { st with
          buf := st.buf + 1, place := .skip, mem := mem, buf2 := 0, words := st.words ++ [w], i := st.i + 1,
          writes := st.writes + 1 }) := by
        rw [step, hread, hplace]
        simp only [Except.bind, hs, true_or, if_true, hput, hdup, Except.map, if_neg (show chSpace ≠ chNul by decide)]
      refine Or.inr ⟨_, hstep, ⟨[], hlt, Nat.zero_le _, hlen, ⟨mem, rfl⟩, rfl, by simp, ?_, hroom, fun _ => rfl, ?_⟩, ?_⟩
      · simp [h.count]
      · rw [h.result, hplace, hd, hrest]
        simp [lexAt, lex, hs]
      · simp only [left, rank]
        omega
    · refine goes_put h hc (Nat.lt_succ_self _) hlt .top (by simp) ?_ ?_
      · rw [hplace, hd, hrest]
        simp [lexAt, lex, hs]
      · rw [step, hread, hplace]
        simp only [Except.bind, hs, hc, or_self, if_false]
        obtain ⟨rest, -, he⟩ := h.put_eq c
        rw [he]
        rfl

theorem goes_skip (h : At line st w r) (hplace : st.place = .skip) : Goes line st r := by
  have hw := h.fresh hplace
  cases hd : line.drop st.buf with
  | nil =>
    refine goes_move h le_rfl h.inside .top (by simp) (by rw [hplace, hd]; simp [lexAt, lex]) (by simp [hplace, rank]) ?_
    rw [step, readByte_nil h.inside hd, hplace]
    rfl
  | cons c rest =>
    have hstep : step line st = .ok (.inl (if c = chSpace then { st with buf := st.buf + 1 } else { st with place := .top })) := by
      rw [step, readByte_cons hd, hplace]
      rfl
    by_cases hs : c = chSpace
    · rw [if_pos hs] at hstep
      refine goes_move h (Nat.le_succ _) (lt_length hd) .skip (fun _ => hw) ?_ (Or.inl (Nat.lt_succ_self _)) (by rw [hstep, ← hplace])
      rw [hplace, hd, drop_succ hd]
      simp [lexAt, lex, hs]
    · rw [if_neg hs] at hstep
      refine goes_move h le_rfl h.inside _ (by simp) ?_ (by simp [hplace, rank]) hstep
      rw [hplace, hd, hw]
      simp [lexAt, lex_skip hs]

/-- Every step returns the result, or brings the machine nearer to it. -/
theorem goes (h : At line st w r) (hnul : chNul ∉ line) : Goes line st r := by
  cases hplace : st.place with
  | top => exact goes_top h hplace
  | quoted => exact goes_quoted h hnul hplace
  | close => exact goes_close h hplace
  | test => exact goes_test h hnul hplace
  | skip => exact goes_skip h hplace

end Steps

theorem at_start (line : Str) : At line (start line) [] (Parsed.of (lex .top [] line)) :=
  ⟨Nat.zero_le _, Nat.zero_le _, List.length_replicate, ⟨_, rfl⟩, rfl, by simp, rfl, rfl, fun _ => rfl, rfl⟩

/-- The machine halts with the words that `lex` reads. -/
theorem halts_start {line : Str} (hnul : chNul ∉ line) :
    Halts (step line) (start line) (Parsed.of (lex .top [] line)) := by
  have hat : ∃ w, At line (start line) w (Parsed.of (lex .top [] line)) := ⟨[], at_start line⟩
  have hgo : ∀ st r, (∃ w, At line st w r) → Goes line st r := by
    rintro st r ⟨w, h⟩
    exact goes h hnul
  exact Halts.of_measure (left line) hgo hat

/-! ## How much is written -/

/-- The words of a line take no more room than the line: each of them ends with a blank that was read, or with the line. -/
theorem room_lex (m : Mode) (w s : Str) : room (lex m w s) ≤ w.length + s.length + 1 + if m = .escaped then 1 else 0 := by
  induction s generalizing m w with
  | nil => cases m <;> simp [lex, room]
  | cons c s ih =>
    have hword : ∀ w : Str, room (w :: lex .skip [] s) ≤ w.length + (c :: s).length + 1 := by
      intro w
      have := ih .skip []
      rw [room_cons]
      simp at this ⊢
      omega
    have hput : ∀ (m : Mode) (w x : Str), m ≠ .escaped → x.length ≤ w.length + 1 → room (lex m x s) ≤ w.length + (c :: s).length + 1 := by
      intro m w x hm hx
      have := ih m x
      rw [if_neg hm] at this
      simp
      omega
    cases m with
    | top =>
      rw [lex]
      split
      · exact hput .quoted w w (by simp) (by simp)
      · split
        · exact hword w
        · exact hput .top w _ (by simp) (by simp)
    | quoted =>
      rw [lex]
      split
      · exact hput .after w w (by simp) (by simp)
      · split
        · have := ih .escaped w
          simp at this ⊢
          omega
        · exact hput .quoted w _ (by simp) (by simp)
    | escaped =>
      rw [lex]
      split
      · have := hput .quoted w (w ++ [c]) (by simp) (by simp)
        simp at this ⊢
        omega
      · split
        · have := ih .escaped (w ++ [chBackslash])
          simp at this ⊢
          omega
        · have := ih .quoted (w ++ [chBackslash, c])
          simp at this ⊢
          omega
    | after =>
      rw [lex]
      split
      · exact hword w
      · exact hput .top w _ (by simp) (by simp)
    | skip =>
      rw [lex]
      split
      · exact hput .skip w w (by simp) (by simp)
      · split
        · exact hput .quoted w w (by simp) (by simp)
        · exact hput .top w _ (by simp) (by simp)

/-! ## Words in quotes -/

/-- A word with a backslash in front of every quote. -/
def escape (w : Str) : Str := w.flatMap fun c => if c = chQuote then [chBackslash, chQuote] else [c]

/-- A word in quotes. -/
def quoteWord (w : Str) : Str := chQuote :: (escape w ++ [chQuote])

/-- Words in quotes, with one or more blanks between them. -/
inductive Quoted : List Str → Str → Prop
  | one (w : Str) : Quoted [w] (quoteWord w)
  | cons (w : Str) (n : Nat) {ws : List Str} {s : Str} (rest : Quoted ws s) :
      Quoted (w :: ws) (quoteWord w ++ List.replicate (n + 1) chSpace ++ s)

/-- The bytes that an escaped word starts with. -/
theorem head?_escape {w : Str} (h : w ≠ []) (s : Str) : (escape w ++ s).head? ≠ some chQuote := by
  obtain ⟨c, w, rfl⟩ := List.exists_cons_of_ne_nil h
  unfold escape
  rw [List.flatMap_cons]
  split
  · simp [chBackslash, chQuote]
  · rename_i hc
    simpa using hc

/-- What a word is escaped to is read back as the word, up to a closing quote. -/
theorem lex_escape {w : Str} (h : ¬ EndsInBackslash w) (v s : Str) :
    lex .quoted v (escape w ++ chQuote :: s) = lex .after (v ++ w) s := by
  induction w generalizing v with
  | nil => simp [escape, lex]
  | cons c w ih =>
    have hw : ¬ EndsInBackslash w := by
      intro hb
      refine h ?_
      unfold EndsInBackslash at hb ⊢
      rw [List.getLast?_cons, hb]
      rfl
    have hcons : v ++ c :: w = v ++ [c] ++ w := by simp
    rw [hcons, ← ih hw]
    by_cases hq : c = chQuote
    · subst hq
      rfl
    · have hesc : escape (c :: w) = c :: escape w := by
        unfold escape
        rw [List.flatMap_cons, if_neg hq]
        rfl
      rw [hesc, List.cons_append]
      by_cases hb : c = chBackslash
      · -- it is not the last byte of the word, and no quote follows
        subst hb
        have hne : w ≠ [] := by
          rintro rfl
          exact h rfl
        exact lex_quoted_backslash (head?_escape hne _) v
      · rw [lex, if_neg hq, if_neg hb]

theorem lex_skip_blanks (n : Nat) (s : Str) : lex .skip [] (List.replicate n chSpace ++ s) = lex .skip [] s := by
  induction n with
  | zero => rfl
  | succ n ih => rw [List.replicate_succ, List.cons_append, lex_skip_space, ih]

/-- Words in quotes are read back. -/
theorem lex_quoted {words : List Str} {s : Str} (h : Quoted words s) (hw : ∀ w ∈ words, ¬ EndsInBackslash w) :
    lex .skip [] s = words := by
  have hopen : ∀ w s : Str, lex .skip [] (quoteWord w ++ s) = lex .quoted [] (escape w ++ chQuote :: s) := by
    intro w s
    simp [quoteWord, lex, chQuote, chSpace]
  induction h with
  | one w =>
    have he := hopen w []
    rw [List.append_nil] at he
    rw [he, lex_escape (hw w List.mem_cons_self)]
    rfl
  | cons w n rest ih =>
    rw [List.append_assoc, hopen, lex_escape (hw w List.mem_cons_self), List.replicate_succ, List.cons_append, lex, if_pos rfl,
      lex_skip_blanks, ih fun x hx => hw x (List.mem_cons_of_mem _ hx)]
    rfl

theorem notMem_quoted {words : List Str} {s : Str} (h : Quoted words s) (hw : ∀ w ∈ words, chNul ∉ w) : chNul ∉ s := by
  have hesc : ∀ w : Str, chNul ∉ w → chNul ∉ quoteWord w := by
    intro w hnul hm
    simp only [quoteWord, escape, List.mem_cons, List.mem_append, List.mem_flatMap, List.mem_nil_iff, or_false] at hm
    rcases hm with hm | ⟨c, hc, hm⟩ | hm
    · exact absurd hm (by decide)
    · split at hm
      · exact absurd hm (by decide)
      · rw [List.mem_singleton.mp hm] at hnul
        exact hnul hc
    · exact absurd hm (by decide)
  induction h with
  | one w => exact hesc w (hw w List.mem_cons_self)
  | cons w n rest ih =>
    intro hm
    rcases List.mem_append.mp hm with hm | hm
    · rcases List.mem_append.mp hm with hm | hm
      · exact hesc w (hw w List.mem_cons_self) hm
      · exact absurd (List.eq_of_mem_replicate hm) (by decide)
    · exact ih (fun x hx => hw x (List.mem_cons_of_mem _ hx)) hm

theorem exists_cons_of_quoted {words : List Str} {s : Str} (h : Quoted words s) : ∃ s', s = chQuote :: s' := by
  cases h with
  | one w => exact ⟨_, rfl⟩
  | cons w n rest => exact ⟨_, rfl⟩

/-! ## What `parse_netcommand` returns -/

/-- `parse_netcommand` returns the words of `lex`, and their number; its writes fit the scratch buffer together. -/
theorem returns_parseNetcommand {line : Str} (hnul : chNul ∉ line) : Returns line ((parseNetcommand line).map Parsed.of) := by
  unfold Returns parseNetcommand
  split
  · rfl
  · exact ⟨_, rfl, halts_start hnul⟩

/-- Words in quotes, with their quotes escaped and blanks between them, are returned as they were. And for every line
`parse_netcommand` ends without reading behind the NUL or writing outside the scratch buffer, to which it writes no more bytes than
the line has, and one. -/
theorem parse_netcommand_spec :
    (∀ words s, Quoted words s → (∀ w ∈ words, chNul ∉ w ∧ chLf ∉ w ∧ ¬ EndsInBackslash w) →
      ∃ p, Returns s (some p) ∧ p.words = words ∧ p.argCount = words.length) ∧
    ∀ line, chNul ∉ line → ∃ r, Returns line r ∧ r.map Parsed.words = parseNetcommand line ∧
      ∀ p, r = some p → p.writes ≤ line.length + 1 := by
  constructor
  · intro words s h hw
    have hnul := notMem_quoted h fun w hm => (hw w hm).1
    obtain ⟨s', rfl⟩ := exists_cons_of_quoted h
    have hlex := lex_quoted h fun w hm => (hw w hm).2.2
    rw [lex_skip (by decide)] at hlex
    have hret := returns_parseNetcommand hnul
    rw [parseNetcommand, if_neg (List.cons_ne_nil _ _), hlex] at hret
    exact ⟨_, hret, rfl, rfl⟩
  · intro line hnul
    refine ⟨_, returns_parseNetcommand hnul, ?_, ?_⟩
    · cases parseNetcommand line with
      | none => rfl
      | some words => rfl
    · intro p hp
      obtain ⟨words, hwords, rfl⟩ := Option.map_eq_some_iff.mp hp
      unfold parseNetcommand at hwords
      split at hwords
      · cases hwords
      · cases hwords
        have := room_lex .top [] line
        simpa [Parsed.of] using this

theorem parse_netcommand_spec_hello : ∃ p, Returns (str "\"say\"  \"a \\\"b\\\"\"") (some p) ∧ p.words = [str "say", str "a \"b\""] ∧
    p.argCount = 2 :=
  parse_netcommand_spec.1 [str "say", str "a \"b\""] _ (.cons (str "say") 1 (.one (str "a \"b\""))) (by decide)

end Gnhast.Tokenizer
