import Gnhast.Lib.Machines
import Mathlib.Data.List.Basic
import Mathlib.Logic.Relation

/-!
# Loops that drain a buffer

A loop looks at the front of its buffer again and again. It leaves, or takes what it sees for a frame: a frame that is there in whole is
drained, and handled if it is good; for one that is not the loop is left. Or it sees something that it has no case for, and looks again.
So it leaves exactly the buffers that consist of frames with an end, and it handles the good frames of these. `Mixed` says what a buffer
holds when bytes that start no frame may stand between good frames.
-/

namespace Drains

open Machines

/-- What a loop sees at the front of its buffer. -/
inductive Front (κ : Type)
  | leave
  | stay
  | frame (k : κ)

/-- A loop: what it sees, and which frames are how long and which are good. Of a frame that is there, the frame alone is looked at. -/
structure Loop (β κ : Type) where
  front : List β → Front κ
  size : κ → Nat
  good : κ → List β → Bool
  size_pos : ∀ k, 0 < size k
  front_local : ∀ b k, front b = .frame k → size k ≤ b.length → ∀ rest, front (b.take (size k) ++ rest) = .frame k

/-- The buffer of a loop, and the frames it has handled. -/
structure State (β κ : Type) where
  buf : List β
  handled : List (κ × List β) := []

variable {β κ : Type} (L : Loop β κ)

namespace Loop

/-- One look at the buffer. -/
def step (s : State β κ) : Except Empty (State β κ ⊕ State β κ) :=
  match L.front s.buf with
  | .leave => .ok (.inr s)
  | .stay => .ok (.inl s)
  | .frame k =>
    if s.buf.length < L.size k then .ok (.inr s)
    else
      let data := s.buf.take (L.size k)
      .ok (.inl { buf := s.buf.drop (L.size k), handled := if L.good k data then s.handled ++ [(k, data)] else s.handled })

/-- A frame, whatever stands behind it. -/
def IsFrame (p : κ × List β) : Prop := p.2.length = L.size p.1 ∧ ∀ rest, L.front (p.2 ++ rest) = .frame p.1

/-- What a loop is left at. -/
def Ends (b : List β) : Prop := L.front b = .leave ∨ ∃ k, L.front b = .frame k ∧ b.length < L.size k

/-- The bytes of some frames. -/
def bytes (fs : List (κ × List β)) : List β := fs.flatMap Prod.snd

/-- A buffer that consists of frames and an end. -/
def Framed (b : List β) : Prop := ∃ fs tail, b = bytes fs ++ tail ∧ (∀ p ∈ fs, L.IsFrame p) ∧ L.Ends tail

/-- A buffer that consists of good frames, with bytes in between that start none. -/
inductive Mixed : List β → List (κ × List β) → Prop
  | nil : Mixed [] []
  | frame {p : κ × List β} {b : List β} {items : List (κ × List β)} (h : L.IsFrame p) (good : L.good p.1 p.2 = true)
      (rest : Mixed b items) : Mixed (p.2 ++ b) (p :: items)
  | junk {c : β} {b : List β} {items : List (κ × List β)} (h : ∀ k, L.front (c :: b) ≠ .frame k) (rest : Mixed b items) :
      Mixed (c :: b) items

/-- Behind good frames, the loop is left at bytes that start no frame, though there are more good frames. -/
def Stray (b : List β) : Prop :=
  ∃ fs tail items, b = bytes fs ++ tail ∧ (∀ p ∈ fs, L.IsFrame p ∧ L.good p.1 p.2 = true) ∧ L.front tail = .leave ∧
    L.Mixed tail items ∧ items ≠ []

/-- A step from one state to the next. -/
def Next (s s' : State β κ) : Prop := L.step s = .ok (.inl s')

/-- The loop is left, each round before takes something from the buffer, and what consists of good frames with bytes in between that
start none has its frames handled, each once and in order. -/
structure Reads (b : List β) : Prop where
  leaves : ∃ r, Halts L.step ⟨b, []⟩ r
  drains : ∀ s s', Relation.ReflTransGen L.Next ⟨b, []⟩ s → L.Next s s' → s'.buf.length < s.buf.length
  handles : ∀ r items, Halts L.step ⟨b, []⟩ r → L.Mixed b items → r.handled = items

variable {L}

/-! ## Steps -/

theorem step_frame {p : κ × List β} (h : L.IsFrame p) (b : List β) (out : List (κ × List β)) :
    L.step ⟨p.2 ++ b, out⟩ = .ok (.inl ⟨b, out ++ [p].filter fun p => L.good p.1 p.2⟩) := by
  obtain ⟨hlen, hfront⟩ := h
  unfold step
  simp only [hfront b]
  rw [if_neg (by rw [List.length_append]; omega), ← hlen, List.take_left', List.drop_left']
  · cases hg : L.good p.1 p.2 <;> simp [hg]
  · rfl
  · rfl

theorem step_end {b : List β} (h : L.Ends b) (out : List (κ × List β)) : L.step ⟨b, out⟩ = .ok (.inr ⟨b, out⟩) := by
  unfold step
  rcases h with h | ⟨k, h, hlt⟩
  · simp only [h]
  · simp only [h]
    rw [if_pos hlt]

/-- What a step has done. -/
theorem step_cases (s : State β κ) : (L.Ends s.buf ∧ L.step s = .ok (.inr s)) ∨ (L.front s.buf = .stay ∧ L.step s = .ok (.inl s)) ∨
    ∃ p b, s.buf = p.2 ++ b ∧ L.IsFrame p ∧ L.step s = .ok (.inl ⟨b, s.handled ++ [p].filter fun p => L.good p.1 p.2⟩) := by
  cases hf : L.front s.buf with
  | leave => exact Or.inl ⟨Or.inl hf, step_end (Or.inl hf) s.handled⟩
  | stay =>
    refine Or.inr (Or.inl ⟨rfl, ?_⟩)
    unfold step
    simp only [hf]
  | frame k =>
    by_cases hlt : s.buf.length < L.size k
    · exact Or.inl ⟨Or.inr ⟨k, hf, hlt⟩, step_end (Or.inr ⟨k, hf, hlt⟩) s.handled⟩
    · have hframe : L.IsFrame (k, s.buf.take (L.size k)) := by
        refine ⟨?_, L.front_local s.buf k hf (by omega)⟩
        rw [List.length_take]
        exact Nat.min_eq_left (by omega)
      have hbuf : s.buf = s.buf.take (L.size k) ++ s.buf.drop (L.size k) := (List.take_append_drop _ _).symm
      refine Or.inr (Or.inr ⟨_, _, hbuf, hframe, ?_⟩)
      conv_lhs => rw [show s = ⟨s.buf.take (L.size k) ++ s.buf.drop (L.size k), s.handled⟩ by rw [← hbuf]]
      exact step_frame hframe _ _

/-! ## Whole runs -/

theorem halts_of_frames {fs : List (κ × List β)} {tail : List β} (hfs : ∀ p ∈ fs, L.IsFrame p) (ht : L.Ends tail)
    (out : List (κ × List β)) : Halts L.step ⟨bytes fs ++ tail, out⟩ ⟨tail, out ++ fs.filter fun p => L.good p.1 p.2⟩ := by
  induction fs generalizing out with
  | nil =>
    rw [List.filter_nil, List.append_nil]
    exact .done (step_end ht out)
  | cons p fs ih =>
    have hstep := step_frame (hfs p List.mem_cons_self) (bytes fs ++ tail) out
    have hrest := ih (fun q hq => hfs q (List.mem_cons_of_mem _ hq)) (out ++ [p].filter fun p => L.good p.1 p.2)
    rw [List.append_assoc, ← List.filter_append, List.singleton_append] at hrest
    have hbytes : bytes (p :: fs) ++ tail = p.2 ++ (bytes fs ++ tail) := by simp [bytes]
    rw [hbytes]
    exact .step hstep hrest

theorem framed_cons {p : κ × List β} {b : List β} (hp : L.IsFrame p) (h : L.Framed b) : L.Framed (p.2 ++ b) := by
  obtain ⟨fs, tail, rfl, hfs, ht⟩ := h
  refine ⟨p :: fs, tail, by simp [bytes], ?_, ht⟩
  intro q hq
  rcases List.mem_cons.mp hq with rfl | hq
  · exact hp
  · exact hfs q hq

theorem framed_of_halts {s r : State β κ} (h : Halts L.step s r) : L.Framed s.buf := by
  induction h with
  | @done s r h =>
    rcases step_cases (L := L) s with ⟨hend, -⟩ | ⟨-, hs⟩ | ⟨p, b, -, -, hs⟩
    · exact ⟨[], s.buf, rfl, by simp, hend⟩
    · rw [h] at hs
      cases hs
    · rw [h] at hs
      cases hs
  | @step s s' r h rest ih =>
    rcases step_cases (L := L) s with ⟨-, hs⟩ | ⟨-, hs⟩ | ⟨p, b, hbuf, hp, hs⟩
    · rw [h] at hs
      cases hs
    · rw [h] at hs
      cases hs
      exact ih
    · rw [h] at hs
      cases hs
      rw [hbuf]
      exact framed_cons hp ih

/-- From a buffer of frames and an end, a round leads to another one, and takes something. -/
theorem framed_next {s s' : State β κ} (h : L.Framed s.buf) (hn : L.Next s s') : L.Framed s'.buf ∧ s'.buf.length < s.buf.length := by
  obtain ⟨fs, tail, hb, hfs, ht⟩ := h
  cases fs with
  | nil =>
    have hs : L.step s = .ok (.inr s) := by
      have hend := step_end ht s.handled
      rwa [show tail = s.buf from hb.symm] at hend
    unfold Next at hn
    rw [hs] at hn
    cases hn
  | cons p fs =>
    have hp := hfs p List.mem_cons_self
    have hb' : s.buf = p.2 ++ (bytes fs ++ tail) := by
      rw [hb]
      simp [bytes]
    have hs := step_frame hp (bytes fs ++ tail) s.handled
    rw [← hb'] at hs
    unfold Next at hn
    rw [hs] at hn
    cases hn
    refine ⟨⟨fs, tail, rfl, fun q hq => hfs q (List.mem_cons_of_mem _ hq), ht⟩, ?_⟩
    have hpos := L.size_pos p.1
    have hlen := hp.1
    simp only [hb', List.length_append]
    omega

/-! ## Mixed buffers -/

/-- What opens with a frame holds that frame. -/
theorem mixed_of_frame {p : κ × List β} {b b₀ : List β} {items : List (κ × List β)} (hp : L.IsFrame p) (h : L.Mixed b₀ items)
    (hb : b₀ = p.2 ++ b) : L.good p.1 p.2 = true ∧ ∃ items', items = p :: items' ∧ L.Mixed b items' := by
  have hfront : L.front b₀ = .frame p.1 := hb ▸ hp.2 b
  cases h with
  | nil =>
    have hpos := L.size_pos p.1
    have hlen := congrArg List.length hb
    rw [List.length_append, hp.1, List.length_nil] at hlen
    omega
  | @frame q b' items' hq good rest =>
    have hkind : p.1 = q.1 := by
      rw [hq.2 b'] at hfront
      exact (Front.frame.inj hfront).symm
    have hlen : q.2.length = p.2.length := by rw [hq.1, hp.1, hkind]
    obtain ⟨hbytes, hrest⟩ := List.append_inj hb hlen
    have hpq : q = p := Prod.ext hkind.symm hbytes
    subst hpq hrest
    exact ⟨good, items', rfl, rest⟩
  | junk hno rest => exact absurd hfront (hno p.1)

/-- What opens with frames holds these, and they are good. -/
theorem mixed_of_frames {fs : List (κ × List β)} {tail : List β} {items : List (κ × List β)} (hfs : ∀ p ∈ fs, L.IsFrame p)
    (h : L.Mixed (bytes fs ++ tail) items) :
    (∀ p ∈ fs, L.good p.1 p.2 = true) ∧ ∃ items', items = fs ++ items' ∧ L.Mixed tail items' := by
  induction fs generalizing items with
  | nil => exact ⟨by simp, items, rfl, h⟩
  | cons p fs ih =>
    obtain ⟨hgood, items', rfl, h'⟩ := mixed_of_frame (b := bytes fs ++ tail) (hfs p List.mem_cons_self) h (by simp [bytes])
    obtain ⟨hall, items'', rfl, h''⟩ := ih (fun q hq => hfs q (List.mem_cons_of_mem _ hq)) h'
    refine ⟨fun q hq => ?_, items'', rfl, h''⟩
    rcases List.mem_cons.mp hq with rfl | hq
    · exact hgood
    · exact hall q hq

theorem mixed_frames {fs : List (κ × List β)} {tail : List β} {items : List (κ × List β)}
    (hfs : ∀ p ∈ fs, L.IsFrame p ∧ L.good p.1 p.2 = true) (h : L.Mixed tail items) : L.Mixed (bytes fs ++ tail) (fs ++ items) := by
  induction fs with
  | nil => exact h
  | cons p fs ih =>
    obtain ⟨hp, hgood⟩ := hfs p List.mem_cons_self
    have hrest := Mixed.frame hp hgood (ih fun q hq => hfs q (List.mem_cons_of_mem _ hq))
    simpa [bytes] using hrest

/-- An empty buffer holds no frames. -/
theorem mixed_nil {items : List (κ × List β)} (h : L.Mixed [] items) : items = [] := by
  generalize hb : ([] : List β) = b at h
  cases h with
  | nil => rfl
  | @frame p b' items' hp good rest =>
    have hpos := L.size_pos p.1
    have hnil : p.2 = [] := (List.append_eq_nil_iff.mp hb.symm).1
    rw [← hp.1, hnil] at hpos
    exact absurd hpos (Nat.lt_irrefl 0)
  | junk _ _ => cases hb

/-- A frame that is not there in whole is not among good ones. -/
theorem mixed_of_partial {k : κ} {b : List β} {items : List (κ × List β)} (hk : L.front b = .frame k) (hlt : b.length < L.size k)
    (h : L.Mixed b items) : items = [] := by
  cases h with
  | nil => rfl
  | @frame q b' items' hq good rest =>
    rw [hq.2 b'] at hk
    have hlen := hq.1
    rw [Front.frame.inj hk] at hlen
    rw [List.length_append] at hlt
    omega
  | junk hno rest => exact absurd hk (hno k)

/-- A loop reads a buffer exactly when this consists of frames and an end, without more good frames behind bytes that start none. -/
theorem reads_iff (b : List β) : L.Reads b ↔ L.Framed b ∧ ¬ L.Stray b := by
  constructor
  · intro h
    obtain ⟨r, hr⟩ := h.leaves
    refine ⟨framed_of_halts hr, ?_⟩
    rintro ⟨fs, tail, items, rfl, hfs, hleave, hmixed, hne⟩
    have hhalts := halts_of_frames (fun p hp => (hfs p hp).1) (Or.inl hleave) []
    have hhandled := h.handles _ _ hhalts (mixed_frames hfs hmixed)
    have hall : (fs.filter fun p => L.good p.1 p.2) = fs := List.filter_eq_self.mpr fun p hp => (hfs p hp).2
    rw [List.nil_append, hall] at hhandled
    exact hne (List.append_right_eq_self.mp hhandled.symm)
  · rintro ⟨hframed, hstray⟩
    have hinv : ∀ s, Relation.ReflTransGen L.Next ⟨b, []⟩ s → L.Framed s.buf := by
      intro s hs
      induction hs with
      | refl => exact hframed
      | tail _ hn ih => exact (framed_next ih hn).1
    obtain ⟨fs, tail, rfl, hfs, ht⟩ := hframed
    refine ⟨⟨_, halts_of_frames hfs ht []⟩, fun s s' hs hn => (framed_next (hinv s hs) hn).2, fun r items hr hmixed => ?_⟩
    obtain ⟨hgood, items', rfl, hmixed'⟩ := mixed_of_frames hfs hmixed
    have hnil : items' = [] := by
      rcases ht with hleave | ⟨k, hk, hlt⟩
      · by_contra hne
        exact hstray ⟨fs, tail, items', rfl, fun p hp => ⟨hfs p hp, hgood p hp⟩, hleave, hmixed', hne⟩
      · exact mixed_of_partial hk hlt hmixed'
    have hall : (fs.filter fun p => L.good p.1 p.2) = fs := List.filter_eq_self.mpr hgood
    rw [(halts_of_frames hfs ht []).unique hr, hnil, hall, List.append_nil]
    rfl

end Loop

end Drains
