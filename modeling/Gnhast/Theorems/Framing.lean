import Gnhast.Netloop

/-!
# Line framing

What the read callbacks hand to `parsed_command` of a stream that arrives in chunks. An empty line ends the callback, with the
lines behind it left in the buffer until more data arrive, and a line that opens with NUL is dropped and ends it too. So the
commands are the lines of the stream exactly for the chunks in which an empty line is the last one completed and no line opens
with NUL.
-/

namespace Gnhast

open CStr

variable (F : Doubles)

/-- The command a complete line stands for; an empty line stands for none. -/
def lineCommand (line : Str) : Option (Str × List PArg) :=
  if line = [] then none
  else
    let words := (parseNetcommand (cstr line)).getD []
    some (words.headD [], parseCommand F words)

/-- The complete lines of a stream, as a reader takes them. -/
def streamLines (stream : Str) : List Str := (Lines.cut chLf stream).1.map stripCr

/-- Input buffer and commands handed over, after a callback was called for each chunk that arrived. -/
def receive (cb : Str → List (Str × List PArg) → Str × List (Str × List PArg)) (chunks : List Str) :
    Str × List (Str × List PArg) :=
  chunks.foldl (fun p c => cb (p.1 ++ c) p.2) ([], [])

/-- A callback frames the lines of a stream that arrives in chunks: after the last chunk the commands handed over are those of
the complete lines that are not empty, in order, and after no chunk a complete line is left in the buffer. -/
def Framed (cb : Str → List (Str × List PArg) → Str × List (Str × List PArg)) (chunks : List Str) : Prop :=
  (receive cb chunks).2 = (streamLines chunks.flatten).filterMap (lineCommand F) ∧
    ∀ before c, before ++ [c] <+: chunks → chLf ∉ (receive cb (before ++ [c])).1

/-- Among the lines that each chunk completes, none opens with NUL, and none that is empty is followed by another one. -/
def BlankLinesLast (chunks : List Str) : Prop :=
  ∀ before c, before ++ [c] <+: chunks → ∀ u l v, Lines.newLines chLf before c = u ++ l :: v →
    (stripCr l).head? ≠ some chNul ∧ (stripCr l = [] → v = [])

theorem cstr_eq_nil_iff (l : Str) : cstr l = [] ↔ l = [] ∨ l.head? = some chNul := by
  cases l with
  | nil => simp [cstr]
  | cons c l =>
    by_cases h : c = chNul
    · simp [cstr, h]
    · simp [cstr, h]

theorem readCommand_eq_none_iff (l : Str) : readCommand F l = none ↔ cstr l = [] := by
  unfold readCommand parseNetcommand
  by_cases hl : l = []
  · simp [hl, cstr]
  · by_cases hc : cstr l = [] <;> simp [hl, hc]

/-- What a callback hands over is what the line stands for. -/
theorem lineCommand_of_readCommand {l : Str} {x : Str × List PArg} (h : readCommand F l = some x) :
    lineCommand F l = some x := by
  unfold readCommand at h
  split at h
  · cases h
  · rename_i hl
    split at h
    · cases h
    · rename_i words hw
      rw [lineCommand, if_neg hl, hw]
      exact h

/-- The condition of the reader library, read for commands. -/
theorem blankLinesLast_iff (chunks : List Str) :
    BlankLinesLast chunks ↔ ∀ before c, before ++ [c] <+: chunks → ∀ u l v, Lines.newLines chLf before c = u ++ l :: v →
      readCommand F (stripCr l) = none → v = [] ∧ lineCommand F (stripCr l) = none := by
  have hwant : ∀ l, lineCommand F l = none ↔ l = [] := by
    intro l
    by_cases hl : l = [] <;> simp [lineCommand, hl]
  unfold BlankLinesLast
  refine forall_congr' fun before => forall_congr' fun c => imp_congr_right fun _ => forall_congr' fun u =>
    forall_congr' fun l => forall_congr' fun v => imp_congr_right fun _ => ?_
  rw [readCommand_eq_none_iff, cstr_eq_nil_iff, hwant]
  constructor
  · rintro ⟨h1, h2⟩ (h | h)
    · exact ⟨h2 h, h⟩
    · exact absurd h h1
  · intro h
    refine ⟨fun hn => ?_, fun hl => (h (Or.inl hl)).1⟩
    have hl := (h (Or.inr hn)).2
    rw [hl] at hn
    cases hn

/-- The callbacks of the server and of the collectors frame the lines of a stream exactly when in each chunk a blank line comes
last. -/
theorem framed_iff (R : LineReader) (chunks : List Str) :
    (Framed F (bufReadCb F R Lines.Reader.collect) chunks ↔ BlankLinesLast chunks) ∧
      (Framed F (gnhastdReadCb F R Lines.Reader.collect) chunks ↔ BlankLinesLast chunks) := by
  have h := R.exact_iff (readCommand F) (lineCommand F) (fun _ _ => lineCommand_of_readCommand F) chunks
  rw [← blankLinesLast_iff] at h
  exact ⟨h, h⟩

/-- A blank line before `ping`: the callback returns with the command left in the buffer. -/
theorem not_framed_blank_line :
    ¬ Framed Doubles.exact (bufReadCb Doubles.exact (Lines.Reader.first chLf stripCr) Lines.Reader.collect)
        [str "\nping\n"] := by
  intro h
  have hcond := ((Lines.Reader.first chLf stripCr).exact_iff (readCommand Doubles.exact) (lineCommand Doubles.exact)
    (fun _ _ => lineCommand_of_readCommand _) [str "\nping\n"]).mp h
  have hv := (hcond [] (str "\nping\n") (by simp) [] [] [str "ping"] (by decide) (by decide)).1
  exact absurd hv (by decide)

end Gnhast
