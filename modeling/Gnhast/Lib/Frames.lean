import Mathlib.Data.List.Basic
import Mathlib.Tactic.Common

/-!
# Frames in a stream

A frame opens with a start byte and a byte that says how long the whole frame is. A reader takes one byte at a time: outside of a
frame it waits for the start, and what it takes instead is lost. The frames of a stream are those that it completes, so they do
not depend on how the stream is cut.
-/

namespace Frames

variable {β : Type} [DecidableEq β]

/-- Where a reader stands: outside of a frame, behind its start, or in it with some bytes to come. -/
inductive Reader (β : Type)
  | idle
  | started
  | inside (missing : Nat) (read : List β)

/-- One byte; `size` is the length of a frame by its second byte. -/
def Reader.step (start : β) (size : β → Nat) : Reader β → β → Reader β × Option (List β)
  | .idle, b => if b = start then (.started, none) else (.idle, none)
  | .started, n => if size n ≤ 2 then (.idle, some [start, n]) else (.inside (size n - 2) [start, n], none)
  | .inside missing read, b =>
    if missing ≤ 1 then (.idle, some (read ++ [b])) else (.inside (missing - 1) (read ++ [b]), none)

/-- A stream, with the frames that it completes. -/
def Reader.feed (start : β) (size : β → Nat) : Reader β → List β → Reader β × List (List β)
  | r, [] => (r, [])
  | r, b :: bs =>
    let s := r.step start size b
    let t := s.1.feed start size bs
    (t.1, s.2.toList ++ t.2)

/-- The complete frames of a stream. -/
def frames (start : β) (size : β → Nat) (stream : List β) : List (List β) := (Reader.idle.feed start size stream).2

variable {start : β} {size : β → Nat}

theorem Reader.feed_append (r : Reader β) (xs ys : List β) :
    r.feed start size (xs ++ ys) = (((r.feed start size xs).1.feed start size ys).1,
      (r.feed start size xs).2 ++ ((r.feed start size xs).1.feed start size ys).2) := by
  induction xs generalizing r with
  | nil => rfl
  | cons b xs ih => simp only [List.cons_append, Reader.feed, ih, List.append_assoc]

/-- What completes some frames and ends outside of one stands in front of what follows. -/
theorem frames_append {xs : List β} {fs : List (List β)} (h : Reader.idle.feed start size xs = (.idle, fs)) (ys : List β) :
    frames start size (xs ++ ys) = fs ++ frames start size ys := by
  unfold frames
  rw [Reader.feed_append, h]

/-- In a frame, the bytes that are missing complete it. -/
theorem feed_inside {missing : Nat} {read bs : List β} (h : bs.length = missing) (hpos : 0 < missing) :
    (Reader.inside missing read).feed start size bs = (.idle, [read ++ bs]) := by
  induction bs generalizing missing read with
  | nil =>
    rw [List.length_nil] at h
    omega
  | cons b bs ih =>
    rw [List.length_cons] at h
    by_cases hone : missing ≤ 1
    · have hnil : bs = [] := List.length_eq_zero_iff.mp (by omega)
      rw [hnil]
      simp only [Reader.feed, Reader.step, if_pos hone]
      rfl
    · simp only [Reader.feed, Reader.step, if_neg hone]
      rw [ih (show bs.length = missing - 1 by omega) (by omega)]
      simp

/-- A frame completes itself. -/
theorem feed_frame {n : β} {body : List β} (h : body.length + 2 = size n) :
    Reader.idle.feed start size (start :: n :: body) = (.idle, [start :: n :: body]) := by
  by_cases htwo : size n ≤ 2
  · have hnil : body = [] := List.length_eq_zero_iff.mp (by omega)
    rw [hnil]
    simp [Reader.feed, Reader.step, if_pos htwo]
  · simp only [Reader.feed, Reader.step, if_true, if_neg htwo]
    rw [feed_inside (show body.length = size n - 2 by omega) (by omega)]
    rfl

/-- Fewer than two bytes complete nothing. -/
theorem frames_of_length_lt_two {xs : List β} (h : xs.length < 2) : frames start size xs = [] := by
  match xs, h with
  | [], _ => rfl
  | [b], _ => by_cases hb : b = start <;> simp [frames, Reader.feed, Reader.step, hb]

end Frames
