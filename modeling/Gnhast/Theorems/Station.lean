import Gnhast.Wmr918coll

/-!
# What a weather station sends

Both callbacks drain the frames they know, right or wrong. A WX200 that sends any other byte in between keeps its callback busy for good,
since the loop has no case that would drain it; so does a type that a WMR918 does not have. Where no frame of the WMR918 starts, its loop
is left, and nothing behind is ever looked at. So a buffer is read as it should be exactly when it is made of frames and an end, and for
the WMR918 when no good frames are left behind.
-/

namespace Gnhast.Wmr918coll

open Drains

/-- A frame of the WX200 has the length of the group that its first byte opens. -/
theorem wx2_isFrame_iff (g : Group) (data : List (BitVec 8)) :
    wx2BufReadCb.IsFrame (g, data) ↔ data.length = g.size ∧ ∃ c rest, data = c :: rest ∧ groupOf c = some g := by
  have hfront : ∀ c rest, wx2Front (c :: rest) = .frame g ↔ groupOf c = some g := by
    intro c rest
    unfold wx2Front
    dsimp only
    cases groupOf c with
    | none => simp
    | some g' => simp
  constructor
  · rintro ⟨hlen, hf⟩
    refine ⟨hlen, ?_⟩
    cases data with
    | nil => exact absurd (hf []) (by simp [wx2BufReadCb, wx2Front])
    | cons c rest => exact ⟨c, rest, rfl, (hfront c (rest ++ [])).mp (hf [])⟩
  · rintro ⟨hlen, c, rest, rfl, hc⟩
    exact ⟨hlen, fun more => (hfront c (rest ++ more)).mpr hc⟩

/-- A frame of the WMR918 has two bytes of ones in front of its type, and the length of that. -/
theorem wmr_isFrame_iff (t : WmrType) (data : List (BitVec 8)) :
    wmrBufReadCb.IsFrame (t, data) ↔ data.length = t.size ∧ ∃ c rest, data = 0xff :: 0xff :: c :: rest ∧ typeOf c = some t := by
  have hfront : ∀ a b c rest, wmrFront (a :: b :: c :: rest) = .frame t ↔ (a = 0xff ∧ b = 0xff) ∧ typeOf c = some t := by
    intro a b c rest
    unfold wmrFront
    dsimp only
    by_cases hab : a = 0xff ∧ b = 0xff
    · rw [if_pos hab]
      cases typeOf c with
      | none => simp
      | some t' => simp [hab]
    · rw [if_neg hab]
      simp only [reduceCtorEq, hab, false_and]
  constructor
  · rintro ⟨hlen, hf⟩
    refine ⟨hlen, ?_⟩
    have hf := hf []
    rw [List.append_nil] at hf
    match data, hf with
    | a :: b :: c :: rest, hf =>
      obtain ⟨⟨rfl, rfl⟩, hc⟩ := (hfront a b c rest).mp hf
      exact ⟨c, rest, rfl, hc⟩
  · rintro ⟨hlen, c, rest, rfl, hc⟩
    exact ⟨hlen, fun more => (hfront 0xff 0xff c (rest ++ more)).mpr ⟨⟨rfl, rfl⟩, hc⟩⟩

/-- The loop of the WX200 is left at the end only, or at a part of a frame. -/
theorem wx2_not_stray (buf : List (BitVec 8)) : ¬ wx2BufReadCb.Stray buf := by
  rintro ⟨fs, tail, items, -, -, hleave, hmixed, hne⟩
  cases tail with
  | nil => exact hne (Loop.mixed_nil hmixed)
  | cons c tail =>
    have hfront : wx2Front (c :: tail) = .leave := hleave
    unfold wx2Front at hfront
    dsimp only at hfront
    split at hfront
    · cases hfront
    · cases hfront

/-- Whatever is in the buffer of a station, its callback returns, takes something from the buffer in every round before, and handles the
good frames of a buffer that has nothing else, exactly when the buffer is made of frames and an end, and for the WMR918 no good frames
are left behind bytes that start none. -/
theorem station_reads_iff (buf : List (BitVec 8)) :
    (wx2BufReadCb.Reads buf ↔ wx2BufReadCb.Framed buf) ∧
      (wmrBufReadCb.Reads buf ↔ wmrBufReadCb.Framed buf ∧ ¬ wmrBufReadCb.Stray buf) := by
  refine ⟨?_, Loop.reads_iff buf⟩
  rw [Loop.reads_iff]
  exact and_iff_left (wx2_not_stray buf)

/-- A WX200 that sends a zero is listened to for good. -/
theorem not_station_reads : ¬ ∀ buf, wx2BufReadCb.Reads buf ∧ wmrBufReadCb.Reads buf := by
  intro h
  have hdrains := (h [0x00]).1.drains
  have hnext : wx2BufReadCb.Next ⟨[0x00], []⟩ ⟨[0x00], []⟩ := rfl
  exact absurd (hdrains _ _ .refl hnext) (lt_irrefl _)

end Gnhast.Wmr918coll
