import Gnhast.Buffstatus
import Gnhast.Theorems.Hubhtml

/-!
# What a hub may answer

The answer of a hub is trusted. Whether its text fits is asked when it has been copied, which of the two markers stands first is not
asked, an old hub's text is added with the NUL behind it, and a new hub is believed about how much of its text is usable. So the arrays
are kept to, and nothing else is added, exactly when the text is that of a new hub, fits, says no more than it holds, and there is room.
-/

namespace Gnhast.Insteon

open CStr Buffers

/-! ## The markers -/

/-- The places of the first markers of a body. -/
def Marked (body : Str) (b e : Nat) : Prop :=
  strstr (str "<BS>") (cstr body) = some b ∧ strstr (str "</BS>") (cstr body) = some e

/-- What stands between two markers. -/
def between (body : Str) (b e : Nat) : Str := ((cstr body).drop (b + 4)).take (e - (b + 4))

/-- How many characters the last two of a text say are usable. -/
def reported (text : Str) : Nat :=
  (hexOf (text.getD (text.length - 2) 0) <<< 4 + hexOf (text.getD (text.length - 1) 0)).toNat

variable {body : Str} {b e : Nat}

theorem Marked.unique {b' e' : Nat} (h : Marked body b e) (h' : Marked body b' e') : b' = b ∧ e' = e :=
  ⟨Option.some.inj (h'.1.symm.trans h.1), Option.some.inj (h'.2.symm.trans h.2)⟩

theorem Marked.lt_length (h : Marked body b e) : e < (cstr body).length := by
  have hle := add_length_le_of_strstr h.2 (by decide)
  have h5 : (str "</BS>").length = 5 := by decide
  omega

/-- The end of the first marker is not the start of the second one. -/
theorem Marked.ne (h : Marked body b e) : e ≠ b + 3 := by
  intro he
  have hb : (cstr body)[b + 3]? = some 62 := getElem?_of_strstr h.1 (by decide : 3 < (str "<BS>").length)
  have he' : (cstr body)[e + 0]? = some 60 := getElem?_of_strstr h.2 (by decide : 0 < (str "</BS>").length)
  rw [Nat.add_zero, he, hb] at he'
  cases he'

theorem Marked.length_between (h : Marked body b e) : (between body b e).length = e - (b + 4) := by
  have hlt := h.lt_length
  unfold between
  rw [List.length_take, List.length_drop]
  omega

theorem ne_nul_of_mem_between {c : Byte} (h : c ∈ between body b e) : c ≠ chNul :=
  ne_chNul_of_mem_cstr (List.mem_of_mem_drop (List.mem_of_mem_take h))

/-- What is copied from the first marker on, when the second has been overwritten. -/
theorem take_marked (h : Marked body b e) (hle : b + 4 ≤ e) :
    (((body ++ [chNul]).set e chNul).drop (b + 4)).take (e + 1 - (b + 4)) = between body b e ++ [chNul] := by
  have hlt := h.lt_length
  obtain ⟨rest, hrest⟩ : cstr body <+: body := List.takeWhile_prefix _
  have hlen : body.length = (cstr body).length + rest.length := by rw [← List.length_append, hrest]
  have htake : (body ++ [chNul]).take e = (cstr body).take e := by
    conv_lhs => rw [← hrest, List.append_assoc]
    exact List.take_append_of_le_length hlt.le
  have hset : (body ++ [chNul]).set e chNul = (cstr body).take e ++ chNul :: (body ++ [chNul]).drop (e + 1) := by
    rw [List.set_eq_take_append_cons_drop, if_pos (by rw [List.length_append]; omega), htake]
  have hpre : ((cstr body).take e).length = e := by
    rw [List.length_take]
    omega
  unfold between
  rw [hset, List.drop_append_of_le_length (by omega), List.drop_take, show e + 1 - (b + 4) = e - (b + 4) + 1 by omega]
  rw [List.take_append, List.length_take, List.length_drop, Nat.min_eq_left (by omega), Nat.add_sub_cancel_left]
  simp [List.take_take]

/-! ## What is usable -/

variable {dbuf : Vector Byte 256} {text : Str}

/-- What the array holds behind the text is a NUL. -/
theorem dbufAt_of_take (hd : dbuf.toList.take (text.length + 1) = text ++ [chNul]) (hlen : text.length ≤ 255) {i : Nat}
    (hi : i < text.length) : dbufAt dbuf i = .ok (text.getD i 0) := by
  have hget : (dbuf.toList.take (text.length + 1))[i]? = (text ++ [chNul])[i]? := by rw [hd]
  rw [List.getElem?_take_of_lt (by omega), List.getElem?_append_left hi] at hget
  unfold dbufAt
  rw [dif_pos (by omega), List.getD_eq_getElem?_getD, ← hget]
  simp [show i < 256 by omega]

/-- The size of a new hub's text is read from the two characters in front of the NUL. -/
theorem usableNew_eq (hd : dbuf.toList.take (text.length + 1) = text ++ [chNul]) (h2 : 2 ≤ text.length) (hlen : text.length ≤ 255)
    (hnul : ∀ c ∈ text, c ≠ chNul) (tmp : Vector Octet 2) :
    usableNew dbuf (text.length + 1) tmp = .ok (dbuf.toList.take (reported text)) := by
  have h0 : dbufAt dbuf (text.length + 1 - 3) = .ok (text.getD (text.length - 2) 0) := dbufAt_of_take hd hlen (by omega)
  have h1 : dbufAt dbuf (text.length + 1 - 2) = .ok (text.getD (text.length - 1) 0) := dbufAt_of_take hd hlen (by omega)
  have hmem : text.getD (text.length - 2) 0 ∈ text := by
    rw [List.getD_eq_getElem _ _ (by omega)]
    exact List.getElem_mem _
  have hhex : hexDecode [text.getD (text.length - 2) 0, text.getD (text.length - 1) 0] 2 tmp =
      .ok (some (tmp.set 0 (hexOf (text.getD (text.length - 2) 0) <<< 4 + hexOf (text.getD (text.length - 1) 0)))) := by
    unfold hexDecode
    rw [if_neg (by decide)]
    simp only [List.take_succ_cons, List.take_nil]
    unfold hexLoop
    rw [if_neg (hnul _ hmem), dif_pos (by decide)]
    rfl
  have hrep : (hexOf (text.getD (text.length - 2) 0) <<< 4 + hexOf (text.getD (text.length - 1) 0)).toNat = reported text := rfl
  have hlt : reported text < 256 := BitVec.isLt _
  unfold usableNew
  rw [h0, h1]
  simp only [bind, Except.bind]
  rw [hhex]
  simp only [Option.getD_some, Vector.getElem_set_self, hrep]
  split
  · unfold dbufEnd
    rw [dif_pos hlt]
    simp only [Vector.toList_set, List.take_set_of_le (le_refl (reported text))]
  · rename_i h
    rw [show reported text = 0 by omega, List.take_zero]

/-- No more than the text is added when no more is said to be usable. -/
theorem take_of_reported_le (hd : dbuf.toList.take (text.length + 1) = text ++ [chNul]) {n : Nat} (hn : n ≤ text.length) :
    dbuf.toList.take n = text.take n := by
  rw [← @List.take_append_of_le_length _ text [chNul] n hn, ← hd, List.take_take, Nat.min_eq_left (by omega)]

/-- When more is said to be usable, the NUL is added as well. -/
theorem nul_mem_take (hd : dbuf.toList.take (text.length + 1) = text ++ [chNul]) {n : Nat} (hn : text.length < n) :
    chNul ∈ dbuf.toList.take n := by
  have hmem : chNul ∈ dbuf.toList.take (text.length + 1) := by
    rw [hd]
    simp
  exact (List.take_prefix_take_left (by omega)).subset hmem

/-! ## The work buffer -/

/-- By how much the work buffer grows. -/
def grown (n : Nat) : Nat := if 0 < n then n + 60 else 0

/-- The work buffer is shown exactly when it is short enough. -/
theorem showWorkbuf_cases (hub : Buffstatus) :
    (4095 < hub.workbuf.length ∧ showWorkbuf hub = .error .overflow) ∨
    (hub.workbuf.length ≤ 4095 ∧ ∃ hub', showWorkbuf hub = .ok hub' ∧ hub'.workbuf = hub.workbuf) := by
  unfold showWorkbuf
  dsimp only
  by_cases hlen : 4095 < hub.workbuf.length
  · rw [if_pos hlen, if_neg (by omega)]
    exact Or.inl ⟨hlen, rfl⟩
  · rw [if_neg hlen, if_pos (by decide)]
    refine Or.inr ⟨by omega, _, rfl, ?_⟩
    split <;> rfl

theorem addWorkbuf_cases (hub : Buffstatus) (added : Str) :
    (4095 < hub.workbuf.length + grown added.length ∧ addWorkbuf hub added = .error .overflow) ∨
    (hub.workbuf.length + grown added.length ≤ 4095 ∧ ∃ hub' pad, addWorkbuf hub added = .ok hub' ∧
      hub'.workbuf = hub.workbuf ++ added ++ pad ∧ (pad = [] ∨ pad = zeroPad)) := by
  unfold addWorkbuf grown
  by_cases hadd : 0 < added.length
  · rw [if_pos hadd, if_pos hadd]
    rcases showWorkbuf_cases { hub with workbuf := hub.workbuf ++ added ++ zeroPad, clears := hub.clears + 1 } with
      ⟨hlen, hs⟩ | ⟨hlen, hub', hs, hw⟩
    all_goals simp only [List.length_append, show zeroPad.length = 60 from rfl] at hlen
    · exact Or.inl ⟨by omega, hs⟩
    · exact Or.inr ⟨by omega, hub', zeroPad, hs, hw, Or.inr rfl⟩
  · have hnil : added = [] := List.eq_nil_of_length_eq_zero (by omega)
    rw [if_neg hadd, if_neg hadd, hnil, List.append_nil]
    rcases showWorkbuf_cases hub with ⟨hlen, hs⟩ | ⟨hlen, hub', hs, hw⟩
    · exact Or.inl ⟨hlen, hs⟩
    · exact Or.inr ⟨hlen, hub', [], hs, by rw [hw, List.append_nil], Or.inl rfl⟩

/-! ## The callback -/

/-- Without both markers nothing is done. -/
theorem bufStatus_unmarked (h : ¬ ∃ b e, Marked body b e) (hub : Buffstatus) (dbuf : Vector Byte 256) (tmp : Vector Octet 2) :
    bufStatus hub body dbuf tmp = .ok hub := by
  unfold bufStatus
  dsimp only
  rw [cstr_append_nul]
  split
  · rfl
  · rename_i b hb
    split
    · rfl
    · rename_i e he
      exact absurd ⟨b, e, hb, he⟩ h

/-- What the callback does with a body that has both markers, by the length of what stands between them. -/
theorem bufStatus_cases (h : Marked body b e) (hub : Buffstatus) (dbuf : Vector Byte 256) (tmp : Vector Octet 2) :
    (¬ (b + 4 ≤ e ∧ (between body b e).length ≤ 255) ∧ bufStatus hub body dbuf tmp = .error .overflow) ∨
    (b + 4 ≤ e ∧ (between body b e).length ≤ 255 ∧ ∃ dbuf' : Vector Byte 256,
      dbuf'.toList.take ((between body b e).length + 1) = between body b e ++ [chNul] ∧
      bufStatus hub body dbuf tmp = (do
        let hubtype := if 202 ≤ (between body b e).length + 1 then HubType.new else .old
        let added ← usable hubtype dbuf' ((between body b e).length + 1) tmp
        addWorkbuf { hub with hubtype := some hubtype } added)) := by
  have hne := h.ne
  have hlen := h.length_between
  unfold bufStatus
  dsimp only
  rw [cstr_append_nul, h.1]
  dsimp only
  rw [h.2]
  dsimp only
  unfold dbufCopy
  by_cases hfit : b + 4 ≤ e ∧ (between body b e).length ≤ 255
  · obtain ⟨hle, h255⟩ := hfit
    have hblen : (((e + 1 : Nat) : Int) - ((b + 4 : Nat) : Int)) = (((between body b e).length + 1 : Nat) : Int) := by omega
    rw [hblen, if_neg (by omega)]
    simp only [bind, Except.bind]
    rw [if_neg (by omega)]
    refine Or.inr ⟨hle, h255, overlay (((body ++ [chNul]).set e chNul).drop (b + 4)) ((between body b e).length + 1) dbuf, ?_, ?_⟩
    · have hsrc : (between body b e).length + 1 ≤ (((body ++ [chNul]).set e chNul).drop (b + 4)).length := by
        have htake := congrArg List.length (take_marked h hle)
        simp only [List.length_take, List.length_append, List.length_cons, List.length_nil] at htake
        omega
      rw [take_overlay hsrc (by omega), hlen, show e - (b + 4) + 1 = e + 1 - (b + 4) by omega]
      exact take_marked h hle
    · simp only [Int.toNat_natCast]
      norm_cast
  · rw [if_pos (by omega)]
    exact Or.inl ⟨hfit, rfl⟩

/-- What the callback adds comes from between the markers, and it keeps to its arrays. -/
def Sound (hub : Buffstatus) (body : Str) (r : Except HubFault (Option Buffstatus)) : Prop :=
  ∃ hub' added pad, r = .ok (some hub') ∧ hub'.workbuf = hub.workbuf ++ added ++ pad ∧ (pad = [] ∨ pad = zeroPad) ∧
    ∀ c ∈ added, ∃ b e, Marked body b e ∧ c ∈ between body b e

/-- What the callback relies on: the text is a new hub's, fits, says no more than it holds, and the work buffer has room for it. -/
structure Fits (hub : Buffstatus) (text : Str) : Prop where
  long : 201 ≤ text.length
  short : text.length ≤ 255
  honest : reported text ≤ text.length
  room : hub.workbuf.length + grown (reported text) ≤ 4095

/-- A NUL that is added does not come from between the markers. -/
theorem not_sound_of_nul {hub hub' : Buffstatus} {added pad : Str} (hw : hub'.workbuf = hub.workbuf ++ added ++ pad)
    (hn : chNul ∈ added) : ¬ Sound hub body (.ok (some hub')) := by
  rintro ⟨hub'', added', pad', hr, hw', hpad', hfrom⟩
  cases hr
  rw [hw, List.append_assoc, List.append_assoc, List.append_cancel_left_eq] at hw'
  have hmem : chNul ∈ added' ++ pad' := hw' ▸ List.mem_append_left _ hn
  rcases List.mem_append.mp hmem with hmem | hmem
  · obtain ⟨b, e, -, hc⟩ := hfrom _ hmem
    exact ne_nul_of_mem_between hc rfl
  · rcases hpad' with rfl | rfl
    · cases hmem
    · exact absurd (List.eq_of_mem_replicate hmem) (by decide)

theorem sound_self {hub : Buffstatus} : Sound hub body (.ok (some hub)) :=
  ⟨hub, [], [], rfl, by simp, Or.inl rfl, by simp⟩

/-- A body with both markers. -/
theorem bufStatus_sound_iff (h : Marked body b e) (hub : Buffstatus) (dbuf : Vector Byte 256) (tmp : Vector Octet 2) :
    Sound hub body ((bufStatus hub body dbuf tmp).map some) ↔ Fits hub (between body b e) := by
  have hbad : ∀ {f}, ¬ Sound hub body (.error f) := by
    rintro f ⟨_, _, _, hr, _⟩
    cases hr
  rcases bufStatus_cases h hub dbuf tmp with ⟨hout, heq⟩ | ⟨hle, hlen, dbuf', hd, heq⟩
  · rw [heq]
    refine iff_of_false hbad fun hf => hout ⟨?_, hf.short⟩
    have hlong := hf.long
    rw [h.length_between] at hlong
    omega
  · rw [heq]
    dsimp only
    by_cases hnew : 201 ≤ (between body b e).length
    · rw [if_pos (by omega)]
      unfold usable
      dsimp only
      rw [usableNew_eq hd (by omega) hlen fun c => ne_nul_of_mem_between]
      have hn : (dbuf'.toList.take (reported (between body b e))).length = reported (between body b e) := by
        have hlt : reported (between body b e) < 256 := BitVec.isLt _
        rw [List.length_take, Vector.length_toList]
        omega
      simp only [bind, Except.bind]
      rcases addWorkbuf_cases { hub with hubtype := some .new } (dbuf'.toList.take (reported (between body b e))) with
        ⟨hroom, hs⟩ | ⟨hroom, hub', pad, hs, hw, hpad⟩
      all_goals
        rw [hs]
        rw [hn] at hroom
      · exact iff_of_false hbad fun hf => absurd hf.room (not_le.mpr hroom)
      · by_cases hon : reported (between body b e) ≤ (between body b e).length
        · refine iff_of_true ⟨hub', _, pad, rfl, hw, hpad, fun c hc => ⟨b, e, h, ?_⟩⟩ ⟨hnew, hlen, hon, hroom⟩
          rw [take_of_reported_le hd hon] at hc
          exact List.mem_of_mem_take hc
        · exact iff_of_false (not_sound_of_nul hw (nul_mem_take hd (by omega))) fun hf => hon hf.honest
    · rw [if_neg (by omega)]
      refine iff_of_false ?_ fun hf => hnew hf.long
      unfold usable
      simp only [bind, Except.bind]
      rcases addWorkbuf_cases { hub with hubtype := some .old } (dbuf'.toList.take ((between body b e).length + 1)) with
        ⟨-, hs⟩ | ⟨-, hub', pad, hs, hw, -⟩
      all_goals rw [hs]
      · exact hbad
      · refine not_sound_of_nul hw ?_
        rw [hd]
        exact List.mem_append_right _ (List.mem_singleton_self _)

/-- The callback keeps to its arrays and to the text between the markers exactly when the answer is one it can rely on. -/
theorem hubhtmlBufRequestCb_sound_iff (hub : Buffstatus) (body : Str) (dbuf : Vector Byte 256) (tmp : Vector Octet 2) :
    Sound hub body (hubhtmlBufRequestCb hub (some ⟨200, body⟩) dbuf tmp) ↔ ∀ b e, Marked body b e → Fits hub (between body b e) := by
  by_cases hm : ∃ b e, Marked body b e
  · obtain ⟨b, e, h⟩ := hm
    have hcb : hubhtmlBufRequestCb hub (some ⟨200, body⟩) dbuf tmp = (bufStatus hub body dbuf tmp).map some := by
      have hlen : body.length ≠ 0 := by
        have hlt := h.lt_length
        have hpre : cstr body <+: body := List.takeWhile_prefix _
        have hle := hpre.length_le
        omega
      unfold hubhtmlBufRequestCb
      dsimp only
      rw [if_pos rfl, if_neg hlen]
    rw [hcb, bufStatus_sound_iff h]
    constructor
    · intro hf b' e' h'
      obtain ⟨rfl, rfl⟩ := h.unique h'
      exact hf
    · intro hf
      exact hf b e h
  · have hcb : hubhtmlBufRequestCb hub (some ⟨200, body⟩) dbuf tmp = .ok (some hub) := by
      unfold hubhtmlBufRequestCb
      dsimp only
      rw [if_pos rfl, bufStatus_unmarked hm]
      split <;> rfl
    rw [hcb]
    exact iff_of_true sound_self fun b e h => absurd ⟨b, e, h⟩ hm

/-- Markers that stand the other way round overrun the array. -/
theorem not_hubhtmlBufRequestCb_sound :
    ¬ ∀ hub body dbuf tmp, Sound hub body (hubhtmlBufRequestCb hub (some ⟨200, body⟩) dbuf tmp) := by
  intro h
  obtain ⟨hub', added, pad, hr, -⟩ := h {} (str "</BS><BS>") (Vector.replicate 256 0) (Vector.replicate 2 0)
  have hover : hubhtmlBufRequestCb {} (some ⟨200, str "</BS><BS>"⟩) (Vector.replicate 256 0) (Vector.replicate 2 0) =
      .error .overflow := by decide
  rw [hover] at hr
  cases hr

end Gnhast.Insteon
