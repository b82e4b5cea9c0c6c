import Gnhast.Pointers

/-!
# Arrays on the heap stand for the arrays of a device

`Rep` connects the arrays of `Pointers` with those of a device record: as long as no pointer is freed that may not be, both say the
same of what an argument does (`parseHargs_ok`, `parseTags_ok`), and otherwise the heap has a misuse (`parseHargs_freed`,
`parseTags_bad`).
-/

namespace Gnhast.Pointers

open CStr Blocks

/-- The state of an array of handler arguments. -/
def hargsState : Arr Str → State Str
  | .null => .null
  | .block xs => .live (xs.map .own)
  | .freed => .dead

/-- The tag that a slot holds. -/
def tagOf : Item Str → Tag
  | .own s => .text s
  | .const _ => .junk

/-- The tags that an array holds. -/
def tagsArr : State Str → Arr Tag
  | .null => .null
  | .live items => .block (items.map tagOf)
  | .dead => .freed

/-- The arrays on the heap are those of the device, and share no block. -/
def Rep (dev : Arrays) (d : Device) : Prop :=
  ∃ fpH fpT st, ArrayAt dev.heap dev.hargs dev.nrofhargs fpH (hargsState d.hargs) ∧
    ArrayAt dev.heap dev.tags dev.nroftags fpT st ∧ tagsArr st = d.tags ∧ (fpH ++ fpT).Nodup

theorem freeable_hargs {a : Arr Str} : (hargsState a).freeable = true ↔ a ≠ .freed := by
  cases a with
  | null => simp [hargsState, State.freeable]
  | block xs => simp [hargsState, State.freeable, Item.owned]
  | freed => simp [hargsState, State.freeable]

/-- The tags can be freed when there is no string constant among them and the array was not freed. -/
theorem freeable_tags {st : State Str} : st.freeable = true ↔ Tag.junk ∉ (tagsArr st).items ∧ tagsArr st ≠ .freed := by
  cases st with
  | null => simp [tagsArr, State.freeable, Arr.items]
  | dead => simp [tagsArr, State.freeable]
  | live items =>
    simp only [State.freeable, tagsArr, Arr.items, List.all_eq_true, ne_eq, reduceCtorEq, not_false_eq_true, and_true]
    constructor
    · intro h hm
      obtain ⟨item, hitem, hj⟩ := List.mem_map.mp hm
      cases item with
      | own a => cases hj
      | const a => cases h _ hitem
    · intro h item hitem
      cases item with
      | own a => rfl
      | const a => exact absurd (List.mem_map.mpr ⟨_, hitem, rfl⟩) h

theorem dropped_hargs (a : Arr Str) : (hargsState a).dropped = hargsState a.dangling := by
  cases a <;> rfl

theorem dropped_tags (st : State Str) : tagsArr st.dropped = (tagsArr st).dangling := by
  cases st <;> rfl

/-- The new array holds copies of the tokens, and only blocks of the old one are lost. -/
theorem replaceArray_ok {h : Heap Str} {p : Ptr Str} {old : Nat} {fp : List Nat} {st : State Str} (ha : ArrayAt h p old fp st)
    (hnd : fp.Nodup) (hst : st.freeable = true) (data : Str) {n : Nat} (hn : (strtok chComma data).length ≤ n) :
    ∃ b h' ps bs, replaceArray data p old n h = .ok (.block b, h') ∧
      h'[b]? = some (some (.slots (ps ++ List.replicate (n - (strtok chComma data).length) .null))) ∧
      SlotsAt h' ps bs ((strtok chComma data).map .own) ∧ (b :: bs).Nodup ∧ (∀ x ∈ b :: bs, h.length ≤ x) ∧ Frame fp h h' := by
  -- a copy is cut up to count the tokens, and the old array is freed
  have hf1 : Frame [] h (h ++ [some (.data data)]) := Frame.alloc [] _ h
  obtain ⟨h2, hfree, hf2, -⟩ := freeArray_freeable (ha.frame hf1 fun _ _ => List.not_mem_nil) hnd hst
  have hf02 : Frame fp h h2 := (hf1.mono (List.nil_subset fp)).trans hf2
  have hhold : h2[h.length]? = some (some (.data data)) :=
    hf2.get (get_alloc _ h) fun hm => absurd (ha.lt _ hm) (Nat.lt_irrefl _)
  have hlt2 : h.length < h2.length := lt_of_get hhold
  -- the new array; the first copy is freed and a second one made
  have hf3 : Frame [] h2 (h2 ++ [some (.slots (List.replicate n .null))]) := Frame.alloc [] _ h2
  generalize hh4 : (h2 ++ [some (Cell.slots (List.replicate n (Ptr.null : Ptr Str)))]).set h.length none = h4
  have hf4 : Frame [h.length] (h2 ++ [some (.slots (List.replicate n .null))]) h4 :=
    hh4 ▸ Frame.set (List.mem_singleton_self _) none _
  have harr : h4[h2.length]? = some (some (.slots (List.replicate n .null))) :=
    hf4.get (get_alloc _ h2) fun hm => by
      have := List.mem_singleton.mp hm
      omega
  have hlt4 : h2.length < h4.length := lt_of_get harr
  have hf5 : Frame [] h4 (h4 ++ [some (.data data)]) := Frame.alloc [] _ h4
  -- the tokens of the second copy are stored
  obtain ⟨h6, ps, bs, hfill, hb6, hs6, hnd6, hnew6, hf6⟩ :=
    fillSlots_spec (strtok chComma data) [] (hf5.get harr List.not_mem_nil) (by simpa using hn)
  rw [List.length_append, List.length_singleton] at hnew6
  have hhold6 : h6[h4.length]? = some (some (.data data)) :=
    hf6.get (get_alloc _ h4) fun hm => by
      have := List.mem_singleton.mp hm
      omega
  have hf7 : Frame [h4.length] h6 (h6.set h4.length none) := Frame.set (List.mem_singleton_self _) none _
  refine ⟨h2.length, h6.set h4.length none, ps, bs, ?_, ?_, ?_, ?_, ?_, ?_⟩
  · rw [replaceArray]
    simp only [alloc, hfree, Except.bind]
    rw [free_live (hf3.get hhold List.not_mem_nil)]
    simp only [hh4]
    rw [show fillSlots (.block h2.length) 0 (strtok chComma data) (h4 ++ [some (.data data)]) = .ok h6 from hfill]
    simp only [free_live hhold6, Except.map]
  · exact hf7.get (by simpa using hb6) fun hm => by
      have := List.mem_singleton.mp hm
      omega
  · exact hs6.frame hf7 fun b hb hm => by
      have := hnew6 b hb
      have := List.mem_singleton.mp hm
      omega
  · exact List.nodup_cons.mpr ⟨fun hm => by have := hnew6 _ hm; omega, hnd6⟩
  · exact List.forall_mem_cons.mpr ⟨hlt2.le, fun x hx => by have := hnew6 x hx; omega⟩
  · have hold : ∀ b ∈ [h.length], h.length ≤ b := fun b hb => (List.mem_singleton.mp hb).ge
    have hf04 : Frame fp h h4 := (hf02.trans (hf3.mono (List.nil_subset fp))).trans_new hf4 hold
    have hf06 : Frame fp h h6 := (hf04.trans (hf5.mono (List.nil_subset fp))).trans_new hf6 fun b hb => by
      have := List.mem_singleton.mp hb
      omega
    exact hf06.trans_new hf7 fun b hb => by
      have := List.mem_singleton.mp hb
      omega

theorem replaceArray_bad {h : Heap Str} {p : Ptr Str} {old : Nat} {fp : List Nat} {st : State Str} (ha : ArrayAt h p old fp st)
    (hnd : fp.Nodup) (hst : st.freeable = false) (data : Str) (n : Nat) : replaceArray data p old n h = .error .badFree := by
  have hf1 : Frame [] h (h ++ [some (.data data)]) := Frame.alloc [] _ h
  rw [replaceArray]
  simp only [alloc, freeArray_not_freeable (ha.frame hf1 fun _ _ => List.not_mem_nil) hnd hst, Except.bind]

/-! ## Handler arguments -/

/-- Handler arguments that were not freed can be set, as the device record says. -/
theorem parseHargs_ok {dev : Arrays} {d : Device} (h : Rep dev d) (hd : d.hargs ≠ .freed) (v : Str) :
    ∃ dev', parseHargs v dev = .ok dev' ∧ Rep dev' (Gnhast.parseHargs v d).1 := by
  obtain ⟨fpH, fpT, st, hH, hT, htags, hnd⟩ := h
  obtain ⟨hndH, hndT, hdis⟩ := List.nodup_append.mp hnd
  have hst := freeable_hargs.mpr hd
  have hsep : ∀ b ∈ fpT, b ∉ fpH := fun b hb hm => hdis b hm b hb rfl
  rw [parseHargs, Gnhast.parseHargs]
  by_cases hv : v = []
  · obtain ⟨h', hfree, hf, ha⟩ := freeArray_freeable hH hndH hst
    simp only [if_pos hv, hfree, Except.map]
    rw [dropped_hargs] at ha
    exact ⟨_, rfl, fpH.take 1, fpT, st, ha, hT.frame hf hsep, htags, hnd.sublist ((List.take_sublist 1 fpH).append_right fpT)⟩
  · obtain ⟨b, h', ps, bs, hrep, hb, hs, hnew, hge, hf⟩ := replaceArray_ok hH hndH hst v le_rfl
    simp only [if_neg hv, hrep, Except.map]
    refine ⟨_, rfl, b :: bs, fpT, st, ?_, hT.frame hf hsep, htags, nodup_new hndT hT.lt hnew hge⟩
    have ha := ArrayAt.live hb hs
    rwa [List.length_map] at ha

theorem parseHargs_freed {dev : Arrays} {d : Device} (h : Rep dev d) (hd : d.hargs = .freed) (v : Str) :
    parseHargs v dev = .error .badFree := by
  obtain ⟨fpH, fpT, st, hH, hT, htags, hnd⟩ := h
  obtain ⟨hndH, -, -⟩ := List.nodup_append.mp hnd
  have hst : (hargsState d.hargs).freeable = false := by
    rw [hd]
    rfl
  rw [parseHargs]
  by_cases hv : v = []
  · simp only [if_pos hv, freeArray_not_freeable hH hndH hst, Except.map]
  · simp only [if_neg hv, replaceArray_bad hH hndH hst, Except.map]

/-! ## Tags -/

/-- The pointer is NULL when there are no handler arguments. -/
theorem hargs_null {dev : Arrays} {d : Device} (h : Rep dev d) : dev.hargs = .null ↔ d.hargs = .null := by
  obtain ⟨fpH, fpT, st, hH, -⟩ := h
  rw [hH.null_iff]
  cases d.hargs <;> simp [hargsState]

/-- Tags that can be freed are freed without more. -/
theorem freeTags_freeable {st : State Str} (h : st.freeable = true) : freeTags (tagsArr st).items = .ok [] := by
  cases st with
  | null => rfl
  | dead => rfl
  | live items =>
    simp only [State.freeable, List.all_eq_true] at h
    simp only [tagsArr, Arr.items]
    induction items with
    | nil => rfl
    | cons item items ih =>
      cases item with
      | own a => exact ih fun x hx => h x (List.mem_cons_of_mem _ hx)
      | const a => cases h _ List.mem_cons_self

theorem free_freeable {st : State Str} (h : st.freeable = true) : (tagsArr st).free = [] := by
  cases st with
  | null => rfl
  | live items => rfl
  | dead => cases h

/-- The array that the tokens of a list of tags are stored in, with the constant that fills up an odd list. -/
theorem arrayAt_tagSlots {h : Heap Str} {b : Nat} {ps : List (Ptr Str)} {bs : List Nat} {toks : List Str}
    (hb : h[b]? = some (some (.slots (ps ++ List.replicate (toks.length + toks.length % 2 - toks.length) .null))))
    (hs : SlotsAt h ps bs (toks.map .own)) (hnd : (b :: bs).Nodup) :
    ∃ h' items, (if toks.length % 2 = 1 then writeSlot (.block b) toks.length (.const (str "junk")) h else .ok h) = .ok h' ∧
      ArrayAt h' (.block b) (toks.length + toks.length % 2) (b :: bs) (.live items) ∧ items.map tagOf = tagSlots toks ∧
      Frame [b] h h' := by
  have hlen : ps.length = toks.length := by
    rw [hs.length, List.length_map]
  by_cases ho : toks.length % 2 = 1
  · rw [ho, show toks.length + 1 - toks.length = 1 by omega] at hb
    have hf : Frame [b] h (h.set b (some (.slots (ps ++ [.const (str "junk")])))) := Frame.set (List.mem_singleton_self b) _ h
    refine ⟨_, toks.map .own ++ [.const (str "junk")], ?_, ?_, ?_, hf⟩
    · rw [if_pos ho, ← hlen]
      exact writeSlot_array hb _
    · have hs' := (hs.frame hf fun x hx hm => (List.nodup_cons.mp hnd).1 (List.mem_singleton.mp hm ▸ hx)).append_const
        (str "junk")
      have hb' : (h.set b (some (.slots (ps ++ [.const (str "junk")]))))[b]? =
          some (some (.slots (ps ++ [.const (str "junk")] ++ []))) := by
        rw [List.getElem?_set_self (lt_of_get hb), List.append_nil]
      have ha := ArrayAt.live hb' hs'
      rw [List.length_append, List.length_map, List.length_singleton] at ha
      rwa [ho]
    · rw [tagSlots, if_pos ho, List.map_append, List.map_map]
      rfl
  · have he : toks.length % 2 = 0 := by omega
    refine ⟨h, toks.map .own, if_neg ho, ?_, ?_, Frame.refl [b] h⟩
    · have ha := ArrayAt.live hb hs
      rw [List.length_map] at ha
      rwa [he]
    · rw [tagSlots, if_neg ho, List.append_nil, List.map_map]
      rfl

/-- Tags without a string constant that were not freed can be set, as the device record says. -/
theorem parseTags_ok {dev : Arrays} {d : Device} (h : Rep dev d) (hj : Tag.junk ∉ d.tags.items) (hd : d.tags ≠ .freed) (v : Str) :
    ∃ dev' d', parseTags v dev = .ok dev' ∧ Gnhast.parseTags v d = .ok (d', []) ∧ Rep dev' d' := by
  have hnull := hargs_null h
  obtain ⟨fpH, fpT, st, hH, hT, htags, hnd⟩ := h
  obtain ⟨hndH, hndT, hdis⟩ := List.nodup_append.mp hnd
  have hst : st.freeable = true := freeable_tags.mpr ⟨htags ▸ hj, htags ▸ hd⟩
  have hsep : ∀ b ∈ fpH, b ∉ fpT := fun b hb hm => hdis b hb b hm rfl
  rw [parseTags, Gnhast.parseTags, ← htags, freeTags_freeable hst, free_freeable hst]
  by_cases hv : v = []
  · obtain ⟨h', hfree, hf, ha⟩ := freeSlots_freeable hT hndT hst
    simp only [if_pos hv, hfree, Except.map, Except.bind]
    have hnd' := hnd.sublist ((List.take_sublist 1 fpT).append_left fpH)
    by_cases hn : d.hargs = .null
    · simp only [hnull.mpr hn, if_pos hn, if_true]
      refine ⟨_, _, rfl, rfl, fpH, fpT.take 1, st.emptied, ?_, ha, ?_, hnd'⟩
      · exact hnull.mpr hn ▸ hH.frame hf hsep
      · cases st <;> rfl
    · obtain ⟨h2, hfree2, hf2, ha2⟩ := free_emptied ha hst
      simp only [if_neg fun h => hn (hnull.mp h), if_neg hn, hfree2]
      refine ⟨_, _, rfl, rfl, fpH, fpT.take 1, st.dropped, ?_, ha2, dropped_tags st, hnd'⟩
      exact (hH.frame hf hsep).frame hf2 fun b hb hm => hsep b hb (List.take_subset 1 fpT hm)
  · obtain ⟨b, h', ps, bs, hrep, hb, hs, hnew, hge, hf⟩ :=
      replaceArray_ok hT hndT hst v (Nat.le_add_right _ ((strtok chComma v).length % 2))
    obtain ⟨h2, items, hjunk, ha, hitems, hf2⟩ := arrayAt_tagSlots hb hs hnew
    simp only [if_neg hv, hrep, Except.bind, hjunk, Except.map]
    refine ⟨_, _, rfl, rfl, fpH, b :: bs, .live items, ?_, ha, by rw [tagsArr, hitems], ?_⟩
    · refine (hH.frame hf hsep).frame hf2 fun x hx hm => ?_
      have h1 := hH.lt x hx
      have h2 := hge x (List.mem_singleton.mp hm ▸ List.mem_cons_self)
      omega
    · exact (nodup_new hndH hH.lt hnew hge).perm (List.perm_append_comm)

/-- A string constant among the tags, or an array of tags that was freed while there are handler arguments, is freed. -/
theorem parseTags_bad {dev : Arrays} {d : Device} (h : Rep dev d) (hn : d.tags = .freed → d.hargs ≠ .null)
    (hb : Tag.junk ∈ d.tags.items ∨ d.tags = .freed) (v : Str) : parseTags v dev = .error .badFree := by
  have hnull := hargs_null h
  obtain ⟨fpH, fpT, st, hH, hT, htags, hnd⟩ := h
  obtain ⟨-, hndT, -⟩ := List.nodup_append.mp hnd
  have hst : st.freeable = false := by
    refine Bool.eq_false_iff.mpr fun hst => ?_
    obtain ⟨h1, h2⟩ := freeable_tags.mp hst
    rw [htags] at h1 h2
    exact hb.elim h1 h2
  rw [parseTags]
  by_cases hv : v = []
  · simp only [if_pos hv]
    cases st with
    | null => cases hst
    | live items =>
      rw [freeSlots_not_owned hT hndT (by simpa [State.freeable] using hst)]
      rfl
    | dead =>
      have hargs : dev.hargs ≠ .null := fun he => hn htags.symm (hnull.mp he)
      simp only [hT.free_dead.1, Except.bind, if_neg hargs, hT.free_dead.2, Except.map]
  · simp only [if_neg hv, replaceArray_bad hT hndT hst, Except.bind]

end Gnhast.Pointers
