import Gnhast.Theorems.HeapDiscipline

/-!
# Four ways to make an array of tags

Tags are pairs, and an odd list is filled up. `parse_tags` allocates the slot that it fills. The other three do not fill up an odd list
within the array: a collector's `cmd_update` writes one slot too far, `new_dev_from_conf` two, with an array that is one slot short, and
`build_tags` allocates one byte where it needs a slot. For an even list all four leave the tokens.
-/

namespace Gnhast.Pointers

open CStr Blocks

/-! ## An array of tags -/

/-- The text of an item. -/
def itemText : Item Str → Str
  | .own s => s
  | .const s => s

/-- The items of an array. -/
def itemsOf : State Str → List (Item Str)
  | .live items => items
  | _ => []

/-- A pointer and a count are an array of tags made of tokens: an even number of slots, each of which points to a string, the first to
the tokens in order, and one more when their number is odd. -/
structure TagsAre (toks : List Str) (h : Heap Str) (p : Ptr Str) (n : Nat) : Prop where
  array : ∃ fp st, ArrayAt h p n fp st ∧ ((itemsOf st).map itemText).take toks.length = toks ∧ (itemsOf st).length = n
  even : n % 2 = 0
  length : n = toks.length + toks.length % 2

theorem ArrayAt.length_items {h : Heap Str} {p : Ptr Str} {n : Nat} {fp : List Nat} {st : State Str} (ha : ArrayAt h p n fp st) :
    (itemsOf st).length = n := by
  cases ha <;> rfl

theorem items_tagsArr (st : State Str) : (tagsArr st).items = (itemsOf st).map tagOf := by
  cases st <;> rfl

/-- The texts of items that stand for tokens. -/
theorem take_itemText {toks : List Str} {rest : List Tag} {items : List (Item Str)}
    (h : items.map tagOf = toks.map .text ++ rest) : (items.map itemText).take toks.length = toks := by
  induction toks generalizing items with
  | nil => rfl
  | cons tok toks ih =>
    cases items with
    | nil => cases h
    | cons item items =>
      obtain ⟨hitem, hitems⟩ := List.cons.inj h
      cases item with
      | own s =>
        cases hitem
        rw [List.map_cons, List.length_cons, List.take_succ_cons, ih hitems]
        rfl
      | const s => cases hitem

/-- An array that the device record has the tags of tokens for. -/
theorem tagsAre_of_tagSlots {toks : List Str} {h : Heap Str} {p : Ptr Str} {n : Nat} {fp : List Nat} {st : State Str}
    (ha : ArrayAt h p n fp st) (ht : (tagsArr st).items = tagSlots toks) : TagsAre toks h p n := by
  rw [items_tagsArr] at ht
  have hlen := congrArg List.length ht
  have hn : n = toks.length + toks.length % 2 := by
    rw [List.length_map, ArrayAt.length_items ha, tagSlots, List.length_append, List.length_map] at hlen
    rw [hlen]
    split
    · rename_i ho
      rw [ho]
      rfl
    · have : toks.length % 2 = 0 := by omega
      rw [this]
      rfl
  exact ⟨⟨fp, st, ha, take_itemText ht, ArrayAt.length_items ha⟩, by omega, hn⟩

/-- Copies of an even number of tokens. -/
theorem tagsAre_copies {toks : List Str} (he : toks.length % 2 = 0) {h : Heap Str} {b : Nat} {ps rest : List (Ptr Str)} {bs : List Nat}
    (hb : h[b]? = some (some (.slots (ps ++ rest)))) (hs : SlotsAt h ps bs (toks.map .own)) :
    TagsAre toks h (.block b) (toks.length + toks.length % 2) := by
  have ha := ArrayAt.live hb hs
  rw [List.length_map] at ha
  have hslots : (tagsArr (.live (toks.map .own))).items = tagSlots toks := by
    rw [tagSlots, if_neg (by omega), List.append_nil, tagsArr, Arr.items, List.map_map]
    rfl
  rw [he]
  exact tagsAre_of_tagSlots ha hslots

/-! ## The four functions -/

variable {dev : Arrays} {d : Device}

/-- `parse_tags` leaves an array of tags whenever the old one can be freed. -/
theorem parseTags_tagsAre (h : Rep dev d) (hj : Tag.junk ∉ d.tags.items) (hd : d.tags ≠ .freed) (data : Str) :
    ∃ dev', parseTags data dev = .ok dev' ∧ TagsAre (strtok chComma data) dev'.heap dev'.tags dev'.nroftags := by
  obtain ⟨dev', d', hdev', hd', fpH, fpT, st, -, ha, htags, -⟩ := parseTags_ok h hj hd data
  refine ⟨dev', hdev', tagsAre_of_tagSlots ha ?_⟩
  rw [parseTags_eq hd'] at htags
  rw [htags]
  dsimp only [tagsAfter]
  split
  · rename_i hdata
    subst hdata
    split
    · cases ht : d.tags with
      | null => rfl
      | block xs => rfl
      | freed => exact absurd ht hd
    · cases ht : d.tags with
      | null => rfl
      | block xs => rfl
      | freed => rfl
  · rfl

/-- The collector's `cmd_update` does so for an even number of tokens, and else writes behind the array. -/
theorem cmdUpdateTags_tagsAre_iff (h : Rep dev d) (data : Str) :
    (∃ dev', cmdUpdateTags data dev = .ok dev' ∧ TagsAre (strtok chComma data) dev'.heap dev'.tags dev'.nroftags) ↔
      (strtok chComma data).length % 2 = 0 ∧ Tag.junk ∉ d.tags.items ∧ d.tags ≠ .freed := by
  obtain ⟨fpH, fpT, st, -, hT, htags, hnd⟩ := h
  obtain ⟨-, hndT, -⟩ := List.nodup_append.mp hnd
  have hst : st.freeable = true ↔ Tag.junk ∉ d.tags.items ∧ d.tags ≠ .freed := by rw [freeable_tags, htags]
  rw [← hst]
  cases hf : st.freeable with
  | false =>
    rw [cmdUpdateTags, replaceArray_bad hT hndT hf]
    refine iff_of_false ?_ (by simp)
    rintro ⟨dev', hdev', -⟩
    cases hdev'
  | true =>
    rw [and_iff_left rfl]
    obtain ⟨b, h', ps, bs, hrep, hb, hs, -, -, -⟩ :=
      replaceArray_ok hT hndT hf data (Nat.le_add_right _ ((strtok chComma data).length % 2))
    have hlen : ps.length = (strtok chComma data).length := by
      rw [hs.length, List.length_map]
    by_cases ho : (strtok chComma data).length % 2 = 1
    · have hbad : cmdUpdateTags data dev = .error .badWrite := by
        simp only [cmdUpdateTags, hrep, Except.bind, if_pos ho, writeSlot, hb]
        rw [if_neg (by simp; omega)]
        rfl
      refine iff_of_false ?_ (by omega)
      rintro ⟨dev', hdev', -⟩
      rw [hbad] at hdev'
      cases hdev'
    · have he : (strtok chComma data).length % 2 = 0 := by omega
      have hok : cmdUpdateTags data dev = .ok { dev with
          heap := h', tags := .block b, nroftags := (strtok chComma data).length + (strtok chComma data).length % 2 } := by
        simp only [cmdUpdateTags, hrep, Except.bind, if_neg ho, Except.map]
      exact iff_of_true ⟨_, hok, tagsAre_copies he hb hs⟩ he

/-- `new_dev_from_conf` does so for an even list. -/
theorem newDevFromConf_tagsAre_iff (conf : DeviceConf) :
    (∃ dev', newDevFromConf conf = .ok dev' ∧ TagsAre conf.tags dev'.heap dev'.tags dev'.nroftags) ↔ conf.tags.length % 2 = 0 := by
  by_cases he : conf.tags.length % 2 = 0
  · obtain ⟨dev', hdev', fpH, fpT, st, -, ha, htags, -⟩ := newDevFromConf_even Doubles.exact he
    refine iff_of_true ⟨dev', hdev', tagsAre_of_tagSlots ha ?_⟩ he
    rw [htags, (newDevFromConf_arrays _ conf).2, confTags]
    by_cases hn : conf.tags = []
    · rw [if_pos hn, hn]
      rfl
    · rw [if_neg hn, tagSlots, if_neg (by omega), if_neg (by omega)]
      rfl
  · rw [newDevFromConf_odd (by omega)]
    refine iff_of_false ?_ he
    rintro ⟨dev', hdev', -⟩
    cases hdev'

/-- `build_tags` does so for an even number of tags, and else writes behind the array. -/
theorem buildTags_tagsAre_iff (tags : List Str) (h : Heap Str) :
    (∃ r, buildTags tags h = .ok r ∧ TagsAre tags r.2 r.1 (tags.length + tags.length % 2)) ↔ tags.length % 2 = 0 := by
  obtain ⟨h', ps, bs, hfill, hb, hs, -, -, -⟩ := newArray_spec tags le_rfl h
  have hlen : ps.length = tags.length := by
    rw [hs.length, List.length_map]
  by_cases ho : tags.length % 2 = 1
  · have hsize : (ptrSize * tags.length + 1) / ptrSize = tags.length := by
      unfold ptrSize
      omega
    have hbad : buildTags tags h = .error .badWrite := by
      have hb' : (h' ++ [some (Cell.data ([] : Str))])[h.length]? = h'[h.length]? := List.getElem?_append_left (lt_of_get hb)
      simp only [buildTags, if_pos ho, hsize, alloc, hfill, Except.bind, writeSlot, hb', hb]
      rw [if_neg (by simp [hlen])]
      rfl
    refine iff_of_false ?_ (by omega)
    rintro ⟨r, hr, -⟩
    rw [hbad] at hr
    cases hr
  · have he : tags.length % 2 = 0 := by omega
    have hsize : ptrSize * tags.length / ptrSize = tags.length := by
      unfold ptrSize
      omega
    refine iff_of_true ⟨(.block h.length, h'), ?_, tagsAre_copies he hb hs⟩ he
    simp only [buildTags, if_neg ho, hsize, alloc, hfill, Except.bind]

/-- All four functions leave an array of tags made of the tokens of a text. -/
def TagsAgree (dev : Arrays) (data : Str) : Prop :=
  (∃ dev', parseTags data dev = .ok dev' ∧ TagsAre (strtok chComma data) dev'.heap dev'.tags dev'.nroftags) ∧
  (∃ dev', cmdUpdateTags data dev = .ok dev' ∧ TagsAre (strtok chComma data) dev'.heap dev'.tags dev'.nroftags) ∧
  (∀ conf : DeviceConf, conf.tags = strtok chComma data →
    ∃ dev', newDevFromConf conf = .ok dev' ∧ TagsAre (strtok chComma data) dev'.heap dev'.tags dev'.nroftags) ∧
  ∃ r, buildTags (strtok chComma data) dev.heap = .ok r ∧
    TagsAre (strtok chComma data) r.2 r.1 ((strtok chComma data).length + (strtok chComma data).length % 2)

/-- On a device whose arrays stand for those of a record, the four agree exactly when the number of tokens is even and the old tags can
be freed; `parse_tags` only needs that they can be. -/
theorem tagsAgree_iff (h : Rep dev d) (data : Str) :
    (TagsAgree dev data ↔ (strtok chComma data).length % 2 = 0 ∧ Tag.junk ∉ d.tags.items ∧ d.tags ≠ .freed) ∧
    (Tag.junk ∉ d.tags.items ∧ d.tags ≠ .freed →
      ∃ dev', parseTags data dev = .ok dev' ∧ TagsAre (strtok chComma data) dev'.heap dev'.tags dev'.nroftags) := by
  refine ⟨⟨fun ha => (cmdUpdateTags_tagsAre_iff h data).mp ha.2.1, ?_⟩, fun hfree => parseTags_tagsAre h hfree.1 hfree.2 data⟩
  rintro ⟨he, hj, hd⟩
  refine ⟨parseTags_tagsAre h hj hd data, (cmdUpdateTags_tagsAre_iff h data).mpr ⟨he, hj, hd⟩, ?_, (buildTags_tagsAre_iff _ _).mpr he⟩
  intro conf hc
  have hconf := (newDevFromConf_tagsAre_iff conf).mpr (hc ▸ he)
  rwa [hc] at hconf

/-- A device without arrays. -/
theorem rep_fresh : Rep {} { uid := str "x" } := ⟨[], [], .null, .null, .null, rfl, List.nodup_nil⟩

theorem tagsAgree_iff_pair :
    (TagsAgree {} (str "room,attic") ↔ (strtok chComma (str "room,attic")).length % 2 = 0 ∧
      Tag.junk ∉ ({ uid := str "x" } : Device).tags.items ∧ ({ uid := str "x" } : Device).tags ≠ .freed) ∧
    (Tag.junk ∉ ({ uid := str "x" } : Device).tags.items ∧ ({ uid := str "x" } : Device).tags ≠ .freed →
      ∃ dev', parseTags (str "room,attic") {} = .ok dev' ∧
        TagsAre (strtok chComma (str "room,attic")) dev'.heap dev'.tags dev'.nroftags) :=
  tagsAgree_iff rep_fresh (str "room,attic")

/-- A single tag is filled up behind the array by a collector. -/
theorem not_tagsAgree_single : ¬ TagsAgree {} (str "room") := by
  rintro ⟨-, ⟨dev', hdev', -⟩, -⟩
  cases hdev'

end Gnhast.Pointers
