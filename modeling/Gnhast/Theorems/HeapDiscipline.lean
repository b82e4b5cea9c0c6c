import Gnhast.Lemmas.Pointers
import Gnhast.Lemmas.Confdump
import Gnhast.Lib.Faults

/-!
# What is freed of handler arguments and tags

A device is loaded from a section of the configuration, and then gets handler arguments and tags by `mod` commands. Which sequences of
values free only live blocks, and write only slots that were allocated, is decided by the values alone (`Sound`).
-/

namespace Gnhast.Pointers

open CStr Blocks Faults

/-- What a `mod` command sets. -/
inductive Edit
  | hargs (v : Str)
  | tags (v : Str)
deriving Repr, DecidableEq

/-- The edit that an argument makes. -/
def editOf (a : PArg) : Option Edit :=
  match a with
  | ⟨.hargs, v⟩ => some (.hargs v)
  | ⟨.tags, v⟩ => some (.tags v)
  | _ => none

/-- The edits of a sequence of commands. -/
def edits (mods : List (List PArg)) : List Edit := mods.flatten.filterMap editOf

/-- The edit is one of the handler arguments. -/
def Edit.isHargs : Edit → Bool
  | .hargs _ => true
  | .tags _ => false

/-- Edits that free only live blocks, with the arrays that were allocated before: once handler arguments that were allocated are set to
nothing, they are not set again; and tags are not set again once there was an odd number of them, or once they were set to nothing with
both arrays allocated. -/
def Sound : (hargs tags : Bool) → List Edit → Prop
  | _, _, [] => True
  | hargs, tags, .hargs v :: es =>
    ((v = [] ∧ hargs = true) → ∀ e ∈ es, e.isHargs = false) ∧ Sound (hargs || !v.isEmpty) tags es
  | hargs, tags, .tags v :: es =>
    ((strtok chComma v).length % 2 = 1 ∨ v = [] ∧ hargs = true ∧ tags = true → ∀ e ∈ es, e.isHargs = true) ∧
      Sound hargs (tags || !v.isEmpty) es

instance decidableSound : ∀ hargs tags es, Decidable (Sound hargs tags es)
  | _, _, [] => .isTrue trivial
  | hargs, tags, .hargs v :: es =>
    have := decidableSound (hargs || !v.isEmpty) tags es
    inferInstanceAs (Decidable (_ ∧ _))
  | hargs, tags, .tags v :: es =>
    have := decidableSound hargs (tags || !v.isEmpty) es
    inferInstanceAs (Decidable (_ ∧ _))

/-- A free of something that is not NULL or live, or a write to a slot that was not allocated. -/
def Bad (e : Misuse) : Prop := e = .badFree ∨ e = .badWrite

/-! ## Edits -/

/-- One edit. -/
def applyEdit (dev : Arrays) (e : Edit) : Except Misuse Arrays :=
  match e with
  | .hargs v => parseHargs v dev
  | .tags v => parseTags v dev

theorem modifyArg_eq (dev : Arrays) (a : PArg) :
    modifyArg dev a = match editOf a with | some e => applyEdit dev e | none => .ok dev := by
  obtain ⟨k, v⟩ := a
  cases k <;> rfl

theorem modifyArgs_eq (dev : Arrays) (args : List PArg) : args.foldlM modifyArg dev = (args.filterMap editOf).foldlM applyEdit dev := by
  induction args generalizing dev with
  | nil => rfl
  | cons a args ih =>
    rw [List.foldlM_cons, modifyArg_eq]
    cases he : editOf a with
    | none =>
      rw [List.filterMap_cons_none he]
      exact ih dev
    | some e =>
      rw [List.filterMap_cons_some he, List.foldlM_cons]
      exact congrArg _ (funext ih)

/-- Commands are the edits they make, one after the other. -/
theorem cmdModifys_eq (dev : Arrays) (mods : List (List PArg)) : mods.foldlM cmdModify dev = (edits mods).foldlM applyEdit dev := by
  rw [edits, ← modifyArgs_eq]
  induction mods generalizing dev with
  | nil => rfl
  | cons args mods ih =>
    rw [List.foldlM_cons, List.flatten_cons, List.foldlM_append]
    exact congrArg _ (funext ih)

/-! ## Loading -/

/-- The handler arguments of a section. -/
theorem loadHargs_ok (hargs : List Str) :
    ∃ dev fp, loadHargs hargs {} = .ok dev ∧
      ArrayAt dev.heap dev.hargs dev.nrofhargs fp (hargsState (if hargs = [] then .null else .block hargs)) ∧ fp.Nodup ∧
      dev.tags = .null ∧ dev.nroftags = 0 := by
  by_cases hh : hargs = []
  · subst hh
    exact ⟨{}, [], rfl, .null, List.nodup_nil, rfl, rfl⟩
  · obtain ⟨h', ps, bs, hfill, hb, hs, hnd, -, -⟩ := newArray_spec hargs le_rfl ([] : Heap Str)
    have ha := ArrayAt.live hb hs
    rw [List.length_map] at ha
    refine ⟨{ heap := h', hargs := .block 0, nrofhargs := hargs.length }, _, ?_, ?_, hnd, rfl, rfl⟩
    · rw [loadHargs, if_neg hh]
      simp only [alloc]
      rw [hfill]
      rfl
    · rwa [if_neg hh]

theorem newDevFromConf_arrays (F : Doubles) (conf : DeviceConf) :
    (Gnhast.newDevFromConf F conf).hargs = (if conf.hargs = [] then .null else .block conf.hargs) ∧
      (Gnhast.newDevFromConf F conf).tags = confTags conf.tags := by
  rw [newDevFromConf_eq]
  exact ⟨rfl, rfl⟩

/-- A section with an even list of tags is loaded as the device record says. -/
theorem newDevFromConf_even (F : Doubles) {conf : DeviceConf} (he : conf.tags.length % 2 = 0) :
    ∃ dev, newDevFromConf conf = .ok dev ∧ Rep dev (Gnhast.newDevFromConf F conf) := by
  obtain ⟨hh, ht⟩ := newDevFromConf_arrays F conf
  generalize Gnhast.newDevFromConf F conf = d at hh ht
  obtain ⟨dev, fp, hdev, ha, hnd, htags, hnrof⟩ := loadHargs_ok conf.hargs
  rw [← hh] at ha
  rw [newDevFromConf, hdev]
  simp only [Except.bind, loadTags]
  by_cases hn : conf.tags = []
  · rw [if_pos hn]
    refine ⟨dev, rfl, fp, [], .null, ha, ?_, by rw [ht, confTags, if_pos hn]; rfl, by rwa [List.append_nil]⟩
    rw [htags, hnrof]
    exact .null
  · obtain ⟨h', ps, bs, hfill, hb, hs, hnew, hge, hf⟩ := newArray_spec conf.tags le_rfl dev.heap
    have ht' := ArrayAt.live hb hs
    rw [List.length_map] at ht'
    have heven : ¬ conf.tags.length % 2 = 1 := by omega
    simp only [if_neg hn, alloc, hfill, he, Nat.add_zero, Except.map]
    refine ⟨_, rfl, fp, _, _, ha.frame hf fun _ _ => List.not_mem_nil, ht', ?_, (nodup_new hnd ha.lt hnew hge).perm List.perm_append_comm⟩
    rw [ht, confTags, if_neg hn, if_neg heven, List.append_nil, tagsArr, List.map_map]
    rfl

/-- An odd list of tags is filled up behind the end of the array. -/
theorem newDevFromConf_odd {conf : DeviceConf} (ho : conf.tags.length % 2 = 1) : newDevFromConf conf = .error .badWrite := by
  obtain ⟨dev, fp, hdev, -⟩ := loadHargs_ok conf.hargs
  have hn : conf.tags ≠ [] := by
    intro hn
    rw [hn] at ho
    cases ho
  obtain ⟨h', ps, bs, hfill, hb, hs, -⟩ := newArray_spec conf.tags le_rfl dev.heap
  have hlen : ps.length = conf.tags.length := by
    rw [hs.length, List.length_map]
  rw [newDevFromConf, hdev]
  simp only [Except.bind, loadTags, if_neg hn, alloc, hfill, if_pos ho, writeSlot, hb]
  rw [if_neg (by simp [hlen])]
  rfl

/-! ## Sequences of edits -/

/-- Edits that free only live blocks, from a device on. -/
def Ready (d : Device) (es : List Edit) : Prop :=
  (d.hargs = .freed → ∀ e ∈ es, e.isHargs = false) ∧
  (Tag.junk ∈ d.tags.items ∨ d.tags = .freed → ∀ e ∈ es, e.isHargs = true) ∧
  Sound (decide (d.hargs ≠ .null)) (decide (d.tags ≠ .null)) es

theorem dangling_freed_iff {β : Type} {a : Arr β} (h : a ≠ .freed) : a.dangling = .freed ↔ a ≠ .null := by
  cases a <;> simp_all [Arr.dangling]

theorem dangling_null_iff {β : Type} {a : Arr β} : a.dangling = .null ↔ a = .null := by
  cases a <;> simp [Arr.dangling]

/-- What setting handler arguments leaves, for the next edits. -/
theorem parseHargs_after {d : Device} (hd : d.hargs ≠ .freed) (v : Str) :
    ((Gnhast.parseHargs v d).1.hargs = .freed ↔ v = [] ∧ decide (d.hargs ≠ .null) = true) ∧
      decide ((Gnhast.parseHargs v d).1.hargs ≠ .null) = (decide (d.hargs ≠ .null) || !v.isEmpty) ∧
      (Gnhast.parseHargs v d).1.tags = d.tags := by
  rw [Gnhast.parseHargs]
  by_cases hv : v = []
  · subst hv
    rw [if_pos rfl]
    exact ⟨by simp [dangling_freed_iff hd], by simp [dangling_null_iff], rfl⟩
  · rw [if_neg hv]
    exact ⟨by simp [hv], by simp [hv], rfl⟩

/-- The tags that setting them leaves. -/
def tagsAfter (v : Str) (d : Device) : Arr Tag :=
  if v = [] then
    if d.hargs = .null then (match d.tags with | .block _ => .block [] | t => t) else d.tags.dangling
  else .block (tagSlots (strtok chComma v))

theorem parseTags_eq {d d' : Device} {v : Str} {out : List Out} (h : Gnhast.parseTags v d = .ok (d', out)) :
    d' = { d with tags := tagsAfter v d } := by
  rw [Gnhast.parseTags] at h
  cases hf : freeTags d.tags.items with
  | error e =>
    rw [hf] at h
    cases h
  | ok out' =>
    rw [hf] at h
    simp only [Except.map, Except.ok.injEq] at h
    rw [tagsAfter]
    by_cases hv : v = []
    · by_cases hn : d.hargs = .null
      · rw [if_pos hv, if_pos hn, Prod.mk.injEq] at h
        rw [if_pos hv, if_pos hn]
        exact h.1.symm
      · rw [if_pos hv, if_neg hn, Prod.mk.injEq] at h
        rw [if_pos hv, if_neg hn, h.1]
    · rw [if_neg hv, Prod.mk.injEq] at h
      rw [if_neg hv, h.1]

theorem junk_tagSlots (toks : List Str) : Tag.junk ∈ tagSlots toks ↔ toks.length % 2 = 1 := by
  rw [tagSlots, List.mem_append]
  by_cases ho : toks.length % 2 = 1 <;> simp [ho]

/-- What setting tags leaves, for the next edits. -/
theorem tagsAfter_spec {d : Device} (hd : d.tags ≠ .freed) (v : Str) :
    (Tag.junk ∈ (tagsAfter v d).items ∨ tagsAfter v d = .freed ↔ (strtok chComma v).length % 2 = 1 ∨
        v = [] ∧ decide (d.hargs ≠ .null) = true ∧ decide (d.tags ≠ .null) = true) ∧
      decide (tagsAfter v d ≠ .null) = (decide (d.tags ≠ .null) || !v.isEmpty) ∧
      (tagsAfter v d = .freed → d.hargs ≠ .null) := by
  rw [tagsAfter]
  by_cases hv : v = []
  · subst hv
    have hodd : (strtok chComma []).length % 2 = 0 := by decide
    rw [if_pos rfl, hodd]
    by_cases hn : d.hargs = .null
    · rw [if_pos hn, hn]
      cases ht : d.tags with
      | null => simp [Arr.items]
      | block xs => simp [Arr.items]
      | freed => exact absurd ht hd
    · rw [if_neg hn]
      cases ht : d.tags with
      | null => simp [Arr.items, Arr.dangling]
      | block xs => simp [Arr.items, Arr.dangling, hn]
      | freed => exact absurd ht hd
  · rw [if_neg hv]
    simp [Arr.items, junk_tagSlots, hv]

/-- After handler arguments were set. -/
theorem ready_hargs {d : Device} (hd : d.hargs ≠ .freed) (v : Str) (es : List Edit) :
    Ready (Gnhast.parseHargs v d).1 es ↔ Ready d (.hargs v :: es) := by
  obtain ⟨h1, h2, h3⟩ := parseHargs_after hd v
  have htags : (∀ e ∈ Edit.hargs v :: es, e.isHargs = true) ↔ ∀ e ∈ es, e.isHargs = true := by
    rw [List.forall_mem_cons]
    exact and_iff_right rfl
  rw [Ready, Ready, h1, h2, h3, htags, Sound]
  constructor
  · rintro ⟨hargs, htags, hsound⟩
    exact ⟨fun hf => absurd hf hd, htags, hargs, hsound⟩
  · rintro ⟨-, htags, hargs, hsound⟩
    exact ⟨hargs, htags, hsound⟩

/-- After tags were set. -/
theorem ready_tags {d : Device} (hj : Tag.junk ∉ d.tags.items) (hd : d.tags ≠ .freed) (v : Str) (es : List Edit) :
    Ready { d with tags := tagsAfter v d } es ↔ Ready d (.tags v :: es) := by
  obtain ⟨h1, h2, -⟩ := tagsAfter_spec hd v
  have hargs : (∀ e ∈ Edit.tags v :: es, e.isHargs = false) ↔ ∀ e ∈ es, e.isHargs = false := by
    rw [List.forall_mem_cons]
    exact and_iff_right rfl
  rw [Ready, Ready, h1, h2, hargs, Sound]
  constructor
  · rintro ⟨hargs, htags, hsound⟩
    exact ⟨hargs, fun hf => absurd hf (not_or.mpr ⟨hj, hd⟩), htags, hsound⟩
  · rintro ⟨hargs, -, htags, hsound⟩
    exact ⟨hargs, htags, hsound⟩

/-- Edits of arrays that stand for those of a device free only live blocks when they are ready for it, and else one of them frees
something else. -/
theorem applyEdits_settles {es : List Edit} {dev : Arrays} {d : Device} (h : Rep dev d) (hn : d.tags = .freed → d.hargs ≠ .null) :
    Settles Bad (Ready d es) (es.foldlM applyEdit dev) := by
  induction es generalizing dev d with
  | nil => exact settles_ok ⟨fun _ => by simp, fun _ => by simp, trivial⟩ dev
  | cons e es ih =>
    rw [List.foldlM_cons]
    cases e with
    | hargs v =>
      by_cases hd : d.hargs = .freed
      · rw [applyEdit, parseHargs_freed h hd v]
        exact settles_error (fun hr => by cases hr.1 hd _ List.mem_cons_self) (Or.inl rfl)
      · obtain ⟨dev', hdev', hrep⟩ := parseHargs_ok h hd v
        rw [applyEdit, hdev', ← ready_hargs hd]
        refine ih hrep fun ht => ?_
        obtain ⟨-, h2, h3⟩ := parseHargs_after hd v
        rw [h3] at ht
        have hargs : decide ((Gnhast.parseHargs v d).1.hargs ≠ .null) = true := by
          rw [h2, decide_eq_true (hn ht), Bool.true_or]
        exact of_decide_eq_true hargs
    | tags v =>
      by_cases hd : Tag.junk ∈ d.tags.items ∨ d.tags = .freed
      · rw [applyEdit, parseTags_bad h hn hd v]
        exact settles_error (fun hr => by cases hr.2.1 hd _ List.mem_cons_self) (Or.inl rfl)
      · obtain ⟨hj, hf⟩ := not_or.mp hd
        obtain ⟨dev', d', hdev', hd', hrep⟩ := parseTags_ok h hj hf v
        rw [applyEdit, hdev', ← ready_tags hj hf v]
        rw [parseTags_eq hd'] at hrep
        exact ih hrep (tagsAfter_spec hf v).2.2

/-- The frees and the writes of slots, for a device loaded from a section and any sequence of `mod` commands, are all sound exactly when
the section has an even list of tags and the values set are sound. -/
theorem modify_heap_iff (conf : DeviceConf) (mods : List (List PArg)) :
    Avoids Bad (loadAndModify conf mods) ↔
      conf.tags.length % 2 = 0 ∧ Sound (decide (conf.hargs ≠ [])) (decide (conf.tags ≠ [])) (edits mods) := by
  rw [loadAndModify]
  by_cases he : conf.tags.length % 2 = 0
  · obtain ⟨dev, hdev, hrep⟩ := newDevFromConf_even Doubles.exact he
    obtain ⟨hh, ht⟩ := newDevFromConf_arrays Doubles.exact conf
    generalize Gnhast.newDevFromConf Doubles.exact conf = d at hrep hh ht
    have heven : ¬ conf.tags.length % 2 = 1 := by omega
    have hargs : d.hargs ≠ .freed ∧ decide (d.hargs ≠ .null) = decide (conf.hargs ≠ []) := by
      rw [hh]
      by_cases hn : conf.hargs = [] <;> simp [hn]
    have htags : Tag.junk ∉ d.tags.items ∧ d.tags ≠ .freed ∧ decide (d.tags ≠ .null) = decide (conf.tags ≠ []) := by
      rw [ht, confTags, if_neg heven]
      by_cases hn : conf.tags = [] <;> simp [hn, Arr.items]
    rw [hdev, show (Except.ok dev : Except Misuse Arrays).bind (fun dev => mods.foldlM cmdModify dev) = mods.foldlM cmdModify dev from
      rfl, cmdModifys_eq, (applyEdits_settles hrep fun hf => absurd hf htags.2.1).avoids, Ready, hargs.2, htags.2.2]
    constructor
    · rintro ⟨-, -, hsound⟩
      exact ⟨he, hsound⟩
    · rintro ⟨-, hsound⟩
      exact ⟨fun hf => absurd hf hargs.1, fun hf => absurd hf (not_or.mpr ⟨htags.1, htags.2.1⟩), hsound⟩
  · rw [newDevFromConf_odd (by omega)]
    refine iff_of_false (fun h => h .badWrite rfl (Or.inr rfl)) fun h => he h.1

example : Sound true false [.tags [], .hargs [], .tags (str "a,b")] := by
  decide

/-- A second list of tags behind an odd one frees a string constant. -/
theorem not_modify_heap : ¬ ∀ (conf : DeviceConf) (mods : List (List PArg)), Avoids Bad (loadAndModify conf mods) := by
  intro h
  exact h { title := str "x" } [[⟨.tags, str "a"⟩], [⟨.tags, str "b"⟩]] .badFree rfl (Or.inl rfl)

end Gnhast.Pointers
