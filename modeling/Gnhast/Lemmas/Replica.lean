import Gnhast.Collcmd
import Gnhast.Lemmas.Groups
import Gnhast.Lemmas.Wire
import Gnhast.Lib.Keyed

/-!
# What a collector learns

The lines of `ldevs`, read by a collector and executed by its `cmd_register`. What a collector knows of devices is a map by uid
(`Collector.view`), and a line updates it at one uid.
-/

namespace Gnhast

open CStr Keyed

variable (F : Doubles)

/-! ## Lines to a client -/

theorem linesTo_emits {α : Type} (c : ClientId) (f : α → Option Str) (xs : List α) (last : Str) :
    linesTo c ((xs.flatMap fun x => emit c (f x)) ++ [.write c last]) = xs.filterMap f ++ [last] := by
  unfold linesTo
  rw [List.filterMap_append]
  refine congrArg₂ (· ++ ·) ?_ (by simp)
  induction xs with
  | nil => rfl
  | cons x xs ih =>
    rw [List.flatMap_cons, List.filterMap_append, ih]
    cases hf : f x with
    | none => rw [List.filterMap_cons_none hf]; rfl
    | some line => rw [List.filterMap_cons_some hf]; simp [emit]

/-! ## The line of a device -/

/-- The device a collector makes of a line. -/
def announced (dev : Device) (name : Str) : Device :=
  { uid := dev.uid, name := some name, rrdname := some ((dev.rrdname.getD (name.take 19)).take 19), type := dev.type
    proto := dev.proto, subtype := dev.subtype }

/-- The arguments of the line. -/
def groupArgs (uid name : Str) (gs ds : List Str) : List PArg :=
  ⟨.uid, uid⟩ :: ⟨.name, name⟩ :: (listField .grouplist gs ++ listField .devlist ds).map (fieldArg F)

theorem lastArg_groupArgs (uid name : Str) (gs ds : List Str) :
    lastArg .uid (groupArgs F uid name gs ds) = some uid ∧ lastArg .name (groupArgs F uid name gs ds) = some name ∧
      lastArg .grouplist (groupArgs F uid name gs ds) = (if gs = [] then none else some (join chComma gs)) ∧
      lastArg .devlist (groupArgs F uid name gs ds) = (if ds = [] then none else some (join chComma ds)) := by
  unfold groupArgs listField
  split <;> split <;> simp [fieldArg, lastArg, PArg.as, readValue]

/-- The text of the line in front of the devices. -/
def groupHead (uid name : Str) (gs : List Str) : Str :=
  str "regg" ++ chSpace :: (field .uid uid ++ chSpace :: (argnm .name ++ chColon :: chQuote ::
    (name ++ chQuote :: chSpace :: (if gs = [] then [] else field .grouplist (join chComma gs)))))

/-- The devices. -/
def groupTail (ds : List Str) : Str := if ds = [] then [] else field .devlist (join chComma ds)

theorem gnRegisterDevgroup_text {s : Server} {g : GroupId} {name : Str} (hn : (s.group g).name = some name) :
    gnRegisterDevgroup s g =
      some (groupHead (s.group g).uid name (childUids s g) ++ chSpace :: groupTail (memberUids s g) ++ [chLf]) := by
  have h1 : str "regg " = str "regg" ++ [chSpace] := rfl
  have h2 : str " " = [chSpace] := rfl
  simp only [gnRegisterDevgroup, hn, h1, h2, groupHead, groupTail]
  change some (_ ++ (if childUids s g = [] then [] else field .grouplist (join chComma (childUids s g))) ++ [chSpace] ++
    (if memberUids s g = [] then [] else field .devlist (join chComma (memberUids s g))) ++ [chLf]) = _
  simp [field, quote]

/-- A group whose strings go over the wire as they are: uids are bare, without commas, the name is quotable, and all are on one
line. -/
structure GroupSendable (uid name : Str) (gs ds : List Str) : Prop where
  bare : Bare uid
  quotable : Quotable name
  lists : ∀ u, u ∈ ds ∨ u ∈ gs → Bare u ∧ chComma ∉ u ∧ OneLine u
  uid_line : OneLine uid
  name_line : OneLine name

theorem oneLine_groupText {uid name : Str} {gs ds : List Str} (h : GroupSendable uid name gs ds) :
    OneLine (groupHead uid name gs ++ chSpace :: groupTail ds) := by
  have hc : chSpace ≠ chNul ∧ chSpace ≠ chLf ∧ chColon ≠ chNul ∧ chColon ≠ chLf ∧ chQuote ≠ chNul ∧ chQuote ≠ chLf := by
    decide
  have hregg : OneLine (str "regg") := by decide
  have hgl := oneLine_join fun u hu => (h.lists u (Or.inr hu)).2.2
  have hdl := oneLine_join fun u hu => (h.lists u (Or.inl hu)).2.2
  unfold groupHead groupTail
  split <;> split <;> simp [field, hc, hregg, h.uid_line, h.name_line, hgl, hdl]

theorem stripCr_groupText (uid name : Str) (gs ds : List Str) :
    stripCr (groupHead uid name gs ++ chSpace :: groupTail ds) = groupHead uid name gs ++ chSpace :: groupTail (stripLast ds) := by
  rw [stripCr_append_cons (by decide)]
  have htail : stripCr (groupTail ds) = groupTail (stripLast ds) := by
    unfold groupTail
    by_cases hd : ds = []
    · rw [hd]
      rfl
    · rw [if_neg hd, if_neg (mt stripLast_eq_nil.mp hd), field, stripCr_append_cons (by decide), stripCr_join]
      rfl
  rw [htail]

/-- A group's line comes back as its arguments. -/
theorem readCommand_groupText {uid name : Str} {gs ds : List Str} (h : GroupSendable uid name gs ds) :
    readCommand F (readLine (groupHead uid name gs ++ chSpace :: groupTail ds ++ [chLf])) =
      some (str "regg", groupArgs F uid name gs (stripLast ds)) := by
  have hone := oneLine_groupText h
  have hcr : ∀ u ∈ stripLast ds, Bare u ∧ OneLine u := by
    intro u hu
    rcases stripLast_subset hu with hu | hu
    · exact ⟨(h.lists u (Or.inl hu)).1, (h.lists u (Or.inl hu)).2.2⟩
    · obtain ⟨hb, -, hl⟩ := h.lists _ (Or.inl (List.mem_of_getLast? hu))
      exact ⟨⟨fun hm => hb.1 (List.mem_append_left _ hm), fun hm => hb.2 (List.mem_append_left _ hm)⟩,
        (oneLine_append.mp hl).1⟩
  have hdl : Spaced (listField .devlist (stripLast ds)) (groupTail (stripLast ds)) := by
    unfold listField groupTail
    split
    · exact .nil
    · have hf := Spaced.field .devlist (join chComma (stripLast ds)) .nil (Or.inl rfl)
      rwa [List.append_nil] at hf
  have hlists : Spaced (listField .grouplist gs ++ listField .devlist (stripLast ds))
      ((if gs = [] then [] else field .grouplist (join chComma gs)) ++ chSpace :: groupTail (stripLast ds)) := by
    by_cases hc : gs = []
    · simpa only [listField, hc, if_true, List.nil_append] using hdl.blank
    · simpa only [listField, hc, if_false, List.singleton_append] using hdl.cons .grouplist (join chComma gs)
  have hbare : ∀ f ∈ listField .grouplist gs ++ listField .devlist (stripLast ds), Bare f.2 := by
    intro f hf
    unfold listField at hf
    rcases List.mem_append.mp hf with hf | hf
    · split at hf
      · cases hf
      · rw [List.mem_singleton.mp hf]
        exact bare_join fun u hu => (h.lists u (Or.inr hu)).1
    · split at hf
      · cases hf
      · rw [List.mem_singleton.mp hf]
        exact bare_join fun u hu => (hcr u hu).1
  have htext : groupHead uid name gs ++ chSpace :: groupTail (stripLast ds) = str "regg" ++ chSpace :: headed uid name
      ((if gs = [] then [] else field .grouplist (join chComma gs)) ++ chSpace :: groupTail (stripLast ds)) := by
    simp [groupHead, headed]
  have hnul : chNul ∉ groupHead uid name gs ++ chSpace :: groupTail (stripLast ds) := by
    rw [← stripCr_groupText]
    exact fun hm => hone.1 (mem_of_mem_stripCr hm)
  rw [readLine_append hone.2, stripCr_groupText, htext, readCommand_text F (by decide) (htext ▸ hnul),
    readArgs_headed F h.bare h.quotable, hlists.readArgs F hbare]
  rfl

/-! ## What a collector hears of groups -/

/-- The tokens of a list argument. -/
def tokens (l : Option Str) : List Str := (l.map (strtok chComma)).getD []

theorem mem_tokens_list {uids : List Str} (h : ∀ u ∈ uids, chComma ∉ u) {p : Str} :
    p ∈ tokens (if uids = [] then none else some (join chComma uids)) ↔ p ∈ uids ∧ p ≠ [] := by
  split
  · rename_i he
    rw [he]
    simp [tokens]
  · exact mem_strtok_join h

/-- What a collector knows once it has executed a line for a group that is new to it: the group, with the devices and the groups
of the line that it knows; and all else as before. -/
structure HearsGroup (t t' : Server) (uid name : Str) (gs ds : List Str) : Prop where
  table : GroupTable t'
  only : OnlyGroups t t'
  find : ∀ u, t'.findDevgroupByUid u = if u = uid then some t.nextGroup else t.findDevgroupByUid u
  name : (t'.group t.nextGroup).name = some name
  members : ∀ u, u ∈ memberUids t' t.nextGroup ↔ u ∈ ds ∧ t.findDeviceByUid u ≠ none
  children : ∀ u, u ∈ childUids t' t.nextGroup ↔ u ∈ gs ∧ (u = uid ∨ t.findDevgroupByUid u ≠ none)
  others : ∀ g ∈ t.allgroups, (t'.group g).name = (t.group g).name ∧
    (∀ u, u ∈ memberUids t' g ↔ u ∈ memberUids t g) ∧ ∀ u, u ∈ childUids t' g ↔ u ∈ childUids t g

/-- The devices and the groups on the lists join a group that was just made. -/
theorem hearsGroup_lists {t t₁ : Server} {uid name : Str} (ht : GroupTable t) (hr : Registry t)
    (hf : t.findDevgroupByUid uid = none) (ho : Opened t uid t.nextGroup t₁)
    (hopen : ∀ u, t₁.findDevgroupByUid u = if u = uid then some t.nextGroup else t.findDevgroupByUid u)
    (hname : (t₁.group t.nextGroup).name = some name) (hnames : ∀ g ∈ t.allgroups, (t₁.group g).name = (t.group g).name)
    (gs ds : List Str) : HearsGroup t (addDevs t.nextGroup ds (addGroups t.nextGroup gs t₁)) uid name gs ds := by
  obtain ⟨ht₂, hall₂, hdg₂, hg₂⟩ := addGroups_spec ho.table ho.mem gs
  have honly₂ := ho.only.trans (onlyGroups_addGroups t.nextGroup gs t₁)
  obtain ⟨ht₃, -, hdg₃, hg₃⟩ := addDevs_spec ht₂ (hr.onlyGroups honly₂) (hall₂ ▸ ho.mem) ds
  have honly₃ := honly₂.trans (onlyGroups_addDevs t.nextGroup ds (addGroups t.nextGroup gs t₁))
  have hout := ht.outside t.nextGroup ht.notMem
  have hfind : ∀ u, (addDevs t.nextGroup ds (addGroups t.nextGroup gs t₁)).findDevgroupByUid u =
      if u = uid then some t.nextGroup else t.findDevgroupByUid u := by
    intro u
    rw [← hopen, Server.findDevgroupByUid, hdg₃, hdg₂, Server.findDevgroupByUid]
  have hdevs : ∀ g, memberDevs t₁ g = memberDevs t g := fun g => by rw [memberDevs, ho.members, memberDevs]
  have hkids : ∀ g, kids t₁ g = kids t g := fun g => by rw [kids, ho.children, kids]
  -- groups that were there keep their uids
  have huid : ∀ b ∈ t.allgroups, ((addDevs t.nextGroup ds (addGroups t.nextGroup gs t₁)).group b).uid =
      (t.group b).uid := by
    intro b hb
    have hb' := (ht.found _ b).mpr ⟨hb, rfl⟩
    refine ((ht₃.found _ b).mp ?_).2
    rw [hfind, if_neg, hb']
    intro he
    rw [he, hf] at hb'
    cases hb'
  refine ⟨ht₃, honly₃, hfind, ?_, fun u => ?_, fun u => ?_, fun g hg => ⟨?_, fun u => ?_, fun u => ?_⟩⟩
  · rw [(hg₃ _).1, (hg₂ _).1, hname]
  · have hmem : ∀ d, d ∈ memberDevs (addDevs t.nextGroup ds (addGroups t.nextGroup gs t₁)) t.nextGroup ↔
        ∃ p ∈ ds, t.findDeviceByUid p = some d := by
      intro d
      rw [(hg₃ _).2.2, (hg₂ _).2.1, hdevs, memberDevs, hout.1]
      simp [honly₂.findDeviceByUid]
    rw [memberUids_eq, List.mem_map, honly₃.dev]
    constructor
    · rintro ⟨d, hd, rfl⟩
      obtain ⟨p, hp, hpd⟩ := (hmem d).mp hd
      rw [((hr.found p d).mp hpd).2]
      exact ⟨hp, by simp [hpd]⟩
    · rintro ⟨hu, hk⟩
      obtain ⟨d, hd⟩ := Option.ne_none_iff_exists'.mp hk
      exact ⟨d, (hmem d).mpr ⟨u, hu, hd⟩, ((hr.found u d).mp hd).2⟩
  · have hmem : ∀ b, b ∈ kids (addDevs t.nextGroup ds (addGroups t.nextGroup gs t₁)) t.nextGroup ↔
        ∃ p ∈ gs, (addDevs t.nextGroup ds (addGroups t.nextGroup gs t₁)).findDevgroupByUid p = some b := by
      intro b
      rw [(hg₃ _).2.1, (hg₂ _).2.2, hkids, kids, hout.2]
      simp [hfind, hopen]
    rw [childUids_eq, List.mem_map]
    have hknown : (u = uid ∨ t.findDevgroupByUid u ≠ none) ↔
        (addDevs t.nextGroup ds (addGroups t.nextGroup gs t₁)).findDevgroupByUid u ≠ none := by
      rw [hfind]
      by_cases he : u = uid <;> simp [he]
    rw [hknown]
    constructor
    · rintro ⟨b, hb, rfl⟩
      obtain ⟨p, hp, hpb⟩ := (hmem b).mp hb
      rw [((ht₃.found p b).mp hpb).2]
      exact ⟨hp, by simp [hpb]⟩
    · rintro ⟨hu, hk⟩
      obtain ⟨b, hb⟩ := Option.ne_none_iff_exists'.mp hk
      exact ⟨b, (hmem b).mpr ⟨u, hu, hb⟩, ((ht₃.found u b).mp hb).2⟩
  · rw [(hg₃ _).1, (hg₂ _).1, hnames g hg]
  · have hne : g ≠ t.nextGroup := fun he => ht.notMem (he ▸ hg)
    have hmem : ∀ d, d ∈ memberDevs (addDevs t.nextGroup ds (addGroups t.nextGroup gs t₁)) g ↔ d ∈ memberDevs t g := by
      intro d
      rw [(hg₃ _).2.2, (hg₂ _).2.1, hdevs]
      simp [hne]
    rw [memberUids_eq, memberUids_eq, List.mem_map, List.mem_map, honly₃.dev]
    exact exists_congr fun d => and_congr_left fun _ => hmem d
  · have hne : g ≠ t.nextGroup := fun he => ht.notMem (he ▸ hg)
    have hmem : ∀ b, b ∈ kids (addDevs t.nextGroup ds (addGroups t.nextGroup gs t₁)) g ↔ b ∈ kids t g := by
      intro b
      rw [(hg₃ _).2.1, (hg₂ _).2.2, hkids]
      simp [hne]
    rw [childUids_eq, childUids_eq, List.mem_map, List.mem_map]
    refine exists_congr fun b => ?_
    rw [hmem]
    refine and_congr_right fun hb => ?_
    obtain ⟨w, hw, rfl⟩ := List.mem_map.mp hb
    rw [huid w.group (ht.child g w hw)]

/-- A collector hears of a group that is new to it. -/
theorem hearsGroup_cmdRegisterGroup {k : Collector} (ht : GroupTable k.mem) (hr : Registry k.mem) {args : List PArg}
    {uid name : Str} (hu : lastArg .uid args = some uid) (hn : lastArg .name args = some name)
    (hf : k.mem.findDevgroupByUid uid = none) :
    HearsGroup k.mem (Collcmd.cmdRegisterGroup args k).coll.mem uid name (tokens (lastArg .grouplist args))
      (tokens (lastArg .devlist args)) := by
  have hmem : (Collcmd.cmdRegisterGroup args k).coll.mem = addDevs k.mem.nextGroup (tokens (lastArg .devlist args))
      (addGroups k.mem.nextGroup (tokens (lastArg .grouplist args))
        ((k.mem.newDevgroup uid).1.modGroup k.mem.nextGroup fun g => { g with name := some name })) := by
    simp only [Collcmd.cmdRegisterGroup, hu, hf, hn, Collcmd.updateGroup]
    cases (lastArg .grouplist args : Option Str) <;> cases (lastArg .devlist args : Option Str) <;> rfl
  rw [hmem]
  refine hearsGroup_lists ht hr hf (opened_new ht hf name) (fun u => ?_) ?_ (fun g hg => ?_) _ _
  · have hf' : k.mem.devgroups uid = none := hf
    simp only [Server.findDevgroupByUid, Server.modGroup, Server.newDevgroup, Server.treeInsert, hf', Function.update_apply]
  · simp [Server.modGroup, Server.newDevgroup]
  · have hne : g ≠ k.mem.nextGroup := fun he => ht.notMem (he ▸ hg)
    simp [Server.modGroup, Server.newDevgroup, hne]

end Gnhast
