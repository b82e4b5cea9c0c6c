import Gnhast.Lemmas.Replica

/-!
# The list of groups at a collector

The lines of an `lgrps` command come in the order in which the groups were made, and a collector links a child when it executes
its parent's line, so the child has to be there. `parse_devgroups` goes over the groups twice for the same reason; an `lgrps`
command does not. So the groups are replicated exactly when no group has a child that was made after it, but for uids that get
lost where lists are read.
-/

namespace Gnhast

open CStr Collcmd

variable (F : Doubles)

/-! ## What is to be had -/

/-- Two groups that agree. -/
structure SameGroup (s s' : Server) (g g' : GroupId) : Prop where
  name : (s'.group g').name = (s.group g).name
  members : ∀ u, u ∈ memberUids s' g' ↔ u ∈ memberUids s g
  children : ∀ u, u ∈ childUids s' g' ↔ u ∈ childUids s g

/-- A collector executes the lines of an `lgrps` command. Then it has the groups of the server, and no others. -/
def GroupsReplicate (args : List PArg) (c : ClientId) (s : Server) (k : Collector) : Prop :=
  ∃ r k', cmdListGroups args c s = .ok r ∧
    obey F .regg (fun args k => .ok (Collcmd.cmdRegisterGroup args k)) (linesTo c r.out) k = .ok k' ∧
      ∀ uid, Option.Rel (SameGroup s k'.mem) (s.findDevgroupByUid uid) (k'.mem.findDevgroupByUid uid)

/-- The strings of a group go over the wire as they are. -/
def GroupsSendable (s : Server) : Prop :=
  ∀ g ∈ s.allgroups, ∀ name, (s.group g).name = some name →
    GroupSendable (s.group g).uid name (childUids s g) (memberUids s g)

/-- What a group needs: no uid on its lists is empty; the last member's does not end in a carriage return, or it is a member twice
and without the carriage return it is another member, or names nothing; and no child was made after it. -/
structure Told (s : Server) (g : GroupId) : Prop where
  member : ∀ u ∈ memberUids s g, u ≠ []
  last : ∀ u, (memberUids s g).getLast? = some (u ++ [chCr]) →
    u ++ [chCr] ∈ (memberUids s g).dropLast ∧ (s.findDeviceByUid u ≠ none → u = [] ∨ u ∈ memberUids s g)
  child : ∀ h ∈ kids s g, (s.group h).uid ≠ [] ∧ s.allgroups.idxOf h ≤ s.allgroups.idxOf g

/-! ## What comes through -/

/-- Members come through exactly when none is lost as empty, and the last is not changed in a way that matters. -/
theorem members_told_iff {us : List Str} {known : Str → Prop} (hk : ∀ u ∈ us, known u) :
    (∀ u, (u ∈ stripLast us ∧ u ≠ []) ∧ known u ↔ u ∈ us) ↔ (∀ u ∈ us, u ≠ []) ∧
      ∀ u, us.getLast? = some (u ++ [chCr]) → u ++ [chCr] ∈ us.dropLast ∧ (known u → u = [] ∨ u ∈ us) := by
  rcases List.eq_nil_or_concat us with rfl | ⟨vs, w, rfl⟩
  · simp [stripLast]
  rw [List.concat_eq_append] at *
  rw [stripLast_append, List.getLast?_concat, List.dropLast_concat]
  by_cases hcr : w.getLast? = some chCr
  · obtain ⟨v, rfl⟩ : ∃ v, w = v ++ [chCr] := ⟨w.dropLast, (List.dropLast_append_getLast? _ hcr).symm⟩
    have hstrip : stripCr (v ++ [chCr]) = v := by simp [stripCr]
    rw [hstrip]
    constructor
    · intro h
      refine ⟨fun u hu => ((h u).mpr hu).1.2, fun u hu => ?_⟩
      obtain rfl : v = u := List.append_cancel_right (Option.some.inj hu)
      constructor
      · rcases List.mem_append.mp ((h (v ++ [chCr])).mpr (List.mem_append_right _ List.mem_cons_self)).1.1 with hm | hm
        · exact hm
        · exact absurd (List.mem_singleton.mp hm) (by simp)
      · intro hkv
        by_cases hv : v = []
        · exact Or.inl hv
        · exact Or.inr ((h v).mp ⟨⟨List.mem_append_right _ List.mem_cons_self, hv⟩, hkv⟩)
    · rintro ⟨hne, hlast⟩ u
      obtain ⟨hin, hout⟩ := hlast v rfl
      constructor
      · rintro ⟨⟨hu, hu0⟩, hku⟩
        rcases List.mem_append.mp hu with hu | hu
        · exact List.mem_append_left _ hu
        · obtain rfl := List.mem_singleton.mp hu
          exact (hout hku).resolve_left hu0
      · intro hu
        refine ⟨⟨List.mem_append_left _ ?_, hne u hu⟩, hk u hu⟩
        rcases List.mem_append.mp hu with hu | hu
        · exact hu
        · rw [List.mem_singleton.mp hu]
          exact hin
  · have hstrip : stripCr w = w := if_neg hcr
    rw [hstrip]
    constructor
    · refine fun h => ⟨fun u hu => ((h u).mpr hu).1.2, fun u hu => absurd ?_ hcr⟩
      rw [Option.some.inj hu, List.getLast?_concat]
    · exact fun h u => ⟨fun hu => hu.1.1, fun hu => ⟨⟨hu, h.1 u hu⟩, hk u hu⟩⟩

/-- What a collector knows once it has heard of some of the server's groups, in their order. -/
structure Heard (s t : Server) (pre : List GroupId) : Prop where
  registry : Registry t
  table : GroupTable t
  devices : ∀ uid, t.findDeviceByUid uid ≠ none ↔ s.findDeviceByUid uid ≠ none
  known : ∀ uid, t.findDevgroupByUid uid ≠ none ↔ ∃ g ∈ pre, (s.group g).uid = uid
  name : ∀ g ∈ pre, ∀ g', t.findDevgroupByUid (s.group g).uid = some g' → (t.group g').name = (s.group g).name
  members : ∀ g ∈ pre, ∀ g', t.findDevgroupByUid (s.group g).uid = some g' → ∀ u,
    u ∈ memberUids t g' ↔ (u ∈ stripLast (memberUids s g) ∧ u ≠ []) ∧ s.findDeviceByUid u ≠ none
  children : ∀ g ∈ pre, ∀ g', t.findDevgroupByUid (s.group g).uid = some g' → ∀ u,
    u ∈ childUids t g' ↔ u ≠ [] ∧ ∃ h ∈ kids s g, (s.group h).uid = u ∧ s.allgroups.idxOf h ≤ s.allgroups.idxOf g

/-- The groups up to one of a list. -/
theorem idxOf_le_iff {pre post : List GroupId} {g h : GroupId} (hn : (pre ++ g :: post).Nodup) :
    (pre ++ g :: post).idxOf h ≤ (pre ++ g :: post).idxOf g ↔ h ∈ pre ∨ h = g := by
  have hg : g ∉ pre := fun hm => (List.nodup_append.mp hn).2.2 g hm g List.mem_cons_self rfl
  have hidx : (pre ++ g :: post).idxOf g = pre.length := by
    rw [List.idxOf_append_of_notMem hg, List.idxOf_cons_self, Nat.add_zero]
  rw [hidx]
  by_cases hp : h ∈ pre
  · rw [List.idxOf_append_of_mem hp]
    exact ⟨fun _ => Or.inl hp, fun _ => List.idxOf_le_length⟩
  · rw [List.idxOf_append_of_notMem hp]
    by_cases he : h = g
    · simp [he]
    · rw [List.idxOf_cons_ne _ (Ne.symm he)]
      exact ⟨fun hle => absurd hle (by omega), fun hor => absurd (hor.resolve_left hp) he⟩

/-- A collector executes the line of the next group. -/
theorem Heard.next {s : Server} {k : Collector} {pre post : List GroupId} {g : GroupId} {name : Str} (h : Heard s k.mem pre)
    (ht : GroupTable s) (hall : s.allgroups = pre ++ g :: post) (hn : (s.group g).name = some name)
    (hs : GroupSendable (s.group g).uid name (childUids s g) (memberUids s g)) :
    Heard s (Collcmd.cmdRegisterGroup
      (groupArgs F (s.group g).uid name (childUids s g) (stripLast (memberUids s g))) k).coll.mem (pre ++ [g]) := by
  obtain ⟨hu, hname, hgl, hdl⟩ := lastArg_groupArgs F (s.group g).uid name (childUids s g) (stripLast (memberUids s g))
  have hnodup := ht.nodup
  rw [hall] at hnodup
  have hpre : ∀ g' ∈ pre, g' ∈ s.allgroups := fun g' hg' => hall ▸ List.mem_append_left _ hg'
  have hg : g ∈ s.allgroups := hall ▸ List.mem_append_right _ List.mem_cons_self
  have hne : ∀ g' ∈ pre, (s.group g').uid ≠ (s.group g).uid := by
    intro g' hg' he
    have := ht.uid_inj (hpre g' hg') hg he
    exact (List.nodup_append.mp hnodup).2.2 g' hg' g List.mem_cons_self this
  have hf : k.mem.findDevgroupByUid (s.group g).uid = none := by
    by_contra hf
    obtain ⟨g', hg', he⟩ := (h.known _).mp hf
    exact hne g' hg' he
  have hh := hearsGroup_cmdRegisterGroup h.table h.registry hu hname hf
  rw [hgl, hdl] at hh
  have hcommas : ∀ u ∈ stripLast (memberUids s g), chComma ∉ u := by
    intro u hu hm
    rcases stripLast_subset hu with hu | hu
    · exact (hs.lists u (Or.inl hu)).2.1 hm
    · exact (hs.lists _ (Or.inl (List.mem_of_getLast? hu))).2.1 (List.mem_append_left _ hm)
  have hfind : ∀ g' ∈ pre, ∀ g'', (Collcmd.cmdRegisterGroup
      (groupArgs F (s.group g).uid name (childUids s g) (stripLast (memberUids s g))) k).coll.mem.findDevgroupByUid
        (s.group g').uid = some g'' → k.mem.findDevgroupByUid (s.group g').uid = some g'' ∧ g'' ∈ k.mem.allgroups := by
    intro g' hg' g'' he
    rw [hh.find, if_neg (hne g' hg')] at he
    exact ⟨he, ((h.table.found _ _).mp he).1⟩
  refine ⟨h.registry.onlyGroups hh.only, hh.table, fun uid => ?_, fun uid => ?_, ?_, ?_, ?_⟩
  · rw [hh.only.findDeviceByUid]
    exact h.devices uid
  · rw [hh.find]
    by_cases he : uid = (s.group g).uid
    · simp [he]
    · rw [if_neg he, h.known]
      simp [Ne.symm he]
  · intro g' hg' g'' he
    rcases List.mem_append.mp hg' with hg' | hg'
    · obtain ⟨he, hm⟩ := hfind g' hg' g'' he
      rw [(hh.others g'' hm).1]
      exact h.name g' hg' g'' he
    · obtain rfl := List.mem_singleton.mp hg'
      rw [hh.find, if_pos rfl, Option.some.injEq] at he
      rw [← he, hh.name, hn]
  · intro g' hg' g'' he u
    rcases List.mem_append.mp hg' with hg' | hg'
    · obtain ⟨he, hm⟩ := hfind g' hg' g'' he
      rw [(hh.others g'' hm).2.1]
      exact h.members g' hg' g'' he u
    · obtain rfl := List.mem_singleton.mp hg'
      rw [hh.find, if_pos rfl, Option.some.injEq] at he
      rw [← he, hh.members, mem_tokens_list hcommas, h.devices]
  · intro g' hg' g'' he u
    rcases List.mem_append.mp hg' with hg' | hg'
    · obtain ⟨he, hm⟩ := hfind g' hg' g'' he
      rw [(hh.others g'' hm).2.2]
      exact h.children g' hg' g'' he u
    · obtain rfl := List.mem_singleton.mp hg'
      rw [hh.find, if_pos rfl, Option.some.injEq] at he
      rw [← he, hh.children, mem_tokens_list fun u hu => (hs.lists u (Or.inr hu)).2.1, childUids_eq, List.mem_map, h.known]
      -- the groups that are known are those before, and the group itself
      have hidx : ∀ b, s.allgroups.idxOf b ≤ s.allgroups.idxOf g' ↔ b ∈ pre ∨ b = g' := fun b => by
        rw [hall]
        exact idxOf_le_iff hnodup
      constructor
      · rintro ⟨⟨⟨b, hb, rfl⟩, hne'⟩, hk⟩
        refine ⟨hne', b, hb, rfl, (hidx b).mpr ?_⟩
        have hba : b ∈ s.allgroups := by
          obtain ⟨w, hw, rfl⟩ := List.mem_map.mp hb
          exact ht.child g' w hw
        rcases hk with he' | ⟨b', hb', he'⟩
        · exact Or.inr (ht.uid_inj hba hg he')
        · exact Or.inl (ht.uid_inj (hpre b' hb') hba he' ▸ hb')
      · rintro ⟨hne', b, hb, rfl, hle⟩
        refine ⟨⟨⟨b, hb, rfl⟩, hne'⟩, ?_⟩
        rcases (hidx b).mp hle with hb' | rfl
        · exact Or.inr ⟨b, hb', rfl⟩
        · exact Or.inl rfl

/-- A collector hears of the groups whose lines it executes, one after the other. -/
theorem obey_groups {s : Server} {k : Collector} {pre gs : List GroupId} (h : Heard s k.mem pre) (ht : GroupTable s)
    (hs : GroupsSendable s) (hall : s.allgroups = pre ++ gs) (lines : List Str) :
    ∃ k', obey F .regg (fun args k => .ok (Collcmd.cmdRegisterGroup args k))
      (gs.filterMap (gnRegisterDevgroup s) ++ lines) k =
        obey F .regg (fun args k => .ok (Collcmd.cmdRegisterGroup args k)) lines k' ∧ Heard s k'.mem s.allgroups := by
  induction gs generalizing pre k with
  | nil => exact ⟨k, rfl, by rwa [hall, List.append_nil]⟩
  | cons g gs ih =>
    have hg : g ∈ s.allgroups := hall ▸ List.mem_append_right _ List.mem_cons_self
    obtain ⟨name, hn⟩ := Option.ne_none_iff_exists'.mp (ht.name g hg)
    obtain ⟨k', h1, h2⟩ := ih (h.next F ht hall hn (hs g hg name hn)) (by rw [hall, List.append_assoc]; rfl)
    have hcmd : Collcmd.findCommand (str "regg") = some .regg := by decide
    refine ⟨k', ?_, h2⟩
    rw [List.filterMap_cons_some (gnRegisterDevgroup_text hn), List.cons_append, obey, readCommand_groupText F (hs g hg name hn)]
    dsimp only
    rw [if_pos hcmd, ← h1]
    rfl

theorem listGroups_all (c : ClientId) (s : Server) (gs : List GroupId) :
    listGroups none none c s gs = .ok (gs.flatMap fun g => emit c (gnRegisterDevgroup s g)) := by
  induction gs with
  | nil => rfl
  | cons g gs ih => simp [listGroups, ih, Except.map]

/-- With groups that can be sent, they are replicated exactly when each can be told in its place. -/
theorem groupsReplicate_iff_told {s : Server} (hr : Registry s) (ht : GroupTable s) {k : Collector} (hk : Registry k.mem)
    (htk : GroupTable k.mem) (hno : k.mem.allgroups = [])
    (hdev : ∀ uid, k.mem.findDeviceByUid uid ≠ none ↔ s.findDeviceByUid uid ≠ none) (hs : GroupsSendable s) {args : List PArg}
    (hu : (lastArg .uid args : Option Str) = none) (hn : (lastArg .name args : Option Str) = none) (c : ClientId) :
    GroupsReplicate F args c s k ↔ ∀ g ∈ s.allgroups, Told s g := by
  have hlist : cmdListGroups args c s = .ok
      { srv := s
        out := (s.allgroups.flatMap fun g => emit c (gnRegisterDevgroup s g)) ++ [.write c (str "endlgrps" ++ [chLf])] } := by
    rw [cmdListGroups, hu, hn, listGroups_all]
    rfl
  have hnone : ∀ uid, k.mem.findDevgroupByUid uid = none := by
    intro uid
    by_contra hf
    obtain ⟨g, hg⟩ := Option.ne_none_iff_exists'.mp hf
    have := ((htk.found uid g).mp hg).1
    rw [hno] at this
    cases this
  have hempty : Heard s k.mem [] := ⟨hk, htk, hdev, fun uid => by simp [hnone], by simp, by simp, by simp⟩
  obtain ⟨k', hobey, hh⟩ := obey_groups F hempty ht hs (List.nil_append _).symm [str "endlgrps" ++ [chLf]]
  have hend : obey F .regg (fun args k => .ok (Collcmd.cmdRegisterGroup args k)) [str "endlgrps" ++ [chLf]] k' = .ok k' := by
    have hread : readCommand F (readLine (str "endlgrps" ++ [chLf])) = some (str "endlgrps", []) := by rfl
    have hcmd : Collcmd.findCommand (str "endlgrps") ≠ some .regg := by decide
    rw [obey, hread]
    dsimp only
    rw [if_neg hcmd]
    rfl
  -- the groups of the server and the collector's, one by one
  have hat : ∀ g ∈ s.allgroups, ∀ g', k'.mem.findDevgroupByUid (s.group g).uid = some g' →
      (SameGroup s k'.mem g g' ↔ Told s g) := by
    intro g hg g' hg'
    have hknown : ∀ u ∈ memberUids s g, s.findDeviceByUid u ≠ none := by
      intro u hu
      obtain ⟨w, hw, rfl⟩ := List.mem_map.mp hu
      rw [(hr.found _ w.dev).mpr ⟨ht.member g w hw, rfl⟩]
      exact Option.some_ne_none _
    have hmembers := members_told_iff hknown
    constructor
    · intro h
      obtain ⟨h1, h2⟩ := hmembers.mp fun u => by rw [← hh.members g hg g' hg', h.members]
      refine ⟨h1, h2, fun b hb => ?_⟩
      have hm : (s.group b).uid ∈ childUids s g := by
        rw [childUids_eq]
        exact List.mem_map_of_mem hb
      obtain ⟨hne, b', hb', he, hle⟩ := (hh.children g hg g' hg' _).mp ((h.children _).mpr hm)
      have hall : ∀ b ∈ kids s g, b ∈ s.allgroups := by
        intro b hb
        obtain ⟨w, hw, rfl⟩ := List.mem_map.mp hb
        exact ht.child g w hw
      rw [ht.uid_inj (hall b' hb') (hall b hb) he] at hle
      exact ⟨hne, hle⟩
    · intro h
      refine ⟨hh.name g hg g' hg', fun u => ?_, fun u => ?_⟩
      · rw [hh.members g hg g' hg', hmembers.mpr ⟨h.member, h.last⟩]
      · rw [hh.children g hg g' hg', childUids_eq, List.mem_map]
        constructor
        · rintro ⟨-, b, hb, he, -⟩
          exact ⟨b, hb, he⟩
        · rintro ⟨b, hb, rfl⟩
          exact ⟨(h.child b hb).1, b, hb, rfl, (h.child b hb).2⟩
  have hlines := linesTo_emits c (gnRegisterDevgroup s) s.allgroups (str "endlgrps" ++ [chLf])
  constructor
  · rintro ⟨r, k'', hr', hk'', h⟩ g hg
    rw [hlist, Except.ok.injEq] at hr'
    rw [← hr', hlines, hobey, hend, Except.ok.injEq] at hk''
    obtain ⟨g', hg'⟩ := Option.ne_none_iff_exists'.mp ((hh.known (s.group g).uid).mpr ⟨g, hg, rfl⟩)
    have hrel := h (s.group g).uid
    rw [← hk'', (ht.found _ g).mpr ⟨hg, rfl⟩, hg'] at hrel
    cases hrel with
    | some hsame => exact (hat g hg g' hg').mp hsame
  · intro h
    refine ⟨_, k', hlist, by rw [hlines, hobey, hend], fun uid => ?_⟩
    cases hf : s.findDevgroupByUid uid with
    | none =>
      have hf' : k'.mem.findDevgroupByUid uid = none := by
        by_contra hf'
        obtain ⟨g, hg, he⟩ := (hh.known uid).mp hf'
        rw [(ht.found uid g).mpr ⟨hg, he⟩] at hf
        cases hf
      rw [hf']
      exact .none
    | some g =>
      obtain ⟨hg, rfl⟩ := (ht.found uid g).mp hf
      obtain ⟨g', hg'⟩ := Option.ne_none_iff_exists'.mp ((hh.known (s.group g).uid).mpr ⟨g, hg, rfl⟩)
      rw [hg']
      exact .some ((hat g hg g' hg').mpr (h g hg))

/-- The groups are replicated when they can be sent and each can be told in its place; and where they can be sent, only then. -/
theorem groupsReplicate_iff {s : Server} (hr : Registry s) (ht : GroupTable s) {k : Collector} (hk : Registry k.mem)
    (htk : GroupTable k.mem) (hno : k.mem.allgroups = [])
    (hdev : ∀ uid, k.mem.findDeviceByUid uid ≠ none ↔ s.findDeviceByUid uid ≠ none) {args : List PArg}
    (hu : (lastArg .uid args : Option Str) = none) (hn : (lastArg .name args : Option Str) = none) (c : ClientId) :
    (GroupsSendable s ∧ (∀ g ∈ s.allgroups, Told s g) → GroupsReplicate F args c s k) ∧
      (GroupsSendable s → GroupsReplicate F args c s k → ∀ g ∈ s.allgroups, Told s g) :=
  ⟨fun h => (groupsReplicate_iff_told F hr ht hk htk hno hdev h.1 hu hn c).mpr h.2,
    fun hs => (groupsReplicate_iff_told F hr ht hk htk hno hdev hs hu hn c).mp⟩

/-- A server that executed some `regg` commands. -/
def registerGroups (cmds : List (List PArg)) : Server :=
  cmds.foldl (fun s args => (Gnhast.cmdRegisterGroup args 0 s).srv) {}

theorem tables_registerGroups (cmds : List (List PArg)) : Registry (registerGroups cmds) ∧ GroupTable (registerGroups cmds) := by
  unfold registerGroups
  generalize hs : ({} : Server) = s
  have h : Registry s ∧ GroupTable s := hs ▸ ⟨Registry.empty, GroupTable.empty⟩
  clear hs
  induction cmds generalizing s with
  | nil => exact h
  | cons args cmds ih =>
    exact ih _ ⟨h.1.onlyGroups (onlyGroups_cmdRegisterGroup args 0 s), h.2.cmdRegisterGroup h.1 args 0⟩

/-- A group that is made before the one it is in. -/
def childFirst : Server :=
  registerGroups [[⟨.uid, str "lamps"⟩, ⟨.name, str "Lamps"⟩], [⟨.uid, str "all"⟩, ⟨.name, str "All"⟩, ⟨.grouplist, str "lamps"⟩]]

theorem groupsReplicate_iff_childFirst : GroupsReplicate Doubles.exact [] 0 childFirst {} := by
  obtain ⟨hr, ht⟩ : Registry childFirst ∧ GroupTable childFirst := tables_registerGroups _
  refine (groupsReplicate_iff Doubles.exact hr ht Registry.empty GroupTable.empty rfl (fun uid => Iff.rfl) rfl rfl 0).1
    ⟨fun g hg name hn => ?_, fun g hg => ?_⟩
  · have hall : g ∈ [0, 1] := hg
    have hplain : ∀ n ∈ [str "Lamps", str "All"], Quotable n ∧ OneLine n := by
      intro n hn
      refine ⟨⟨n, ?_, ?_, Or.inl rfl⟩, ?_⟩ <;> revert n <;> decide
    rcases List.mem_cons.mp hall with rfl | hall
    · cases hn
      refine ⟨by decide, (hplain _ (by decide)).1, ?_, by decide, (hplain _ (by decide)).2⟩
      rintro u (hu | hu) <;> revert u <;> decide
    · obtain rfl := List.mem_singleton.mp hall
      cases hn
      refine ⟨by decide, (hplain _ (by decide)).1, ?_, by decide, (hplain _ (by decide)).2⟩
      rintro u (hu | hu) <;> revert u <;> decide
  · have hall : g ∈ [0, 1] := hg
    rcases List.mem_cons.mp hall with rfl | hall
    · exact ⟨by decide, fun u hu => (nomatch hu), by decide⟩
    · obtain rfl := List.mem_singleton.mp hall
      exact ⟨by decide, fun u hu => (nomatch hu), by decide⟩

/-- A group that is put into one made before it is no child at the collector. -/
theorem not_groupsReplicate_childLast : ¬ GroupsReplicate Doubles.exact [] 0
    (registerGroups [[⟨.uid, str "all"⟩, ⟨.name, str "All"⟩], [⟨.uid, str "lamps"⟩, ⟨.name, str "Lamps"⟩],
      [⟨.uid, str "all"⟩, ⟨.name, str "All"⟩, ⟨.grouplist, str "lamps"⟩]]) {} := by
  rintro ⟨r, k', hr, hk', h⟩
  cases hr
  cases hk'
  have hrel := h (str "all")
  cases hrel with
  | some hsame => exact absurd ((hsame.children (str "lamps")).mpr (by decide)) (by decide)

end Gnhast
