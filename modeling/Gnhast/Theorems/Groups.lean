import Gnhast.Lemmas.Groups

/-!
# Group updates

`cmd_register_group` adds what is missing and then walks over the lists to take out what is stale, going on from an entry that it
has just freed. It does what it is for exactly when nothing is stale. And it links a group below any other, so that the groups
stay free of cycles exactly when no line, and not the configuration, closes one.
-/

namespace Gnhast

open CStr Runs

variable (F : Doubles)

/-! ## The lists of a line -/

/-- After a line with a device list and a group list, the members and the children of its group are those on the lists, each
once, all other groups have theirs, and nothing was read after it was freed. -/
def Exact (uid devlist grouplist : Str) (s : Server) (r : Reply) : Prop :=
  ∃ g, r.srv.findDevgroupByUid uid = some g ∧
    (∀ d, d ∈ (r.srv.group g).members.map WrapDevice.dev ↔ d ∈ s.alldevs ∧ (s.dev d).uid ∈ strtok chComma devlist) ∧
    ((r.srv.group g).members.map WrapDevice.dev).Nodup ∧
    (∀ g', g' ∈ (r.srv.group g).children.map WrapGroup.group ↔
      g' ∈ r.srv.allgroups ∧ (r.srv.group g').uid ∈ strtok chComma grouplist) ∧
    ((r.srv.group g).children.map WrapGroup.group).Nodup ∧
    (∀ g', g' ≠ g → (r.srv.group g').members = (s.group g').members ∧ (r.srv.group g').children = (s.group g').children) ∧
    ∀ w, .freedRead w ∉ r.out

/-- The group of a line, if it is known, has only members and children that are on the lists, each once. -/
def NothingStale (uid devlist grouplist : Str) (s : Server) : Prop :=
  ∀ g, s.findDevgroupByUid uid = some g →
    ((∀ w ∈ (s.group g).members, (s.dev w.dev).uid ∈ strtok chComma devlist) ∧
      ((s.group g).members.map WrapDevice.dev).Nodup) ∧
    (∀ w ∈ (s.group g).children, (s.group w.group).uid ∈ strtok chComma grouplist) ∧
      ((s.group g).children.map WrapGroup.group).Nodup

/-- What is left of an accepted line with both lists: the state `s₁` in which the group is there, and the state `s₂` after the
passes over the children. -/
structure Relisted (s : Server) (r : Reply) (uid dl gl : Str) (g : GroupId) (s₁ s₂ : Server) : Prop where
  opened : Opened s uid g s₁
  table : GroupTable s₂
  registry : Registry s₂
  only : OnlyGroups s s₂
  before : ∀ g', (s₂.group g').members = (s.group g').members
  found : ∀ uid, r.srv.findDevgroupByUid uid = s₁.findDevgroupByUid uid
  allgroups : r.srv.allgroups = s₁.allgroups
  uids : ∀ g', (r.srv.group g').uid = (s₁.group g').uid
  members : ∀ g', (r.srv.group g').members = if g' = g then (s₂.syncMembers g dl).1 else (s.group g').members
  children : ∀ g', (r.srv.group g').children = if g' = g then (s₁.syncChildren g gl).1 else (s.group g').children
  out : r.out =
    ((s₁.syncChildren g gl).2.map fun w => .freedRead w.wrap) ++ (s₂.syncMembers g dl).2.map fun w => .freedRead w.wrap

theorem cmdRegisterGroup_relisted {s : Server} (ht : GroupTable s) (hr : Registry s) {args : List PArg} {uid dl gl : Str}
    (c : ClientId) (ha : Accepted s args uid) (hd : lastArg .devlist args = some dl)
    (hg : lastArg .grouplist args = some gl) : ∃ g s₁ s₂, Relisted s (cmdRegisterGroup args c s) uid dl gl g s₁ s₂ := by
  obtain ⟨g, s₁, ho, he⟩ := cmdRegisterGroup_accepted c ht ha
  rw [hd, hg] at he
  obtain ⟨h1, h2⟩ := setGroups_some g gl s₁
  obtain ⟨h3, h4⟩ := setDevs_some g dl (setGroups g (some gl) s₁).1
  have honly := ho.only.trans (onlyGroups_setGroups g (some gl) s₁)
  have hfield : ∀ {β : Type} (f : Group → β), (∀ gr, f { gr with subgroup := 0 } = f gr) →
      (∀ gr cs, f { gr with children := cs } = f gr) →
      ∀ g', f ((setGroups g (some gl) s₁).1.group g') = f (s₁.group g') := by
    intro β f hf hf' g'
    rw [Server.groupField f hf h1 g']
    by_cases hg' : g' = g <;> simp [Server.setChildren, hg', hf']
  have hch : ∀ g', ((setGroups g (some gl) s₁).1.group g').children =
      if g' = g then (s₁.syncChildren g gl).1 else (s₁.group g').children := by
    intro g'
    rw [Server.groupField Group.children (fun _ => rfl) h1 g']
    by_cases hg' : g' = g <;> simp [Server.setChildren, hg']
  have hmem : ∀ g', ((setGroups g (some gl) s₁).1.group g').members = (s.group g').members := fun g' =>
    (hfield Group.members (fun _ => rfl) (fun _ _ => rfl) g').trans (ho.members g')
  have hset : ∀ {β : Type} (f : Group → β), (∀ gr ms, f { gr with members := ms } = f gr) →
      ∀ st g', f (((setGroups g (some gl) s₁).1.setMembers g st).group g') = f ((setGroups g (some gl) s₁).1.group g') := by
    intro β f hf st g'
    by_cases hg' : g' = g <;> simp [Server.setMembers, hg', hf]
  refine ⟨g, s₁, (setGroups g (some gl) s₁).1, ho, ho.table.setGroups ho.mem _, hr.onlyGroups honly, honly, hmem, ?_, ?_, ?_, ?_,
    ?_, ?_⟩
  · intro uid'
    rw [he]
    change (setDevs g (some dl) (setGroups g (some gl) s₁).1).1.findDevgroupByUid uid' = _
    rw [h3]
    have := congrArg Server.devgroups h1
    exact congrFun this uid'
  · rw [he]
    change (setDevs g (some dl) (setGroups g (some gl) s₁).1).1.allgroups = _
    rw [h3]
    exact allgroups_setGroups g _ s₁
  · intro g'
    rw [he]
    change ((setDevs g (some dl) (setGroups g (some gl) s₁).1).1.group g').uid = _
    rw [h3, hset Group.uid (fun _ _ => rfl), hfield Group.uid (fun _ => rfl) (fun _ _ => rfl)]
  · intro g'
    rw [he]
    change ((setDevs g (some dl) (setGroups g (some gl) s₁).1).1.group g').members = _
    rw [h3]
    by_cases hg' : g' = g
    · simp [Server.setMembers, hg']
    · simp [Server.setMembers, hg', hmem]
  · intro g'
    rw [he]
    change ((setDevs g (some dl) (setGroups g (some gl) s₁).1).1.group g').children = _
    rw [h3, hset Group.children (fun _ _ => rfl), hch]
    split
    · rfl
    · exact ho.children g'
  · rw [he]
    change (setGroups g (some gl) s₁).2 ++ (setDevs g (some dl) (setGroups g (some gl) s₁).1).2 = _
    rw [h2, h4]

/-- The lists are exact after an accepted line exactly when nothing was stale. -/
theorem exact_iff_of_relisted {s s₁ s₂ : Server} {r : Reply} {uid dl gl : Str} {g : GroupId} (ht : GroupTable s)
    (h : Relisted s r uid dl gl g s₁ s₂) : Exact uid dl gl s r ↔ NothingStale uid dl gl s := by
  have ho := h.opened
  have hfind : r.srv.findDevgroupByUid uid = some g := by
    rw [h.found]
    exact (ho.table.found uid g).mpr ⟨ho.mem, ho.named⟩
  have hm := h.members g
  have hc := h.children g
  rw [if_pos rfl] at hm hc
  have hmiff := syncMembers_iff h.table h.registry g dl
  have hciff := syncChildren_iff ho.table g gl
  rw [h.before, h.only.dev] at hmiff
  rw [ho.children] at hciff
  have hclean : (∀ w, Out.freedRead w ∉ r.out) ↔ (s₁.syncChildren g gl).2 = [] ∧ (s₂.syncMembers g dl).2 = [] := by
    rw [h.out]
    constructor
    · intro hw
      constructor
      · refine List.eq_nil_iff_forall_not_mem.mpr fun w hw' => hw w.wrap (List.mem_append_left _ (List.mem_map.mpr ⟨w, hw', rfl⟩))
      · refine List.eq_nil_iff_forall_not_mem.mpr fun w hw' => hw w.wrap (List.mem_append_right _ (List.mem_map.mpr ⟨w, hw', rfl⟩))
    · rintro ⟨h1, h2⟩ w hw
      simp [h1, h2] at hw
  have huids : ∀ w ∈ (s.group g).children, (s₁.group w.group).uid = (s.group w.group).uid :=
    fun w hw => ho.uids w.group (ht.child g w hw)
  constructor
  · rintro ⟨g', hg', -, hmn, -, hcn, -, hout⟩ g'' hg''
    rw [hfind] at hg'
    cases hg'
    cases ho.known g'' hg''
    rw [hm] at hmn
    rw [hc] at hcn
    obtain ⟨hc2, hm2⟩ := hclean.mp hout
    obtain ⟨h1, h2⟩ := hciff.mp ⟨hcn, hc2⟩
    exact ⟨hmiff.mp ⟨hmn, hm2⟩, fun w hw => huids w hw ▸ h1 w hw, h2⟩
  · intro hst
    -- the lists of a new group are empty
    have hst' : ((∀ w ∈ (s.group g).members, (s.dev w.dev).uid ∈ strtok chComma dl) ∧
        ((s.group g).members.map WrapDevice.dev).Nodup) ∧
        (∀ w ∈ (s.group g).children, (s.group w.group).uid ∈ strtok chComma gl) ∧
          ((s.group g).children.map WrapGroup.group).Nodup := by
      cases hf : s.findDevgroupByUid uid with
      | some g' =>
        cases ho.known g' hf
        exact hst g hf
      | none =>
        obtain ⟨h1, h2⟩ := ht.outside g (ho.new hf)
        simp [h1, h2]
    obtain ⟨hmn, hm2⟩ := hmiff.mpr hst'.1
    obtain ⟨hcn, hc2⟩ := hciff.mpr ⟨fun w hw => (huids w hw).symm ▸ hst'.2.1 w hw, hst'.2.2⟩
    refine ⟨g, hfind, fun d => ?_, hm ▸ hmn, fun g' => ?_, hc ▸ hcn, fun g' hg' => ?_, hclean.mpr ⟨hc2, hm2⟩⟩
    · rw [hm, mem_syncMembers h.table h.registry, h.only.alldevs, h.only.dev]
    · rw [hc, mem_syncChildren ho.table, h.allgroups, h.uids]
    · have h1 := h.members g'
      have h2 := h.children g'
      rw [if_neg hg'] at h1 h2
      exact ⟨h1, h2⟩

/-! ## Reachable states -/

/-- The sections of a configuration that are children of a section. -/
def Config.kids (cfg : Config) (title : Str) : List Str :=
  (cfg.devgroup.filter fun conf => conf.title = title).flatMap fun conf =>
    conf.devgroups.filter fun t => t ∈ cfg.devgroup.map DevgroupConf.title

/-- The groups that the server starts with are linked as the sections of the configuration are. -/
theorem startup_acyclic_iff {cfg : Config} {s : Server} (h : startup F cfg = .ok s) :
    Graph.Acyclic (kids s) ↔ Graph.Acyclic cfg.kids := by
  obtain ⟨hr, ht, hk, hfresh⟩ := initDevtable_table F cfg
  obtain ⟨s₁, hs₁, rfl⟩ := Except.map_eq_ok.mp h
  obtain ⟨ht₁, hk₁, hf₁⟩ := parseDevgroups1_spec ht hr hk cfg.devgroup_nodup (fun _ _ => hfresh _) hs₁
  obtain ⟨-, hg₂, he₂⟩ := @parseDevgroups2_spec cfg.devgroup s₁ ht₁
  have hedge : ∀ a b, Graph.Edge (kids (parseDevgroups2 cfg.devgroup s₁)) a b ↔
      ∃ conf ∈ cfg.devgroup, s₁.findDevgroupByUid conf.title = some a ∧ ∃ t ∈ conf.devgroups, s₁.findDevgroupByUid t = some b := by
    intro a b
    rw [he₂, Graph.Edge, hk₁]
    simp
  have hkids : ∀ t t', Graph.Edge cfg.kids t t' ↔
      ∃ conf ∈ cfg.devgroup, conf.title = t ∧ t' ∈ conf.devgroups ∧ t' ∈ cfg.devgroup.map DevgroupConf.title := by
    intro t t'
    simp [Graph.Edge, Config.kids, List.mem_flatMap, List.mem_filter, and_assoc]
  have htitle : ∀ t ∈ cfg.devgroup.map DevgroupConf.title, ∃ g, s₁.findDevgroupByUid t = some g := by
    intro t ht
    exact Option.ne_none_iff_exists'.mp ((hf₁ t).mpr (Or.inr ht))
  refine Graph.acyclic_iff_of_related (R := fun g t => s₁.findDevgroupByUid t = some g) ?_ ?_ ?_ ?_
  · intro g t t' h1 h2
    rw [← ((ht₁.found t g).mp h1).2, ((ht₁.found t' g).mp h2).2]
  · intro g g' t h1 h2
    exact Option.some.inj (h1.symm.trans h2)
  · intro a b hab
    obtain ⟨conf, hconf, ha, t, ht, hb⟩ := (hedge a b).mp hab
    have htm : t ∈ cfg.devgroup.map DevgroupConf.title := by
      rcases (hf₁ t).mp (by simp [hb]) with hf | hf
      · exact absurd (hfresh t) hf
      · exact hf
    exact ⟨conf.title, t, ha, hb, (hkids _ _).mpr ⟨conf, hconf, rfl, ht, htm⟩⟩
  · intro t t' htt
    obtain ⟨conf, hconf, rfl, ht', htm⟩ := (hkids t t').mp htt
    obtain ⟨a, ha⟩ := htitle conf.title (List.mem_map_of_mem hconf)
    obtain ⟨b, hb⟩ := htitle t' htm
    exact ⟨a, b, ha, hb, (hedge a b).mpr ⟨conf, hconf, ha, t', ht', hb⟩⟩

/-- Every state that is reached has a registry and a table of groups. -/
theorem tables_reachable {cfg : Config} {s₀ s : Server} {es : List Event} (h : startup F cfg = .ok s₀)
    (hs : exec (step F) s₀ es = some s) : Registry s ∧ GroupTable s :=
  exec_induct (I := fun s => Registry s ∧ GroupTable s)
    (fun _ _ _ hI hst => ⟨registry_step F hI.1 hst, groupTable_step F hI.2 hI.1 hst⟩)
    ⟨(startup_registry F h).1, startup_table F h⟩ hs

/-- In every state that is reached, an accepted line with both lists leaves exactly what is on them, and reads nothing that was
freed, exactly when all members and children of its group are on the lists and none is there twice. -/
theorem exact_iff_nothingStale {cfg : Config} {s₀ s : Server} {es : List Event} (h : startup F cfg = .ok s₀)
    (hs : exec (step F) s₀ es = some s) {args : List PArg} {uid dl gl : Str} (ha : Accepted s args uid)
    (hd : lastArg .devlist args = some dl) (hg : lastArg .grouplist args = some gl) (c : ClientId) :
    Exact uid dl gl s (cmdRegisterGroup args c s) ↔ NothingStale uid dl gl s := by
  obtain ⟨hr, ht⟩ := tables_reachable F h hs
  obtain ⟨g, s₁, s₂, hrel⟩ := cmdRegisterGroup_relisted ht hr c ha hd hg
  exact exact_iff_of_relisted ht hrel

theorem exact_iff_new_group :
    Exact (str "attic") (str "lamp,fan") (str "house") {} (cmdRegisterGroup
        [⟨.uid, str "attic"⟩, ⟨.name, str "Attic"⟩, ⟨.devlist, str "lamp,fan"⟩, ⟨.grouplist, str "house"⟩] 0 {}) ↔
      NothingStale (str "attic") (str "lamp,fan") (str "house") {} :=
  @exact_iff_nothingStale Doubles.exact {} {} {} [] rfl rfl
    [⟨.uid, str "attic"⟩, ⟨.name, str "Attic"⟩, ⟨.devlist, str "lamp,fan"⟩, ⟨.grouplist, str "house"⟩]
    (str "attic") (str "lamp,fan") (str "house") ⟨rfl, Or.inr (by decide)⟩ rfl rfl 0

/-- A group with one member, which a second line leaves out: the entry is read after it was freed. -/
theorem not_exact_stale : startup Doubles.exact {} = .ok {} ∧ ∃ s,
    exec (step Doubles.exact) {} [.accept 0 10 0 0 1, .line 0 (str "reg uid:lamp name:Lamp devt:1 proto:1 subt:1") {},
      .line 0 (str "regg uid:attic name:Attic dlist:lamp") {}] = some s ∧
    ¬ Exact (str "attic") (str "fan") (str "house") s
      (cmdRegisterGroup [⟨.uid, str "attic"⟩, ⟨.devlist, str "fan"⟩, ⟨.grouplist, str "house"⟩] 0 s) := by
  have hex : ((exec (step Doubles.exact) {} [.accept 0 10 0 0 1,
      .line 0 (str "reg uid:lamp name:Lamp devt:1 proto:1 subt:1") {},
      .line 0 (str "regg uid:attic name:Attic dlist:lamp") {}]).map fun s =>
        (cmdRegisterGroup [⟨.uid, str "attic"⟩, ⟨.devlist, str "fan"⟩, ⟨.grouplist, str "house"⟩] 0 s).out) =
          some [.freedRead 0] := by rfl
  obtain ⟨s, hs, he⟩ := Option.map_eq_some_iff.mp hex
  refine ⟨rfl, s, hs, ?_⟩
  rintro ⟨g, -, -, -, -, -, -, hout⟩
  exact hout 0 (by rw [he]; simp)

/-! ## Cycles -/

/-- The groups have no cycle, and printing a group comes to an end. -/
def PrintEnds (s : Server) : Prop :=
  Graph.Acyclic (kids s) ∧ ∀ g, ∃ depth texts, printGroup s depth g = some texts

/-- An accepted line links no group below its group that is the group itself, or a group from which it is reached. -/
def LinksNoCycle (s : Server) (e : Event) : Prop :=
  ∀ c text env args uid, e = .line c text env → lineCmd F text = some (.regg, args) → Accepted s args uid →
    ∀ gl, lastArg .grouplist args = some gl → ∀ p ∈ strtok chComma gl, p ≠ uid ∧
      ∀ g g', s.findDevgroupByUid uid = some g → s.findDevgroupByUid p = some g' →
        ¬ Relation.ReflTransGen (Graph.Edge (kids s)) g' g

/-- `print_group` ends where all walks do. -/
theorem printGroup_isSome_iff (s : Server) (depth : Nat) (g : GroupId) :
    (∃ texts, printGroup s depth g = some texts) ↔ Graph.Halts (kids s) depth g := by
  induction depth generalizing g with
  | zero => simp [printGroup, Graph.Halts]
  | succ n ih =>
    have hmap : ∀ ws : List WrapGroup, (∃ ts, ws.mapM (fun w => printGroup s n w.group) = some ts) ↔
        ∀ w ∈ ws, Graph.Halts (kids s) n w.group := by
      intro ws
      induction ws with
      | nil => simp
      | cons w ws ihw =>
        rw [List.forall_mem_cons, ← ihw, ← ih]
        simp only [List.mapM_cons, Option.bind_eq_bind, Option.pure_def]
        constructor
        · rintro ⟨ts, h⟩
          obtain ⟨t, h1, h⟩ := Option.bind_eq_some_iff.mp h
          obtain ⟨ts', h2, -⟩ := Option.bind_eq_some_iff.mp h
          exact ⟨⟨t, h1⟩, ts', h2⟩
        · rintro ⟨⟨t, h1⟩, ts, h2⟩
          exact ⟨t :: ts, by simp [h1, h2]⟩
    have hsplit : (∃ texts, printGroup s (n + 1) g = some texts) ↔
        ∃ ts, (s.group g).children.mapM (fun w => printGroup s n w.group) = some ts := by
      rw [printGroup]
      cases (s.group g).children.mapM (fun w => printGroup s n w.group) <;> simp
    rw [hsplit, hmap]
    simp [Graph.Halts, kids]

theorem printEnds_iff {s : Server} (ht : GroupTable s) : PrintEnds s ↔ Graph.Acyclic (kids s) := by
  refine ⟨fun h => h.1, fun h => ⟨h, fun g => ?_⟩⟩
  have hleaf : ∀ g, g ∉ s.allgroups → kids s g = [] := by
    intro g hg
    rw [kids, (ht.outside g hg).2]
    rfl
  obtain ⟨n, hn⟩ := Graph.halts_of_acyclic h s.allgroups hleaf g
  obtain ⟨texts, htexts⟩ := (printGroup_isSome_iff s n g).mpr hn
  exact ⟨n, texts, htexts⟩

/-- The graph after an accepted line: with a group list, the group has the groups of the list below it. -/
theorem edge_cmdRegisterGroup {s : Server} (ht : GroupTable s) {args : List PArg} {uid : Str} (c : ClientId)
    (ha : Accepted s args uid) : ∃ g s₁, Opened s uid g s₁ ∧
      ∀ a b, Graph.Edge (kids (cmdRegisterGroup args c s).srv) a b ↔
        Graph.Edge (match (lastArg .grouplist args : Option Str) with
          | some gl => Function.update (kids s) g (s₁.knownGroups gl)
          | none => kids s) a b := by
  obtain ⟨g, s₁, ho, he⟩ := cmdRegisterGroup_accepted c ht ha
  refine ⟨g, s₁, ho, fun a b => ?_⟩
  have hdevs : ∀ (l : Option Str) (s : Server), kids (setDevs g l s).1 = kids s := by
    intro l s
    cases l with
    | none => rfl
    | some l =>
      rw [(setDevs_some g l s).1]
      funext g'
      by_cases hg : g' = g <;> simp [kids, Server.setMembers, hg]
  have hk₁ : kids s₁ = kids s := by
    funext g'
    rw [kids, kids, ho.children]
  rw [he]
  change Graph.Edge (kids (setDevs g (lastArg .devlist args) (setGroups g (lastArg .grouplist args) s₁).1).1) a b ↔ _
  rw [hdevs]
  cases hgl : (lastArg .grouplist args : Option Str) with
  | none =>
    change Graph.Edge (kids s₁) a b ↔ _
    rw [hk₁]
  | some gl =>
    rw [kids_flat (setGroups_some g gl s₁).1]
    simp only [Graph.Edge]
    by_cases hag : a = g
    · subst hag
      rw [Function.update_self, ho.table.knownGroups_mem, ← mem_syncChildren ho.table a gl]
      simp [kids, Server.setChildren]
    · rw [Function.update_of_ne hag, ← hk₁]
      simp [kids, Server.setChildren, hag]

/-- Only an accepted line changes the links between groups. -/
theorem kids_step {s s' : Server} {e : Event} (hs : step F s e = some s')
    (hno : ∀ c text env args uid, e = .line c text env → lineCmd F text = some (.regg, args) → ¬ Accepted s args uid) :
    kids s' = kids s := by
  obtain ⟨s₁, s₂, h1, ha, h2⟩ := (does_step F hs).2
  have hsame : s₂.group = s₁.group := by
    obtain hsame | ⟨c, text, env, args, he, hl, rfl⟩ := groups_act F ha
    · exact hsame.group
    · rw [cmdRegisterGroup_refused c (fun uid hacc => hno c text env args uid he hl ?_)]
      refine ⟨hacc.arg, ?_⟩
      have := hacc.known
      rwa [Server.findDevgroupByUid, h1.devgroups] at this
  funext g
  rw [kids, kids, h2.group, hsame, h1.group]

/-- The condition on the names of a list, as a condition on the groups it makes children. -/
theorem linksNoCycle_iff {s s₁ : Server} (ht : GroupTable s) {uid : Str} {g : GroupId} (ho : Opened s uid g s₁) (gl : Str) :
    (∀ x ∈ s₁.knownGroups gl, ¬ Relation.ReflTransGen (Graph.Edge (kids s)) x g) ↔
      ∀ p ∈ strtok chComma gl, p ≠ uid ∧ ∀ g₀ g', s.findDevgroupByUid uid = some g₀ → s.findDevgroupByUid p = some g' →
        ¬ Relation.ReflTransGen (Graph.Edge (kids s)) g' g₀ := by
  constructor
  · intro h p hp
    constructor
    · rintro rfl
      exact h g (ho.table.knownGroups_mem.mpr ⟨ho.mem, ho.named.symm ▸ hp⟩) Relation.ReflTransGen.refl
    · intro g₀ g' hg₀ hg'
      cases ho.known g₀ hg₀
      obtain ⟨hm, hu⟩ := (ht.found p g').mp hg'
      refine h g' (ho.table.knownGroups_mem.mpr ⟨(ho.allgroups g').mpr (Or.inl hm), ?_⟩)
      rw [ho.uids g' hm, hu]
      exact hp
  · intro h x hx hreach
    obtain ⟨hm, hu⟩ := ho.table.knownGroups_mem.mp hx
    rcases (ho.allgroups x).mp hm with hm | rfl
    · rw [ho.uids x hm] at hu
      cases hf : s.findDevgroupByUid uid with
      | some g₀ =>
        cases ho.known g₀ hf
        exact (h _ hu).2 g x hf ((ht.found _ x).mpr ⟨hm, rfl⟩) hreach
      | none =>
        -- a new group is a child of none
        have hg := ho.new hf
        cases hreach with
        | refl => exact hg hm
        | tail _ hedge =>
          obtain ⟨w, hw, he⟩ := List.mem_map.mp hedge
          exact hg (he ▸ ht.child _ w hw)
    · exact (h _ hu).1 ho.named

/-- One step keeps the groups free of cycles exactly under the condition. -/
theorem printEnds_step_iff {s s' : Server} {e : Event} (hr : Registry s) (ht : GroupTable s) (hp : PrintEnds s)
    (hs : step F s e = some s') : PrintEnds s' ↔ LinksNoCycle F s e := by
  rw [printEnds_iff (groupTable_step F ht hr hs)]
  by_cases hacc : ∃ c text env args uid, e = .line c text env ∧ lineCmd F text = some (.regg, args) ∧ Accepted s args uid
  · obtain ⟨c, text, env, args, uid, rfl, hl, ha⟩ := hacc
    obtain ⟨-, r, hrun, rfl⟩ := step_line F hl hs
    cases hrun
    have htm : GroupTable (s.mark c env) := ht.quiet (quiet_mark s c env)
    have ham : Accepted (s.mark c env) args uid := ⟨ha.arg, ha.known⟩
    obtain ⟨g, s₁, ho, hedge⟩ := edge_cmdRegisterGroup htm c ham
    have ho' : Opened (s.mark c env) uid g s₁ := ho
    rw [Graph.acyclic_congr hedge]
    have honly : LinksNoCycle F s (.line c text env) ↔ ∀ gl, lastArg .grouplist args = some gl → ∀ p ∈ strtok chComma gl,
        p ≠ uid ∧ ∀ g g', s.findDevgroupByUid uid = some g → s.findDevgroupByUid p = some g' →
          ¬ Relation.ReflTransGen (Graph.Edge (kids s)) g' g := by
      constructor
      · exact fun h => h c text env args uid rfl hl ha
      · intro h c' text' env' args' uid' he hl' ha'
        cases he
        rw [hl] at hl'
        cases hl'
        have hu := ha'.arg
        rw [ha.arg] at hu
        cases hu
        exact h
    rw [honly]
    cases hgl : (lastArg .grouplist args : Option Str) with
    | none =>
      refine ⟨fun _ gl h => ?_, fun _ => hp.1⟩
      cases h
    | some gl =>
      change Graph.Acyclic (Function.update (kids s) g (s₁.knownGroups gl)) ↔ _
      rw [Graph.acyclic_update_iff hp.1]
      refine (linksNoCycle_iff htm ho' gl).trans ⟨fun h gl' hgl' => ?_, fun h => h gl rfl⟩
      cases hgl'
      exact h
  · rw [kids_step F hs (fun c text env args uid h1 h2 h3 => hacc ⟨c, text, env, args, uid, h1, h2, h3⟩)]
    refine ⟨fun _ c text env args uid h1 h2 h3 => ?_, fun _ => hp.1⟩
    exact absurd ⟨c, text, env, args, uid, h1, h2, h3⟩ hacc

/-- In every run the groups are free of cycles, and printing one comes to an end, in every state exactly when the sections of the
configuration have no cycle and no accepted line closes one. -/
theorem printEnds_iff_linksNoCycle {cfg : Config} {s₀ : Server} (h : startup F cfg = .ok s₀) (es : List Event) :
    Throughout (step F) PrintEnds s₀ es ↔ Graph.Acyclic cfg.kids ∧ Along (step F) (LinksNoCycle F) s₀ es := by
  have ht := startup_table F h
  have hcfg := startup_acyclic_iff F h
  have hr := (startup_registry F h).1
  rw [← hcfg, ← printEnds_iff ht]
  have hrun : PrintEnds s₀ → (Throughout (step F) PrintEnds s₀ es ↔ Along (step F) (LinksNoCycle F) s₀ es) := fun hp =>
    throughout_iff_along (I := fun s => Registry s ∧ GroupTable s)
    (fun _ _ _ hI hs => ⟨registry_step F hI.1 hs, groupTable_step F hI.2 hI.1 hs⟩)
    (fun _ _ _ hI hp hs => printEnds_step_iff F hI.1 hI.2 hp hs) ⟨hr, ht⟩ hp es
  constructor
  · intro hall
    have hp : PrintEnds s₀ := hall.first
    exact ⟨hp, (hrun hp).mp hall⟩
  · rintro ⟨hp, halong⟩
    exact (hrun hp).mpr halong

theorem printEnds_iff_one_group :
    Throughout (step Doubles.exact) PrintEnds {} [.accept 0 10 0 0 1, .line 0 (str "regg uid:attic name:Attic") {}] ↔
      Graph.Acyclic (Config.kids {}) ∧ Along (step Doubles.exact) (LinksNoCycle Doubles.exact) {}
        [.accept 0 10 0 0 1, .line 0 (str "regg uid:attic name:Attic") {}] :=
  @printEnds_iff_linksNoCycle Doubles.exact {} {} rfl _

/-- A group that is put below itself. -/
theorem not_printEnds_self : startup Doubles.exact {} = .ok {} ∧
    ¬ Throughout (step Doubles.exact) PrintEnds {}
        [.accept 0 10 0 0 1, .line 0 (str "regg uid:attic name:Attic glist:attic") {}] := by
  refine ⟨rfl, fun h => ?_⟩
  have hex : ((exec (step Doubles.exact) {} [.accept 0 10 0 0 1,
      .line 0 (str "regg uid:attic name:Attic glist:attic") {}]).map fun s => kids s 0) = some [0] := by rfl
  obtain ⟨s, hs, he⟩ := Option.map_eq_some_iff.mp hex
  refine (h.last hs).1 0 (Relation.TransGen.single ?_)
  rw [Graph.Edge, he]
  exact List.mem_singleton_self 0

end Gnhast
