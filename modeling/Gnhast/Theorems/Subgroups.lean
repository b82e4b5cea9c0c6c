import Gnhast.Lib.Refcount
import Gnhast.Theorems.Groups

/-!
# The counters of the groups

Each group counts the groups it is a child of, once for every link. The counter is kept by the two functions that add and remove one
link; whoever calls them, and whether a link is there already or not, the counter moves with the number of links.
-/

namespace Gnhast

open CStr Runs

variable (F : Doubles)

/-- The number of child links that point to a group, from all groups. -/
def childLinks (s : Server) (g : GroupId) : Nat := Refcount.total s.allgroups (kids s) g

/-- The counters are the numbers of links, and the walk over all groups starts at those that are nobody's child. -/
structure SubgroupsCounted (s : Server) : Prop where
  counted : ∀ g, (s.group g).subgroup = childLinks s g
  nonneg : ∀ g, 0 ≤ (s.group g).subgroup
  heads : ∀ g, g ∈ headGroups s ↔ g ∈ s.allgroups ∧ ∀ g' ∈ s.allgroups, g ∉ kids s g'
  printed : ∀ depth texts, printGroupTable s depth = some texts → texts.map Prod.fst = (headGroups s).map fun g => (s.group g).uid

/-- Every counter is the number of links to its group. -/
def Balanced (s : Server) : Prop := ∀ g, (s.group g).subgroup = childLinks s g

/-- Counters and numbers of links moved together, between the same groups. -/
structure Steady (s s' : Server) : Prop where
  allgroups : s'.allgroups = s.allgroups
  drift : ∀ g, (s'.group g).subgroup - childLinks s' g = (s.group g).subgroup - childLinks s g

namespace Steady

theorem refl (s : Server) : Steady s s := ⟨rfl, fun _ => rfl⟩

theorem trans {s s' s'' : Server} (h : Steady s s') (h' : Steady s' s'') : Steady s s'' :=
  ⟨h'.allgroups.trans h.allgroups, fun g => (h'.drift g).trans (h.drift g)⟩

theorem balanced {s s' : Server} (h : Steady s s') (hb : Balanced s) : Balanced s' := by
  intro g
  have hd := h.drift g
  rw [hb g] at hd
  omega

/-- Changes that concern neither links nor counters. -/
theorem of_same {s s' : Server} (ha : s'.allgroups = s.allgroups) (hc : ∀ g, (s'.group g).children = (s.group g).children)
    (hs : ∀ g, (s'.group g).subgroup = (s.group g).subgroup) : Steady s s' := by
  have hk : kids s' = kids s := funext fun g => by rw [kids, kids, hc]
  refine ⟨ha, fun g => ?_⟩
  rw [hs, childLinks, childLinks, ha, hk]

end Steady

/-! ## The two helpers -/

theorem kids_addGroupGroup (s : Server) (g' g : GroupId) :
    kids (s.addGroupGroup g' g) = Function.update (kids s) g (kids s g ++ [g']) := by
  funext x
  rw [(group_addGroupGroup s g' g x).2.2]
  by_cases he : x = g
  · subst he
    simp
  · simp [he]

theorem subgroup_addGroupGroup (s : Server) (g' g x : GroupId) :
    ((s.addGroupGroup g' g).group x).subgroup = (s.group x).subgroup + if x = g' then 1 else 0 := by
  unfold Server.addGroupGroup
  rw [Server.modGroup_group, Server.modGroup_group, Server.modGroup_group]
  by_cases h1 : x = g' <;> by_cases h2 : g' = g <;> by_cases h3 : x = g <;> simp_all

/-- `add_group_group` adds one link and counts it. -/
theorem steady_addGroupGroup {s : Server} (hn : s.allgroups.Nodup) {g : GroupId} (hg : g ∈ s.allgroups) (g' : GroupId) :
    Steady s (s.addGroupGroup g' g) := by
  refine ⟨rfl, fun x => ?_⟩
  have ht := Refcount.total_update hn hg (kids s) (kids s g ++ [g']) x
  rw [subgroup_addGroupGroup, childLinks, childLinks, kids_addGroupGroup, show (s.addGroupGroup g' g).allgroups = s.allgroups from rfl]
  rw [List.count_append, List.count_singleton] at ht
  by_cases he : x = g'
  · subst he
    simp only [BEq.rfl, if_true] at ht ⊢
    omega
  · have hb : (g' == x) = false := beq_false_of_ne (Ne.symm he)
    simp only [he, hb, if_false, Bool.false_eq_true] at ht ⊢
    omega

theorem kids_removeGroupGroup (s : Server) (g' g : GroupId) :
    kids (s.removeGroupGroup g' g) = Function.update (kids s) g ((kids s g).erase g') := by
  have hflat := (s.flat_removeGroupGroup g' g).trans (s.flat_setChildren g _).symm
  rw [kids_flat hflat]
  funext x
  by_cases he : x = g
  · subst he
    simp only [kids, Server.setChildren, Function.update_self]
    have hp : (fun a => a == g') ∘ WrapGroup.group = fun w : WrapGroup => decide (w.group = g') := by
      funext w
      simp [beq_eq_decide]
    rw [List.erase_eq_eraseP', List.eraseP_map, hp]
  · simp [kids, Server.setChildren, he]

theorem subgroup_removeGroupGroup (s : Server) (g' g x : GroupId) :
    ((s.removeGroupGroup g' g).group x).subgroup = (s.group x).subgroup - if x = g' ∧ g' ∈ kids s g then 1 else 0 := by
  have hany : (s.group g).children.any (fun w => w.group = g') = true ↔ g' ∈ kids s g := by
    simp [kids, List.any_eq_true]
  unfold Server.removeGroupGroup
  split
  · rename_i h
    rw [Server.modGroup_group, Server.modGroup_group, Server.modGroup_group]
    have hm := hany.mp h
    by_cases h1 : x = g' <;> by_cases h2 : g = g' <;> by_cases h3 : x = g <;> simp_all
  · rename_i h
    rw [if_neg fun hx => h (hany.mpr hx.2), sub_zero]

/-- `remove_group_group` removes one link and takes it off the counter, or finds none. -/
theorem steady_removeGroupGroup {s : Server} (hn : s.allgroups.Nodup) {g : GroupId} (hg : g ∈ s.allgroups) (g' : GroupId) :
    Steady s (s.removeGroupGroup g' g) := by
  have ha : (s.removeGroupGroup g' g).allgroups = s.allgroups := by
    unfold Server.removeGroupGroup
    split <;> rfl
  refine ⟨ha, fun x => ?_⟩
  have ht := Refcount.total_update hn hg (kids s) ((kids s g).erase g') x
  rw [subgroup_removeGroupGroup, childLinks, childLinks, ha, kids_removeGroupGroup]
  by_cases he : x = g'
  · subst he
    rw [List.count_erase_self] at ht
    by_cases hm : x ∈ kids s g
    · have hpos := List.count_pos_iff.mpr hm
      simp only [hm, and_self, if_true]
      omega
    · rw [List.count_eq_zero_of_not_mem hm] at ht
      simp only [hm, and_false, if_false]
      omega
  · rw [List.count_erase_of_ne he] at ht
    simp only [he, false_and, if_false]
    omega

/-! ## The commands -/

theorem steady_addGroups {s : Server} (hn : s.allgroups.Nodup) {g : GroupId} (hg : g ∈ s.allgroups) (ps : List Str) :
    Steady s (addGroups g ps s) := by
  induction ps generalizing s with
  | nil => exact Steady.refl s
  | cons p ps ih =>
    unfold addGroups
    split
    · exact ih hn hg
    · rename_i g' _
      have hs : Steady s (if s.groupInGroup g' g then s else s.addGroupGroup g' g) := by
        split
        · exact Steady.refl s
        · exact steady_addGroupGroup hn hg g'
      exact hs.trans (ih (hs.allgroups ▸ hn) (hs.allgroups ▸ hg))

theorem steady_pruneGroups {s : Server} (hn : s.allgroups.Nodup) {g : GroupId} (hg : g ∈ s.allgroups) (toks : List Str)
    (ws : List WrapGroup) : Steady s (pruneGroups toks g ws s).1 := by
  induction ws generalizing s with
  | nil => exact Steady.refl s
  | cons w ws ih =>
    unfold pruneGroups
    split
    · exact ih hn hg
    · have hs := steady_removeGroupGroup hn hg w.group
      exact hs.trans (ih (hs.allgroups ▸ hn) (hs.allgroups ▸ hg))

theorem steady_setGroups {s : Server} (hn : s.allgroups.Nodup) {g : GroupId} (hg : g ∈ s.allgroups) (l : Option Str) :
    Steady s (setGroups g l s).1 := by
  unfold setGroups
  split
  · exact Steady.refl s
  · rename_i l
    have hs := steady_addGroups hn hg (strtok chComma l)
    exact hs.trans (steady_pruneGroups (hs.allgroups ▸ hn) (hs.allgroups ▸ hg) _ _)

theorem steady_setDevs (g : GroupId) (l : Option Str) (s : Server) : Steady s (setDevs g l s).1 := by
  cases l with
  | none => exact Steady.refl s
  | some l =>
    rw [(setDevs_some g l s).1]
    refine Steady.of_same rfl (fun x => ?_) (fun x => ?_)
    · by_cases he : x = g <;> simp [Server.setMembers, he]
    · by_cases he : x = g <;> simp [Server.setMembers, he]

theorem steady_setName (s : Server) (g : GroupId) (nm : Str) : Steady s (s.modGroup g fun gr => { gr with name := some nm }) :=
  .of_same rfl (groupField_setName Group.children (fun _ _ => rfl) s g nm) (groupField_setName Group.subgroup (fun _ _ => rfl) s g nm)

/-- `cmd_register_group` behind the search for its group. -/
theorem steady_updateGroup {s : Server} (hn : s.allgroups.Nodup) {g : GroupId} (hg : g ∈ s.allgroups) (args : List PArg) :
    Steady s (updateGroup g args s).srv := by
  have hlists : ∀ {s'}, Steady s s' →
      Steady s (setDevs g (lastArg .devlist args) (setGroups g (lastArg .grouplist args) s').1).1 := by
    intro s' hname
    have hgroups := steady_setGroups (hname.allgroups ▸ hn) (hname.allgroups ▸ hg) (lastArg .grouplist args)
    exact (hname.trans hgroups).trans (steady_setDevs g _ _)
  unfold updateGroup
  dsimp only
  split
  · exact hlists (steady_setName s g _)
  · exact hlists (Steady.refl s)

/-- A new group is nobody's child, and counts none. -/
theorem balanced_newDevgroup {s : Server} (ht : GroupTable s) (hb : Balanced s) (uid : Str) : Balanced (s.newDevgroup uid).1 := by
  have hgroup : ∀ g, (s.newDevgroup uid).1.group g = if g = s.nextGroup then { uid := uid } else s.group g := by
    intro g
    by_cases he : g = s.nextGroup <;> simp [Server.newDevgroup, he]
  have hout := ht.outside s.nextGroup ht.notMem
  have hk : kids (s.newDevgroup uid).1 = kids s := by
    funext g
    rw [kids, kids, hgroup]
    split
    · rename_i he
      rw [he, hout.2]
    · rfl
  have hlinks : ∀ g, childLinks (s.newDevgroup uid).1 g = childLinks s g := by
    intro g
    rw [childLinks, hk]
    exact Refcount.total_concat_nil s.allgroups (by rw [kids, hout.2]; rfl) g
  intro g
  rw [hlinks, hgroup]
  split
  · rename_i he
    have hzero : childLinks s g = 0 := by
      refine Refcount.total_eq_zero_iff.mpr fun g' hg' hg => ?_
      obtain ⟨w, hw, rfl⟩ := List.mem_map.mp hg
      exact ht.notMem (he ▸ ht.child g' w hw)
    rw [hzero]
    rfl
  · exact hb g

theorem balanced_cmdRegisterGroup {s : Server} (ht : GroupTable s) (hb : Balanced s) (args : List PArg) (c : ClientId) :
    Balanced (cmdRegisterGroup args c s).srv := by
  unfold cmdRegisterGroup
  split
  · exact hb
  · rename_i uid _
    split
    · split
      · exact hb
      · have hmem : (s.newDevgroup uid).2 ∈ (s.newDevgroup uid).1.allgroups :=
          List.mem_append_right _ (List.mem_singleton_self _)
        have hn : (s.newDevgroup uid).1.allgroups.Nodup :=
          List.nodup_append.mpr ⟨ht.nodup, List.nodup_singleton _, fun a ha b hb he => by
            rw [List.mem_singleton.mp hb] at he
            exact ht.notMem (he ▸ ha)⟩
        exact (steady_updateGroup hn hmem args).balanced (balanced_newDevgroup ht hb uid)
    · rename_i g hf
      exact (steady_updateGroup ht.nodup ((ht.found _ g).mp hf).1 args).balanced hb

theorem balanced_step {s s' : Server} {e : Event} (ht : GroupTable s) (hb : Balanced s) (hs : step F s e = some s') :
    Balanced s' := by
  obtain ⟨s₁, s₂, h1, ha, h2⟩ := (does_step F hs).2
  have hb₁ : Balanced s₁ := (Steady.of_same h1.allgroups (fun g => by rw [h1.group]) (fun g => by rw [h1.group])).balanced hb
  have hb₂ : Balanced s₂ := by
    obtain h | ⟨c, text, env, args, -, -, rfl⟩ := groups_act F ha
    · exact (Steady.of_same h.allgroups (fun g => by rw [h.group]) (fun g => by rw [h.group])).balanced hb₁
    · exact balanced_cmdRegisterGroup (ht.quiet h1) hb₁ args c
  exact (Steady.of_same h2.allgroups (fun g => by rw [h2.group]) (fun g => by rw [h2.group])).balanced hb₂

/-! ## Starting -/

theorem subgroup_addConfDevices (g : GroupId) (ds : List Str) (s : Server) (g' : GroupId) :
    ((addConfDevices g ds s).group g').subgroup = (s.group g').subgroup := by
  induction ds generalizing s with
  | nil => rfl
  | cons d ds ih =>
    unfold addConfDevices
    split
    · exact ih s
    · rw [ih, Server.addDevGroup, Server.modGroup_group]
      split
      · rename_i he
        rw [he]
      · rfl

/-- The first pass over the sections counts nothing. -/
theorem subgroup_parseDevgroups1 {confs : List DevgroupConf} {s s' : Server} (h : parseDevgroups1 confs s = .ok s')
    (hz : ∀ g, (s.group g).subgroup = 0) (g : GroupId) : (s'.group g).subgroup = 0 := by
  induction confs generalizing s with
  | nil =>
    cases h
    exact hz g
  | cons conf confs ih =>
    unfold parseDevgroups1 at h
    split at h
    · cases h
    · refine ih h fun g' => ?_
      rw [subgroup_addConfDevices, groupField_setName Group.subgroup (fun _ _ => rfl)]
      by_cases he : g' = s.nextGroup
      · subst he
        simp
      · simpa [Server.newDevgroup, he] using hz g'

theorem steady_addConfGroups {s : Server} (hn : s.allgroups.Nodup) {g : GroupId} (hg : g ∈ s.allgroups) (gs : List Str) :
    Steady s (addConfGroups g gs s) := by
  induction gs generalizing s with
  | nil => exact Steady.refl s
  | cons t gs ih =>
    unfold addConfGroups
    split
    · exact ih hn hg
    · rename_i g' _
      have hs := steady_addGroupGroup hn hg g'
      exact hs.trans (ih hn hg)

theorem steady_parseDevgroups2 {s : Server} (ht : GroupTable s) (confs : List DevgroupConf) :
    Steady s (parseDevgroups2 confs s) := by
  induction confs generalizing s with
  | nil => exact Steady.refl s
  | cons conf confs ih =>
    unfold parseDevgroups2
    split
    · exact ih ht
    · rename_i g hf
      have hg := ((ht.found _ g).mp hf).1
      exact (steady_addConfGroups ht.nodup hg conf.devgroups).trans (ih (addConfGroups_spec ht hg conf.devgroups).1)

theorem startup_balanced {cfg : Config} {s : Server} (h : startup F cfg = .ok s) : Balanced s := by
  obtain ⟨hr, ht, hk, hfresh⟩ := initDevtable_table F cfg
  obtain ⟨s₁, hs₁, rfl⟩ := Except.map_eq_ok.mp h
  obtain ⟨ht₁, hk₁, -⟩ := parseDevgroups1_spec ht hr hk cfg.devgroup_nodup (fun _ _ => hfresh _) hs₁
  have hzero := subgroup_parseDevgroups1 hs₁ fun g => by
    rw [(initDevtable_groups F cfg.device {}).1]
    rfl
  refine (steady_parseDevgroups2 ht₁ cfg.devgroup).balanced fun g => ?_
  have hlinks : childLinks s₁ g = 0 := Refcount.total_eq_zero_iff.mpr fun g' _ hg => by
    rw [hk₁ g'] at hg
    cases hg
  rw [hzero, hlinks]
  rfl

/-! ## Every state -/

theorem mem_headGroups {s : Server} (hb : Balanced s) (g : GroupId) :
    g ∈ headGroups s ↔ g ∈ s.allgroups ∧ ∀ g' ∈ s.allgroups, g ∉ kids s g' := by
  rw [headGroups, List.mem_filter, decide_eq_true_eq, hb g, Int.natCast_eq_zero]
  exact and_congr_right fun _ => Refcount.total_eq_zero_iff

theorem map_fst_mapM {ι β : Type} {f : ι → Option β} {label : ι → Str} {is : List ι} {texts : List (Str × β)}
    (h : (is.mapM fun i => (f i).map fun b => (label i, b)) = some texts) : texts.map Prod.fst = is.map label := by
  induction is generalizing texts with
  | nil =>
    cases h
    rfl
  | cons i is ih =>
    rw [List.mapM_cons] at h
    obtain ⟨x, hx, h⟩ := Option.bind_eq_some_iff.mp h
    obtain ⟨ys, hys, h⟩ := Option.bind_eq_some_iff.mp h
    obtain ⟨b, -, rfl⟩ := Option.map_eq_some_iff.mp hx
    cases h
    rw [List.map_cons, List.map_cons, ih hys]

theorem Balanced.subgroupsCounted {s : Server} (hb : Balanced s) : SubgroupsCounted s :=
  ⟨hb, fun g => by rw [hb g]; exact Int.natCast_nonneg _, mem_headGroups hb, fun _ _ h => map_fst_mapM h⟩

/-- From every configuration and over every run, the counters are the numbers of links. -/
theorem subgroups_counted {cfg : Config} {s₀ s : Server} {es : List Event} (h : startup F cfg = .ok s₀)
    (hs : exec (step F) s₀ es = some s) : SubgroupsCounted s := by
  obtain ⟨-, -, hb⟩ : Registry s ∧ GroupTable s ∧ Balanced s :=
    exec_induct (I := fun s => Registry s ∧ GroupTable s ∧ Balanced s)
      (fun _ _ _ hI hst => ⟨registry_step F hI.1 hst, groupTable_step F hI.2.1 hI.1 hst, balanced_step F hI.2.1 hI.2.2 hst⟩)
      ⟨(startup_registry F h).1, startup_table F h, startup_balanced F h⟩ hs
  exact hb.subgroupsCounted

/-- A section that lists a child twice: the child is counted twice, until a line drops both links. -/
def atticTwice : Config where
  devgroup := [{ title := str "house", name := some (str "House"), devgroups := [str "attic", str "attic"] },
    { title := str "attic", name := some (str "Attic") }]
  devgroup_nodup := by decide

theorem subgroups_counted_attic : ∃ s₀ s, startup Doubles.exact atticTwice = .ok s₀ ∧ exec (step Doubles.exact) s₀
    [.accept 0 10 0 0 1, .line 0 (str "regg uid:house grouplist:house") {}] = some s ∧ SubgroupsCounted s :=
  ⟨_, _, rfl, rfl, @subgroups_counted Doubles.exact atticTwice _ _
    [.accept 0 10 0 0 1, .line 0 (str "regg uid:house grouplist:house") {}] rfl rfl⟩

end Gnhast
