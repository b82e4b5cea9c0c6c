import Gnhast.Lemmas.Registry
import Gnhast.Lib.Graph
import Gnhast.Lib.Links

/-!
# Device groups

The members and the children of a group are linked lists that `cmd_register_group` brings in line with the lists of a line
(`Links`), and the children make a graph on the groups (`Graph`). The counters of `subgroup` play no part in either, so the
states are compared without them (`Server.flat`).
-/

namespace Gnhast

open CStr

variable (F : Doubles)

/-! ## States without counters -/

namespace Server

/-- A server without the counters of its groups. -/
def flat (s : Server) : Server := { s with group := fun g => { s.group g with subgroup := 0 } }

/-- The children of a group, and the next name. -/
def setChildren (s : Server) (g : GroupId) (st : List WrapGroup × Nat) : Server :=
  { s with nextWrap := st.2, group := Function.update s.group g { s.group g with children := st.1 } }

/-- The members of a group, and the next name. -/
def setMembers (s : Server) (g : GroupId) (st : List WrapDevice × Nat) : Server :=
  { s with nextWrap := st.2, group := Function.update s.group g { s.group g with members := st.1 } }

/-- A field of a group other than the counter is the same in states that differ in counters only. -/
theorem groupField {β : Type} (f : Group → β) (hf : ∀ gr, f { gr with subgroup := 0 } = f gr) {s s' : Server}
    (h : s.flat = s'.flat) (g : GroupId) : f (s.group g) = f (s'.group g) := by
  have hg : ({ s.group g with subgroup := 0 } : Group) = { s'.group g with subgroup := 0 } :=
    congrFun (congrArg Server.group h) g
  rw [← hf, hg, hf]

theorem flat_setChildren (s : Server) (g : GroupId) (st : List WrapGroup × Nat) :
    (s.setChildren g st).flat = s.flat.setChildren g st := by
  simp only [flat, setChildren, Server.mk.injEq, true_and, and_true]
  funext g'
  by_cases he : g' = g <;> simp [he]

theorem setChildren_setChildren (s : Server) (g : GroupId) (st st' : List WrapGroup × Nat) :
    (s.setChildren g st).setChildren g st' = s.setChildren g st' := by
  simp [setChildren]

theorem setMembers_setMembers (s : Server) (g : GroupId) (st st' : List WrapDevice × Nat) :
    (s.setMembers g st).setMembers g st' = s.setMembers g st' := by
  simp [setMembers]

theorem setChildren_self (s : Server) (g : GroupId) : s.setChildren g ((s.group g).children, s.nextWrap) = s := by
  simp [setChildren]

theorem setMembers_self (s : Server) (g : GroupId) : s.setMembers g ((s.group g).members, s.nextWrap) = s := by
  simp [setMembers]

theorem flat_addGroupGroup (s : Server) (g' g : GroupId) :
    (s.addGroupGroup g' g).flat = s.flat.setChildren g ((s.group g).children ++ [⟨s.nextWrap, g'⟩], s.nextWrap + 1) := by
  simp only [flat, setChildren, addGroupGroup, modGroup, Server.mk.injEq, true_and, and_true]
  funext g''
  by_cases h1 : g'' = g
  · subst h1
    by_cases h2 : g'' = g'
    · subst h2
      simp
    · simp [h2]
  · by_cases h2 : g'' = g'
    · subst h2
      simp [h1]
    · simp [h1, h2]

theorem flat_removeGroupGroup (s : Server) (g' g : GroupId) :
    (s.removeGroupGroup g' g).flat =
      s.flat.setChildren g ((s.group g).children.eraseP (fun w => w.group = g'), s.nextWrap) := by
  unfold removeGroupGroup
  split
  · simp only [flat, setChildren, modGroup, Server.mk.injEq, true_and, and_true]
    funext g''
    by_cases h1 : g'' = g
    · subst h1
      by_cases h2 : g'' = g'
      · subst h2
        simp
      · simp [h2]
    · by_cases h2 : g'' = g'
      · subst h2
        simp [h1]
      · simp [h1, h2]
  · rename_i h
    have hno : ∀ w ∈ (s.group g).children, ¬ (decide (w.group = g')) = true := by
      intro w hw hd
      exact h (List.any_eq_true.mpr ⟨w, hw, hd⟩)
    rw [List.eraseP_of_forall_not hno]
    exact (s.flat.setChildren_self g).symm

end Server

/-! ## The passes over the lists -/

/-- The add pass over the group list. -/
theorem flat_addGroups (g : GroupId) (ps : List Str) (s : Server) :
    (addGroups g ps s).flat = s.flat.setChildren g
      (Links.add WrapGroup.group WrapGroup.mk (ps.filterMap s.findDevgroupByUid) ((s.group g).children, s.nextWrap)) := by
  induction ps generalizing s with
  | nil => exact (s.flat.setChildren_self g).symm
  | cons p ps ih =>
    unfold addGroups
    cases hf : s.findDevgroupByUid p with
    | none => simp only [ih, List.filterMap_cons, hf]
    | some g' =>
      simp only [List.filterMap_cons, hf, Links.add]
      by_cases hin : g' ∈ (s.group g).children.map WrapGroup.group
      · have hin' : s.groupInGroup g' g = true := by
          obtain ⟨w, hw, rfl⟩ := List.mem_map.mp hin
          exact List.any_eq_true.mpr ⟨w, hw, by simp⟩
        rw [if_pos hin', if_pos hin, ih]
      · have hin' : ¬ s.groupInGroup g' g = true := by
          intro h
          obtain ⟨w, hw, he⟩ := List.any_eq_true.mp h
          exact hin (List.mem_map.mpr ⟨w, hw, by simpa using he⟩)
        have hflat := s.flat_addGroupGroup g' g
        have hch : ((s.addGroupGroup g' g).group g).children = (s.group g).children ++ [⟨s.nextWrap, g'⟩] := by
          have := Server.groupField Group.children (fun _ => rfl)
            (hflat.trans (s.flat_setChildren g ((s.group g).children ++ [⟨s.nextWrap, g'⟩], s.nextWrap + 1)).symm) g
          simpa [Server.setChildren] using this
        rw [if_neg hin', if_neg hin, ih, hflat, Server.setChildren_setChildren, hch]
        rfl

/-- The add pass over the device list. -/
theorem addDevs_eq (g : GroupId) (ps : List Str) (s : Server) :
    addDevs g ps s = s.setMembers g
      (Links.add WrapDevice.dev WrapDevice.mk (ps.filterMap s.findDeviceByUid) ((s.group g).members, s.nextWrap)) := by
  induction ps generalizing s with
  | nil => exact (s.setMembers_self g).symm
  | cons p ps ih =>
    unfold addDevs
    cases hf : s.findDeviceByUid p with
    | none => simp only [ih, List.filterMap_cons, hf]
    | some d =>
      simp only [List.filterMap_cons, hf, Links.add]
      by_cases hin : d ∈ (s.group g).members.map WrapDevice.dev
      · have hin' : s.devInGroup d g = true := by
          obtain ⟨w, hw, rfl⟩ := List.mem_map.mp hin
          exact List.any_eq_true.mpr ⟨w, hw, by simp⟩
        rw [if_pos hin', if_pos hin, ih]
      · have hin' : ¬ s.devInGroup d g = true := by
          intro h
          obtain ⟨w, hw, he⟩ := List.any_eq_true.mp h
          exact hin (List.mem_map.mpr ⟨w, hw, by simpa using he⟩)
        have hadd : s.addDevGroup d g = s.setMembers g ((s.group g).members ++ [⟨s.nextWrap, d⟩], s.nextWrap + 1) := rfl
        rw [if_neg hin', if_neg hin, ih, hadd, Server.setMembers_setMembers]
        simp only [Server.setMembers, Function.update_self]
        rfl

/-- The prune pass over the children, over entries that were children when it began. -/
theorem pruneGroups_eq (toks : List Str) (g : GroupId) (ws : List WrapGroup) (s : Server) :
    let r := Links.prune WrapGroup.group (fun g' => !decide ((s.group g').uid ∈ toks)) ws (s.group g).children
    (pruneGroups toks g ws s).1.flat = s.flat.setChildren g (r.1, s.nextWrap) ∧
      (pruneGroups toks g ws s).2 = r.2.map fun w => .freedRead w.wrap := by
  induction ws generalizing s with
  | nil => exact ⟨(s.flat.setChildren_self g).symm, rfl⟩
  | cons w ws ih =>
    unfold pruneGroups
    by_cases hu : (s.group w.group).uid ∈ toks
    · simpa [Links.prune, hu] using ih s
    · have hflat := s.flat_removeGroupGroup w.group g
      have hset := hflat.trans (s.flat_setChildren g _).symm
      have huid : ∀ g', ((s.removeGroupGroup w.group g).group g').uid = (s.group g').uid := by
        intro g'
        rw [Server.groupField Group.uid (fun _ => rfl) hset g']
        by_cases he : g' = g <;> simp [Server.setChildren, he]
      have hch : ((s.removeGroupGroup w.group g).group g).children =
          (s.group g).children.eraseP (fun x => x.group = w.group) := by
        rw [Server.groupField Group.children (fun _ => rfl) hset g]
        simp [Server.setChildren]
      have hn : (s.removeGroupGroup w.group g).nextWrap = s.nextWrap := by
        have := congrArg Server.nextWrap hset
        exact this
      obtain ⟨ih1, ih2⟩ := ih (s.removeGroupGroup w.group g)
      rw [if_neg hu]
      simp only [hflat, Server.setChildren_setChildren, huid, hch, hn] at ih1 ih2 ⊢
      simp only [Links.prune, hu, decide_false, Bool.not_false, if_true, ih1, ih2, true_and]
      split <;> simp

/-- The prune pass over the members, over entries that were members when it began. -/
theorem pruneDevs_eq (toks : List Str) (g : GroupId) (ws : List WrapDevice) (s : Server) :
    let r := Links.prune WrapDevice.dev (fun d => !decide ((s.dev d).uid ∈ toks)) ws (s.group g).members
    (pruneDevs toks g ws s).1 = s.setMembers g (r.1, s.nextWrap) ∧
      (pruneDevs toks g ws s).2 = r.2.map fun w => .freedRead w.wrap := by
  induction ws generalizing s with
  | nil => exact ⟨(s.setMembers_self g).symm, rfl⟩
  | cons w ws ih =>
    unfold pruneDevs
    by_cases hu : (s.dev w.dev).uid ∈ toks
    · simpa [Links.prune, hu] using ih s
    · have hrem : s.removeDevGroup w.dev g =
          s.setMembers g ((s.group g).members.eraseP (fun x => x.dev = w.dev), s.nextWrap) := rfl
      obtain ⟨ih1, ih2⟩ := ih (s.removeDevGroup w.dev g)
      rw [if_neg hu]
      rw [hrem] at ih1 ih2 ⊢
      rw [Server.setMembers_setMembers] at ih1
      simp only [Server.setMembers, Function.update_self] at ih1 ih2 ⊢
      simp only [Links.prune, hu, decide_false, Bool.not_false, if_true, ih1, ih2]
      split
      · exact ⟨rfl, rfl⟩
      · exact ⟨rfl, rfl⟩

/-! ## The two lists of a line -/

/-- The groups of a list that are known. -/
def Server.knownGroups (s : Server) (l : Str) : List GroupId := (strtok chComma l).filterMap s.findDevgroupByUid

/-- The devices of a list that are known. -/
def Server.knownDevs (s : Server) (l : Str) : List DevId := (strtok chComma l).filterMap s.findDeviceByUid

/-- The children of a group after both passes, with what the prune pass read after it was freed. -/
def Server.syncChildren (s : Server) (g : GroupId) (l : Str) : List WrapGroup × List WrapGroup :=
  Links.sync WrapGroup.group WrapGroup.mk (fun g' => !decide ((s.group g').uid ∈ strtok chComma l)) (s.knownGroups l)
    ((s.group g).children, s.nextWrap)

/-- The members of a group after both passes. -/
def Server.syncMembers (s : Server) (g : GroupId) (l : Str) : List WrapDevice × List WrapDevice :=
  Links.sync WrapDevice.dev WrapDevice.mk (fun d => !decide ((s.dev d).uid ∈ strtok chComma l)) (s.knownDevs l)
    ((s.group g).members, s.nextWrap)

/-- The names that the add passes leave for the next entries. -/
def Server.nextAfterGroups (s : Server) (g : GroupId) (l : Str) : Nat :=
  (Links.add WrapGroup.group WrapGroup.mk (s.knownGroups l) ((s.group g).children, s.nextWrap)).2

def Server.nextAfterDevs (s : Server) (g : GroupId) (l : Str) : Nat :=
  (Links.add WrapDevice.dev WrapDevice.mk (s.knownDevs l) ((s.group g).members, s.nextWrap)).2

theorem setGroups_some (g : GroupId) (l : Str) (s : Server) :
    (setGroups g (some l) s).1.flat = (s.setChildren g ((s.syncChildren g l).1, s.nextAfterGroups g l)).flat ∧
      (setGroups g (some l) s).2 = (s.syncChildren g l).2.map fun w => .freedRead w.wrap := by
  have hadd := flat_addGroups g (strtok chComma l) s
  have hset := hadd.trans (s.flat_setChildren g _).symm
  have huid : ∀ g', ((addGroups g (strtok chComma l) s).group g').uid = (s.group g').uid := by
    intro g'
    rw [Server.groupField Group.uid (fun _ => rfl) hset g']
    by_cases he : g' = g <;> simp [Server.setChildren, he]
  have hch : ((addGroups g (strtok chComma l) s).group g).children =
      (Links.add WrapGroup.group WrapGroup.mk (s.knownGroups l) ((s.group g).children, s.nextWrap)).1 := by
    rw [Server.groupField Group.children (fun _ => rfl) hset g]
    simp [Server.setChildren, Server.knownGroups]
  have hnext : (addGroups g (strtok chComma l) s).nextWrap = s.nextAfterGroups g l := by
    have := congrArg Server.nextWrap hset
    exact this
  obtain ⟨h1, h2⟩ := pruneGroups_eq (strtok chComma l) g
    ((addGroups g (strtok chComma l) s).group g).children (addGroups g (strtok chComma l) s)
  rw [hadd, Server.setChildren_setChildren] at h1
  simp only [huid, hch, hnext] at h1 h2
  constructor
  · rw [Server.flat_setChildren]
    simp only [setGroups, hch]
    exact h1
  · simp only [setGroups, hch]
    exact h2

theorem setDevs_some (g : GroupId) (l : Str) (s : Server) :
    (setDevs g (some l) s).1 = s.setMembers g ((s.syncMembers g l).1, s.nextAfterDevs g l) ∧
      (setDevs g (some l) s).2 = (s.syncMembers g l).2.map fun w => .freedRead w.wrap := by
  have hadd := addDevs_eq g (strtok chComma l) s
  obtain ⟨h1, h2⟩ := pruneDevs_eq (strtok chComma l) g
    ((addDevs g (strtok chComma l) s).group g).members (addDevs g (strtok chComma l) s)
  simp only [setDevs]
  rw [hadd] at h1 h2 ⊢
  rw [Server.setMembers_setMembers] at h1
  simp only [Server.setMembers, Function.update_self] at h1 h2 ⊢
  exact ⟨h1, h2⟩

/-! ## The table of groups -/

/-- The list of all groups is the tree by uid, groups have names, and the entries of their lists point to devices and groups that
exist, each entry under a name of its own. -/
structure GroupTable (s : Server) : Prop where
  nodup : s.allgroups.Nodup
  below : ∀ g ∈ s.allgroups, g < s.nextGroup
  found : ∀ uid g, s.findDevgroupByUid uid = some g ↔ g ∈ s.allgroups ∧ (s.group g).uid = uid
  name : ∀ g ∈ s.allgroups, (s.group g).name ≠ none
  member : ∀ g, ∀ w ∈ (s.group g).members, w.dev ∈ s.alldevs
  child : ∀ g, ∀ w ∈ (s.group g).children, w.group ∈ s.allgroups
  members_named : ∀ g, Links.Named WrapDevice.wrap ((s.group g).members, s.nextWrap)
  children_named : ∀ g, Links.Named WrapGroup.wrap ((s.group g).children, s.nextWrap)
  outside : ∀ g, g ∉ s.allgroups → (s.group g).members = [] ∧ (s.group g).children = []

namespace GroupTable

variable {s s' : Server}

theorem empty : GroupTable {} := by
  refine ⟨List.nodup_nil, by simp, by simp [Server.findDevgroupByUid], by simp, ?_, ?_, ?_, ?_, fun _ _ => ⟨rfl, rfl⟩⟩
  · intro g w hw
    cases hw
  · intro g w hw
    cases hw
  · exact fun g => ⟨List.nodup_nil, fun w hw => by cases hw⟩
  · exact fun g => ⟨List.nodup_nil, fun w hw => by cases hw⟩

theorem notMem (h : GroupTable s) : s.nextGroup ∉ s.allgroups := fun hm => Nat.lt_irrefl _ (h.below _ hm)

/-- Counters are no part of the table. -/
theorem of_flat (h : GroupTable s) (hf : s'.flat = s.flat) : GroupTable s' := by
  have huid := Server.groupField Group.uid (fun _ => rfl) hf
  have hname := Server.groupField Group.name (fun _ => rfl) hf
  have hmem := Server.groupField Group.members (fun _ => rfl) hf
  have hch := Server.groupField Group.children (fun _ => rfl) hf
  have hall : s'.allgroups = s.allgroups := by have := congrArg Server.allgroups hf; exact this
  have hgr : s'.devgroups = s.devgroups := by have := congrArg Server.devgroups hf; exact this
  have hng : s'.nextGroup = s.nextGroup := by have := congrArg Server.nextGroup hf; exact this
  have hnw : s'.nextWrap = s.nextWrap := by have := congrArg Server.nextWrap hf; exact this
  have hdev : s'.alldevs = s.alldevs := by have := congrArg Server.alldevs hf; exact this
  refine ⟨?_, ?_, ?_, ?_, ?_, ?_, ?_, ?_, ?_⟩
  · rw [hall]; exact h.nodup
  · rw [hall, hng]; exact h.below
  · simp only [Server.findDevgroupByUid, hgr, hall, huid]; exact h.found
  · simp only [hall, hname]; exact h.name
  · simp only [hmem, hdev]; exact h.member
  · simp only [hch, hall]; exact h.child
  · simp only [hmem, hnw]; exact h.members_named
  · simp only [hch, hnw]; exact h.children_named
  · simp only [hall, hmem, hch]; exact h.outside

/-- What leaves groups alone, and keeps the devices there are, keeps the table. -/
theorem of_devs (h : GroupTable s) (hg : s'.group = s.group) (hng : s'.nextGroup = s.nextGroup)
    (hall : s'.allgroups = s.allgroups) (hgr : s'.devgroups = s.devgroups) (hnw : s'.nextWrap = s.nextWrap)
    (hd : ∀ d ∈ s.alldevs, d ∈ s'.alldevs) : GroupTable s' := by
  refine ⟨?_, ?_, ?_, ?_, ?_, ?_, ?_, ?_, ?_⟩
  · rw [hall]; exact h.nodup
  · rw [hall, hng]; exact h.below
  · simp only [Server.findDevgroupByUid, hgr, hall, hg]; exact h.found
  · rw [hall, hg]; exact h.name
  · rw [hg]; exact fun g w hw => hd _ (h.member g w hw)
  · rw [hg, hall]; exact h.child
  · rw [hg, hnw]; exact h.members_named
  · rw [hg, hnw]; exact h.children_named
  · rw [hg, hall]; exact h.outside

/-- Writing one group of the table: its uid stays, and its lists point to what exists. -/
theorem update (h : GroupTable s) {g : GroupId} (hg : g ∈ s.allgroups) {gr : Group} {n : Nat} (hle : s.nextWrap ≤ n)
    (huid : gr.uid = (s.group g).uid) (hname : gr.name ≠ none) (hm : ∀ w ∈ gr.members, w.dev ∈ s.alldevs)
    (hmn : Links.Named WrapDevice.wrap (gr.members, n)) (hc : ∀ w ∈ gr.children, w.group ∈ s.allgroups)
    (hcn : Links.Named WrapGroup.wrap (gr.children, n)) :
    GroupTable { s with nextWrap := n, group := Function.update s.group g gr } := by
  have hgroup : ∀ g', ({ s with nextWrap := n, group := Function.update s.group g gr } : Server).group g' =
      if g' = g then gr else s.group g' := fun g' => Function.update_apply s.group g gr g'
  refine ⟨h.nodup, h.below, ?_, ?_, ?_, ?_, ?_, ?_, ?_⟩
  · intro uid g'
    rw [hgroup]
    split
    · rename_i he
      rw [huid, ← he]
      exact h.found uid g'
    · exact h.found uid g'
  · intro g' hg'
    rw [hgroup]
    split
    · exact hname
    · exact h.name g' hg'
  · intro g'
    rw [hgroup]
    split
    · exact hm
    · exact h.member g'
  · intro g'
    rw [hgroup]
    split
    · exact hc
    · exact h.child g'
  · intro g'
    rw [hgroup]
    split
    · exact hmn
    · exact ⟨(h.members_named g').nodup, fun w hw => Nat.lt_of_lt_of_le ((h.members_named g').below w hw) hle⟩
  · intro g'
    rw [hgroup]
    split
    · exact hcn
    · exact ⟨(h.children_named g').nodup, fun w hw => Nat.lt_of_lt_of_le ((h.children_named g').below w hw) hle⟩
  · intro g' hg'
    rw [hgroup, if_neg (fun he : g' = g => hg' (he ▸ hg))]
    exact h.outside g' hg'

theorem setChildren (h : GroupTable s) {g : GroupId} (hg : g ∈ s.allgroups) {st : List WrapGroup × Nat}
    (hc : ∀ w ∈ st.1, w.group ∈ s.allgroups) (hn : Links.Named WrapGroup.wrap st) (hle : s.nextWrap ≤ st.2) :
    GroupTable (s.setChildren g st) :=
  h.update hg hle rfl (h.name g hg) (h.member g)
    ⟨(h.members_named g).nodup, fun w hw => Nat.lt_of_lt_of_le ((h.members_named g).below w hw) hle⟩ hc hn

theorem setMembers (h : GroupTable s) {g : GroupId} (hg : g ∈ s.allgroups) {st : List WrapDevice × Nat}
    (hm : ∀ w ∈ st.1, w.dev ∈ s.alldevs) (hn : Links.Named WrapDevice.wrap st) (hle : s.nextWrap ≤ st.2) :
    GroupTable (s.setMembers g st) :=
  h.update hg hle rfl (h.name g hg) hm hn (h.child g)
    ⟨(h.children_named g).nodup, fun w hw => Nat.lt_of_lt_of_le ((h.children_named g).below w hw) hle⟩

theorem setName (h : GroupTable s) {g : GroupId} (hg : g ∈ s.allgroups) (nm : Str) :
    GroupTable (s.modGroup g fun gr => { gr with name := some nm }) :=
  h.update hg (Nat.le_refl _) rfl (Option.some_ne_none nm) (h.member g) (h.members_named g) (h.child g) (h.children_named g)

/-- A new group with a name, for an uid that is not known. -/
theorem create (h : GroupTable s) {uid : Str} (hf : s.findDevgroupByUid uid = none) (nm : Str) :
    GroupTable ((s.newDevgroup uid).1.modGroup s.nextGroup fun gr => { gr with name := some nm }) := by
  have hne : ∀ g ∈ s.allgroups, g ≠ s.nextGroup := fun g hg he => h.notMem (he ▸ hg)
  have hout := h.outside s.nextGroup h.notMem
  have hgroup : ∀ g, ((s.newDevgroup uid).1.modGroup s.nextGroup fun gr => { gr with name := some nm }).group g =
      if g = s.nextGroup then { uid := uid, name := some nm } else s.group g := by
    intro g
    by_cases he : g = s.nextGroup <;> simp [Server.newDevgroup, Server.modGroup, he]
  have hf' : s.devgroups uid = none := hf
  refine ⟨?_, ?_, ?_, ?_, ?_, ?_, ?_, ?_, ?_⟩
  · exact List.nodup_append.mpr ⟨h.nodup, List.nodup_singleton _, fun a ha b hb => by
      rw [List.mem_singleton.mp hb]
      exact hne a ha⟩
  · intro g hg
    rcases List.mem_append.mp hg with hg | hg
    · exact Nat.lt_succ_of_lt (h.below g hg)
    · rw [List.mem_singleton.mp hg]
      exact Nat.lt_succ_self _
  · intro uid' g
    have hfound := h.found uid' g
    rw [hgroup]
    simp only [Server.findDevgroupByUid, Server.newDevgroup, Server.modGroup, Server.treeInsert, hf', Function.update_apply,
      List.mem_append, List.mem_singleton] at hfound ⊢
    split
    · rename_i hu
      constructor
      · intro he
        cases he
        exact ⟨Or.inr rfl, by rw [if_pos rfl, hu]⟩
      · rintro ⟨hg | hg, hu'⟩
        · rw [if_neg (hne g hg)] at hu'
          have := hfound.mpr ⟨hg, hu'⟩
          rw [hu, hf'] at this
          cases this
        · rw [hg]
    · rename_i hu
      rw [hfound]
      constructor
      · rintro ⟨hg, hu'⟩
        exact ⟨Or.inl hg, by rw [if_neg (hne g hg), hu']⟩
      · rintro ⟨hg | hg, hu'⟩
        · rw [if_neg (hne g hg)] at hu'
          exact ⟨hg, hu'⟩
        · rw [if_pos hg] at hu'
          exact absurd hu'.symm hu
  · intro g hg
    rw [hgroup]
    split
    · exact Option.some_ne_none nm
    · rename_i he
      refine h.name g ?_
      rcases List.mem_append.mp hg with hg | hg
      · exact hg
      · exact absurd (List.mem_singleton.mp hg) he
  · intro g w hw
    rw [hgroup] at hw
    split at hw
    · cases hw
    · exact h.member g w hw
  · intro g w hw
    rw [hgroup] at hw
    split at hw
    · cases hw
    · exact List.mem_append_left _ (h.child g w hw)
  · intro g
    rw [hgroup]
    split
    · exact ⟨List.nodup_nil, fun w hw => by cases hw⟩
    · exact h.members_named g
  · intro g
    rw [hgroup]
    split
    · exact ⟨List.nodup_nil, fun w hw => by cases hw⟩
    · exact h.children_named g
  · intro g hg
    rw [hgroup]
    split
    · exact ⟨rfl, rfl⟩
    · exact h.outside g (fun hm => hg (List.mem_append_left _ hm))

theorem knownGroups_mem (h : GroupTable s) {l : Str} {g : GroupId} :
    g ∈ s.knownGroups l ↔ g ∈ s.allgroups ∧ (s.group g).uid ∈ strtok chComma l := by
  simp only [Server.knownGroups, List.mem_filterMap, h.found]
  constructor
  · rintro ⟨p, hp, hg, rfl⟩
    exact ⟨hg, hp⟩
  · rintro ⟨hg, hu⟩
    exact ⟨_, hu, hg, rfl⟩

end GroupTable

/-! ## The command -/

/-- A line that `cmd_register_group` accepts: its group is known, or the line has a name for it. -/
structure Accepted (s : Server) (args : List PArg) (uid : Str) : Prop where
  arg : lastArg .uid args = some uid
  known : s.findDevgroupByUid uid ≠ none ∨ (lastArg .name args : Option Str) ≠ none

/-- A server in which the group of a line exists and has its name, and the lists are as they were. -/
structure Opened (s : Server) (uid : Str) (g : GroupId) (s₁ : Server) : Prop where
  table : GroupTable s₁
  mem : g ∈ s₁.allgroups
  named : (s₁.group g).uid = uid
  members : ∀ g', (s₁.group g').members = (s.group g').members
  children : ∀ g', (s₁.group g').children = (s.group g').children
  only : OnlyGroups s s₁
  allgroups : ∀ g', g' ∈ s₁.allgroups ↔ g' ∈ s.allgroups ∨ g' = g
  uids : ∀ g' ∈ s.allgroups, (s₁.group g').uid = (s.group g').uid
  known : ∀ g', s.findDevgroupByUid uid = some g' → g' = g
  new : s.findDevgroupByUid uid = none → g ∉ s.allgroups

/-- Writing a name leaves all else of the groups alone. -/
theorem groupField_setName {β : Type} (f : Group → β) (hf : ∀ gr n, f { gr with name := n } = f gr) (s : Server) (g : GroupId)
    (nm : Str) (g' : GroupId) : f ((s.modGroup g fun gr => { gr with name := some nm }).group g') = f (s.group g') := by
  rw [Server.modGroup_group]
  split
  · rename_i he
    rw [hf, he]
  · rfl

theorem opened_known {s s₁ : Server} {uid : Str} {g : GroupId} (h : GroupTable s) (hf : s.findDevgroupByUid uid = some g)
    (hs : s₁ = s ∨ ∃ nm, s₁ = s.modGroup g fun gr => { gr with name := some nm }) : Opened s uid g s₁ := by
  obtain ⟨hg, hu⟩ := (h.found uid g).mp hf
  have hknown : ∀ g', s.findDevgroupByUid uid = some g' → g' = g := by
    intro g' hf'
    rw [hf] at hf'
    exact (Option.some.inj hf').symm
  have hnew : s.findDevgroupByUid uid = none → g ∉ s.allgroups := by
    intro hn
    rw [hf] at hn
    cases hn
  have hall : ∀ g', g' ∈ s.allgroups ↔ g' ∈ s.allgroups ∨ g' = g := by
    intro g'
    refine ⟨Or.inl, ?_⟩
    rintro (h | rfl)
    · exact h
    · exact hg
  obtain rfl | ⟨nm, rfl⟩ := hs
  · exact ⟨h, hg, hu, fun _ => rfl, fun _ => rfl, OnlyGroups.refl _, hall, fun _ _ => rfl, hknown, hnew⟩
  · exact ⟨h.setName hg nm, hg, (groupField_setName Group.uid (fun _ _ => rfl) s g nm g).trans hu,
      groupField_setName Group.members (fun _ _ => rfl) s g nm, groupField_setName Group.children (fun _ _ => rfl) s g nm,
      onlyGroups_modGroup s g _, hall, fun g' _ => groupField_setName Group.uid (fun _ _ => rfl) s g nm g', hknown, hnew⟩

theorem opened_new {s : Server} {uid : Str} (h : GroupTable s) (hf : s.findDevgroupByUid uid = none) (nm : Str) :
    Opened s uid s.nextGroup ((s.newDevgroup uid).1.modGroup s.nextGroup fun gr => { gr with name := some nm }) := by
  have hout := h.outside s.nextGroup h.notMem
  have hgroup : ∀ g, (s.newDevgroup uid).1.group g = if g = s.nextGroup then { uid := uid } else s.group g := by
    intro g
    by_cases he : g = s.nextGroup <;> simp [Server.newDevgroup, he]
  refine ⟨h.create hf nm, List.mem_append_right _ (List.mem_singleton_self _), ?_, ?_, ?_, ?_, ?_, ?_, ?_, fun _ => h.notMem⟩
  · rw [groupField_setName Group.uid (fun _ _ => rfl), hgroup, if_pos rfl]
  · intro g
    rw [groupField_setName Group.members (fun _ _ => rfl), hgroup]
    split
    · rename_i he
      rw [he, hout.1]
    · rfl
  · intro g
    rw [groupField_setName Group.children (fun _ _ => rfl), hgroup]
    split
    · rename_i he
      rw [he, hout.2]
    · rfl
  · exact (onlyGroups_newDevgroup s uid).trans (onlyGroups_modGroup _ _ _)
  · intro g
    change g ∈ s.allgroups ++ [s.nextGroup] ↔ _
    rw [List.mem_append, List.mem_singleton]
  · intro g hg
    have hne : g ≠ s.nextGroup := fun he => h.notMem (he ▸ hg)
    rw [groupField_setName Group.uid (fun _ _ => rfl), hgroup, if_neg hne]
  · intro g hg
    rw [hf] at hg
    cases hg

/-- A line that is not accepted changes nothing. -/
theorem cmdRegisterGroup_refused {args : List PArg} {s : Server} (c : ClientId) (h : ∀ uid, ¬ Accepted s args uid) :
    cmdRegisterGroup args c s = { srv := s, ret := some (-1) } := by
  cases hu : (lastArg .uid args : Option Str) with
  | none => simp only [cmdRegisterGroup, hu]
  | some uid =>
    cases hf : s.findDevgroupByUid uid with
    | some g => exact absurd ⟨hu, Or.inl (by simp [hf])⟩ (h uid)
    | none =>
      cases hn : (lastArg .name args : Option Str) with
      | some nm => exact absurd ⟨hu, Or.inr (by simp [hn])⟩ (h uid)
      | none => simp only [cmdRegisterGroup, hu, hf, hn]

/-- A line that is accepted brings the lists of its group in line with its own. -/
theorem cmdRegisterGroup_accepted {args : List PArg} {s : Server} {uid : Str} (c : ClientId) (ht : GroupTable s)
    (h : Accepted s args uid) : ∃ g s₁, Opened s uid g s₁ ∧ cmdRegisterGroup args c s =
      { srv := (setDevs g (lastArg .devlist args) (setGroups g (lastArg .grouplist args) s₁).1).1
        out := (setGroups g (lastArg .grouplist args) s₁).2 ++
          (setDevs g (lastArg .devlist args) (setGroups g (lastArg .grouplist args) s₁).1).2 } := by
  have hu := h.arg
  cases hf : s.findDevgroupByUid uid with
  | some g =>
    cases hn : (lastArg .name args : Option Str) with
    | none => exact ⟨g, s, opened_known ht hf (Or.inl rfl), by simp only [cmdRegisterGroup, hu, hf, updateGroup, hn]⟩
    | some nm => exact ⟨g, _, opened_known ht hf (Or.inr ⟨nm, rfl⟩), by simp only [cmdRegisterGroup, hu, hf, updateGroup, hn]⟩
  | none =>
    cases hn : (lastArg .name args : Option Str) with
    | none =>
      rcases h.known with hk | hk
      · exact absurd hf hk
      · exact absurd hn hk
    | some nm =>
      refine ⟨s.nextGroup, _, opened_new ht hf nm, ?_⟩
      simp only [cmdRegisterGroup, hu, hf, updateGroup, hn]
      rfl

/-! ## The lists after the command -/

section Sync

theorem wrapGroup_wrap : ∀ n g, (WrapGroup.mk n g).wrap = n := fun _ _ => rfl

theorem wrapDevice_wrap : ∀ n d, (WrapDevice.mk n d).wrap = n := fun _ _ => rfl

variable {s : Server} (ht : GroupTable s)

include ht

section

variable (g : GroupId) (l : Str)

/-- An entry of a table is stale exactly when its group is none of those on the list. -/
theorem GroupTable.child_fresh {w : WrapGroup} (hw : w ∈ (s.group g).children)
    (hs : (!decide ((s.group w.group).uid ∈ strtok chComma l)) = false) : w.group ∈ s.knownGroups l :=
  ht.knownGroups_mem.mpr ⟨ht.child g w hw, by simpa using hs⟩

theorem mem_syncChildren {g' : GroupId} :
    g' ∈ (s.syncChildren g l).1.map WrapGroup.group ↔ g' ∈ s.allgroups ∧ (s.group g').uid ∈ strtok chComma l := by
  rw [← ht.knownGroups_mem]
  exact Links.mem_sync WrapGroup.group (fun _ _ => rfl) wrapGroup_wrap (ht.children_named g)
    (fun g' hg' => by simp [(ht.knownGroups_mem.mp hg').2]) (fun w hw hs => ht.child_fresh g l hw hs)

theorem syncChildren_iff :
    (((s.syncChildren g l).1.map WrapGroup.group).Nodup ∧ (s.syncChildren g l).2 = []) ↔
      (∀ w ∈ (s.group g).children, (s.group w.group).uid ∈ strtok chComma l) ∧
        ((s.group g).children.map WrapGroup.group).Nodup := by
  have h := @Links.sync_iff _ _ _ _ WrapGroup.group WrapGroup.mk (fun _ _ => rfl) WrapGroup.wrap wrapGroup_wrap
    (s.knownGroups l) ((s.group g).children, s.nextWrap) (ht.children_named g)
    (fun g' => !decide ((s.group g').uid ∈ strtok chComma l))
    (fun g' hg' => by simp [(ht.knownGroups_mem.mp hg').2]) (fun w hw hs => ht.child_fresh g l hw hs)
  refine h.trans (and_congr_left' (forall₂_congr fun w hw => ?_))
  rw [ht.knownGroups_mem]
  exact ⟨fun hk => hk.2, fun hk => ⟨ht.child g w hw, hk⟩⟩

theorem GroupTable.setChildren_sync (hg : g ∈ s.allgroups) :
    GroupTable (s.setChildren g ((s.syncChildren g l).1, s.nextAfterGroups g l)) := by
  refine ht.setChildren hg (fun w hw => ?_) ?_ ?_
  · exact ((mem_syncChildren ht g l).mp (List.mem_map_of_mem hw)).1
  · exact Links.named_sync WrapGroup.group wrapGroup_wrap (ht.children_named g)
  · exact Links.le_add WrapGroup.group WrapGroup.mk (s.knownGroups l) ((s.group g).children, s.nextWrap)

end

variable (hr : Registry s) (g : GroupId) (l : Str)

include hr

omit ht in
theorem Registry.knownDevs_mem {d : DevId} :
    d ∈ s.knownDevs l ↔ d ∈ s.alldevs ∧ (s.dev d).uid ∈ strtok chComma l := by
  simp only [Server.knownDevs, List.mem_filterMap, hr.found]
  constructor
  · rintro ⟨p, hp, hd, rfl⟩
    exact ⟨hd, hp⟩
  · rintro ⟨hd, hu⟩
    exact ⟨_, hu, hd, rfl⟩

theorem GroupTable.member_fresh {w : WrapDevice} (hw : w ∈ (s.group g).members)
    (hs : (!decide ((s.dev w.dev).uid ∈ strtok chComma l)) = false) : w.dev ∈ s.knownDevs l :=
  (hr.knownDevs_mem l).mpr ⟨ht.member g w hw, by simpa using hs⟩

theorem mem_syncMembers {d : DevId} :
    d ∈ (s.syncMembers g l).1.map WrapDevice.dev ↔ d ∈ s.alldevs ∧ (s.dev d).uid ∈ strtok chComma l := by
  rw [← hr.knownDevs_mem]
  exact Links.mem_sync WrapDevice.dev (fun _ _ => rfl) wrapDevice_wrap (ht.members_named g)
    (fun d hd => by simp [((hr.knownDevs_mem l).mp hd).2]) (fun w hw hs => ht.member_fresh hr g l hw hs)

theorem syncMembers_iff :
    (((s.syncMembers g l).1.map WrapDevice.dev).Nodup ∧ (s.syncMembers g l).2 = []) ↔
      (∀ w ∈ (s.group g).members, (s.dev w.dev).uid ∈ strtok chComma l) ∧
        ((s.group g).members.map WrapDevice.dev).Nodup := by
  have h := @Links.sync_iff _ _ _ _ WrapDevice.dev WrapDevice.mk (fun _ _ => rfl) WrapDevice.wrap wrapDevice_wrap
    (s.knownDevs l) ((s.group g).members, s.nextWrap) (ht.members_named g)
    (fun d => !decide ((s.dev d).uid ∈ strtok chComma l))
    (fun d hd => by simp [((hr.knownDevs_mem l).mp hd).2]) (fun w hw hs => ht.member_fresh hr g l hw hs)
  refine h.trans (and_congr_left' (forall₂_congr fun w hw => ?_))
  rw [hr.knownDevs_mem]
  exact ⟨fun hk => hk.2, fun hk => ⟨ht.member g w hw, hk⟩⟩

theorem GroupTable.setMembers_sync (hg : g ∈ s.allgroups) :
    GroupTable (s.setMembers g ((s.syncMembers g l).1, s.nextAfterDevs g l)) := by
  refine ht.setMembers hg (fun w hw => ?_) ?_ ?_
  · exact ((mem_syncMembers ht hr g l).mp (List.mem_map_of_mem hw)).1
  · exact Links.named_sync WrapDevice.dev wrapDevice_wrap (ht.members_named g)
  · exact Links.le_add WrapDevice.dev WrapDevice.mk (s.knownDevs l) ((s.group g).members, s.nextWrap)

end Sync

/-! ## Runs -/

theorem GroupTable.setGroups {s : Server} (ht : GroupTable s) {g : GroupId} (hg : g ∈ s.allgroups) (l : Option Str) :
    GroupTable (setGroups g l s).1 := by
  cases l with
  | none => exact ht
  | some l => exact (ht.setChildren_sync g l hg).of_flat (setGroups_some g l s).1

theorem GroupTable.setDevs {s : Server} (ht : GroupTable s) (hr : Registry s) {g : GroupId} (hg : g ∈ s.allgroups)
    (l : Option Str) : GroupTable (setDevs g l s).1 := by
  cases l with
  | none => exact ht
  | some l =>
    rw [(setDevs_some g l s).1]
    exact ht.setMembers_sync hr g l hg

theorem allgroups_setGroups (g : GroupId) (l : Option Str) (s : Server) : (setGroups g l s).1.allgroups = s.allgroups := by
  cases l with
  | none => rfl
  | some l =>
    have := congrArg Server.allgroups (setGroups_some g l s).1
    exact this

theorem GroupTable.cmdRegisterGroup {s : Server} (ht : GroupTable s) (hr : Registry s) (args : List PArg) (c : ClientId) :
    GroupTable (cmdRegisterGroup args c s).srv := by
  by_cases h : ∃ uid, Accepted s args uid
  · obtain ⟨uid, h⟩ := h
    obtain ⟨g, s₁, ho, he⟩ := cmdRegisterGroup_accepted c ht h
    rw [he]
    refine GroupTable.setDevs (ho.table.setGroups ho.mem _) ?_ ?_ _
    · exact (hr.onlyGroups ho.only).onlyGroups (onlyGroups_setGroups g _ s₁)
    · rw [allgroups_setGroups]
      exact ho.mem
  · rw [cmdRegisterGroup_refused c (fun uid hu => h ⟨uid, hu⟩)]
    exact ht

theorem GroupTable.quiet {s s' : Server} (h : GroupTable s) (hq : Quiet s s') : GroupTable s' :=
  h.of_devs hq.group hq.nextGroup hq.allgroups hq.devgroups hq.nextWrap (fun d hd => by rwa [hq.alldevs])

/-- The groups are as they were. -/
structure SameGroups (s s' : Server) : Prop where
  group : s'.group = s.group
  nextGroup : s'.nextGroup = s.nextGroup
  allgroups : s'.allgroups = s.allgroups
  devgroups : s'.devgroups = s.devgroups
  nextWrap : s'.nextWrap = s.nextWrap

/-- What happens leaves the groups as they are, except that a `regg` line is carried out. -/
theorem groups_act {e : Event} {s s' : Server} (ha : Act F e s s') : SameGroups s s' ∨
    ∃ c text env args, e = .line c text env ∧ lineCmd F text = some (.regg, args) ∧ s' = (cmdRegisterGroup args c s).srv := by
  cases ha with
  | none => exact Or.inl ⟨rfl, rfl, rfl, rfl, rfl⟩
  | connect => exact Or.inl ⟨rfl, rfl, rfl, rfl, rfl⟩
  | create hl hu hf hc =>
    rw [create_eq hf rfl]
    exact Or.inl ⟨rfl, rfl, rfl, rfl, rfl⟩
  | claim hl hu hf =>
    rw [claimDevice_frame]
    exact Or.inl ⟨rfl, rfl, rfl, rfl, rfl⟩
  | @regroup c text env args _ hl => exact Or.inr ⟨c, text, env, args, rfl, hl, rfl⟩
  | modify => exact Or.inl ⟨rfl, rfl, rfl, rfl, rfl⟩
  | watch => exact Or.inl ⟨rfl, rfl, rfl, rfl, rfl⟩
  | track hl hf ht =>
    rw [track_eq hf ht.onqAll]
    exact Or.inl ⟨rfl, rfl, rfl, rfl, rfl⟩
  | close =>
    rw [bufErrorCb_frame]
    exact Or.inl ⟨rfl, rfl, rfl, rfl, rfl⟩
  | drained =>
    rw [bufErrorCb_frame]
    exact Or.inl ⟨rfl, rfl, rfl, rfl, rfl⟩

theorem groupTable_act {e : Event} {s s' : Server} (h : GroupTable s) (hr : Registry s) (ha : Act F e s s') : GroupTable s' := by
  have hgrow := alldevs_act F ha
  have hd : ∀ d ∈ s.alldevs, d ∈ s'.alldevs := by
    intro d hd
    obtain hs | ⟨hs, -⟩ := hgrow
    · rwa [hs]
    · rw [hs]
      exact List.mem_append_left _ hd
  obtain hs | ⟨c, text, env, args, -, -, rfl⟩ := groups_act F ha
  · exact h.of_devs hs.group hs.nextGroup hs.allgroups hs.devgroups hs.nextWrap hd
  · exact h.cmdRegisterGroup hr args c

theorem groupTable_step {s s' : Server} {e : Event} (h : GroupTable s) (hr : Registry s) (hs : step F s e = some s') :
    GroupTable s' := by
  obtain ⟨s₁, s₂, h1, ha, h2⟩ := (does_step F hs).2
  exact (groupTable_act F (h.quiet h1) (hr.quiet h1) ha).quiet h2

theorem uid_setGroups (g : GroupId) (l : Option Str) (s : Server) (g' : GroupId) :
    ((setGroups g l s).1.group g').uid = (s.group g').uid := by
  cases l with
  | none => rfl
  | some l =>
    have hset := Server.groupField Group.uid (by intro; rfl)
      (setGroups_some g l s).1 g'
    rw [hset]
    by_cases he : g' = g <;> simp [Server.setChildren, he]

/-- The groups there are stay, and keep their uids. -/
theorem GroupTable.kept_cmdRegisterGroup {s : Server} (ht : GroupTable s) (args : List PArg) (c : ClientId) {g' : GroupId}
    (hg' : g' ∈ s.allgroups) : g' ∈ (Gnhast.cmdRegisterGroup args c s).srv.allgroups ∧
      ((Gnhast.cmdRegisterGroup args c s).srv.group g').uid = (s.group g').uid := by
  by_cases h : ∃ uid, Accepted s args uid
  · obtain ⟨uid, h⟩ := h
    obtain ⟨g, s₁, ho, he⟩ := cmdRegisterGroup_accepted c ht h
    have hdevs : ∀ (l : Option Str) (s : Server), (Gnhast.setDevs g l s).1.allgroups = s.allgroups ∧
        ((Gnhast.setDevs g l s).1.group g').uid = (s.group g').uid := by
      intro l s
      cases l with
      | none => exact ⟨rfl, rfl⟩
      | some l =>
        rw [(setDevs_some g l s).1]
        exact ⟨rfl, by by_cases he : g' = g <;> simp [Server.setMembers, he]⟩
    rw [he]
    dsimp only
    rw [(hdevs _ _).1, (hdevs _ _).2, allgroups_setGroups, uid_setGroups]
    exact ⟨(ho.allgroups g').mpr (Or.inl hg'), ho.uids g' hg'⟩
  · rw [cmdRegisterGroup_refused c (fun uid hu => h ⟨uid, hu⟩)]
    exact ⟨hg', rfl⟩

theorem groups_step {s s' : Server} {e : Event} (h : GroupTable s) (hs : step F s e = some s') {g : GroupId}
    (hg : g ∈ s.allgroups) : g ∈ s'.allgroups ∧ (s'.group g).uid = (s.group g).uid := by
  obtain ⟨s₁, s₂, h1, ha, h2⟩ := (does_step F hs).2
  rw [h2.allgroups, h2.group]
  rw [← h1.allgroups] at hg
  obtain hsame | ⟨c, text, env, args, -, -, rfl⟩ := groups_act F ha
  · rw [hsame.allgroups, hsame.group, h1.group]
    exact ⟨hg, rfl⟩
  · rw [← h1.group]
    exact (h.quiet h1).kept_cmdRegisterGroup args c hg

/-! ## Starting -/

theorem GroupTable.addGroupGroup {s : Server} (h : GroupTable s) {g g' : GroupId} (hg : g ∈ s.allgroups)
    (hg' : g' ∈ s.allgroups) : GroupTable (s.addGroupGroup g' g) := by
  refine GroupTable.of_flat
    (@GroupTable.setChildren s h g hg ((s.group g).children ++ [⟨s.nextWrap, g'⟩], s.nextWrap + 1) ?_ ?_ ?_)
    ((s.flat_addGroupGroup g' g).trans (s.flat_setChildren g _).symm)
  · intro w hw
    rcases List.mem_append.mp hw with hw | hw
    · exact h.child g w hw
    · rw [List.mem_singleton.mp hw]
      exact hg'
  · exact (h.children_named g).snoc (by rfl)
  · exact Nat.le_succ _

theorem GroupTable.addDevGroup {s : Server} (h : GroupTable s) {g : GroupId} {d : DevId} (hg : g ∈ s.allgroups)
    (hd : d ∈ s.alldevs) : GroupTable (s.addDevGroup d g) := by
  refine @GroupTable.setMembers s h g hg ((s.group g).members ++ [⟨s.nextWrap, d⟩], s.nextWrap + 1) ?_ ?_ ?_
  · intro w hw
    rcases List.mem_append.mp hw with hw | hw
    · exact h.member g w hw
    · rw [List.mem_singleton.mp hw]
      exact hd
  · exact (h.members_named g).snoc (by rfl)
  · exact Nat.le_succ _

/-- The groups of a server as a graph. -/
def kids (s : Server) (g : GroupId) : List GroupId := (s.group g).children.map WrapGroup.group

theorem kids_flat {s s' : Server} (h : s'.flat = s.flat) : kids s' = kids s := by
  funext g
  rw [kids, kids, Server.groupField Group.children (fun _ => rfl) h]

theorem kids_addDevGroup (s : Server) (d : DevId) (g : GroupId) : kids (s.addDevGroup d g) = kids s := by
  funext g'
  unfold kids Server.addDevGroup
  rw [Server.modGroup_group]
  split
  · rename_i he
    rw [he]
  · rfl

theorem edge_addGroupGroup (s : Server) (g g' a b : GroupId) :
    Graph.Edge (kids (s.addGroupGroup g' g)) a b ↔ Graph.Edge (kids s) a b ∨ (a = g ∧ b = g') := by
  have hflat := (s.flat_addGroupGroup g' g).trans (s.flat_setChildren g _).symm
  rw [Graph.Edge, kids_flat hflat, Graph.Edge]
  by_cases he : a = g
  · simp [kids, Server.setChildren, he]
  · simp [kids, Server.setChildren, he]

/-- The devices of a section join the members of its group; all else stays. -/
theorem addConfDevices_spec {s : Server} (h : GroupTable s) (hr : Registry s) {g : GroupId} (hg : g ∈ s.allgroups)
    (ds : List Str) : GroupTable (addConfDevices g ds s) ∧ kids (addConfDevices g ds s) = kids s ∧
      (addConfDevices g ds s).allgroups = s.allgroups ∧ (addConfDevices g ds s).devgroups = s.devgroups := by
  induction ds generalizing s with
  | nil => exact ⟨h, rfl, rfl, rfl⟩
  | cons d ds ih =>
    unfold addConfDevices
    cases hf : s.findDeviceByUid d with
    | none => exact ih h hr hg
    | some d' =>
      obtain ⟨h1, h2, h3, h4⟩ := ih (h.addDevGroup hg ((hr.found d d').mp hf).1) (hr.onlyGroups (onlyGroups_addDevGroup s d' g)) hg
      exact ⟨h1, h2.trans (kids_addDevGroup s d' g), h3, h4⟩

/-- The first pass over the sections makes a table of groups without links, one group for each title. -/
theorem parseDevgroups1_spec {confs : List DevgroupConf} {s s' : Server} (h : GroupTable s) (hr : Registry s)
    (hk : ∀ g, kids s g = []) (hn : (confs.map DevgroupConf.title).Nodup)
    (hf : ∀ conf ∈ confs, s.findDevgroupByUid conf.title = none) (hs : parseDevgroups1 confs s = .ok s') :
    GroupTable s' ∧ (∀ g, kids s' g = []) ∧
      ∀ t, s'.findDevgroupByUid t ≠ none ↔ s.findDevgroupByUid t ≠ none ∨ t ∈ confs.map DevgroupConf.title := by
  induction confs generalizing s with
  | nil =>
    cases hs
    exact ⟨h, hk, fun t => by simp⟩
  | cons conf confs ih =>
    unfold parseDevgroups1 at hs
    split at hs
    · cases hs
    · rename_i name _
      have hf' := hf conf List.mem_cons_self
      rw [List.map_cons, List.nodup_cons] at hn
      have ho := opened_new h hf' name
      obtain ⟨h1, h2, h3, h4⟩ := addConfDevices_spec ho.table (hr.onlyGroups ho.only) ho.mem conf.devices
      have hfind : ∀ t, (addConfDevices s.nextGroup conf.devices ((s.newDevgroup conf.title).1.modGroup s.nextGroup
          fun g => { g with name := some name })).findDevgroupByUid t =
          if t = conf.title then some s.nextGroup else s.findDevgroupByUid t := by
        intro t
        rw [Server.findDevgroupByUid, h4]
        have hf'' : s.devgroups conf.title = none := hf'
        simp only [Server.modGroup, Server.newDevgroup, Server.treeInsert, hf'', Function.update_apply]
        rfl
      have hk' : ∀ g, kids (addConfDevices s.nextGroup conf.devices ((s.newDevgroup conf.title).1.modGroup s.nextGroup
          fun g => { g with name := some name })) g = [] := by
        intro g
        rw [h2, kids, ho.children]
        exact hk g
      obtain ⟨i1, i2, i3⟩ := ih h1 ((hr.onlyGroups ho.only).onlyGroups (onlyGroups_addConfDevices _ _ _)) hk' hn.2
        (fun conf' hc' => by
          rw [hfind, if_neg (fun he : conf'.title = conf.title => hn.1 (he ▸ List.mem_map_of_mem hc'))]
          exact hf conf' (List.mem_cons_of_mem _ hc')) hs
      refine ⟨i1, i2, fun t => ?_⟩
      rw [i3, hfind, List.map_cons, List.mem_cons]
      by_cases he : t = conf.title
      · simp [he]
      · simp [he]

/-- The groups of a section that are known become children of its group. -/
theorem addConfGroups_spec {s : Server} (h : GroupTable s) {g : GroupId} (hg : g ∈ s.allgroups) (gs : List Str) :
    GroupTable (addConfGroups g gs s) ∧ (addConfGroups g gs s).allgroups = s.allgroups ∧
      (addConfGroups g gs s).devgroups = s.devgroups ∧
      ∀ a b, Graph.Edge (kids (addConfGroups g gs s)) a b ↔
        Graph.Edge (kids s) a b ∨ (a = g ∧ ∃ t ∈ gs, s.findDevgroupByUid t = some b) := by
  induction gs generalizing s with
  | nil => exact ⟨h, rfl, rfl, fun a b => by simp [addConfGroups]⟩
  | cons t gs ih =>
    unfold addConfGroups
    cases hf : s.findDevgroupByUid t with
    | none =>
      obtain ⟨h1, h2, h3, h4⟩ := ih h hg
      refine ⟨h1, h2, h3, fun a b => (h4 a b).trans ?_⟩
      simp [hf]
    | some g' =>
      have hfind : ∀ t, (s.addGroupGroup g' g).findDevgroupByUid t = s.findDevgroupByUid t := fun _ => rfl
      obtain ⟨h1, h2, h3, h4⟩ := ih (h.addGroupGroup hg ((h.found t g').mp hf).1) hg
      refine ⟨h1, h2, h3, fun a b => (h4 a b).trans ?_⟩
      simp only [edge_addGroupGroup, hfind, List.mem_cons, exists_eq_or_imp, hf, Option.some.injEq]
      constructor
      · rintro ((he | ⟨rfl, rfl⟩) | ⟨rfl, he⟩)
        · exact Or.inl he
        · exact Or.inr ⟨rfl, Or.inl rfl⟩
        · exact Or.inr ⟨rfl, Or.inr he⟩
      · rintro (he | ⟨rfl, rfl | he⟩)
        · exact Or.inl (Or.inl he)
        · exact Or.inl (Or.inr ⟨rfl, rfl⟩)
        · exact Or.inr ⟨rfl, he⟩

/-- The second pass links groups as the sections say. -/
theorem parseDevgroups2_spec {confs : List DevgroupConf} {s : Server} (h : GroupTable s) :
    GroupTable (parseDevgroups2 confs s) ∧ (parseDevgroups2 confs s).devgroups = s.devgroups ∧
      ∀ a b, Graph.Edge (kids (parseDevgroups2 confs s)) a b ↔ Graph.Edge (kids s) a b ∨
        ∃ conf ∈ confs, s.findDevgroupByUid conf.title = some a ∧ ∃ t ∈ conf.devgroups, s.findDevgroupByUid t = some b := by
  induction confs generalizing s with
  | nil => exact ⟨h, rfl, fun a b => by simp [parseDevgroups2]⟩
  | cons conf confs ih =>
    unfold parseDevgroups2
    cases hf : s.findDevgroupByUid conf.title with
    | none =>
      obtain ⟨h1, h2, h3⟩ := ih h
      refine ⟨h1, h2, fun a b => (h3 a b).trans ?_⟩
      simp [hf]
    | some g =>
      obtain ⟨i1, i2, i3, i4⟩ := addConfGroups_spec h ((h.found _ g).mp hf).1 conf.devgroups
      obtain ⟨h1, h2, h3⟩ := ih i1
      refine ⟨h1, h2.trans i3, fun a b => (h3 a b).trans ?_⟩
      have hfind : ∀ t, (addConfGroups g conf.devgroups s).findDevgroupByUid t = s.findDevgroupByUid t := fun t => by
        rw [Server.findDevgroupByUid, i3, Server.findDevgroupByUid]
      simp only [i4, hfind, List.mem_cons, exists_eq_or_imp, hf, Option.some.injEq, or_assoc, eq_comm (a := a) (b := g)]

theorem insertDevice_groups (s : Server) (d : DevId) : (s.insertDevice d).group = s.group ∧
    (s.insertDevice d).nextGroup = s.nextGroup ∧ (s.insertDevice d).allgroups = s.allgroups ∧
    (s.insertDevice d).devgroups = s.devgroups ∧ (s.insertDevice d).nextWrap = s.nextWrap := by
  simp only [Server.insertDevice]
  split
  · exact ⟨rfl, rfl, rfl, rfl, rfl⟩
  · exact ⟨rfl, rfl, rfl, rfl, rfl⟩

theorem initDevtable_groups (confs : List DeviceConf) (s : Server) : (initDevtable F confs s).group = s.group ∧
    (initDevtable F confs s).nextGroup = s.nextGroup ∧ (initDevtable F confs s).allgroups = s.allgroups ∧
    (initDevtable F confs s).devgroups = s.devgroups ∧ (initDevtable F confs s).nextWrap = s.nextWrap := by
  induction confs generalizing s with
  | nil => exact ⟨rfl, rfl, rfl, rfl, rfl⟩
  | cons conf confs ih =>
    obtain ⟨h1, h2, h3, h4, h5⟩ := ih ((s.newDevice (newDevFromConf F conf)).insertDevice s.nextDev)
    obtain ⟨i1, i2, i3, i4, i5⟩ := insertDevice_groups (s.newDevice (newDevFromConf F conf)) s.nextDev
    exact ⟨h1.trans i1, h2.trans i2, h3.trans i3, h4.trans i4, h5.trans i5⟩

/-- The devices of a configuration come without groups. -/
theorem initDevtable_table (cfg : Config) : Registry (initDevtable F cfg.device {}) ∧ GroupTable (initDevtable F cfg.device {}) ∧
    (∀ g, kids (initDevtable F cfg.device {}) g = []) ∧ ∀ t, (initDevtable F cfg.device {}).findDevgroupByUid t = none := by
  obtain ⟨hr, -⟩ := registry_initDevtable F Registry.empty Unlinked.empty cfg.device_nodup (fun _ _ => rfl)
  obtain ⟨h1, h2, h3, h4, h5⟩ := initDevtable_groups F cfg.device {}
  refine ⟨hr, GroupTable.empty.of_devs h1 h2 h3 h4 h5 (by simp), fun g => ?_, fun t => ?_⟩
  · rw [kids, h1]
    rfl
  · rw [Server.findDevgroupByUid, h4]

/-! ## The lists of the groups -/

/-- The devices of a group's member list. -/
def memberDevs (s : Server) (g : GroupId) : List DevId := (s.group g).members.map WrapDevice.dev

theorem group_addDevGroup (s : Server) (d : DevId) (g g' : GroupId) :
    ((s.addDevGroup d g).group g').name = (s.group g').name ∧
      memberDevs (s.addDevGroup d g) g' = memberDevs s g' ++ if g' = g then [d] else [] := by
  unfold memberDevs Server.addDevGroup
  rw [Server.modGroup_group]
  split
  · rename_i he
    simp [he]
  · simp

theorem group_addGroupGroup (s : Server) (g₁ g g' : GroupId) :
    ((s.addGroupGroup g₁ g).group g').name = (s.group g').name ∧ memberDevs (s.addGroupGroup g₁ g) g' = memberDevs s g' ∧
      kids (s.addGroupGroup g₁ g) g' = kids s g' ++ if g' = g then [g₁] else [] := by
  have hflat := (s.flat_addGroupGroup g₁ g).trans (s.flat_setChildren g _).symm
  have hgroup : ∀ {β : Type} (f : Group → β), (∀ gr, f { gr with subgroup := 0 } = f gr) →
      f ((s.addGroupGroup g₁ g).group g') =
        f ((s.setChildren g ((s.group g).children ++ [⟨s.nextWrap, g₁⟩], s.nextWrap + 1)).group g') :=
    fun f hf => Server.groupField f hf hflat g'
  unfold memberDevs kids
  rw [hgroup Group.name (by intro; rfl), hgroup Group.members (by intro; rfl), hgroup Group.children (by intro; rfl)]
  by_cases he : g' = g <;> simp [Server.setChildren, he]

/-- A server starts with a table of groups. -/
theorem startup_table {cfg : Config} {s : Server} (h : startup F cfg = .ok s) : GroupTable s := by
  obtain ⟨hr, ht, hk, hfresh⟩ := initDevtable_table F cfg
  obtain ⟨s₁, hs₁, rfl⟩ := Except.map_eq_ok.mp h
  obtain ⟨ht₁, -⟩ := parseDevgroups1_spec ht hr hk cfg.devgroup_nodup (fun _ _ => hfresh _) hs₁
  exact (@parseDevgroups2_spec cfg.devgroup s₁ ht₁).1

/-- The uids of a group's members, and of its children. -/
def memberUids (s : Server) (g : GroupId) : List Str := (s.group g).members.map fun w => (s.dev w.dev).uid
def childUids (s : Server) (g : GroupId) : List Str := (s.group g).children.map fun w => (s.group w.group).uid

theorem memberUids_eq (s : Server) (g : GroupId) : memberUids s g = (memberDevs s g).map fun d => (s.dev d).uid := by
  rw [memberUids, memberDevs, List.map_map]
  rfl

theorem childUids_eq (s : Server) (g : GroupId) : childUids s g = (kids s g).map fun g' => (s.group g').uid := by
  rw [childUids, kids, List.map_map]
  rfl

theorem GroupTable.uid_inj {s : Server} (h : GroupTable s) {g g' : GroupId} (hg : g ∈ s.allgroups) (hg' : g' ∈ s.allgroups)
    (he : (s.group g).uid = (s.group g').uid) : g = g' := by
  have h1 := (h.found _ g).mpr ⟨hg, he⟩
  have h2 := (h.found _ g').mpr ⟨hg', rfl⟩
  rw [h1, Option.some.injEq] at h2
  exact h2

/-- The groups of a list that are known join the children of a group; all else stays. -/
theorem addGroups_spec {s : Server} (h : GroupTable s) {g : GroupId} (hg : g ∈ s.allgroups) (ps : List Str) :
    GroupTable (addGroups g ps s) ∧ (addGroups g ps s).allgroups = s.allgroups ∧ (addGroups g ps s).devgroups = s.devgroups ∧
      ∀ g', ((addGroups g ps s).group g').name = (s.group g').name ∧ memberDevs (addGroups g ps s) g' = memberDevs s g' ∧
        ∀ b, b ∈ kids (addGroups g ps s) g' ↔ b ∈ kids s g' ∨ g' = g ∧ ∃ p ∈ ps, s.findDevgroupByUid p = some b := by
  induction ps generalizing s with
  | nil => exact ⟨h, rfl, rfl, fun g' => ⟨rfl, rfl, fun b => by simp [addGroups]⟩⟩
  | cons p ps ih =>
    unfold addGroups
    cases hf : s.findDevgroupByUid p with
    | none =>
      obtain ⟨h1, h2, h3, h4⟩ := ih h hg
      refine ⟨h1, h2, h3, fun g' => ⟨(h4 g').1, (h4 g').2.1, fun b => ((h4 g').2.2 b).trans ?_⟩⟩
      simp [hf]
    | some g₁ =>
      have hin : s.groupInGroup g₁ g = true ↔ g₁ ∈ kids s g := by
        simp [Server.groupInGroup, kids]
      dsimp only
      split
      · rename_i hk
        obtain ⟨h1, h2, h3, h4⟩ := ih h hg
        refine ⟨h1, h2, h3, fun g' => ⟨(h4 g').1, (h4 g').2.1, fun b => ((h4 g').2.2 b).trans ?_⟩⟩
        simp only [List.mem_cons, exists_eq_or_imp, hf, Option.some.injEq, and_or_left]
        refine ⟨fun hb => hb.imp_right Or.inr, ?_⟩
        rintro (hb | ⟨rfl, rfl⟩ | hb)
        · exact Or.inl hb
        · exact Or.inl (hin.mp hk)
        · exact Or.inr hb
      · obtain ⟨h1, h2, h3, h4⟩ := ih (h.addGroupGroup hg ((h.found p g₁).mp hf).1) hg
        refine ⟨h1, h2, h3, fun g' => ?_⟩
        obtain ⟨i1, i2, i3⟩ := group_addGroupGroup s g₁ g g'
        refine ⟨(h4 g').1.trans i1, (h4 g').2.1.trans i2, fun b => ((h4 g').2.2 b).trans ?_⟩
        have hfind : ∀ p, (s.addGroupGroup g₁ g).findDevgroupByUid p = s.findDevgroupByUid p := fun _ => rfl
        rw [i3]
        simp only [hfind, List.mem_append, List.mem_cons, exists_eq_or_imp, hf, Option.some.injEq, and_or_left, or_assoc]
        refine or_congr_right (or_congr_left ?_)
        split
        · rename_i he
          simp [he, eq_comm]
        · rename_i he
          simp [he]

/-- The devices of a list that are known join the members of a group; all else stays. -/
theorem addDevs_spec {s : Server} (h : GroupTable s) (hr : Registry s) {g : GroupId} (hg : g ∈ s.allgroups) (ps : List Str) :
    GroupTable (addDevs g ps s) ∧ (addDevs g ps s).allgroups = s.allgroups ∧ (addDevs g ps s).devgroups = s.devgroups ∧
      ∀ g', ((addDevs g ps s).group g').name = (s.group g').name ∧ kids (addDevs g ps s) g' = kids s g' ∧
        ∀ d, d ∈ memberDevs (addDevs g ps s) g' ↔ d ∈ memberDevs s g' ∨ g' = g ∧ ∃ p ∈ ps, s.findDeviceByUid p = some d := by
  induction ps generalizing s with
  | nil => exact ⟨h, rfl, rfl, fun g' => ⟨rfl, rfl, fun d => by simp [addDevs]⟩⟩
  | cons p ps ih =>
    unfold addDevs
    cases hf : s.findDeviceByUid p with
    | none =>
      obtain ⟨h1, h2, h3, h4⟩ := ih h hr hg
      refine ⟨h1, h2, h3, fun g' => ⟨(h4 g').1, (h4 g').2.1, fun d => ((h4 g').2.2 d).trans ?_⟩⟩
      simp [hf]
    | some d₁ =>
      have hin : s.devInGroup d₁ g = true ↔ d₁ ∈ memberDevs s g := by
        simp [Server.devInGroup, memberDevs]
      dsimp only
      split
      · rename_i hk
        obtain ⟨h1, h2, h3, h4⟩ := ih h hr hg
        refine ⟨h1, h2, h3, fun g' => ⟨(h4 g').1, (h4 g').2.1, fun d => ((h4 g').2.2 d).trans ?_⟩⟩
        simp only [List.mem_cons, exists_eq_or_imp, hf, Option.some.injEq, and_or_left]
        refine ⟨fun hd => hd.imp_right Or.inr, ?_⟩
        rintro (hd | ⟨rfl, rfl⟩ | hd)
        · exact Or.inl hd
        · exact Or.inl (hin.mp hk)
        · exact Or.inr hd
      · obtain ⟨h1, h2, h3, h4⟩ := ih (h.addDevGroup hg ((hr.found p d₁).mp hf).1) (hr.onlyGroups (onlyGroups_addDevGroup s d₁ g)) hg
        refine ⟨h1, h2, h3, fun g' => ?_⟩
        obtain ⟨i1, i2⟩ := group_addDevGroup s d₁ g g'
        refine ⟨(h4 g').1.trans i1, (h4 g').2.1.trans (congrFun (kids_addDevGroup s d₁ g) g'),
          fun d => ((h4 g').2.2 d).trans ?_⟩
        have hfind : ∀ p, (s.addDevGroup d₁ g).findDeviceByUid p = s.findDeviceByUid p := fun _ => rfl
        rw [i2]
        simp only [hfind, List.mem_append, List.mem_cons, exists_eq_or_imp, hf, Option.some.injEq, and_or_left, or_assoc]
        refine or_congr_right (or_congr_left ?_)
        split
        · rename_i he
          simp [he, eq_comm]
        · rename_i he
          simp [he]

end Gnhast
