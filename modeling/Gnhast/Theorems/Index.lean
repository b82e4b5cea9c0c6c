import Gnhast.Theorems.Groups

/-!
# The lists and the trees

Every device is on the list of all devices and in the tree by uid, and every group likewise. Three paths insert devices and two insert
groups, each with a search of its own before it; none of them, and no other command, ever takes a node out or changes its key.
-/

namespace Gnhast

open CStr Runs

variable (F : Doubles)

/-- A list and a tree that hold the same nodes, each under a key of its own. -/
structure Indexed {κ : Type} (list : List Nat) (tree : κ → Option Nat) (key : Nat → κ) : Prop where
  nodup : list.Nodup
  same : ∀ n, n ∈ list ↔ ∃ k, tree k = some n
  keyed : ∀ k n, tree k = some n → key n = k
  distinct : ∀ n ∈ list, ∀ m ∈ list, key n = key m → n = m

theorem Indexed.of_found {κ : Type} {list : List Nat} {tree : κ → Option Nat} {key : Nat → κ} (hn : list.Nodup)
    (hf : ∀ k n, tree k = some n ↔ n ∈ list ∧ key n = k) : Indexed list tree key := by
  refine ⟨hn, fun n => ⟨fun h => ⟨key n, (hf _ n).mpr ⟨h, rfl⟩⟩, ?_⟩, fun k n h => ((hf k n).mp h).2, ?_⟩
  · rintro ⟨k, h⟩
    exact ((hf k n).mp h).1
  · intro n h m h' he
    have h1 := (hf _ n).mpr ⟨h, he⟩
    rw [(hf _ m).mpr ⟨h', rfl⟩, Option.some.injEq] at h1
    exact h1.symm

/-- The devices and the groups of a server. -/
structure RegistryIndexed (s : Server) : Prop where
  devices : Indexed s.alldevs s.findDeviceByUid fun d => (s.dev d).uid
  count : s.nrofdevs = s.alldevs.length
  groups : Indexed s.allgroups s.findDevgroupByUid fun g => (s.group g).uid

/-- What one state holds, another holds too, under the same uids. -/
structure Retains (s s' : Server) : Prop where
  devices : ∀ d ∈ s.alldevs, d ∈ s'.alldevs ∧ (s'.dev d).uid = (s.dev d).uid
  groups : ∀ g ∈ s.allgroups, g ∈ s'.allgroups ∧ (s'.group g).uid = (s.group g).uid

theorem Retains.refl (s : Server) : Retains s s := ⟨fun _ h => ⟨h, rfl⟩, fun _ h => ⟨h, rfl⟩⟩

theorem Retains.trans {s s' s'' : Server} (h : Retains s s') (h' : Retains s' s'') : Retains s s'' := by
  refine ⟨fun d hd => ?_, fun g hg => ?_⟩
  · obtain ⟨h1, h2⟩ := h.devices d hd
    obtain ⟨h3, h4⟩ := h'.devices d h1
    exact ⟨h3, h4.trans h2⟩
  · obtain ⟨h1, h2⟩ := h.groups g hg
    obtain ⟨h3, h4⟩ := h'.groups g h1
    exact ⟨h3, h4.trans h2⟩

/-- The number of devices is the length of their list. -/
def Counted (s : Server) : Prop := s.nrofdevs = s.alldevs.length

/-- A device that joins the list is counted. -/
theorem counted_act {e : Event} {s s' : Server} (h : Counted s) (ha : Act F e s s') : Counted s' := by
  unfold Counted at *
  cases ha with
  | none | connect | modify | watch => exact h
  | create hl hu hf hc =>
    rw [create_eq hf rfl]
    simp [h]
  | claim hl hu hf =>
    rw [claimDevice_frame]
    exact h
  | regroup hl => rw [onlyGroups_cmdRegisterGroup, h]
  | track hl hf ht =>
    rw [track_eq hf ht.onqAll]
    simp [h]
  | close | drained =>
    rw [bufErrorCb_frame]
    exact h

theorem counted_step {s s' : Server} {e : Event} (h : Counted s) (hs : step F s e = some s') : Counted s' := by
  obtain ⟨s₁, s₂, h1, ha, h2⟩ := (does_step F hs).2
  have hc : Counted s₁ := by
    unfold Counted
    rw [h1.frame]
    exact h
  have hc₂ := counted_act F hc ha
  unfold Counted
  rw [h2.frame]
  exact hc₂

theorem counted_initDevtable {confs : List DeviceConf} {s : Server} (h : Counted s) : Counted (initDevtable F confs s) := by
  induction confs generalizing s with
  | nil => exact h
  | cons conf confs ih =>
    have hq : (newDevFromConf F conf).onqAll = false := congrArg Device.onqAll (links_newDevFromConf F conf)
    refine ih (s := (s.newDevice (newDevFromConf F conf)).insertDevice s.nextDev) ?_
    unfold Counted at *
    simp [Server.insertDevice, Server.newDevice, Server.modDev, hq, h]

theorem startup_counted {cfg : Config} {s : Server} (h : startup F cfg = .ok s) : Counted s := by
  have hc : Counted (initDevtable F cfg.device {}) := counted_initDevtable F rfl
  unfold Counted at *
  rw [onlyGroups_parseDevgroups h, hc]

/-- No step takes a device or a group away. -/
theorem retains_step {s s' : Server} {e : Event} (hr : Registry s) (ht : GroupTable s) (h : step F s e = some s') :
    Retains s s' := by
  refine ⟨fun d hd => ⟨?_, uid_step F hr h hd⟩, fun g hg => groups_step F ht h hg⟩
  obtain hs | ⟨hs, -⟩ := alldevs_step F h
  · rwa [hs]
  · rw [hs]
    exact List.mem_append_left _ hd

/-- From every configuration and over every run, the lists and the trees hold the same devices and groups, each under an uid of its
own, the devices are counted, and a run keeps all that is there. -/
theorem registry_indexed {cfg : Config} {s₀ s s' : Server} {es es' : List Event} (h : startup F cfg = .ok s₀)
    (hs : exec (step F) s₀ es = some s) (hs' : exec (step F) s es' = some s') : RegistryIndexed s' ∧ Retains s s' := by
  have htables := tables_reachable F h hs
  have hcount : Counted s := exec_induct (fun _ _ _ hI hst => counted_step F hI hst) (startup_counted F h) hs
  obtain ⟨⟨hr, ht⟩, hc, hret⟩ : (Registry s' ∧ GroupTable s') ∧ Counted s' ∧ Retains s s' :=
    exec_induct (I := fun s' => (Registry s' ∧ GroupTable s') ∧ Counted s' ∧ Retains s s')
      (fun _ _ _ hI hst => ⟨⟨registry_step F hI.1.1 hst, groupTable_step F hI.1.2 hI.1.1 hst⟩, counted_step F hI.2.1 hst,
        hI.2.2.trans (retains_step F hI.1.1 hI.1.2 hst)⟩)
      ⟨htables, hcount, Retains.refl s⟩ hs'
  exact ⟨⟨.of_found hr.nodup hr.found, hc, .of_found ht.nodup ht.found⟩, hret⟩

/-- A client registers a lamp and then a group that holds it. -/
theorem registry_indexed_lamp : ∃ s s',
    exec (step Doubles.exact) {}
      [.accept 0 10 0 0 1, .line 0 (str "reg uid:lamp name:\"Lamp\" proto:1 devt:1 subt:1") {}] = some s ∧
    exec (step Doubles.exact) s [.line 0 (str "regg uid:attic name:Attic devlist:lamp") {}] = some s' ∧
    RegistryIndexed s' ∧ Retains s s' :=
  ⟨_, _, rfl, rfl, @registry_indexed Doubles.exact {} {} _ _
    [.accept 0 10 0 0 1, .line 0 (str "reg uid:lamp name:\"Lamp\" proto:1 devt:1 subt:1") {}]
    [.line 0 (str "regg uid:attic name:Attic devlist:lamp") {}] rfl rfl rfl⟩

end Gnhast
