import Gnhast.Lemmas.Steps
import Gnhast.Confparser

/-!
# The device registry

The list of all devices and the tree by uid hold the same devices, and the next addresses are free. Every step keeps this.
Here too is what the operations on devices and the end of a connection do to the records, field by field.
-/

namespace Gnhast

open CStr

variable (F : Doubles)

/-! ## New devices -/

/-- A device that is on no list and whose uid is not known goes on the list of all devices and into the tree. -/
theorem Server.insertDevice_new {s : Server} {d : DevId} (hf : s.findDeviceByUid (s.dev d).uid = none)
    (hq : (s.dev d).onqAll = false) :
    s.insertDevice d = { s with
      devices := Function.update s.devices (s.dev d).uid (some d), nrofdevs := s.nrofdevs + 1, alldevs := s.alldevs ++ [d]
      dev := Function.update s.dev d { s.dev d with onqAll := true, nodata := true } } := by
  have hf : s.devices (s.dev d).uid = none := hf
  simp [insertDevice, treeInsert, hf, hq, modDev]

theorem Server.newDevice_dev (s : Server) (dev : Device) (d : DevId) :
    (s.newDevice dev).dev d = if d = s.nextDev then dev else s.dev d := by
  by_cases h : d = s.nextDev <;> simp [newDevice, h]

/-- Claiming a device writes its collector and its mark, and the list and the provider flag of the client. -/
theorem claimDevice_dev (s : Server) (d d' : DevId) (c : ClientId) :
    (claimDevice s d c).dev d' = if d' = d then { s.dev d with collector := some c, onqClient := true } else s.dev d' := by
  unfold claimDevice
  by_cases hd : d' = d
  · subst hd
    by_cases hq : (s.dev d').onqClient = true
    · by_cases he : (s.client c).devices = [] <;> simp [Server.modDev, Server.modClient, he, hq]
    · by_cases he : (s.client c).devices = [] <;> simp [Server.modDev, Server.modClient, he, hq]
  · by_cases hq : (s.dev d).onqClient = true
    · by_cases he : (s.client c).devices = [] <;> simp [Server.modDev, Server.modClient, he, hq, hd]
    · by_cases he : (s.client c).devices = [] <;> simp [Server.modDev, Server.modClient, he, hq, hd]

theorem claimDevice_client (s : Server) (d : DevId) (c c' : ClientId) :
    (claimDevice s d c).client c' = if c' = c then
      { s.client c with
        provider := if (s.client c).devices = [] then true else (s.client c).provider
        devices := if (s.dev d).onqClient then (s.client c).devices else (s.client c).devices ++ [d] }
      else s.client c' := by
  unfold claimDevice
  by_cases hc : c' = c
  · subst hc
    by_cases hq : (s.dev d).onqClient = true
    · by_cases he : (s.client c').devices = [] <;> simp [Server.modDev, Server.modClient, he, hq]
    · by_cases he : (s.client c').devices = [] <;> simp [Server.modDev, Server.modClient, he, hq]
  · by_cases hq : (s.dev d).onqClient = true
    · by_cases he : (s.client c).devices = [] <;> simp [Server.modDev, Server.modClient, he, hq, hc]
    · by_cases he : (s.client c).devices = [] <;> simp [Server.modDev, Server.modClient, he, hq, hc]

theorem claimDevice_frame (s : Server) (d : DevId) (c : ClientId) :
    claimDevice s d c = { s with dev := (claimDevice s d c).dev, client := (claimDevice s d c).client } := by
  unfold claimDevice
  by_cases hq : (s.dev d).onqClient = true
  · by_cases he : (s.client c).devices = [] <;> simp [Server.modDev, Server.modClient, he, hq]
  · by_cases he : (s.client c).devices = [] <;> simp [Server.modDev, Server.modClient, he, hq]

/-! ## The end of a connection -/

/-- What the end of a connection does to a device: the client no longer watches it, and no longer collects it. -/
def Device.unlink (dev : Device) (c : ClientId) (watched lost : Bool) : Device :=
  { dev with
    watchers := if watched then dev.watchers.filter (fun c' => c' ≠ c) else dev.watchers
    collector := if lost then none else dev.collector
    onqClient := if lost then false else dev.onqClient }

theorem unwatch_dev (c : ClientId) (ds : List DevId) (s : Server) (d : DevId) :
    (unwatch c ds s).dev d = (s.dev d).unlink c (decide (d ∈ ds)) false := by
  induction ds generalizing s with
  | nil => rfl
  | cons d' ds ih =>
    rw [unwatch, ih]
    by_cases he : d = d'
    · subst he
      by_cases hm : d ∈ ds <;> simp [Server.modDev, Server.modClient, Device.unlink, hm, List.filter_filter]
    · simp [Server.modDev, Server.modClient, he]

theorem unwatch_client (c : ClientId) (ds : List DevId) (s : Server) (c' : ClientId) :
    ((unwatch c ds s).client c').core = (s.client c').core := by
  induction ds generalizing s with
  | nil => rfl
  | cons d ds ih =>
    rw [unwatch, ih]
    by_cases he : c' = c
    · subst he
      simp [Server.modDev, Server.modClient, Client.core]
    · simp [Server.modDev, Server.modClient, he]

theorem unwatch_frame (c : ClientId) (ds : List DevId) (s : Server) :
    unwatch c ds s = { s with dev := (unwatch c ds s).dev, client := (unwatch c ds s).client } := by
  induction ds generalizing s with
  | nil => rfl
  | cons d ds ih =>
    rw [unwatch, ih]
    rfl

theorem disown_dev (ds : List DevId) (s : Server) (c : ClientId) (d : DevId) :
    (disown ds s).dev d = (s.dev d).unlink c false (decide (d ∈ ds)) := by
  induction ds generalizing s with
  | nil => rfl
  | cons d' ds ih =>
    rw [disown, ih]
    by_cases he : d = d'
    · subst he
      by_cases hm : d ∈ ds <;> simp [Server.modDev, Device.unlink, hm]
    · simp [Server.modDev, he]

theorem disown_frame (ds : List DevId) (s : Server) : disown ds s = { s with dev := (disown ds s).dev } := by
  induction ds generalizing s with
  | nil => rfl
  | cons d ds ih =>
    rw [disown, ih]
    rfl

/-- The devices a client loses when its connection ends. -/
def Server.lost (s : Server) (c : ClientId) : List DevId := if (s.client c).provider then (s.client c).devices else []

/-- The middle of `buf_error_cb`: the client's devices lose their collector, and the client its devices. -/
def disownAll (c : ClientId) (s : Server) : Server :=
  if (s.client c).provider then (disown (s.client c).devices s).modClient c fun cl => { cl with devices := [] } else s

theorem disownAll_dev (c : ClientId) (s : Server) (d : DevId) :
    (disownAll c s).dev d = (s.dev d).unlink c false (decide (d ∈ s.lost c)) := by
  unfold disownAll Server.lost
  split
  · exact disown_dev _ s c d
  · rfl

theorem disownAll_client (c : ClientId) (s : Server) (c' : ClientId) :
    (disownAll c s).client c' =
      if c' = c ∧ (s.client c).provider = true then { s.client c' with devices := [] } else s.client c' := by
  unfold disownAll
  by_cases hp : (s.client c).provider = true
  · simp only [hp, if_true, and_true]
    rw [Server.modClient_client, disown_frame]
    split
    · rename_i he
      rw [he]
    · rfl
  · simp [hp]

theorem disownAll_frame (c : ClientId) (s : Server) :
    disownAll c s = { s with dev := (disownAll c s).dev, client := (disownAll c s).client } := by
  unfold disownAll
  split
  · rw [disown_frame]
    rfl
  · rfl

/-- `buf_error_cb` up to the data of a tracking device and the client's feeds. -/
theorem bufErrorCb_quiet (env : Env) (c : ClientId) (s : Server) :
    ∃ s₁, Quiet s s₁ ∧ Quiet { disownAll c (unwatch c s₁.alldevs s₁) with clients := s₁.clients.erase c }
      (bufErrorCb F env c s) := by
  refine ⟨storeCollDev F c (intWord env collectorBad) s, quiet_storeCollDev F c _ s, ?_⟩
  unfold bufErrorCb
  dsimp only
  generalize storeCollDev F c (intWord env collectorBad) s = s₁
  have hcl : (disownAll c (unwatch c s₁.alldevs s₁)).clients = s₁.clients := by
    rw [disownAll_frame, unwatch_frame]
  rw [← hcl]
  refine ⟨fun _ => rfl, fun c' => ?_, rfl⟩
  exact (Quiet.modClient (disownAll c (unwatch c s₁.alldevs s₁)) c (f := fun cl => { cl with wdevices := [] }) rfl).client c'

/-- A field that is part of the core is the same in clients with one core. -/
theorem Client.field_of_core {β : Type} (g : Client → β) (hg : ∀ c, g c.core = g c) {c c' : Client} (h : c.core = c'.core) :
    g c = g c' := by
  rw [← hg, h, hg]

theorem Device.unlink_congr {dev dev' : Device} (h : dev.core = dev'.core) (c : ClientId) (w l : Bool) :
    (dev.unlink c w l).core = (dev'.unlink c w l).core := by
  have hc : ∀ dev : Device, (dev.unlink c w l).core = (dev.core.unlink c w l).core := fun _ => rfl
  rw [hc, h, ← hc]

theorem Device.unlink_unlink (dev : Device) (c : ClientId) (w l : Bool) :
    (dev.unlink c w false).unlink c false l = dev.unlink c w l := by
  cases w <;> cases l <;> rfl

theorem lost_congr {s s' : Server} {c : ClientId} (h : (s'.client c).core = (s.client c).core) : s'.lost c = s.lost c := by
  rw [Server.lost, Server.lost, Client.field_of_core Client.provider (fun _ => rfl) h,
    Client.field_of_core Client.devices (fun _ => rfl) h]

/-- What `buf_error_cb` does to a device. -/
theorem bufErrorCb_dev (env : Env) (c : ClientId) (s : Server) (d : DevId) :
    ((bufErrorCb F env c s).dev d).core = ((s.dev d).unlink c (decide (d ∈ s.alldevs)) (decide (d ∈ s.lost c))).core := by
  obtain ⟨s₁, hq, hq'⟩ := bufErrorCb_quiet F env c s
  have hlost : (unwatch c s₁.alldevs s₁).lost c = s.lost c := lost_congr ((unwatch_client c s₁.alldevs s₁ c).trans (hq.client c))
  refine (hq'.dev d).trans ?_
  rw [show ∀ cs, ({ disownAll c (unwatch c s₁.alldevs s₁) with clients := cs } : Server).dev d =
    (disownAll c (unwatch c s₁.alldevs s₁)).dev d from fun _ => rfl, disownAll_dev, unwatch_dev, Device.unlink_unlink, hlost,
    hq.alldevs]
  exact Device.unlink_congr (hq.dev d) c _ _

/-- What it does to a client. -/
theorem bufErrorCb_client (env : Env) (c : ClientId) (s : Server) (c' : ClientId) :
    ((bufErrorCb F env c s).client c').core =
      (if c' = c ∧ (s.client c).provider = true then { s.client c' with devices := [] } else s.client c').core := by
  obtain ⟨s₁, hq, hq'⟩ := bufErrorCb_quiet F env c s
  have hcore := fun c' => (unwatch_client c s₁.alldevs s₁ c').trans (hq.client c')
  have hp := Client.field_of_core Client.provider (fun _ => rfl) (hcore c)
  refine (hq'.client c').trans ?_
  rw [show ∀ cs, ({ disownAll c (unwatch c s₁.alldevs s₁) with clients := cs } : Server).client c' =
    (disownAll c (unwatch c s₁.alldevs s₁)).client c' from fun _ => rfl, disownAll_client, hp]
  split
  · have hc : ∀ cl : Client, ({ cl with devices := [] } : Client).core = ({ cl.core with devices := [] } : Client).core :=
      fun _ => rfl
    rw [hc, hcore, ← hc]
  · exact hcore c'

theorem bufErrorCb_frame (env : Env) (c : ClientId) (s : Server) :
    bufErrorCb F env c s = { s with
      dev := (bufErrorCb F env c s).dev, client := (bufErrorCb F env c s).client, clients := s.clients.erase c
      alarms := (bufErrorCb F env c s).alarms } := by
  obtain ⟨s₁, hq, hq'⟩ := bufErrorCb_quiet F env c s
  have hm : disownAll c (unwatch c s₁.alldevs s₁) = { s₁ with
      dev := (disownAll c (unwatch c s₁.alldevs s₁)).dev, client := (disownAll c (unwatch c s₁.alldevs s₁)).client } := by
    rw [disownAll_frame, unwatch_frame]
  generalize bufErrorCb F env c s = s' at hq'
  rw [hq'.frame, hm, hq.frame]

/-! ## The registry -/

/-- The list of all devices is the tree by uid, and the next addresses are free. -/
structure Registry (s : Server) : Prop where
  nodup : s.alldevs.Nodup
  below : ∀ d ∈ s.alldevs, d < s.nextDev
  found : ∀ uid d, s.findDeviceByUid uid = some d ↔ d ∈ s.alldevs ∧ (s.dev d).uid = uid
  clients_below : ∀ c ∈ s.clients, c < s.nextClient

namespace Registry

variable {s s' : Server}

theorem empty : Registry {} := ⟨List.nodup_nil, by simp, by simp [Server.findDeviceByUid], by simp⟩

theorem notMem (h : Registry s) : s.nextDev ∉ s.alldevs := fun hm => Nat.lt_irrefl _ (h.below _ hm)

theorem uid_inj (h : Registry s) {d d' : DevId} (hd : d ∈ s.alldevs) (hd' : d' ∈ s.alldevs)
    (hu : (s.dev d).uid = (s.dev d').uid) : d = d' := by
  have h1 := (h.found _ d).mpr ⟨hd, hu⟩
  have h2 := (h.found _ d').mpr ⟨hd', rfl⟩
  exact Option.some.inj (h1.symm.trans h2)

/-- What keeps the lists, the tree and the uids keeps the registry. -/
theorem of_same (h : Registry s) (hn : s'.nextDev = s.nextDev) (ha : s'.alldevs = s.alldevs) (hd : s'.devices = s.devices)
    (hu : ∀ d, (s'.dev d).uid = (s.dev d).uid) (hc : ∀ c ∈ s'.clients, c < s'.nextClient) : Registry s' := by
  refine ⟨ha ▸ h.nodup, ?_, ?_, hc⟩
  · rw [ha, hn]
    exact h.below
  · intro uid d
    rw [Server.findDeviceByUid, hd, ha, hu]
    exact h.found uid d

theorem quiet (h : Registry s) (hq : Quiet s s') : Registry s' :=
  h.of_same hq.nextDev hq.alldevs hq.devices hq.uid (by rw [hq.clients, hq.nextClient]; exact h.clients_below)

theorem onlyGroups (h : Registry s) (hg : OnlyGroups s s') : Registry s' :=
  h.of_same hg.nextDev hg.alldevs hg.devices (fun d => by rw [hg.dev]) (by rw [hg.clients, hg.nextClient]; exact h.clients_below)

theorem connect (h : Registry s) (cl : Client) : Registry (s.connect cl) := by
  refine h.of_same rfl rfl rfl (fun _ => rfl) (fun c hc => ?_)
  rcases List.mem_append.mp hc with hc | hc
  · exact Nat.lt_succ_of_lt (h.clients_below c hc)
  · rw [List.mem_singleton.mp hc]
    exact Nat.lt_succ_self _

theorem modDev (h : Registry s) {d : DevId} {f : Device → Device} (hf : (f (s.dev d)).uid = (s.dev d).uid) :
    Registry (s.modDev d f) := by
  refine h.of_same rfl rfl rfl (fun d' => ?_) h.clients_below
  rw [Server.modDev_dev]
  split
  · rename_i he
    rw [hf, he]
  · rfl

theorem claimDevice (h : Registry s) (d : DevId) (c : ClientId) : Registry (claimDevice s d c) := by
  have hfr := claimDevice_frame s d c
  refine h.of_same (by rw [hfr]) (by rw [hfr]) (by rw [hfr]) (fun d' => ?_) (by rw [hfr]; exact h.clients_below)
  rw [claimDevice_dev]
  split
  · rename_i he
    rw [he]
  · rfl

/-- A device at the next free address whose uid is not known is added to the registry. -/
theorem insert (h : Registry s) (dev : Device) (hf : s.findDeviceByUid dev.uid = none) (cl : ClientId → Client) (n : Nat) :
    Registry { s with
      dev := Function.update s.dev s.nextDev dev, client := cl, nextDev := s.nextDev + 1, nrofdevs := n
      alldevs := s.alldevs ++ [s.nextDev], devices := Function.update s.devices dev.uid (some s.nextDev) } := by
  have hne : ∀ d ∈ s.alldevs, d ≠ s.nextDev := fun d hd he => h.notMem (he ▸ hd)
  refine ⟨?_, ?_, ?_, h.clients_below⟩
  · exact List.nodup_append.mpr ⟨h.nodup, List.nodup_singleton _, fun a ha b hb => by
      rw [List.mem_singleton.mp hb]
      exact hne a ha⟩
  · intro d hd
    rcases List.mem_append.mp hd with hd | hd
    · exact Nat.lt_succ_of_lt (h.below d hd)
    · rw [List.mem_singleton.mp hd]
      exact Nat.lt_succ_self _
  · intro uid d
    have hfound := h.found uid d
    simp only [Server.findDeviceByUid, Function.update_apply, List.mem_append, List.mem_singleton] at hfound ⊢
    split
    · rename_i hu
      constructor
      · intro he
        cases he
        exact ⟨Or.inr rfl, by rw [if_pos rfl, hu]⟩
      · rintro ⟨hd | hd, hu'⟩
        · rw [if_neg (hne d hd)] at hu'
          have := hfound.mpr ⟨hd, hu'⟩
          rw [hu, show s.devices dev.uid = none from hf] at this
          cases this
        · rw [hd]
    · rename_i hu
      rw [hfound]
      constructor
      · rintro ⟨hd, hu'⟩
        exact ⟨Or.inl hd, by rw [if_neg (hne d hd), hu']⟩
      · rintro ⟨hd | hd, hu'⟩
        · rw [if_neg (hne d hd)] at hu'
          exact ⟨hd, hu'⟩
        · rw [if_pos hd] at hu'
          exact absurd hu'.symm hu

theorem bufErrorCb (h : Registry s) (env : Env) (c : ClientId) : Registry (bufErrorCb F env c s) := by
  have hfr := bufErrorCb_frame F env c s
  refine h.of_same (by rw [hfr]) (by rw [hfr]) (by rw [hfr]) (fun d => ?_) ?_
  · have := congrArg Device.uid (bufErrorCb_dev F env c s d)
    exact this
  · rw [hfr]
    exact fun c' hc' => h.clients_below c' (List.mem_of_mem_erase hc')

end Registry

/-- A `reg` command that creates a device leaves it on the list of all devices and in the tree. -/
theorem create_eq {s : Server} {dev : Device} {c : ClientId} (hf : s.findDeviceByUid dev.uid = none) (hq : dev.onqAll = false) :
    (claimDevice (s.newDevice dev) s.nextDev c).insertDevice s.nextDev = { s with
      dev := Function.update s.dev s.nextDev
        { dev with collector := some c, onqClient := true, onqAll := true, nodata := true }
      client := (claimDevice (s.newDevice dev) s.nextDev c).client
      nextDev := s.nextDev + 1, nrofdevs := s.nrofdevs + 1, alldevs := s.alldevs ++ [s.nextDev]
      devices := Function.update s.devices dev.uid (some s.nextDev) } := by
  have hd := claimDevice_dev (s.newDevice dev) s.nextDev s.nextDev c
  rw [if_pos rfl, Server.newDevice_dev, if_pos rfl] at hd
  have hfr := claimDevice_frame (s.newDevice dev) s.nextDev c
  rw [Server.insertDevice_new, hd, hfr]
  · congr 1
    funext d
    by_cases he : d = s.nextDev
    · simp [he]
    · simp [he, claimDevice_dev, Server.newDevice]
  · rw [hd, hfr]
    exact hf
  · rw [hd]
    exact hq

/-- A tracking device goes on the list of all devices and into the tree. -/
theorem track_eq {s : Server} {dev : Device} (hf : s.findDeviceByUid dev.uid = none) (hq : dev.onqAll = false) :
    (s.newDevice dev).insertDevice s.nextDev = { s with
      dev := Function.update s.dev s.nextDev { dev with onqAll := true, nodata := true }
      nextDev := s.nextDev + 1, nrofdevs := s.nrofdevs + 1, alldevs := s.alldevs ++ [s.nextDev]
      devices := Function.update s.devices dev.uid (some s.nextDev) } := by
  have hd := Server.newDevice_dev s dev s.nextDev
  rw [if_pos rfl] at hd
  rw [Server.insertDevice_new, hd]
  · simp only [Server.newDevice, Function.update_idem]
  · rw [hd]
    exact hf
  · rw [hd]
    exact hq

theorem registry_act {e : Event} {s s' : Server} (h : Registry s) (ha : Act F e s s') : Registry s' := by
  cases ha with
  | none => exact h
  | connect hp hd hh => exact h.connect _
  | create hl hu hf hd =>
    rw [create_eq hf rfl]
    exact h.insert _ hf _ _
  | claim hl hu hf => exact (h.modDev rfl).claimDevice _ _
  | regroup hl => exact h.onlyGroups (onlyGroups_cmdRegisterGroup _ _ s)
  | modify hl hf hm => exact h.modDev hm.uid
  | watch hl hf => exact (h.modDev rfl).quiet (Quiet.modClient _ _ rfl)
  | @track _ _ _ _ _ dev hl hf ht =>
    rw [track_eq hf ht.onqAll]
    exact h.insert { dev with onqAll := true, nodata := true } hf _ _
  | close => exact h.bufErrorCb F _ _
  | drained => exact h.bufErrorCb F _ _

theorem registry_does {e : Event} {s s' : Server} (h : Registry s) (hd : Does F e s s') : Registry s' := by
  obtain ⟨s₁, s₂, h1, ha, h2⟩ := hd
  exact (registry_act F (h.quiet h1) ha).quiet h2

theorem registry_step {s s' : Server} {e : Event} (h : Registry s) (hs : step F s e = some s') : Registry s' :=
  registry_does F h (does_step F hs).2

/-- A server with one device. -/
def oneDevice (dev : Device) : Server := (({} : Server).newDevice dev).insertDevice 0

theorem registry_oneDevice {dev : Device} (hq : dev.onqAll = false) : Registry (oneDevice dev) := by
  have h := Registry.empty.insert { dev with onqAll := true, nodata := true } rfl ({} : Server).client 1
  have he := @track_eq {} dev rfl hq
  rw [oneDevice, show (0 : DevId) = ({} : Server).nextDev from rfl, he]
  exact h

/-! ## What a step does to a device -/

/-- A device keeps its uid, its type, protocol and subtype, and a name if it has one. -/
structure Keeps (dev dev' : Device) : Prop where
  uid : dev'.uid = dev.uid
  type : dev'.type = dev.type
  proto : dev'.proto = dev.proto
  subtype : dev'.subtype = dev.subtype
  name : dev.name ≠ none → dev'.name ≠ none

theorem Keeps.refl (dev : Device) : Keeps dev dev := ⟨rfl, rfl, rfl, rfl, id⟩

theorem Keeps.trans {dev dev' dev'' : Device} (h : Keeps dev dev') (h' : Keeps dev' dev'') : Keeps dev dev'' :=
  ⟨h'.uid.trans h.uid, h'.type.trans h.type, h'.proto.trans h.proto, h'.subtype.trans h.subtype, fun hn => h'.name (h.name hn)⟩

theorem Keeps.complete {dev dev' : Device} (h : Keeps dev dev') (hc : dev.Complete) : dev'.Complete :=
  ⟨h.name hc.name, h.type ▸ hc.type, h.proto ▸ hc.proto, h.subtype ▸ hc.subtype⟩

theorem Quiet.keeps {s s' : Server} (h : Quiet s s') (d : DevId) : Keeps (s.dev d) (s'.dev d) :=
  ⟨h.uid d, h.type d, h.proto d, h.subtype d, fun hn => by rwa [h.name]⟩

theorem Modified.keeps {dev dev' : Device} (h : Modified dev dev') : Keeps dev dev' :=
  ⟨h.uid, h.linkField Device.type fun _ => rfl, h.linkField Device.proto fun _ => rfl, h.linkField Device.subtype fun _ => rfl,
    h.name⟩

/-- A line by which a client registers an uid that is known. -/
structure Reregisters (s : Server) (e : Event) (c : ClientId) (args : List PArg) (uid : Str) (d : DevId) : Prop where
  line : ∃ text env, e = .line c text env ∧ lineCmd F text = some (.reg, args)
  arg : lastArg .uid args = some uid
  found : s.findDeviceByUid uid = some d

theorem keeps_bufErrorCb (env : Env) (c : ClientId) (s : Server) (d : DevId) :
    Keeps (s.dev d) ((bufErrorCb F env c s).dev d) := by
  have h : ∀ {β : Type} (g : Device → β), (∀ dev, g dev.core = g dev) →
      (∀ dev w l, g (Device.unlink dev c w l) = g dev) → g ((bufErrorCb F env c s).dev d) = g (s.dev d) := by
    intro β g hg hu
    rw [← hg, bufErrorCb_dev, hg, hu]
  refine ⟨h Device.uid (fun _ => rfl) (fun _ _ _ => rfl), h Device.type (fun _ => rfl) (fun _ _ _ => rfl),
    h Device.proto (fun _ => rfl) (fun _ _ _ => rfl), h Device.subtype (fun _ => rfl) (fun _ _ _ => rfl), fun hn => ?_⟩
  rw [h Device.name (fun _ => rfl) (fun _ _ _ => rfl)]
  exact hn

/-- A device keeps what it is, unless it is registered again. -/
theorem dev_act {e : Event} {s s' : Server} (hr : Registry s) (ha : Act F e s s') {d : DevId} (hd : d ∈ s.alldevs) :
    Keeps (s.dev d) (s'.dev d) ∨ ∃ c args uid, Reregisters F s e c args uid d ∧
      s'.dev d = { reregistered args (s.dev d) with collector := some c, onqClient := true } := by
  have hne : d ≠ s.nextDev := fun he => hr.notMem (he ▸ hd)
  cases ha with
  | none => exact Or.inl (Keeps.refl _)
  | connect => exact Or.inl (Keeps.refl _)
  | create hl hu hf hc =>
    rw [create_eq hf rfl]
    exact Or.inl (by simpa [hne] using Keeps.refl (s.dev d))
  | @claim c text env args _ uid d' hl hu hf =>
    by_cases he : d = d'
    · subst he
      refine Or.inr ⟨c, args, uid, ⟨⟨text, env, rfl, hl⟩, hu, hf⟩, ?_⟩
      rw [claimDevice_dev, if_pos rfl, Server.modDev_dev, if_pos rfl]
    · rw [claimDevice_dev, if_neg he, Server.modDev_dev, if_neg he]
      exact Or.inl (Keeps.refl _)
  | regroup hl =>
    rw [(onlyGroups_cmdRegisterGroup _ _ s).dev]
    exact Or.inl (Keeps.refl _)
  | @modify _ _ _ _ _ _ d' _ hl hf hm =>
    rw [Server.modDev_dev]
    split
    · rename_i he
      rw [he]
      exact Or.inl hm.keeps
    · exact Or.inl (Keeps.refl _)
  | @watch c _ _ _ _ _ d' hl hf =>
    refine Or.inl ?_
    change Keeps (s.dev d) ((s.modDev d' fun dev => { dev with watchers := dev.watchers ++ [c] }).dev d)
    rw [Server.modDev_dev]
    split
    · rename_i he
      rw [he]
      exact ⟨rfl, rfl, rfl, rfl, id⟩
    · exact Keeps.refl _
  | track hl hf ht =>
    rw [track_eq hf ht.onqAll]
    exact Or.inl (by simpa [hne] using Keeps.refl (s.dev d))
  | close => exact Or.inl (keeps_bufErrorCb F _ _ s d)
  | drained => exact Or.inl (keeps_bufErrorCb F _ _ s d)

/-- The list of all devices stays as it is, or a complete device joins it. -/
theorem alldevs_act {e : Event} {s s' : Server} (ha : Act F e s s') :
    s'.alldevs = s.alldevs ∨ (s'.alldevs = s.alldevs ++ [s.nextDev] ∧ (s'.dev s.nextDev).Complete) := by
  cases ha with
  | none => exact Or.inl rfl
  | connect => exact Or.inl rfl
  | create hl hu hf hc =>
    rw [create_eq hf rfl]
    exact Or.inr ⟨rfl, by simpa using ⟨hc.name, hc.type, hc.proto, hc.subtype⟩⟩
  | claim hl hu hf =>
    rw [claimDevice_frame]
    exact Or.inl rfl
  | regroup hl => exact Or.inl (onlyGroups_cmdRegisterGroup _ _ s).alldevs
  | modify => exact Or.inl rfl
  | watch => exact Or.inl rfl
  | track hl hf ht =>
    rw [track_eq hf ht.onqAll]
    exact Or.inr ⟨rfl, by simpa using ⟨ht.complete.name, ht.complete.type, ht.complete.proto, ht.complete.subtype⟩⟩
  | close =>
    rw [bufErrorCb_frame]
    exact Or.inl rfl
  | drained =>
    rw [bufErrorCb_frame]
    exact Or.inl rfl

/-- What a step does to a device that was there before. -/
theorem dev_step {s s' : Server} {e : Event} (hr : Registry s) (h : step F s e = some s') {d : DevId} (hd : d ∈ s.alldevs) :
    Keeps (s.dev d) (s'.dev d) ∨ ∃ c args uid, Reregisters F s e c args uid d ∧
      Keeps (reregistered args (s.dev d)) (s'.dev d) ∧ ((s'.dev d).name = lastArg .name args) := by
  obtain ⟨s₁, s₂, h1, ha, h2⟩ := (does_step F h).2
  have hd₁ : d ∈ s₁.alldevs := h1.alldevs.symm ▸ hd
  obtain hk | ⟨c, args, uid, hreg, hdev⟩ := dev_act F (hr.quiet h1) ha hd₁
  · exact Or.inl (((h1.keeps d).trans hk).trans (h2.keeps d))
  · refine Or.inr ⟨c, args, uid, ⟨hreg.line, hreg.arg, ?_⟩, ?_, ?_⟩
    · rw [← hreg.found, Server.findDeviceByUid, Server.findDeviceByUid, h1.devices]
    · refine Keeps.trans ?_ (h2.keeps d)
      rw [hdev]
      exact ⟨h1.uid d, rfl, rfl, rfl, id⟩
    · rw [h2.name, hdev]
      rfl

/-- The devices after a step are those before, and perhaps a complete one more. -/
theorem alldevs_step {s s' : Server} {e : Event} (h : step F s e = some s') :
    s'.alldevs = s.alldevs ∨ (s'.alldevs = s.alldevs ++ [s.nextDev] ∧ (s'.dev s.nextDev).Complete) := by
  obtain ⟨s₁, s₂, h1, ha, h2⟩ := (does_step F h).2
  rw [h2.alldevs, ← h1.alldevs, ← h1.nextDev]
  exact (alldevs_act F ha).imp_right (And.imp_right (h2.keeps _).complete)

theorem uid_step {s s' : Server} {e : Event} (hr : Registry s) (h : step F s e = some s') {d : DevId} (hd : d ∈ s.alldevs) :
    (s'.dev d).uid = (s.dev d).uid := by
  obtain hk | ⟨_, _, _, -, hk, -⟩ := dev_step F hr h hd
  · exact hk.uid
  · exact hk.uid

/-- The connected clients stay, or one at the next free address joins them, or one leaves. -/
theorem clients_act {e : Event} {s s' : Server} (ha : Act F e s s') :
    s'.clients = s.clients ∨ s'.clients = s.clients ++ [s.nextClient] ∨ ∃ c, s'.clients = s.clients.erase c := by
  cases ha with
  | none => exact Or.inl rfl
  | connect => exact Or.inr (Or.inl rfl)
  | create hl hu hf hc =>
    rw [create_eq hf rfl]
    exact Or.inl rfl
  | claim hl hu hf =>
    rw [claimDevice_frame]
    exact Or.inl rfl
  | regroup hl => exact Or.inl (onlyGroups_cmdRegisterGroup _ _ s).clients
  | modify => exact Or.inl rfl
  | watch => exact Or.inl rfl
  | track hl hf ht =>
    rw [track_eq hf ht.onqAll]
    exact Or.inl rfl
  | @close c env =>
    rw [bufErrorCb_frame]
    exact Or.inr (Or.inr ⟨c, rfl⟩)
  | @drained c env =>
    rw [bufErrorCb_frame]
    exact Or.inr (Or.inr ⟨c, rfl⟩)

/-- No client is connected twice. -/
theorem clients_nodup_step {s s' : Server} {e : Event} (hr : Registry s) (hn : s.clients.Nodup) (h : step F s e = some s') :
    s'.clients.Nodup := by
  obtain ⟨s₁, s₂, h1, ha, h2⟩ := (does_step F h).2
  rw [h2.clients]
  obtain hc | hc | ⟨c, hc⟩ := clients_act F ha
  · rw [hc, h1.clients]
    exact hn
  · rw [hc, h1.clients, h1.nextClient]
    refine List.nodup_append.mpr ⟨hn, List.nodup_singleton _, fun a ha b hb he => ?_⟩
    rw [he, List.mem_singleton.mp hb] at ha
    exact Nat.lt_irrefl _ (hr.clients_below _ ha)
  · rw [hc, h1.clients]
    exact hn.erase c

/-! ## Starting -/

/-- A device of the configuration is linked to nothing. -/
theorem links_newDevFromConf (conf : DeviceConf) : (newDevFromConf F conf).links =
    { uid := conf.title, proto := conf.proto, type := conf.type, subtype := conf.subtype } := by
  have hwater : ∀ dev, (setWatermark F .hiwat conf.hiwat (setWatermark F .lowat conf.lowat dev)).links = dev.links := by
    intro dev
    exact (modified_setWatermark F .hiwat _ _).links.trans (modified_setWatermark F .lowat _ _).links
  unfold newDevFromConf
  dsimp only
  split
  · exact hwater _
  · split
    · exact hwater _
    · exact hwater _

/-- Nobody is connected, and no device refers to a client. -/
structure Unlinked (s : Server) : Prop where
  clients : s.clients = []
  collector : ∀ d, (s.dev d).collector = none
  onqClient : ∀ d, (s.dev d).onqClient = false
  watchers : ∀ d, (s.dev d).watchers = []

theorem Unlinked.empty : Unlinked {} := ⟨rfl, fun _ => rfl, fun _ => rfl, fun _ => rfl⟩

theorem Unlinked.onlyGroups {s s' : Server} (h : Unlinked s) (hg : OnlyGroups s s') : Unlinked s' := by
  refine ⟨?_, ?_, ?_, ?_⟩
  · rw [hg.clients]
    exact h.clients
  · rw [hg.dev]
    exact h.collector
  · rw [hg.dev]
    exact h.onqClient
  · rw [hg.dev]
    exact h.watchers

/-- The devices of a configuration, each with an uid of its own, make a registry. -/
theorem registry_initDevtable {confs : List DeviceConf} {s : Server} (h : Registry s) (hu : Unlinked s)
    (hn : (confs.map DeviceConf.title).Nodup) (hf : ∀ conf ∈ confs, s.findDeviceByUid conf.title = none) :
    Registry (initDevtable F confs s) ∧ Unlinked (initDevtable F confs s) := by
  induction confs generalizing s with
  | nil => exact ⟨h, hu⟩
  | cons conf confs ih =>
    have hl := links_newDevFromConf F conf
    have huid : (newDevFromConf F conf).uid = conf.title := congrArg Device.uid hl
    have hf' := hf conf List.mem_cons_self
    have hfree : s.findDeviceByUid (newDevFromConf F conf).uid = none := by rw [huid, hf']
    have hq : (newDevFromConf F conf).onqAll = false := congrArg Device.onqAll hl
    have hstep := track_eq hfree hq
    rw [List.map_cons, List.nodup_cons] at hn
    rw [initDevtable]
    change Registry (initDevtable F confs ((s.newDevice (newDevFromConf F conf)).insertDevice s.nextDev)) ∧
      Unlinked (initDevtable F confs ((s.newDevice (newDevFromConf F conf)).insertDevice s.nextDev))
    rw [hstep]
    refine ih ?_ ?_ hn.2 ?_
    · exact h.insert { newDevFromConf F conf with onqAll := true, nodata := true } hfree _ _
    · refine ⟨hu.clients, fun d => ?_, fun d => ?_, fun d => ?_⟩
      · by_cases he : d = s.nextDev
        · subst he
          have hv : (newDevFromConf F conf).collector = none := congrArg Device.collector hl
          simpa using hv
        · simpa [he] using hu.collector d
      · by_cases he : d = s.nextDev
        · subst he
          have hv : (newDevFromConf F conf).onqClient = false := congrArg Device.onqClient hl
          simpa using hv
        · simpa [he] using hu.onqClient d
      · by_cases he : d = s.nextDev
        · subst he
          have hv : (newDevFromConf F conf).watchers = [] := congrArg Device.watchers hl
          simpa using hv
        · simpa [he] using hu.watchers d
    · intro conf' hc'
      have hne : conf'.title ≠ (newDevFromConf F conf).uid := by
        rw [huid]
        exact fun he => hn.1 (he ▸ List.mem_map_of_mem hc')
      simpa [Server.findDeviceByUid, hne] using hf conf' (List.mem_cons_of_mem _ hc')

theorem onlyGroups_addConfDevices (g : GroupId) (ds : List Str) (s : Server) : OnlyGroups s (addConfDevices g ds s) := by
  induction ds generalizing s with
  | nil => rfl
  | cons d ds ih =>
    unfold addConfDevices
    split
    · exact ih s
    · exact (onlyGroups_addDevGroup s _ g).trans (ih _)

theorem onlyGroups_addConfGroups (g : GroupId) (gs : List Str) (s : Server) : OnlyGroups s (addConfGroups g gs s) := by
  induction gs generalizing s with
  | nil => rfl
  | cons g' gs ih =>
    unfold addConfGroups
    split
    · exact ih s
    · exact (onlyGroups_addGroupGroup s _ g).trans (ih _)

theorem onlyGroups_parseDevgroups1 {confs : List DevgroupConf} {s s' : Server} (h : parseDevgroups1 confs s = .ok s') :
    OnlyGroups s s' := by
  induction confs generalizing s with
  | nil =>
    cases h
    rfl
  | cons conf confs ih =>
    unfold parseDevgroups1 at h
    split at h
    · cases h
    · rename_i name _
      have h1 := onlyGroups_newDevgroup s conf.title
      have h2 := onlyGroups_modGroup (s.newDevgroup conf.title).1 (s.newDevgroup conf.title).2 fun g => { g with name := some name }
      exact ((h1.trans h2).trans (onlyGroups_addConfDevices _ _ _)).trans (ih h)

theorem onlyGroups_parseDevgroups2 (confs : List DevgroupConf) (s : Server) : OnlyGroups s (parseDevgroups2 confs s) := by
  induction confs generalizing s with
  | nil => rfl
  | cons conf confs ih =>
    unfold parseDevgroups2
    split
    · exact ih s
    · exact (onlyGroups_addConfGroups _ _ s).trans (ih _)

theorem onlyGroups_parseDevgroups {cfg : Config} {s s' : Server} (h : parseDevgroups cfg s = .ok s') : OnlyGroups s s' := by
  obtain ⟨s₁, h1, rfl⟩ := Except.map_eq_ok.mp h
  exact (onlyGroups_parseDevgroups1 h1).trans (onlyGroups_parseDevgroups2 _ s₁)

/-- The server starts with a registry, and with nobody connected. -/
theorem startup_registry {cfg : Config} {s : Server} (h : startup F cfg = .ok s) : Registry s ∧ Unlinked s := by
  obtain ⟨h1, h2⟩ := registry_initDevtable F Registry.empty Unlinked.empty cfg.device_nodup (fun _ _ => rfl)
  have hg := onlyGroups_parseDevgroups h
  exact ⟨h1.onlyGroups hg, h2.onlyGroups hg⟩

/-- In every state that is reached, no client is connected twice. -/
theorem clients_nodup_reachable {cfg : Config} {s₀ s : Server} {es : List Event} (h : startup F cfg = .ok s₀)
    (hr : Runs.exec (step F) s₀ es = some s) : s.clients.Nodup := by
  obtain ⟨h1, h2⟩ := startup_registry F h
  have hn : s₀.clients.Nodup := by
    rw [h2.clients]
    exact List.nodup_nil
  exact (Runs.exec_induct (I := fun s => Registry s ∧ s.clients.Nodup)
    (fun _ _ _ hs hstep => ⟨registry_step F hs.1 hstep, clients_nodup_step F hs.1 hs.2 hstep⟩) ⟨h1, hn⟩ hr).2

/-- Every state that is reached has a registry. -/
theorem registry_reachable {cfg : Config} {s₀ s : Server} {es : List Event} (h : startup F cfg = .ok s₀)
    (hr : Runs.exec (step F) s₀ es = some s) : Registry s :=
  Runs.exec_induct (fun _ _ _ hs hstep => registry_step F hs hstep) (startup_registry F h).1 hr

end Gnhast
