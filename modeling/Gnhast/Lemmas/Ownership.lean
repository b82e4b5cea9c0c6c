import Gnhast.Lemmas.Registry
import Gnhast.Lib.Ownership

/-!
# Clients and devices as peers and resources

`own` forgets everything of the memory but the clients that are connected, the devices, and who points to whom. Each step of the
server is then an operation of `Ownership`, or changes nothing.
-/

namespace Gnhast

open CStr Ownership

variable (F : Doubles)

/-- The clients and devices of a server, and who points to whom. -/
def own (s : Server) : Own ClientId DevId where
  live := s.clients
  devs := s.alldevs
  holder := fun d => (s.dev d).collector
  queue := fun c => (s.client c).devices
  provider := fun c => (s.client c).provider
  queued := fun d => (s.dev d).onqClient
  watchers := fun d => (s.dev d).watchers

theorem own_quiet {s s' : Server} (h : Quiet s s') : own s' = own s := by
  ext1
  · exact h.clients
  · exact h.alldevs
  · exact funext h.collector
  · exact funext h.clientDevices
  · exact funext h.provider
  · exact funext h.onqClient
  · exact funext h.watchers

theorem own_onlyGroups {s s' : Server} (h : OnlyGroups s s') : own s' = own s := by
  unfold own
  rw [h.clients, h.alldevs, h.dev, h.client]

/-- Writing fields of a device that are not links. -/
theorem own_modDev {s : Server} {d : DevId} {f : Device → Device} (h1 : (f (s.dev d)).collector = (s.dev d).collector)
    (h2 : (f (s.dev d)).onqClient = (s.dev d).onqClient) (h3 : (f (s.dev d)).watchers = (s.dev d).watchers) :
    own (s.modDev d f) = own s := by
  have key : ∀ {β : Type} (g : Device → β), g (f (s.dev d)) = g (s.dev d) → ∀ d', g ((s.modDev d f).dev d') = g (s.dev d') := by
    intro β g hg d'
    rw [Server.modDev_dev]
    split
    · rename_i he
      rw [hg, he]
    · rfl
  ext1
  · rfl
  · rfl
  · exact funext (key Device.collector h1)
  · rfl
  · rfl
  · exact funext (key Device.onqClient h2)
  · exact funext (key Device.watchers h3)

theorem own_connect (s : Server) {cl : Client} (hp : cl.provider = false) (hd : cl.devices = []) :
    own (s.connect cl) = (own s).apply (.connect s.nextClient) := by
  ext1
  · rfl
  · rfl
  · rfl
  · funext c
    by_cases he : c = s.nextClient <;> simp [own, Own.apply, Server.connect, he, hd]
  · funext c
    by_cases he : c = s.nextClient <;> simp [own, Own.apply, Server.connect, he, hp]
  · rfl
  · rfl

theorem own_claimDevice (s : Server) (d : DevId) (c : ClientId) : own (claimDevice s d c) = (own s).claim c d := by
  ext1
  · change (claimDevice s d c).clients = s.clients
    rw [claimDevice_frame]
  · change (claimDevice s d c).alldevs = s.alldevs
    rw [claimDevice_frame]
  · funext d'
    by_cases he : d' = d <;> simp [own, Own.claim, claimDevice_dev, he]
  · funext c'
    by_cases he : c' = c
    · by_cases hq : (s.dev d).onqClient = true <;> simp [own, Own.claim, claimDevice_client, he, hq]
    · by_cases hq : (s.dev d).onqClient = true <;> simp [own, Own.claim, claimDevice_client, he, hq]
  · funext c'
    by_cases he : c' = c
    · by_cases hq : (s.client c).devices = [] <;> simp [own, Own.claim, claimDevice_client, he, hq]
    · by_cases hq : (s.client c).devices = [] <;> simp [own, Own.claim, claimDevice_client, he, hq]
  · funext d'
    by_cases he : d' = d <;> simp [own, Own.claim, claimDevice_dev, he]
  · funext d'
    by_cases he : d' = d <;> simp [own, Own.claim, claimDevice_dev, he]

theorem own_create {s : Server} {dev : Device} {c : ClientId} (hf : s.findDeviceByUid dev.uid = none) (hq : dev.onqAll = false)
    (hc : dev.onqClient = false) (hw : dev.watchers = []) :
    own ((claimDevice (s.newDevice dev) s.nextDev c).insertDevice s.nextDev) = (own s).apply (.create c s.nextDev) := by
  rw [create_eq hf hq]
  ext1
  · rfl
  · rfl
  · funext d
    by_cases he : d = s.nextDev <;> simp [own, Own.apply, Own.claim, Own.fresh, he]
  · funext c'
    by_cases he : c' = c <;>
      simp [own, Own.apply, Own.claim, Own.fresh, claimDevice_client, Server.newDevice, he, hc]
  · funext c'
    by_cases he : c' = c
    · by_cases hd : (s.client c).devices = [] <;>
        simp [own, Own.apply, Own.claim, Own.fresh, claimDevice_client, Server.newDevice, he, hd]
    · by_cases hd : (s.client c).devices = [] <;>
        simp [own, Own.apply, Own.claim, Own.fresh, claimDevice_client, Server.newDevice, he, hd]
  · funext d
    by_cases he : d = s.nextDev <;> simp [own, Own.apply, Own.claim, Own.fresh, he]
  · funext d
    by_cases he : d = s.nextDev <;> simp [own, Own.apply, Own.claim, Own.fresh, he, hw]

theorem own_track {s : Server} {dev : Device} {c : ClientId} (hf : s.findDeviceByUid dev.uid = none) (ht : Tracks c dev) :
    own ((s.newDevice dev).insertDevice s.nextDev) = (own s).apply (.track c s.nextDev) := by
  rw [track_eq hf ht.onqAll]
  ext1
  · rfl
  · rfl
  · funext d
    by_cases he : d = s.nextDev <;> simp [own, Own.apply, Own.fresh, he, ht.collector]
  · rfl
  · rfl
  · funext d
    by_cases he : d = s.nextDev <;> simp [own, Own.apply, Own.fresh, he, ht.onqClient]
  · funext d
    by_cases he : d = s.nextDev <;> simp [own, Own.apply, Own.fresh, he, ht.watchers]

theorem own_addWrappedClient (s : Server) (c : ClientId) (d : DevId) :
    own (s.addWrappedClient c d) = (own s).apply (.watch c d) := by
  have hq : own (s.addWrappedClient c d) = own (s.modDev d fun dev => { dev with watchers := dev.watchers ++ [c] }) :=
    own_quiet (Quiet.modClient _ c rfl)
  rw [hq]
  ext1
  · rfl
  · rfl
  · funext d'
    by_cases he : d' = d <;> simp [own, Own.apply, Server.modDev, he]
  · rfl
  · rfl
  · funext d'
    by_cases he : d' = d <;> simp [own, Own.apply, Server.modDev, he]
  · funext d'
    by_cases he : d' = d <;> simp [own, Own.apply, Server.modDev, he]

theorem own_bufErrorCb (env : Env) (c : ClientId) (s : Server) :
    own (bufErrorCb F env c s) = (own s).apply (.drop c) := by
  have hdev : ∀ {β : Type} (g : Device → β), (∀ dev, g dev.core = g dev) → ∀ d, g ((bufErrorCb F env c s).dev d) =
      g ((s.dev d).unlink c (decide (d ∈ s.alldevs)) (decide (d ∈ s.lost c))) := by
    intro β g hg d
    rw [← hg, bufErrorCb_dev, hg]
  have hcl := fun c' => bufErrorCb_client F env c s c'
  ext1
  · change (bufErrorCb F env c s).clients = s.clients.erase c
    rw [bufErrorCb_frame]
  · change (bufErrorCb F env c s).alldevs = s.alldevs
    rw [bufErrorCb_frame]
  · funext d
    have h := hdev Device.collector (fun _ => rfl) d
    simp only [own, Own.apply, h, Device.unlink, decide_eq_true_eq]
    rfl
  · funext c'
    have h := Client.field_of_core Client.devices (fun _ => rfl) (hcl c')
    simp only [own, Own.apply, h]
    by_cases hp : (s.client c).provider = true
    · by_cases he : c' = c <;> simp [hp, he]
    · simp [hp]
  · funext c'
    have h := Client.field_of_core Client.provider (fun _ => rfl) (hcl c')
    simp only [own, Own.apply, h]
    split <;> rfl
  · funext d
    have h := hdev Device.onqClient (fun _ => rfl) d
    simp only [own, Own.apply, h, Device.unlink, decide_eq_true_eq]
    rfl
  · funext d
    have h := hdev Device.watchers (fun _ => rfl) d
    simp only [own, Own.apply, h, Device.unlink, decide_eq_true_eq]
    rfl

/-! ## Steps as operations -/

/-- The client whose connection an event ends. -/
def Event.closes : Event → Option ClientId
  | .close c _ | .drained c _ => some c
  | _ => none

theorem own_close {s s' : Server} {e : Event} {c : ClientId} (hc : e.closes = some c) (h : step F s e = some s') :
    own s' = (own s).apply (.drop c) := by
  obtain ⟨r, hr, rfl⟩ := (step_eq_some F).mp h
  obtain ⟨-, hh⟩ := (react_eq_some F).mp hr
  cases e with
  | close c env =>
    cases hc
    cases hh
    exact own_bufErrorCb F env c s
  | drained c env =>
    cases hc
    cases hh
    exact own_bufErrorCb F env c s
  | accept | data | line | feed | timer | ping | health | devconf => cases hc

/-- The operation an event may stand for. -/
inductive Cause (s : Server) : Event → Op ClientId DevId → Prop
  | connect {e : Event} (hn : e.closes = none) : Cause s e (.connect s.nextClient)
  | create {c : ClientId} {text : Str} {env : Env} {args : List PArg} {uid : Str} (hl : lineCmd F text = some (.reg, args))
      (hu : lastArg .uid args = some uid) (hf : s.findDeviceByUid uid = none) :
      Cause s (.line c text env) (.create c s.nextDev)
  | claim {c : ClientId} {text : Str} {env : Env} {args : List PArg} {uid : Str} {d : DevId}
      (hl : lineCmd F text = some (.reg, args)) (hu : lastArg .uid args = some uid) (hf : s.findDeviceByUid uid = some d) :
      Cause s (.line c text env) (.claim c d)
  | track {c : ClientId} {text : Str} {env : Env} {args : List PArg} (hl : lineCmd F text = some (.client, args)) :
      Cause s (.line c text env) (.track c s.nextDev)
  | watch {c : ClientId} {text : Str} {env : Env} {args : List PArg} {uid : Str} {d : DevId}
      (hl : lineCmd F text = some (.cfeed, args)) (hf : s.findDeviceByUid uid = some d) : Cause s (.line c text env) (.watch c d)
  | drop {e : Event} {c : ClientId} (hc : e.closes = some c) : Cause s e (.drop c)

theorem Cause.quiet {s s' : Server} {e : Event} {op : Op ClientId DevId} (hq : Quiet s s') (h : Cause F s' e op) :
    Cause F s e op := by
  have hf : ∀ uid, s'.findDeviceByUid uid = s.findDeviceByUid uid := fun uid => by
    rw [Server.findDeviceByUid, Server.findDeviceByUid, hq.devices]
  cases h with
  | connect hn =>
    rw [hq.nextClient]
    exact .connect hn
  | create hl hu h =>
    rw [hq.nextDev]
    exact .create hl hu ((hf _).symm.trans h)
  | claim hl hu h => exact .claim hl hu ((hf _).symm.trans h)
  | track hl =>
    rw [hq.nextDev]
    exact .track hl
  | watch hl h => exact .watch hl ((hf _).symm.trans h)
  | drop hc => exact .drop hc

/-- The operations of events that can happen respect who exists. -/
theorem Cause.allowed {s : Server} {e : Event} {op : Op ClientId DevId} (hr : Registry s) (hp : e.possible s = true)
    (h : Cause F s e op) : (own s).Allowed op := by
  cases h with
  | connect hn => exact fun hm => Nat.lt_irrefl _ (hr.clients_below _ hm)
  | create hl hu hf => exact ⟨of_decide_eq_true hp, hr.notMem⟩
  | claim hl hu hf => exact ⟨of_decide_eq_true hp, ((hr.found _ _).mp hf).1⟩
  | track hl => exact ⟨of_decide_eq_true hp, hr.notMem⟩
  | watch hl hf => exact ⟨of_decide_eq_true hp, ((hr.found _ _).mp hf).1⟩
  | drop hc =>
    cases e with
    | close c env =>
      cases hc
      have hm : _ ∈ s.clients := of_decide_eq_true hp
      exact hm
    | drained c env =>
      cases hc
      have hm : _ ∈ s.clients := of_decide_eq_true (Bool.and_eq_true_iff.mp hp).1
      exact hm
    | accept | data | line | feed | timer | ping | health | devconf => cases hc

theorem own_act {e : Event} {s s' : Server} (ha : Act F e s s') (hn : e.closes = none) :
    own s' = own s ∨ ∃ op, Cause F s e op ∧ own s' = (own s).apply op := by
  cases ha with
  | none => exact Or.inl rfl
  | connect hp hd hh => exact Or.inr ⟨_, .connect hn, own_connect s hp hd⟩
  | create hl hu hf hd => exact Or.inr ⟨_, .create hl hu hf, own_create hf rfl rfl rfl⟩
  | claim hl hu hf => exact Or.inr ⟨_, .claim hl hu hf, (own_claimDevice _ _ _).trans (by rw [own_modDev rfl rfl rfl]; rfl)⟩
  | regroup hl => exact Or.inl (own_onlyGroups (onlyGroups_cmdRegisterGroup _ _ s))
  | modify hl hf hm =>
    exact Or.inl (own_modDev (hm.linkField Device.collector fun _ => rfl) (hm.linkField Device.onqClient fun _ => rfl)
      (hm.linkField Device.watchers fun _ => rfl))
  | watch hl hf => exact Or.inr ⟨_, .watch hl hf, own_addWrappedClient s _ _⟩
  | track hl hf ht => exact Or.inr ⟨_, .track hl, own_track hf ht⟩
  | close => cases hn
  | drained => cases hn

/-- A step is an operation, or changes nothing. -/
theorem own_step {s s' : Server} {e : Event} (hr : Registry s) (h : step F s e = some s') :
    own s' = own s ∨ ∃ op, Cause F s e op ∧ (own s).Allowed op ∧ own s' = (own s).apply op := by
  obtain ⟨hp, hd⟩ := does_step F h
  cases hn : e.closes with
  | none =>
    obtain ⟨s₁, s₂, h1, ha, h2⟩ := hd
    rw [own_quiet h2]
    obtain h | ⟨op, hc, h⟩ := own_act F ha hn
    · exact Or.inl (h.trans (own_quiet h1))
    · have hc := hc.quiet F h1
      exact Or.inr ⟨op, hc, hc.allowed F hr hp, by rw [h, own_quiet h1]⟩
  | some c =>
    have hc : Cause F s e (.drop c) := .drop hn
    exact Or.inr ⟨.drop c, hc, hc.allowed F hr hp, own_close F hn h⟩

/-- The queues are sound in every state that a step leads to. -/
theorem queues_step {s s' : Server} {e : Event} (hr : Registry s) (hq : (own s).Queues) (h : step F s e = some s') :
    (own s').Queues := by
  obtain h | ⟨op, -, ha, h⟩ := own_step F hr h
  · rwa [h]
  · rw [h]
    exact Own.queues_apply hq ha

theorem Unlinked.queues {s : Server} (h : Unlinked s) : (own s).Queues := by
  have hl : (own s).live = [] := h.clients
  refine ⟨by simp [hl], by simp [hl], by simp [hl], by simp [hl], fun d hd hm => ?_, by simp [hl], by simp [hl]⟩
  have : (own s).queued d = false := h.onqClient d
  rw [this] at hm
  cases hm

theorem Unlinked.live {s : Server} (h : Unlinked s) : (own s).Live := by
  intro d hd
  have h1 : (own s).holder d = none := h.collector d
  have h2 : (own s).watchers d = [] := h.watchers d
  simp [h1, h2]

end Gnhast