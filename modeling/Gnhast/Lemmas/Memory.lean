import Gnhast.Netloop

/-!
# What the handlers leave alone

Most handlers only change device data and the private fields of clients. `Quiet` says so once; it is shown here of every write
such a handler makes and, by that, of the handlers themselves. The remaining handlers are described by what they do.
-/

namespace Gnhast

open CStr

/-! ## Computations that may fault -/

theorem Except.bind_eq_ok {α β : Type} {x : Except Fault α} {f : α → Except Fault β} {b : β} :
    (x >>= f) = .ok b ↔ ∃ a, x = .ok a ∧ f a = .ok b := by
  cases x <;> simp [bind, Except.bind]

theorem or_eq_left_iff {α : Type} {a b : Option α} : a.or b = a ↔ (a = none → b = none) := by
  cases a <;> simp

theorem Except.map_eq_ok {α β : Type} {x : Except Fault α} {f : α → β} {b : β} :
    x.map f = .ok b ↔ ∃ a, x = .ok a ∧ f a = b := by
  cases x <;> simp [Except.map]

/-! ## Writes -/

namespace Server

theorem modDev_dev (s : Server) (d d' : DevId) (f : Device → Device) :
    (s.modDev d f).dev d' = if d' = d then f (s.dev d) else s.dev d' := by
  by_cases h : d' = d <;> simp [modDev, h]

theorem modClient_client (s : Server) (c c' : ClientId) (f : Client → Client) :
    (s.modClient c f).client c' = if c' = c then f (s.client c) else s.client c' := by
  by_cases h : c' = c <;> simp [modClient, h]

theorem modGroup_group (s : Server) (g g' : GroupId) (f : Group → Group) :
    (s.modGroup g f).group g' = if g' = g then f (s.group g) else s.group g' := by
  by_cases h : g' = g <;> simp [modGroup, h]

/-- A new client at the next free address. -/
def connect (s : Server) (cl : Client) : Server :=
  { s with
    client := Function.update s.client s.nextClient cl
    nextClient := s.nextClient + 1
    clients := s.clients ++ [s.nextClient] }

end Server

/-! ## Quiet steps -/

/-- A device without its current and previous data. -/
def Device.core (dev : Device) : Device := { dev with data := default, last := default, nodata := false }

/-- A client without its feeds, its counters, its alarm settings and what concerns its tracking device. -/
def Client.core (c : Client) : Client :=
  { c with
    wdevices := [], tev := false, tevSecs := 0, timerGcd := 0, closeOnEmpty := false, watched := 0, lastupd := 0, alarmwatch := 0
    alchan := 0, collDev := none }

/-- Only device data, private fields of clients and alarms differ. -/
structure Quiet (s s' : Server) : Prop where
  dev : ∀ d, (s'.dev d).core = (s.dev d).core
  client : ∀ c, (s'.client c).core = (s.client c).core
  frame : s' = { s with dev := s'.dev, client := s'.client, alarms := s'.alarms }

namespace Quiet

variable {s s' s'' : Server}

theorem refl (s : Server) : Quiet s s := ⟨fun _ => rfl, fun _ => rfl, rfl⟩

theorem trans (h : Quiet s s') (h' : Quiet s' s'') : Quiet s s'' := by
  refine ⟨fun d => (h'.dev d).trans (h.dev d), fun c => (h'.client c).trans (h.client c), ?_⟩
  rw [h'.frame, h.frame]

theorem modDev (s : Server) (d : DevId) {f : Device → Device} (hf : (f (s.dev d)).core = (s.dev d).core) :
    Quiet s (s.modDev d f) := by
  refine ⟨fun d' => ?_, fun _ => rfl, rfl⟩
  rw [Server.modDev_dev]
  split
  · rename_i h
    rw [hf, h]
  · rfl

theorem modClient (s : Server) (c : ClientId) {f : Client → Client} (hf : (f (s.client c)).core = (s.client c).core) :
    Quiet s (s.modClient c f) := by
  refine ⟨fun _ => rfl, fun c' => ?_, rfl⟩
  rw [Server.modClient_client]
  split
  · rename_i h
    rw [hf, h]
  · rfl

theorem thenClient (h : Quiet s s') {c : ClientId} {f : Client → Client} (hf : ∀ cl, (f cl).core = cl.core) :
    Quiet s (s'.modClient c f) := h.trans (modClient s' c (hf _))

theorem setAlarms (s : Server) (as : List Alarm) : Quiet s { s with alarms := as } := ⟨fun _ => rfl, fun _ => rfl, rfl⟩

variable (h : Quiet s s')

include h

/-- A field that is part of the core is the same. -/
theorem devField {β : Type} (g : Device → β) (hg : ∀ dev, g dev.core = g dev) (d : DevId) : g (s'.dev d) = g (s.dev d) := by
  rw [← hg, h.dev, hg]

theorem clientField {β : Type} (g : Client → β) (hg : ∀ c, g c.core = g c) (c : ClientId) :
    g (s'.client c) = g (s.client c) := by
  rw [← hg, h.client, hg]

theorem uid (d : DevId) : (s'.dev d).uid = (s.dev d).uid :=
  h.devField Device.uid (fun _ => rfl) d
theorem name (d : DevId) : (s'.dev d).name = (s.dev d).name :=
  h.devField Device.name (fun _ => rfl) d
theorem proto (d : DevId) : (s'.dev d).proto = (s.dev d).proto :=
  h.devField Device.proto (fun _ => rfl) d
theorem type (d : DevId) : (s'.dev d).type = (s.dev d).type :=
  h.devField Device.type (fun _ => rfl) d
theorem subtype (d : DevId) : (s'.dev d).subtype = (s.dev d).subtype :=
  h.devField Device.subtype (fun _ => rfl) d
theorem collector (d : DevId) : (s'.dev d).collector = (s.dev d).collector :=
  h.devField Device.collector (fun _ => rfl) d
theorem tags (d : DevId) : (s'.dev d).tags = (s.dev d).tags :=
  h.devField Device.tags (fun _ => rfl) d
theorem onqClient (d : DevId) : (s'.dev d).onqClient = (s.dev d).onqClient :=
  h.devField Device.onqClient (fun _ => rfl) d
theorem onqAll (d : DevId) : (s'.dev d).onqAll = (s.dev d).onqAll :=
  h.devField Device.onqAll (fun _ => rfl) d
theorem watchers (d : DevId) : (s'.dev d).watchers = (s.dev d).watchers :=
  h.devField Device.watchers (fun _ => rfl) d

theorem provider (c : ClientId) : (s'.client c).provider = (s.client c).provider :=
  h.clientField Client.provider (fun _ => rfl) c
theorem clientDevices (c : ClientId) : (s'.client c).devices = (s.client c).devices :=
  h.clientField Client.devices (fun _ => rfl) c
theorem host (c : ClientId) : (s'.client c).host = (s.client c).host :=
  h.clientField Client.host (fun _ => rfl) c

theorem nextDev : s'.nextDev = s.nextDev := by rw [h.frame]
theorem alldevs : s'.alldevs = s.alldevs := by rw [h.frame]
theorem devices : s'.devices = s.devices := by rw [h.frame]
theorem group : s'.group = s.group := by rw [h.frame]
theorem nextGroup : s'.nextGroup = s.nextGroup := by rw [h.frame]
theorem allgroups : s'.allgroups = s.allgroups := by rw [h.frame]
theorem devgroups : s'.devgroups = s.devgroups := by rw [h.frame]
theorem nextWrap : s'.nextWrap = s.nextWrap := by rw [h.frame]
theorem nextClient : s'.nextClient = s.nextClient := by rw [h.frame]
theorem clients : s'.clients = s.clients := by rw [h.frame]

end Quiet

/-! ## Storing data -/

variable (F : Doubles)

theorem core_storeDataDev (w : Word) (dev : Device) : (storeDataDev F .data w dev).core = dev.core := by
  simp only [storeDataDev, if_true]
  split <;> rfl

theorem core_storeArgs (args : List PArg) (dev : Device) : (storeArgs F args dev).core = dev.core := by
  unfold storeArgs
  induction args.filterMap PArg.dataArg generalizing dev with
  | nil => rfl
  | cons a as ih => rw [List.foldl_cons, ih, core_storeDataDev]

theorem core_storeChange (args : List PArg) (dev : Device) : (storeChange F args dev).core = dev.core := by
  unfold storeChange
  induction args.filterMap PArg.dataArg generalizing dev with
  | nil => rfl
  | cons a as ih =>
    rw [List.foldl_cons, ih]
    cases a with
    | d v => exact core_storeDataDev F _ dev
    | i v => rfl
    | u v => rfl
    | ll v => rfl

theorem quiet_storeCollDev (c : ClientId) (w : Word) (s : Server) : Quiet s (storeCollDev F c w s) := by
  unfold storeCollDev
  split
  · exact Quiet.modDev s _ (core_storeDataDev F w _)
  · exact Quiet.refl s

/-! ## Quiet handlers -/

/-- The handlers that only change device data and private fields of clients. -/
def Cmd.quiet : Cmd → Bool
  | .reg | .regg | .upd | .mod | .cfeed | .client => false
  | _ => true

theorem quiet_cmdChange (args : List PArg) (c : ClientId) (s : Server) : Quiet s (cmdChange F args c s).srv := by
  unfold cmdChange
  split
  · exact Quiet.refl s
  · split
    · exact Quiet.refl s
    · dsimp only
      split
      · exact Quiet.modDev s _ (core_storeChange F args _)
      · exact Quiet.modDev s _ (core_storeChange F args _)

theorem quiet_addWrappedDevice (s : Server) (d : DevId) (c : ClientId) (rate scale : BitVec 32) :
    Quiet s (s.addWrappedDevice d c rate scale) := Quiet.modClient s c rfl

theorem quiet_cmdFeed {args : List PArg} {c : ClientId} {s : Server} {r : Reply} (h : cmdFeed args c s = .ok r) :
    Quiet s r.srv := by
  unfold cmdFeed at h
  split at h
  · cases h
    exact Quiet.refl s
  · split at h
    · cases h
      exact Quiet.refl s
    · rename_i d _
      dsimp only at h
      split at h
      · obtain ⟨g, -, h⟩ := Except.bind_eq_ok.mp h
        cases h
        dsimp only
        exact Quiet.thenClient (quiet_addWrappedDevice s d c _ _) (fun _ => rfl)
      · cases h
        dsimp only
        exact Quiet.thenClient (quiet_addWrappedDevice s d c _ _) (fun _ => rfl)

theorem srv_cmdListGroups {args : List PArg} {c : ClientId} {s : Server} {r : Reply} (h : cmdListGroups args c s = .ok r) :
    r.srv = s := by
  obtain ⟨out, -, rfl⟩ := Except.map_eq_ok.mp h
  rfl

theorem srv_cmdAskDevice {args : List PArg} {c : ClientId} {s : Server} {r : Reply} (h : cmdAskDevice F args c s = .ok r) :
    r.srv = s := by
  unfold cmdAskDevice at h
  split at h
  · cases h
    rfl
  · obtain ⟨line, -, rfl⟩ := Except.map_eq_ok.mp h
    rfl

theorem srv_cmdAskFullDevice {args : List PArg} {c : ClientId} {s : Server} {r : Reply}
    (h : cmdAskFullDevice F args c s = .ok r) : r.srv = s := by
  obtain ⟨out, -, rfl⟩ := Except.map_eq_ok.mp h
  rfl

theorem srv_cmdCactiaskDevice {args : List PArg} {c : ClientId} {s : Server} {r : Reply}
    (h : cmdCactiaskDevice F args c s = .ok r) : r.srv = s := by
  unfold cmdCactiaskDevice at h
  split at h
  · cases h
    rfl
  · split at h
    · cases h
    · obtain ⟨line, -, rfl⟩ := Except.map_eq_ok.mp h
      rfl

theorem quiet_cmdSetalarm (args : List PArg) (c : ClientId) (s : Server) : Quiet s (cmdSetalarm args c s).srv := by
  unfold cmdSetalarm
  split
  · exact Quiet.refl s
  · exact Quiet.setAlarms s _

/-- A quiet command leaves the memory as it was, up to device data and private fields. -/
theorem quiet_run {env : Env} {cmd : Cmd} (hq : cmd.quiet = true) {args : List PArg} {c : ClientId} {s : Server} {r : Reply}
    (h : cmd.run F env args c s = .ok r) : Quiet s r.srv := by
  cases cmd with
  | chg => cases h; exact quiet_cmdChange F args c s
  | feed => exact quiet_cmdFeed h
  | ldevs => cases h; exact Quiet.refl s
  | lgrps => rw [srv_cmdListGroups h]; exact Quiet.refl s
  | ask => rw [srv_cmdAskDevice F h]; exact Quiet.refl s
  | askf => rw [srv_cmdAskFullDevice F h]; exact Quiet.refl s
  | cactiask => rw [srv_cmdCactiaskDevice F h]; exact Quiet.refl s
  | disconnect =>
    cases h
    dsimp only [cmdDisconnect]
    refine Quiet.trans ?_ (quiet_storeCollDev F c _ _)
    exact (Quiet.refl s).thenClient (fun _ => rfl)
  | ping => cases h; exact Quiet.refl s
  | imalive => cases h; exact quiet_storeCollDev F c _ s
  | setalarm => cases h; exact quiet_cmdSetalarm args c s
  | listenalarms =>
    cases h
    dsimp only [cmdListenAlarms]
    exact (Quiet.refl s).thenClient (fun _ => rfl)
  | dumpalarms => cases h; exact Quiet.refl s
  | getapiv => cases h; exact Quiet.refl s
  | reg => cases hq
  | regg => cases hq
  | upd => cases hq
  | mod => cases hq
  | cfeed => cases hq
  | client => cases hq

/-! ## The other handlers -/

/-- An update without flags is printed or refused. -/
theorem gnUpdateDevice_plain (dev : Device) {what : BitVec 32} (h1 : queryBit what gncUpdCacti = false)
    (h2 : queryBit what gncUpdTags = false) (h3 : queryBit what gncUpdFull = false) :
    ∃ line, gnUpdateDevice F dev what = .ok line := by
  unfold gnUpdateDevice
  split
  · exact ⟨none, rfl⟩
  · split
    · exact ⟨none, rfl⟩
    · simp only [h1, h2, h3]
      exact ⟨_, rfl⟩

/-- `run_handler_dev` leaves the memory as it was, or with a client more. -/
theorem runHandlerDev_cases {env : Env} {d : DevId} {s s' : Server} {out : List Out}
    (h : runHandlerDev F env d s = .ok (s', out)) :
    (s' = s ∧ out = []) ∨ (s' = s.connect {} ∧ ∃ line, out = emit s.nextClient line) := by
  unfold runHandlerDev at h
  split at h
  · cases h
    exact Or.inl ⟨rfl, rfl⟩
  · split at h
    · obtain ⟨line, -, h⟩ := Except.map_eq_ok.mp h
      cases h
      exact Or.inr ⟨rfl, line, rfl⟩
    · cases h
      exact Or.inl ⟨rfl, rfl⟩

/-- `cmd_update` stores data, may start a handler and tells the watchers. -/
theorem cmdUpdate_cases {env : Env} {args : List PArg} {c : ClientId} {s : Server} {r : Reply}
    (h : cmdUpdate F env args c s = .ok r) :
    (r.srv = s ∧ r.out = []) ∨ ∃ uid d s₁ out told, s.findDeviceByUid uid = some d ∧ Quiet s s₁ ∧ r.out = out ++ told ∧
      updateEach F (s₁.dev d) gncUpdRrdname (s₁.dev d).watchers = .ok told ∧
      ((r.srv = s₁ ∧ out = []) ∨ (r.srv = s₁.connect {} ∧ ∃ line, out = emit s₁.nextClient line)) := by
  unfold cmdUpdate at h
  split at h
  · cases h
    exact Or.inl ⟨rfl, rfl⟩
  · rename_i uid _
    split at h
    · cases h
      exact Or.inl ⟨rfl, rfl⟩
    · rename_i d hd
      refine Or.inr ⟨uid, d, s.modDev d (storeArgs F args), ?_⟩
      obtain ⟨⟨s', out⟩, h1, h2⟩ := Except.bind_eq_ok.mp h
      obtain ⟨told, h3, h4⟩ := Except.bind_eq_ok.mp h2
      cases h4
      have hs' : (s' = s.modDev d (storeArgs F args) ∧ out = []) ∨
          (s' = (s.modDev d (storeArgs F args)).connect {} ∧
            ∃ line, out = emit (s.modDev d (storeArgs F args)).nextClient line) := by
        unfold runHandlerOnUpdate at h1
        split at h1
        · exact runHandlerDev_cases F h1
        · cases h1
          exact Or.inl ⟨rfl, rfl⟩
      refine ⟨out, told, hd, Quiet.modDev s d (core_storeArgs F args _), rfl, ?_, hs'⟩
      rcases hs' with ⟨rfl, -⟩ | ⟨rfl, -⟩
      · exact h3
      · exact h3

/-! ## Modified devices -/

/-- What other records and the trees know of a device. -/
def Device.links (dev : Device) : Device :=
  { uid := dev.uid, proto := dev.proto, type := dev.type, subtype := dev.subtype, collector := dev.collector
    onqClient := dev.onqClient, onqAll := dev.onqAll, watchers := dev.watchers }

/-- A device keeps its links, and a name if it has one. -/
structure Modified (dev dev' : Device) : Prop where
  links : dev'.links = dev.links
  name : dev.name ≠ none → dev'.name ≠ none

/-- A field that is part of the links is the same. -/
theorem Modified.linkField {β : Type} {dev dev' : Device} (h : Modified dev dev') (g : Device → β)
    (hg : ∀ dev, g dev.links = g dev) : g dev' = g dev := by
  rw [← hg, h.links, hg]

theorem Modified.uid {dev dev' : Device} (h : Modified dev dev') : dev'.uid = dev.uid :=
  h.linkField Device.uid (fun _ => rfl)

theorem Modified.refl (dev : Device) : Modified dev dev := ⟨rfl, id⟩

theorem Modified.trans {dev dev' dev'' : Device} (h : Modified dev dev') (h' : Modified dev' dev'') : Modified dev dev'' :=
  ⟨h'.links.trans h.links, fun hn => h'.name (h.name hn)⟩

theorem links_storeDataDev (loc : DataLoc) (w : Word) (dev : Device) : (storeDataDev F loc w dev).links = dev.links := by
  cases loc with
  | data =>
    simp only [storeDataDev, if_true]
    split <;> rfl
  | last | lowat | hiwat | change =>
    simp only [storeDataDev, reduceCtorEq, if_false]
    split <;> rfl

theorem name_storeDataDev (loc : DataLoc) (w : Word) (dev : Device) : (storeDataDev F loc w dev).name = dev.name := by
  cases loc with
  | data =>
    simp only [storeDataDev, if_true]
    split <;> rfl
  | last | lowat | hiwat | change =>
    simp only [storeDataDev, reduceCtorEq, if_false]
    split <;> rfl

theorem modified_setWatermark (loc : DataLoc) (q : ℚ) (dev : Device) : Modified dev (setWatermark F loc q dev) := by
  unfold setWatermark
  split
  all_goals exact ⟨links_storeDataDev F loc _ dev, fun hn => by rwa [name_storeDataDev]⟩

theorem modified_parseHargs (data : Str) (dev : Device) : Modified dev (parseHargs data dev).1 := by
  unfold parseHargs
  split
  · exact ⟨rfl, id⟩
  · exact ⟨rfl, id⟩

theorem modified_parseTags {data : Str} {dev : Device} {r : Device × List Out} (h : parseTags data dev = .ok r) :
    Modified dev r.1 := by
  obtain ⟨out, -, rfl⟩ := Except.map_eq_ok.mp h
  split
  · split
    · exact ⟨rfl, id⟩
    · exact ⟨rfl, id⟩
  · exact ⟨rfl, id⟩

theorem modified_setSpam (i : BitVec 32) (dev : Device) : Modified dev (setSpam i dev) := by
  unfold setSpam
  split
  · exact ⟨rfl, id⟩
  · split
    · exact ⟨rfl, id⟩
    · split
      · exact ⟨rfl, id⟩
      · exact Modified.refl dev

theorem modified_modifyArg {dev : Device} {a : PArg} {r : Device × List Out × Str} (h : modifyArg F dev a = .ok r) :
    Modified dev r.1 := by
  unfold modifyArg at h
  split at h
  · cases h
    exact ⟨rfl, fun _ => Option.some_ne_none _⟩
  · cases h
    exact ⟨rfl, id⟩
  · cases h
    exact ⟨rfl, id⟩
  · cases h
    exact modified_setWatermark F .hiwat _ dev
  · cases h
    exact modified_setWatermark F .lowat _ dev
  · cases h
    exact modified_parseHargs _ dev
  · obtain ⟨r', h', rfl⟩ := Except.map_eq_ok.mp h
    exact modified_parseTags h'
  · cases h
    exact modified_setSpam _ dev
  · cases h
    exact Modified.refl dev

theorem modified_modifyArgs {args : List PArg} {dev : Device} {r : Device × List Out × Str}
    (h : modifyArgs F dev args = .ok r) : Modified dev r.1 := by
  induction args generalizing dev r with
  | nil =>
    cases h
    exact Modified.refl dev
  | cons a args ih =>
    obtain ⟨r1, h1, h⟩ := Except.bind_eq_ok.mp h
    obtain ⟨r2, h2, h⟩ := Except.bind_eq_ok.mp h
    cases h
    have hargs := ih h2
    exact (modified_modifyArg F h1).trans hargs

/-- `cmd_modify` changes one device, which keeps its links; the collector is told. -/
theorem cmdModify_cases {args : List PArg} {c : ClientId} {s : Server} {r : Reply} (h : cmdModify F args c s = .ok r) :
    (r.srv = s ∧ r.out = []) ∨ ∃ uid d dev out text, s.findDeviceByUid uid = some d ∧
      modifyArgs F (s.dev d) args = .ok (dev, out, text) ∧ Modified (s.dev d) dev ∧ r.srv = s.modDev d (fun _ => dev) ∧
      (r.out = out ++ [.devconfDump] ∨
        ∃ c' line, dev.collector = some c' ∧ r.out = out ++ [.devconfDump] ++ [.write c' line]) := by
  unfold cmdModify at h
  split at h
  · cases h
    exact Or.inl ⟨rfl, rfl⟩
  · rename_i uid _
    split at h
    · cases h
      exact Or.inl ⟨rfl, rfl⟩
    · rename_i d hd
      obtain ⟨⟨dev, out, text⟩, h1, h⟩ := Except.bind_eq_ok.mp h
      obtain ⟨dump, h2, h⟩ := Except.bind_eq_ok.mp h
      obtain ⟨-, -, rfl⟩ := Except.map_eq_ok.mp h2
      refine Or.inr ⟨uid, d, dev, out, text, hd, h1, modified_modifyArgs F h1, ?_⟩
      split at h
      · cases h
        exact ⟨rfl, Or.inl rfl⟩
      · rename_i c' hc
        cases h
        exact ⟨rfl, Or.inr ⟨c', _, hc, rfl⟩⟩

end Gnhast
