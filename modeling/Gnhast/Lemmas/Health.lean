import Gnhast.Lemmas.Registry
import Gnhast.Lemmas.Values
import Gnhast.Lib.Bonds

/-!
# Clients and their tracking devices

`Server.bonds` forgets everything of the memory but the connected clients, the tracking device each is bound to, and which of
the devices that were created since a start hold `COLLECTOR_OK`. Each event that has to do with the health of collectors is then
an operation of `Bonds`, or changes nothing.
-/

namespace Gnhast

open CStr

variable (F : Doubles)

/-! ## Collector states -/

/-- A device holds `COLLECTOR_OK`. -/
def CollectorOk (dev : Device) : Prop := (dev.data.bits F).setWidth 8 = collectorOk.setWidth 8

/-- The connected clients, their tracking devices, and the new devices that hold `COLLECTOR_OK`. -/
def Server.bonds (s s₀ : Server) : Bonds ClientId DevId where
  live := s.clients
  bound := fun c => (s.client c).collDev
  well := fun d => d ∈ s.alldevs ∧ d ∉ s₀.alldevs ∧ CollectorOk F (s.dev d)

/-- A device that was created since the start. -/
def Server.created (s₀ s : Server) (d : DevId) : Prop := d ∈ s.alldevs ∧ d ∉ s₀.alldevs

/-- The devices that were created since the start are tracking devices. -/
def Tracking (s₀ s : Server) : Prop := ∀ d, s₀.created s d → (s.dev d).type = deviceSwitch

/-- The low byte of a word of which a state fills the low bytes. -/
theorem low_fill {m : BitVec 64} (hm : m.setWidth 8 = 0) (beyond : BitVec 64) (i : BitVec 32) :
    ((beyond &&& m) ||| i.setWidth 64).setWidth 8 = i.setWidth 8 := by
  rw [BitVec.setWidth_or, BitVec.setWidth_and, hm, BitVec.setWidth_setWidth_of_le _ (by decide)]
  simp

/-- The word a collector state is stored from. -/
theorem low_intWord (env : Env) (i : BitVec 32) : ((intWord env i).bits F).setWidth 8 = i.setWidth 8 :=
  low_fill (by decide) env.beyond i

theorem low_aliveWord (env : Env) :
    ((Word.raw ((env.beyond &&& ~~~0xff#64) ||| collectorOk.setWidth 64)).bits F).setWidth 8 = collectorOk.setWidth 8 :=
  low_fill (by decide) env.beyond collectorOk

/-- A tracking device keeps a state. -/
theorem storeMember_tracking {dev : Device} (h : dev.type = deviceSwitch) :
    storeMember dev.devType dev.devSubtype = some .state := by
  rw [Device.devType, h]
  rfl

theorem storeDataDev_type (loc : DataLoc) (w : Word) (dev : Device) : (storeDataDev F loc w dev).type = dev.type := by
  have h := links_storeDataDev F loc w dev
  have := congrArg Device.type h
  exact this

/-! ## Writes -/

variable {s₀ : Server}

/-- What keeps clients, bindings and devices keeps the bonds. -/
theorem bonds_congr {s s' : Server} (hl : s'.clients = s.clients) (hb : ∀ c, (s'.client c).collDev = (s.client c).collDev)
    (ha : s'.alldevs = s.alldevs) (hd : ∀ d, s₀.created s d → (s'.dev d).data = (s.dev d).data) :
    s'.bonds F s₀ = s.bonds F s₀ := by
  ext1
  · exact hl
  · exact hb _
  · rename_i d
    change (d ∈ s'.alldevs ∧ d ∉ s₀.alldevs ∧ CollectorOk F (s'.dev d)) ↔ (d ∈ s.alldevs ∧ d ∉ s₀.alldevs ∧ CollectorOk F (s.dev d))
    rw [ha]
    refine and_congr_right fun h1 => and_congr_right fun h2 => ?_
    unfold CollectorOk
    rw [hd d ⟨h1, h2⟩]

theorem bonds_modClient (s : Server) (c : ClientId) {f : Client → Client} (hf : ∀ cl, (f cl).collDev = cl.collDev) :
    (s.modClient c f).bonds F s₀ = s.bonds F s₀ := by
  refine bonds_congr F rfl (fun c' => ?_) rfl (fun _ _ => rfl)
  rw [Server.modClient_client]
  split
  · rename_i he
    rw [hf, he]
  · rfl

theorem tracking_of_type {s s' : Server} (h : Tracking s₀ s) (ha : s'.alldevs = s.alldevs)
    (ht : ∀ d, (s'.dev d).type = (s.dev d).type) : Tracking s₀ s' := by
  intro d hd
  rw [ht]
  exact h d ⟨ha ▸ hd.1, hd.2⟩

/-- Writing a state into a device: a tracking device becomes well with `COLLECTOR_OK`. -/
theorem well_store {s : Server} (h : Tracking s₀ s) (d : DevId) (w : Word) (x : DevId) :
    ((s.modDev d (storeDataDev F .data w)).bonds F s₀).well x ↔
      if x = d then s₀.created s x ∧ (w.bits F).setWidth 8 = collectorOk.setWidth 8 else (s.bonds F s₀).well x := by
  change (x ∈ s.alldevs ∧ x ∉ s₀.alldevs ∧ CollectorOk F ((s.modDev d (storeDataDev F .data w)).dev x)) ↔ _
  rw [Server.modDev_dev]
  split
  · rename_i he
    subst he
    constructor
    · rintro ⟨h1, h2, h3⟩
      refine ⟨⟨h1, h2⟩, ?_⟩
      rw [← low_storeDataDev F (storeMember_tracking (h x ⟨h1, h2⟩)) w]
      exact h3
    · rintro ⟨h1, h2⟩
      refine ⟨h1.1, h1.2, ?_⟩
      unfold CollectorOk
      rw [low_storeDataDev F (storeMember_tracking (h x h1)) w]
      exact h2
  · rfl

theorem tracking_storeCollDev {s : Server} (h : Tracking s₀ s) (c : ClientId) (w : Word) :
    Tracking s₀ (storeCollDev F c w s) := by
  unfold storeCollDev
  split
  · refine tracking_of_type h rfl (fun d => ?_)
    rw [Server.modDev_dev]
    split
    · rename_i he
      rw [storeDataDev_type, he]
    · rfl
  · exact h

/-- Storing `COLLECTOR_OK` in a client's tracking device is a sign of life. -/
theorem bonds_alive {s : Server} (h : Tracking s₀ s) (c : ClientId) {w : Word}
    (hw : (w.bits F).setWidth 8 = collectorOk.setWidth 8) :
    (storeCollDev F c w s).bonds F s₀ = (s.bonds F s₀).alive (s₀.created s) c := by
  unfold storeCollDev
  split
  · rename_i d hd
    ext1
    · rfl
    · rfl
    · rename_i x
      rw [well_store F h]
      change _ ↔ (s.bonds F s₀).well x ∨ ((s.client c).collDev = some x ∧ s₀.created s x)
      rw [hd]
      split
      · rename_i he
        subst he
        simp only [hw, and_true, true_and]
        exact ⟨Or.inr, fun hx => hx.elim (fun hx => ⟨hx.1, hx.2.1⟩) id⟩
      · rename_i he
        have hne : ¬ some d = some x := fun h' => he (Option.some.inj h').symm
        simp only [hne, false_and, or_false]
  · rename_i hd
    ext1
    · rfl
    · rfl
    · rename_i x
      change _ ↔ (s.bonds F s₀).well x ∨ ((s.client c).collDev = some x ∧ s₀.created s x)
      rw [hd]
      simp

/-- Storing `COLLECTOR_BAD` makes a client ill. -/
theorem bonds_ill {s : Server} (h : Tracking s₀ s) (c : ClientId) (env : Env) :
    (storeCollDev F c (intWord env collectorBad) s).bonds F s₀ = (s.bonds F s₀).ill c := by
  have hbad : ((intWord env collectorBad).bits F).setWidth 8 ≠ collectorOk.setWidth 8 := by
    rw [low_intWord]
    decide
  unfold storeCollDev
  split
  · rename_i d hd
    ext1
    · rfl
    · rfl
    · rename_i x
      rw [well_store F h]
      change _ ↔ (s.bonds F s₀).well x ∧ (s.client c).collDev ≠ some x
      rw [hd]
      split
      · rename_i he
        subst he
        simp [hbad]
      · rename_i he
        have hne : ¬ some d = some x := fun h' => he (Option.some.inj h').symm
        simp only [ne_eq, hne, not_false_eq_true, and_true]
  · rename_i hd
    ext1
    · rfl
    · rfl
    · rename_i x
      change _ ↔ (s.bonds F s₀).well x ∧ (s.client c).collDev ≠ some x
      rw [hd]
      simp

/-- A new client joins, bound to nothing. -/
theorem bonds_acceptCb (s : Server) (now : Int) (host : Str) :
    (acceptCb now host s).bonds F s₀ = (s.bonds F s₀).join s.nextClient := by
  ext1
  · rfl
  · rename_i c
    change (Function.update s.client s.nextClient { host := some host, lastupd := now } c).collDev =
      Function.update (fun c => (s.client c).collDev) s.nextClient none c
    rw [Function.update_apply, Function.update_apply]
    split <;> rfl
  · rfl

/-! ## The end of a connection -/

theorem unwatch_collDev (c : ClientId) (ds : List DevId) (s : Server) (c' : ClientId) :
    ((unwatch c ds s).client c').collDev = (s.client c').collDev := by
  induction ds generalizing s with
  | nil => rfl
  | cons d ds ih =>
    rw [unwatch, ih, Server.modClient_client]
    split
    · rename_i he
      rw [he]
      rfl
    · rfl

/-- What `buf_error_cb` does behind its first store, as far as bonds are concerned. -/
theorem bufErrorCb_bonds (env : Env) (c : ClientId) (s : Server) :
    (bufErrorCb F env c s).bonds F s₀ =
      { (storeCollDev F c (intWord env collectorBad) s).bonds F s₀ with
        live := (storeCollDev F c (intWord env collectorBad) s).clients.erase c } := by
  have hcl : ∀ s₁ : Server, (disownAll c (unwatch c s₁.alldevs s₁)).clients = s₁.clients := by
    intro s₁
    rw [disownAll_frame, unwatch_frame]
  have hall : ∀ s₁ : Server, (disownAll c (unwatch c s₁.alldevs s₁)).alldevs = s₁.alldevs := by
    intro s₁
    rw [disownAll_frame, unwatch_frame]
  have hcoll : ∀ (s₁ : Server) (c' : ClientId),
      ((disownAll c (unwatch c s₁.alldevs s₁)).client c').collDev = (s₁.client c').collDev := by
    intro s₁ c'
    rw [disownAll_client]
    split <;> exact unwatch_collDev c _ s₁ c'
  have hdata : ∀ (s₁ : Server) (d : DevId), ((disownAll c (unwatch c s₁.alldevs s₁)).dev d).data = (s₁.dev d).data := by
    intro s₁ d
    rw [disownAll_dev, unwatch_dev]
    rfl
  generalize hs₁ : storeCollDev F c (intWord env collectorBad) s = s₁
  have hb : bufErrorCb F env c s = { (disownAll c (unwatch c s₁.alldevs s₁)).modClient c fun cl => { cl with wdevices := [] } with
      clients := (disownAll c (unwatch c s₁.alldevs s₁)).clients.erase c } := by
    rw [← hs₁]
    rfl
  rw [hb]
  ext1
  · change (disownAll c (unwatch c s₁.alldevs s₁)).clients.erase c = _
    rw [hcl]
  · rename_i c'
    change (((disownAll c (unwatch c s₁.alldevs s₁)).modClient c fun cl => { cl with wdevices := [] }).client c').collDev =
      (s₁.client c').collDev
    rw [Server.modClient_client]
    split
    · rename_i he
      rw [he]
      exact hcoll s₁ c
    · exact hcoll s₁ c'
  · rename_i x
    change (x ∈ (disownAll c (unwatch c s₁.alldevs s₁)).alldevs ∧ x ∉ s₀.alldevs ∧
      CollectorOk F ((disownAll c (unwatch c s₁.alldevs s₁)).dev x)) ↔ (x ∈ s₁.alldevs ∧ x ∉ s₀.alldevs ∧ CollectorOk F (s₁.dev x))
    unfold CollectorOk
    rw [hall, hdata]

/-- The end of a connection is a leave. -/
theorem bonds_leave {s : Server} (h : Tracking s₀ s) (c : ClientId) (env : Env) :
    (bufErrorCb F env c s).bonds F s₀ = (s.bonds F s₀).leave c := by
  have hcl : (storeCollDev F c (intWord env collectorBad) s).clients = s.clients := (quiet_storeCollDev F c _ s).clients
  rw [bufErrorCb_bonds, bonds_ill F h, hcl]
  rfl

theorem tracking_bufErrorCb {s : Server} (h : Tracking s₀ s) (c : ClientId) (env : Env) :
    Tracking s₀ (bufErrorCb F env c s) :=
  tracking_of_type h (by rw [bufErrorCb_frame]) fun d => (keeps_bufErrorCb F env c s d).type

/-! ## Binding -/

/-- The uid of the tracking device a client asks for. -/
def trackUid (cl : Client) (cli : Str) : Str := cli ++ str "-" ++ cl.host.getD (str "unknown")

theorem tracking_quiet {s s' : Server} (h : Tracking s₀ s) (hq : Quiet s s') : Tracking s₀ s' :=
  tracking_of_type h hq.alldevs hq.type

/-- A tracking device that was just made holds no state yet. -/
theorem bonds_track {s : Server} (hr : Registry s) {dev : Device} (hf : s.findDeviceByUid dev.uid = none)
    (hq : dev.onqAll = false) (hdata : ¬ CollectorOk F dev) :
    ((s.newDevice dev).insertDevice s.nextDev).bonds F s₀ = s.bonds F s₀ := by
  rw [track_eq hf hq]
  ext1
  · rfl
  · rfl
  · rename_i x
    change (x ∈ s.alldevs ++ [s.nextDev] ∧ x ∉ s₀.alldevs ∧
      CollectorOk F (Function.update s.dev s.nextDev { dev with onqAll := true, nodata := true } x)) ↔
      (x ∈ s.alldevs ∧ x ∉ s₀.alldevs ∧ CollectorOk F (s.dev x))
    by_cases hx : x = s.nextDev
    · subst hx
      simp only [hr.notMem, false_and, iff_false, Function.update_self]
      exact fun h => hdata h.2.2
    · simp [hx]

theorem tracking_track {s : Server} (h : Tracking s₀ s) {dev : Device} (hf : s.findDeviceByUid dev.uid = none)
    (hq : dev.onqAll = false) (ht : dev.type = deviceSwitch) :
    Tracking s₀ ((s.newDevice dev).insertDevice s.nextDev) := by
  rw [track_eq hf hq]
  rintro x ⟨hx, hx₀⟩
  change (Function.update s.dev s.nextDev { dev with onqAll := true, nodata := true } x).type = _
  by_cases he : x = s.nextDev
  · rw [he, Function.update_self]
    exact ht
  · rw [Function.update_of_ne he]
    refine h x ⟨?_, hx₀⟩
    rcases List.mem_append.mp hx with hx | hx
    · exact hx
    · exact absurd (List.mem_singleton.mp hx) he

/-- A client that is bound to a device, which is set to `COLLECTOR_OK`. -/
theorem bonds_bindTo {s : Server} (h : Tracking s₀ s) (c : ClientId) (d : DevId) (env : Env) :
    ((s.modClient c fun cl => { cl with collDev := some d }).modDev d
      (storeDataDev F .data (intWord env collectorOk))).bonds F s₀ = (s.bonds F s₀).bind (s₀.created s) c d := by
  have h' : Tracking s₀ (s.modClient c fun cl => { cl with collDev := some d }) := tracking_quiet h (Quiet.modClient s c rfl)
  ext1
  · rfl
  · rename_i c'
    change ((s.modClient c fun cl => { cl with collDev := some d }).client c').collDev =
      Function.update (fun c => (s.client c).collDev) c (some d) c'
    rw [Server.modClient_client, Function.update_apply]
    split <;> rfl
  · rename_i x
    rw [well_store F h']
    change _ ↔ (s.bonds F s₀).well x ∨ (x = d ∧ s₀.created s d)
    split
    · rename_i he
      subst he
      rw [low_intWord]
      simp only [true_and, and_true]
      exact ⟨Or.inr, fun hx => hx.elim (fun hx => ⟨hx.1, hx.2.1⟩) id⟩
    · rename_i he
      simp only [he, false_and, or_false]
      rfl

/-- `cmd_client` does nothing, or binds the client to the tracking device of the uid. -/
theorem bonds_cmdClient {s : Server} (hr : Registry s) (h : Tracking s₀ s) {env : Env} {args : List PArg} {c : ClientId}
    {r : Reply} (hrun : cmdClient F env args c s = .ok r) : Tracking s₀ r.srv ∧
    ((r.srv = s ∧ ∀ cli, lastArg .client args = some cli → cli = str "handler") ∨
      ∃ cli x, lastArg .client args = some cli ∧ cli ≠ str "handler" ∧
        (∀ y ∈ s.alldevs, y = x ↔ (s.dev y).uid = trackUid (s.client c) cli) ∧
        r.srv.bonds F s₀ = (s.bonds F s₀).bind (s₀.created r.srv) c x) := by
  unfold cmdClient at hrun
  split at hrun
  · rename_i hc
    cases hrun
    exact ⟨h, Or.inl ⟨rfl, fun cli hcli => by rw [hc] at hcli; cases hcli⟩⟩
  · rename_i cli hc
    obtain ⟨cliaddr, hca, hrun⟩ := Except.bind_eq_ok.mp hrun
    split at hrun
    · rename_i hh
      cases hrun
      refine ⟨h, Or.inl ⟨rfl, fun cli' hcli => ?_⟩⟩
      rw [hc, Option.some.injEq] at hcli
      exact hcli ▸ hh
    · rename_i hh
      obtain ⟨uid, huid, hrun⟩ := Except.bind_eq_ok.mp hrun
      have hu : uid = trackUid (s.client c) cli := by
        unfold sprintf at hca huid
        split at hca
        · cases hca
          split at huid
          · cases huid
            rfl
          · cases huid
        · cases hca
      split at hrun
      · rename_i hf
        obtain ⟨name, -, hrun⟩ := Except.bind_eq_ok.mp hrun
        obtain ⟨buf, -, hrun⟩ := Except.bind_eq_ok.mp hrun
        cases hrun
        let dev : Device :=
          { uid := uid, name := some name, rrdname := some (mkRrdname buf), type := deviceSwitch, proto := protoCollector,
            subtype := subtypeCollector, collector := some c }
        let s₁ := (s.newDevice dev).insertDevice s.nextDev
        have ht₁ : Tracking s₀ s₁ := tracking_track h hf rfl rfl
        have hdata : ¬ CollectorOk F dev := by
          change ¬ (0#64).setWidth 8 = collectorOk.setWidth 8
          decide
        have hb₁ : s₁.bonds F s₀ = s.bonds F s₀ := bonds_track F hr hf rfl hdata
        have hsrv : (((({ s with dev := Function.update s.dev s.nextDev dev, nextDev := s.nextDev + 1 } : Server).modClient c
            fun cl => { cl with collDev := some s.nextDev }).insertDevice s.nextDev).modDev s.nextDev
            (storeDataDev F .data (intWord env collectorOk))) =
          (s₁.modClient c fun cl => { cl with collDev := some s.nextDev }).modDev s.nextDev
            (storeDataDev F .data (intWord env collectorOk)) := by
          have h1 := @track_eq s dev hf rfl
          have h2 := @track_eq (s.modClient c fun cl => { cl with collDev := some s.nextDev }) dev hf rfl
          have h3 : ({ s with dev := Function.update s.dev s.nextDev dev, nextDev := s.nextDev + 1 } : Server).modClient c
              (fun cl => { cl with collDev := some s.nextDev }) =
            (s.modClient c fun cl => { cl with collDev := some s.nextDev }).newDevice dev := rfl
          rw [h3, show s₁ = (s.newDevice dev).insertDevice s.nextDev from rfl, h1]
          refine congrArg (fun s : Server => s.modDev _ (storeDataDev F .data (intWord env collectorOk))) ?_
          exact h2
        refine ⟨?_, Or.inr ⟨cli, s.nextDev, hc, hh, fun y hy => ?_, ?_⟩⟩
        · dsimp only
          rw [hsrv]
          exact tracking_quiet ht₁ ((Quiet.modClient s₁ c rfl).trans (Quiet.modDev _ _ (core_storeDataDev F _ _)))
        · constructor
          · intro he
            exact absurd (he ▸ hy) hr.notMem
          · intro he
            have hy' := (hr.found uid y).mpr ⟨hy, he.trans hu.symm⟩
            rw [hf] at hy'
            cases hy'
        · dsimp only
          rw [hsrv, bonds_bindTo F ht₁, hb₁]
          rfl
      · rename_i d hf
        cases hrun
        refine ⟨?_, Or.inr ⟨cli, d, hc, hh, fun y hy => ?_, ?_⟩⟩
        · exact tracking_quiet h ((Quiet.modClient s c rfl).trans (Quiet.modDev _ _ (core_storeDataDev F _ _)))
        · rw [← hu]
          constructor
          · intro he
            rw [he]
            exact ((hr.found uid d).mp hf).2
          · intro he
            have hy' := (hr.found uid y).mpr ⟨hy, he⟩
            rw [hf] at hy'
            exact (Option.some.inj hy').symm
        · dsimp only
          rw [bonds_bindTo F h]
          rfl

/-! ## The other handlers -/

/-- The commands that write what the clients report, or ask for, into devices. -/
def Cmd.writes : Cmd → Bool
  | .chg | .reg | .upd | .mod => true
  | _ => false

/-- The commands that concern tracking devices. -/
def Cmd.tracks : Cmd → Bool
  | .client | .imalive | .disconnect => true
  | _ => false

/-- The other commands keep the bonds. -/
theorem bonds_run {env : Env} {cmd : Cmd} (hw : cmd.writes = false) (ht : cmd.tracks = false) {args : List PArg} {c : ClientId}
    {s : Server} {r : Reply} (h : cmd.run F env args c s = .ok r) : r.srv.bonds F s₀ = s.bonds F s₀ := by
  have hmod : ∀ (s : Server) (f : Client → Client), (∀ cl, (f cl).collDev = cl.collDev) →
      (s.modClient c f).bonds F s₀ = s.bonds F s₀ := fun s f => bonds_modClient F s c
  cases cmd with
  | regg =>
    cases h
    have hg := onlyGroups_cmdRegisterGroup args c s
    exact bonds_congr F hg.clients (fun c' => by rw [hg.client]) hg.alldevs (fun d _ => by rw [hg.dev])
  | feed =>
    have h : cmdFeed args c s = .ok r := h
    unfold cmdFeed at h
    split at h
    · cases h
      rfl
    · split at h
      · cases h
        rfl
      · dsimp only at h
        split at h
        · obtain ⟨g, -, h⟩ := Except.bind_eq_ok.mp h
          cases h
          rw [hmod _ _ (by intro; rfl)]
          exact hmod s _ (by intro; rfl)
        · cases h
          rw [hmod _ _ (by intro; rfl)]
          exact hmod s _ (by intro; rfl)
  | cfeed =>
    cases h
    obtain h | ⟨uid, d, -, h⟩ := cmdCfeed_cases args c s
    · rw [h]
    · rw [h, Server.addWrappedClient, hmod _ _ (by intro; rfl)]
      refine bonds_congr F rfl (fun _ => rfl) rfl fun x _ => ?_
      rw [Server.modDev_dev]
      split
      · rename_i he
        rw [he]
      · rfl
  | ldevs => cases h; rfl
  | lgrps => rw [srv_cmdListGroups h]
  | ask => rw [srv_cmdAskDevice F h]
  | askf => rw [srv_cmdAskFullDevice F h]
  | cactiask => rw [srv_cmdCactiaskDevice F h]
  | ping => cases h; rfl
  | setalarm =>
    cases h
    unfold cmdSetalarm
    split <;> rfl
  | listenalarms => cases h; exact hmod s _ fun _ => rfl
  | dumpalarms => cases h; rfl
  | getapiv => cases h; rfl
  | chg | reg | upd | mod => cases hw
  | client | imalive | disconnect => cases ht

theorem tracking_run {env : Env} {cmd : Cmd} (hw : cmd.writes = false) (hc : cmd ≠ .client) {args : List PArg} {c : ClientId}
    {s : Server} {r : Reply} (h : cmd.run F env args c s = .ok r) (ht : Tracking s₀ s) : Tracking s₀ r.srv := by
  by_cases hq : cmd.quiet = true
  · exact tracking_quiet ht (quiet_run F hq h)
  · cases cmd with
    | regg =>
      cases h
      have hg := onlyGroups_cmdRegisterGroup args c s
      exact tracking_of_type ht hg.alldevs fun d => by rw [hg.dev]
    | cfeed =>
      cases h
      obtain h | ⟨uid, d, -, h⟩ := cmdCfeed_cases args c s
      · rw [h]
        exact ht
      · rw [h]
        refine tracking_of_type ht rfl fun x => ?_
        change ((s.modDev d fun dev => { dev with watchers := dev.watchers ++ [c] }).dev x).type = _
        rw [Server.modDev_dev]
        split
        · rename_i he
          rw [he]
        · rfl
    | client => exact absurd rfl hc
    | chg | reg | upd | mod => cases hw
    | _ => exact absurd rfl hq

/-! ## The timers -/

/-- No tracking device counts down. -/
theorem bonds_timerdevUpdate {s : Server} (h : Tracking s₀ s) (ds : List DevId) :
    (timerdevUpdate F ds s).bonds F s₀ = s.bonds F s₀ := by
  induction ds generalizing s with
  | nil => rfl
  | cons d ds ih =>
    simp only [timerdevUpdate]
    split
    · rename_i htimer
      split
      · exact ih h
      · refine (ih (tracking_quiet h (Quiet.modDev s d (core_storeDataDev F _ _)))).trans ?_
        refine bonds_congr F rfl (fun _ => rfl) rfl fun x hx => ?_
        rw [Server.modDev_dev]
        split
        · rename_i he
          have hty := h x hx
          rw [he] at hty
          have := htimer.1
          rw [Device.devType, hty] at this
          cases this
        · rfl
    · exact ih h

/-- The health check only makes clients ill. -/
theorem bonds_healthUpdateClientsCb {s : Server} (h : Tracking s₀ s) (env : Env) (cs : List ClientId) :
    ((healthUpdateClientsCb F env cs s).bonds F s₀).live = (s.bonds F s₀).live ∧
    ((healthUpdateClientsCb F env cs s).bonds F s₀).bound = (s.bonds F s₀).bound ∧
    ∀ x, ((healthUpdateClientsCb F env cs s).bonds F s₀).well x → (s.bonds F s₀).well x := by
  induction cs generalizing s with
  | nil => exact ⟨rfl, rfl, fun _ => id⟩
  | cons c cs ih =>
    unfold healthUpdateClientsCb
    split
    · obtain ⟨h1, h2, h3⟩ := ih (tracking_storeCollDev F h c (intWord env collectorBad))
      rw [bonds_ill F h] at h1 h2 h3
      exact ⟨h1, h2, fun x hx => (h3 x hx).1⟩
    · exact ih h

end Gnhast
