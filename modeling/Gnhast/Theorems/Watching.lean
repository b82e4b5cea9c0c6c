import Gnhast.Lemmas.Feeds
import Gnhast.Theorems.Ownership
import Gnhast.Theorems.Scale

/-!
# What clients watch is counted

A `cfeed` line puts a client at the end of the watchers of a device and counts it. Nothing else writes a counter but the end of the
connection, which takes the client out of every list and counts down. So the counter, an `uint32_t`, is the number of entries modulo
`2^32`, and after the loop of `buf_error_cb` it is zero. An update is sent once for each entry as long as the device is complete.
-/

namespace Gnhast

open CStr Ownership Runs

variable (F : Doubles)

/-- How often a client stands in the lists of watchers of all devices. -/
def Server.watches (s : Server) (c : ClientId) : Nat := Refcount.total s.alldevs (fun d => (s.dev d).watchers) c

theorem watches_own (s : Server) (c : ClientId) : (own s).watches c = s.watches c := rfl

/-- Every counter is the number of entries, modulo `2^32`. -/
def WatchesCounted (s : Server) : Prop := ∀ c ∈ s.clients, (s.client c).watched.toNat = s.watches c % 2 ^ 32

/-- The clients when the loop of `buf_error_cb` over all devices is done. -/
def unwatched (env : Env) (c : ClientId) (s : Server) : Server :=
  unwatch c s.alldevs (storeCollDev F c (intWord env collectorBad) s)

/-- When a connection ends, the loop leaves a counter of zero, so that `buf_error_cb` does not log that the client is still watched,
and no entry of the client. -/
def ClosesUnwatched (s : Server) (e : Event) : Prop :=
  ∀ c env, e = .close c env ∨ e = .drained c env →
    ((unwatched F env c s).client c).watched = 0 ∧ (unwatched F env c s).watches c = 0

/-- The update of a device is sent once for every entry of its watchers; what else is sent goes to a handler that was started. -/
def ToldWatchers (s : Server) (d : DevId) (r : Reply) : Prop :=
  ∃ started line, r.out = started ++ (s.dev d).watchers.map (fun c => Out.write c line) ∧ WritesTo (· = s.nextClient) started ∧
    gnUpdateDevice F (r.srv.dev d) gncUpdRrdname = .ok (some line)

/-- An `upd` line is for a device. -/
def Updates (s : Server) (e : Event) (d : DevId) : Prop :=
  ∃ c text env args uid, e = .line c text env ∧ lineCmd F text = some (.upd, args) ∧ lastArg .uid args = some uid ∧
    s.findDeviceByUid uid = some d

/-- Every update of a device that is complete is told to its watchers. -/
def TellsWatchers (s : Server) (e : Event) : Prop :=
  ∀ d r, Updates F s e d → react F s e = some r → (s.dev d).Complete → ToldWatchers F s d r

/-! ## The loop of `buf_error_cb` -/

/-- What the loop leaves of the counters. -/
theorem watched_unwatch (c : ClientId) {ds : List DevId} (hn : ds.Nodup) (s : Server) (c' : ClientId) :
    ((unwatch c ds s).client c').watched =
      if c' = c then (s.client c').watched - BitVec.ofNat 32 (Refcount.total ds (fun d => (s.dev d).watchers) c)
      else (s.client c').watched := by
  induction ds generalizing s with
  | nil =>
    change (s.client c').watched = if c' = c then (s.client c').watched - 0#32 else (s.client c').watched
    rw [BitVec.sub_zero, ite_self]
  | cons d ds ih =>
    obtain ⟨hd, hn⟩ := List.nodup_cons.mp hn
    have hrest : ∀ (f : Device → Device) (g : Client → Client),
        Refcount.total ds (fun x => (((s.modDev d f).modClient c g).dev x).watchers) c =
          Refcount.total ds (fun x => (s.dev x).watchers) c := by
      intro f g
      unfold Refcount.total
      congr 1
      refine List.flatMap_congr fun x hx => ?_
      have hne : x ≠ d := fun he => hd (he ▸ hx)
      change ((s.modDev d f).dev x).watchers = _
      rw [Server.modDev_dev, if_neg hne]
    unfold unwatch
    dsimp only
    rw [ih hn, hrest, Server.modClient_client, Refcount.total_cons]
    by_cases he : c' = c
    · rw [if_pos he, if_pos he, if_pos he, BitVec.ofNat_add, he]
      exact BitVec.sub_sub ..
    · rw [if_neg he, if_neg he, if_neg he]
      rfl

theorem watched_unwatched {s : Server} (hr : Registry s) (env : Env) (c c' : ClientId) :
    ((unwatched F env c s).client c').watched =
      if c' = c then (s.client c').watched - BitVec.ofNat 32 (s.watches c) else (s.client c').watched := by
  have hq := quiet_storeCollDev F c (intWord env collectorBad) s
  have hcl := client_storeCollDev F c (intWord env collectorBad) s
  have hw : Refcount.total s.alldevs (fun d => ((storeCollDev F c (intWord env collectorBad) s).dev d).watchers) c = s.watches c := by
    have : (fun d => ((storeCollDev F c (intWord env collectorBad) s).dev d).watchers) = fun d => (s.dev d).watchers :=
      funext hq.watchers
    rw [this]
    rfl
  rw [unwatched, watched_unwatch c hr.nodup, hcl, hw]

/-- `buf_error_cb` leaves the counters as the loop does. -/
theorem watched_bufErrorCb {s : Server} (hr : Registry s) (env : Env) (c c' : ClientId) :
    ((bufErrorCb F env c s).client c').watched =
      if c' = c then (s.client c').watched - BitVec.ofNat 32 (s.watches c) else (s.client c').watched := by
  have hq := quiet_storeCollDev F c (intWord env collectorBad) s
  have hb : (bufErrorCb F env c s).client =
      ((disownAll c (unwatched F env c s)).modClient c fun cl => { cl with wdevices := [] }).client := by
    unfold unwatched
    rw [← hq.alldevs]
    rfl
  have hkeep : ((disownAll c (unwatched F env c s)).client c').watched = ((unwatched F env c s).client c').watched := by
    rw [disownAll_client]
    split <;> rfl
  rw [← watched_unwatched F hr, ← hkeep, hb, Server.modClient_client]
  split
  · rename_i he
    rw [he]
  · rfl

/-! ## One step -/

theorem watched_cmdFeed {args : List PArg} {c : ClientId} {s : Server} {r : Reply} (h : cmdFeed args c s = .ok r) (c' : ClientId) :
    (r.srv.client c').watched = (s.client c').watched := by
  have hmod : ∀ (s : Server) (f : Client → Client), (∀ cl, (f cl).watched = cl.watched) →
      ((s.modClient c f).client c').watched = (s.client c').watched := by
    intro s f hf
    rw [Server.modClient_client]
    split
    · rename_i he
      rw [hf, he]
    · rfl
  have hadd : ∀ d rate scale, ((s.addWrappedDevice d c rate scale).client c').watched = (s.client c').watched := by
    intro d rate scale
    unfold Server.addWrappedDevice
    rw [hmod]
    exact fun _ => rfl
  unfold cmdFeed at h
  dsimp only at h
  split at h
  · cases h
    rfl
  · split at h
    · cases h
      rfl
    · split at h
      · obtain ⟨g, -, h⟩ := Except.bind_eq_ok.mp h
        cases h
        dsimp only
        rw [hmod, hadd]
        exact fun _ => rfl
      · cases h
        dsimp only
        rw [hmod, hadd]
        exact fun _ => rfl

/-- A line is a `cfeed` line. -/
def IsCfeed (e : Event) : Prop := ∃ c text env args, e = .line c text env ∧ lineCmd F text = some (.cfeed, args)

/-- What happens apart from `cfeed` lines and the end of a connection keeps every counter; that of a new client is zero. -/
theorem watched_step {s s' : Server} {e : Event} (hs : step F s e = some s') (hc : e.closes = none) (hw : ¬ IsCfeed F e) (c : ClientId) :
    (s'.client c).watched = (s.client c).watched ∨ (c = s.nextClient ∧ (s'.client c).watched = 0) := by
  rcases feeding_step F hs with hk | ⟨c', env, -, rfl | rfl, -⟩ | ⟨c', text, env, args, r, -, -, h, rfl⟩ |
    ⟨c', text, env, args, he, -, hl, -⟩ | ⟨c', now, r, -, h, rfl⟩
  · rcases hk c with hk | ⟨hn, hk⟩
    · exact Or.inl (Client.field_of_feeding Client.watched (fun _ => rfl) hk)
    · exact Or.inr ⟨hn, @Client.field_of_feeding _ Client.watched (fun _ => rfl) _ {} hk⟩
  · cases hc
  · cases hc
  · left
    rw [watched_cmdFeed h]
    exact Client.field_of_feeding Client.watched (fun _ => rfl) (feeding_mark s c' env c)
  · exact absurd ⟨c', text, env, args, he, hl⟩ hw
  · left
    obtain ⟨x, -, rfl⟩ := Except.map_eq_ok.mp h
    rw [Server.modClient_client]
    split
    · rename_i he
      rw [he]
    · rfl

/-- What is kept of the counters: each is the number of entries modulo `2^32`, and a client that is not connected has none. -/
structure Watching (s : Server) : Prop where
  counted : ∀ c, (s.client c).watched = BitVec.ofNat 32 (s.watches c)
  gone : ∀ c, c ∉ s.clients → s.watches c = 0

theorem Watching.watchesCounted {s : Server} (h : Watching s) : WatchesCounted s := by
  intro c _
  rw [h.counted c, BitVec.toNat_ofNat]

/-- Steps without a `cfeed` line keep the counters and the entries. -/
theorem watching_other {s s' : Server} {e : Event} (hr : Registry s) (h : Watching s) (hs : step F s e = some s')
    (hc : e.closes = none) (hw : ¬ IsCfeed F e) : Watching s' := by
  have hown : (∀ c, s'.watches c = s.watches c) ∧ s.clients ⊆ s'.clients := by
    obtain ho | ⟨op, hcause, ha, ho⟩ := own_step F hr hs
    · refine ⟨fun c => ?_, ?_⟩
      · rw [← watches_own, ho, watches_own]
      · have : s'.clients = s.clients := congrArg Own.live ho
        rw [this]
        exact List.Subset.refl _
    · have hwatch : ∀ k d, op ≠ .watch k d := by
        rintro k d rfl
        cases hcause with
        | watch hl _ => exact hw ⟨_, _, _, _, rfl, hl⟩
      have hdrop : ∀ k, op ≠ .drop k := by
        rintro k rfl
        cases hcause with
        | drop hd => exact absurd (hc.symm.trans hd) (by simp)
      refine ⟨fun c => ?_, ?_⟩
      · rw [← watches_own, ho, Own.watches_apply ha hwatch hdrop, watches_own]
      · have : s'.clients = ((own s).apply op).live := congrArg Own.live ho
        rw [this]
        exact @Own.live_subset_apply _ _ _ _ (own s) op hdrop
  obtain ⟨hsame, hsub⟩ := hown
  refine ⟨fun c => ?_, fun c hn => ?_⟩
  · rw [hsame]
    rcases watched_step F hs hc hw c with hk | ⟨rfl, hk⟩
    · rw [hk, h.counted]
    · have hnew : s.nextClient ∉ s.clients := fun hm => Nat.lt_irrefl _ (hr.clients_below _ hm)
      rw [hk, h.gone _ hnew]
      rfl
  · rw [hsame]
    exact h.gone c fun hm => hn (hsub hm)

/-- A watch is counted. -/
theorem watching_addWrappedClient {s : Server} (hr : Registry s) (h : Watching s) {c : ClientId} (hc : c ∈ s.clients) {d : DevId}
    (hd : d ∈ s.alldevs) : Watching (s.addWrappedClient c d) := by
  have hw : ∀ c', (s.addWrappedClient c d).watches c' = s.watches c' + if c' = c then 1 else 0 := by
    intro c'
    rw [← watches_own, own_addWrappedClient, Own.watches_watch hr.nodup hd, watches_own]
  refine ⟨fun c' => ?_, fun c' hn => ?_⟩
  · rw [hw, Server.addWrappedClient, Server.modClient_client]
    by_cases he : c' = c
    · rw [if_pos he, if_pos he, BitVec.ofNat_add, ← h.counted c', he]
      rfl
    · rw [if_neg he, if_neg he, Nat.add_zero]
      exact h.counted c'
  · have hn : c' ∉ s.clients := hn
    have hne : c' ≠ c := fun he => hn (he ▸ hc)
    rw [hw, if_neg hne, h.gone c' hn]

theorem watching_mark {s : Server} (h : Watching s) (c : ClientId) (env : Env) : Watching (s.mark c env) := by
  refine ⟨fun c' => ?_, h.gone⟩
  rw [Client.field_of_feeding Client.watched (fun _ => rfl) (feeding_mark s c env c')]
  exact h.counted c'

/-- The end of a connection leaves no entry, and no count. -/
theorem watching_bufErrorCb {s : Server} (hs : Sound s) (h : Watching s) (env : Env) (c : ClientId) :
    Watching (bufErrorCb F env c s) := by
  have hw : ∀ c', (bufErrorCb F env c s).watches c' = if c' = c then 0 else s.watches c' := by
    intro c'
    rw [← watches_own, own_bufErrorCb, Own.watches_drop, watches_own]
  refine ⟨fun c' => ?_, fun c' hn => ?_⟩
  · rw [hw, watched_bufErrorCb F hs.1]
    by_cases he : c' = c
    · rw [if_pos he, if_pos he, he, h.counted c, BitVec.sub_self]
    · rw [if_neg he, if_neg he]
      exact h.counted c'
  · rw [hw]
    split
    · rfl
    · rename_i hne
      refine h.gone c' fun hm => hn ?_
      rw [bufErrorCb_frame]
      exact hs.2.live_nodup.mem_erase_iff.mpr ⟨hne, hm⟩

theorem watching_step {s s' : Server} {e : Event} (hI : Sound s ∧ Watching s) (hs : step F s e = some s') :
    Sound s' ∧ Watching s' := by
  obtain ⟨hsound, h⟩ := hI
  refine ⟨sound_step F hsound hs, ?_⟩
  by_cases hw : IsCfeed F e
  · obtain ⟨c, text, env, args, rfl, hl⟩ := hw
    obtain ⟨hc, r, hrun, rfl⟩ := step_line F hl hs
    cases hrun
    have hm := watching_mark h c env
    have hrm : Registry (s.mark c env) := hsound.1.quiet (quiet_mark s c env)
    obtain hsame | ⟨uid, d, hf, hsrv⟩ := cmdCfeed_cases args c (s.mark c env)
    · rw [hsame]
      exact hm
    · rw [hsrv]
      exact watching_addWrappedClient hrm hm hc ((hrm.found _ _).mp hf).1
  · cases hcl : e.closes with
    | none => exact watching_other F hsound.1 h hs hcl hw
    | some c =>
      obtain ⟨r, hr, rfl⟩ := (step_eq_some F).mp hs
      obtain ⟨-, hh⟩ := (react_eq_some F).mp hr
      cases e with
      | close c env =>
        cases hh
        exact watching_bufErrorCb F hsound h env c
      | drained c env =>
        cases hh
        exact watching_bufErrorCb F hsound h env c
      | accept | data | line | feed | timer | ping | health | devconf => cases hcl

/-- The server starts without entries and without counts. -/
theorem watching_startup {cfg : Config} {s : Server} (h : startup F cfg = .ok s) : Watching s := by
  have hw : ∀ c, s.watches c = 0 := by
    intro c
    refine Refcount.total_eq_zero_iff.mpr fun d _ hm => ?_
    have hm : c ∈ (s.dev d).watchers := hm
    rw [(startup_registry F h).2.watchers d] at hm
    cases hm
  refine ⟨fun c => ?_, fun c _ => hw c⟩
  rw [hw, (onlyGroups_parseDevgroups h).client, client_initDevtable]
  rfl

/-- The loop of `buf_error_cb` leaves nothing of the client. -/
theorem closesUnwatched {s : Server} {e : Event} (hs : Sound s) (h : Watching s) : ClosesUnwatched F s e := by
  intro c env _
  have hq := quiet_storeCollDev F c (intWord env collectorBad) s
  constructor
  · rw [watched_unwatched F hs.1, if_pos rfl, h.counted c, BitVec.sub_self]
    rfl
  · refine Refcount.total_eq_zero_iff.mpr fun d hd hm => ?_
    have hd : d ∈ s.alldevs := by
      rw [unwatched, unwatch_frame] at hd
      exact hq.alldevs ▸ hd
    rw [unwatched, unwatch_dev, Device.unlink, if_pos (decide_eq_true hd)] at hm
    exact absurd rfl (of_decide_eq_true (List.mem_filter.mp hm).2)

/-! ## What is sent -/

/-- What `cmd_update` sends for a device that is known. -/
theorem cmdUpdate_found {env : Env} {args : List PArg} {c : ClientId} {s : Server} {uid : Str} {d : DevId}
    (hu : (lastArg .uid args : Option Str) = some uid) (hf : s.findDeviceByUid uid = some d) {r : Reply}
    (h : cmdUpdate F env args c s = .ok r) :
    Keeps (s.dev d) (r.srv.dev d) ∧ ∃ started told, r.out = started ++ told ∧ WritesTo (· = s.nextClient) started ∧
      updateEach F (r.srv.dev d) gncUpdRrdname (s.dev d).watchers = .ok told := by
  have hq := Quiet.modDev s d (core_storeArgs F args (s.dev d))
  unfold cmdUpdate at h
  rw [hu] at h
  dsimp only at h
  rw [hf] at h
  obtain ⟨⟨s', out⟩, h1, h⟩ := Except.bind_eq_ok.mp h
  obtain ⟨told, h2, h⟩ := Except.bind_eq_ok.mp h
  cases h
  have hs' : s'.dev = (s.modDev d (storeArgs F args)).dev ∧ WritesTo (· = s.nextClient) out := by
    unfold runHandlerOnUpdate at h1
    split at h1
    · obtain ⟨rfl, rfl⟩ | ⟨rfl, line, rfl⟩ := runHandlerDev_cases F h1
      · exact ⟨rfl, WritesTo.nil⟩
      · exact ⟨rfl, @WritesTo.emit (· = s.nextClient) s.nextClient rfl line⟩
    · cases h1
      exact ⟨rfl, WritesTo.nil⟩
  have hw : (s'.dev d).watchers = (s.dev d).watchers := by
    rw [hs'.1]
    exact hq.watchers d
  refine ⟨?_, out, told, rfl, hs'.2, ?_⟩
  · change Keeps (s.dev d) (s'.dev d)
    rw [hs'.1]
    exact hq.keeps d
  · rw [← hw]
    exact h2

/-- An update of a complete device is told to its watchers. -/
theorem told_update {s : Server} {d : DevId} {e : Event} (hu : Updates F s e d) (hd : (s.dev d).Complete) {r : Reply}
    (hr : react F s e = some r) : ToldWatchers F s d r := by
  obtain ⟨c, text, env, args, uid, rfl, hl, hua, hf⟩ := hu
  obtain ⟨-, hrun⟩ := react_line F hl hr
  have hfound : (s.mark c env).findDeviceByUid uid = some d := hf
  obtain ⟨hk, started, told, hout, hstart, htold⟩ := @cmdUpdate_found F env args c _ uid d hua hfound r hrun
  obtain ⟨line, hline⟩ := exists_watcherLine F (hk.complete hd)
  refine ⟨started, line, ?_, hstart, hline⟩
  rw [updateEach, hline] at htold
  cases htold
  rw [hout]
  congr 1
  exact (List.map_eq_flatMap ..).symm

/-! ## Runs -/

/-- In every run the counters are the numbers of entries modulo `2^32`, each connection ends with a counter of zero, and each update of
a complete device is sent once for every entry. -/
theorem watching {cfg : Config} {s₀ : Server} (h : startup F cfg = .ok s₀) (es : List Event) :
    Throughout (step F) WatchesCounted s₀ es ∧ Along (step F) (ClosesUnwatched F) s₀ es ∧ Along (step F) (TellsWatchers F) s₀ es := by
  have h0 : Sound s₀ ∧ Watching s₀ := ⟨sound_startup F h, watching_startup F h⟩
  have hstep : ∀ s e s', Sound s ∧ Watching s → step F s e = some s' → Sound s' ∧ Watching s' :=
    fun _ _ _ hI hs => watching_step F hI hs
  have hinv : Throughout (step F) (fun s => Sound s ∧ Watching s) s₀ es :=
    throughout_of_along (fun s e s' hI _ hs => hstep s e s' hI hs) h0 (along_of_invariant hstep (fun _ _ _ _ _ => trivial) h0 es)
  refine ⟨hinv.mono fun s hI => hI.2.watchesCounted, along_of_invariant hstep (fun s e s' hI hs => ?_) h0 es,
    along_of_invariant hstep (fun s e s' hI hs => ?_) h0 es⟩
  · exact closesUnwatched F hI.1 hI.2
  · intro d r hu hr hd
    exact told_update F hu hd hr

/-- A client registers a device, and watches it. -/
def fanWatched : List Event :=
  [.accept 0 10 0 0 1, .line 0 (str "reg uid:fan name:Fan devt:1 proto:1 subt:1") {}, .line 0 (str "cfeed uid:fan") {}]

theorem watching_fan : Throughout (step Doubles.exact) WatchesCounted {} (fanWatched ++ [.close 0 {}]) ∧
    Along (step Doubles.exact) (ClosesUnwatched Doubles.exact) {} (fanWatched ++ [.close 0 {}]) ∧
    Along (step Doubles.exact) (TellsWatchers Doubles.exact) {} (fanWatched ++ [.close 0 {}]) :=
  @watching Doubles.exact {} {} rfl _

/-! ## Where more is said than holds -/

/-- Every counter is the number of entries. -/
def WatchesEqual (s : Server) : Prop := ∀ c ∈ s.clients, (s.client c).watched.toNat = s.watches c

/-- Every update of a device is told to its watchers. -/
def TellsAll (s : Server) (e : Event) : Prop := ∀ d r, Updates F s e d → react F s e = some r → ToldWatchers F s d r

/-- Each `cfeed` line is one more entry. -/
theorem exec_cfeeds {c : ClientId} {text : Str} {args : List PArg} {uid : Str} {d : DevId} (hl : lineCmd F text = some (.cfeed, args))
    (hu : (lastArg .uid args : Option Str) = some uid) (n : Nat) {s : Server} (hr : Registry s) (hc : c ∈ s.clients)
    (hf : s.findDeviceByUid uid = some d) :
    ∃ s', exec (step F) s (List.replicate n (.line c text {})) = some s' ∧ c ∈ s'.clients ∧ s'.watches c = s.watches c + n := by
  induction n generalizing s with
  | zero => exact ⟨s, rfl, hc, rfl⟩
  | succ n ih =>
    have hrun : step F s (.line c text {}) = some ((s.mark c {}).addWrappedClient c d) := by
      have hpos : Event.possible s (.line c text {}) = true := decide_eq_true hc
      have hfound : (s.mark c {}).findDeviceByUid uid = some d := hf
      have hcmd : cmdCfeed args c (s.mark c {}) = { srv := (s.mark c {}).addWrappedClient c d } := by
        unfold cmdCfeed
        rw [hu]
        dsimp only
        rw [hfound]
      unfold step react
      rw [if_pos hpos]
      change ((handleLine F {} c text s).toOption.map fun r => r.srv) = _
      rw [handleLine_some F hl]
      change some (cmdCfeed args c (s.mark c {})).srv = _
      rw [hcmd]
    have hd : d ∈ s.alldevs := ((hr.found _ _).mp hf).1
    obtain ⟨s', hexec, hc', hw⟩ := ih (registry_step F hr hrun) hc hf
    refine ⟨s', ?_, hc', ?_⟩
    · rw [List.replicate_succ]
      exact exec_cons_eq_some.mpr ⟨_, hrun, hexec⟩
    · have hone : ((s.mark c {}).addWrappedClient c d).watches c = s.watches c + 1 := by
        rw [← watches_own, own_addWrappedClient, own_quiet (quiet_mark s c {}), Own.watches_watch hr.nodup hd, if_pos rfl, watches_own]
      rw [hw, hone]
      omega

/-- After `2^32` `cfeed` lines of a client its counter is zero again; and the update of a device that was registered again without a
name is sent to nobody. -/
theorem not_watching : startup Doubles.exact {} = .ok {} ∧
    ¬ Throughout (step Doubles.exact) WatchesEqual {}
        (fanWatched ++ List.replicate (2 ^ 32 - 1) (.line 0 (str "cfeed uid:fan") {})) ∧
    ¬ Along (step Doubles.exact) (TellsAll Doubles.exact) {}
        (fanWatched ++ [.line 0 (str "reg uid:fan devt:1 proto:1 subt:1") {}, .line 0 (str "upd uid:fan switch:1") {}]) := by
  refine ⟨rfl, fun hall => ?_, fun hall => ?_⟩
  · have hstart : ((exec (step Doubles.exact) {} fanWatched).map
        fun s => (s.clients, s.findDeviceByUid (str "fan"), s.watches 0)) = some ([0], some 0, 1) := by decide +kernel
    have hline : (lineCmd Doubles.exact (str "cfeed uid:fan")).map (fun p => (p.1, (lastArg .uid p.2 : Option Str))) =
        some (.cfeed, some (str "fan")) := by decide +kernel
    obtain ⟨s, hs, he⟩ := Option.map_eq_some_iff.mp hstart
    simp only [Prod.mk.injEq] at he
    obtain ⟨hc, hf, hw⟩ := he
    obtain ⟨⟨cmd, args⟩, hl, hp⟩ := Option.map_eq_some_iff.mp hline
    obtain ⟨rfl, hu⟩ := Prod.mk.inj hp
    have hr : Registry s := exec_induct (fun _ _ _ hI hs => registry_step Doubles.exact hI hs) Registry.empty hs
    obtain ⟨s', hs', hc', hw'⟩ := exec_cfeeds Doubles.exact hl hu (2 ^ 32 - 1) hr (hc ▸ List.mem_singleton.mpr rfl) hf
    have heq := hall.last (exec_append_eq_some.mpr ⟨s, hs, hs'⟩) 0 hc'
    have hlt := (s'.client 0).watched.isLt
    omega
  · have hpre : ((exec (step Doubles.exact) {} (fanWatched ++ [.line 0 (str "reg uid:fan devt:1 proto:1 subt:1") {}])).bind fun s =>
          (react Doubles.exact s (.line 0 (str "upd uid:fan switch:1") {})).map fun r =>
            ((s.dev 0).watchers, s.findDeviceByUid (str "fan"), r.out)) = some ([0], some 0, []) := by decide +kernel
    have hline : (lineCmd Doubles.exact (str "upd uid:fan switch:1")).map (fun p => (p.1, (lastArg .uid p.2 : Option Str))) =
        some (.upd, some (str "fan")) := by decide +kernel
    obtain ⟨s, hs, hreact⟩ := Option.bind_eq_some_iff.mp hpre
    obtain ⟨r, hr, he⟩ := Option.map_eq_some_iff.mp hreact
    simp only [Prod.mk.injEq] at he
    obtain ⟨hw, hf, hout⟩ := he
    obtain ⟨⟨cmd, args⟩, hl, hp⟩ := Option.map_eq_some_iff.mp hline
    obtain ⟨rfl, hu⟩ := Prod.mk.inj hp
    have hall : Along (step Doubles.exact) (TellsAll Doubles.exact) {}
        ((fanWatched ++ [.line 0 (str "reg uid:fan devt:1 proto:1 subt:1") {}]) ++ [.line 0 (str "upd uid:fan switch:1") {}]) := hall
    obtain ⟨-, hlast⟩ := along_append hall hs
    obtain ⟨htold, -⟩ := hlast r.srv ((step_eq_some Doubles.exact).mpr ⟨r, hr, rfl⟩)
    obtain ⟨started, line, heq, -, -⟩ := htold 0 r ⟨0, _, {}, args, str "fan", rfl, hl, hu, hf⟩ hr
    rw [hout, hw] at heq
    simp at heq

end Gnhast
