import Gnhast.Lemmas.Writes

/-!
# Clients that devices refer to

The back pointers of devices are cleared when a connection ends, but only for the devices on the client's own list. A tracking
device points to the client it tracks and is on no list, and a device that is registered by a second client points to that
client and stays on the list of the first. So references to closed clients are left behind exactly when a connection ends whose
client collects a device that is not on its list; and list and back pointer agree as long as no client registers what is on
another client's list.
-/

namespace Gnhast

open CStr Ownership Runs

variable (F : Doubles)

/-! ## Closed clients -/

/-- When a connection ends, every device that the client collects is on the client's list. -/
def CollectedOnList (s : Server) (e : Event) : Prop :=
  ∀ c, e.closes = some c → ∀ d ∈ s.alldevs, (s.dev d).collector = some c → d ∈ (s.client c).devices

/-- A step writes to connected clients only, and no device refers to a client whose connection it ends. -/
def SparesClosed (s : Server) (e : Event) : Prop :=
  ∀ r, react F s e = some r → WritesTo (· ∈ r.srv.clients) r.out ∧
    ∀ c, e.closes = some c → ∀ d ∈ r.srv.alldevs, (r.srv.dev d).collector ≠ some c ∧ c ∉ (r.srv.dev d).watchers

/-- What the server keeps in every state: a registry and sound queues. -/
def Sound (s : Server) : Prop := Registry s ∧ (own s).Queues

theorem sound_step {s s' : Server} {e : Event} (h : Sound s) (hs : step F s e = some s') : Sound s' :=
  ⟨registry_step F h.1 hs, queues_step F h.1 h.2 hs⟩

theorem sound_startup {cfg : Config} {s : Server} (h : startup F cfg = .ok s) : Sound s :=
  ⟨(startup_registry F h).1, (startup_registry F h).2.queues⟩

/-- One step keeps the references live exactly under the condition. -/
theorem clientsLive_step_iff {s s' : Server} {e : Event} (h : Sound s) (hl : ClientsLive s) (hs : step F s e = some s') :
    ClientsLive s' ↔ CollectedOnList s e := by
  have hl : (own s).Live := hl
  rw [clientsLive_iff_own]
  cases hc : e.closes with
  | none =>
    have hok : CollectedOnList s e := by
      intro c hc'
      rw [hc] at hc'
      cases hc'
    refine ⟨fun _ => hok, fun _ => ?_⟩
    obtain ho | ⟨op, hcause, ha, ho⟩ := own_step F h.1 hs
    · rw [ho]
      exact hl
    · rw [ho]
      refine Own.live_apply hl ha ?_
      rintro k rfl
      cases hcause with
      | drop hd =>
        rw [hc] at hd
        cases hd
  | some c =>
    obtain ⟨hp, -⟩ := does_step F hs
    have ha : (own s).Allowed (.drop c) := Cause.allowed F h.1 hp (.drop hc)
    rw [own_close F hc hs, Own.live_drop_iff h.2 hl ha]
    constructor
    · intro hown c' hc'
      rw [hc] at hc'
      cases hc'
      exact hown
    · intro hok
      exact hok c hc

/-- A step from live references under the condition spares the clients that are closed. -/
theorem sparesClosed_of_live {s : Server} {e : Event} (h : Sound s) (hl : ClientsLive s) (hok : CollectedOnList s e) :
    SparesClosed F s e := by
  intro r hr
  refine ⟨writes_react F h.1 hl hr, fun c hc d hd => ?_⟩
  have hs : step F s e = some r.srv := (step_eq_some F).mpr ⟨r, hr, rfl⟩
  have hlive := (clientsLive_step_iff F h hl hs).mpr hok
  have hgone : c ∉ r.srv.clients := by
    change c ∉ (own r.srv).live
    rw [own_close F hc hs]
    exact h.2.live_nodup.not_mem_erase
  exact ⟨fun he => hgone ((hlive d hd).1 c he), fun hw => hgone ((hlive d hd).2 c hw)⟩

/-- In every run, the clients that devices refer to are connected in every state exactly when each connection ends with all
that the client collects on its list; and then nothing is ever written to a closed client. -/
theorem clientsLive_iff {cfg : Config} {s₀ : Server} (h : startup F cfg = .ok s₀) (es : List Event) :
    (Throughout (step F) ClientsLive s₀ es ↔ Along (step F) CollectedOnList s₀ es) ∧
      (Along (step F) CollectedOnList s₀ es → Along (step F) (SparesClosed F) s₀ es) := by
  have h0 := sound_startup F h
  have hl0 : ClientsLive s₀ := (startup_registry F h).2.live
  refine ⟨throughout_iff_along (fun _ _ _ hI hs => sound_step F hI hs)
    (fun _ _ _ hI hl hs => clientsLive_step_iff F hI hl hs) h0 hl0 es, ?_⟩
  clear h
  induction es generalizing s₀ with
  | nil => exact fun _ => trivial
  | cons e es ih =>
    intro hok s' hs
    obtain ⟨h1, h2⟩ := hok s' hs
    exact ⟨sparesClosed_of_live F h0 hl0 h1, ih (sound_step F h0 hs) ((clientsLive_step_iff F h0 hl0 hs).mpr h1) h2⟩

theorem clientsLive_iff_one_client :
    (Throughout (step Doubles.exact) ClientsLive {} [.accept 0 10 0 0 1, .close 0 {}] ↔
      Along (step Doubles.exact) CollectedOnList {} [.accept 0 10 0 0 1, .close 0 {}]) ∧
      (Along (step Doubles.exact) CollectedOnList {} [.accept 0 10 0 0 1, .close 0 {}] →
        Along (step Doubles.exact) (SparesClosed Doubles.exact) {} [.accept 0 10 0 0 1, .close 0 {}]) :=
  @clientsLive_iff Doubles.exact {} {} rfl [.accept 0 10 0 0 1, .close 0 {}]

/-- A client that names itself, and leaves: its tracking device still points to it. -/
theorem not_clientsLive_tracked : startup Doubles.exact {} = .ok {} ∧
    ¬ Throughout (step Doubles.exact) ClientsLive {}
        [.accept 0 10 0 0 1, .line 0 (str "client client:fan") {}, .close 0 {}] := by
  refine ⟨rfl, fun h => ?_⟩
  have hex : ((exec (step Doubles.exact) {} [.accept 0 10 0 0 1, .line 0 (str "client client:fan") {}, .close 0 {}]).map
      fun s => ((s.dev 0).collector, s.alldevs, s.clients)) = some (some 0, [0], []) := by rfl
  obtain ⟨s, hs, he⟩ := Option.map_eq_some_iff.mp hex
  simp only [Prod.mk.injEq] at he
  obtain ⟨h1, h2, h3⟩ := he
  have := (h.last hs 0 (by simp [h2])).1 0 h1
  rw [h3] at this
  cases this

/-! ## Routing of changes -/

/-- A line by which a client registers an uid, and which succeeds. -/
def Registers (s : Server) (e : Event) (c : ClientId) (uid : Str) : Prop :=
  ∃ text env args r, e = .line c text env ∧ lineCmd F text = some (.reg, args) ∧ lastArg .uid args = some uid ∧
    react F s e = some r ∧ r.ret = some 0

/-- A client stays connected, and no other client registers an uid. -/
def Undisturbed (c : ClientId) (uid : Str) (s : Server) (e : Event) : Prop :=
  e.closes ≠ some c ∧ ∀ c', Registers F s e c' uid → c' = c

end Gnhast
