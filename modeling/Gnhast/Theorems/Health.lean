import Gnhast.Lemmas.Health

/-!
# Collector health

A tracking device is meant to hold `COLLECTOR_OK` only while a connected client is bound to it, and the end of one client is not
meant to touch a device another client is bound to. Each event looks only at the last binding of one client: a client that
binds itself anew leaves its old device as it was, and the end of a client marks its device whoever else is bound to it. Along
runs without commands that write into devices, the two properties hold exactly where neither happens.
-/

namespace Gnhast

open CStr

variable (F : Doubles)

/-! ## The events -/

/-- The client an event binds to a tracking device, and the uid of the device. -/
def Event.binds (s : Server) : Event → Option (ClientId × Str)
  | .line c text _ =>
    match lineCmd F text with
    | some (.client, args) =>
      (lastArg .client args : Option Str).bind fun cli =>
        if cli = str "handler" then none else some (c, trackUid (s.client c) cli)
    | _ => none
  | _ => none

/-- The client an event closes or disconnects. -/
def Event.ends : Event → Option ClientId
  | .close c _ | .drained c _ => some c
  | .line c text _ =>
    match lineCmd F text with
    | some (.disconnect, _) => some c
    | _ => none
  | _ => none

/-- An event that is no command by which values are written into devices. -/
def Event.unwritten : Event → Prop
  | .line _ text _ => ∀ cmd args, lineCmd F text = some (cmd, args) → cmd.writes = false
  | _ => True

/-- What an event does to the bonds. -/
inductive Move (s₀ s : Server) (e : Event) : Bonds ClientId DevId → Prop
  | less {b : Bonds ClientId DevId} (hb : e.binds F s = none) (he : e.ends F = none) (hl : b.live = (s.bonds F s₀).live)
      (hbound : b.bound = (s.bonds F s₀).bound) (hw : ∀ x, b.well x → (s.bonds F s₀).well x) : Move s₀ s e b
  | join (hb : e.binds F s = none) (he : e.ends F = none) : Move s₀ s e ((s.bonds F s₀).join s.nextClient)
  | alive {c : ClientId} (hb : e.binds F s = none) (he : e.ends F = none) (hc : c ∈ s.clients) :
      Move s₀ s e ((s.bonds F s₀).alive (s₀.created s) c)
  | bind {c : ClientId} {uid : Str} {x : DevId} {counts : DevId → Prop} (hb : e.binds F s = some (c, uid)) (he : e.ends F = none)
      (hc : c ∈ s.clients) (hx : ∀ y ∈ s.alldevs, y = x ↔ (s.dev y).uid = uid) : Move s₀ s e ((s.bonds F s₀).bind counts c x)
  | ill {c : ClientId} (hb : e.binds F s = none) (he : e.ends F = some c) : Move s₀ s e ((s.bonds F s₀).ill c)
  | leave {c : ClientId} (hb : e.binds F s = none) (he : e.ends F = some c) : Move s₀ s e ((s.bonds F s₀).leave c)

variable {F}
variable {s₀ s s' : Server}

theorem Move.same {e : Event} {b : Bonds ClientId DevId} (hb : e.binds F s = none) (he : e.ends F = none)
    (h : b = s.bonds F s₀) : Move F s₀ s e b := .less hb he (by rw [h]) (by rw [h]) (fun x hx => by rwa [h] at hx)

theorem binds_line {c : ClientId} {text : Str} {env : Env} {cmd : Cmd} {args : List PArg}
    (hl : lineCmd F text = some (cmd, args)) (hc : cmd ≠ .client) : (Event.line c text env).binds F s = none := by
  simp only [Event.binds, hl]
  split
  · rename_i h
    cases h
    exact absurd rfl hc
  · rfl

theorem ends_line {c : ClientId} {text : Str} {env : Env} {cmd : Cmd} {args : List PArg}
    (hl : lineCmd F text = some (cmd, args)) (hc : cmd ≠ .disconnect) : (Event.line c text env).ends F = none := by
  simp only [Event.ends, hl]
  split
  · rename_i h
    cases h
    exact absurd rfl hc
  · rfl

/-- What a line does. -/
theorem move_line {c : ClientId} {text : Str} {env : Env} (hr : Registry s) (ht : Tracking s₀ s)
    (hw : (Event.line c text env).unwritten F) (h : step F s (.line c text env) = some s') :
    Tracking s₀ s' ∧ Move F s₀ s (.line c text env) (s'.bonds F s₀) := by
  have hmark : (s.mark c env).bonds F s₀ = s.bonds F s₀ := bonds_modClient F s c fun _ => rfl
  have htm : Tracking s₀ (s.mark c env) := tracking_quiet ht (quiet_mark s c env)
  cases hl : lineCmd F text with
  | none =>
    obtain ⟨r, hreact, rfl⟩ := (step_eq_some F).mp h
    obtain ⟨-, hh⟩ := (react_eq_some F).mp hreact
    obtain ⟨ret, hret⟩ := handleLine_none F hl env c s
    have hh : handleLine F env c text s = .ok r := hh
    rw [hret] at hh
    cases hh
    exact ⟨htm, .same (by simp only [Event.binds, hl]) (by simp only [Event.ends, hl]) hmark⟩
  | some p =>
    obtain ⟨cmd, args⟩ := p
    obtain ⟨hc, r, hrun, rfl⟩ := step_line F hl h
    have hwr := hw cmd args hl
    by_cases htr : cmd.tracks = true
    · cases cmd with
      | client =>
        obtain ⟨ht', ⟨hsrv, hcli⟩ | ⟨cli, x, hcli, hne, hx, hb⟩⟩ := bonds_cmdClient F (hr.quiet (quiet_mark s c env)) htm hrun
        · refine ⟨ht', .same ?_ (ends_line hl (by decide)) (by rw [hsrv, hmark])⟩
          simp only [Event.binds, hl, Option.bind_eq_none_iff]
          intro cli hcli'
          rw [if_pos (hcli cli hcli')]
        · refine ⟨ht', ?_⟩
          rw [hb, hmark]
          refine .bind (?_ : _ = some (c, trackUid ((s.mark c env).client c) cli)) (ends_line hl (by decide)) hc hx
          have hhost : trackUid ((s.mark c env).client c) cli = trackUid (s.client c) cli := by
            unfold trackUid
            rw [(quiet_mark s c env).host]
          simp only [Event.binds, hl, hcli, Option.bind_some, if_neg hne, hhost]
      | imalive =>
        refine ⟨tracking_run F hwr (by decide) hrun htm, ?_⟩
        cases hrun
        rw [show (cmdImalive F env c (s.mark c env)).srv = storeCollDev F c _ (s.mark c env) from rfl,
          bonds_alive F htm c (low_aliveWord F env), hmark]
        exact .alive (binds_line hl (by decide)) (ends_line hl (by decide)) hc
      | disconnect =>
        refine ⟨tracking_run F hwr (by decide) hrun htm, ?_⟩
        cases hrun
        have hq := Quiet.modClient (s.mark c env) c (f := fun cl => { cl with closeOnEmpty := true }) rfl
        rw [show (cmdDisconnect F env c (s.mark c env)).srv = storeCollDev F c _ ((s.mark c env).modClient c _) from rfl,
          bonds_ill F (tracking_quiet htm hq), bonds_modClient F _ c (by intro; rfl), hmark]
        exact .ill (binds_line hl (by decide)) (by simp only [Event.ends, hl])
      | _ => cases htr
    · have htr : cmd.tracks = false := by simpa using htr
      have hne : cmd ≠ .client ∧ cmd ≠ .disconnect := by
        constructor <;> rintro rfl <;> cases htr
      refine ⟨tracking_run F hwr hne.1 hrun htm, ?_⟩
      exact .same (binds_line hl hne.1) (ends_line hl hne.2) ((bonds_run F hwr htr hrun).trans hmark)

/-- What an event does. -/
theorem move_step {e : Event} (hr : Registry s) (ht : Tracking s₀ s) (hw : e.unwritten F) (h : step F s e = some s') :
    Tracking s₀ s' ∧ Move F s₀ s e (s'.bonds F s₀) := by
  cases e with
  | line c text env => exact move_line hr ht hw h
  | accept now a b c' d =>
    cases h
    refine ⟨ht, ?_⟩
    change Move F s₀ s _ ((acceptCb now (inetNtoa a b c' d) s).bonds F s₀)
    rw [bonds_acceptCb]
    exact .join rfl rfl
  | data c now =>
    obtain ⟨r, hreact, rfl⟩ := (step_eq_some F).mp h
    obtain ⟨-, hh⟩ := (react_eq_some F).mp hreact
    cases hh
    dsimp only
    exact ⟨tracking_quiet ht (Quiet.modClient s c rfl), .same rfl rfl (bonds_modClient F s c (by intro; rfl))⟩
  | close c env =>
    obtain ⟨r, hreact, rfl⟩ := (step_eq_some F).mp h
    obtain ⟨-, hh⟩ := (react_eq_some F).mp hreact
    cases hh
    refine ⟨tracking_bufErrorCb F ht c env, ?_⟩
    rw [show ({ srv := bufErrorCb F env c s } : Reply).srv = bufErrorCb F env c s from rfl, bonds_leave F ht]
    exact .leave rfl rfl
  | drained c env =>
    obtain ⟨r, hreact, rfl⟩ := (step_eq_some F).mp h
    obtain ⟨-, hh⟩ := (react_eq_some F).mp hreact
    cases hh
    refine ⟨tracking_bufErrorCb F ht c env, ?_⟩
    rw [show ({ srv := bufErrorCb F env c s } : Reply).srv = bufErrorCb F env c s from rfl, bonds_leave F ht]
    exact .leave rfl rfl
  | feed c now =>
    obtain ⟨r, hreact, rfl⟩ := (step_eq_some F).mp h
    obtain ⟨-, hh⟩ := (react_eq_some F).mp hreact
    have hh : feeddataCb F now c s = .ok r := hh
    refine ⟨tracking_quiet ht (quiet_feeddataCb F hh), ?_⟩
    obtain ⟨x, -, rfl⟩ := Except.map_eq_ok.mp hh
    exact .same rfl rfl (bonds_modClient F s c (by intro; rfl))
  | timer =>
    cases h
    exact ⟨tracking_quiet ht (quiet_timerdevUpdate F _ s), .same rfl rfl (bonds_timerdevUpdate F ht _)⟩
  | ping =>
    cases h
    exact ⟨ht, .same rfl rfl rfl⟩
  | health env =>
    cases h
    obtain ⟨h1, h2, h3⟩ := bonds_healthUpdateClientsCb F ht env s.clients
    exact ⟨tracking_quiet ht (quiet_healthUpdateClientsCb F env _ s), .less rfl rfl h1 h2 h3⟩
  | devconf =>
    obtain ⟨r, hreact, rfl⟩ := (step_eq_some F).mp h
    obtain ⟨-, hh⟩ := (react_eq_some F).mp hreact
    obtain ⟨out, -, rfl⟩ := Except.map_eq_ok.mp hh
    exact ⟨ht, .same rfl rfl rfl⟩

/-! ## One step -/

variable (F) in
/-- What is asked of a step: a client that binds itself anew does not leave a tracking device behind that is well and that no
other client is bound to, and no client ends whose tracking device is well while another client is bound to it. -/
structure KeepsFaith (s₀ s : Server) (e : Event) : Prop where
  binds : ∀ c uid, e.binds F s = some (c, uid) → ∀ d, (s.client c).collDev = some d → s₀.created s d →
    CollectorOk F (s.dev d) → (s.dev d).uid ≠ uid → (s.bonds F s₀).Other c d
  ends : ∀ c, e.ends F = some c → ∀ d, (s.client c).collDev = some d → s₀.created s d → CollectorOk F (s.dev d) →
    ¬ (s.bonds F s₀).Other c d

variable (F) in
/-- The end of a client sets no tracking device to `COLLECTOR_BAD` that another client is bound to. -/
def SparesOthers (s₀ s : Server) (e : Event) : Prop :=
  ∀ c, e.ends F = some c → ∀ s', step F s e = some s' → (s.bonds F s₀).Spares c (s'.bonds F s₀)

/-- A step keeps everything vouched for exactly when no client leaves a device behind. -/
theorem vouched_move_iff {e : Event} {b : Bonds ClientId DevId} (hr : Registry s) (hv : (s.bonds F s₀).Vouched)
    (hm : Move F s₀ s e b) : b.Vouched ↔ ∀ c uid, e.binds F s = some (c, uid) → ∀ d, (s.client c).collDev = some d →
      s₀.created s d → CollectorOk F (s.dev d) → (s.dev d).uid ≠ uid → (s.bonds F s₀).Other c d := by
  have hnone : e.binds F s = none → b.Vouched → (b.Vouched ↔ ∀ c uid, e.binds F s = some (c, uid) → ∀ d,
      (s.client c).collDev = some d → s₀.created s d → CollectorOk F (s.dev d) → (s.dev d).uid ≠ uid →
        (s.bonds F s₀).Other c d) := by
    intro hb hv'
    refine iff_of_true hv' fun c uid h => ?_
    rw [hb] at h
    cases h
  cases hm with
  | less hb he hl hbound hw => exact hnone hb (hv.mono hl hbound hw)
  | join hb he => exact hnone hb (hv.join fun hc => Nat.lt_irrefl _ (hr.clients_below _ hc))
  | alive hb he hc => exact hnone hb (hv.alive _ hc)
  | @bind c uid x counts hb he hc hx =>
    rw [Bonds.vouched_bind_iff hv counts hc x]
    constructor
    · intro h c' uid' hb' d hd hcr hok hu
      rw [hb, Option.some.injEq, Prod.mk.injEq] at hb'
      obtain ⟨rfl, rfl⟩ := hb'
      exact h d hd (fun hdx => hu ((hx d hcr.1).mp hdx)) ⟨hcr.1, hcr.2, hok⟩
    · intro h d hd hne hw
      exact h c uid hb d hd ⟨hw.1, hw.2.1⟩ hw.2.2 fun hu => hne ((hx d hw.1).mpr hu)
  | ill hb he => exact hnone hb (hv.ill _)
  | leave hb he => exact hnone hb (hv.leave _)

/-- A step spares the others exactly when no client ends whose device is well while another is bound to it. -/
theorem spares_move_iff {e : Event} (hm : Move F s₀ s e (s'.bonds F s₀)) (h : step F s e = some s') :
    SparesOthers F s₀ s e ↔ ∀ c, e.ends F = some c → ∀ d, (s.client c).collDev = some d → s₀.created s d →
      CollectorOk F (s.dev d) → ¬ (s.bonds F s₀).Other c d := by
  unfold SparesOthers
  refine forall_congr' fun c => forall_congr' fun hc => ?_
  have hlast : (∀ s'', step F s e = some s'' → (s.bonds F s₀).Spares c (s''.bonds F s₀)) ↔
      (s.bonds F s₀).Spares c (s'.bonds F s₀) := by
    rw [h]
    exact ⟨fun hs => hs s' rfl, fun hs s'' he => (Option.some.inj he) ▸ hs⟩
  have hcond : (∀ d, (s.bonds F s₀).bound c = some d → (s.bonds F s₀).well d → ¬ (s.bonds F s₀).Other c d) ↔
      ∀ d, (s.client c).collDev = some d → s₀.created s d → CollectorOk F (s.dev d) → ¬ (s.bonds F s₀).Other c d :=
    forall_congr' fun d => forall_congr' fun _ => ⟨fun hd hcr hok => hd ⟨hcr.1, hcr.2, hok⟩, fun hd hw => hd ⟨hw.1, hw.2.1⟩ hw.2.2⟩
  rw [hlast, ← hcond]
  generalize s'.bonds F s₀ = b at hm
  have hno : e.ends F = none → False := fun he => by rw [he] at hc; cases hc
  cases hm with
  | less hb he => exact (hno he).elim
  | join hb he => exact (hno he).elim
  | alive hb he => exact (hno he).elim
  | bind hb he => exact (hno he).elim
  | ill hb he =>
    rw [hc] at he
    cases he
    exact Bonds.spares_ill_iff _ c
  | leave hb he =>
    rw [hc] at he
    cases he
    exact Bonds.spares_leave_iff _ c

/-! ## Runs -/

/-- From the start on, along a run without commands that write into devices, every tracking device that holds `COLLECTOR_OK` has a
connected client that is bound to it, and the end of a client spares the devices others are bound to, exactly when no client
leaves behind a device that is well, and none ends whose device is well while another client is bound to it. -/
theorem health_iff {cfg : Config} {es : List Event} (h : startup F cfg = .ok s₀) (hes : ∀ e ∈ es, e.unwritten F) :
    Runs.Throughout (step F) (fun s => (s.bonds F s₀).Vouched) s₀ es ∧ Runs.Along (step F) (SparesOthers F s₀) s₀ es ↔
      Runs.Along (step F) (KeepsFaith F s₀) s₀ es := by
  have hfaith : ∀ s e, KeepsFaith F s₀ s e ↔ _ ∧ _ := fun s e => ⟨fun h => ⟨h.binds, h.ends⟩, fun h => ⟨h.1, h.2⟩⟩
  have hI : ∀ s e s', Event.unwritten F e → Registry s ∧ Tracking s₀ s → step F s e = some s' → Registry s' ∧ Tracking s₀ s' :=
    fun s e s' hw hs hstep => ⟨registry_step F hs.1 hstep, (move_step hs.1 hs.2 hw hstep).1⟩
  have hs₀ : Registry s₀ ∧ Tracking s₀ s₀ := ⟨(startup_registry F h).1, fun d hd => absurd hd.1 hd.2⟩
  have hv₀ : (s₀.bonds F s₀).Vouched := fun d hd => absurd hd.1 hd.2.1
  rw [Runs.throughout_iff_along_of hI
      (fun s e s' hw hs hv hstep => vouched_move_iff hs.1 hv (move_step hs.1 hs.2 hw hstep).2) hs₀ hv₀ hes,
    Runs.along_congr_of hI (fun s e s' hw hs hstep => spares_move_iff (move_step hs.1 hs.2 hw hstep).2 hstep) hs₀ hes,
    ← Runs.along_and]
  exact Runs.along_congr_of hI (fun s e s' _ _ _ => (hfaith s e).symm) hs₀ hes

theorem health_iff_one_client :
    Runs.Throughout (step Doubles.exact) (fun s => (s.bonds Doubles.exact {}).Vouched) {}
        [.accept 0 10 0 0 1, .line 0 (str "client client:fan") {}, .close 0 {}] ∧
      Runs.Along (step Doubles.exact) (SparesOthers Doubles.exact {}) {}
        [.accept 0 10 0 0 1, .line 0 (str "client client:fan") {}, .close 0 {}] ↔
    Runs.Along (step Doubles.exact) (KeepsFaith Doubles.exact {}) {}
      [.accept 0 10 0 0 1, .line 0 (str "client client:fan") {}, .close 0 {}] := by
  refine @health_iff Doubles.exact {} {} _ rfl fun e he => ?_
  simp only [List.mem_cons, List.not_mem_nil, or_false] at he
  obtain rfl | rfl | rfl := he
  · trivial
  · intro cmd args hl
    have h : some (Cmd.client, _) = some (cmd, args) := hl
    cases h
    rfl
  · trivial

/-- A client that names itself twice leaves its first device behind; and of two clients with one name from one host, the first to
leave marks the device of both. -/
theorem not_health_names : startup Doubles.exact {} = .ok {} ∧
    ¬ Runs.Throughout (step Doubles.exact) (fun s => (s.bonds Doubles.exact {}).Vouched) {}
        [.accept 0 10 0 0 1, .line 0 (str "client client:fan") {}, .line 0 (str "client client:lamp") {}] ∧
    ¬ Runs.Along (step Doubles.exact) (SparesOthers Doubles.exact {}) {}
        [.accept 0 10 0 0 1, .accept 0 10 0 0 1, .line 0 (str "client client:fan") {}, .line 1 (str "client client:fan") {},
          .close 0 {}] := by
  refine ⟨rfl, fun h => ?_, fun h => ?_⟩
  · have hex : (Runs.exec (step Doubles.exact) {}
        [.accept 0 10 0 0 1, .line 0 (str "client client:fan") {}, .line 0 (str "client client:lamp") {}]).map
        (fun s => (s.clients, (s.client 0).collDev, s.alldevs, ((s.dev 0).data.bits Doubles.exact).setWidth 8)) =
          some ([0], some 1, [0, 1], collectorOk.setWidth 8) := by rfl
    obtain ⟨s, hs, he⟩ := Option.map_eq_some_iff.mp hex
    simp only [Prod.mk.injEq] at he
    obtain ⟨h1, h2, h3, h4⟩ := he
    obtain ⟨c, hc, hb⟩ := h.last hs 0 ⟨by rw [h3]; decide, List.not_mem_nil, h4⟩
    have hc : c ∈ s.clients := hc
    rw [h1, List.mem_singleton] at hc
    subst hc
    rw [show (s.bonds Doubles.exact {}).bound 0 = (s.client 0).collDev from rfl, h2] at hb
    cases hb
  · have hex : (Runs.exec (step Doubles.exact) {}
        [.accept 0 10 0 0 1, .accept 0 10 0 0 1, .line 0 (str "client client:fan") {}, .line 1 (str "client client:fan") {}]).map
        (fun s => (s.clients, (s.client 1).collDev, s.alldevs, ((s.dev 0).data.bits Doubles.exact).setWidth 8)) =
          some ([0, 1], some 0, [0], collectorOk.setWidth 8) := by rfl
    have hex' : (Runs.exec (step Doubles.exact) {}
        ([.accept 0 10 0 0 1, .accept 0 10 0 0 1, .line 0 (str "client client:fan") {}, .line 1 (str "client client:fan") {}] ++
          [.close 0 {}])).map
        (fun s => ((s.dev 0).data.bits Doubles.exact).setWidth 8) = some (collectorBad.setWidth 8) := by rfl
    obtain ⟨s, hs, he⟩ := Option.map_eq_some_iff.mp hex
    obtain ⟨s', hs', he'⟩ := Option.map_eq_some_iff.mp hex'
    obtain ⟨s₁, h₁, hclose⟩ := Runs.exec_append_eq_some.mp hs'
    rw [hs, Option.some.injEq] at h₁
    subst h₁
    obtain ⟨s₂, hstep, hend⟩ := Runs.exec_cons_eq_some.mp hclose
    cases hend
    simp only [Prod.mk.injEq] at he
    obtain ⟨h1, h2, h3, h4⟩ := he
    have hlast := (Runs.along_append (show Runs.Along _ _ _ (_ ++ [.close 0 {}]) from h) hs).2
    have hspares := (hlast s' hstep).1 0 rfl s' hstep
    have hwell := hspares 0 ⟨by rw [h3]; decide, List.not_mem_nil, h4⟩ ⟨1, by
      change 1 ∈ s.clients
      rw [h1]
      decide, by decide, h2⟩
    have hok : ((s'.dev 0).data.bits Doubles.exact).setWidth 8 = collectorOk.setWidth 8 := hwell.2.2
    rw [he'] at hok
    exact absurd hok (by decide)

end Gnhast
