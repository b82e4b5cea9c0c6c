import Gnhast.Lemmas.Safety

/-!
# Feed timers

A client's feed timer runs with the greatest common divisor of the rates of its feeds. Only `feed` lines change the timer, and
the callback of the timer changes the times in the list of feeds; every other event leaves a client's timer alone, or clears it.
The rates come unchecked from the lines, so that the two divisions, and the remainders of `gcd`, may fault.
-/

namespace Gnhast

open CStr Faults

variable (F : Doubles)

/-! ## Who writes timers -/

/-- The timer of a client: whether it runs, the period it should have, the rates of the feeds, and the period it is armed with. -/
def Client.timer (cl : Client) : Bool × BitVec 32 × List (BitVec 32) × BitVec 32 :=
  (cl.tev, cl.timerGcd, cl.wdevices.map WrapFeed.rate, cl.tevSecs)

/-- Every client keeps its timer, or is a new one. -/
def KeepsTimers (s s' : Server) : Prop :=
  ∀ c, (s'.client c).timer = (s.client c).timer ∨ (s'.client c).timer = (false, 0, [], 0)

theorem KeepsTimers.of_client {s s' : Server} (h : ∀ c, (s'.client c).timer = (s.client c).timer) : KeepsTimers s s' :=
  fun c => Or.inl (h c)

/-- What concerns the feeds of a client: its timer, its list of feeds and the number of devices it watches. -/
def Client.feeding (cl : Client) : Client :=
  { cl with
    provider := false, devices := [], closeOnEmpty := false, host := none, lastupd := 0, alarmwatch := 0, alchan := 0, collDev := none }

/-- A field that concerns the feeds is the same in clients that agree on them. -/
theorem Client.field_of_feeding {β : Type} (g : Client → β) (hg : ∀ cl, g cl.feeding = g cl) {cl cl' : Client}
    (h : cl.feeding = cl'.feeding) : g cl = g cl' := by
  rw [← hg, h, hg]

/-- Every client keeps what concerns its feeds, or is a new one. -/
def KeepsFeeding (s s' : Server) : Prop :=
  ∀ c, (s'.client c).feeding = (s.client c).feeding ∨ (c = s.nextClient ∧ (s'.client c).feeding = {})

theorem KeepsFeeding.of_client {s s' : Server} (h : ∀ c, (s'.client c).feeding = (s.client c).feeding) : KeepsFeeding s s' :=
  fun c => Or.inl (h c)

theorem feeding_modClient (s : Server) (c : ClientId) {f : Client → Client} (hf : ∀ cl, (f cl).feeding = cl.feeding) (c' : ClientId) :
    ((s.modClient c f).client c').feeding = (s.client c').feeding := by
  rw [Server.modClient_client]
  split
  · rename_i he
    rw [hf, he]
  · rfl

theorem keepsFeeding_connect (s : Server) {cl : Client} (hcl : cl.feeding = {}) : KeepsFeeding s (s.connect cl) := by
  intro c
  by_cases hc : c = s.nextClient
  · refine Or.inr ⟨hc, ?_⟩
    change (Function.update s.client s.nextClient cl c).feeding = _
    rw [hc, Function.update_self, hcl]
  · refine Or.inl ?_
    change (Function.update s.client s.nextClient cl c).feeding = _
    rw [Function.update_of_ne hc]

theorem client_storeCollDev (c : ClientId) (w : Word) (s : Server) : (storeCollDev F c w s).client = s.client := by
  unfold storeCollDev
  split <;> rfl

theorem feeding_claimDevice (s : Server) (d : DevId) (c c' : ClientId) :
    ((claimDevice s d c).client c').feeding = (s.client c').feeding := by
  rw [claimDevice_client]
  split
  · rename_i he
    rw [he]
    rfl
  · rfl

theorem keepsFeeding_cmdRegister (args : List PArg) (c : ClientId) (s : Server) :
    KeepsFeeding s (cmdRegister args c s).srv := by
  obtain h | ⟨uid, nm, -, -, -, -, h⟩ | ⟨uid, d, -, -, h⟩ := cmdRegister_cases args c s
  · rw [h]
    exact .of_client fun _ => rfl
  · rw [h]
    refine .of_client fun c' => ?_
    rw [client_insertDevice]
    exact feeding_claimDevice _ _ c c'
  · rw [h]
    exact .of_client (feeding_claimDevice _ d c)

theorem keepsFeeding_cmdUpdate {env : Env} {args : List PArg} {c : ClientId} {s : Server} {r : Reply}
    (h : cmdUpdate F env args c s = .ok r) : KeepsFeeding s r.srv := by
  unfold cmdUpdate at h
  split at h
  · cases h
    exact .of_client fun _ => rfl
  · split at h
    · cases h
      exact .of_client fun _ => rfl
    · obtain ⟨⟨s', out⟩, h1, h⟩ := Except.bind_eq_ok.mp h
      obtain ⟨told, -, h⟩ := Except.bind_eq_ok.mp h
      cases h
      unfold runHandlerOnUpdate at h1
      split at h1
      · obtain ⟨rfl, -⟩ | ⟨rfl, -⟩ := runHandlerDev_cases F h1
        · exact .of_client fun _ => rfl
        · exact keepsFeeding_connect _ rfl
      · cases h1
        exact .of_client fun _ => rfl

theorem client_cmdChange (args : List PArg) (c : ClientId) (s : Server) : (cmdChange F args c s).srv.client = s.client := by
  unfold cmdChange
  split
  · rfl
  · split
    · rfl
    · dsimp only
      split <;> rfl

theorem keepsFeeding_cmdClient {env : Env} {args : List PArg} {c : ClientId} {s : Server} {r : Reply}
    (h : cmdClient F env args c s = .ok r) : KeepsFeeding s r.srv := by
  have hbind : ∀ x, KeepsFeeding s (s.modClient c fun cl => { cl with collDev := some x }) :=
    fun x => .of_client (feeding_modClient s c fun _ => rfl)
  unfold cmdClient at h
  split at h
  · cases h
    exact .of_client fun _ => rfl
  · obtain ⟨cliaddr, -, h⟩ := Except.bind_eq_ok.mp h
    split at h
    · cases h
      exact .of_client fun _ => rfl
    · obtain ⟨uid, -, h⟩ := Except.bind_eq_ok.mp h
      split at h
      · obtain ⟨name, -, h⟩ := Except.bind_eq_ok.mp h
        obtain ⟨buf, -, h⟩ := Except.bind_eq_ok.mp h
        cases h
        intro c'
        dsimp only [Server.modDev]
        rw [client_insertDevice]
        exact hbind s.nextDev c'
      · rename_i d _
        cases h
        exact hbind d

/-- No commands but `feed` and `cfeed` write what concerns feeds. -/
theorem keepsFeeding_run {env : Env} {cmd : Cmd} (hc : cmd ≠ .feed) (hw : cmd ≠ .cfeed) {args : List PArg} {c : ClientId}
    {s : Server} {r : Reply} (h : cmd.run F env args c s = .ok r) : KeepsFeeding s r.srv := by
  cases cmd with
  | feed => exact absurd rfl hc
  | cfeed => exact absurd rfl hw
  | reg => cases h; exact keepsFeeding_cmdRegister args c s
  | regg => cases h; exact .of_client fun c' => by rw [(onlyGroups_cmdRegisterGroup args c s).client]
  | upd => exact keepsFeeding_cmdUpdate F (c := c) h
  | mod =>
    obtain ⟨h, -⟩ | ⟨uid, d, dev, out, text, -, -, -, h, -⟩ := cmdModify_cases F (c := c) h
    · rw [h]
      exact .of_client fun _ => rfl
    · rw [h]
      exact .of_client fun _ => rfl
  | chg => cases h; exact .of_client fun c' => by rw [client_cmdChange]
  | client => exact keepsFeeding_cmdClient F h
  | lgrps => rw [srv_cmdListGroups h]; exact .of_client fun _ => rfl
  | ask => rw [srv_cmdAskDevice F h]; exact .of_client fun _ => rfl
  | askf => rw [srv_cmdAskFullDevice F h]; exact .of_client fun _ => rfl
  | cactiask => rw [srv_cmdCactiaskDevice F h]; exact .of_client fun _ => rfl
  | disconnect =>
    cases h
    refine .of_client fun c' => ?_
    dsimp only [cmdDisconnect]
    rw [client_storeCollDev]
    exact feeding_modClient s c (f := fun cl => { cl with closeOnEmpty := true }) (fun _ => rfl) c'
  | imalive => cases h; exact .of_client fun c' => by dsimp only [cmdImalive]; rw [client_storeCollDev]
  | setalarm =>
    cases h
    refine .of_client fun c' => ?_
    dsimp only [cmdSetalarm]
    split <;> rfl
  | listenalarms =>
    cases h
    refine .of_client fun c' => ?_
    simp only [cmdListenAlarms, Server.modClient_client]
    split
    · rename_i he
      rw [he]
      rfl
    · rfl
  | ldevs | ping | dumpalarms | getapiv => cases h; exact .of_client fun _ => rfl

theorem client_timerdevUpdate (ds : List DevId) (s : Server) : (timerdevUpdate F ds s).client = s.client := by
  induction ds generalizing s with
  | nil => rfl
  | cons d ds ih =>
    unfold timerdevUpdate
    dsimp only
    split
    · split
      · exact ih s
      · exact ih _
    · exact ih s

theorem client_healthUpdateClientsCb (env : Env) (cs : List ClientId) (s : Server) :
    (healthUpdateClientsCb F env cs s).client = s.client := by
  induction cs generalizing s with
  | nil => rfl
  | cons c cs ih =>
    unfold healthUpdateClientsCb
    split
    · rw [ih, client_storeCollDev]
    · exact ih s

/-- Two ints of which one is the smallest and the other -1: their quotient does not fit, and their remainder traps. -/
def Clash (a b : Int) : Prop := (a = -1 ∧ b = -2 ^ 31) ∨ (a = -2 ^ 31 ∧ b = -1)

instance (a b : Int) : Decidable (Clash a b) := inferInstanceAs (Decidable (_ ∨ _))

/-- An int. -/
def IsInt (a : Int) : Prop := -2 ^ 31 ≤ a ∧ a < 2 ^ 31

theorem IsInt.tmod {a b : Int} (ha : IsInt a) (h0 : a ≠ 0) : IsInt (b.tmod a) := by
  have habs : (b.tmod a).natAbs < a.natAbs := by
    rw [Int.natAbs_tmod]
    exact Nat.mod_lt _ (Int.natAbs_pos.mpr h0)
  unfold IsInt at *
  omega

theorem IsInt.gcd {a b g : Int} (ha : IsInt a) (hb : IsInt b) (h : gcd a b = .ok g) : IsInt g := by
  fun_induction Gnhast.gcd a b with
  | case1 b =>
    cases h
    exact hb
  | case2 a b h0 hc => cases h
  | case3 a b h0 hc ih => exact ih (ha.tmod h0) ha h

/-! ## The period of a timer -/

/-- What `cmd_feed` has come to behind some rates: the period of the timer, or the last of these rates that has its size. -/
def carried (g : Int) (rates : List Int) : Int := ((rates.filter fun r => r.natAbs = g.natAbs).getLast?).getD g

/-- The rates of a list of feeds, from the period of the timer on: no rate clashes with what the rates in front of it have left. -/
def RatesFit (g : Int) (rates : List Int) : Prop := ∀ pre r post, rates = pre ++ r :: post → ¬ Clash r (carried g pre)

/-- The rate of a `feed` line. -/
def feedRate (args : List PArg) : BitVec 32 := (lastArg .rate args : Option (BitVec 32)).getD 60

/-- A client's rates, with one more. -/
def Client.rates (cl : Client) (rate : BitVec 32) : List Int := cl.wdevices.map (fun w => w.rate.toInt) ++ [rate.toInt]

/-- A `feed` line of a client with a timer names no device, or its rate fits those in front of it. -/
def FeedLineFits (args : List PArg) (c : ClientId) (s : Server) : Prop :=
  OnDevice args s fun _ => (s.client c).tev = true →
    RatesFit (s.client c).timerGcd.toInt ((s.client c).rates (feedRate args))

theorem feeding_mark (s : Server) (c : ClientId) (env : Env) (c' : ClientId) :
    ((s.mark c env).client c').feeding = (s.client c').feeding :=
  @feeding_modClient s c (fun cl => { cl with lastupd := env.now }) (fun _ => rfl) c'

/-- What a step does to what concerns feeds: it is kept, or a client ends, or a line writes a feed or a watch, or a timer fires. -/
theorem feeding_step {s s' : Server} {e : Event} (hs : step F s e = some s') :
    KeepsFeeding s s' ∨
      (∃ c env, c ∈ s.clients ∧ (e = .close c env ∨ e = .drained c env) ∧ s' = bufErrorCb F env c s) ∨
      (∃ c text env args r, e = .line c text env ∧ lineCmd F text = some (.feed, args) ∧ cmdFeed args c (s.mark c env) = .ok r ∧
        s' = r.srv) ∨
      (∃ c text env args, e = .line c text env ∧ c ∈ s.clients ∧ lineCmd F text = some (.cfeed, args) ∧
        s' = (cmdCfeed args c (s.mark c env)).srv) ∨
      ∃ c now r, e = .feed c now ∧ feeddataCb F now c s = .ok r ∧ s' = r.srv := by
  obtain ⟨r, hr, rfl⟩ := (step_eq_some F).mp hs
  obtain ⟨hp, h⟩ := (react_eq_some F).mp hr
  cases e with
  | accept now a b c d =>
    cases h
    exact Or.inl (keepsFeeding_connect s
      (show ({ host := some (inetNtoa a b c d), lastupd := now } : Client).feeding = {} from rfl))
  | data c now =>
    cases h
    exact Or.inl (.of_client (feeding_modClient s c (f := fun cl => { cl with lastupd := now }) fun _ => rfl))
  | line c text env =>
    have h : handleLine F env c text s = .ok r := h
    cases hl : lineCmd F text with
    | none =>
      obtain ⟨ret, hret⟩ := handleLine_none F hl env c s
      rw [hret] at h
      cases h
      exact Or.inl (.of_client (feeding_mark s c env))
    | some p =>
      obtain ⟨cmd, args⟩ := p
      rw [handleLine_some F hl] at h
      by_cases hc : cmd = .feed
      · subst hc
        exact Or.inr (Or.inr (Or.inl ⟨c, text, env, args, r, rfl, hl, h, rfl⟩))
      by_cases hw : cmd = .cfeed
      · subst hw
        cases h
        exact Or.inr (Or.inr (Or.inr (Or.inl ⟨c, text, env, args, rfl, of_decide_eq_true hp, hl, rfl⟩)))
      refine Or.inl fun c' => ?_
      rw [← feeding_mark s c env c']
      exact keepsFeeding_run F hc hw h c'
  | close c env =>
    cases h
    exact Or.inr (Or.inl ⟨c, env, of_decide_eq_true hp, Or.inl rfl, rfl⟩)
  | drained c env =>
    cases h
    obtain ⟨hc, -⟩ := Bool.and_eq_true_iff.mp hp
    exact Or.inr (Or.inl ⟨c, env, of_decide_eq_true hc, Or.inr rfl, rfl⟩)
  | feed c now => exact Or.inr (Or.inr (Or.inr (Or.inr ⟨c, now, r, rfl, h, rfl⟩)))
  | timer =>
    cases h
    exact Or.inl (.of_client fun c' => by rw [client_timerdevUpdate])
  | ping =>
    cases h
    exact Or.inl (.of_client fun _ => rfl)
  | health env =>
    cases h
    exact Or.inl (.of_client fun c' => by rw [client_healthUpdateClientsCb])
  | devconf =>
    obtain ⟨out, -, rfl⟩ := Except.map_eq_ok.mp h
    exact Or.inl (.of_client fun _ => rfl)

/-- The callback of a timer ends at an entry of the list: the entry is due, and what the line for its device needs is not there. -/
def EndsAt (now : Int) (s : Server) (w : WrapFeed) : Prop :=
  1 ≤ (now - w.lastFired).tdiv w.rate.toInt ∧ ¬ (s.dev w.dev).Prints (gncUpdRrdname ||| gncUpdScale w.scale)

/-- The callback of a timer comes to no entry without a rate. -/
def TickFits (now : Int) (s : Server) (ws : List WrapFeed) : Prop :=
  ∀ pre w post, ws = pre ++ w :: post → w.rate = 0 → ∃ v ∈ pre, EndsAt now s v

end Gnhast
