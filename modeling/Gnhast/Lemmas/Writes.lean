import Gnhast.Lemmas.Ownership

/-!
# Where the lines go

Each handler writes to the client the command came from, to clients on the global list, and to the clients that the device it
acts on refers to. So while every device refers to connected clients only, every line goes to a connected client.
-/

namespace Gnhast

open CStr

variable (F : Doubles)

/-- Every line among the effects goes to a client with a property. -/
def WritesTo (p : ClientId → Prop) (out : List Out) : Prop := ∀ c l, Out.write c l ∈ out → p c

namespace WritesTo

variable {p : ClientId → Prop} {out out' : List Out}

theorem nil : WritesTo p [] := by
  intro c l h
  cases h

theorem append (h : WritesTo p out) (h' : WritesTo p out') : WritesTo p (out ++ out') := by
  intro c l hm
  rcases List.mem_append.mp hm with hm | hm
  · exact h c l hm
  · exact h' c l hm

theorem single {c : ClientId} (h : p c) (l : Str) : WritesTo p [.write c l] := by
  intro c' l' hm
  cases List.mem_singleton.mp hm
  exact h

theorem emit {c : ClientId} (h : p c) (line : Option Str) : WritesTo p (emit c line) := by
  cases line with
  | none => exact nil
  | some l => exact single h l

theorem flatMap {α : Type} {xs : List α} {f : α → List Out} (h : ∀ x ∈ xs, WritesTo p (f x)) : WritesTo p (xs.flatMap f) := by
  intro c l hm
  obtain ⟨x, hx, hm⟩ := List.mem_flatMap.mp hm
  exact h x hx c l hm

theorem map {α : Type} {xs : List α} {f : α → ClientId} {g : α → Str} (h : ∀ x ∈ xs, p (f x)) :
    WritesTo p (xs.map fun x => Out.write (f x) (g x)) := by
  intro c l hm
  obtain ⟨x, hx, he⟩ := List.mem_map.mp hm
  cases he
  exact h x hx

theorem mono {q : ClientId → Prop} (h : WritesTo p out) (hpq : ∀ c, p c → q c) : WritesTo q out :=
  fun c l hm => hpq c (h c l hm)

end WritesTo

/-! ## Effects that are no lines -/

/-- Nothing is written to a client. -/
def Silent (out : List Out) : Prop := WritesTo (fun _ => False) out

theorem Silent.to {out : List Out} (h : Silent out) (p : ClientId → Prop) : WritesTo p out := h.mono (fun _ hf => hf.elim)

theorem silent_ite_freedRead (b : Prop) [Decidable b] (w : WrapId) : Silent (if b then [] else [.freedRead w]) := by
  intro c l hm
  split at hm <;> simp at hm

theorem silent_pruneGroups (toks : List Str) (g : GroupId) (ws : List WrapGroup) (s : Server) :
    Silent (pruneGroups toks g ws s).2 := by
  induction ws generalizing s with
  | nil => exact WritesTo.nil
  | cons w ws ih =>
    unfold pruneGroups
    split
    · exact ih s
    · exact (silent_ite_freedRead _ _).append (ih _)

theorem silent_pruneDevs (toks : List Str) (g : GroupId) (ws : List WrapDevice) (s : Server) :
    Silent (pruneDevs toks g ws s).2 := by
  induction ws generalizing s with
  | nil => exact WritesTo.nil
  | cons w ws ih =>
    unfold pruneDevs
    split
    · exact ih s
    · exact (silent_ite_freedRead _ _).append (ih _)

theorem silent_cmdRegisterGroup (args : List PArg) (c : ClientId) (s : Server) : Silent (cmdRegisterGroup args c s).out := by
  have hg : ∀ g l s, Silent (setGroups g l s).2 := by
    intro g l s
    unfold setGroups
    split
    · exact WritesTo.nil
    · exact silent_pruneGroups _ _ _ _
  have hd : ∀ g l s, Silent (setDevs g l s).2 := by
    intro g l s
    unfold setDevs
    split
    · exact WritesTo.nil
    · exact silent_pruneDevs _ _ _ _
  have hu : ∀ g s, Silent (updateGroup g args s).out := fun g s => (hg _ _ _).append (hd _ _ _)
  unfold cmdRegisterGroup
  split
  · exact WritesTo.nil
  · split
    · split
      · exact WritesTo.nil
      · exact hu _ _
    · exact hu _ _

theorem silent_free {α : Type} (a : Arr α) : Silent a.free := by
  intro c l hm
  cases a <;> simp [Arr.free] at hm

theorem silent_freeTags {tags : List Tag} {out : List Out} (h : freeTags tags = .ok out) : Silent out := by
  induction tags generalizing out with
  | nil =>
    cases h
    exact WritesTo.nil
  | cons t tags ih =>
    cases t with
    | text s => exact ih h
    | junk =>
      obtain ⟨out', h', rfl⟩ := Except.map_eq_ok.mp h
      intro c l hm
      rcases List.mem_cons.mp hm with hm | hm
      · cases hm
      · exact ih h' c l hm
    | unset => cases h

theorem silent_modifyArgs {args : List PArg} {dev : Device} {r : Device × List Out × Str}
    (h : modifyArgs F dev args = .ok r) : Silent r.2.1 := by
  induction args generalizing dev r with
  | nil =>
    cases h
    exact WritesTo.nil
  | cons a args ih =>
    obtain ⟨r1, h1, h⟩ := Except.bind_eq_ok.mp h
    obtain ⟨r2, h2, h⟩ := Except.bind_eq_ok.mp h
    cases h
    refine WritesTo.append ?_ (ih h2)
    unfold modifyArg at h1
    split at h1
    · cases h1; exact WritesTo.nil
    · cases h1; exact WritesTo.nil
    · cases h1; exact WritesTo.nil
    · cases h1; exact WritesTo.nil
    · cases h1; exact WritesTo.nil
    · cases h1
      dsimp only [parseHargs]
      split
      · exact silent_free _
      · exact silent_free _
    · obtain ⟨r', h', rfl⟩ := Except.map_eq_ok.mp h1
      obtain ⟨out, ho, rfl⟩ := Except.map_eq_ok.mp h'
      have hs := silent_freeTags ho
      dsimp only
      split
      · split
        · exact hs
        · exact hs.append (silent_free _)
      · exact hs.append (silent_free _)
    · cases h1; exact WritesTo.nil
    · cases h1; exact WritesTo.nil

/-! ## The handlers -/

/-- Every client a device refers to is connected. -/
def ClientsLive (s : Server) : Prop :=
  ∀ d ∈ s.alldevs, (∀ c, (s.dev d).collector = some c → c ∈ s.clients) ∧ ∀ c ∈ (s.dev d).watchers, c ∈ s.clients

theorem clientsLive_iff_own (s : Server) : ClientsLive s ↔ (own s).Live := Iff.rfl

section Handlers

variable {args : List PArg} {c : ClientId} {s : Server}

theorem writes_cmdChange (hr : Registry s) (hl : ClientsLive s) : WritesTo (· ∈ s.clients) (cmdChange F args c s).out := by
  unfold cmdChange
  split
  · exact WritesTo.nil
  · split
    · exact WritesTo.nil
    · rename_i d hd
      dsimp only
      split
      · exact WritesTo.nil
      · rename_i c' hc'
        rw [(Quiet.modDev s d (core_storeChange F args _)).collector] at hc'
        exact WritesTo.single ((hl d ((hr.found _ d).mp hd).1).1 c' hc') _

theorem writes_updateEach {dev : Device} {what : BitVec 32} {cs : List ClientId} {out : List Out}
    (h : updateEach F dev what cs = .ok out) : WritesTo (· ∈ cs) out := by
  obtain ⟨line, -, rfl⟩ := Except.map_eq_ok.mp h
  exact WritesTo.flatMap (fun c hc => WritesTo.emit hc line)

theorem writes_cmdUpdate {env : Env} {r : Reply} (h : cmdUpdate F env args c s = .ok r) (hr : Registry s) (hl : ClientsLive s) :
    WritesTo (· ∈ r.srv.clients) r.out := by
  obtain ⟨-, h⟩ | ⟨uid, d, s₁, out, told, hd, hq, ho, ht, hs⟩ := cmdUpdate_cases F h
  · rw [h]
    exact WritesTo.nil
  · have hw : WritesTo (· ∈ s₁.clients) told := by
      refine (writes_updateEach F ht).mono (fun c' hc' => ?_)
      rw [hq.watchers] at hc'
      rw [hq.clients]
      exact (hl d ((hr.found _ d).mp hd).1).2 c' hc'
    rw [ho]
    obtain ⟨h1, h2⟩ | ⟨h1, line, h2⟩ := hs
    · rw [h1, h2]
      exact WritesTo.nil.append hw
    · rw [h1, h2]
      refine WritesTo.append (WritesTo.emit ?_ line) (hw.mono ?_)
      · exact List.mem_append_right _ (List.mem_singleton_self _)
      · exact fun c' hc' => List.mem_append_left _ hc'

theorem writes_cmdModify {r : Reply} (h : cmdModify F args c s = .ok r) (hr : Registry s) (hl : ClientsLive s) :
    WritesTo (· ∈ r.srv.clients) r.out := by
  obtain ⟨-, h⟩ | ⟨uid, d, dev, out, text, hd, hm, hmod, hs, ho⟩ := cmdModify_cases F h
  · rw [h]
    exact WritesTo.nil
  · have hdump : WritesTo (· ∈ r.srv.clients) (out ++ [.devconfDump]) := by
      refine ((silent_modifyArgs F hm).to _).append ?_
      intro c' l hm
      simp at hm
    obtain ho | ⟨c', line, hc', ho⟩ := ho
    · rw [ho]
      exact hdump
    · rw [ho]
      refine hdump.append (WritesTo.single ?_ line)
      rw [hmod.linkField Device.collector fun _ => rfl] at hc'
      rw [hs]
      exact (hl d ((hr.found _ d).mp hd).1).1 c' hc'

theorem writes_listGroups {p : ClientId → Prop} (hc : p c) {uid name : Option Str} {gs : List GroupId} {out : List Out}
    (h : listGroups uid name c s gs = .ok out) : WritesTo p out := by
  induction gs generalizing out with
  | nil =>
    cases h
    exact WritesTo.nil
  | cons g gs ih =>
    unfold listGroups at h
    split at h
    · exact ih h
    · split at h
      · obtain ⟨out', h', rfl⟩ := Except.map_eq_ok.mp h
        exact (WritesTo.emit hc _).append (ih h')
      · split at h
        · split at h
          · exact ih h
          · obtain ⟨out', h', rfl⟩ := Except.map_eq_ok.mp h
            exact (WritesTo.emit hc _).append (ih h')
        · cases h

theorem writes_askFull {p : ClientId → Prop} (hc : p c) {uids : List Str} {out : List Out}
    (h : askFull F c s uids = .ok out) : WritesTo p out := by
  induction uids generalizing out with
  | nil =>
    cases h
    exact WritesTo.nil
  | cons uid uids ih =>
    unfold askFull at h
    split at h
    · exact ih h
    · obtain ⟨line, -, h⟩ := Except.bind_eq_ok.mp h
      obtain ⟨out', h', h⟩ := Except.bind_eq_ok.mp h
      cases h
      exact (WritesTo.emit hc _).append (ih h')

/-- The commands that write only to the client they came from. -/
def Cmd.answers : Cmd → Bool
  | .chg | .upd | .mod | .setalarm => false
  | _ => true

theorem writes_answers {p : ClientId → Prop} (hc : p c) {env : Env} {cmd : Cmd} (ha : cmd.answers = true) {r : Reply}
    (h : cmd.run F env args c s = .ok r) : WritesTo p r.out := by
  cases cmd with
  | reg =>
    cases h
    obtain h | ⟨_, _, -, -, -, -, h⟩ | ⟨_, _, -, -, h⟩ := cmdRegister_cases args c s
    all_goals
      rw [h]
      exact WritesTo.nil
  | regg =>
    cases h
    exact (silent_cmdRegisterGroup args c s).to _
  | feed =>
    have h : cmdFeed args c s = .ok r := h
    unfold cmdFeed at h
    split at h
    · cases h; exact WritesTo.nil
    · split at h
      · cases h; exact WritesTo.nil
      · dsimp only at h
        split at h
        · obtain ⟨g, -, h⟩ := Except.bind_eq_ok.mp h
          cases h
          exact WritesTo.nil
        · cases h; exact WritesTo.nil
  | cfeed =>
    cases h
    obtain h | ⟨_, _, -, h⟩ := cmdCfeed_cases args c s
    all_goals
      rw [h]
      exact WritesTo.nil
  | ldevs =>
    cases h
    exact (WritesTo.flatMap (fun _ _ => WritesTo.emit hc _)).append (WritesTo.single hc _)
  | lgrps =>
    obtain ⟨out, ho, rfl⟩ := Except.map_eq_ok.mp h
    exact (writes_listGroups hc ho).append (WritesTo.single hc _)
  | ask =>
    have h : cmdAskDevice F args c s = .ok r := h
    unfold cmdAskDevice at h
    split at h
    · cases h; exact WritesTo.nil
    · obtain ⟨line, -, rfl⟩ := Except.map_eq_ok.mp h
      exact WritesTo.emit hc _
  | askf =>
    obtain ⟨out, ho, rfl⟩ := Except.map_eq_ok.mp h
    exact writes_askFull F hc ho
  | cactiask =>
    have h : cmdCactiaskDevice F args c s = .ok r := h
    unfold cmdCactiaskDevice at h
    split at h
    · cases h; exact WritesTo.nil
    · split at h
      · cases h
      · obtain ⟨line, -, rfl⟩ := Except.map_eq_ok.mp h
        exact WritesTo.emit hc _
  | client =>
    have h : cmdClient F env args c s = .ok r := h
    rw [(cmdClient_cases F h).1]
    exact WritesTo.nil
  | disconnect | ping | imalive | listenalarms => cases h; exact WritesTo.nil
  | dumpalarms => cases h; exact WritesTo.map (fun _ _ => hc)
  | getapiv => cases h; exact WritesTo.single hc _
  | chg => cases ha
  | upd => cases ha
  | mod => cases ha
  | setalarm => cases ha

/-- Every line a handler writes goes to a client that is connected. -/
theorem writes_run {env : Env} {cmd : Cmd} {r : Reply} (h : cmd.run F env args c s = .ok r) (hr : Registry s)
    (hl : ClientsLive s) (hc : c ∈ r.srv.clients) : WritesTo (· ∈ r.srv.clients) r.out := by
  cases cmd with
  | chg =>
    cases h
    rw [(quiet_cmdChange F args c s).clients]
    exact writes_cmdChange F hr hl
  | upd =>
    have h : cmdUpdate F env args c s = .ok r := h
    exact writes_cmdUpdate F h hr hl
  | mod =>
    have h : cmdModify F args c s = .ok r := h
    exact writes_cmdModify F h hr hl
  | setalarm =>
    cases h
    rw [(quiet_cmdSetalarm args c s).clients]
    unfold cmdSetalarm
    split
    · exact WritesTo.nil
    · dsimp only
      split
      · exact WritesTo.map (fun _ hx => List.mem_of_mem_filter hx)
      · exact WritesTo.map (fun _ hx => List.mem_of_mem_filter hx)
  | reg | regg | feed | cfeed | ldevs | lgrps | ask | askf | cactiask | disconnect | client | ping | imalive | listenalarms
  | dumpalarms | getapiv => exact writes_answers F hc rfl h

end Handlers

theorem writes_fireFeeds {now : Int} {c : ClientId} {s : Server} {ws : List WrapFeed} {x : List WrapFeed × List Out}
    (h : fireFeeds F now c s ws = .ok x) {p : ClientId → Prop} (hc : p c) : WritesTo p x.2 := by
  induction ws generalizing x with
  | nil =>
    cases h
    exact WritesTo.nil
  | cons w ws ih =>
    obtain ⟨x1, h1, h⟩ := Except.bind_eq_ok.mp h
    obtain ⟨x2, h2, h⟩ := Except.bind_eq_ok.mp h
    cases h
    refine WritesTo.append ?_ (ih h2)
    unfold fireFeed at h1
    split at h1
    · cases h1
    · split at h1
      · obtain ⟨line, -, rfl⟩ := Except.map_eq_ok.mp h1
        exact WritesTo.emit hc line
      · cases h1
        exact WritesTo.nil

/-- An event that ends no connection leaves the connected clients connected. -/
theorem clients_step {s s' : Server} {e : Event} (hr : Registry s) (h : step F s e = some s') (hn : e.closes = none)
    {c : ClientId} (hc : c ∈ s.clients) : c ∈ s'.clients := by
  change c ∈ (own s').live
  obtain h | ⟨op, hcause, -, h⟩ := own_step F hr h
  · rw [h]
    exact hc
  · rw [h]
    cases hcause with
    | connect _ => exact List.mem_append_left _ hc
    | create => exact hc
    | claim => exact hc
    | track => exact hc
    | watch => exact hc
    | drop hd =>
      rw [hn] at hd
      cases hd

/-- Every line goes to a client that is connected. -/
theorem writes_react {s : Server} {e : Event} {r : Reply} (hr : Registry s) (hl : ClientsLive s) (h : react F s e = some r) :
    WritesTo (· ∈ r.srv.clients) r.out := by
  obtain ⟨hp, hh⟩ := (react_eq_some F).mp h
  have hs : step F s e = some r.srv := (step_eq_some F).mpr ⟨r, h, rfl⟩
  cases e with
  | line c text env =>
    have hc : c ∈ s.clients := of_decide_eq_true hp
    have hc' : c ∈ r.srv.clients := clients_step F hr hs rfl hc
    have hh : handleLine F env c text s = .ok r := hh
    cases hcmd : lineCmd F text with
    | none =>
      obtain ⟨ret, he⟩ := handleLine_none F hcmd env c s
      rw [he] at hh
      cases hh
      exact WritesTo.nil
    | some p =>
      have hq := quiet_mark s c env
      rw [handleLine_some F (by exact hcmd)] at hh
      refine writes_run F hh (hr.quiet hq) ?_ hc'
      rw [clientsLive_iff_own, own_quiet hq]
      exact hl
  | feed c now =>
    have hc : c ∈ s.clients := of_decide_eq_true (Bool.and_eq_true_iff.mp hp).1
    have hc' : c ∈ r.srv.clients := clients_step F hr hs rfl hc
    obtain ⟨x, hx, rfl⟩ := Except.map_eq_ok.mp hh
    exact writes_fireFeeds F hx hc'
  | ping =>
    cases hh
    exact WritesTo.map (fun _ hx => List.mem_of_mem_filter hx)
  | devconf =>
    obtain ⟨out, hout, rfl⟩ := Except.map_eq_ok.mp hh
    obtain ⟨_, -, rfl⟩ := Except.map_eq_ok.mp hout
    intro c l hm
    simp at hm
  | accept | data | close | drained | timer | health =>
    cases hh
    exact WritesTo.nil

end Gnhast
