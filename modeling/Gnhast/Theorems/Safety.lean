import Gnhast.Lemmas.Safety

/-!
# Safety of the command layer

A line is handled safely when the words fit in the array for the arguments, the handler is safe in its memory, and the handler answers with an
error return when an argument it needs is missing or names nothing. Every handler looks at its own part of the arguments, so the
condition under which this holds in a reachable state is stated handler by handler.
-/

namespace Gnhast

open CStr Faults

variable (F : Doubles)

/-! ## What a line may lack -/

/-- A line without an uid, or with one that is not known. -/
def DeviceUnknown (args : List PArg) (s : Server) : Prop := (lastArg .uid args : Option Str).bind s.findDeviceByUid = none

/-- A `reg` line without an uid, or without what a device that is not known needs. -/
def RegisterLacks (args : List PArg) (s : Server) : Prop :=
  ∀ uid, lastArg .uid args = some uid → s.findDeviceByUid uid = none ∧
    (lastArg .name args = none ∨ byteArg (lastArg .subtype args) = 0 ∨ byteArg (lastArg .devtype args) = 0 ∨
      byteArg (lastArg .proto args) = 0)

/-- A `regg` line without an uid, or without a name for a group that is not known. -/
def GroupLacks (args : List PArg) (s : Server) : Prop :=
  ∀ uid, lastArg .uid args = some uid → s.findDevgroupByUid uid = none ∧ lastArg .name args = none

/-- A `regg` line with an uid on a list that is neither known nor its own. -/
def ListsUnknown (args : List PArg) (s : Server) : Prop :=
  (∃ l : Str, lastArg .grouplist args = some l ∧
    ∃ p ∈ strtok chComma l, lastArg .uid args ≠ some p ∧ s.findDevgroupByUid p = none) ∨
  ∃ l : Str, lastArg .devlist args = some l ∧ ∃ p ∈ strtok chComma l, s.findDeviceByUid p = none

/-- A `setalarm` line without an uid, or without a text for an alarm that is not known and not cleared. -/
def AlarmLacks (args : List PArg) (s : Server) : Prop :=
  ∀ aluid, lastArg .aluid args = some aluid → findAlarmByAluid s.alarms aluid = none ∧ lastArg .altext args = none ∧
    lastArg .alsev args ≠ some 0

/-- An argument that the handler needs is missing, or names nothing. -/
def Cmd.Lacks (cmd : Cmd) (args : List PArg) (s : Server) : Prop :=
  match cmd with
  | .chg | .upd | .mod | .feed | .cfeed | .ask => DeviceUnknown args s
  | .askf | .cactiask => lastArg .uid args = none ∨ NamesUnknown args s
  | .reg => RegisterLacks args s
  | .regg => GroupLacks args s ∨ ListsUnknown args s
  | .client => lastArg .client args = none
  | .setalarm => AlarmLacks args s
  | .ldevs | .lgrps | .disconnect | .ping | .imalive | .listenalarms | .dumpalarms | .getapiv => False

/-- A line that is answered by an error return. -/
def Refused (x : Except Fault Reply) : Prop := ∃ r i, x = .ok r ∧ r.ret = some i ∧ i ≠ 0

/-- The line of a client is handled safely. -/
structure LineSafe (env : Env) (c : ClientId) (text : Str) (s : Server) : Prop where
  parsed : ∀ words, parseNetcommand (cstr text) = some words → (parseCommand F words).length < words.length
  memSafe : MemSafe (handleLine F env c text s)
  refused : ∀ cmd args, lineCmd F text = some (cmd, args) → cmd.Lacks args s → Refused (handleLine F env c text s)

/-! ## What a line must have -/

/-- What a handler reads, or needs to answer rightly, is there. -/
def Cmd.Fits (cmd : Cmd) (args : List PArg) (c : ClientId) (s : Server) : Prop :=
  match cmd with
  | .regg => ListsUnknown args s → GroupLacks args s
  | .mod => OnDevice args s fun _ => ∀ d ∈ s.alldevs, (s.dev d).Readable
  | .lgrps => lastArg .name args = none ∨ lastArg .uid args ≠ none ∨ s.allgroups = []
  | .ask => OnDevice args s fun d => (s.dev d).Prints (scaledWhat (askFlags args) args (s.dev d))
  | .askf => (lastArg .uid args ≠ none ∧ ¬ NamesUnknown args s) ∧
      ∀ uid ∈ allArgs .uid args, ∀ d, s.findDeviceByUid uid = some d → (s.dev d).Prints gncUpdFull
  | .cactiask => (lastArg .uid args ≠ none ∧ ¬ NamesUnknown args s) ∧
      OnDevice args s fun d => (s.dev d).Prints (scaledWhat gncUpdCacti args (s.dev d))
  | .client => ∀ cli, lastArg .client args = some cli → cli ≠ str "handler" → NamesFit (s.client c) cli s
  | .setalarm => ∃ aluid, lastArg .aluid args = some aluid ∧
      (findAlarmByAluid s.alarms aluid ≠ none ∨ lastArg .altext args ≠ none ∨ lastArg .alsev args = some 0)
  | .chg | .reg | .upd | .feed | .cfeed | .ldevs | .disconnect | .ping | .imalive | .listenalarms | .dumpalarms
  | .getapiv => True

/-! ## Answers -/

theorem refused_ok {r : Reply} {i : Int} (h : r.ret = some i) (hi : i ≠ 0) : Refused (.ok r) := ⟨r, i, rfl, h, hi⟩

theorem not_refused {x : Except Fault Reply} (h : ∀ r, x = .ok r → r.ret = some 0) : ¬ Refused x := by
  rintro ⟨r, i, hx, hi, hne⟩
  rw [h r hx, Option.some.injEq] at hi
  exact hne hi.symm

/-- A handler that refuses what it should. -/
theorem safe_of_refuses {x : Except Fault Reply} {p q : Prop} (hs : MemSafeWhen p x) (h : q → Refused x) :
    (MemSafe x ∧ (q → Refused x)) ↔ p := (and_iff_left h).trans hs.avoids

/-- A handler that refuses nothing. -/
theorem safe_of_accepts {x : Except Fault Reply} {p q : Prop} (hs : MemSafeWhen p x) (h : ∀ r, x = .ok r → r.ret = some 0) :
    (MemSafe x ∧ (q → Refused x)) ↔ ¬ q ∧ p := by
  rw [and_comm]
  exact and_congr ⟨fun hq hq' => not_refused h (hq hq'), fun hq hq' => absurd hq' hq⟩ hs.avoids

theorem settles_of_ok {x : Except Fault Reply} (h : ∃ r, x = .ok r) : MemSafeWhen True x :=
  ⟨fun _ => h, fun hn => absurd trivial hn⟩

theorem DeviceUnknown.cases {args : List PArg} {s : Server} (h : DeviceUnknown args s) :
    lastArg .uid args = none ∨ ∃ uid, lastArg .uid args = some uid ∧ s.findDeviceByUid uid = none := by
  cases hu : (lastArg .uid args : Option Str) with
  | none => exact Or.inl rfl
  | some uid => exact Or.inr ⟨uid, rfl, by rwa [DeviceUnknown, hu, Option.bind_some] at h⟩

theorem refused_cmdChange {args : List PArg} {s : Server} (h : DeviceUnknown args s) (c : ClientId) :
    Refused (.ok (cmdChange F args c s)) := by
  obtain hu | ⟨uid, hu, hf⟩ := h.cases
  · exact refused_ok (i := -1) (by simp only [cmdChange, hu]) (by decide)
  · exact refused_ok (i := -1) (by simp only [cmdChange, hu, hf]) (by decide)

theorem refused_cmdCfeed {args : List PArg} {s : Server} (h : DeviceUnknown args s) (c : ClientId) :
    Refused (.ok (cmdCfeed args c s)) := by
  obtain hu | ⟨uid, hu, hf⟩ := h.cases
  · exact refused_ok (i := -1) (by simp only [cmdCfeed, hu]) (by decide)
  · exact refused_ok (i := -1) (by simp only [cmdCfeed, hu, hf]) (by decide)

theorem refused_cmdFeed {args : List PArg} {s : Server} (h : DeviceUnknown args s) (c : ClientId) :
    Refused (cmdFeed args c s) := by
  obtain hu | ⟨uid, hu, hf⟩ := h.cases
  · exact ⟨{ srv := s, ret := some (-1) }, -1, by simp only [cmdFeed, hu], rfl, by decide⟩
  · exact ⟨{ srv := s, ret := some (-1) }, -1, by simp only [cmdFeed, hu, hf], rfl, by decide⟩

theorem refused_cmdAskDevice {args : List PArg} {s : Server} (h : DeviceUnknown args s) (c : ClientId) :
    Refused (cmdAskDevice F args c s) := by
  unfold cmdAskDevice
  rw [show (lastArg .uid args : Option Str).bind s.findDeviceByUid = none from h]
  exact refused_ok rfl (by decide)

theorem forall_of_unknown {args : List PArg} {s : Server} (h : DeviceUnknown args s) (uid : Str)
    (hu : lastArg .uid args = some uid) : s.findDeviceByUid uid = none := by
  rwa [DeviceUnknown, hu, Option.bind_some] at h

theorem exists_cmdUpdate (env : Env) (args : List PArg) (c : ClientId) (s : Server) :
    ∃ r, cmdUpdate F env args c s = .ok r := by
  by_cases h : DeviceUnknown args s
  · exact ⟨_, cmdUpdate_unknown F env c (forall_of_unknown h)⟩
  · obtain ⟨d, hd⟩ := Option.ne_none_iff_exists'.mp h
    obtain ⟨uid, hu, hf⟩ := Option.bind_eq_some_iff.mp hd
    obtain ⟨r, hr, -⟩ := cmdUpdate_known F env c hu hf
    exact ⟨r, hr⟩

/-- `cmd_register` refuses a line that lacks something. -/
theorem refused_cmdRegister {args : List PArg} {s : Server} (h : RegisterLacks args s) (c : ClientId) :
    Refused (.ok (cmdRegister args c s)) := by
  obtain hr | ⟨uid, nm, hu, hn, hf, hc, -⟩ | ⟨uid, d, hu, hf, -⟩ := cmdRegister_cases args c s
  · rw [hr]
    exact refused_ok rfl (by decide)
  · obtain ⟨-, hl⟩ := h uid hu
    rcases hl with hl | hl | hl | hl
    · rw [hl] at hn
      cases hn
    · exact absurd hl hc.subtype
    · exact absurd hl hc.type
    · exact absurd hl hc.proto
  · obtain ⟨hf', -⟩ := h uid hu
    rw [hf'] at hf
    cases hf

/-- `cmd_register_group` refuses exactly the lines that lack an uid, or a name for a new group. -/
theorem refused_cmdRegisterGroup_iff (args : List PArg) (c : ClientId) (s : Server) :
    Refused (.ok (cmdRegisterGroup args c s)) ↔ GroupLacks args s := by
  unfold cmdRegisterGroup
  cases hu : (lastArg .uid args : Option Str) with
  | none => exact iff_of_true (refused_ok rfl (by decide)) fun uid hu' => by rw [hu] at hu'; cases hu'
  | some uid =>
    dsimp only
    cases hf : s.findDevgroupByUid uid with
    | some g =>
      refine iff_of_false (not_refused fun r hr => ?_) fun h => ?_
      · cases hr
        rfl
      · obtain ⟨hf', -⟩ := h uid hu
        rw [hf'] at hf
        cases hf
    | none =>
      dsimp only
      cases hn : (lastArg .name args : Option Str) with
      | none =>
        refine iff_of_true (refused_ok rfl (by decide)) fun uid' hu' => ?_
        rw [hu, Option.some.injEq] at hu'
        exact hu' ▸ ⟨hf, hn⟩
      | some name =>
        refine iff_of_false (not_refused fun r hr => ?_) fun h => ?_
        · cases hr
          rfl
        · obtain ⟨-, hn'⟩ := h uid hu
          rw [hn'] at hn
          cases hn

theorem ret_cmdSetalarm (args : List PArg) (c : ClientId) (s : Server) : (cmdSetalarm args c s).ret = some 0 := by
  unfold cmdSetalarm
  split <;> rfl

theorem ret_cmdCactiaskDevice {args : List PArg} {c : ClientId} {s : Server} {r : Reply}
    (h : cmdCactiaskDevice F args c s = .ok r) : r.ret = some 0 := by
  unfold cmdCactiaskDevice at h
  split at h
  · cases h
    rfl
  · split at h
    · cases h
    · obtain ⟨line, -, rfl⟩ := Except.map_eq_ok.mp h
      rfl

/-! ## Lines -/

theorem lex_ne_nil (m : Mode) (w s : Str) : lex m w s ≠ [] := by
  fun_induction lex m w s <;> simp_all

/-- The array for the arguments has room for those of all words but the first, and for the mark at the end. -/
theorem length_parseCommand {text : Str} {words : List Str} (h : parseNetcommand text = some words) :
    (parseCommand F words).length < words.length := by
  unfold parseNetcommand at h
  split at h
  · cases h
  · cases h
    have hpos := List.length_pos_iff.mpr (lex_ne_nil .top [] text)
    have h1 := (List.takeWhile_sublist (l := (lex .top [] text).tail) fun w : Str => !w.isEmpty).length_le
    have h2 := List.length_filterMap_le (parseWord F) ((lex .top [] text).tail.takeWhile fun w => !w.isEmpty)
    rw [List.length_tail] at h1
    unfold parseCommand
    omega

/-- Whether a handler runs safely. -/
theorem safe_run_iff {s : Server} (hr : Registry s) (ht : GroupTable s) (hh : HostsShort s) (env : Env) (cmd : Cmd)
    (args : List PArg) (c : ClientId) :
    (MemSafe (cmd.run F env args c s) ∧ (cmd.Lacks args s → Refused (cmd.run F env args c s))) ↔ cmd.Fits args c s := by
  cases cmd with
  | chg => exact safe_of_refuses (settles_of_ok ⟨_, rfl⟩) fun h => refused_cmdChange F h c
  | reg => exact safe_of_refuses (settles_of_ok ⟨_, rfl⟩) fun h => refused_cmdRegister h c
  | regg =>
    have hiff := refused_cmdRegisterGroup_iff args c s
    refine (and_iff_right (avoids_ok _)).trans ?_
    change (GroupLacks args s ∨ ListsUnknown args s → Refused (.ok (cmdRegisterGroup args c s))) ↔ _
    rw [hiff]
    exact ⟨fun h hl => h (Or.inr hl), fun h hl => hl.elim id h⟩
  | upd =>
    refine safe_of_refuses (settles_of_ok (exists_cmdUpdate F env args c s)) fun h => ?_
    exact ⟨_, -1, cmdUpdate_unknown F env c (forall_of_unknown h), rfl, by decide⟩
  | mod =>
    refine safe_of_refuses (settles_cmdModify F hr args c) fun h => ?_
    exact ⟨_, -1, cmdModify_unknown F c (forall_of_unknown h), rfl, by decide⟩
  | feed => exact (and_iff_left fun h => refused_cmdFeed h c).trans (iff_of_true (memSafe_cmdFeed args c s) trivial)
  | cfeed => exact safe_of_refuses (settles_of_ok ⟨_, rfl⟩) fun h => refused_cmdCfeed h c
  | lgrps => exact safe_of_refuses ((settles_listGroups _ _ c ht.name).map _) fun h => h.elim
  | ask => exact safe_of_refuses (settles_cmdAskDevice F args c s) fun h => refused_cmdAskDevice F h c
  | askf =>
    refine (safe_of_accepts ((settles_askFull F c s _).map _) fun r h => ?_).trans (and_congr_left fun _ => not_or)
    obtain ⟨out, -, rfl⟩ := Except.map_eq_ok.mp h
    rfl
  | cactiask =>
    refine (safe_of_accepts (settles_cmdCactiaskDevice F args c s) fun r h => ret_cmdCactiaskDevice F h).trans ?_
    change (¬ (lastArg .uid args = none ∨ NamesUnknown args s) ∧ _) ↔ _
    rw [not_or]
    exact and_congr_right fun h => ⟨fun hp => (hp h.2).2, fun hp _ => ⟨h.1, hp⟩⟩
  | client =>
    refine safe_of_refuses (settles_cmdClient F env (hh.fits c)) fun h => ?_
    have hc : cmdClient F env args c s = .ok { srv := s, ret := some (-1) } := by
      unfold cmdClient
      rw [show (lastArg .client args : Option Str) = none from h]
    exact ⟨_, -1, hc, rfl, by decide⟩
  | setalarm =>
    refine (safe_of_accepts (settles_of_ok ⟨_, rfl⟩) fun r h => ?_).trans ?_
    · cases h
      exact ret_cmdSetalarm args c s
    · change ¬ AlarmLacks args s ∧ True ↔ _
      simp only [AlarmLacks, and_true, not_forall, not_and_or, Cmd.Fits, exists_prop, ne_eq, not_not]
  | ldevs | disconnect | ping | imalive | listenalarms | dumpalarms | getapiv =>
    exact safe_of_refuses (settles_of_ok ⟨_, rfl⟩) fun h => h.elim

theorem NamesFit.mark {s : Server} {c : ClientId} {env : Env} {cli : Str} :
    NamesFit ((s.mark c env).client c) cli (s.mark c env) ↔ NamesFit (s.client c) cli s := by
  have hh := (quiet_mark s c env).host c
  have huid : trackUid ((s.mark c env).client c) cli = trackUid (s.client c) cli := by
    unfold trackUid
    rw [hh]
  constructor
  · rintro ⟨h1, h2, h3⟩
    rw [huid] at h1 h2 h3
    rw [hh] at h2 h3
    exact ⟨h1, h2, h3⟩
  · rintro ⟨h1, h2, h3⟩
    rw [← huid] at h1 h2 h3
    rw [← hh] at h2 h3
    exact ⟨h1, h2, h3⟩

/-- That a line marks its client does not matter to the handlers. -/
theorem fits_mark {cmd : Cmd} {args : List PArg} {c : ClientId} {env : Env} {s : Server} :
    cmd.Fits args c (s.mark c env) ↔ cmd.Fits args c s := by
  cases cmd with
  | client => exact forall_congr' fun cli => forall₂_congr fun _ _ => NamesFit.mark
  | _ => exact Iff.rfl

/-- In every state that is reached, every line of every client is handled safely exactly when it selects no handler or its
arguments fit the handler. -/
theorem lineSafe_iff {cfg : Config} {s₀ s : Server} {es : List Event} (h : startup F cfg = .ok s₀)
    (hs : Runs.exec (step F) s₀ es = some s) (env : Env) (c : ClientId) (text : Str) :
    LineSafe F env c text s ↔ ∀ cmd args, lineCmd F text = some (cmd, args) → cmd.Fits args c s := by
  obtain ⟨hr, ht, hh⟩ : Registry s ∧ GroupTable s ∧ HostsShort s :=
    Runs.exec_induct (I := fun s => Registry s ∧ GroupTable s ∧ HostsShort s)
      (fun _ _ _ hI hst => ⟨registry_step F hI.1 hst, groupTable_step F hI.2.1 hI.1 hst, hostsShort_step F hI.2.2 hst⟩)
      ⟨(startup_registry F h).1, startup_table F h, startup_hostsShort F h⟩ hs
  cases hl : lineCmd F text with
  | none =>
    obtain ⟨ret, hret⟩ := handleLine_none F hl env c s
    refine iff_of_true ⟨fun _ => length_parseCommand F, avoids_of_eq_ok hret, fun _ _ hc => ?_⟩ fun _ _ hc => ?_
    · rw [hl] at hc
      cases hc
    · cases hc
  | some p =>
    obtain ⟨cmd, args⟩ := p
    have hq := quiet_mark s c env
    have hrun := safe_run_iff F (hr.quiet hq) (ht.quiet hq) (hh.of_host hq.host) env cmd args c
    rw [fits_mark, ← handleLine_some F hl] at hrun
    constructor
    · rintro ⟨-, hsafe, href⟩ _ _ hc
      cases hc
      exact hrun.mp ⟨hsafe, href cmd args hl⟩
    · intro hfits
      obtain ⟨hsafe, href⟩ := hrun.mpr (hfits cmd args rfl)
      refine ⟨fun _ => length_parseCommand F, hsafe, fun _ _ hc => ?_⟩
      rw [hl] at hc
      cases hc
      exact href

/-- A client that names itself. -/
theorem lineSafe_iff_client : ∃ s, Runs.exec (step Doubles.exact) {} [.accept 0 10 0 0 1] = some s ∧
    (LineSafe Doubles.exact {} 0 (str "client client:fan") s ↔
      ∀ cmd args, lineCmd Doubles.exact (str "client client:fan") = some (cmd, args) → cmd.Fits args 0 s) :=
  ⟨_, rfl, @lineSafe_iff Doubles.exact {} {} _ [.accept 0 10 0 0 1] rfl rfl {} 0 (str "client client:fan")⟩

/-- Without an uid, `cactiask` follows a pointer that was never assigned; with only a name, `lgrps` compares NULL; and a `setalarm`
that lacks its uid is not answered by an error. -/
theorem not_lineSafe_missing : startup Doubles.exact {} = .ok {} ∧ ∃ s, Runs.exec (step Doubles.exact) {}
    [.accept 0 10 0 0 1, .line 0 (str "regg uid:attic name:Attic") {}] = some s ∧
    ¬ LineSafe Doubles.exact {} 0 (str "cactiask") s ∧ ¬ LineSafe Doubles.exact {} 0 (str "lgrps name:Attic") s ∧
      ¬ LineSafe Doubles.exact {} 0 (str "setalarm") s := by
  refine ⟨rfl, _, rfl, fun h => ?_, fun h => ?_, fun h => ?_⟩
  · exact h.memSafe .uninitialised rfl uninitialised_ofMemory
  · exact h.memSafe .nullString rfl nullString_ofMemory
  · obtain ⟨r, i, hr, hi, hne⟩ := h.refused .setalarm [] rfl (fun _ hu => nomatch hu)
    cases hr
    cases hi
    exact hne rfl

end Gnhast
