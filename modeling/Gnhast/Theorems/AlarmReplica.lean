import Gnhast.Collcmd
import Gnhast.Lemmas.Wire
import Gnhast.Theorems.Alarms

/-!
# Alarms of a listening client

A client that listens to alarms executes what it is sent on a table of its own. The server sends it an alarm that was made or
changed when the alarm is of interest to it, and the removal of any alarm. So its table mirrors the alarms of interest, until a
`setalarm` takes an alarm down in severity or off the channels the client listens to: of that it is not told.
-/

namespace Gnhast

open CStr Runs Keyed

variable (F : Doubles)

/-! ## The line of an alarm -/

/-- An alarm uid, and an alarm text, that come back when they are printed. -/
structure PlainUid (s : Str) : Prop where
  bare : Bare s
  noBackslash : chBackslash ∉ s
  oneLine : OneLine s

structure PlainText (s : Str) : Prop where
  noQuote : chQuote ∉ s
  noBackslash : chBackslash ∉ s
  oneLine : OneLine s

structure Alarm.Plain (a : Alarm) : Prop where
  aluid : PlainUid a.aluid
  altext : PlainText a.altext

theorem PlainText.quotable {s : Str} (h : PlainText s) : Quotable s := by
  refine ⟨s, h.noQuote, fun hb => h.noBackslash ?_, Or.inl rfl⟩
  exact List.mem_of_getLast? hb

theorem PlainText.nil : PlainText [] := ⟨by simp, by simp, oneLine_nil⟩

/-- The arguments of the line of an alarm. -/
def alarmArgs (aluid altext : Str) (alsev alchan : BitVec 32) : List PArg :=
  [⟨.aluid, aluid⟩, ⟨.altext, altext⟩, ⟨.alsev, alsev⟩, ⟨.alchan, alchan⟩]

/-- The fields of the line. -/
def alarmRest (aluid altext : Str) (alsev alchan : BitVec 32) : Str :=
  field .aluid aluid ++ chSpace :: (argnm .altext ++ chColon :: chQuote :: (altext ++ chQuote :: chSpace ::
    (field .alsev (fmtD alsev) ++ chSpace :: field .alchan (fmtU alchan))))

theorem gnSetalarm_eq (aluid altext : Str) (alsev alchan : BitVec 32) :
    gnSetalarm aluid altext alsev alchan = str "setalarm" ++ chSpace :: alarmRest aluid altext alsev alchan ++ [chLf] := by
  have h1 : str "setalarm " = str "setalarm" ++ [chSpace] := rfl
  have h2 : str " " = [chSpace] := rfl
  simp [gnSetalarm, alarmRest, h1, h2, field, quote]

theorem oneLine_alarmRest {aluid altext : Str} (hu : PlainUid aluid) (ht : PlainText altext) (alsev alchan : BitVec 32) :
    OneLine (alarmRest aluid altext alsev alchan) := by
  have hc : chSpace ≠ chNul ∧ chSpace ≠ chLf ∧ chColon ≠ chNul ∧ chColon ≠ chLf ∧ chQuote ≠ chNul ∧ chQuote ≠ chLf := by
    decide
  have hsev : OneLine (fmtD alsev) := (Numeral.decInt _).oneLine
  have hchan : OneLine (fmtU alchan) := (Numeral.decNat _).oneLine
  simp [alarmRest, field, hc, hu.oneLine, ht.oneLine, hsev, hchan]

/-- The line ends in a digit. -/
theorem stripCr_alarmLine (aluid altext : Str) (alsev alchan : BitVec 32) :
    stripCr (str "setalarm" ++ chSpace :: alarmRest aluid altext alsev alchan) =
      str "setalarm" ++ chSpace :: alarmRest aluid altext alsev alchan := by
  have hend : str "setalarm" ++ chSpace :: alarmRest aluid altext alsev alchan =
      (str "setalarm" ++ chSpace :: (field .aluid aluid ++ chSpace :: (argnm .altext ++ chColon :: chQuote ::
        (altext ++ chQuote :: chSpace :: (field .alsev (fmtD alsev) ++ chSpace :: (argnm .alchan ++ [chColon])))))) ++
        fmtU alchan := by
    simp [alarmRest, field]
  rw [hend, fmtU, (Numeral.decNat _).stripCr]

theorem lex_alarmRest {aluid altext : Str} (hu : Bare aluid) (ht : Quotable altext) (alsev alchan : BitVec 32) :
    lex .skip [] (alarmRest aluid altext alsev alchan) =
      [field .aluid aluid, field .altext altext, field .alsev (fmtD alsev), field .alchan (fmtU alchan)] := by
  have hsev : Bare (fmtD alsev) := (Numeral.decInt _).bare
  have hchan : Bare (fmtU alchan) := (Numeral.decNat _).bare
  rw [alarmRest, lex_skip_word (bare_field hu) (field_ne_nil _ _), lex_field_quote, lex_quotable ht,
    lex_skip_word (bare_field hsev) (field_ne_nil _ _), lex_skip_last (bare_field hchan) (field_ne_nil _ _)]
  simp [field]

/-- A client reads back the alarm that was printed. -/
theorem readCommand_gnSetalarm {aluid altext : Str} (hu : PlainUid aluid) (ht : PlainText altext) (alsev alchan : BitVec 32) :
    readCommand F (readLine (gnSetalarm aluid altext alsev alchan)) =
      some (str "setalarm", alarmArgs aluid altext alsev alchan) := by
  have hword : Bare (str "setalarm") ∧ OneLine (str "setalarm") := by decide
  have hc : chSpace ≠ chNul ∧ chSpace ≠ chLf := by decide
  have hone : OneLine (str "setalarm" ++ chSpace :: alarmRest aluid altext alsev alchan) := by
    simp [hword.2, hc, oneLine_alarmRest hu ht]
  rw [gnSetalarm_eq, readLine_append hone.2, stripCr_alarmLine, readCommand_text F hword.1 hone.1,
    lex_alarmRest hu.bare ht.quotable]
  simp only [readArgs_field, readArgs_nil, readValue, fmtD, fmtU, atoi_decInt, strtoul_decNat]
  rfl

/-! ## What a client does with it -/

/-- A collector with a table of alarms. -/
def Collector.setAlarms (k : Collector) (alarms : List Alarm) : Collector := { k with mem := { k.mem with alarms := alarms } }

/-- The `setalarm` lines a client is sent, executed with `cmd_alarm`. -/
def hearAlarms (lines : List Str) (k : Collector) : Except Fault Collector :=
  Collcmd.obey F .setalarm (fun args k => .ok (Collcmd.cmdAlarm args k)) lines k

theorem hearAlarms_cons {aluid altext : Str} (hu : PlainUid aluid) (ht : PlainText altext) (alsev alchan : BitVec 32)
    (lines : List Str) (k : Collector) : hearAlarms F (gnSetalarm aluid altext alsev alchan :: lines) k =
      hearAlarms F lines (k.setAlarms (updateAlarm aluid (some altext) alsev alchan k.mem.alarms).1) := by
  have hcmd : Collcmd.findCommand (str "setalarm") = some .setalarm := by decide
  rw [hearAlarms, Collcmd.obey, readCommand_gnSetalarm F hu ht]
  simp only [hcmd, if_true]
  rfl

/-- A removal that is heard. -/
theorem hearAlarms_clear {aluid : Str} (hu : PlainUid aluid) (alchan : BitVec 32) (lines : List Str) (k : Collector) :
    hearAlarms F (gnSetalarm aluid [] 0 alchan :: lines) k =
      hearAlarms F lines (k.setAlarms ((Change.del aluid : Change Alarm Str).apply Alarm.aluid k.mem.alarms)) := by
  have hnone : (updateAlarm aluid (some []) 0 alchan k.mem.alarms).2 = none := by
    unfold updateAlarm
    split
    · rfl
    · rfl
  rw [hearAlarms_cons F hu PlainText.nil, updateAlarm_eq, hnone]
  rfl

/-- An alarm that is heard. -/
theorem hearAlarms_set {a : Alarm} (ha : a.Plain) (hsev : 1 ≤ a.alsev.toInt) (hchan : a.alchan ≠ 0) (lines : List Str)
    (k : Collector) : hearAlarms F (gnSetalarm a.aluid a.altext a.alsev a.alchan :: lines) k =
      hearAlarms F lines (k.setAlarms ((Change.set a : Change Alarm Str).apply Alarm.aluid k.mem.alarms)) := by
  have h0 : a.alsev ≠ 0 := by
    intro h
    rw [h] at hsev
    exact absurd hsev (by decide)
  have h1 : a.alsev ≠ -1 := by
    intro h
    rw [h] at hsev
    exact absurd hsev (by decide)
  have hmade : (updateAlarm a.aluid (some a.altext) a.alsev a.alchan k.mem.alarms).2 = some a := by
    unfold updateAlarm
    split
    · rw [if_neg h0]
    · rename_i old hold
      rw [if_neg h0]
      have hk := (Keyed.mem_of_get hold).2
      simp only [Alarm.update, Option.getD_some, if_neg h1, if_neg hchan, hk]
  rw [hearAlarms_cons F ha.aluid ha.altext, updateAlarm_eq, hmade]
  rfl

/-! ## What the server sends -/

/-- The lines to a client among lines that go to clients of a list. -/
theorem linesTo_write {cs : List ClientId} (h : cs.Nodup) (c : ClientId) (line : Str) :
    linesTo c (cs.map fun c' => Out.write c' line) = if c ∈ cs then [line] else [] := by
  induction cs with
  | nil => rfl
  | cons c' cs ih =>
    obtain ⟨hc', hcs⟩ := List.nodup_cons.mp h
    have ih := ih hcs
    unfold linesTo at ih ⊢
    rw [List.map_cons, List.filterMap_cons]
    by_cases he : c' = c
    · subst he
      rw [if_neg hc'] at ih
      simp [ih]
    · simp [he, Ne.symm he, ih]

/-- The alarms of interest to a client that listens. -/
def heard (sev chan : BitVec 32) (a : Alarm) : Bool := decide (sev.toInt ≤ a.alsev.toInt) && chan &&& a.alchan != 0

theorem hears_eq {cl : Client} {sev chan : BitVec 32} (hw : cl.alarmwatch = sev) (hc : cl.alchan = chan) (hsev : 1 ≤ sev.toInt)
    (a : Alarm) : cl.hears a = heard sev chan a := by
  have hne : (sev != 0) = true := by
    rw [bne_iff_ne]
    intro h
    rw [h] at hsev
    exact absurd hsev (by decide)
  unfold Client.hears heard
  rw [hw, hc, hne, Bool.and_true, BitVec.and_comm]

/-- A client that listens, and whose own table it keeps. -/
structure Listening (c : ClientId) (sev chan : BitVec 32) (st : Server × Collector) : Prop where
  nodup : st.1.clients.Nodup
  connected : c ∈ st.1.clients
  watch : (st.1.client c).alarmwatch = sev
  channel : (st.1.client c).alchan = chan
  distinct : Distinct Alarm.aluid st.1.alarms
  own : Distinct Alarm.aluid st.2.mem.alarms
  plain : ∀ a ∈ st.1.alarms, a.Plain

/-- The server and a client: the client executes the alarms of the lines that each step writes to it. -/
def watchAlarms (c : ClientId) (st : Server × Collector) (e : Event) : Option (Server × Collector) :=
  (react F st.1 e).bind fun r => (hearAlarms F (linesTo c r.out) st.2).toOption.map fun k => (r.srv, k)

/-- An alarm that is set to plain strings is plain. -/
theorem plain_updateAlarm {aluid : Str} {altext : Option Str} (hu : PlainUid aluid) (ht : ∀ t, altext = some t → PlainText t)
    {alarms : List Alarm} (hp : ∀ a ∈ alarms, a.Plain) {alsev alchan : BitVec 32} {a : Alarm}
    (h : (updateAlarm aluid altext alsev alchan alarms).2 = some a) : a.Plain := by
  obtain ⟨haluid, haltext⟩ := updateAlarm_strings hu ht (fun a ha => ⟨(hp a ha).aluid, (hp a ha).altext⟩) h
  exact ⟨haluid, haltext⟩

/-- What a client that listens is sent when an alarm was made or changed, and when none was. -/
def toldLines (sev chan : BitVec 32) (aluid : Str) : Option Alarm → List Str
  | none => [gnSetalarm aluid [] 0 (BitVec.allOnes 32)]
  | some a => if heard sev chan a then [gnSetalarm a.aluid a.altext a.alsev a.alchan] else []

/-- What a client that listens is sent by a `setalarm`. -/
theorem linesTo_cmdSetalarm {c : ClientId} {sev chan : BitVec 32} {st : Server × Collector} (h : Listening c sev chan st)
    (hsev : 1 ≤ sev.toInt) {args : List PArg} {aluid : Str} (hu : lastArg .aluid args = some aluid) (c' : ClientId) :
    linesTo c (cmdSetalarm args c' st.1).out = toldLines sev chan aluid
      (updateAlarm aluid (lastArg .altext args) (sevArg args) (chanArg args) st.1.alarms).2 := by
  have hout : (cmdSetalarm args c' st.1).out =
      match (updateAlarm aluid (lastArg .altext args) (sevArg args) (chanArg args) st.1.alarms).2 with
      | none => (st.1.clients.filter (fun c => (st.1.client c).hearsClear)).map
          (fun c => Out.write c (gnSetalarm aluid [] 0 (BitVec.allOnes 32)))
      | some a => (st.1.clients.filter (fun c => (st.1.client c).hears a)).map
          (fun c => Out.write c (gnSetalarm a.aluid a.altext a.alsev a.alchan)) := by
    simp only [cmdSetalarm, hu]
    rfl
  rw [hout]
  cases (updateAlarm aluid (lastArg .altext args) (sevArg args) (chanArg args) st.1.alarms).2 with
  | none =>
    dsimp only [toldLines]
    rw [linesTo_write (h.nodup.filter _), if_pos]
    refine List.mem_filter.mpr ⟨h.connected, ?_⟩
    rw [Client.hearsClear, h.watch, decide_eq_true_eq]
    omega
  | some a =>
    dsimp only [toldLines]
    rw [linesTo_write (h.nodup.filter _)]
    simp only [List.mem_filter, h.connected, true_and, hears_eq h.watch h.channel hsev]

/-- The change a `setalarm` makes, heard by a client that listens. -/
theorem hearAlarms_change {sev chan : BitVec 32} (hsev : 1 ≤ sev.toInt) {aluid : Str} (hu : PlainUid aluid)
    {made : Option Alarm} (hm : ∀ a, made = some a → a.Plain) (k : Collector) :
    hearAlarms F (toldLines sev chan aluid made) k =
      .ok (k.setAlarms (applyTold Alarm.aluid ((alarmChange aluid made).tell (heard sev chan)) k.mem.alarms)) := by
  cases made with
  | none =>
    rw [toldLines, hearAlarms_clear F hu]
    rfl
  | some a =>
    dsimp only [toldLines, alarmChange, Change.tell]
    by_cases hh : heard sev chan a = true
    · have ha := hh
      simp only [heard, Bool.and_eq_true, decide_eq_true_eq, bne_iff_ne] at ha
      have hchan : a.alchan ≠ 0 := by
        intro h0
        rw [h0] at ha
        exact ha.2 BitVec.and_zero
      rw [if_pos hh, if_pos hh, hearAlarms_set F (hm a rfl) (by omega) hchan]
      rfl
    · rw [if_neg hh, if_neg hh]
      rfl

/-! ## One step -/

/-- A `setalarm` line with strings that come back when they are printed. -/
def PlainSetalarm (e : Event) : Prop :=
  ∃ c text env args, e = .line c text env ∧ lineCmd F text = some (.setalarm, args) ∧
    (∀ u, lastArg .aluid args = some u → PlainUid u) ∧ ∀ t, lastArg .altext args = some t → PlainText t

/-- A severity and a channel that leave an alarm of interest an alarm of interest, or remove it. Severity -1 keeps the severity,
and without a channel it is the generic one. -/
def KeepsHeard (sev chan alsev alchan : BitVec 32) : Prop :=
  alsev = 0 ∨ ((alsev = -1 ∨ sev.toInt ≤ alsev.toInt) ∧ chan &&& (if alchan = 0 then 1 else alchan) ≠ 0)

/-- A `setalarm` line for an alarm of interest keeps it one, or removes it. -/
def StaysHeard (sev chan : BitVec 32) (st : Server × Collector) (e : Event) : Prop :=
  ∀ args aluid, SetsAlarm F e args aluid → ∀ old ∈ st.1.alarms, old.aluid = aluid → heard sev chan old = true →
    KeepsHeard sev chan (sevArg args) (chanArg args)

theorem heard_update_iff {sev chan : BitVec 32} {old : Alarm} (h : heard sev chan old = true) (altext : Option Str)
    {alsev : BitVec 32} (h0 : alsev ≠ 0) (alchan : BitVec 32) :
    heard sev chan (old.update altext alsev alchan) = true ↔ KeepsHeard sev chan alsev alchan := by
  simp only [heard, Bool.and_eq_true, decide_eq_true_eq, bne_iff_ne] at h ⊢
  unfold KeepsHeard
  rw [or_iff_right h0]
  refine and_congr ?_ Iff.rfl
  simp only [Alarm.update]
  split
  · rename_i h1
    exact iff_of_true h.1 (Or.inl h1)
  · rename_i h1
    rw [or_iff_right h1]

/-- The change a `setalarm` makes takes no alarm out of the filter exactly when the alarm it is for stays in it. -/
theorem stays_alarmChange_iff {sev chan : BitVec 32} {alarms : List Alarm} (hd : Distinct Alarm.aluid alarms) (aluid : Str)
    (altext : Option Str) (alsev alchan : BitVec 32) :
    (alarmChange aluid (updateAlarm aluid altext alsev alchan alarms).2).Stays Alarm.aluid (heard sev chan) alarms ↔
      ∀ old ∈ alarms, old.aluid = aluid → heard sev chan old = true → KeepsHeard sev chan alsev alchan := by
  unfold updateAlarm
  cases hf : findAlarmByAluid alarms aluid with
  | none =>
    have hno : ∀ old ∈ alarms, old.aluid ≠ aluid := Keyed.get_eq_none.mp hf
    refine iff_of_true ?_ (fun old hold hk => absurd hk (hno old hold))
    dsimp only
    split
    · trivial
    · cases altext with
      | none => trivial
      | some text => exact fun old hold hk => absurd hk (hno old hold)
  | some a =>
    obtain ⟨ha, hka⟩ := Keyed.mem_of_get hf
    dsimp only
    split
    · rename_i h0
      exact iff_of_true trivial (fun _ _ _ _ => Or.inl h0)
    · rename_i h0
      have huid : (a.update altext alsev alchan).aluid = aluid := hka
      constructor
      · intro h old hold hk hh
        have he := hd.eq_of_key hold ha (hk.trans hka.symm)
        subst he
        exact (heard_update_iff hh altext h0 alchan).mp (h old hold (hk.trans huid.symm) hh)
      · intro h old hold hk hh
        have he := hd.eq_of_key hold ha (hk.trans (huid.trans hka.symm))
        subst he
        exact (heard_update_iff hh altext h0 alchan).mpr (h old hold hka hh)

theorem Listening.mark {c : ClientId} {sev chan : BitVec 32} {st : Server × Collector} (h : Listening c sev chan st)
    (c' : ClientId) (env : Env) : Listening c sev chan (st.1.mark c' env, st.2) := by
  have hcl : ∀ {β : Type} (g : Client → β), (∀ cl now, g { cl with lastupd := now } = g cl) →
      g ((st.1.mark c' env).client c) = g (st.1.client c) := by
    intro β g hg
    rw [Server.mark, Server.modClient_client]
    split
    · rename_i he
      rw [hg, he]
    · rfl
  exact ⟨h.nodup, h.connected, (hcl Client.alarmwatch fun _ _ => rfl).trans h.watch,
    (hcl Client.alchan fun _ _ => rfl).trans h.channel, h.distinct, h.own, h.plain⟩

/-- What a `setalarm` line does to both tables. -/
theorem watchAlarms_step {c : ClientId} {sev chan : BitVec 32} (hsev : 1 ≤ sev.toInt) {st st' : Server × Collector}
    (h : Listening c sev chan st) {e : Event} (he : PlainSetalarm F e) (hs : watchAlarms F c st e = some st') :
    Listening c sev chan st' ∧
      ((st'.1.alarms = st.1.alarms ∧ st'.2.mem.alarms = st.2.mem.alarms ∧ StaysHeard F sev chan st e) ∨
        ∃ change : Change Alarm Str, st'.1.alarms = change.apply Alarm.aluid st.1.alarms ∧
          st'.2.mem.alarms = applyTold Alarm.aluid (change.tell (heard sev chan)) st.2.mem.alarms ∧
          (change.Stays Alarm.aluid (heard sev chan) st.1.alarms ↔ StaysHeard F sev chan st e)) := by
  obtain ⟨c', text, env, args, rfl, hl, hpu, hpt⟩ := he
  obtain ⟨r, hr, hs⟩ := Option.bind_eq_some_iff.mp hs
  obtain ⟨k, hk, rfl⟩ := Option.map_eq_some_iff.mp hs
  have hrun := (react_line F hl hr).2
  have hrun : cmdSetalarm args c' (st.1.mark c' env) = r := Except.ok.inj hrun
  have hm := h.mark c' env
  cases hu : (lastArg .aluid args : Option Str) with
  | none =>
    have hr' : r = { srv := st.1.mark c' env } := by
      rw [← hrun]
      simp only [cmdSetalarm, hu]
    subst hr'
    have hk' : k = st.2 := by
      have : some st.2 = some k := hk
      exact (Option.some.inj this).symm
    subst hk'
    refine ⟨hm, Or.inl ⟨rfl, rfl, fun args' aluid hset => ?_⟩⟩
    obtain ⟨c₁, text₁, env₁, he₁, hl₁⟩ := hset.line
    cases he₁
    rw [hl] at hl₁
    cases hl₁
    exact absurd (hu.symm.trans hset.uid) (by simp)
  | some aluid =>
    have hset : SetsAlarm F (.line c' text env) args aluid := ⟨⟨c', text, env, rfl, hl⟩, hu⟩
    have hlines := linesTo_cmdSetalarm hm hsev hu c'
    have halarms : r.srv.alarms = alarmsAfter args aluid st.1.alarms := by
      rw [← hrun]
      exact alarms_cmdSetalarm hu c' _
    have hmade : ∀ a, (updateAlarm aluid (lastArg .altext args) (sevArg args) (chanArg args) st.1.alarms).2 = some a →
        a.Plain := fun a ha => plain_updateAlarm (hpu aluid hu) hpt h.plain ha
    have hheard := @hearAlarms_change F sev chan hsev aluid (hpu aluid hu) _ hmade st.2
    rw [← hrun, hlines] at hk
    have hk' : k = st.2.setAlarms (applyTold Alarm.aluid
        ((alarmChange aluid (updateAlarm aluid (lastArg .altext args) (sevArg args) (chanArg args) st.1.alarms).2).tell
          (heard sev chan)) st.2.mem.alarms) := by
      have hk : (hearAlarms F _ st.2).toOption = some k := hk
      have : some _ = some k := (congrArg Except.toOption hheard).symm.trans hk
      exact (Option.some.inj this).symm
    rw [alarmsAfter, updateAlarm_eq] at halarms
    have hclients : r.srv.clients = st.1.clients ∧ r.srv.client = (st.1.mark c' env).client := by
      rw [← hrun]
      simp only [cmdSetalarm, hu]
      exact ⟨rfl, trivial⟩
    refine ⟨⟨?_, ?_, ?_, ?_, ?_, ?_, ?_⟩, Or.inr ⟨_, halarms, ?_, ?_⟩⟩
    · exact hclients.1 ▸ h.nodup
    · exact hclients.1 ▸ h.connected
    · exact hclients.2 ▸ hm.watch
    · exact hclients.2 ▸ hm.channel
    · rw [halarms]
      exact h.distinct.apply _
    · rw [hk']
      exact h.own.applyTold _
    · intro a ha
      rw [halarms, h.distinct.mem_apply] at ha
      cases hc : (updateAlarm aluid (lastArg .altext args) (sevArg args) (chanArg args) st.1.alarms).2 with
      | none =>
        rw [hc] at ha
        exact h.plain a ha.1
      | some b =>
        rw [hc] at ha
        rcases ha with rfl | ⟨ha, -⟩
        · exact hmade a hc
        · exact h.plain a ha
    · rw [hk']
      rfl
    · rw [stays_alarmChange_iff h.distinct]
      constructor
      · intro hst args' aluid' hset'
        obtain ⟨rfl, rfl⟩ := hset.unique F hset'
        exact hst
      · exact fun hst => hst args aluid hset

/-! ## Listening and dumping -/

/-- A line by which a client starts to listen to a severity and to channels. -/
def Listens (c : ClientId) (sev chan : BitVec 32) (e : Event) : Prop :=
  ∃ text env args, e = .line c text env ∧ lineCmd F text = some (.listenalarms, args) ∧
    (lastArg .alsev args : Option (BitVec 32)).getD 0 = sev ∧
      (lastArg .alchan args : Option (BitVec 32)).getD (BitVec.allOnes 32) = chan

/-- A line by which a client asks for all alarms of a severity and of channels. -/
def Dumps (c : ClientId) (sev chan : BitVec 32) (e : Event) : Prop :=
  ∃ text env args, e = .line c text env ∧ lineCmd F text = some (.dumpalarms, args) ∧
    (lastArg .alsev args : Option (BitVec 32)).getD 1 = sev ∧
      (lastArg .alchan args : Option (BitVec 32)).getD (BitVec.allOnes 32) = chan ∧ lastArg .aluid args = none

/-- The client holds exactly the alarms of interest to it. -/
def Replicated (sev chan : BitVec 32) (st : Server × Collector) : Prop :=
  Mirrors (heard sev chan) st.1.alarms st.2.mem.alarms

/-- A client that starts to listen, with an empty table. -/
theorem Listens.step {c : ClientId} {sev chan : BitVec 32} {e : Event} (he : Listens F c sev chan e) {s : Server}
    {k : Collector} {st : Server × Collector} (hs : watchAlarms F c (s, k) e = some st) (hn : s.clients.Nodup)
    (hd : Distinct Alarm.aluid s.alarms) (hp : ∀ a ∈ s.alarms, a.Plain) (hk : k.mem.alarms = []) :
    Listening c sev chan st ∧ st.2 = k := by
  obtain ⟨text, env, args, rfl, hl, rfl, rfl⟩ := he
  obtain ⟨r, hr, hs⟩ := Option.bind_eq_some_iff.mp hs
  obtain ⟨k', hk', rfl⟩ := Option.map_eq_some_iff.mp hs
  obtain ⟨hc, hrun⟩ := react_line F hl hr
  cases hrun
  have hsame : some k = some k' := hk'
  cases hsame
  refine ⟨⟨hn, hc, ?_, ?_, hd, ?_, hp⟩, rfl⟩
  · simp [cmdListenAlarms, Server.modClient_client]
  · simp [cmdListenAlarms, Server.modClient_client]
  · change Distinct Alarm.aluid k.mem.alarms
    rw [hk]
    exact List.nodup_nil

/-- Alarms that are dumped are set, one after the other. -/
theorem hearAlarms_dump {sev chan : BitVec 32} (hsev : 1 ≤ sev.toInt) {as : List Alarm}
    (h : ∀ a ∈ as, a.Plain ∧ heard sev chan a = true) (k : Collector) :
    hearAlarms F (as.map fun a => gnSetalarm a.aluid a.altext a.alsev a.alchan) k =
      .ok (k.setAlarms (setAll Alarm.aluid as k.mem.alarms)) := by
  induction as generalizing k with
  | nil => rfl
  | cons a as ih =>
    obtain ⟨hp, hh⟩ := h a List.mem_cons_self
    have ha := hh
    simp only [heard, Bool.and_eq_true, decide_eq_true_eq, bne_iff_ne] at ha
    have hchan : a.alchan ≠ 0 := by
      intro h0
      rw [h0] at ha
      exact ha.2 BitVec.and_zero
    rw [List.map_cons, hearAlarms_set F hp (by omega) hchan, ih (fun b hb => h b (List.mem_cons_of_mem _ hb))]
    rfl

/-- A dump completes the table of a client that listens. -/
theorem Dumps.step {c : ClientId} {sev chan : BitVec 32} (hsev : 1 ≤ sev.toInt) {e : Event} (he : Dumps F c sev chan e)
    {st st' : Server × Collector} (h : Listening c sev chan st)
    (hw : Within (heard sev chan) st.1.alarms st.2.mem.alarms) (hs : watchAlarms F c st e = some st') :
    Listening c sev chan st' ∧ Replicated sev chan st' := by
  obtain ⟨text, env, args, rfl, hl, rfl, rfl, hno⟩ := he
  obtain ⟨r, hr, hs⟩ := Option.bind_eq_some_iff.mp hs
  obtain ⟨k, hk, rfl⟩ := Option.map_eq_some_iff.mp hs
  have hrun := (react_line F hl hr).2
  have hrun : cmdDumpAlarms args c (st.1.mark c env) = r := Except.ok.inj hrun
  have hm := h.mark c env
  generalize hsv : (lastArg .alsev args : Option (BitVec 32)).getD 1 = sev at *
  generalize hch : (lastArg .alchan args : Option (BitVec 32)).getD (BitVec.allOnes 32) = chan at *
  have hout : linesTo c r.out = (st.1.alarms.filter (heard sev chan)).map fun a =>
      gnSetalarm a.aluid a.altext a.alsev a.alchan := by
    rw [← hrun]
    simp only [cmdDumpAlarms, hno, hsv, hch, Bool.and_true]
    change linesTo c ((st.1.alarms.filter (heard sev chan)).map _) = _
    simp [linesTo, List.filterMap_map]
  have hdump := @hearAlarms_dump F sev chan hsev (st.1.alarms.filter (heard sev chan))
    (fun a ha => ⟨h.plain a (List.mem_filter.mp ha).1, (List.mem_filter.mp ha).2⟩) st.2
  rw [hout, hdump] at hk
  have hk : some (st.2.setAlarms (setAll Alarm.aluid (st.1.alarms.filter (heard sev chan)) st.2.mem.alarms)) = some k := hk
  cases hk
  have hsrv : r.srv = st.1.mark c env := by
    rw [← hrun]
    rfl
  have hown : Distinct Alarm.aluid (setAll Alarm.aluid (st.1.alarms.filter (heard sev chan)) st.2.mem.alarms) :=
    h.own.setAll _
  rw [hsrv]
  exact ⟨⟨hm.nodup, hm.connected, hm.watch, hm.channel, hm.distinct, hown, hm.plain⟩, mirrors_setAll h.distinct h.own hw⟩

/-- The table of a client that listens stays within the alarms of interest while alarms are set under the condition. -/
theorem within_run {c : ClientId} {sev chan : BitVec 32} (hsev : 1 ≤ sev.toInt) {es : List Event}
    (hes : ∀ e ∈ es, PlainSetalarm F e) {st st' : Server × Collector} (h : Listening c sev chan st)
    (hw : Within (heard sev chan) st.1.alarms st.2.mem.alarms) (hok : Along (watchAlarms F c) (StaysHeard F sev chan) st es)
    (hr : exec (watchAlarms F c) st es = some st') :
    Listening c sev chan st' ∧ Within (heard sev chan) st'.1.alarms st'.2.mem.alarms := by
  induction es generalizing st with
  | nil =>
    cases hr
    exact ⟨h, hw⟩
  | cons e es ih =>
    obtain ⟨st₁, h1, h2⟩ := exec_cons_eq_some.mp hr
    obtain ⟨hst, hrest⟩ := hok st₁ h1
    obtain ⟨hl, hcase⟩ := watchAlarms_step F hsev h (hes e List.mem_cons_self) h1
    refine ih (fun e' he' => hes e' (List.mem_cons_of_mem _ he')) hl ?_ hrest h2
    obtain ⟨ha, hk, -⟩ | ⟨change, ha, hk, hiff⟩ := hcase
    · rw [ha, hk]
      exact hw
    · rw [ha, hk]
      exact within_apply h.distinct h.own hw (hiff.mpr hst)

/-- One `setalarm` keeps the table of a client that listens up to date exactly under the condition. -/
theorem replicated_step_iff {c : ClientId} {sev chan : BitVec 32} (hsev : 1 ≤ sev.toInt) {st st' : Server × Collector}
    (h : Listening c sev chan st) (hrep : Replicated sev chan st) {e : Event} (he : PlainSetalarm F e)
    (hs : watchAlarms F c st e = some st') : Replicated sev chan st' ↔ StaysHeard F sev chan st e := by
  obtain ⟨-, ⟨ha, hk, hst⟩ | ⟨change, ha, hk, hiff⟩⟩ := watchAlarms_step F hsev h he hs
  · refine iff_of_true ?_ hst
    unfold Replicated
    rw [ha, hk]
    exact hrep
  · unfold Replicated
    rw [ha, hk, mirrors_apply_iff h.distinct h.own hrep, hiff]

/-- In every run in which a client starts to listen and then dumps, its table holds exactly the alarms of interest after every
further `setalarm` exactly when each `setalarm` for an alarm of interest keeps it one, or removes it. -/
theorem alarmsReplicated_iff {cfg : Config} {s₀ s : Server} {es₀ : List Event} (h : startup F cfg = .ok s₀)
    (hr : exec (step F) s₀ es₀ = some s) (hp : ∀ a ∈ s.alarms, a.Plain) {k : Collector} (hk : k.mem.alarms = [])
    {c : ClientId} {sev chan : BitVec 32} (hsev : 1 ≤ sev.toInt) {listen dump : Event} (hl : Listens F c sev chan listen)
    (hd : Dumps F c sev chan dump) {es₁ es₂ : List Event} (h₁ : ∀ e ∈ es₁, PlainSetalarm F e)
    (h₂ : ∀ e ∈ es₂, PlainSetalarm F e) {st : Server × Collector}
    (hrun : exec (watchAlarms F c) (s, k) (listen :: (es₁ ++ [dump])) = some st)
    (hok : Along (watchAlarms F c) (StaysHeard F sev chan) (s, k) (listen :: (es₁ ++ [dump]))) :
    Throughout (watchAlarms F c) (Replicated sev chan) st es₂ ↔ Along (watchAlarms F c) (StaysHeard F sev chan) st es₂ := by
  have hdist : Distinct Alarm.aluid s.alarms := by
    refine exec_induct (I := fun s => Distinct Alarm.aluid s.alarms) (fun _ _ _ hI hs => distinct_step F hI hs) ?_ hr
    rw [startup_noAlarms F h]
    exact List.nodup_nil
  obtain ⟨st₁, hr₁, hrun⟩ := exec_cons_eq_some.mp hrun
  obtain ⟨st₂, hr₂, hrun⟩ := exec_append_eq_some.mp hrun
  obtain ⟨st₃, hr₃, hrun⟩ := exec_cons_eq_some.mp hrun
  cases hrun
  obtain ⟨hlis, hk₁⟩ := hl.step F hr₁ (clients_nodup_reachable F h hr) hdist hp hk
  have hw : Within (heard sev chan) st₁.1.alarms st₁.2.mem.alarms := by
    rw [hk₁, hk]
    intro a ha
    cases ha
  obtain ⟨hlis₂, hw₂⟩ := within_run F hsev h₁ hlis hw (along_append (hok st₁ hr₁).2 hr₂).1 hr₂
  obtain ⟨hlis₃, hrep⟩ := hd.step F hsev hlis₂ hw₂ hr₃
  exact throughout_iff_along_of (fun _ _ _ he hI hs => (watchAlarms_step F hsev hI he hs).1)
    (fun _ _ _ he hI hP hs => replicated_step_iff F hsev hI hP he hs) hlis₃ hrep h₂

/-- A client that connects, listens to severity 3 and dumps, and then sets an alarm itself. -/
theorem alarmsReplicated_iff_fire : ∃ st,
    exec (watchAlarms Doubles.exact 0) (acceptCb 0 (inetNtoa 10 0 0 1) {}, {})
      [.line 0 (str "listenalarms alsev:3") {}, .line 0 (str "dumpalarms alsev:3") {}] = some st ∧
    (Throughout (watchAlarms Doubles.exact 0) (Replicated 3 (BitVec.allOnes 32)) st
        [.line 0 (str "setalarm aluid:fire altext:Fire alsev:5") {}] ↔
      Along (watchAlarms Doubles.exact 0) (StaysHeard Doubles.exact 3 (BitVec.allOnes 32)) st
        [.line 0 (str "setalarm aluid:fire altext:Fire alsev:5") {}]) := by
  refine ⟨_, rfl, ?_⟩
  refine @alarmsReplicated_iff Doubles.exact {} {} (acceptCb 0 (inetNtoa 10 0 0 1) {}) [.accept 0 10 0 0 1] rfl rfl
    (fun a ha => by cases ha) {} rfl 0 3 (BitVec.allOnes 32) (by decide) (.line 0 (str "listenalarms alsev:3") {})
    (.line 0 (str "dumpalarms alsev:3") {}) ⟨_, _, _, rfl, rfl, rfl, rfl⟩ ⟨_, _, _, rfl, rfl, rfl, rfl, rfl⟩ [] _
    (fun e he => by cases he) ?_ _ rfl ?_
  · intro e he
    rw [List.mem_singleton.mp he]
    refine ⟨0, _, {}, _, rfl, rfl, fun u hu => ?_, fun t ht => ?_⟩
    · have : some (str "fire") = some u := hu
      rw [← Option.some.inj this]
      exact ⟨by decide, by decide, by decide⟩
    · have : some (str "Fire") = some t := ht
      rw [← Option.some.inj this]
      exact ⟨by decide, by decide, by decide⟩
  · intro st₁ h₁
    constructor
    · intro args aluid hset old hold
      cases hold
    intro st₂ h₂
    refine ⟨?_, trivial⟩
    intro args aluid hset
    obtain ⟨c, text, env, he, hl⟩ := hset.line
    cases he
    have : some (Cmd.dumpalarms, _) = some (Cmd.setalarm, args) := hl
    cases this

/-- An alarm of severity 5 that is set down to 1: the client is not told, and keeps it. -/
theorem not_alarmsReplicated_down : ∃ st,
    exec (watchAlarms Doubles.exact 0) (acceptCb 0 (inetNtoa 10 0 0 1) {}, {})
      [.line 0 (str "listenalarms alsev:3") {}, .line 0 (str "dumpalarms alsev:3") {}] = some st ∧
    ¬ Throughout (watchAlarms Doubles.exact 0) (Replicated 3 (BitVec.allOnes 32)) st
        [.line 0 (str "setalarm aluid:fire altext:Fire alsev:5") {}, .line 0 (str "setalarm aluid:fire alsev:1") {}] := by
  have hex : (exec (watchAlarms Doubles.exact 0) (acceptCb 0 (inetNtoa 10 0 0 1) {}, {})
      ([.line 0 (str "listenalarms alsev:3") {}, .line 0 (str "dumpalarms alsev:3") {}] ++
        [.line 0 (str "setalarm aluid:fire altext:Fire alsev:5") {}, .line 0 (str "setalarm aluid:fire alsev:1") {}])).map
      (fun st => (st.1.alarms, st.2.mem.alarms)) =
        some ([⟨str "fire", str "Fire", 1, 1⟩], [⟨str "fire", str "Fire", 5, 1⟩]) := by decide +kernel
  obtain ⟨st, hs, he⟩ := Option.map_eq_some_iff.mp hex
  obtain ⟨st₀, h₀, h₁⟩ := exec_append_eq_some.mp hs
  refine ⟨st₀, h₀, fun h => ?_⟩
  have hrep : Replicated 3 (BitVec.allOnes 32) st := h.last h₁
  simp only [Prod.mk.injEq] at he
  rw [Replicated, he.1, he.2] at hrep
  exact absurd hrep.length_eq (by decide)

end Gnhast
