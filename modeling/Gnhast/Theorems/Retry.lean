import Gnhast.Lemmas.Insteon

/-!
# How often a command is sent

The count of an entry goes up when it is sent and when a negative acknowledgement has it sent again, and an entry is sent only while
the count is not above the limit. The count has eight bits: below its wrap, it is an upper bound of how often the entry was sent, and
an entry that was sent twice is not sent a third time.
-/

namespace Gnhast.Insteon

open CStr Runs

/-- How often an entry was given to the PLM. -/
def sends (q : Plm) (n : Nat) : Nat := (q.sent.map Prod.fst).count n

/-- No negative acknowledgement is taken for a command whose count is at the greatest value of its eight bits. -/
def CountFits (q : Plm) : PlmEvent → Prop
  | .checkAck _ junk data =>
    ∀ cmd ∈ q.cmdfifo.head?, (getElem cmd.cmd 0 cmdAt0) ≠ cmdqNopwait → ackTaken data cmd = true → ackbitOf junk data cmd ≠ plmcmdAck →
      cmd.sendcount ≠ 255
  | _ => True

instance (q : Plm) : DecidablePred (CountFits q)
  | .checkAck .. => inferInstanceAs (Decidable (∀ cmd ∈ q.cmdfifo.head?, _))
  | .enqStd .. | .enqExt .. | .enqStdcs .. | .enqWait .. | .getinfo | .getconf | .setconf .. | .getplmAldb .. | .allLink ..
  | .runq .. | .checkRecv .. | .gotData .. | .dequeue | .flush | .properDelay .. | .hub .. | .setAddr .. => .isTrue trivial

/-! ## One entry -/

/-- An entry that was sent so many times. -/
structure Spent (cmd : CmdQ) (k : Nat) : Prop where
  twice : k ≤ cmdqMaxSend.toNat
  counted : k ≤ cmd.sendcount.toNat
  exhausted : k = cmdqMaxSend.toNat → cmd.sendcount ≤ cmdqMaxSend → cmd.flag cmdqWaitsend = false
  wait : cmd.cmd[0] = cmdqNopwait → k = 0

theorem toNat_cmdqMaxSend : cmdqMaxSend.toNat = 2 := rfl

theorem spent_zero (cmd : CmdQ) : Spent cmd 0 := ⟨Nat.zero_le _, Nat.zero_le _, fun h => (nomatch h), fun _ => rfl⟩

/-- Below its greatest value, eight bits count on. -/
theorem toNat_succ {c : Octet} (h : c.toNat < 255) : (c + 1).toNat = c.toNat + 1 := by
  have h1 : (1 : Octet).toNat = 1 := rfl
  rw [BitVec.toNat_add, h1]
  omega

/-- A flag that was cleared is not set. -/
theorem flag_cleared (state f : Octet) : state &&& ~~~f &&& f = 0#8 := by
  rw [BitVec.and_assoc, BitVec.and_comm (~~~f) f, BitVec.and_not_self]
  exact BitVec.and_zero

/-- Clearing flags sets none. -/
theorem flag_of_flag_and {state g f : Octet} (h : (state &&& g) &&& f ≠ 0#8) : state &&& f ≠ 0#8 := by
  intro h0
  refine h ?_
  rw [BitVec.and_assoc, BitVec.and_comm g f, ← BitVec.and_assoc, h0, BitVec.zero_and]

namespace Spent

variable {cmd : CmdQ} {k : Nat}

theorem cleared (h : Spent cmd k) (now : Int) (whatkind : Octet) : Spent (cmd.cleared now whatkind) k := by
  refine ⟨h.twice, h.counted, fun hk hc => ?_, h.wait⟩
  have hf := h.exhausted hk hc
  simp only [CmdQ.flag, CmdQ.cleared, bne_eq_false_iff_eq] at hf ⊢
  by_contra hn
  exact flag_of_flag_and hn hf

/-- A command that is counted once more, short of the wrap. -/
theorem retried (h : Spent cmd k) (hc : (getElem cmd.cmd 0 cmdAt0) ≠ cmdqNopwait → cmd.sendcount ≠ 255) : Spent cmd.retried k := by
  by_cases hw : cmd.cmd[0] = cmdqNopwait
  · rw [h.wait hw]
    exact spent_zero _
  · have hlt : cmd.sendcount.toNat < 255 := by
      have hne : cmd.sendcount.toNat ≠ 255 := fun he => hc hw (BitVec.eq_of_toNat_eq he)
      have := cmd.sendcount.isLt
      omega
    have hsucc := toNat_succ hlt
    have hcount := h.counted
    refine ⟨h.twice, ?_, fun hk hle => ?_, h.wait⟩
    · simp only [CmdQ.retried, hsucc]
      omega
    · have hle : (cmd.sendcount + 1).toNat ≤ 2 := hle
      rw [hsucc] at hle
      rw [toNat_cmdqMaxSend] at hk
      omega

/-- An entry is sent only when it was not sent twice before. -/
theorem fired (h : Spent cmd k) (hw : (getElem cmd.cmd 0 cmdAt0) ≠ cmdqNopwait) (hc : cmd.sendcount ≤ cmdqMaxSend) (hs : cmd.sendable = true)
    (now : Int) : Spent (cmd.fired now) (k + 1) := by
  have hk : k ≠ 2 := by
    intro hk
    have hf := h.exhausted hk hc
    rw [CmdQ.sendable, hf] at hs
    cases hs
  have h2 := h.twice
  have hle : cmd.sendcount.toNat ≤ 2 := hc
  have hcount := h.counted
  have hsucc := toNat_succ (c := cmd.sendcount) (by omega)
  rw [toNat_cmdqMaxSend] at h2
  refine ⟨?_, ?_, fun _ _ => ?_, fun hn => absurd hn hw⟩
  · rw [toNat_cmdqMaxSend]
    omega
  · simp only [CmdQ.fired, hsucc]
    omega
  · simp only [CmdQ.flag, CmdQ.fired, flag_cleared]
    rfl

/-- An entry below the limit may be armed again. -/
theorem armed (h : Spent cmd k) (hc : cmd.sendcount < cmdqMaxSend) (state : Octet) : Spent { cmd with state := state } k := by
  have hlt : cmd.sendcount.toNat < 2 := hc
  have hcount := h.counted
  refine ⟨h.twice, hcount, fun hk _ => ?_, h.wait⟩
  rw [toNat_cmdqMaxSend] at hk
  omega

end Spent

/-! ## The queue -/

/-- The entries of a queue have names of their own, and each was sent as often as its count allows. -/
structure Ledger (q : Plm) : Prop where
  nodup : (q.cmdfifo.map CmdQ.id).Nodup
  below : ∀ cmd ∈ q.cmdfifo, cmd.id < q.nextCmd
  sent_below : ∀ p ∈ q.sent, p.1 < q.nextCmd
  spent : ∀ cmd ∈ q.cmdfifo, Spent cmd (sends q cmd.id)
  bound : ∀ n, sends q n ≤ cmdqMaxSend.toNat

namespace Ledger

variable {q q' : Plm}

/-- Entries may leave. -/
theorem sublist (h : Ledger q) (hf : q'.cmdfifo.Sublist q.cmdfifo) (hn : q'.nextCmd = q.nextCmd) (hs : q'.sent = q.sent) :
    Ledger q' := by
  have hsends : sends q' = sends q := by
    unfold sends
    rw [hs]
  refine ⟨h.nodup.sublist (hf.map _), fun c hc => hn ▸ h.below c (hf.subset hc), ?_, fun c hc => hsends ▸ h.spent c (hf.subset hc), ?_⟩
  · rw [hs, hn]
    exact h.sent_below
  · rw [hsends]
    exact h.bound

/-- The head may change what it waits for. -/
theorem head {cmd cmd' : CmdQ} {rest : List CmdQ} (h : Ledger q) (hq : q.cmdfifo = cmd :: rest) (hid : cmd'.id = cmd.id)
    (hspent : Spent cmd (sends q cmd.id) → Spent cmd' (sends q cmd.id)) : Ledger { q with cmdfifo := cmd' :: rest } := by
  have hnodup := h.nodup
  have hbelow := h.below
  have hall := h.spent
  rw [hq] at hnodup hbelow hall
  rw [List.forall_mem_cons] at hbelow hall
  refine ⟨?_, ?_, h.sent_below, ?_, h.bound⟩
  · rwa [List.map_cons, hid, ← List.map_cons]
  · exact List.forall_mem_cons.mpr ⟨hid ▸ hbelow.1, hbelow.2⟩
  · refine List.forall_mem_cons.mpr ⟨?_, hall.2⟩
    rw [hid]
    exact hspent hall.1

theorem modHead (h : Ledger q) {f : CmdQ → CmdQ} (hid : ∀ cmd, (f cmd).id = cmd.id)
    (hspent : ∀ cmd ∈ q.cmdfifo.head?, ∀ k, Spent cmd k → Spent (f cmd) k) : Ledger (q.modHead f) := by
  unfold Plm.modHead
  split
  · exact h
  · rename_i cmd rest hq
    exact h.head hq (hid cmd) (hspent cmd (by rw [hq]; rfl) _)

theorem not_sent (h : Ledger q) : sends q q.nextCmd = 0 := by
  refine List.count_eq_zero.mpr fun hm => ?_
  obtain ⟨p, hp, he⟩ := List.mem_map.mp hm
  have := h.sent_below p hp
  omega

/-- A new entry was never sent. -/
theorem insert (h : Ledger q) {cmd : CmdQ} (hid : cmd.id = q.nextCmd) {l : List CmdQ} (hl : l.Perm (cmd :: q.cmdfifo)) :
    Ledger { q with cmdfifo := l, nextCmd := q.nextCmd + 1 } := by
  have hmem : ∀ c ∈ l, c = cmd ∨ c ∈ q.cmdfifo := fun c hc => List.mem_cons.mp (hl.subset hc)
  refine ⟨?_, fun c hc => ?_, fun p hp => Nat.lt_succ_of_lt (h.sent_below p hp), fun c hc => ?_, h.bound⟩
  · refine (hl.map CmdQ.id).nodup_iff.mpr (List.nodup_cons.mpr ⟨fun hm => ?_, h.nodup⟩)
    obtain ⟨c, hc, he⟩ := List.mem_map.mp hm
    have := h.below c hc
    omega
  · rcases hmem c hc with rfl | hc
    · rw [hid]
      exact Nat.lt_succ_self _
    · exact Nat.lt_succ_of_lt (h.below c hc)
  · change Spent c (sends q c.id)
    rcases hmem c hc with rfl | hc
    · rw [hid, h.not_sent]
      exact spent_zero c
    · exact h.spent c hc

/-- The head is sent. -/
theorem sendHead {cmd : CmdQ} {rest : List CmdQ} (h : Ledger q) (hq : q.cmdfifo = cmd :: rest) (now : Int)
    (hspent : Spent cmd (sends q cmd.id) → Spent (cmd.fired now) (sends q cmd.id + 1)) : Ledger (q.sendHead now cmd rest) := by
  have hnodup := h.nodup
  have hbelow := h.below
  have hall := h.spent
  rw [hq] at hnodup hbelow hall
  rw [List.forall_mem_cons] at hbelow hall
  have hsends : ∀ n, sends (q.sendHead now cmd rest) n = sends q n + if cmd.id = n then 1 else 0 := by
    intro n
    simp [sends, Plm.sendHead, List.count_append, List.count_singleton]
  have hfired := hspent hall.1
  refine ⟨hnodup, List.forall_mem_cons.mpr ⟨hbelow.1, hbelow.2⟩, fun p hp => ?_, ?_, fun n => ?_⟩
  · rcases List.mem_append.mp hp with hp | hp
    · exact h.sent_below p hp
    · rw [List.mem_singleton.mp hp]
      exact hbelow.1
  · refine List.forall_mem_cons.mpr ⟨?_, fun c hc => ?_⟩
    · change Spent (cmd.fired now) (sends (q.sendHead now cmd rest) cmd.id)
      rw [hsends, if_pos rfl]
      exact hfired
    · have hne : cmd.id ≠ c.id := by
        rw [List.map_cons, List.nodup_cons] at hnodup
        exact fun he => hnodup.1 (he ▸ List.mem_map_of_mem hc)
      rw [hsends, if_neg hne]
      exact hall.2 c hc
  · rw [hsends]
    split
    · rename_i he
      exact he ▸ hfired.twice
    · exact h.bound n

/-! ## The operations -/

/-- One call of `plm_runq`. -/
theorem runqEnds {now : Int} {l : List CmdQ} {e : Bool} (h : Ledger q) (hl : l.Sublist q.cmdfifo) (he : RunqEnds now q l q' e) :
    Ledger q' := by
  cases he with
  | empty hd => exact h.sublist (List.nil_sublist _) rfl rfl
  | @head dropped cmd rest _ hl' hd hs =>
    have hsub : (cmd :: rest).Sublist q.cmdfifo := ((List.sublist_append_right dropped _).trans (hl' ▸ List.Sublist.refl l)).trans hl
    have hkept : Ledger { q with cmdfifo := cmd :: rest } := h.sublist hsub rfl rfl
    cases hs with
    | woke hw hc => exact h.sublist ((List.sublist_cons_self cmd rest).trans hsub) rfl rfl
    | slept hw hc => exact hkept.head rfl rfl fun hk => by rw [hk.wait hw]; exact spent_zero _
    | fired hw hc hs => exact hkept.sendHead rfl now fun hk => hk.fired hw hc hs now
    | refired hw h0 hc hs hs' =>
      have harmed : Ledger { q with cmdfifo := { cmd with state := cmd.wait ||| cmdqWaitsend } :: rest } :=
        hkept.head rfl rfl fun hk => hk.armed hc _
      exact harmed.sendHead rfl now fun hk => hk.fired hw (BitVec.le_of_lt hc) hs' now
    | waits hw h0 hs ht => exact hkept

theorem plmRunq {now : Int} {e : Bool} (h : Ledger q) (hr : Insteon.plmRunq now q = some (q', e)) : Ledger q' := by
  obtain rfl | he := plmRunq_ends hr
  · exact h
  · exact h.runqEnds (plmCondenseRunq_sublist _) he

theorem checkAck {now : Int} {junk : Octet} {data : Frame} (h : Ledger q) (hc : CountFits q (.checkAck now junk data)) :
    Ledger (plmcmdqCheckAck now junk data q) := by
  refine h.modHead (fun cmd => ?_) fun cmd hcmd k hk => ?_
  · split
    · split <;> rfl
    · rfl
  · split
    · rename_i ht
      split
      · exact hk.cleared now _
      · rename_i hn
        exact hk.retried fun hw => hc cmd hcmd hw ht hn
    · exact hk

theorem extendDelay_entries {l : List CmdQ} {P : CmdQ → Prop}
    (hP : ∀ cmd, P cmd → (getElem cmd.cmd 0 cmdAt0) = cmdqNopwait → P { cmd with sendcount := 10 }) (h : ∀ cmd ∈ l, P cmd) :
    ∀ cmd ∈ extendDelay l, P cmd := by
  induction l with
  | nil => exact h
  | cons cmd rest ih =>
    rw [List.forall_mem_cons] at h
    unfold extendDelay
    split
    · rename_i hw
      exact List.forall_mem_cons.mpr ⟨hP cmd h.1 hw, h.2⟩
    · exact List.forall_mem_cons.mpr ⟨h.1, ih h.2⟩

theorem map_id_extendDelay (l : List CmdQ) : (extendDelay l).map CmdQ.id = l.map CmdQ.id := by
  induction l with
  | nil => rfl
  | cons cmd rest ih =>
    unfold extendDelay
    split
    · rfl
    · rw [List.map_cons, List.map_cons, ih]

theorem checkProperDelay (h : Ledger q) (devaddr : Vector Octet 3) : Ledger (plmCheckProperDelay devaddr q) := by
  unfold plmCheckProperDelay
  split
  · split
    · refine ⟨?_, ?_, h.sent_below, ?_, h.bound⟩
      · rw [map_id_extendDelay]
        exact h.nodup
      · exact extendDelay_entries (P := fun c => c.id < q.nextCmd) (fun _ hc _ => hc) h.below
      · refine extendDelay_entries (P := fun c => Spent c (sends q c.id)) (fun c hc hw => ?_) h.spent
        rw [hc.wait hw]
        exact spent_zero _
    · exact h.insert rfl (List.Perm.refl _)
  · exact h

end Ledger

/-- One operation, short of the wrap of a count. -/
theorem ledger_step {q q' : Plm} {e : PlmEvent} (h : Ledger q) (hc : CountFits q e) (hs : plmStep q e = some q') : Ledger q' := by
  cases e with
  | enqStd | enqExt | enqStdcs | enqWait | getinfo | getconf | setconf | getplmAldb | allLink =>
    obtain ⟨cmd, rfl, hid, -⟩ := plmStep_queues hs rfl
    exact h.insert hid (List.perm_append_singleton _ _)
  | runq now =>
    obtain ⟨⟨q'', e⟩, hr, rfl⟩ := Option.map_eq_some_iff.mp hs
    exact h.plmRunq hr
  | checkAck now junk data =>
    cases hs
    exact h.checkAck hc
  | checkRecv now fromaddr toaddr cmd1 whatkind =>
    cases hs
    refine Ledger.modHead (Ledger.modHead h (fun cmd => ?_) fun cmd _ k hk => ?_) (fun cmd => ?_) fun cmd _ k hk => ?_
    · split <;> rfl
    · split
      · exact hk.cleared now _
      · exact hk
    · split <;> rfl
    · split
      · exact hk.cleared now _
      · exact hk
  | gotData now whatkind =>
    cases hs
    exact h.modHead (fun _ => rfl) fun cmd _ k hk => hk.cleared now whatkind
  | dequeue =>
    cases hs
    exact h.sublist (List.tail_sublist _) rfl rfl
  | flush =>
    cases hs
    exact h.sublist (List.nil_sublist _) rfl rfl
  | properDelay devaddr =>
    cases hs
    exact h.checkProperDelay devaddr
  | hub | setAddr =>
    cases hs
    exact h.sublist (List.Sublist.refl _) rfl rfl

theorem ledger_plmStartup (plmtype : PlmType) : Ledger (plmStartup plmtype) :=
  ⟨List.nodup_nil, fun _ h => (nomatch h), fun _ h => (nomatch h), fun _ h => (nomatch h), fun _ => Nat.zero_le _⟩

/-- In every run in which no count wraps, no command is sent more often than the limit says. -/
theorem sends_le_max {plmtype : PlmType} {q : Plm} {es : List PlmEvent} (hok : Along plmStep CountFits (plmStartup plmtype) es)
    (h : exec plmStep (plmStartup plmtype) es = some q) (n : Nat) : sends q n ≤ cmdqMaxSend.toNat :=
  (along_induct (fun _ _ _ hI hc hst => ledger_step hI hc hst) (ledger_plmStartup plmtype) hok h).bound n

/-! ## A lamp that refuses -/

/-- The echo of a command that turns the lamp on, refused. -/
def lampRefused : Frame := frameOf [plmStart, plmSend, 0x1A, 0x2B, 0x3C, plmflagsetStd3hops, 0x11, 0xFF, plmcmdNak]

/-- The command is refused twice and then dropped. -/
theorem sends_le_max_lamp : ∃ q, exec plmStep (plmStartup .serial)
    [.enqStd lamp 0x11 0xFF cmdqWaitackdata, .runq 0, .checkAck 1 0 lampRefused, .runq 2, .checkAck 3 0 lampRefused, .runq 4] =
      some q ∧ sends q 0 ≤ cmdqMaxSend.toNat :=
  ⟨_, rfl, @sends_le_max .serial _
    [.enqStd lamp 0x11 0xFF cmdqWaitackdata, .runq 0, .checkAck 1 0 lampRefused, .runq 2, .checkAck 3 0 lampRefused, .runq 4]
    (by decide) rfl 0⟩

set_option maxRecDepth 10000 in
/-- When 255 refusals come in a row after the first transmission, the count wraps: the next one sends the command again, and so does
the timeout after it. -/
theorem sends_wrap : ∃ q, exec plmStep (plmStartup .serial)
    ([.enqStd lamp 0x11 0xFF cmdqWaitackdata, .runq 0] ++ List.replicate 255 (.checkAck 0 0 lampRefused) ++
      [.runq 1, .runq 10000000000]) = some q ∧ ¬ sends q 0 ≤ cmdqMaxSend.toNat :=
  ⟨_, rfl, by decide⟩

end Gnhast.Insteon
