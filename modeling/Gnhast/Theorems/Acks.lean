import Gnhast.Lemmas.Insteon

/-!
# What an acknowledgement is taken for

`plmcmdq_check_ack` reads the byte that would be the acknowledgement if the frame were as long as the command at the head of the
queue, and it compares the frame with the command only where the command goes to a device. The frames it is given are echoes of
commands to devices and answers to the start of linking.
-/

namespace Gnhast.Insteon

open Runs

/-! ## Frames and echoes -/

/-- The frames that `handle_command` gives to `plmcmdq_check_ack`. -/
def AckFrame (data : Frame) : Prop := data[0] = plmStart ∧ (data[1] = plmSend ∨ data[1] = plmAlinkStart)
deriving Decidable

/-- The last byte of such a frame. -/
def lastByte (data : Frame) : Octet :=
  if (getElem data 1 frameAt1) = plmAlinkStart then (getElem data 4 frameAt4) else if (getElem data 5 frameAt5) &&& plmflagExt = 0 then (getElem data 8 frameAt8) else (getElem data 22 frameAt22)

/-- A frame has the command byte of a command, and for a command to a device its address and its two command bytes. -/
def EchoOf (data : Frame) (cmd : CmdQ) : Prop :=
  (getElem data 1 frameAt1) = (getElem cmd.cmd 1 cmdAt1) ∧ ((getElem cmd.cmd 1 cmdAt1) = plmSend → (data.toList.drop 2).take 3 = (cmd.cmd.toList.drop 2).take 3 ∧
    (data.toList.drop 6).take 2 = (cmd.cmd.toList.drop 6).take 2)
deriving Decidable

/-- A command changes only for its echo, and stops waiting for the acknowledgement exactly when the echo acknowledges it. -/
structure Matched (data : Frame) (cmd cmd' : CmdQ) : Prop where
  changed : cmd'.state ≠ cmd.state ∨ cmd'.sendcount ≠ cmd.sendcount ∨ cmd'.tp ≠ cmd.tp → EchoOf data cmd
  acked : EchoOf data cmd → lastByte data = plmcmdAck → cmd'.flag cmdqWaitack = false
  refused : EchoOf data cmd → lastByte data ≠ plmcmdAck → cmd.flag cmdqWaitack = true → cmd'.flag cmdqWaitack = true

/-- A frame is matched with the head of the queue, at any time, and whatever the local `ackbit` holds at first. -/
def AckMatched (data : Frame) (q : Plm) : Prop :=
  (∀ now junk, ∀ cmd ∈ q.cmdfifo.head?, ∃ cmd', (plmcmdqCheckAck now junk data q).cmdfifo = cmd' :: q.cmdfifo.tail ∧
    Matched data cmd cmd') ∧
  ∀ now junk junk', plmcmdqCheckAck now junk data q = plmcmdqCheckAck now junk' data q

/-- The byte of an echo that is read for a command to a device. -/
def ackByteFor (cmd : CmdQ) (data : Frame) : Octet := if 20 < cmd.msglen then (getElem data 22 frameAt22) else (getElem data 8 frameAt8)

/-- The byte that is read for a command to a device says what the last byte says, unless the command does not wait. -/
def AckFits (data : Frame) (cmd : CmdQ) : Prop :=
  (lastByte data = plmcmdAck → ackByteFor cmd data ≠ plmcmdAck → cmd.wait &&& cmdqWaitack = 0) ∧
  (lastByte data ≠ plmcmdAck → ackByteFor cmd data = plmcmdAck → cmd.flag cmdqWaitack = false)
deriving Decidable

/-- At the head stands a command to a device, which the frame does not echo or fits, or the start of linking, which it answers. -/
def HeadFits (data : Frame) (q : Plm) : Prop :=
  ∀ cmd ∈ q.cmdfifo.head?, ((getElem cmd.cmd 1 cmdAt1) = plmSend ∧ (EchoOf data cmd → AckFits data cmd)) ∨
    ((getElem cmd.cmd 1 cmdAt1) = plmAlinkStart ∧ (getElem data 1 frameAt1) = plmAlinkStart)
deriving Decidable

/-! ## One entry -/

/-- What `plmcmdq_check_ack` makes of the head. -/
def CmdQ.answered (cmd : CmdQ) (now : Int) (junk : Octet) (data : Frame) : CmdQ :=
  if ackTaken data cmd then
    if ackbitOf junk data cmd = plmcmdAck then cmd.cleared now cmdqWaitack else cmd.retried
  else cmd

theorem plmcmdqCheckAck_eq (now : Int) (junk : Octet) (data : Frame) (q : Plm) :
    plmcmdqCheckAck now junk data q = q.modHead fun cmd => cmd.answered now junk data := rfl

theorem take_five_iff {α : Type} {l m : List α} (hl : 2 ≤ l.length) (hm : 2 ≤ m.length) :
    l.take 5 = m.take 5 ↔ l[0] = m[0] ∧ l[1] = m[1] ∧ (l.drop 2).take 3 = (m.drop 2).take 3 := by
  match l, m, hl, hm with
  | a :: b :: l, c :: d :: m, _, _ => simp

/-- The comparison with a command to a device finds exactly its echoes. -/
theorem ackTaken_iff {data : Frame} {cmd : CmdQ} (hb : Built cmd) (hd : AckFrame data) (h1 : (getElem cmd.cmd 1 cmdAt1) = plmSend) :
    ackTaken data cmd = true ↔ EchoOf data cmd := by
  have hlong := hb.long_of_send h1
  have hstart := hb.start_of_send h1
  have htake := take_five_iff (l := data.toList) (m := cmd.cmd.toList) (by simp) (by simp)
  simp only [Vector.getElem_toList] at htake
  simp only [ackTaken, hlong, h1, beq_self_eq_true, Bool.true_or, Bool.not_true, Bool.or_false, decide_false, Bool.false_or,
    Bool.and_eq_true, decide_eq_true_eq]
  rw [htake, hd.1, hstart, h1]
  unfold EchoOf
  rw [h1]
  constructor
  · rintro ⟨⟨-, h2, h3⟩, h4⟩
    exact ⟨h2, fun _ => ⟨h3, h4⟩⟩
  · rintro ⟨h2, h⟩
    obtain ⟨h3, h4⟩ := h rfl
    exact ⟨⟨rfl, h2, h3⟩, h4⟩

/-- Every frame is taken for a short command. -/
theorem ackTaken_of_short {data : Frame} {cmd : CmdQ} (hb : Built cmd) (h1 : (getElem cmd.cmd 1 cmdAt1) ≠ plmSend) : ackTaken data cmd = true := by
  unfold ackTaken
  rw [decide_eq_true (hb.short_of_not_send h1), Bool.true_or, Bool.true_or]

theorem sendcount_retried (cmd : CmdQ) : cmd.retried.sendcount ≠ cmd.sendcount := by
  have h : ∀ c : Octet, c + 1 ≠ c := by decide
  exact h cmd.sendcount

theorem flag_waitack_retried (cmd : CmdQ) : cmd.retried.flag cmdqWaitack = true ↔ cmd.wait &&& cmdqWaitack ≠ 0 := by
  unfold CmdQ.flag CmdQ.retried
  rw [bne_iff_ne, flag_or (s := cmdqWaitsend) (by decide)]

theorem flag_waitack_cleared (cmd : CmdQ) (now : Int) : (cmd.cleared now cmdqWaitack).flag cmdqWaitack = false := by
  have h : ∀ s : Octet, s &&& ~~~cmdqWaitack &&& cmdqWaitack = 0 := by decide
  exact bne_eq_false_iff_eq.mpr (h cmd.state)

/-- An entry that waits for an acknowledgement was made to. -/
theorem wait_of_flag {cmd : CmdQ} (hb : Built cmd) (h : cmd.flag cmdqWaitack = true) : cmd.wait &&& cmdqWaitack ≠ 0 := by
  rw [← flag_or (s := cmdqWaitsend) (by decide)]
  exact hb.covered h

/-- A command that took a frame has changed, at some time. -/
theorem answered_changed {data : Frame} {cmd : CmdQ} (ht : ackTaken data cmd = true) (junk : Octet) :
    ∃ now, (cmd.answered now junk data).sendcount ≠ cmd.sendcount ∨ (cmd.answered now junk data).tp ≠ cmd.tp := by
  refine ⟨cmd.tp + 1, ?_⟩
  unfold CmdQ.answered
  rw [if_pos ht]
  split
  · refine Or.inr ?_
    change cmd.tp + 1 ≠ cmd.tp
    omega
  · exact Or.inl (sendcount_retried cmd)

/-- A command that reads the acknowledgement and takes its echo. -/
theorem matched_answered_iff {data : Frame} {cmd : CmdQ} (hb : Built cmd) (he : EchoOf data cmd) (ht : ackTaken data cmd = true)
    (now : Int) (junk : Octet) : Matched data cmd (cmd.answered now junk data) ↔
      (lastByte data = plmcmdAck → ackbitOf junk data cmd ≠ plmcmdAck → cmd.wait &&& cmdqWaitack = 0) ∧
      (lastByte data ≠ plmcmdAck → ackbitOf junk data cmd = plmcmdAck → cmd.flag cmdqWaitack = false) := by
  unfold CmdQ.answered
  rw [if_pos ht]
  split
  · rename_i hack
    constructor
    · intro h
      refine ⟨fun _ hn => absurd hack hn, fun hn _ => ?_⟩
      have := h.refused he hn
      rw [flag_waitack_cleared] at this
      simpa using this
    · rintro ⟨-, h⟩
      exact ⟨fun _ => he, fun _ _ => flag_waitack_cleared cmd now, fun _ hn hf => absurd hf (by rw [h hn hack]; decide)⟩
  · rename_i hack
    have hflag := flag_waitack_retried cmd
    constructor
    · intro h
      refine ⟨fun hl _ => ?_, fun _ h' => absurd h' hack⟩
      have := h.acked he hl
      rw [← Bool.not_eq_true, hflag, not_not] at this
      exact this
    · rintro ⟨h, -⟩
      refine ⟨fun _ => he, fun _ hl => ?_, fun _ _ hf => hflag.mpr (wait_of_flag hb hf)⟩
      rw [← Bool.not_eq_true, hflag, not_not]
      exact h hl hack

/-! ## The head of the queue -/

theorem ackbitOf_send {cmd : CmdQ} (h1 : (getElem cmd.cmd 1 cmdAt1) = plmSend) (junk : Octet) (data : Frame) :
    ackbitOf junk data cmd = ackByteFor cmd data := by
  unfold ackbitOf
  rw [h1, if_neg (by decide), if_pos rfl]
  rfl

theorem ackbitOf_alinkStart {cmd : CmdQ} (h1 : (getElem cmd.cmd 1 cmdAt1) = plmAlinkStart) (junk : Octet) (data : Frame) :
    ackbitOf junk data cmd = (getElem data 4 frameAt4) := by
  unfold ackbitOf
  rw [if_pos h1]

/-- A command that the frame does not echo is matched when it is left alone. -/
theorem matched_refl_of_not_echo {data : Frame} {cmd : CmdQ} (he : ¬ EchoOf data cmd) : Matched data cmd cmd := by
  refine ⟨fun h => ?_, fun h => absurd h he, fun h => absurd h he⟩
  rcases h with h | h | h
  · exact absurd rfl h
  · exact absurd rfl h
  · exact absurd rfl h

/-- A command to a device. -/
theorem matched_send_iff {data : Frame} {cmd : CmdQ} (hb : Built cmd) (hd : AckFrame data) (h1 : (getElem cmd.cmd 1 cmdAt1) = plmSend) :
    (∀ now junk, Matched data cmd (cmd.answered now junk data)) ↔ (EchoOf data cmd → AckFits data cmd) := by
  by_cases he : EchoOf data cmd
  · have ht := (ackTaken_iff hb hd h1).mpr he
    have hiff := matched_answered_iff hb he ht
    simp only [ackbitOf_send h1] at hiff
    exact ⟨fun h _ => (hiff 0 0).mp (h 0 0), fun h now junk => (hiff now junk).mpr (h he)⟩
  · have ht : ackTaken data cmd = false := by
      rw [← Bool.not_eq_true, ackTaken_iff hb hd h1]
      exact he
    refine ⟨fun _ h => absurd h he, fun _ now junk => ?_⟩
    unfold CmdQ.answered
    rw [ht]
    exact matched_refl_of_not_echo he

/-- A command to the PLM itself is changed by every frame. -/
theorem matched_other_iff {data : Frame} {cmd : CmdQ} (hb : Built cmd) (hd : AckFrame data) (h1 : (getElem cmd.cmd 1 cmdAt1) ≠ plmSend) :
    (∀ now junk, Matched data cmd (cmd.answered now junk data)) ↔ (getElem cmd.cmd 1 cmdAt1) = plmAlinkStart ∧ (getElem data 1 frameAt1) = plmAlinkStart := by
  have ht : ackTaken data cmd = true := ackTaken_of_short hb h1
  constructor
  · intro h
    obtain ⟨now, hchanged⟩ := answered_changed ht 0
    have hecho := ((h now 0).changed (Or.inr hchanged)).1
    rcases hd.2 with hs | ha
    · exact absurd (hecho.symm.trans hs) h1
    · exact ⟨hecho.symm.trans ha, ha⟩
  · rintro ⟨hc, ha⟩ now junk
    have he : EchoOf data cmd := ⟨ha.trans hc.symm, fun h => absurd h h1⟩
    refine (matched_answered_iff hb he ht now junk).mpr ?_
    have hlast : lastByte data = ackbitOf junk data cmd := by
      rw [ackbitOf_alinkStart hc]
      unfold lastByte
      rw [if_pos ha]
    rw [hlast]
    exact ⟨fun h hn => absurd h hn, fun hn h => absurd h hn⟩

theorem matched_head_iff {data : Frame} {cmd : CmdQ} (hb : Built cmd) (hd : AckFrame data) :
    (∀ now junk, Matched data cmd (cmd.answered now junk data)) ↔
      ((getElem cmd.cmd 1 cmdAt1) = plmSend ∧ (EchoOf data cmd → AckFits data cmd)) ∨ ((getElem cmd.cmd 1 cmdAt1) = plmAlinkStart ∧ (getElem data 1 frameAt1) = plmAlinkStart) := by
  by_cases h1 : cmd.cmd[1] = plmSend
  · have hne : plmSend ≠ plmAlinkStart := by decide
    rw [matched_send_iff hb hd h1, h1]
    simp [hne]
  · rw [matched_other_iff hb hd h1]
    simp [h1]

/-- The answer does not hang on the local where the position of the acknowledgement is known. -/
theorem answered_junk {data : Frame} {cmd : CmdQ} (h : (getElem cmd.cmd 1 cmdAt1) = plmSend ∨ (getElem cmd.cmd 1 cmdAt1) = plmAlinkStart) (now : Int)
    (junk junk' : Octet) : cmd.answered now junk data = cmd.answered now junk' data := by
  unfold CmdQ.answered
  rcases h with h | h
  · rw [ackbitOf_send h, ackbitOf_send h]
  · rw [ackbitOf_alinkStart h, ackbitOf_alinkStart h]

/-- For every queue that a collector can reach and every frame it is given, `plmcmdq_check_ack` matches the frame with the head of
the queue exactly when the two fit. -/
theorem ackMatched_iff {plmtype : PlmType} {es : List PlmEvent} {q : Plm} (hq : exec plmStep (plmStartup plmtype) es = some q)
    {data : Frame} (hd : AckFrame data) : AckMatched data q ↔ HeadFits data q := by
  have hbuilt := built_reachable hq
  unfold AckMatched HeadFits
  simp only [plmcmdqCheckAck_eq, Plm.modHead]
  cases hfifo : q.cmdfifo with
  | nil => simp
  | cons cmd rest =>
    have hb : Built cmd := hbuilt cmd (hfifo ▸ List.mem_cons_self)
    simp only [List.head?_cons, Option.mem_some_iff, forall_eq', List.tail_cons, List.cons.injEq, and_true, exists_eq_left']
    rw [matched_head_iff hb hd]
    refine ⟨And.left, fun h => ⟨h, fun now junk junk' => ?_⟩⟩
    rw [answered_junk (h.imp And.left And.left) now junk junk']

/-- The echo of a command that turns the lamp on, acknowledged. -/
def lampAcked : Frame := frameOf [plmStart, plmSend, 0x1A, 0x2B, 0x3C, plmflagsetStd3hops, 0x11, 0xFF, plmcmdAck]

theorem ackMatched_iff_lamp : ∃ q, exec plmStep (plmStartup .serial) [.enqStd lamp 0x11 0xFF cmdqWaitackdata, .runq 0] = some q ∧
    AckMatched lampAcked q :=
  ⟨_, rfl, (@ackMatched_iff .serial [.enqStd lamp 0x11 0xFF cmdqWaitackdata, .runq 0] _ rfl lampAcked (by decide)).mpr (by decide)⟩

/-- The PLM is asked what it is while the echo of a command is on its way. The echo is taken for the answer, and whether it
acknowledges hangs on what the local held. -/
theorem ackMatched_getinfo : ∃ q, exec plmStep (plmStartup .serial)
    [.enqStd lamp 0x11 0xFF cmdqWaitackdata, .runq 0, .dequeue, .getinfo, .runq 1] = some q ∧ AckFrame lampAcked ∧
    ¬ AckMatched lampAcked q := by
  refine ⟨_, rfl, by decide, fun h => ?_⟩
  have hcount := congrArg (fun q => q.cmdfifo.map CmdQ.sendcount) (h.2 2 plmcmdAck 0)
  revert hcount
  decide

end Gnhast.Insteon
