import Gnhast.Insteon
import Gnhast.Lib.Runs

/-!
# What the queue runner does

`runqAgain` drops entries from the front of the queue, and then does one thing to the first entry it keeps. `RunqEnds` says so,
and the facts about the queue follow from it case by case.
-/

namespace Gnhast.Insteon

open CStr

/-! ## What is queued -/

/-- Flags that share no bit with others do not show through them. -/
theorem flag_or {w s f : Octet} (h : s &&& f = 0) : (w ||| s) &&& f = w &&& f := by
  have h : s &&& f = 0#8 := h
  rw [BitVec.and_comm, BitVec.and_or_distrib_left, BitVec.and_comm f s, h, BitVec.and_comm f w]
  exact BitVec.or_zero

/-- The length that the queue functions give to a command. -/
def lengthOf (cmd : Vector Octet 25) : Octet :=
  if (getElem cmd 0 cmdAt0) = cmdqNopwait then 0
  else if (getElem cmd 1 cmdAt1) = plmSend then if (getElem cmd 5 cmdAt5) &&& plmflagExt = 0 then 8 else 22
  else if (getElem cmd 1 cmdAt1) = plmAlinkStart then 4
  else if (getElem cmd 1 cmdAt1) = plmSetconf then 3
  else 2

/-- An entry as the queue functions make it. -/
structure Fresh (cmd : CmdQ) : Prop where
  len : cmd.msglen = lengthOf cmd.cmd
  start : (getElem cmd.cmd 0 cmdAt0) = plmStart ∨ cmd.cmd = cmdBytes [cmdqNopwait]
  covered : ∀ f, cmd.flag f = true → (cmd.wait ||| cmdqWaitsend) &&& f ≠ 0
  armed : (getElem cmd.cmd 0 cmdAt0) ≠ cmdqNopwait → cmd.flag cmdqWaitsend = true ∧ cmd.sendcount = 0

/-- The flags of a command to a device have no flag but those of the hops. -/
theorem plmGetHops_ext (dev : PlmDevice) : plmGetHops dev &&& plmflagExt = 0 := by
  unfold plmGetHops
  split
  · decide
  · rename_i hne
    have h := dev.dd.hop_ok.resolve_left hne
    have hmask : (0xF0 : Octet) &&& plmflagExt = plmflagExt := by decide
    rw [← hmask, ← BitVec.and_assoc, h]
    exact BitVec.zero_and

/-- An extended command has the flag, whatever the hops. -/
theorem ext_flags (dev : PlmDevice) : ¬ (plmGetHops dev ||| plmflagExt) &&& plmflagExt = 0 := by
  generalize plmGetHops dev = hops
  revert hops
  decide

theorem or_waitsend_ne_zero (w : Octet) : (w ||| cmdqWaitsend) &&& cmdqWaitsend ≠ 0 := by
  revert w
  decide

/-- A command to a device. -/
theorem fresh_send (id : Nat) (dev : PlmDevice) {flags msglen : Octet} (com1 com2 : Octet) (rest : List Octet) (waitflags : Octet)
    (uid : Option Str) (hlen : msglen = if flags &&& plmflagExt = 0 then 8 else 22) :
    Fresh { id := id, cmd := cmdBytes (sendHeader dev flags com1 com2 ++ rest), msglen := msglen, wait := waitflags,
            state := waitflags ||| cmdqWaitsend, uid := uid } := by
  have h0 : (cmdBytes (sendHeader dev flags com1 com2 ++ rest))[0] = plmStart := by simp [cmdBytes, sendHeader]
  have h1 : (cmdBytes (sendHeader dev flags com1 com2 ++ rest))[1] = plmSend := by simp [cmdBytes, sendHeader]
  have h5 : (cmdBytes (sendHeader dev flags com1 com2 ++ rest))[5] = flags := by simp [cmdBytes, sendHeader]
  refine ⟨?_, Or.inl h0, fun f hf => bne_iff_ne.mp hf, fun _ => ⟨bne_iff_ne.mpr (or_waitsend_ne_zero waitflags), rfl⟩⟩
  unfold lengthOf
  rw [h0, if_neg (by decide), h1, if_pos rfl, h5]
  exact hlen

/-- An entry that only waits. -/
theorem fresh_wait (id : Nat) (count : Octet) : Fresh { id := id, cmd := cmdBytes [cmdqNopwait], sendcount := count } := by
  refine ⟨rfl, Or.inr rfl, fun f hf => ?_, fun h => absurd rfl h⟩
  simp [CmdQ.flag] at hf

/-- A command to the PLM. -/
theorem fresh_command (id : Nat) {code : Octet} {rest : List Octet} {wait state : Octet}
    (hlen : BitVec.ofNat 8 ((code :: rest).length + 1) = lengthOf (cmdBytes (plmStart :: code :: rest)))
    (hcovered : ∀ f, state &&& f ≠ 0 → (wait ||| cmdqWaitsend) &&& f ≠ 0) (harmed : state &&& cmdqWaitsend ≠ 0) :
    Fresh { id := id, cmd := cmdBytes (plmStart :: code :: rest), msglen := BitVec.ofNat 8 ((code :: rest).length + 1),
            wait := wait, state := state } :=
  ⟨hlen, Or.inl (by simp [cmdBytes]), fun f hf => hcovered f (bne_iff_ne.mp hf), fun _ => ⟨bne_iff_ne.mpr harmed, rfl⟩⟩

/-! ## The operations that queue -/

/-- The operations that queue an entry. -/
def PlmEvent.queues : PlmEvent → Bool
  | .enqStd .. | .enqExt .. | .enqStdcs .. | .enqWait .. | .getinfo | .getconf | .setconf .. | .getplmAldb .. | .allLink .. => true
  | _ => false

/-- A new entry goes to the end, under the next name. -/
def Queues (q q' : Plm) : Prop :=
  ∃ cmd : CmdQ, q' = { q with cmdfifo := q.cmdfifo ++ [cmd], nextCmd := q.nextCmd + 1 } ∧ cmd.id = q.nextCmd ∧ Fresh cmd

theorem queues_plmEnqStdcs (dev : PlmDevice) (com1 com2 waitflags : Octet) (q : Plm) :
    Queues q (plmEnqStdcs dev com1 com2 waitflags q) := by
  refine ⟨_, rfl, rfl, ?_⟩
  rw [List.append_assoc]
  refine fresh_send _ _ _ _ _ _ _ ?_
  rw [if_neg (ext_flags dev)]

theorem plmStep_queues {q q' : Plm} {e : PlmEvent} (hs : plmStep q e = some q') (he : e.queues = true) :
    Queues q q' := by
  cases e with
  | enqStd dev com1 com2 waitflags =>
    cases hs
    unfold plmEnqStd
    split
    · exact queues_plmEnqStdcs dev com1 com2 waitflags q
    · refine ⟨_, rfl, rfl, ?_⟩
      rw [← List.append_nil (sendHeader _ _ _ _)]
      refine fresh_send _ _ _ _ _ _ _ ?_
      rw [plmGetHops_ext, if_pos rfl]
  | enqExt dev com1 com2 data waitflags =>
    cases hs
    refine ⟨_, rfl, rfl, ?_⟩
    rw [List.append_assoc]
    refine fresh_send _ _ _ _ _ _ _ ?_
    rw [if_neg (ext_flags dev)]
  | enqStdcs dev com1 com2 waitflags =>
    cases hs
    exact queues_plmEnqStdcs dev com1 com2 waitflags q
  | enqWait howlong =>
    cases hs
    exact ⟨_, rfl, rfl, fresh_wait _ _⟩
  | getinfo | getconf =>
    cases hs
    exact ⟨_, rfl, rfl, fresh_command _ rfl (fun _ h => h) (by decide)⟩
  | setconf cfgflags =>
    cases hs
    refine ⟨_, rfl, rfl, fresh_command _ ?_ (fun _ h => h) (by decide)⟩
    simp [lengthOf, cmdBytes, plmStart, cmdqNopwait, plmSetconf, plmSend, plmAlinkStart]
  | getplmAldb first =>
    cases hs
    refine ⟨_, rfl, rfl, fresh_command _ ?_ (fun _ h => h) (by decide)⟩
    cases first <;> rfl
  | allLink linkcode group =>
    cases hs
    refine ⟨_, rfl, rfl, fresh_command _ ?_ (fun f h => ?_) (by decide)⟩
    · simp [lengthOf, cmdBytes, plmStart, cmdqNopwait, plmSend, plmAlinkStart]
    · revert f
      decide
  | _ => cases he

/-! ## The queue runner -/

/-- An entry that the queue runner drops when it stands at the head. -/
def CmdQ.Over (cmd : CmdQ) (plmtype : PlmType) (now : Int) : Prop :=
  (getElem cmd.cmd 0 cmdAt0) ≠ cmdqNopwait ∧ (cmd.state = 0 ∨ cmdqMaxSend < cmd.sendcount ∨
    (cmd.sendable = false ∧ cmd.tp + cmd.patience plmtype < now ∧ cmdqMaxSend ≤ cmd.sendcount))

/-- What the queue runner does to the first entry that it does not drop. -/
inductive HeadStep (now : Int) (q : Plm) (cmd : CmdQ) (rest : List CmdQ) : Plm → Prop
  | woke (hw : (getElem cmd.cmd 0 cmdAt0) = cmdqNopwait) (hc : cmd.sendcount ≤ 0) : HeadStep now q cmd rest { q with cmdfifo := rest }
  | slept (hw : (getElem cmd.cmd 0 cmdAt0) = cmdqNopwait) (hc : ¬ cmd.sendcount ≤ 0) :
      HeadStep now q cmd rest { q with cmdfifo := { cmd with sendcount := cmd.sendcount - 1 } :: rest }
  | fired (hw : (getElem cmd.cmd 0 cmdAt0) ≠ cmdqNopwait) (hc : cmd.sendcount ≤ cmdqMaxSend) (hs : cmd.sendable = true) :
      HeadStep now q cmd rest (q.sendHead now cmd rest)
  | refired (hw : (getElem cmd.cmd 0 cmdAt0) ≠ cmdqNopwait) (h0 : cmd.state ≠ 0) (hc : cmd.sendcount < cmdqMaxSend) (hs : cmd.sendable = false)
      (hs' : CmdQ.sendable { cmd with state := cmd.wait ||| cmdqWaitsend } = true) :
      HeadStep now q cmd rest (q.sendHead now { cmd with state := cmd.wait ||| cmdqWaitsend } rest)
  | waits (hw : (getElem cmd.cmd 0 cmdAt0) ≠ cmdqNopwait) (h0 : cmd.state ≠ 0) (hs : cmd.sendable = false)
      (ht : ¬ cmd.tp + cmd.patience q.plmtype < now) : HeadStep now q cmd rest { q with cmdfifo := cmd :: rest }

/-- What the queue runner does to a queue: it drops some entries, and ends at the next one or at the end. -/
inductive RunqEnds (now : Int) (q : Plm) (l : List CmdQ) : Plm → Bool → Prop
  | empty (hd : ∀ d ∈ l, d.Over q.plmtype now) : RunqEnds now q l { q with cmdfifo := [] } true
  | head {dropped : List CmdQ} {cmd : CmdQ} {rest : List CmdQ} {q' : Plm} (hl : l = dropped ++ cmd :: rest)
      (hd : ∀ d ∈ dropped, d.Over q.plmtype now) (hs : HeadStep now q cmd rest q') : RunqEnds now q l q' false

theorem RunqEnds.drop {now : Int} {q q' : Plm} {d : CmdQ} {l : List CmdQ} {e : Bool} (hd : d.Over q.plmtype now)
    (h : RunqEnds now q l q' e) : RunqEnds now q (d :: l) q' e := by
  cases h with
  | empty h => exact .empty (List.forall_mem_cons.mpr ⟨hd, h⟩)
  | head hl h hs =>
    rw [hl, ← List.cons_append]
    exact .head rfl (List.forall_mem_cons.mpr ⟨hd, h⟩) hs

theorem runqAgain_ends {now : Int} {q q' : Plm} {l : List CmdQ} {e : Bool} (h : runqAgain now q l = some (q', e)) :
    RunqEnds now q l q' e := by
  induction l with
  | nil =>
    cases h
    exact .empty (fun d hd => nomatch hd)
  | cons cmd rest ih =>
    have hhead : ∀ {q'' : Plm}, HeadStep now q cmd rest q'' → RunqEnds now q (cmd :: rest) q'' false :=
      fun hs => .head (show cmd :: rest = [] ++ cmd :: rest from rfl) (fun d hd => nomatch hd) hs
    unfold runqAgain at h
    split at h
    · rename_i hw
      split at h
      · rename_i hc
        cases h
        exact hhead (.woke hw hc)
      · rename_i hc
        cases h
        exact hhead (.slept hw hc)
    · rename_i hw
      split at h
      · rename_i hd
        exact (ih h).drop ⟨hw, hd.imp_right Or.inl⟩
      · rename_i hd
        obtain ⟨h0, hmax⟩ := not_or.mp hd
        split at h
        · rename_i hs
          cases h
          exact hhead (.fired hw (BitVec.not_lt.mp hmax) hs)
        · rename_i hs
          rw [Bool.not_eq_true] at hs
          split at h
          · rename_i ht
            split at h
            · rename_i hc
              exact (ih h).drop ⟨hw, Or.inr (Or.inr ⟨hs, ht, hc⟩)⟩
            · rename_i hc
              dsimp only at h
              split at h
              · rename_i hs'
                cases h
                exact hhead (.refired hw h0 (BitVec.not_le.mp hc) hs hs')
              · cases h
          · rename_i ht
            cases h
            exact hhead (.waits hw h0 hs ht)

/-- What one call of `plm_runq` does. -/
theorem plmRunq_ends {now : Int} {q q' : Plm} {e : Bool} (h : plmRunq now q = some (q', e)) :
    q' = q ∨ RunqEnds now q (plmCondenseRunq q.cmdfifo) q' e := by
  unfold plmRunq at h
  split at h
  · cases h
    exact Or.inl rfl
  · exact Or.inr (runqAgain_ends h)

theorem dropCopies_sublist (cmd : CmdQ) (rest : List CmdQ) : (dropCopies cmd rest).Sublist rest := List.filter_sublist

theorem plmCondenseRunq_sublist (l : List CmdQ) : (plmCondenseRunq l).Sublist l := by
  cases l with
  | nil => exact List.Sublist.refl _
  | cons cmd rest =>
    unfold plmCondenseRunq
    dsimp only
    split
    · exact (dropCopies_sublist cmd rest).cons cmd
    · exact (dropCopies_sublist cmd rest).cons_cons cmd

/-! ## What becomes of an entry -/

/-- The same command, which may have been counted, sent or answered since. -/
structure Kept (c c' : CmdQ) : Prop where
  id : c'.id = c.id
  cmd : c'.cmd = c.cmd
  msglen : c'.msglen = c.msglen
  wait : c'.wait = c.wait
  flag : ∀ f, c'.flag f = true → c.flag f = true ∨ (c.wait ||| cmdqWaitsend) &&& f ≠ 0

namespace Kept

variable {c c' c'' : CmdQ}

theorem refl (c : CmdQ) : Kept c c := ⟨rfl, rfl, rfl, rfl, fun _ h => Or.inl h⟩

theorem trans (h : Kept c c') (h' : Kept c' c'') : Kept c c'' := by
  refine ⟨h'.id.trans h.id, h'.cmd.trans h.cmd, h'.msglen.trans h.msglen, h'.wait.trans h.wait, fun f hf => ?_⟩
  rcases h'.flag f hf with hf | hf
  · exact h.flag f hf
  · exact Or.inr (h.wait ▸ hf)

theorem counted (c : CmdQ) (count : Octet) : Kept c { c with sendcount := count } := ⟨rfl, rfl, rfl, rfl, fun _ h => Or.inl h⟩

/-- Clearing flags sets none. -/
theorem and_state (c : CmdQ) (g count : Octet) (tp : Int) : Kept c { c with state := c.state &&& g, sendcount := count, tp := tp } := by
  refine ⟨rfl, rfl, rfl, rfl, fun f hf => Or.inl ?_⟩
  refine bne_iff_ne.mpr fun h0 => bne_iff_ne.mp hf ?_
  have h0 : c.state &&& f = 0#8 := h0
  rw [BitVec.and_assoc, BitVec.and_comm g f, ← BitVec.and_assoc, h0]
  exact BitVec.zero_and

theorem cleared (c : CmdQ) (now : Int) (whatkind : Octet) : Kept c (c.cleared now whatkind) := and_state c _ c.sendcount now

theorem fired (c : CmdQ) (now : Int) : Kept c (c.fired now) := and_state c _ _ now

theorem armed (c : CmdQ) (count : Octet) : Kept c { c with state := c.wait ||| cmdqWaitsend, sendcount := count } :=
  ⟨rfl, rfl, rfl, rfl, fun _ hf => Or.inr (bne_iff_ne.mp hf)⟩

end Kept

/-- An entry of a queue was there before, or is new. -/
def Continues (q : Plm) (l : List CmdQ) : Prop := ∀ cmd ∈ l, (∃ c ∈ q.cmdfifo, Kept c cmd) ∨ Fresh cmd

theorem continues_of_subset {q : Plm} {l : List CmdQ} (h : l ⊆ q.cmdfifo) : Continues q l :=
  fun cmd hc => Or.inl ⟨cmd, h hc, Kept.refl cmd⟩

theorem continues_head {q : Plm} {c c' : CmdQ} {rest : List CmdQ} (h : (c :: rest) ⊆ q.cmdfifo) (hk : Kept c c') :
    Continues q (c' :: rest) := by
  refine List.forall_mem_cons.mpr ⟨Or.inl ⟨c, h List.mem_cons_self, hk⟩, ?_⟩
  exact continues_of_subset fun _ hc => h (List.mem_cons_of_mem c hc)

theorem continues_modHead (q : Plm) {f : CmdQ → CmdQ} (hf : ∀ c, Kept c (f c)) : Continues q (q.modHead f).cmdfifo := by
  unfold Plm.modHead
  split
  · exact continues_of_subset (List.Subset.refl _)
  · rename_i cmd rest hq
    exact continues_head (hq ▸ List.Subset.refl _) (hf cmd)

theorem modHead_modHead (q : Plm) (f g : CmdQ → CmdQ) : (q.modHead f).modHead g = q.modHead fun c => g (f c) := by
  unfold Plm.modHead
  cases hq : q.cmdfifo with
  | nil => simp only [hq]
  | cons cmd rest => rfl

theorem continues_runqEnds {now : Int} {q q' : Plm} {l : List CmdQ} {e : Bool} (hl : l ⊆ q.cmdfifo) (h : RunqEnds now q l q' e) :
    Continues q q'.cmdfifo := by
  cases h with
  | empty hd => exact continues_of_subset (List.nil_subset _)
  | @head dropped cmd rest _ hl' hd hs =>
    have hsub : (cmd :: rest) ⊆ q.cmdfifo := fun c hc => hl (hl' ▸ List.mem_append_right dropped hc)
    cases hs with
    | woke hw hc => exact continues_of_subset fun c hc => hsub (List.mem_cons_of_mem cmd hc)
    | slept hw hc => exact continues_head hsub (Kept.counted cmd _)
    | fired hw hc hs => exact continues_head hsub (Kept.fired cmd now)
    | refired hw h0 hc hs hs' => exact continues_head hsub ((Kept.armed cmd cmd.sendcount).trans (Kept.fired _ now))
    | waits hw h0 hs ht => exact continues_of_subset hsub

/-- The first entry that waits may get another count. -/
theorem mem_extendDelay {l : List CmdQ} {cmd : CmdQ} (h : cmd ∈ extendDelay l) : ∃ c ∈ l, Kept c cmd := by
  induction l with
  | nil => cases h
  | cons c rest ih =>
    unfold extendDelay at h
    split at h
    · rcases List.mem_cons.mp h with rfl | h
      · exact ⟨c, List.mem_cons_self, Kept.counted c 10⟩
      · exact ⟨cmd, List.mem_cons_of_mem c h, Kept.refl cmd⟩
    · rcases List.mem_cons.mp h with rfl | h
      · exact ⟨cmd, List.mem_cons_self, Kept.refl cmd⟩
      · obtain ⟨c', hc', hk⟩ := ih h
        exact ⟨c', List.mem_cons_of_mem c hc', hk⟩

/-- What one operation does to the entries. -/
theorem plmStep_continues {q q' : Plm} {e : PlmEvent} (hs : plmStep q e = some q') : Continues q q'.cmdfifo := by
  cases e with
  | enqStd | enqExt | enqStdcs | enqWait | getinfo | getconf | setconf | getplmAldb | allLink =>
    obtain ⟨cmd, rfl, -, hfresh⟩ := plmStep_queues hs rfl
    intro c hc
    rcases List.mem_append.mp hc with hc | hc
    · exact Or.inl ⟨c, hc, Kept.refl c⟩
    · exact Or.inr (List.mem_singleton.mp hc ▸ hfresh)
  | runq now =>
    obtain ⟨⟨q'', e⟩, hr, rfl⟩ := Option.map_eq_some_iff.mp hs
    obtain rfl | he := plmRunq_ends hr
    · exact continues_of_subset (List.Subset.refl _)
    · exact continues_runqEnds (plmCondenseRunq_sublist _).subset he
  | checkAck now junk data =>
    cases hs
    refine continues_modHead q fun c => ?_
    split
    · split
      · exact Kept.cleared c now _
      · exact Kept.armed c _
    · exact Kept.refl c
  | checkRecv now fromaddr toaddr cmd1 whatkind =>
    cases hs
    have hcleared : ∀ (b : Bool) (kind : Octet) (c : CmdQ), Kept c (if b then c.cleared now kind else c) := by
      intro b kind c
      cases b
      · exact Kept.refl c
      · exact Kept.cleared c now kind
    unfold plmcmdqCheckRecv
    dsimp only
    rw [modHead_modHead]
    exact continues_modHead q fun c => (hcleared _ _ c).trans (hcleared _ _ _)
  | gotData now whatkind =>
    cases hs
    exact continues_modHead q fun c => Kept.cleared c now whatkind
  | dequeue =>
    cases hs
    exact continues_of_subset (List.tail_subset _)
  | flush =>
    cases hs
    exact continues_of_subset (List.nil_subset _)
  | properDelay devaddr =>
    cases hs
    unfold plmCheckProperDelay
    split
    · split
      · exact fun cmd hc => Or.inl (mem_extendDelay hc)
      · exact List.forall_mem_cons.mpr ⟨Or.inr (fresh_wait _ _), continues_of_subset (List.Subset.refl _)⟩
    · exact continues_of_subset (List.Subset.refl _)
  | hub | setAddr =>
    cases hs
    exact continues_of_subset (List.Subset.refl _)

/-! ## The entries of a run -/

/-- An entry that a queue function made, with what happened to it since. -/
def Built (cmd : CmdQ) : Prop := ∃ c, Fresh c ∧ Kept c cmd

/-- The queue when a collector starts. -/
def plmStartup (plmtype : PlmType) : Plm := { plmtype := plmtype }

theorem built_step {q q' : Plm} {e : PlmEvent} (h : ∀ cmd ∈ q.cmdfifo, Built cmd) (hs : plmStep q e = some q') :
    ∀ cmd ∈ q'.cmdfifo, Built cmd := by
  intro cmd hcmd
  rcases plmStep_continues hs cmd hcmd with ⟨c, hc, hk⟩ | hf
  · obtain ⟨c₀, hf, hk₀⟩ := h c hc
    exact ⟨c₀, hf, hk₀.trans hk⟩
  · exact ⟨cmd, hf, Kept.refl cmd⟩

theorem built_reachable {plmtype : PlmType} {es : List PlmEvent} {q : Plm}
    (h : Runs.exec plmStep (plmStartup plmtype) es = some q) : ∀ cmd ∈ q.cmdfifo, Built cmd :=
  Runs.exec_induct (I := fun q => ∀ cmd ∈ q.cmdfifo, Built cmd) (fun _ _ _ hI hs => built_step hI hs)
    (List.forall_mem_nil _) h

namespace Built

variable {cmd : CmdQ}

theorem len (h : Built cmd) : cmd.msglen = lengthOf cmd.cmd := by
  obtain ⟨c, hf, hk⟩ := h
  rw [hk.msglen, hk.cmd]
  exact hf.len

theorem start (h : Built cmd) : (getElem cmd.cmd 0 cmdAt0) = plmStart ∨ cmd.cmd = cmdBytes [cmdqNopwait] := by
  obtain ⟨c, hf, hk⟩ := h
  rw [hk.cmd]
  exact hf.start

/-- An entry waits for what it was made to wait for. -/
theorem covered (h : Built cmd) {f : Octet} (hf : cmd.flag f = true) : (cmd.wait ||| cmdqWaitsend) &&& f ≠ 0 := by
  obtain ⟨c, hfresh, hk⟩ := h
  rw [hk.wait]
  rcases hk.flag f hf with hf | hf
  · exact hfresh.covered f hf
  · exact hf

/-- A command to a device starts as its echo does. -/
theorem start_of_send (h : Built cmd) (h1 : (getElem cmd.cmd 1 cmdAt1) = plmSend) : (getElem cmd.cmd 0 cmdAt0) = plmStart := by
  refine h.start.resolve_right fun he => ?_
  rw [he] at h1
  revert h1
  decide

theorem short_of_not_send (h : Built cmd) (h1 : (getElem cmd.cmd 1 cmdAt1) ≠ plmSend) : cmd.msglen < 8 := by
  rw [h.len]
  unfold lengthOf
  rw [if_neg h1]
  split
  · decide
  · split
    · decide
    · split <;> decide

theorem long_of_send (h : Built cmd) (h1 : (getElem cmd.cmd 1 cmdAt1) = plmSend) : ¬ cmd.msglen < 8 := by
  rw [h.len]
  unfold lengthOf
  rw [h.start_of_send h1, if_neg (by decide), if_pos h1]
  split <;> decide

end Built

/-! ## A lamp -/

/-- A device of a collector, for the examples. -/
def lamp : PlmDevice where
  dev := { uid := str "1A.2B.3C", name := str "Lamp", proto := 2, type := 1, subtype := 1 }
  loc := str "1A.2B.3C"
  dd := { daddr := #v[0x1A, 0x2B, 0x3C] }

end Gnhast.Insteon
