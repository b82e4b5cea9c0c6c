import Gnhast.Lemmas.Insteon

/-!
# What condensing the queue loses

`plm_condense_runq` drops the copies of the command at the head, and then the head itself where a later command agrees with it in
the bytes up to the second command byte. The first pass compares whole commands and keeps each of them; the second loses the head
when the two differ in their data. Queues are run here with every command acknowledged.
-/

namespace Gnhast.Insteon

open CStr Runs

/-! ## One pass -/

/-- Condensing a queue keeps every command of it, once at least. -/
def CondenseKeeps (q : Plm) : Prop := ∀ cmd ∈ q.cmdfifo, ∃ cmd' ∈ plmCondenseRunq q.cmdfifo, cmd'.cmd = cmd.cmd
deriving Decidable

/-- No command behind a head that goes to a device agrees with it in eight bytes and differs in the rest. -/
def HeadApart (q : Plm) : Prop :=
  ∀ cmd ∈ q.cmdfifo.head?, (getElem cmd.cmd 1 cmdAt1) = plmSend → ∀ chk ∈ q.cmdfifo.tail, samePrefix 8 cmd.cmd chk.cmd = true → chk.cmd = cmd.cmd
deriving Decidable

theorem samePrefix_all {a b : Vector Octet 25} : samePrefix 25 a b = true ↔ a = b := by
  have ha : a.toList.take 25 = a.toList := List.take_of_length_le (by simp)
  have hb : b.toList.take 25 = b.toList := List.take_of_length_le (by simp)
  rw [samePrefix, decide_eq_true_eq, ha, hb, Vector.toList_inj]

theorem mem_dropCopies {cmd chk : CmdQ} {rest : List CmdQ} :
    chk ∈ dropCopies cmd rest ↔ chk ∈ rest ∧ ((getElem chk.cmd 0 cmdAt0) ≠ cmdqNopwait → cmd.cmd ≠ chk.cmd) := by
  unfold dropCopies
  rw [List.mem_filter, Bool.not_eq_true', ← Bool.not_eq_true, Bool.and_eq_true, bne_iff_ne, samePrefix_all, not_and]

/-- Where nothing behind the head agrees with it by halves, condensing drops copies and nothing else. -/
theorem plmCondenseRunq_of_apart {cmd : CmdQ} {rest : List CmdQ} (hb : Built cmd)
    (h : (getElem cmd.cmd 1 cmdAt1) = plmSend → ∀ chk ∈ rest, samePrefix 8 cmd.cmd chk.cmd = true → chk.cmd = cmd.cmd) :
    plmCondenseRunq (cmd :: rest) = cmd :: dropCopies cmd rest := by
  unfold plmCondenseRunq
  dsimp only
  rw [if_neg]
  intro hany
  obtain ⟨chk, hchk, hsame⟩ := List.any_eq_true.mp hany
  rw [Bool.and_eq_true, beq_iff_eq] at hsame
  obtain ⟨hmem, hne⟩ := mem_dropCopies.mp hchk
  have heq := h hsame.2 chk hmem hsame.1
  refine hne ?_ heq.symm
  rw [heq, hb.start_of_send hsame.2]
  decide

/-- Condensing keeps every command exactly where nothing behind the head agrees with it by halves. -/
theorem condenseKeeps_iff {q : Plm} (hb : ∀ cmd ∈ q.cmdfifo, Built cmd) : CondenseKeeps q ↔ HeadApart q := by
  unfold CondenseKeeps HeadApart
  cases hq : q.cmdfifo with
  | nil => simp
  | cons cmd rest =>
    have hbuilt : Built cmd := hb cmd (hq ▸ List.mem_cons_self)
    simp only [List.head?_cons, Option.mem_some_iff, forall_eq', List.tail_cons]
    constructor
    · intro hkeeps h1 chk hchk hsame
      by_contra hne
      -- the head goes, and what stays differs from it
      have hstart := hbuilt.start_of_send h1
      have hmem : chk ∈ dropCopies cmd rest := mem_dropCopies.mpr ⟨hchk, fun _ he => hne he.symm⟩
      have hany : (dropCopies cmd rest).any (fun chk => samePrefix 8 cmd.cmd chk.cmd && cmd.cmd[1] == plmSend) = true :=
        List.any_eq_true.mpr ⟨chk, hmem, by rw [hsame, h1]; rfl⟩
      obtain ⟨cmd', hcmd', he⟩ := hkeeps cmd List.mem_cons_self
      unfold plmCondenseRunq at hcmd'
      dsimp only at hcmd'
      rw [if_pos hany] at hcmd'
      refine (mem_dropCopies.mp hcmd').2 ?_ he.symm
      rw [he, hstart]
      decide
    · intro hapart c hc
      rw [plmCondenseRunq_of_apart hbuilt hapart]
      rcases List.mem_cons.mp hc with rfl | hc
      · exact ⟨c, List.mem_cons_self, rfl⟩
      · by_cases hkept : c ∈ dropCopies cmd rest
        · exact ⟨c, List.mem_cons_of_mem cmd hkept, rfl⟩
        · refine ⟨cmd, List.mem_cons_self, ?_⟩
          by_contra hne
          exact hkept (mem_dropCopies.mpr ⟨hc, fun _ => hne⟩)

/-! ## Running a queue -/

/-- What happens while every command is acknowledged: a command is queued, or the timer of `plm_runq` fires. -/
inductive Turn
  | queue (e : PlmEvent) (he : e.queues = true)
  | tick (now : Int)

/-- A turn. Before the timer fires the hub has answered; after it the PLM has sent all that the command at the head waits for. -/
def turnStep (q : Plm) : Turn → Option Plm
  | .queue e _ => plmStep q e
  | .tick now => exec plmStep q [.hub .idle, .runq now, .gotData now (~~~cmdqWaitsend)]

/-- The number of times that the timer fires. -/
def ticks (ts : List Turn) : Nat := ts.countP fun | .tick _ => true | .queue .. => false

/-- A condition on the queue when the timer fires. -/
def OnTick (P : Plm → Prop) (q : Plm) : Turn → Prop
  | .tick _ => P q
  | .queue .. => True

instance (P : Plm → Prop) [DecidablePred P] (q : Plm) : DecidablePred (OnTick P q)
  | .tick _ => inferInstanceAs (Decidable (P q))
  | .queue .. => .isTrue trivial

/-- An entry that is waiting to be sent. -/
structure Armed (cmd : CmdQ) : Prop where
  command : (getElem cmd.cmd 0 cmdAt0) ≠ cmdqNopwait
  flag : cmd.flag cmdqWaitsend = true
  count : cmd.sendcount ≤ cmdqMaxSend

/-- How often the timer fires while an entry is at the head. -/
def CmdQ.cost (cmd : CmdQ) : Nat :=
  if (getElem cmd.cmd 0 cmdAt0) = cmdqNopwait then cmd.sendcount.toNat + 1 else if cmd.state = 0 then 0 else 1

/-- How often the timer fires until the entries of a list are done. -/
def work (l : List CmdQ) : Nat := (l.map CmdQ.cost).sum

/-- A command was given to the PLM. -/
def Transmitted (v : Vector Octet 25) (q : Plm) : Prop := v.toList.take (lengthOf v).toNat ∈ q.sent.map Prod.snd

/-- An entry of a queue in which every command was acknowledged: it waits, it is waiting to be sent, or it is done. -/
def Calm (q : Plm) (cmd : CmdQ) : Prop :=
  Built cmd ∧ ((getElem cmd.cmd 0 cmdAt0) = cmdqNopwait ∨ Armed cmd ∨ (cmd.state = 0 ∧ Transmitted cmd.cmd q))

/-- A command stands in a list, waiting to be sent, with less than so much work in front of it. -/
def Queued (v : Vector Octet 25) (k : Nat) (l : List CmdQ) : Prop :=
  ∃ l₁ cmd l₂, l = l₁ ++ cmd :: l₂ ∧ Armed cmd ∧ cmd.cmd = v ∧ work l₁ < k

/-- The acknowledgement of the head. -/
def ackHead (now : Int) : List CmdQ → List CmdQ
  | [] => []
  | cmd :: rest => cmd.cleared now (~~~cmdqWaitsend) :: rest

theorem work_cons (cmd : CmdQ) (l : List CmdQ) : work (cmd :: l) = cmd.cost + work l := by
  rw [work, work, List.map_cons, List.sum_cons]

theorem work_filter_le (p : CmdQ → Bool) (l : List CmdQ) : work (l.filter p) ≤ work l := by
  induction l with
  | nil => exact Nat.le_refl _
  | cons cmd l ih =>
    rw [List.filter_cons]
    split
    · rw [work_cons, work_cons]
      omega
    · rw [work_cons]
      omega

theorem work_append (l₁ l₂ : List CmdQ) : work (l₁ ++ l₂) = work l₁ + work l₂ := by
  rw [work, work, work, List.map_append, List.sum_append]

/-! ## Entries -/

theorem Armed.state_ne {cmd : CmdQ} (h : Armed cmd) : cmd.state ≠ 0 := by
  intro h0
  have hf := h.flag
  rw [CmdQ.flag, h0] at hf
  revert hf
  decide

theorem Armed.cost {cmd : CmdQ} (h : Armed cmd) : cmd.cost = 1 := by
  unfold CmdQ.cost
  rw [if_neg h.command, if_neg h.state_ne]

theorem Armed.sendable {cmd : CmdQ} (h : Armed cmd) (hb : Built cmd) : cmd.sendable = true := by
  unfold CmdQ.sendable
  rw [h.flag, hb.len, Bool.true_and, decide_eq_true_eq]
  unfold lengthOf
  rw [if_neg h.command]
  split
  · split <;> decide
  · split
    · decide
    · split <;> decide

theorem Armed.cleared {cmd : CmdQ} (h : Armed cmd) (now : Int) : Armed (cmd.cleared now (~~~cmdqWaitsend)) := by
  refine ⟨h.command, ?_, h.count⟩
  have hmask : ∀ s : Octet, s &&& ~~~(~~~cmdqWaitsend) &&& cmdqWaitsend = s &&& cmdqWaitsend := by decide
  unfold CmdQ.flag CmdQ.cleared
  rw [hmask]
  exact h.flag

theorem cost_cleared_le (cmd : CmdQ) (now : Int) (kind : Octet) : (cmd.cleared now kind).cost ≤ cmd.cost := by
  unfold CmdQ.cost CmdQ.cleared
  dsimp only
  split
  · exact Nat.le_refl _
  · by_cases h0 : cmd.state = 0
    · rw [h0, if_pos (by exact BitVec.zero_and), if_pos rfl]
    · rw [if_neg h0]
      split <;> decide

/-- A command that was sent and acknowledged is done. -/
theorem state_acked (cmd : CmdQ) (now : Int) : ((cmd.fired now).cleared now (~~~cmdqWaitsend)).state = 0 := by
  have hmask : ∀ s : Octet, s &&& ~~~cmdqWaitsend &&& ~~~(~~~cmdqWaitsend) = 0 := by decide
  exact hmask cmd.state

theorem Built.kept {cmd cmd' : CmdQ} (h : Built cmd) (hk : Kept cmd cmd') : Built cmd' := by
  obtain ⟨c, hf, hc⟩ := h
  exact ⟨c, hf, hc.trans hk⟩

theorem bytes_eq {cmd : CmdQ} (hb : Built cmd) : cmd.bytes = cmd.cmd.toList.take (lengthOf cmd.cmd).toNat := by
  rw [CmdQ.bytes, hb.len]

theorem Calm.mono {q q' : Plm} {cmd : CmdQ} (h : Calm q cmd) (hs : q.sent ⊆ q'.sent) : Calm q' cmd := by
  refine ⟨h.1, h.2.imp_right (Or.imp_right fun hd => ⟨hd.1, ?_⟩)⟩
  exact List.map_subset _ hs hd.2

theorem Calm.cleared {q : Plm} {cmd : CmdQ} (h : Calm q cmd) (now : Int) : Calm q (cmd.cleared now (~~~cmdqWaitsend)) := by
  refine ⟨h.1.kept (Kept.cleared cmd now _), ?_⟩
  rcases h.2 with hw | ha | ⟨h0, ht⟩
  · exact Or.inl hw
  · exact Or.inr (Or.inl (ha.cleared now))
  · refine Or.inr (Or.inr ⟨?_, ht⟩)
    change cmd.state &&& _ = 0
    rw [h0]
    exact BitVec.zero_and

theorem calm_ackHead {q : Plm} {l : List CmdQ} (h : ∀ cmd ∈ l, Calm q cmd) (now : Int) : ∀ cmd ∈ ackHead now l, Calm q cmd := by
  cases l with
  | nil => exact h
  | cons c rest =>
    rw [List.forall_mem_cons] at h
    exact List.forall_mem_cons.mpr ⟨h.1.cleared now, h.2⟩

/-! ## Where a command stands -/

namespace Queued

variable {v : Vector Octet 25} {k : Nat} {l : List CmdQ} {c : CmdQ}

theorem head (h : Armed c) (hv : c.cmd = v) (hk : 0 < k) (l : List CmdQ) : Queued v k (c :: l) := ⟨[], c, l, rfl, h, hv, hk⟩

theorem cons (h : Queued v k l) (c : CmdQ) : Queued v (c.cost + k) (c :: l) := by
  obtain ⟨l₁, cmd, l₂, rfl, ha, hv, hk⟩ := h
  refine ⟨c :: l₁, cmd, l₂, rfl, ha, hv, ?_⟩
  rw [work_cons]
  omega

/-- A command stands at the head, or behind it. -/
theorem of_cons (h : Queued v k (c :: l)) : (Armed c ∧ c.cmd = v) ∨ ∃ k', c.cost + k' = k ∧ Queued v k' l := by
  obtain ⟨l₁, cmd, l₂, hl, ha, hv, hk⟩ := h
  cases l₁ with
  | nil =>
    obtain ⟨rfl, rfl⟩ := List.cons.inj hl
    exact Or.inl ⟨ha, hv⟩
  | cons c' l₁ =>
    obtain ⟨rfl, rfl⟩ := List.cons.inj hl
    rw [work_cons] at hk
    refine Or.inr ⟨k - c.cost, by omega, l₁, cmd, l₂, rfl, ha, hv, by omega⟩

theorem mono {k' : Nat} (h : Queued v k l) (hk : k ≤ k') : Queued v k' l := by
  obtain ⟨l₁, cmd, l₂, hl, ha, hv, hw⟩ := h
  exact ⟨l₁, cmd, l₂, hl, ha, hv, by omega⟩

theorem append (h : Queued v k l) (l' : List CmdQ) : Queued v k (l ++ l') := by
  obtain ⟨l₁, cmd, l₂, rfl, ha, hv, hw⟩ := h
  exact ⟨l₁, cmd, l₂ ++ l', by simp, ha, hv, hw⟩

theorem pos (h : Queued v k l) : 0 < k := by
  obtain ⟨l₁, cmd, l₂, hl, ha, hv, hw⟩ := h
  omega

theorem ackHead (h : Queued v k l) (now : Int) : Queued v k (ackHead now l) := by
  cases l with
  | nil => exact h
  | cons c l =>
    rcases h.of_cons with ⟨ha, hv⟩ | ⟨k', hk, hq⟩
    · exact head (ha.cleared now) hv h.pos l
    · exact (hq.cons _).mono (by have := cost_cleared_le c now (~~~cmdqWaitsend); omega)

/-- Condensing leaves a command in front, or it has been given to the PLM. -/
theorem condense {q : Plm} (hc : ∀ cmd ∈ q.cmdfifo, Calm q cmd) (hapart : HeadApart q) (h : Queued v k q.cmdfifo) :
    Transmitted v q ∨ Queued v k (plmCondenseRunq q.cmdfifo) := by
  unfold HeadApart at hapart
  cases hq : q.cmdfifo with
  | nil =>
    rw [hq] at h
    exact Or.inr h
  | cons c rest =>
    rw [hq] at h hc hapart
    obtain ⟨hb, hstate⟩ := hc c List.mem_cons_self
    rw [List.tail_cons] at hapart
    rw [plmCondenseRunq_of_apart hb (hapart c rfl)]
    rcases h.of_cons with ⟨ha, hv⟩ | ⟨k', hk, l₁, cmd, l₂, rfl, ha, hv, hw⟩
    · exact Or.inr (head ha hv h.pos _)
    · by_cases he : c.cmd = cmd.cmd
      -- the head is a copy: it waits to be sent in the command's place, or it was sent
      · rcases hstate with hwait | harmed | ⟨-, ht⟩
        · exact absurd (he ▸ hwait) ha.command
        · exact Or.inr (head harmed (he.trans hv) h.pos _)
        · exact Or.inl (hv ▸ he ▸ ht)
      · refine Or.inr ?_
        rw [← hk]
        refine cons ⟨dropCopies c l₁, cmd, dropCopies c l₂, ?_, ha, hv, ?_⟩ c
        · have hkeep : cmd ∈ dropCopies c [cmd] := mem_dropCopies.mpr ⟨List.mem_singleton_self cmd, fun _ => he⟩
          unfold dropCopies at hkeep ⊢
          rw [List.filter_append]
          exact congrArg _ (List.filter_cons_of_pos (List.mem_filter.mp hkeep).2)
        · exact Nat.lt_of_le_of_lt (work_filter_le _ l₁) hw

end Queued

/-! ## One turn -/

/-- What is left of a queue that is run once and acknowledged: nothing was lost, and every command moved on. -/
structure Moved (now : Int) (q : Plm) (l : List CmdQ) (q' : Plm) : Prop where
  sent : q.sent ⊆ q'.sent
  calm : ∀ cmd ∈ ackHead now q'.cmdfifo, Calm q' cmd
  queued : ∀ v k, Queued v (k + 1) l → Transmitted v q' ∨ Queued v k (ackHead now q'.cmdfifo)

/-- The rest of a queue in which all is acknowledged runs. -/
theorem runqAgain_moved {now : Int} {q : Plm} {l : List CmdQ} (hc : ∀ cmd ∈ l, Calm q cmd) :
    ∃ q' e, runqAgain now q l = some (q', e) ∧ Moved now q l q' := by
  induction l with
  | nil =>
    refine ⟨{ q with cmdfifo := [] }, true, rfl, List.Subset.refl _, List.forall_mem_nil _, fun v k h => ?_⟩
    obtain ⟨l₁, cmd, l₂, hl, -⟩ := h
    exact absurd hl (by simp)
  | cons c rest ih =>
    rw [List.forall_mem_cons] at hc
    obtain ⟨⟨hb, hstate⟩, hrest⟩ := hc
    unfold runqAgain
    by_cases hw : c.cmd[0] = cmdqNopwait
    · have hcost : c.cost = c.sendcount.toNat + 1 := if_pos hw
      have hrest' : ∀ v k, Queued v (k + 1) (c :: rest) → ∃ k', c.cost + k' = k + 1 ∧ Queued v k' rest := fun v k h =>
        h.of_cons.resolve_left fun ha => ha.1.command hw
      rw [if_pos hw]
      split
      · refine ⟨_, _, rfl, List.Subset.refl _, calm_ackHead hrest now, fun v k h => Or.inr ?_⟩
        obtain ⟨k', hk, hq⟩ := hrest' v k h
        exact (hq.mono (by omega)).ackHead now
      · rename_i hcount
        have hcalm : Calm q { c with sendcount := c.sendcount - 1 } := ⟨hb.kept (Kept.counted c _), Or.inl hw⟩
        refine ⟨_, _, rfl, List.Subset.refl _, calm_ackHead (List.forall_mem_cons.mpr ⟨hcalm, hrest⟩) now, fun v k h => Or.inr ?_⟩
        obtain ⟨k', hk, hq⟩ := hrest' v k h
        have hcost' : CmdQ.cost { c with sendcount := c.sendcount - 1 } = c.sendcount.toNat := by
          have hpred : ∀ s : Octet, ¬ s ≤ 0 → (s - 1).toNat + 1 = s.toNat := by decide
          unfold CmdQ.cost
          rw [if_pos hw]
          exact hpred c.sendcount hcount
        exact ((hq.cons _).mono (by omega)).ackHead now
    · rw [if_neg hw]
      rcases hstate with hwait | ha | ⟨h0, ht⟩
      · exact absurd hwait hw
      · -- the head is sent
        have hmax : ¬ (c.state = 0 ∨ cmdqMaxSend < c.sendcount) := not_or.mpr ⟨ha.state_ne, BitVec.not_lt.mpr ha.count⟩
        rw [if_neg hmax, if_pos (ha.sendable hb)]
        have hsent : q.sent ⊆ (q.sendHead now c rest).sent := List.subset_append_left _ _
        have htrans : Transmitted c.cmd (q.sendHead now c rest) := by
          unfold Transmitted
          rw [← bytes_eq hb]
          simp [Plm.sendHead]
        have hacked : Calm (q.sendHead now c rest) ((c.fired now).cleared now (~~~cmdqWaitsend)) :=
          ⟨hb.kept ((Kept.fired c now).trans (Kept.cleared _ now _)), Or.inr (Or.inr ⟨state_acked c now, htrans⟩)⟩
        refine ⟨_, _, rfl, hsent, List.forall_mem_cons.mpr ⟨hacked, fun x hx => (hrest x hx).mono hsent⟩, fun v k h => ?_⟩
        rcases h.of_cons with ⟨-, hv⟩ | ⟨k', hk, hq⟩
        · exact Or.inl (hv ▸ htrans)
        · have hcost := ha.cost
          exact Or.inr ((hq.cons _).mono (by
            have : CmdQ.cost ((c.fired now).cleared now (~~~cmdqWaitsend)) = 0 := by
              unfold CmdQ.cost
              rw [if_neg (by exact hw), if_pos (state_acked c now)]
            omega))
      · -- the head is done
        rw [if_pos (Or.inl h0)]
        obtain ⟨q', e, hr, hm⟩ := ih hrest
        refine ⟨q', e, hr, hm.sent, hm.calm, fun v k h => ?_⟩
        rcases h.of_cons with ⟨ha, -⟩ | ⟨k', hk, hq⟩
        · exact absurd h0 ha.state_ne
        · exact hm.queued v k (hq.mono (by omega))

theorem cmdfifo_gotData (now : Int) (q : Plm) : plmcmdqGotData now (~~~cmdqWaitsend) q = { q with cmdfifo := ackHead now q.cmdfifo } := by
  obtain ⟨fifo⟩ := q
  cases fifo <;> rfl

/-- The timer fires, with the hub idle. -/
theorem turnStep_tick {q : Plm} (hc : ∀ cmd ∈ q.cmdfifo, Calm q cmd) (now : Int) : ∃ q', turnStep q (.tick now) = some q' ∧
    q.sent ⊆ q'.sent ∧ (∀ cmd ∈ q'.cmdfifo, Calm q' cmd) ∧
    (HeadApart q → ∀ v k, Queued v (k + 1) q.cmdfifo → Transmitted v q' ∨ Queued v k q'.cmdfifo) := by
  have hcalm : ∀ cmd ∈ plmCondenseRunq q.cmdfifo, Calm { q with hubhtmlstate := .idle } cmd := fun cmd hcmd =>
    hc cmd ((plmCondenseRunq_sublist _).subset hcmd)
  obtain ⟨q₁, e, hr, hm⟩ := @runqAgain_moved now _ _ hcalm
  have hrunq : plmRunq now { q with hubhtmlstate := .idle } = some (q₁, e) := by
    unfold plmRunq
    rw [if_neg (fun h => h.2 rfl)]
    exact hr
  refine ⟨{ q₁ with cmdfifo := ackHead now q₁.cmdfifo }, ?_, hm.sent, hm.calm, fun hapart v k hq => ?_⟩
  · simp only [turnStep, exec, plmStep, Option.bind_some, hrunq, Option.map_some, cmdfifo_gotData]
  · rcases hq.condense hc hapart with ht | hq
    · exact Or.inl (List.map_subset _ hm.sent ht)
    · exact hm.queued v k hq

theorem Fresh.armed_or_waits {cmd : CmdQ} (h : Fresh cmd) : (getElem cmd.cmd 0 cmdAt0) = cmdqNopwait ∨ Armed cmd := by
  by_cases hw : cmd.cmd[0] = cmdqNopwait
  · exact Or.inl hw
  · obtain ⟨hf, hcount⟩ := h.armed hw
    exact Or.inr ⟨hw, hf, by rw [hcount]; decide⟩

/-- A command is queued. -/
theorem turnStep_queue {q : Plm} (hc : ∀ cmd ∈ q.cmdfifo, Calm q cmd) {e : PlmEvent} (he : e.queues = true) :
    ∃ q', turnStep q (.queue e he) = some q' ∧ q'.sent = q.sent ∧ (∀ cmd ∈ q'.cmdfifo, Calm q' cmd) ∧
      ∃ l, q'.cmdfifo = q.cmdfifo ++ l := by
  have hsome : ∃ q', plmStep q e = some q' := by
    cases e with
    | enqStd | enqExt | enqStdcs | enqWait | getinfo | getconf | setconf | getplmAldb | allLink => exact ⟨_, rfl⟩
    | _ => cases he
  obtain ⟨q', hq'⟩ := hsome
  obtain ⟨cmd, rfl, -, hfresh⟩ := plmStep_queues hq' he
  refine ⟨_, hq', rfl, fun c hcmem => ?_, [cmd], rfl⟩
  rcases List.mem_append.mp hcmem with hcmem | hcmem
  · exact (hc c hcmem).mono (List.Subset.refl _)
  · rw [List.mem_singleton.mp hcmem]
    exact ⟨⟨cmd, hfresh, Kept.refl cmd⟩, hfresh.armed_or_waits.imp_right Or.inl⟩

/-! ## Runs -/

/-- A queue in which all is acknowledged runs on, and where the head is always apart, all that has waited long enough was sent. -/
theorem turns_transmit {q : Plm} (hc : ∀ cmd ∈ q.cmdfifo, Calm q cmd) (ts : List Turn) : ∃ q', exec turnStep q ts = some q' ∧
    (∀ cmd ∈ q'.cmdfifo, Calm q' cmd) ∧ (Along turnStep (OnTick HeadApart) q ts →
      ∀ v, Transmitted v q ∨ Queued v (ticks ts) q.cmdfifo → Transmitted v q') := by
  induction ts generalizing q with
  | nil =>
    refine ⟨q, rfl, hc, fun _ v h => h.resolve_right fun hq => ?_⟩
    exact absurd hq.pos (Nat.lt_irrefl 0)
  | cons t ts ih =>
    cases t with
    | queue e he =>
      obtain ⟨q₁, hs, hsent, hc₁, l, hl⟩ := turnStep_queue hc he
      obtain ⟨q', hq', hc', hall⟩ := ih hc₁
      refine ⟨q', exec_cons_eq_some.mpr ⟨q₁, hs, hq'⟩, hc', fun hok v h => hall (hok q₁ hs).2 v ?_⟩
      rcases h with h | h
      · refine Or.inl ?_
        unfold Transmitted
        rw [hsent]
        exact h
      · rw [hl]
        exact Or.inr (h.append l)
    | tick now =>
      obtain ⟨q₁, hs, hsent, hc₁, hmoved⟩ := turnStep_tick hc now
      obtain ⟨q', hq', hc', hall⟩ := ih hc₁
      refine ⟨q', exec_cons_eq_some.mpr ⟨q₁, hs, hq'⟩, hc', fun hok v h => ?_⟩
      obtain ⟨hapart, hok⟩ := hok q₁ hs
      refine hall hok v ?_
      rcases h with h | h
      · exact Or.inl (List.map_subset _ hsent h)
      · have hticks : ticks (.tick now :: ts) = ticks ts + 1 := List.countP_cons_of_pos rfl
        exact hmoved hapart v (ticks ts) (hticks ▸ h)

/-- A command of a queue is sent, or waits to be with less in front of it than the work of the whole queue. -/
theorem Calm.queued {q : Plm} {cmd : CmdQ} (hc : ∀ cmd ∈ q.cmdfifo, Calm q cmd) (hmem : cmd ∈ q.cmdfifo)
    (hw : (getElem cmd.cmd 0 cmdAt0) ≠ cmdqNopwait) : Transmitted cmd.cmd q ∨ Queued cmd.cmd (work q.cmdfifo) q.cmdfifo := by
  rcases (hc cmd hmem).2 with hwait | ha | ⟨-, ht⟩
  · exact absurd hwait hw
  · obtain ⟨l₁, l₂, hl⟩ := List.append_of_mem hmem
    refine Or.inr ⟨l₁, cmd, l₂, hl, ha, rfl, ?_⟩
    have hcost := ha.cost
    rw [hl, work_append, work_cons]
    omega
  · exact Or.inl ht

/-- In every queue that is run with all commands acknowledged, condensing keeps every command whenever the timer fires, and every
command is sent once the timer has fired often enough, exactly when at each of these times no command agrees with the head by
halves. -/
theorem condense_keeps_iff {plmtype : PlmType} {ts₀ : List Turn} {q : Plm} (hq : exec turnStep (plmStartup plmtype) ts₀ = some q)
    (ts : List Turn) :
    (Along turnStep (OnTick CondenseKeeps) q ts ∧ ∃ q', exec turnStep q ts = some q' ∧ (work q.cmdfifo ≤ ticks ts →
      ∀ cmd ∈ q.cmdfifo, (getElem cmd.cmd 0 cmdAt0) ≠ cmdqNopwait → cmd.bytes ∈ q'.sent.map Prod.snd)) ↔
    Along turnStep (OnTick HeadApart) q ts := by
  obtain ⟨q₁, hq₁, hc, -⟩ := turns_transmit (q := plmStartup plmtype) (List.forall_mem_nil _) ts₀
  cases hq.symm.trans hq₁
  have hiff : Along turnStep (OnTick CondenseKeeps) q ts ↔ Along turnStep (OnTick HeadApart) q ts := by
    refine along_congr_of (I := fun q => ∀ cmd ∈ q.cmdfifo, Calm q cmd) (Q := fun _ => True) ?_ ?_ hc fun _ _ => trivial
    · intro q t q' _ hI hst
      cases t with
      | queue e he =>
        obtain ⟨q'', hs, -, hc', -⟩ := turnStep_queue hI he
        cases hst.symm.trans hs
        exact hc'
      | tick now =>
        obtain ⟨q'', hs, -, hc', -⟩ := turnStep_tick hI now
        cases hst.symm.trans hs
        exact hc'
    · intro q t q' _ hI _
      cases t with
      | queue e he => exact Iff.rfl
      | tick now => exact condenseKeeps_iff fun cmd hcmd => (hI cmd hcmd).1
  rw [hiff]
  refine ⟨And.left, fun hok => ⟨hok, ?_⟩⟩
  obtain ⟨q', hq', -, hall⟩ := turns_transmit hc ts
  refine ⟨q', hq', fun hlong cmd hmem hw => ?_⟩
  rw [bytes_eq (hc cmd hmem).1]
  refine hall hok cmd.cmd ?_
  exact (Calm.queued hc hmem hw).imp_right fun h => h.mono hlong

/-- A lamp and the PLM are asked one after the other. -/
theorem condense_keeps_iff_lamp : ∃ q,
    exec turnStep (plmStartup .serial) [.queue (.enqStd lamp 0x19 0 cmdqWaitackdata) rfl, .queue .getinfo rfl] = some q ∧
      Along turnStep (OnTick CondenseKeeps) q [.tick 0, .tick 1] ∧ ∃ q', exec turnStep q [.tick 0, .tick 1] = some q' ∧
        (work q.cmdfifo ≤ 2 → ∀ cmd ∈ q.cmdfifo, (getElem cmd.cmd 0 cmdAt0) ≠ cmdqNopwait → cmd.bytes ∈ q'.sent.map Prod.snd) :=
  ⟨_, rfl, (@condense_keeps_iff .serial [.queue (.enqStd lamp 0x19 0 cmdqWaitackdata) rfl, .queue .getinfo rfl] _ rfl
    [.tick 0, .tick 1]).mpr (by decide)⟩

/-! ## Writing records -/

/-- The records of a device are queued in turns without the timer. -/
theorem writeAldbRecords_turns {is : List Nat} {dev dev' : PlmDevice} {q q' : Plm}
    (h : writeAldbRecords is dev q = .ok (dev', q')) : ∃ ts, ticks ts = 0 ∧ exec turnStep q ts = some q' := by
  induction is generalizing dev q with
  | nil =>
    cases h
    exact ⟨[], rfl, rfl⟩
  | cons i is ih =>
    unfold writeAldbRecords plmWriteAldbRecord at h
    split at h
    · exact ih h
    · split at h
      · obtain ⟨ts, ht, hts⟩ := ih h
        exact ⟨.queue (.enqExt _ _ _ _ _) rfl :: ts, ht, exec_cons_eq_some.mpr ⟨_, rfl, hts⟩⟩
      · cases h

theorem plmWriteAldb_turns {dev dev' : PlmDevice} {q q' : Plm} (h : plmWriteAldb dev q = .ok (dev', q')) :
    ∃ ts, ticks ts = 0 ∧ exec turnStep q ts = some q' := writeAldbRecords_turns h

/-- A lamp with two records. -/
def linkedLamp : PlmDevice :=
  { lamp with
    dd := { lamp.dd with
      aldb := (lamp.dd.aldb.set 0 { lflags := 0xE2, group := 1, devaddr := #v[0x10, 0x20, 0x30] } aldbAt0).set 1
        { lflags := 0xA2, group := 1, devaddr := #v[0x10, 0x20, 0x31] } aldbAt1
      aldblen := 2 } }

/-- The two records of a lamp are written: condensing loses the first, and it is never sent. -/
theorem condense_loses_record : ∃ dev q q', plmWriteAldb linkedLamp (plmStartup .serial) = .ok (dev, q) ∧ ¬ CondenseKeeps q ∧
    exec turnStep q [.tick 0, .tick 1, .tick 2] = some q' ∧ q'.cmdfifo = [] ∧ work q.cmdfifo ≤ 3 ∧
    ¬ ∀ cmd ∈ q.cmdfifo, (getElem cmd.cmd 0 cmdAt0) ≠ cmdqNopwait → cmd.bytes ∈ q'.sent.map Prod.snd :=
  ⟨_, _, _, rfl, by decide, rfl, by decide, by decide, by decide⟩

end Gnhast.Insteon
