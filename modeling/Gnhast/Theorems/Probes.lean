import Gnhast.Theorems.Counters

/-!
# The probes of a monitor

The answers to `RQSTST` and `RQSPST` say with one character for each probe which are enabled, from the last probe to the first. The loop
over them counts down from the number of probes, and ends before zero; `calc_devices` and the handlers of packets count up from zero.
-/

namespace Gnhast.Brulcoll

open CStr Collect Runs

/-! ## Bits -/

/-- To add a bit that is not set sets it. -/
theorem getLsbD_add_bit {v : BitVec 32} {t : Nat} (ht : t < 32) (hv : v.getLsbD t = false) (i : Nat) :
    (v + 1#32 <<< t).getLsbD i = true ↔ i = t ∨ v.getLsbD i = true := by
  have hbit : ∀ j, (1#32 <<< t).getLsbD j = (decide (j = t)) := by
    intro j
    rw [← BitVec.twoPow_eq, BitVec.getLsbD_twoPow, decide_eq_true ht, Bool.true_and]
    exact decide_eq_decide.mpr eq_comm
  have hand : v &&& 1#32 <<< t = 0#32 := by
    refine BitVec.eq_of_getLsbD_eq fun j _ => ?_
    rw [BitVec.getLsbD_and, hbit, BitVec.getLsbD_zero]
    by_cases hj : j = t
    · rw [hj, hv, Bool.false_and]
    · rw [decide_eq_false hj, Bool.and_false]
  rw [BitVec.add_eq_or_of_and_eq_zero v _ hand, BitVec.getLsbD_or, hbit, Bool.or_eq_true, decide_eq_true_iff]
  exact or_comm

/-- The bits of the probes. -/
def Probe.valid (probe : Probe) (brulconf : Brulconf) : BitVec 32 :=
  match probe with
  | tst => brulconf.validtemp
  | pst => brulconf.validpulse

/-! ## The answer -/

/-- An answer up to where its line ends. -/
def line (data : Str) : Str := data.takeWhile fun c => !decide (c = chNul ∨ c = chCr ∨ c = chLf)

/-- One of the first characters of an answer enables a probe. -/
def Enabled (t : Nat) (data : Str) (k : Nat) : Prop := k < t ∧ ∃ c ∈ (line data)[k]?, c ≠ 48

theorem not_enabled_of_stop {t : Nat} {c : Byte} {data : Str} (h : t = 0 ∨ c = chNul ∨ c = chCr ∨ c = chLf) (k : Nat) :
    ¬ Enabled t (c :: data) k := by
  rintro ⟨hk, c', hc', -⟩
  rcases h with rfl | h
  · exact Nat.not_lt_zero k hk
  · unfold line at hc'
    rw [List.takeWhile_cons, decide_eq_true h] at hc'
    exact nomatch hc'

/-- The first character is about the probe `t`, and the rest of the answer about those below. -/
theorem exists_enabled_cons {t : Nat} {c : Byte} {data : Str} (h : ¬ (t = 0 ∨ c = chNul ∨ c = chCr ∨ c = chLf)) (P : Nat → Prop) :
    (∃ k, Enabled t (c :: data) k ∧ P (t - k)) ↔ c ≠ 48 ∧ P t ∨ ∃ k, Enabled (t - 1) data k ∧ P (t - 1 - k) := by
  obtain ⟨ht, hc⟩ := not_or.mp h
  have hline : line (c :: data) = c :: line data := by
    unfold line
    rw [List.takeWhile_cons, decide_eq_false hc]
    rfl
  unfold Enabled
  rw [hline]
  constructor
  · rintro ⟨k, ⟨hk, c', hc', hne⟩, hP⟩
    cases k with
    | zero =>
      cases hc'
      exact .inl ⟨hne, hP⟩
    | succ k => exact .inr ⟨k, ⟨by omega, c', hc', hne⟩, by rwa [Nat.sub_sub, Nat.add_comm 1 k]⟩
  · rintro (⟨hne, hP⟩ | ⟨k, ⟨hk, c', hc', hne⟩, hP⟩)
    · exact ⟨0, ⟨by omega, c, rfl, hne⟩, hP⟩
    · refine ⟨k + 1, ⟨by omega, c', hc', hne⟩, ?_⟩
      rwa [Nat.sub_sub, Nat.add_comm 1 k] at hP

/-! ## The loop -/

/-- An answer has been gone through: its probes have their bits and their devices. -/
structure Scanned (probe : Probe) (t : Nat) (data : Str) (coll coll' : BrulColl) : Prop where
  serial : coll'.brulconf.serial = coll.brulconf.serial
  valid : ∀ i, (probe.valid coll'.brulconf).getLsbD i = true ↔
    (probe.valid coll.brulconf).getLsbD i = true ∨ ∃ k, Enabled t data k ∧ i = t - k
  others : ∀ probe' ≠ probe, probe'.valid coll'.brulconf = probe'.valid coll.brulconf
  devices : ∀ uid, coll'.devices uid ≠ none ↔
    coll.devices uid ≠ none ∨ ∃ k, Enabled t data k ∧ uid = probe.uid coll.brulconf.serial (t - k)

variable (env : BrulEnv)

theorem addDevice_devices_iff (coll : BrulColl) (uid : Str) (subtype scale : BitVec 8) (uid' : Str) :
    (coll.addDevice env uid subtype scale).devices uid' ≠ none ↔ coll.devices uid' ≠ none ∨ uid' = uid := by
  obtain ⟨hgrows, hin⟩ := addDevice_grows env coll uid subtype scale
  constructor
  · intro h
    by_cases he : uid' = uid
    · exact .inr he
    · refine .inl ?_
      unfold BrulColl.addDevice BrulColl.insertDevice at h
      cases hdev : coll.devices uid with
      | some dev =>
        rw [hdev] at h
        exact h
      | none =>
        rw [hdev] at h
        dsimp only at h
        rwa [Function.update_of_ne he] at h
  · rintro (h | rfl)
    · exact hgrows.keeps uid' h
    · exact hin

/-- A probe that is enabled gets its bit and its device. -/
theorem enable_spec {coll : BrulColl} {probe : Probe} {t : Nat} (ht : t < 32) (hv : (probe.valid coll.brulconf).getLsbD t = false) :
    (coll.enable env probe t).brulconf.serial = coll.brulconf.serial ∧
    (∀ i, (probe.valid (coll.enable env probe t).brulconf).getLsbD i = true ↔ i = t ∨ (probe.valid coll.brulconf).getLsbD i = true) ∧
    (∀ probe' ≠ probe, probe'.valid (coll.enable env probe t).brulconf = probe'.valid coll.brulconf) ∧
    ∀ uid, (coll.enable env probe t).devices uid ≠ none ↔ coll.devices uid ≠ none ∨ uid = probe.uid coll.brulconf.serial t := by
  unfold BrulColl.enable
  dsimp only
  cases probe with
  | tst =>
    dsimp only
    rw [(addDevice_grows env _ _ 3 env.tempscale).1.conf]
    refine ⟨rfl, getLsbD_add_bit ht hv, fun probe' hne => ?_, addDevice_devices_iff env _ _ _ _⟩
    cases probe' with
    | tst => exact absurd rfl hne
    | pst => rfl
  | pst =>
    dsimp only
    rw [(addDevice_grows env _ _ 5 0).1.conf]
    refine ⟨rfl, getLsbD_add_bit ht hv, fun probe' hne => ?_, addDevice_devices_iff env _ _ _ _⟩
    cases probe' with
    | tst => rfl
    | pst => exact absurd rfl hne

theorem tstpstLoop_scanned (probe : Probe) (data : Str) {t : Nat} (ht : t < 32) {coll : BrulColl}
    (hv : ∀ i ≤ t, (probe.valid coll.brulconf).getLsbD i = false) : Scanned probe t data coll (tstpstLoop env probe t data coll) := by
  induction data generalizing t coll with
  | nil =>
    refine ⟨rfl, fun i => ?_, fun _ _ => rfl, fun uid => ?_⟩
    · exact (or_iff_left fun ⟨k, ⟨_, _, hc, _⟩, _⟩ => nomatch hc).symm
    · exact (or_iff_left fun ⟨k, ⟨_, _, hc, _⟩, _⟩ => nomatch hc).symm
  | cons c data ih =>
    unfold tstpstLoop
    split
    · rename_i hstop
      refine ⟨rfl, fun i => ?_, fun _ _ => rfl, fun uid => ?_⟩
      · exact (or_iff_left fun ⟨k, hk, _⟩ => not_enabled_of_stop hstop k hk).symm
      · exact (or_iff_left fun ⟨k, hk, _⟩ => not_enabled_of_stop hstop k hk).symm
    · rename_i hgo
      split
      · rename_i hzero
        have h := ih (t := t - 1) (by omega) fun i hi => hv i (by omega)
        refine ⟨h.serial, fun i => ?_, h.others, fun uid => ?_⟩
        · rw [h.valid, exists_enabled_cons hgo fun n => i = n, or_iff_right (a := c ≠ 48 ∧ _) fun hn => hn.1 hzero]
        · rw [h.devices, exists_enabled_cons hgo fun n => uid = probe.uid coll.brulconf.serial n,
            or_iff_right (a := c ≠ 48 ∧ _) fun hn => hn.1 hzero]
      · rename_i hone
        obtain ⟨hserial, hvalid, hothers, hdevices⟩ := enable_spec env ht (hv t (Nat.le_refl t))
        have hlow : ∀ i ≤ t - 1, (probe.valid (coll.enable env probe t).brulconf).getLsbD i = false := by
          intro i hi
          rw [Bool.eq_false_iff, Ne, hvalid, hv i (by omega)]
          rintro (rfl | h)
          · exact hgo (.inl (by omega))
          · exact nomatch h
        have h := ih (t := t - 1) (by omega) hlow
        refine ⟨h.serial.trans hserial, fun i => ?_, fun probe' hne => (h.others probe' hne).trans (hothers probe' hne), fun uid => ?_⟩
        · rw [h.valid, hvalid, exists_enabled_cons hgo fun n => i = n, or_comm (a := i = t), or_assoc, and_iff_right hone]
        · rw [h.devices, hdevices, hserial, exists_enabled_cons hgo fun n => uid = probe.uid coll.brulconf.serial n, or_assoc,
            and_iff_right hone]

/-- The answer starts with no bit set. -/
theorem brulAnswerTstpst_scanned (data : Str) (probe : Probe) (coll : BrulColl) :
    (brulAnswerTstpst env data probe coll).brulconf.serial = coll.brulconf.serial ∧
    (∀ i, (probe.valid (brulAnswerTstpst env data probe coll).brulconf).getLsbD i = true ↔
      ∃ k, Enabled probe.count data k ∧ i = probe.count - k) ∧
    (∀ probe' ≠ probe, probe'.valid (brulAnswerTstpst env data probe coll).brulconf = probe'.valid coll.brulconf) ∧
    ∀ uid, (brulAnswerTstpst env data probe coll).devices uid ≠ none ↔
      coll.devices uid ≠ none ∨ ∃ k, Enabled probe.count data k ∧ uid = probe.uid coll.brulconf.serial (probe.count - k) := by
  unfold brulAnswerTstpst brulHandleTstpst
  cases probe with
  | tst =>
    have h := @tstpstLoop_scanned env .tst data Probe.tst.count (by decide) { coll with brulconf.validtemp := 0 }
      fun i _ => BitVec.getLsbD_zero
    refine ⟨h.serial, fun i => (h.valid i).trans (or_iff_right (by simp [Probe.valid])), fun probe' hne => ?_, h.devices⟩
    cases probe' with
    | tst => exact absurd rfl hne
    | pst => exact h.others .pst hne
  | pst =>
    have h := @tstpstLoop_scanned env .pst data Probe.pst.count (by decide) { coll with brulconf.validpulse := 0 }
      fun i _ => BitVec.getLsbD_zero
    refine ⟨h.serial, fun i => (h.valid i).trans (or_iff_right (by simp [Probe.valid])), fun probe' hne => ?_, h.devices⟩
    cases probe' with
    | tst => exact h.others .tst hne
    | pst => exact absurd rfl hne

/-! ## The devices that are updated -/

theorem brulUid_inj {serial : BitVec 32} {what what' : Str} (h : brulUid serial what = brulUid serial what') : what = what' :=
  (List.cons.inj (List.append_cancel_left h)).2

theorem Probe.uid_inj {probe : Probe} {serial : BitVec 32} {t t' : Nat} (h : probe.uid serial t = probe.uid serial t') : t = t' := by
  cases probe with
  | tst => exact decNat_inj (List.append_cancel_left (brulUid_inj h))
  | pst => exact decNat_inj (List.append_cancel_left (brulUid_inj h))

/-- What a device is for begins with its letter. -/
def Lettered (serial : BitVec 32) (letter : Byte) (uid : Str) : Prop := ∃ rest, uid = brulUid serial (letter :: rest)

theorem Lettered.unique {serial : BitVec 32} {a b : Byte} {uid : Str} (h : Lettered serial a uid) (h' : Lettered serial b uid) :
    a = b := by
  obtain ⟨rest, rfl⟩ := h
  obtain ⟨rest', h'⟩ := h'
  exact (List.cons.inj (brulUid_inj h')).1

/-- The letter of a probe. -/
def Probe.letter : Probe → Byte
  | tst => 116
  | pst => 112

theorem Probe.lettered (probe : Probe) (serial : BitVec 32) (t : Nat) : Lettered serial probe.letter (probe.uid serial t) := by
  cases probe with
  | tst => exact ⟨decNat t, rfl⟩
  | pst => exact ⟨decNat t, rfl⟩

theorem mem_calcProbes {n : Nat} {coll : BrulColl} {probe : Probe} {valid : BitVec 32} {val : Fin n → BrulVal} {u : BrulUpd} :
    u ∈ calcProbes coll probe valid val ↔ ∃ i : Fin n, valid.getLsbD i = true ∧
      coll.devices (probe.uid coll.brulconf.serial i) ≠ none ∧ u = ⟨probe.uid coll.brulconf.serial i, val i⟩ := by
  unfold calcProbes
  rw [List.mem_filterMap]
  constructor
  · rintro ⟨i, -, hi⟩
    split at hi
    · rename_i hbit
      exact ⟨i, hbit, update_eq_some.mp hi⟩
    · exact nomatch hi
  · rintro ⟨i, hbit, hu⟩
    refine ⟨i, List.mem_finRange i, ?_⟩
    rw [if_pos hbit]
    exact update_eq_some.mpr hu

/-- The devices of probes that `calc_devices` updates are those in the tree whose bits are among the first. -/
theorem probe_updated_iff {coll : BrulColl} {upds : List BrulUpd} (h : calcDevices coll = .ok upds) (probe : Probe) (t : Nat) :
    (∃ u ∈ upds, u.uid = probe.uid coll.brulconf.serial t) ↔ t < probe.count ∧
      (probe.valid coll.brulconf).getLsbD t = true ∧ coll.devices (probe.uid coll.brulconf.serial t) ≠ none := by
  obtain ⟨counts, hcounts, h⟩ := calcDevices_eq_ok.mp h
  have hnow : ∀ u ∈ upds, u ∈ calcNow coll counts ∨ Lettered coll.brulconf.serial 119 u.uid := by
    intro u hu
    by_cases hs : coll.data.prev.seconds = 0
    · rw [if_pos hs] at h
      exact .inl (h ▸ hu)
    · rw [if_neg hs] at h
      obtain ⟨watts, hw, rfl⟩ := h
      refine (List.mem_append.mp hu).imp_right fun hu => ?_
      obtain ⟨i, -, hi⟩ := (mem_collect hw).mp hu
      obtain ⟨-, -, rfl⟩ := calcWatts_eq_some.mp hi
      exact ⟨padNat 2 i, rfl⟩
  have hsub : ∀ u ∈ calcNow coll counts, u ∈ upds := by
    intro u hu
    by_cases hs : coll.data.prev.seconds = 0
    · rw [if_pos hs] at h
      exact h ▸ hu
    · rw [if_neg hs] at h
      obtain ⟨watts, -, rfl⟩ := h
      exact List.mem_append_left _ hu
  have hletter := probe.lettered coll.brulconf.serial t
  constructor
  · rintro ⟨⟨uid, val⟩, hu, rfl : uid = probe.uid coll.brulconf.serial t⟩
    rcases hnow _ hu with hu | hw
    · unfold calcNow at hu
      simp only [List.mem_append, Option.mem_toList, update_eq_some, mem_calcProbes] at hu
      simp only [BrulUpd.mk.injEq] at hu
      rcases hu with (((hu | ⟨i, hbit, hdev, huid, -⟩) | ⟨i, hbit, hdev, huid, -⟩) | ⟨-, huid, -⟩) | ⟨-, huid, -⟩
      · obtain ⟨i, -, hi⟩ := (mem_collect hcounts).mp hu
        unfold calcCount at hi
        dsimp only at hi
        split at hi
        · exact nomatch hi
        · obtain ⟨w, -, hw⟩ := Except.map_eq_ok.mp hi
          have hc := hletter.unique ⟨padNat 2 i, (BrulUpd.mk.inj (update_eq_some.mp hw).2).1⟩
          cases probe <;> exact absurd hc (by decide)
      · have hc := hletter.unique (huid ▸ Probe.tst.lettered _ _)
        cases probe with
        | tst =>
          cases Probe.uid_inj huid
          exact ⟨i.isLt, hbit, hdev⟩
        | pst => exact absurd hc (by decide)
      · have hc := hletter.unique (huid ▸ Probe.pst.lettered _ _)
        cases probe with
        | tst => exact absurd hc (by decide)
        | pst =>
          cases Probe.uid_inj huid
          exact ⟨i.isLt, hbit, hdev⟩
      · have hc := hletter.unique ⟨str "olt", huid⟩
        cases probe <;> exact absurd hc (by decide)
      · have hc := hletter.unique ⟨str "ec", huid⟩
        cases probe <;> exact absurd hc (by decide)
    · have hc := hletter.unique hw
      cases probe <;> exact absurd hc (by decide)
  · rintro ⟨ht, hbit, hdev⟩
    cases probe with
    | tst =>
      refine ⟨⟨Probe.tst.uid coll.brulconf.serial t, .real (coll.data.cur.temp ⟨t, ht⟩)⟩, hsub _ ?_, rfl⟩
      unfold calcNow
      simp only [List.mem_append, mem_calcProbes]
      exact .inl (.inl (.inl (.inr ⟨⟨t, ht⟩, hbit, hdev, rfl⟩)))
    | pst =>
      refine ⟨⟨Probe.pst.uid coll.brulconf.serial t, .int (coll.data.cur.pulse ⟨t, ht⟩)⟩, hsub _ ?_, rfl⟩
      unfold calcNow
      simp only [List.mem_append, mem_calcProbes]
      exact .inl (.inl (.inr ⟨⟨t, ht⟩, hbit, hdev, rfl⟩))

/-! ## The numbers of the probes -/

variable (F : Doubles) (littleE : Bool)

/-- The handlers of packets store what a packet has for a probe. -/
def Probe.Read (probe : Probe) (brulconf : Brulconf) (n : Nat) : Prop :=
  ∃ h : n < probe.count, ∀ (c r t : Nat) (temp16 : Bool → BitVec 16 → BitVec 16) (b b' : Brul),
    ((GemPolar.layout c r t).decode b.input).footer 0 = 0xFF ∧ ((GemPolar.layout c r t).decode b.input).footer 1 = 0xFE →
    brulHandlePolar F littleE c r t temp16 brulconf b = .ok b' →
      match probe, h with
      | .tst, h =>
        b'.cur.temp ⟨n, h⟩ = (temp16 littleE (uint16 littleE (((GemPolar.layout c r t).decode b.input).temp ⟨n, h⟩))).toNat / 2
      | .pst, h => b'.cur.pulse ⟨n, h⟩ = (convThree (((GemPolar.layout c r t).decode b.input).pulse ⟨n, h⟩)).setWidth 32

theorem Probe.read_of_bit {probe : Probe} {brulconf : Brulconf} {n : Nat} (h : n < probe.count)
    (hbit : (probe.valid brulconf).getLsbD n = true) : probe.Read F littleE brulconf n := by
  refine ⟨h, fun c r t temp16 b b' hfoot hb => ?_⟩
  unfold brulHandlePolar at hb
  dsimp only at hb
  rw [if_neg (by simp [hfoot])] at hb
  obtain ⟨d, -, rfl⟩ := Except.map_eq_ok.mp hb
  cases probe with
  | tst => exact if_pos hbit
  | pst => exact if_pos hbit

/-- What the collector may have become after an answer about its probes. -/
structure Later (probe : Probe) (coll coll' : BrulColl) : Prop where
  serial : coll'.brulconf.serial = coll.brulconf.serial
  valid : probe.valid coll'.brulconf = probe.valid coll.brulconf
  keeps : ∀ uid, coll.devices uid ≠ none → coll'.devices uid ≠ none

theorem Later.trans {probe : Probe} {c c' c'' : BrulColl} (h : Later probe c c') (h' : Later probe c' c'') : Later probe c c'' :=
  ⟨h'.serial.trans h.serial, h'.valid.trans h.valid, fun uid hu => h'.keeps uid (h.keeps uid hu)⟩

theorem later_brulStep (probe : Probe) {coll coll' : BrulColl} {packet : Fmt × List (BitVec 8)}
    (h : brulStep F littleE coll packet = some coll') : Later probe coll coll' := by
  obtain ⟨b, -, -, rfl⟩ := (brulStep_eq_some F littleE).mp h
  exact ⟨rfl, rfl, fun _ hu => hu⟩

/-- Packets leave what the answers have set up. -/
theorem later_packets (probe : Probe) {coll coll' : BrulColl} {packets : List (Fmt × List (BitVec 8))}
    (h : exec (brulStep F littleE) coll packets = some coll') : Later probe coll coll' :=
  exec_induct (I := Later probe coll) (fun _ _ _ hl hs => hl.trans (later_brulStep F littleE probe hs)) ⟨rfl, rfl, fun _ hu => hu⟩ h

theorem later_brulAnswerCmx (probe : Probe) (data : Str) (coll : BrulColl) : Later probe coll (brulAnswerCmx env data coll) := by
  unfold brulAnswerCmx
  dsimp only
  obtain ⟨hgrows, -⟩ := brulBuildDevices_grows env (atoi data).toInt.toNat { coll with brulconf.nrofchannels := atoi data }
  refine ⟨by rw [hgrows.conf], ?_, hgrows.keeps⟩
  rw [hgrows.conf]
  cases probe <;> rfl

theorem later_brulAnswerTstpst {probe probe' : Probe} (hne : probe ≠ probe') (data : Str) (coll : BrulColl) :
    Later probe coll (brulAnswerTstpst env data probe' coll) := by
  obtain ⟨hserial, -, hothers, hdevices⟩ := brulAnswerTstpst_scanned env data probe' coll
  exact ⟨hserial, hothers probe hne, fun uid hu => (hdevices uid).mpr (.inl hu)⟩

/-- The probes that an answer enables, under some numbers, are those whose devices are made, whose bits are set, whose entries are read, and
that `calc_devices` updates from then on. -/
structure LinedUp (number : Nat → Nat) (data : Str) (probe : Probe) (coll : BrulColl) : Prop where
  devices : ∀ uid, (brulAnswerTstpst env data probe coll).devices uid ≠ none ↔
    coll.devices uid ≠ none ∨ ∃ k, Enabled probe.count data k ∧ uid = probe.uid coll.brulconf.serial (number k)
  bits : ∀ k, Enabled probe.count data k → (probe.valid (brulAnswerTstpst env data probe coll).brulconf).getLsbD (number k) = true
  outside : ∀ i, probe.count ≤ i → (probe.valid (brulAnswerTstpst env data probe coll).brulconf).getLsbD i = false
  read : ∀ coll', Later probe (brulAnswerTstpst env data probe coll) coll' → ∀ k, Enabled probe.count data k →
    probe.Read F littleE coll'.brulconf (number k)
  updated : ∀ coll', Later probe (brulAnswerTstpst env data probe coll) coll' → ∀ upds, calcDevices coll' = .ok upds →
    ∀ t, (∃ u ∈ upds, u.uid = probe.uid coll.brulconf.serial t) ↔ ∃ k, Enabled probe.count data k ∧ number k = t

/-- With the numbers of the loop, all but the first character line up. -/
theorem linedUp_of_not_enabled {data : Str} {probe : Probe} (coll : BrulColl) (h0 : ¬ Enabled probe.count data 0) :
    LinedUp env F littleE (fun k => probe.count - k) data probe coll := by
  obtain ⟨hserial, hvalid, -, hdevices⟩ := brulAnswerTstpst_scanned env data probe coll
  have hlt : ∀ k, Enabled probe.count data k → probe.count - k < probe.count := by
    intro k hk
    have hpos : k ≠ 0 := fun h => h0 (h ▸ hk)
    have := hk.1
    omega
  have hbits : ∀ k, Enabled probe.count data k →
      (probe.valid (brulAnswerTstpst env data probe coll).brulconf).getLsbD (probe.count - k) = true :=
    fun k hk => (hvalid _).mpr ⟨k, hk, rfl⟩
  refine ⟨hdevices, hbits, fun i hi => ?_, fun coll' hl k hk => ?_, fun coll' hl upds hupds t => ?_⟩
  · rw [Bool.eq_false_iff, Ne, hvalid]
    rintro ⟨k, hk, rfl⟩
    exact absurd (hlt k hk) (by omega)
  · refine Probe.read_of_bit F littleE (hlt k hk) ?_
    rw [hl.valid]
    exact hbits k hk
  · rw [← hserial, ← hl.serial, probe_updated_iff hupds, hl.valid, hl.serial, hserial]
    constructor
    · rintro ⟨-, hbit, -⟩
      obtain ⟨k, hk, rfl⟩ := (hvalid t).mp hbit
      exact ⟨k, hk, rfl⟩
    · rintro ⟨k, hk, rfl⟩
      exact ⟨hlt k hk, hbits k hk, hl.keeps _ ((hdevices _).mpr (.inr ⟨k, hk, rfl⟩))⟩

/-- The first character sets a bit that none of the loops over the probes looks at. -/
theorem not_enabled_of_outside {data : Str} {probe : Probe} {coll : BrulColl}
    (h : ∀ i, probe.count ≤ i → (probe.valid (brulAnswerTstpst env data probe coll).brulconf).getLsbD i = false) :
    ¬ Enabled probe.count data 0 := by
  intro h0
  have hbit := ((brulAnswerTstpst_scanned env data probe coll).2.1 probe.count).mpr ⟨0, h0, rfl⟩
  rw [h probe.count (Nat.le_refl _)] at hbit
  exact nomatch hbit

/-- Where probes are numbered from zero on from the last character, the probe before the last that is enabled has no bit. -/
theorem not_enabled_of_bits {data : Str} {probe : Probe} {coll : BrulColl}
    (h : ∀ k, Enabled probe.count data k →
      (probe.valid (brulAnswerTstpst env data probe coll).brulconf).getLsbD (probe.count - 1 - k) = true) (k : Nat) :
    ¬ Enabled probe.count data k := by
  intro hk
  -- each enabled character is followed by another one, and there is an end to them
  have hnext : ∀ k, Enabled probe.count data k → Enabled probe.count data (k + 1) := by
    intro k hk
    obtain ⟨k', hk', he⟩ := ((brulAnswerTstpst_scanned env data probe coll).2.1 _).mp (h k hk)
    have hlt := hk.1
    have hlt' := hk'.1
    rwa [show k + 1 = k' by omega]
  have hall : ∀ n, Enabled probe.count data (k + n) := by
    intro n
    induction n with
    | zero => exact hk
    | succ n ih => exact hnext _ ih
  exact absurd (hall probe.count).1 (by omega)

/-- For every answer: there are numbers under which it lines up with the loops exactly when its first character enables nothing, and it
lines up with the probes numbered from zero on from the last character exactly when it enables no probe. -/
theorem probes_linedUp_iff (data : Str) (probe : Probe) (coll : BrulColl) :
    ((∃ number, LinedUp env F littleE number data probe coll) ↔ ¬ Enabled probe.count data 0) ∧
    (LinedUp env F littleE (fun k => probe.count - 1 - k) data probe coll ↔ ∀ k, ¬ Enabled probe.count data k) := by
  refine ⟨⟨fun ⟨_, h⟩ => not_enabled_of_outside env h.outside, fun h => ⟨_, linedUp_of_not_enabled env F littleE coll h⟩⟩,
    ⟨fun h => not_enabled_of_bits env h.bits, fun h => ?_⟩⟩
  have hl := linedUp_of_not_enabled env F littleE coll (h 0)
  exact ⟨fun uid => (hl.devices uid).trans (or_congr_right (exists_congr fun k => by simp [h k])), fun k hk => absurd hk (h k),
    hl.outside, fun _ _ k hk => absurd hk (h k),
    fun coll' hl' upds hu t => (hl.updated coll' hl' upds hu t).trans (exists_congr fun k => by simp [h k])⟩

/-- The first of eight probes. -/
theorem not_probes_linedUp : ¬ ∀ (data : Str) (probe : Probe) (coll : BrulColl),
    ∃ number, LinedUp ⟨fun _ => none, 1⟩ Doubles.exact true number data probe coll := by
  intro h
  obtain ⟨number, hl⟩ := h (str "10000000") .tst ⟨⟨0, 0, 0, 0⟩, Brul.fresh, fun _ => none⟩
  exact not_enabled_of_outside _ hl.outside ⟨by decide, 49, rfl, by decide⟩

end Gnhast.Brulcoll
