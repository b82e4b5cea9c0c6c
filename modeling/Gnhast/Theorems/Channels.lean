import Gnhast.Bruldevs
import Gnhast.Lemmas.Memory
import Gnhast.Lib.Runs
import Gnhast.Theorems.Formats

/-!
# How many channels there are

The number of channels is what the monitor answers, and nothing compares it with what the arrays hold: 48 channels in what is kept, 48 in a
packet of type 5, and 32 in one of type 7. So the arrays are kept to exactly when the answer is one that fits the packets that follow.
-/

namespace Gnhast.Brulcoll

open CStr Collect Runs

/-! ## Handlers -/

/-- A loop whose body fails at some place does not end. -/
theorem foldlM_ne_ok {α σ ε : Type} {f : σ → α → Except ε σ} {xs : List α} {x : α} (hx : x ∈ xs) (hf : ∀ s s', f s x ≠ .ok s')
    (s s' : σ) : xs.foldlM f s ≠ .ok s' := by
  induction xs generalizing s with
  | nil => cases hx
  | cons y ys ih =>
    rw [List.foldlM_cons]
    intro h
    rcases List.mem_cons.mp hx with rfl | hx
    · cases hy : f s x with
      | error e =>
        rw [hy] at h
        cases h
      | ok s1 => exact hf s s1 hy
    · cases hy : f s y with
      | error e =>
        rw [hy] at h
        cases h
      | ok s1 =>
        rw [hy] at h
        exact ih hx s1 h

theorem foldlM_convChannel_iff {c r t : Nat} (g : GemPolar c r t) (d : Bruldata) (n : Nat) :
    (∃ d', (List.range n).foldlM (convChannel g) d = .ok d') ↔ n ≤ c ∧ n ≤ 48 := by
  constructor
  · rintro ⟨d', h⟩
    by_contra hn
    -- the first place that one of the arrays does not have
    refine foldlM_ne_ok (x := min c 48) (List.mem_range.mpr (by omega)) (fun s s' => ?_) d d' h
    unfold convChannel
    rw [dif_neg (by omega)]
    exact nofun
  · rintro ⟨hc, h48⟩
    exact ⟨_, foldlM_convChannel g d hc h48⟩

/-- The footer of a packet is where it should be. -/
def Fmt.footer (fmt : Fmt) (input : List (BitVec 8)) : Prop :=
  match fmt with
  | polar32 => ((GemPolar.layout 32 64 2).decode input).footer 0 = 0xFF ∧ ((GemPolar.layout 32 64 2).decode input).footer 1 = 0xFE
  | polar48 => ((GemPolar.layout 48 96 6).decode input).footer 0 = 0xFF ∧ ((GemPolar.layout 48 96 6).decode input).footer 1 = 0xFE
  | ecm1240 => (Ecm1240.layout.decode input).footer 0 = 0xFF ∧ (Ecm1240.layout.decode input).footer 1 = 0xFE

/-- How many channels a packet has, of those that are kept. -/
def Fmt.channels : Fmt → Nat
  | polar32 => 32
  | polar48 => 48
  | ecm1240 => 6

variable (F : Doubles) (littleE : Bool)

theorem brulHandlePolar_iff {c r t : Nat} (temp16 : Bool → BitVec 16 → BitVec 16) (brulconf : Brulconf) (b : Brul) :
    (∃ b', brulHandlePolar F littleE c r t temp16 brulconf b = .ok b') ↔
      (((GemPolar.layout c r t).decode b.input).footer 0 = 0xFF ∧ ((GemPolar.layout c r t).decode b.input).footer 1 = 0xFE →
        brulconf.nrofchannels.toInt.toNat ≤ c ∧ brulconf.nrofchannels.toInt.toNat ≤ 48) := by
  unfold brulHandlePolar
  dsimp only
  split
  · rename_i h
    exact iff_of_true ⟨_, rfl⟩ fun h' => absurd h (by simp [h'])
  · rename_i h
    have hfoot := not_or.mp h
    simp only [ne_eq, not_not] at hfoot
    rw [← foldlM_convChannel_iff ((GemPolar.layout c r t).decode b.input) b.cur]
    constructor
    · rintro ⟨b', h⟩ -
      obtain ⟨d, hd, -⟩ := Except.map_eq_ok.mp h
      exact ⟨d, hd⟩
    · intro h
      obtain ⟨d, hd⟩ := h hfoot
      rw [hd]
      exact ⟨_, rfl⟩

/-- A handler takes every packet that has no footer, and otherwise those whose channels there are. -/
theorem handle_iff (fmt : Fmt) (brulconf : Brulconf) (b : Brul) : (∃ b', fmt.handle F littleE brulconf b = .ok b') ↔
    (fmt ≠ .ecm1240 → fmt.footer b.input → brulconf.nrofchannels.toInt ≤ fmt.channels) := by
  cases fmt with
  | ecm1240 => exact iff_of_true ⟨_, rfl⟩ fun h => absurd rfl h
  | polar32 =>
    unfold Fmt.handle brulHandleType7
    dsimp only
    rw [brulHandlePolar_iff]
    unfold Fmt.footer Fmt.channels
    constructor
    · intro h _ hf
      have := h hf
      push_cast
      omega
    · intro h hf
      have := h (by decide) hf
      push_cast at this
      omega
  | polar48 =>
    unfold Fmt.handle brulHandleType5
    dsimp only
    rw [brulHandlePolar_iff]
    unfold Fmt.footer Fmt.channels
    constructor
    · intro h _ hf
      have := h hf
      push_cast
      omega
    · intro h hf
      have := h (by decide) hf
      push_cast at this
      omega

/-! ## Calculating -/

theorem channelAt_iff (channel : Fin 48 → BitVec 64) (i : Nat) : (∃ w, channelAt channel i = .ok w) ↔ i < 48 := by
  unfold channelAt
  split
  · rename_i h
    exact iff_of_true ⟨_, rfl⟩ h
  · rename_i h
    exact iff_of_false (fun ⟨_, h⟩ => nomatch h) h

theorem calcCount_iff (coll : BrulColl) (i : Nat) :
    (∃ u, calcCount coll i = .ok u) ↔ (coll.devices (channelUid coll.brulconf.serial "c" i) ≠ none → i < 48) := by
  unfold calcCount
  dsimp only
  cases coll.devices (channelUid coll.brulconf.serial "c" i) with
  | none => exact iff_of_true ⟨_, rfl⟩ fun h => absurd rfl h
  | some dev =>
    rw [← channelAt_iff coll.data.cur.channel i]
    constructor
    · rintro ⟨u, h⟩ -
      obtain ⟨w, hw, -⟩ := Except.map_eq_ok.mp h
      exact ⟨w, hw⟩
    · intro h
      obtain ⟨w, hw⟩ := h (Option.some_ne_none dev)
      dsimp only
      rw [hw]
      exact ⟨_, rfl⟩

theorem calcWatts_iff (coll : BrulColl) (i : Nat) :
    (∃ u, calcWatts coll i = .ok u) ↔ (coll.devices (channelUid coll.brulconf.serial "w" i) ≠ none → i < 48) := by
  unfold calcWatts
  dsimp only
  cases coll.devices (channelUid coll.brulconf.serial "w" i) with
  | none => exact iff_of_true ⟨_, rfl⟩ fun h => absurd rfl h
  | some dev =>
    dsimp only
    unfold channelAt
    by_cases h : i < 48
    · rw [dif_pos h, dif_pos h]
      exact iff_of_true ⟨_, rfl⟩ fun _ => h
    · rw [dif_neg h]
      exact iff_of_false (fun ⟨_, h'⟩ => nomatch h') fun h' => h (h' (Option.some_ne_none dev))

/-- A loop over the channels ends when it does at each of them. -/
theorem exists_collect_channels_iff (coll : BrulColl) (f : Nat → Except Fault (Option BrulUpd)) :
    (∃ us, collect f (List.range coll.brulconf.nrofchannels.toInt.toNat) = .ok us) ↔
      ∀ i : Nat, (i : Int) < coll.brulconf.nrofchannels.toInt → ∃ u, f i = .ok u := by
  rw [exists_collect_iff]
  constructor
  · intro h i hi
    exact h i (List.mem_range.mpr (by omega))
  · intro h i hi
    rw [List.mem_range] at hi
    exact h i (by omega)

/-- What is stored when no counter is compared. -/
def calcNow (coll : BrulColl) (counts : List BrulUpd) : List BrulUpd :=
  counts ++ calcProbes coll .tst coll.brulconf.validtemp (fun i => .real (coll.data.cur.temp i)) ++
    calcProbes coll .pst coll.brulconf.validpulse (fun i => .int (coll.data.cur.pulse i)) ++
    (coll.update (brulUid coll.brulconf.serial (str "volt")) (.real coll.data.cur.voltage)).toList ++
    (coll.update (brulUid coll.brulconf.serial (str "sec")) (.int coll.data.cur.seconds)).toList

theorem calcDevices_eq_ok {coll : BrulColl} {upds : List BrulUpd} : calcDevices coll = .ok upds ↔
    ∃ counts, collect (calcCount coll) (List.range coll.brulconf.nrofchannels.toInt.toNat) = .ok counts ∧
      if coll.data.prev.seconds = 0 then upds = calcNow coll counts
      else ∃ watts, collect (calcWatts coll) (List.range coll.brulconf.nrofchannels.toInt.toNat) = .ok watts ∧
        upds = calcNow coll counts ++ watts := by
  unfold calcDevices
  dsimp only
  rw [Except.bind_eq_ok]
  refine exists_congr fun counts => and_congr_right fun _ => ?_
  split
  · rw [Except.ok.injEq]
    exact eq_comm
  · rw [Except.bind_eq_ok]
    refine exists_congr fun watts => and_congr_right fun _ => ?_
    rw [Except.ok.injEq]
    exact eq_comm

/-- `calc_devices` keeps to the arrays when the channels that have devices do. -/
theorem exists_calcDevices_iff (coll : BrulColl) : (∃ upds, calcDevices coll = .ok upds) ↔
    (∀ i : Nat, (i : Int) < coll.brulconf.nrofchannels.toInt →
      coll.devices (channelUid coll.brulconf.serial "c" i) ≠ none → i < 48) ∧
    (coll.data.prev.seconds ≠ 0 → ∀ i : Nat, (i : Int) < coll.brulconf.nrofchannels.toInt →
      coll.devices (channelUid coll.brulconf.serial "w" i) ≠ none → i < 48) := by
  have hcounts := exists_collect_channels_iff coll (calcCount coll)
  have hwatts := exists_collect_channels_iff coll (calcWatts coll)
  simp only [calcCount_iff, calcWatts_iff] at hcounts hwatts
  rw [← hcounts, ← hwatts]
  simp only [calcDevices_eq_ok]
  constructor
  · rintro ⟨upds, counts, hc, h⟩
    refine ⟨⟨counts, hc⟩, fun hs => ?_⟩
    rw [if_neg hs] at h
    obtain ⟨watts, hw, -⟩ := h
    exact ⟨watts, hw⟩
  · rintro ⟨⟨counts, hc⟩, h⟩
    by_cases hs : coll.data.prev.seconds = 0
    · exact ⟨_, counts, hc, by rw [if_pos hs]⟩
    · obtain ⟨watts, hw⟩ := h hs
      refine ⟨calcNow coll counts ++ watts, counts, hc, ?_⟩
      rw [if_neg hs]
      exact ⟨watts, hw, rfl⟩

/-- With devices for all counters it depends on their number. -/
theorem calcDevices_iff {coll : BrulColl}
    (hdev : ∀ i : Nat, (i : Int) < coll.brulconf.nrofchannels.toInt → coll.devices (channelUid coll.brulconf.serial "c" i) ≠ none) :
    (∃ upds, calcDevices coll = .ok upds) ↔ coll.brulconf.nrofchannels.toInt ≤ 48 := by
  rw [exists_calcDevices_iff]
  constructor
  · rintro ⟨h, -⟩
    by_contra hn
    exact absurd (h 48 (by omega) (hdev 48 (by omega))) (lt_irrefl 48)
  · intro h
    exact ⟨fun i hi _ => by omega, fun _ i hi _ => by omega⟩

/-! ## The devices of the channels -/

/-- Devices stay in the tree, and the numbers of the monitor stay as they are. -/
structure Grows (coll coll' : BrulColl) : Prop where
  conf : coll'.brulconf = coll.brulconf
  data : coll'.data = coll.data
  keeps : ∀ uid, coll.devices uid ≠ none → coll'.devices uid ≠ none

theorem Grows.refl (coll : BrulColl) : Grows coll coll := ⟨rfl, rfl, fun _ h => h⟩

theorem Grows.trans {c c' c'' : BrulColl} (h : Grows c c') (h' : Grows c' c'') : Grows c c'' :=
  ⟨h'.conf.trans h.conf, h'.data.trans h.data, fun uid hu => h'.keeps uid (h.keeps uid hu)⟩

variable (env : BrulEnv)

/-- A device that is added is in the tree. -/
theorem addDevice_grows (coll : BrulColl) (uid : Str) (subtype scale : BitVec 8) :
    Grows coll (coll.addDevice env uid subtype scale) ∧ (coll.addDevice env uid subtype scale).devices uid ≠ none := by
  unfold BrulColl.addDevice BrulColl.insertDevice
  cases h : coll.devices uid with
  | some dev => exact ⟨Grows.refl coll, by simp [h]⟩
  | none =>
    refine ⟨⟨rfl, rfl, fun uid' hu => ?_⟩, by simp⟩
    by_cases he : uid' = uid
    · rw [he] at hu
      exact absurd h hu
    · simpa [Function.update_of_ne he] using hu

theorem addChannel_grows (coll : BrulColl) (i : Nat) : Grows coll (coll.addChannel env i) ∧
    (coll.addChannel env i).devices (channelUid coll.brulconf.serial "c" i) ≠ none ∧
    (coll.addChannel env i).devices (channelUid coll.brulconf.serial "w" i) ≠ none := by
  unfold BrulColl.addChannel
  dsimp only
  obtain ⟨hc, hcin⟩ := addDevice_grows env coll (channelUid coll.brulconf.serial "c" i) 14 0
  obtain ⟨hw, hwin⟩ := addDevice_grows env (coll.addDevice env (channelUid coll.brulconf.serial "c" i) 14 0)
    (channelUid (coll.addDevice env (channelUid coll.brulconf.serial "c" i) 14 0).brulconf.serial "w" i) 15 0
  refine ⟨hc.trans hw, hw.keeps _ hcin, ?_⟩
  rw [hc.conf] at hwin ⊢
  exact hwin

theorem addChannels_grow (n : Nat) (coll : BrulColl) : Grows coll ((List.range n).foldl (BrulColl.addChannel env) coll) ∧
    ∀ i < n, ((List.range n).foldl (BrulColl.addChannel env) coll).devices (channelUid coll.brulconf.serial "c" i) ≠ none ∧
      ((List.range n).foldl (BrulColl.addChannel env) coll).devices (channelUid coll.brulconf.serial "w" i) ≠ none := by
  induction n with
  | zero => exact ⟨Grows.refl coll, fun _ h => absurd h (Nat.not_lt_zero _)⟩
  | succ n ih =>
    obtain ⟨hgrows, hall⟩ := ih
    rw [List.range_succ, List.foldl_concat]
    obtain ⟨hstep, hc, hw⟩ := addChannel_grows env ((List.range n).foldl (BrulColl.addChannel env) coll) n
    rw [hgrows.conf] at hc hw
    refine ⟨hgrows.trans hstep, fun i hi => ?_⟩
    rcases Nat.lt_succ_iff_lt_or_eq.mp hi with hlt | rfl
    · exact ⟨hstep.keeps _ (hall i hlt).1, hstep.keeps _ (hall i hlt).2⟩
    · exact ⟨hc, hw⟩

/-- What is set up behind the channels leaves their devices. -/
theorem brulBuildDevices_grows (channels : Nat) (coll : BrulColl) : Grows coll (brulBuildDevices env channels 0 coll) ∧
    ∀ i < channels, (brulBuildDevices env channels 0 coll).devices (channelUid coll.brulconf.serial "c" i) ≠ none := by
  obtain ⟨hgrows, hall⟩ := addChannels_grow env channels coll
  unfold brulBuildDevices
  dsimp only
  rw [List.range_zero, List.foldl_nil]
  generalize (List.range channels).foldl (BrulColl.addChannel env) coll = c at hgrows hall ⊢
  have hsec := (addDevice_grows env c (brulUid c.brulconf.serial (str "sec")) 5 0).1
  generalize c.addDevice env (brulUid c.brulconf.serial (str "sec")) 5 0 = c' at hsec ⊢
  have hboth := hsec.trans (addDevice_grows env c' (brulUid c'.brulconf.serial (str "volt")) 13 0).1
  exact ⟨hgrows.trans hboth, fun i hi => hboth.keeps _ (hall i hi).1⟩

/-- The answer to `RQSCMX` makes the devices of all channels. -/
theorem brulAnswerCmx_devices (data : Str) (coll : BrulColl) :
    (brulAnswerCmx env data coll).brulconf = { coll.brulconf with nrofchannels := atoi data } ∧
    ∀ i : Nat, (i : Int) < (atoi data).toInt →
      (brulAnswerCmx env data coll).devices (channelUid coll.brulconf.serial "c" i) ≠ none := by
  unfold brulAnswerCmx
  dsimp only
  obtain ⟨hgrows, hall⟩ := brulBuildDevices_grows env (atoi data).toInt.toNat { coll with brulconf.nrofchannels := atoi data }
  exact ⟨hgrows.conf, fun i hi => hall i (by omega)⟩

/-! ## Runs -/

/-- A packet comes in. -/
def brulStep (coll : BrulColl) (packet : Fmt × List (BitVec 8)) : Option BrulColl :=
  (brulPacket F littleE packet.1 { coll with data.input := packet.2 }).toOption.map Prod.fst

/-- The packets that a number of channels fits. -/
def Fits (channels : Int) (packet : Fmt × List (BitVec 8)) : Prop :=
  packet.1 ≠ .ecm1240 → channels ≤ 48 ∧ (packet.1.footer packet.2 → channels ≤ packet.1.channels)

/-- The number of channels is that, and all have a device for their counter. -/
structure Prepared (n : BitVec 32) (coll : BrulColl) : Prop where
  channels : coll.brulconf.nrofchannels = n
  devices : ∀ i : Nat, (i : Int) < n.toInt → coll.devices (channelUid coll.brulconf.serial "c" i) ≠ none

/-- A step is a handler, and behind it `calc_devices`. -/
theorem brulStep_eq_some {coll coll' : BrulColl} {packet : Fmt × List (BitVec 8)} : brulStep F littleE coll packet = some coll' ↔
    ∃ b, packet.1.handle F littleE coll.brulconf { coll.data with input := packet.2 } = .ok b ∧
      (packet.1 ≠ .ecm1240 → ∃ upds, calcDevices { coll with data := b } = .ok upds) ∧ coll' = { coll with data := b } := by
  obtain ⟨fmt, input⟩ := packet
  unfold brulStep brulPacket
  dsimp only
  cases fmt.handle F littleE coll.brulconf { coll.data with input } with
  | error e => simp [bind, Except.bind, Except.toOption]
  | ok b =>
    simp only [bind, Except.bind, Except.ok.injEq, exists_eq_left']
    cases fmt with
    | ecm1240 => simp [Except.toOption, eq_comm]
    | polar32 => cases calcDevices { coll with data := b } <;> simp [Except.map, Except.toOption, eq_comm]
    | polar48 => cases calcDevices { coll with data := b } <;> simp [Except.map, Except.toOption, eq_comm]

theorem brulStep_iff {n : BitVec 32} {coll : BrulColl} (h : Prepared n coll) (packet : Fmt × List (BitVec 8)) :
    (∃ coll', brulStep F littleE coll packet = some coll') ↔ Fits n.toInt packet := by
  have hhandle := handle_iff F littleE packet.1 coll.brulconf { coll.data with input := packet.2 }
  rw [h.channels] at hhandle
  rw [show Fits n.toInt packet ↔ _ ∧ (packet.1 ≠ .ecm1240 → n.toInt ≤ 48) from
    ⟨fun hf => ⟨fun hne => (hf hne).2, fun hne => (hf hne).1⟩, fun hf hne => ⟨hf.2 hne, hf.1 hne⟩⟩, ← hhandle]
  simp only [brulStep_eq_some]
  constructor
  · rintro ⟨coll', b, hb, hcalc, -⟩
    refine ⟨⟨b, hb⟩, fun hne => ?_⟩
    obtain ⟨upds, hupds⟩ := hcalc hne
    have hn := (@calcDevices_iff { coll with data := b } (by simpa [h.channels] using h.devices)).mp ⟨upds, hupds⟩
    simpa [h.channels] using hn
  · rintro ⟨⟨b, hb⟩, hn⟩
    refine ⟨_, b, hb, fun hne => ?_, rfl⟩
    refine (@calcDevices_iff { coll with data := b } (by simpa [h.channels] using h.devices)).mpr ?_
    simpa [h.channels] using hn hne

theorem brulStep_prepared {n : BitVec 32} {coll coll' : BrulColl} (h : Prepared n coll) {packet : Fmt × List (BitVec 8)}
    (hs : brulStep F littleE coll packet = some coll') : Prepared n coll' := by
  obtain ⟨b, -, -, rfl⟩ := (brulStep_eq_some F littleE).mp hs
  exact ⟨h.channels, h.devices⟩

theorem brulAnswerCmx_prepared (data : Str) (coll : BrulColl) : Prepared (atoi data) (brulAnswerCmx env data coll) := by
  obtain ⟨hconf, hdev⟩ := brulAnswerCmx_devices env data coll
  refine ⟨by rw [hconf], ?_⟩
  rw [hconf]
  exact hdev

/-- Whatever the monitor answers, and whatever packets follow, its handlers and `calc_devices` keep to the arrays exactly when the number
of channels fits all packets: 48, and 32 for a packet of type 7 with its footer. -/
theorem channels_in_bounds_iff (data : Str) (coll : BrulColl) (packets : List (Fmt × List (BitVec 8))) :
    (∃ coll', exec (brulStep F littleE) (brulAnswerCmx env data coll) packets = some coll') ↔
      ∀ packet ∈ packets, Fits (atoi data).toInt packet := by
  refine exists_exec_iff (I := Prepared (atoi data)) ?_ ?_ (brulAnswerCmx_prepared env data coll) packets
  · intro coll packet coll' h hs
    exact brulStep_prepared F littleE h hs
  · intro coll packet h
    exact brulStep_iff F littleE h packet

/-- A packet of a monitor that measures nothing. -/
def GemPolar.idle (c r t : Nat) : GemPolar c r t where
  header _ := 0xFE
  hformat := 0
  voltage _ := 0
  channel _ _ := 0
  polar _ _ := 0
  serial _ := 0
  res1 := 0
  devid := 0
  res2 _ := 0
  seconds _ := 0
  pulse _ _ := 0
  temp _ _ := 0
  tail _ := 0
  footer i := if i = 0 then 0xFF else 0xFE
  checksum := 0

/-- A monitor with 48 channels whose packets are of type 7. -/
theorem not_channels_in_bounds : ¬ ∀ (data : Str) (coll : BrulColl) (packets : List (Fmt × List (BitVec 8))),
    ∃ coll', exec (brulStep Doubles.exact true) (brulAnswerCmx ⟨fun _ => none, 1⟩ data coll) packets = some coll' := by
  intro h
  obtain ⟨coll', hrun⟩ := h (str "48") ⟨⟨0, 0, 0, 0⟩, Brul.fresh, fun _ => none⟩
    [(.polar32, (GemPolar.layout 32 64 2).encode (GemPolar.idle 32 64 2))]
  obtain ⟨coll1, hstep, -⟩ := exec_cons_eq_some.mp hrun
  have hfits := (brulStep_iff Doubles.exact true (brulAnswerCmx_prepared _ _ _) _).mp ⟨coll1, hstep⟩ nofun
  have hdec := (GemPolar.layout 32 64 2).decode_encode (GemPolar.idle 32 64 2) []
  rw [List.append_nil] at hdec
  have h32 : (atoi (str "48")).toInt ≤ 32 := hfits.2 (by
    unfold Fmt.footer
    dsimp only
    rw [hdec]
    exact ⟨rfl, rfl⟩)
  revert h32
  decide

end Gnhast.Brulcoll
