import Gnhast.Lemmas.Accessors
import Gnhast.Lemmas.Alarmcoll
import Gnhast.Lemmas.Wire
import Gnhast.Rrdcoll

/-!
# What lies on the stack

Three functions read the data of a device into a local that was never written: `device_watermark`, `rrd_update_dev` and the
alarm collector's `coll_upd_cb`. Two runs that differ only in what the locals held before agree where the read fills the local.
Where it writes one byte or nothing, the database is told a number that depends on the stack.
-/

namespace Gnhast

open CStr Rrdcoll

variable (F : Doubles)

/-- Two runs of `device_watermark` on different stacks return the same. -/
def SameWatermark (dev : Device) : Prop := ∀ stack stack', deviceWatermark F stack dev = deviceWatermark F stack' dev

/-- Two runs of `rrd_update_dev` on different stacks print the same. -/
def SameNumber (dev : Device) : Prop :=
  ∀ usecache file lastUpd stack stack',
    rrdUpdateDev F usecache file lastUpd stack dev = rrdUpdateDev F usecache file lastUpd stack' dev

/-- Two runs of the alarm collector's `coll_upd_cb` on different stacks set the same fired flags. -/
def SameFired (dev : Device) : Prop :=
  ∀ now coll stack stack', (Alarmcoll.collUpdCb F now stack dev coll).map (fun c => c.watched.map (·.fired)) =
    (Alarmcoll.collUpdCb F now stack' dev coll).map (fun c => c.watched.map (·.fired))

/-- Every byte is the low byte of a pattern that is not printed as zero. -/
def Wide : Prop := ∀ b : BitVec 8, ∃ w : BitVec 64, w.setWidth 8 = b ∧ fmtF (F.ofBits w) ≠ fmtF 0

/-! ## Full reads -/

theorem sameWatermark_of_fullRead {dev : Device} (h : FullRead dev) : SameWatermark F dev := by
  intro stack stack'
  have hs := fun loc => get_fullRead F h loc (stack loc)
  have hs' := fun loc => get_fullRead F h loc (stack' loc)
  unfold deviceWatermark
  cases hd : datatypeDev dev <;> simp only [hd] at hs hs' <;> simp only [hs, hs']

theorem sameNumber_of_fullRead {dev : Device} (h : FullRead dev) : SameNumber F dev := by
  intro usecache file lastUpd stack stack'
  have hs := get_fullRead F h .data stack
  have hs' := get_fullRead F h .data stack'
  have hn : rrdNumber F stack dev = rrdNumber F stack' dev := by
    unfold rrdNumber
    cases hd : datatypeDev dev <;> simp only [hd] at hs hs' <;> simp only [hs, hs']
  simp only [rrdUpdateDev, hn]

namespace Alarmcoll

/-- A comparison sees of the data what a variable of the datatype holds. -/
theorem testDatatype_congr {dt : DataType} {data data' : Word} (h : readVar F dt data = readVar F dt data') (test : Wtype)
    (val : Word) : testDatatype F test dt data val = testDatatype F test dt data' val := by
  cases dt with
  | uint => simp only [testDatatype, DataVal.uint.inj h]
  | ll => simp only [testDatatype, DataVal.ll.inj h]
  | double => simp only [testDatatype, DataVal.double.inj h]

/-- So do the tests of a row. -/
theorem simpleTests_congr {dt : DataType} {data data' : Word} (h : readVar F dt data = readVar F dt data') (now : Int)
    (dev : Device) (watch : Watch) : simpleTests F now dev dt data watch = simpleTests F now dev dt data' watch := by
  have ht := testDatatype_congr F h
  simp only [simpleTests, simpleTest, ht]

theorem updRow_congr {dev : Device} {data data' : Word} (h : readVar F (datatypeDev dev) data = readVar F (datatypeDev dev) data')
    (now : Int) : updRow F now dev data = updRow F now dev data' := by
  funext coll row
  simp only [updRow, simpleTests_congr F h]

/-- Widening the state of a switch by hand keeps what two runs agree on. -/
theorem readVar_updData {dev : Device} (h : FullRead dev) (stack stack' : Word) :
    readVar F (datatypeDev dev) (updData F stack dev) = readVar F (datatypeDev dev) (updData F stack' dev) := by
  cases hd : datatypeDev dev with
  | uint =>
    have hs := get_fullRead F h .data stack
    have hs' := get_fullRead F h .data stack'
    simp only [hd] at hs hs'
    have hu := hs.trans hs'.symm
    unfold updData
    split
    · have hlow : ∀ w : Word, (w.uint F).setWidth 8 = (w.bits F).setWidth 8 := by
        intro w
        exact BitVec.setWidth_setWidth_of_le _ (by decide)
      have hl := congrArg (BitVec.setWidth 8) hu
      rw [hlow, hlow] at hl
      refine (readVar_assign F .uint _ _).trans (Eq.trans ?_ (readVar_assign F .uint _ _).symm)
      rw [hl]
    · exact congrArg DataVal.uint hu
  | ll | double =>
    have hsame : getDataDev F dev .data stack = getDataDev F dev .data stack' := by
      rw [getDataDev, getDataDev, h, hd]
      rfl
    simp only [updData, hsame]

end Alarmcoll

theorem sameFired_of_fullRead {dev : Device} (h : FullRead dev) : SameFired F dev := by
  intro now coll stack stack'
  have hr := Alarmcoll.updRow_congr F (Alarmcoll.readVar_updData F h stack stack') now
  simp only [Alarmcoll.collUpdCb, hr]

/-! ## Other reads -/

theorem fmtD_injective {u v : BitVec 32} (h : fmtD u = fmtD v) : u = v := by
  have hu := atoi_decInt u
  have hv := atoi_decInt v
  exact hu.symm.trans ((congrArg atoi h).trans hv)

theorem fmtJd_injective {u v : BitVec 64} (h : fmtJd u = fmtJd v) : u = v := by
  have hu := strtoll_decInt u
  have hv := strtoll_decInt v
  exact hu.symm.trans ((congrArg (fun s => BitVec.ofInt 64 (strtol s)) h).trans hv)

/-- A number that is small enough is printed as zero. -/
theorem fmtF_of_small {q : ℚ} (h0 : 0 ≤ q) (h1 : q ≤ 1 / 2 ^ 1000) : fmtF q = fmtF 0 := by
  have hz : roundHalfEven (q * 10 ^ 6) = 0 := by
    have h := round6_of_small h0 h1
    rw [round6, div_eq_zero_iff] at h
    rcases h with h | h
    · exact_mod_cast h
    · norm_num at h
  have hz' : roundHalfEven ((0 : ℚ) * 10 ^ 6) = 0 := by
    have h := roundHalfEven_intCast 0
    rw [Int.cast_zero] at h
    rw [zero_mul, h]
  rw [fmtF, fmtF, hz, hz', if_neg (not_lt.mpr h0), if_neg (lt_irrefl 0)]

/-- The state of a device is what is read of it. -/
theorem get_state {dev : Device} (h : getMember dev.devType dev.devSubtype = some .state) (w : BitVec 64) :
    (getDataDev F dev .data (.raw w)) = .raw ((w &&& ~~~0xff#64) ||| (dev.data.bits F &&& 0xff#64)) := by
  rw [getDataDev, h]
  rfl

/-- Where a read does not fill the local, there are two stacks from which different numbers are printed, the first of them
short. -/
theorem exists_rrdNumber_ne (hF : Wide F) {dev : Device} (h : ¬ FullRead dev) :
    ∃ stack stack', (rrdNumber F stack dev).length ≤ 20 ∧ rrdNumber F stack dev ≠ rrdNumber F stack' dev := by
  rcases read_cases dev with hr | hr | hr
  · exact absurd hr h
  · -- the other bytes of an integer, and those that make a double large
    have hbit : ∀ n, 8 < n → n ≤ 64 → ∀ s : BitVec 64,
        ((0#64 &&& ~~~0xff#64) ||| (s &&& 0xff#64)).setWidth n ≠ ((0x100#64 &&& ~~~0xff#64) ||| (s &&& 0xff#64)).setWidth n := by
      intro n h1 h2 s he
      have hb := congrArg (fun v => v.getLsbD 8) he
      simp [h1] at hb
    unfold rrdNumber
    cases hd : datatypeDev dev with
    | uint =>
      refine ⟨.raw 0, .raw 0x100, length_fmtD_le _, fun he => ?_⟩
      have hu := fmtD_injective he
      rw [get_state F hr, get_state F hr] at hu
      exact hbit 32 (by decide) (by decide) _ hu
    | ll =>
      refine ⟨.raw 0, .raw 0x100, length_fmtJd_le _, fun he => ?_⟩
      have hu := fmtJd_injective he
      rw [get_state F hr, get_state F hr] at hu
      exact hbit 64 (by decide) (by decide) _ (congrArg (fun v => v.setWidth 64) hu)
    | double =>
      obtain ⟨w, hw, hne⟩ := hF ((dev.data.bits F).setWidth 8)
      have hzero : fmtF ((getDataDev F dev .data (.raw 0)).double F) = fmtF 0 := by
        rw [get_state F hr]
        have hlt : ((0#64 &&& ~~~0xff#64) ||| (dev.data.bits F &&& 0xff#64)).toNat < 256 := by
          rw [BitVec.zero_and, BitVec.zero_or, BitVec.toNat_and]
          exact Nat.lt_of_le_of_lt Nat.and_le_right (by decide)
        obtain ⟨h0, h1⟩ := F.ofBits_small _ hlt
        exact fmtF_of_small h0 h1
      have hlarge : (getDataDev F dev .data (.raw w)).double F = F.ofBits w := by
        rw [get_state F hr]
        refine congrArg F.ofBits ?_
        have hlow : dev.data.bits F &&& 0xff#64 = w &&& 0xff#64 := by
          rw [and_low_byte, and_low_byte, hw]
        rw [hlow]
        apply BitVec.eq_of_getLsbD_eq
        intro i hi
        simp only [BitVec.getLsbD_or, BitVec.getLsbD_and, BitVec.getLsbD_not, hi, decide_true, Bool.true_and]
        cases w.getLsbD i <;> cases (0xff#64).getLsbD i <;> rfl
      refine ⟨.raw 0, .raw w, ?_, fun he => hne ?_⟩
      · dsimp only
        rw [hzero]
        decide +kernel
      · dsimp only at he
        rw [hzero, hlarge] at he
        exact he.symm
  · -- the whole local is as it was
    have hget : ∀ w, getDataDev F dev .data w = w := by
      intro w
      rw [getDataDev, hr]
    have hne32 : ¬ (0 : BitVec 64).setWidth 32 = (1 : BitVec 64).setWidth 32 := by decide
    have hne64 : ¬ (0 : BitVec 64) = 1 := by decide
    unfold rrdNumber
    simp only [hget]
    cases hd : datatypeDev dev with
    | uint => exact ⟨.raw 0, .raw 1, length_fmtD_le _, fun he => absurd (fmtD_injective he) hne32⟩
    | ll => exact ⟨.raw 0, .raw 1, length_fmtJd_le _, fun he => absurd (fmtJd_injective he) hne64⟩
    | double =>
      obtain ⟨w, -, hne⟩ := hF 0
      refine ⟨.dbl 0, .raw w, ?_, fun he => hne he.symm⟩
      change (fmtF 0).length ≤ 20
      decide +kernel

/-- Two runs agree in all three functions exactly when the read fills the local. -/
theorem sameRuns_iff (hF : Wide F) (dev : Device) :
    (SameWatermark F dev ∧ SameNumber F dev ∧ SameFired F dev) ↔ FullRead dev := by
  constructor
  · rintro ⟨-, hs, -⟩
    by_contra hn
    obtain ⟨stack, stack', hlen, hne⟩ := exists_rrdNumber_ne F hF hn
    have he := hs false (fun _ => some []) 0 stack stack'
    have hok : sprintf rrdBufSize (fmtJd 0 ++ str ":" ++ rrdNumber F stack dev) =
        .ok (fmtJd 0 ++ str ":" ++ rrdNumber F stack dev) := by
      refine if_pos ?_
      have h0 : (fmtJd 0 ++ str ":").length = 2 := by decide
      rw [List.length_append, h0, rrdBufSize]
      omega
    simp only [rrdUpdateDev, hok, Bool.false_eq_true, if_false] at he
    obtain ⟨buf, hbuf, hu⟩ := Except.map_eq_ok.mp he.symm
    have hu := (RrdOut.update.inj hu).2
    unfold sprintf at hbuf
    split at hbuf
    · exact hne (List.append_cancel_left (hu.symm.trans (Except.ok.inj hbuf).symm))
    · cases hbuf
  · intro h
    exact ⟨sameWatermark_of_fullRead F h, sameNumber_of_fullRead F h, sameFired_of_fullRead F h⟩

/-- The patterns around ten. -/
theorem wide_ieee : Wide Doubles.ieee := by
  intro b
  have hb := b.isLt
  have hw : (BitVec.ofNat 64 (0x4024000000000000 + b.toNat)).toNat = 0x4024000000000000 + b.toNat := by
    rw [BitVec.toNat_ofNat]
    omega
  refine ⟨BitVec.ofNat 64 (0x4024000000000000 + b.toNat), ?_, ?_⟩
  · apply BitVec.eq_of_toNat_eq
    rw [BitVec.toNat_setWidth, hw]
    omega
  · intro he
    have hmsb : (BitVec.ofNat 64 (0x4024000000000000 + b.toNat)).msb = false := by
      rw [BitVec.msb_eq_decide, decide_eq_false_iff_not, hw]
      omega
    have hexp : (0x4024000000000000 + b.toNat) / 2 ^ 52 % 2048 = 1026 := by omega
    have hman : (0x4024000000000000 + b.toNat) % 2 ^ 52 = 0x4000000000000 + b.toNat := by omega
    have hval : Doubles.ieee.ofBits (BitVec.ofNat 64 (0x4024000000000000 + b.toNat)) =
        (2 ^ 52 + (0x4000000000000 + b.toNat : ℕ)) / 2 ^ 49 := by
      change ofBinary64Bits _ = _
      simp only [ofBinary64Bits, hw, hmsb, hexp, hman]
      norm_num
      ring
    have hround : round6 (Doubles.ieee.ofBits (BitVec.ofNat 64 (0x4024000000000000 + b.toNat))) = 0 := by
      have h := Doubles.exact.strtod_fmtF
      have h1 := h (Doubles.ieee.ofBits (BitVec.ofNat 64 (0x4024000000000000 + b.toNat)))
      have h2 := h 0
      rw [he] at h1
      exact h1.symm.trans (h2.trans round6_zero)
    have hlarge : (8 : ℚ) ≤ Doubles.ieee.ofBits (BitVec.ofNat 64 (0x4024000000000000 + b.toNat)) := by
      rw [hval, le_div_iff₀ (by norm_num)]
      push_cast
      have : (0 : ℚ) ≤ b.toNat := Nat.cast_nonneg _
      linarith
    have hnear := (abs_le.mp (abs_roundHalfEven_sub_le
      (Doubles.ieee.ofBits (BitVec.ofNat 64 (0x4024000000000000 + b.toNat)) * 10 ^ 6))).1
    rw [round6, div_eq_zero_iff] at hround
    rcases hround with hround | hround
    · rw [hround] at hnear
      linarith
    · norm_num at hround

theorem sameRuns_iff_counter : Wide Doubles.ieee ∧ FullRead { uid := str "meter", type := 3, proto := 1, subtype := 5 } ∧
    SameWatermark Doubles.ieee { uid := str "meter", type := 3, proto := 1, subtype := 5 } :=
  ⟨wide_ieee, by decide, ((sameRuns_iff Doubles.ieee wide_ieee _).mpr (by decide)).1⟩

/-- A switch that is off and was off, with a mark at one: the bytes behind its state decide. -/
theorem not_sameRuns_switch :
    ¬ (SameWatermark Doubles.exact { uid := str "pump", type := 1, proto := 1, subtype := 1, hiwat := .raw 1 } ∧
      SameNumber Doubles.exact { uid := str "pump", type := 1, proto := 1, subtype := 1, hiwat := .raw 1 } ∧
      SameFired Doubles.exact { uid := str "pump", type := 1, proto := 1, subtype := 1, hiwat := .raw 1 }) := by
  rintro ⟨hw, -, -⟩
  have h := hw (fun _ => .raw 0) (fun loc => if loc = .data then .raw 0x100 else .raw 0)
  revert h
  decide

end Gnhast
