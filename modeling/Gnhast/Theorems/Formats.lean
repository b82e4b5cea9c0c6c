import Gnhast.Brulcoll
import Mathlib.Tactic.IntervalCases

/-!
# The two packet formats of the GreenEye monitor

A packet of 32 channels and one of 48 have the same fields, but for the number of channels and what is reserved. Both handlers
put the numbers together the same way, except for the temperatures: the one for 32 channels takes the first byte as the low one,
the one for 48 channels as the high one. So they store the same exactly when the two bytes of every valid probe are the same.
-/

namespace Gnhast.Brulcoll

variable (F : Doubles) (littleE : Bool)

/-- What a packet reports, of 32 channels. -/
structure Readings where
  channel : Fin 32 → Wattsec
  polar : Fin 32 → Wattsec
  voltage : Bytes2
  serial : Bytes2
  seconds : Threebyte
  pulse : Fin 4 → Threebyte
  temp : Fin 8 → Bytes2

/-- A packet with a correct footer gives the readings in its fields and its first 32 channels. -/
structure Carries {c r t : Nat} (hc : 32 ≤ c) (g : GemPolar c r t) (x : Readings) : Prop where
  channel : ∀ i : Fin 32, g.channel (i.castLE hc) = x.channel i
  polar : ∀ i : Fin 32, g.polar (i.castLE hc) = x.polar i
  voltage : g.voltage = x.voltage
  serial : g.serial = x.serial
  seconds : g.seconds = x.seconds
  pulse : g.pulse = x.pulse
  temp : g.temp = x.temp
  footer : g.footer 0 = 0xFF ∧ g.footer 1 = 0xFE

/-- Every packet of 32 channels and every packet of 48 that give the readings store the same data. -/
def FormatsAgree (brulconf : Brulconf) (b : Brul) (x : Readings) : Prop :=
  ∀ (g7 : GemPolar32) (g5 : GemPolar48dt) (rest7 rest5 : List (BitVec 8)),
    Carries (Nat.le_refl 32) g7 x → Carries (by decide) g5 x →
      ∃ d, brulHandleType7 F littleE brulconf { b with input := (GemPolar.layout 32 64 2).encode g7 ++ rest7 } =
          .ok { input := rest7, prev := b.cur, cur := d } ∧
        brulHandleType5 F littleE brulconf { b with input := (GemPolar.layout 48 96 6).encode g5 ++ rest5 } =
          .ok { input := rest5, prev := b.cur, cur := d }

/-! ## Numbers of two bytes -/

theorem getLsbD_bswap16 (x : BitVec 16) {i : Nat} (hi : i < 16) :
    (bswap16 x).getLsbD i = if i < 8 then x.getLsbD (i + 8) else x.getLsbD (i - 8) := by
  unfold bswap16
  interval_cases i <;> simp

theorem bswap16_append (hi lo : BitVec 8) : bswap16 (hi ++ lo) = lo ++ hi := by
  refine BitVec.eq_of_getLsbD_eq fun i h => ?_
  have happend : ∀ (u v : BitVec 8) (k : Nat), BitVec.getLsbD (w := 16) (u ++ v) k =
      if k < 8 then v.getLsbD k else u.getLsbD (k - 8) := by
    intro u v k
    exact BitVec.getLsbD_append
  rw [getLsbD_bswap16 _ h]
  split
  · rw [happend, happend, if_neg (by omega), if_pos (by assumption), Nat.add_sub_cancel]
  · rw [happend, happend, if_pos (by omega), if_neg (by assumption)]

theorem letoh16_uint16 (b : Bytes2) : letoh16 littleE (uint16 littleE b) = b 1 ++ b 0 := by
  cases littleE
  · exact bswap16_append (b 0) (b 1)
  · rfl

theorem betoh16_uint16 (b : Bytes2) : betoh16 littleE (uint16 littleE b) = b 0 ++ b 1 := by
  cases littleE
  · rfl
  · exact bswap16_append (b 1) (b 0)

theorem append_swap_iff (x y : BitVec 8) : x ++ y = y ++ x ↔ x = y := by
  constructor
  · intro h
    have low : ∀ u v : BitVec 8, (u ++ v).setWidth 8 = v := by
      intro u v
      rw [BitVec.setWidth_append]
      simp
    have h' := congrArg (fun z : BitVec 16 => z.setWidth 8) h
    exact (low y x).symm.trans (h'.symm.trans (low x y))
  · rintro rfl
    rfl

/-! ## What a packet stores -/

/-- The data that readings leave. -/
def Bruldata.store (temp16 : Bytes2 → BitVec 16) (brulconf : Brulconf) (x : Readings) (d : Bruldata) : Bruldata where
  channel i := if h : i < brulconf.nrofchannels.toInt.toNat ∧ i < 32 then convWattsec (x.channel ⟨i, h.2⟩) else d.channel i
  polar i := if h : i < brulconf.nrofchannels.toInt.toNat ∧ i < 32 then convWattsec (x.polar ⟨i, h.2⟩) else d.polar i
  voltage := F.round ((x.voltage 0 ++ x.voltage 1).toNat / 10)
  seconds := (convThree x.seconds).setWidth 32
  temp i := if brulconf.validtemp.getLsbD i then (temp16 (x.temp i)).toNat / 2 else d.temp i
  pulse i := if brulconf.validpulse.getLsbD i then (convThree (x.pulse i)).setWidth 32 else d.pulse i
  serial := (x.serial 0 ++ x.serial 1).setWidth 32

/-- The loop over the channels fills those that it reaches. -/
theorem foldlM_convChannel {c r t : Nat} (g : GemPolar c r t) (d : Bruldata) {n : Nat} (hc : n ≤ c) (h48 : n ≤ 48) :
    (List.range n).foldlM (convChannel g) d = .ok { d with
      channel := fun i => if h : i.val < n then convWattsec (g.channel ⟨i, Nat.lt_of_lt_of_le h hc⟩) else d.channel i
      polar := fun i => if h : i.val < n then convWattsec (g.polar ⟨i, Nat.lt_of_lt_of_le h hc⟩) else d.polar i } := by
  induction n with
  | zero => simp [pure, Except.pure]
  | succ n ih =>
    rw [List.range_succ, List.foldlM_append, ih (by omega) (by omega)]
    have hstep : n < c ∧ n < 48 := by omega
    simp only [List.foldlM_cons, List.foldlM_nil, bind, Except.bind, convChannel, dif_pos hstep, pure, Except.pure]
    congr 2
    all_goals
      funext i
      rw [Function.update_apply]
      by_cases hi : i = ⟨n, hstep.2⟩
      · subst hi
        simp
      · have hne : i.val ≠ n := fun h => hi (Fin.ext h)
        rw [if_neg hi]
        by_cases hlt : i.val < n
        · rw [dif_pos hlt, dif_pos (by omega)]
        · rw [dif_neg hlt, dif_neg (by omega)]

/-- A handler stores the readings of a packet, whatever the packet has besides. -/
theorem brulHandlePolar_carries {c r t : Nat} (hc : 32 ≤ c) {temp16 : Bool → BitVec 16 → BitVec 16} {brulconf : Brulconf}
    (hn : brulconf.nrofchannels.toInt ≤ 32) (b : Brul) {g : GemPolar c r t} {x : Readings} (h : Carries hc g x)
    (rest : List (BitVec 8)) :
    brulHandlePolar F littleE c r t temp16 brulconf { b with input := (GemPolar.layout c r t).encode g ++ rest } =
      .ok { input := rest, prev := b.cur
            cur := b.cur.store F (fun w => temp16 littleE (uint16 littleE w)) brulconf x } := by
  have hdrop : ((GemPolar.layout c r t).encode g ++ rest).drop (GemPolar.layout c r t).size = rest := by
    rw [← (GemPolar.layout c r t).length_encode g, List.drop_left]
  have hfoot : ¬ (g.footer 0 ≠ 0xFF ∨ g.footer 1 ≠ 0xFE) := by
    rw [h.footer.1, h.footer.2]
    simp
  unfold brulHandlePolar
  simp only [Layout.decode_encode, hdrop]
  rw [if_neg hfoot, foldlM_convChannel g b.cur (by omega) (by omega)]
  simp only [Except.map, Bruldata.store, betoh16_uint16, h.voltage, h.serial, h.seconds, h.pulse, h.temp]
  simp only [Except.ok.injEq, Brul.mk.injEq, Bruldata.mk.injEq, true_and, and_true]
  refine ⟨?_, ?_⟩
  · funext i
    by_cases hi : i.val < brulconf.nrofchannels.toInt.toNat
    · rw [dif_pos hi, dif_pos ⟨hi, by omega⟩, ← h.channel]
      rfl
    · rw [dif_neg hi, dif_neg fun h' => hi h'.1]
  · funext i
    by_cases hi : i.val < brulconf.nrofchannels.toInt.toNat
    · rw [dif_pos hi, dif_pos ⟨hi, by omega⟩, ← h.polar]
      rfl
    · rw [dif_neg hi, dif_neg fun h' => hi h'.1]

/-- A packet with the readings and zeros. -/
def Readings.packet (x : Readings) (c r t : Nat) : GemPolar c r t where
  header _ := 0
  hformat := 0
  voltage := x.voltage
  channel i := if h : i.val < 32 then x.channel ⟨i, h⟩ else fun _ => 0
  polar i := if h : i.val < 32 then x.polar ⟨i, h⟩ else fun _ => 0
  serial := x.serial
  res1 := 0
  devid := 0
  res2 _ := 0
  seconds := x.seconds
  pulse := x.pulse
  temp := x.temp
  tail _ := 0
  footer i := if i = 0 then 0xFF else 0xFE
  checksum := 0

theorem carries_packet (x : Readings) {c : Nat} (hc : 32 ≤ c) (r t : Nat) : Carries hc (x.packet c r t) x where
  channel i := dif_pos i.isLt
  polar i := dif_pos i.isLt
  voltage := rfl
  serial := rfl
  seconds := rfl
  pulse := rfl
  temp := rfl
  footer := ⟨rfl, rfl⟩

/-- Where the handlers agree, the two bytes of a valid probe are the same. -/
theorem temp_eq_of_formatsAgree {brulconf : Brulconf} (hn : brulconf.nrofchannels.toInt ≤ 32) {b : Brul} {x : Readings}
    (h : FormatsAgree F littleE brulconf b x) {i : Fin 8} (hi : brulconf.validtemp.getLsbD i = true) :
    x.temp i 0 = x.temp i 1 := by
  have hc7 := carries_packet x (Nat.le_refl 32) 64 2
  have hc5 := carries_packet x (by decide : 32 ≤ 48) 96 6
  obtain ⟨d, h7, h5⟩ := h _ _ [] [] hc7 hc5
  rw [brulHandleType7, brulHandlePolar_carries F littleE (Nat.le_refl 32) hn b hc7] at h7
  rw [brulHandleType5, brulHandlePolar_carries F littleE (by decide : 32 ≤ 48) hn b hc5] at h5
  have hcur := congrArg Brul.cur (Except.ok.inj (h7.trans h5.symm))
  have htemp := congrFun (congrArg Bruldata.temp hcur) i
  simp only [Bruldata.store, hi, if_true, letoh16_uint16, betoh16_uint16] at htemp
  rw [div_left_inj' (by norm_num), Nat.cast_inj, BitVec.toNat_inj, append_swap_iff] at htemp
  exact htemp.symm

/-- Packets of the two formats with the same readings store the same data exactly when the two bytes of the temperature of every
valid probe are the same. -/
theorem formatsAgree_iff {brulconf : Brulconf} (hn : brulconf.nrofchannels.toInt ≤ 32) (b : Brul) (x : Readings) :
    FormatsAgree F littleE brulconf b x ↔ ∀ i : Fin 8, brulconf.validtemp.getLsbD i = true → x.temp i 0 = x.temp i 1 := by
  constructor
  · intro h i hi
    exact temp_eq_of_formatsAgree F littleE hn h hi
  · intro heq g7 g5 rest7 rest5 hg7 hg5
    refine ⟨_, brulHandlePolar_carries F littleE (Nat.le_refl 32) hn b hg7 rest7, ?_⟩
    rw [brulHandleType5, brulHandlePolar_carries F littleE (by decide : 32 ≤ 48) hn b hg5]
    simp only [letoh16_uint16, betoh16_uint16]
    have hstore : b.cur.store F (fun w => w 0 ++ w 1) brulconf x = b.cur.store F (fun w => w 1 ++ w 0) brulconf x := by
      unfold Bruldata.store
      congr 1
      funext i
      by_cases hi : brulconf.validtemp.getLsbD i = true
      · rw [if_pos hi, if_pos hi]
        dsimp only
        rw [heq i hi]
      · rw [if_neg hi, if_neg hi]
    rw [hstore]

/-- The readings of an idle monitor whose first probe is at 70 half degrees. -/
def coolProbe : Readings where
  channel _ _ := 0
  polar _ _ := 0
  voltage _ := 0
  serial _ := 0
  seconds _ := 0
  pulse _ _ := 0
  temp i k := if i = 0 ∧ k = 0 then 70 else 0

/-- A collector that has seen nothing yet. -/
def Brul.fresh : Brul :=
  let zero : Bruldata :=
    { channel := fun _ => 0, polar := fun _ => 0, voltage := 0, seconds := 0, temp := fun _ => 0, pulse := fun _ => 0, serial := 0 }
  { input := [], prev := zero, cur := zero }

theorem formatsAgree_iff_cool : FormatsAgree Doubles.exact true ⟨32, 2, 0, 0⟩ Brul.fresh coolProbe ↔
    ∀ i : Fin 8, (2#32).getLsbD i = true → coolProbe.temp i 0 = coolProbe.temp i 1 :=
  @formatsAgree_iff Doubles.exact true ⟨32, 2, 0, 0⟩ (by decide) Brul.fresh coolProbe

/-- With its first probe valid, one format stores 35 degrees and the other 8960. -/
theorem not_formatsAgree_cool : ¬ FormatsAgree Doubles.exact true ⟨32, 1, 0, 0⟩ Brul.fresh coolProbe := by
  intro h
  have hn : (⟨32, 1, 0, 0⟩ : Brulconf).nrofchannels.toInt ≤ 32 := by decide
  have hbytes := temp_eq_of_formatsAgree Doubles.exact true hn h (i := 0) (by decide)
  revert hbytes
  decide

end Gnhast.Brulcoll
