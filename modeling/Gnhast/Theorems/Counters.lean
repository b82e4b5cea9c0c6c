import Gnhast.Lib.Counters
import Gnhast.Theorems.Channels

/-!
# What the counters have counted

A packet is accepted when it has its footer, and `calc_devices` compares it with the one accepted before. One formula serves all counters,
as if all had five bytes.
-/

namespace Gnhast.Brulcoll

open CStr Collect Runs Counters

/-! ## Readings of a packet -/

/-- The place of an auxiliary counter behind the two channels. -/
theorem sub_two_lt {i : Nat} (h2 : ¬ i < 2) (h7 : i < 7) : i - 2 < 5 := by
  omega

/-- The counter of a channel, as it stands in a packet. -/
def Fmt.counter (fmt : Fmt) (input : List (BitVec 8)) (i : Nat) : Option Reading :=
  match fmt with
  | polar32 => if h : i < 32 then some (.ofBytes (((GemPolar.layout 32 64 2).decode input).channel ⟨i, h⟩)) else none
  | polar48 => if h : i < 48 then some (.ofBytes (((GemPolar.layout 48 96 6).decode input).channel ⟨i, h⟩)) else none
  | ecm1240 =>
    if h : i < 2 then some (.ofBytes ((Ecm1240.layout.decode input).channel ⟨i, h⟩))
    else if h' : i < 7 then some (.ofBytes ((Ecm1240.layout.decode input).aux ⟨i - 2, sub_two_lt h h'⟩))
    else none

/-- The counter of seconds. -/
def Fmt.seconds (fmt : Fmt) (input : List (BitVec 8)) : Reading :=
  match fmt with
  | polar32 => .ofBytes ((GemPolar.layout 32 64 2).decode input).seconds
  | polar48 => .ofBytes ((GemPolar.layout 48 96 6).decode input).seconds
  | ecm1240 => .ofBytes (Ecm1240.layout.decode input).seconds

/-! ## Numbers of some bytes -/

theorem convThree_toInt (x : Threebyte) : ((convThree x).setWidth 32).toInt = leVal x := by
  have h0 := (x 0).isLt
  have h1 := (x 1).isLt
  have h2 := (x 2).isLt
  have hval : leVal x = (x 0).toNat + 256 * ((x 1).toNat + 256 * ((x 2).toNat + 256 * 0)) := rfl
  rw [hval]
  unfold convThree
  simp only [BitVec.toInt_eq_toNat_cond, BitVec.toNat_setWidth, BitVec.toNat_add, BitVec.toNat_shiftLeft, Nat.shiftLeft_eq]
  omega

theorem convWattsec_toInt (x : Wattsec) : (convWattsec x).toInt = leVal x := by
  have h0 := (x 0).isLt
  have h1 := (x 1).isLt
  have h2 := (x 2).isLt
  have h3 := (x 3).isLt
  have h4 := (x 4).isLt
  have hval : leVal x = (x 0).toNat + 256 * ((x 1).toNat + 256 * ((x 2).toNat + 256 * ((x 3).toNat + 256 * ((x 4).toNat + 256 * 0)))) := rfl
  rw [hval]
  unfold convWattsec
  simp only [BitVec.toInt_eq_toNat_cond, BitVec.toNat_setWidth, BitVec.toNat_add, BitVec.toNat_shiftLeft, Nat.shiftLeft_eq]
  -- nothing runs over 64 bits
  simp (disch := omega) only [Nat.mod_eq_of_lt]
  omega

theorem getLsbD_bswap32 (x : BitVec 32) {i : Nat} (hi : i < 32) : (bswap32 x).getLsbD i = x.getLsbD (8 * (3 - i / 8) + i % 8) := by
  unfold bswap32
  interval_cases i <;> simp

theorem bswap32_append (a b c d : BitVec 8) : bswap32 (a ++ b ++ c ++ d) = d ++ c ++ b ++ a := by
  have happend : ∀ (a b c d : BitVec 8) (k : Nat), BitVec.getLsbD (w := 32) (a ++ b ++ c ++ d) k =
      if k < 8 then d.getLsbD k else if k - 8 < 8 then c.getLsbD (k - 8) else if k - 8 - 8 < 8 then b.getLsbD (k - 8 - 8)
        else a.getLsbD (k - 8 - 8 - 8) := by
    intro a b c d k
    exact BitVec.getLsbD_append.trans (by rw [BitVec.getLsbD_append, BitVec.getLsbD_append])
  refine BitVec.eq_of_getLsbD_eq fun i h => ?_
  rw [getLsbD_bswap32 _ h, happend, happend]
  -- in each byte, one of the four alternatives on either side
  split_ifs <;> first | omega | (congr 1; omega)

variable (F : Doubles) (littleE : Bool)

theorem letoh32_uint32 (b : Bytes4) : letoh32 littleE (uint32 littleE b) = b 3 ++ b 2 ++ b 1 ++ b 0 := by
  cases littleE
  · exact bswap32_append (b 0) (b 1) (b 2) (b 3)
  · rfl

theorem letoh32_toInt (b : Bytes4) : ((letoh32 littleE (uint32 littleE b)).setWidth 64).toInt = leVal b := by
  have h0 := (b 0).isLt
  have h1 := (b 1).isLt
  have h2 := (b 2).isLt
  have h3 := (b 3).isLt
  have hval : leVal b = (b 0).toNat + 256 * ((b 1).toNat + 256 * ((b 2).toNat + 256 * ((b 3).toNat + 256 * 0))) := rfl
  have happend : ∀ (n : Nat) (u : BitVec n) (v : BitVec 8), (u ++ v).toNat = 256 * u.toNat + v.toNat := by
    intro n u v
    have hv := v.isLt
    rw [BitVec.toNat_append, ← Nat.shiftLeft_add_eq_or_of_lt hv, Nat.shiftLeft_eq]
    omega
  rw [hval, letoh32_uint32]
  simp only [BitVec.toInt_eq_toNat_cond, BitVec.toNat_setWidth]
  rw [show ((b 3 ++ b 2 ++ b 1 ++ b 0 : BitVec 32)).toNat = 256 * (256 * (256 * (b 3).toNat + (b 2).toNat) + (b 1).toNat) + (b 0).toNat from
    (happend 24 _ _).trans (by rw [happend 16, happend 8])]
  omega

/-! ## Handlers -/

theorem brulHandlePolar_accepted {c r t : Nat} {temp16 : Bool → BitVec 16 → BitVec 16} {brulconf : Brulconf} {b b' : Brul}
    (hfoot : ((GemPolar.layout c r t).decode b.input).footer 0 = 0xFF ∧ ((GemPolar.layout c r t).decode b.input).footer 1 = 0xFE)
    (h : brulHandlePolar F littleE c r t temp16 brulconf b = .ok b') :
    b'.prev = b.cur ∧ b'.cur.seconds = (convThree ((GemPolar.layout c r t).decode b.input).seconds).setWidth 32 ∧
    ∀ i : Fin 48, (i : Int) < brulconf.nrofchannels.toInt →
      ∃ hi : i < c, b'.cur.channel i = convWattsec (((GemPolar.layout c r t).decode b.input).channel ⟨i, hi⟩) := by
  unfold brulHandlePolar at h
  dsimp only at h
  rw [if_neg (by simp [hfoot])] at h
  obtain ⟨d, hd, rfl⟩ := Except.map_eq_ok.mp h
  obtain ⟨hc, h48⟩ := (foldlM_convChannel_iff ((GemPolar.layout c r t).decode b.input) b.cur _).mp ⟨d, hd⟩
  rw [foldlM_convChannel _ _ hc h48] at hd
  cases hd
  refine ⟨rfl, rfl, fun i hi => ⟨by omega, ?_⟩⟩
  dsimp only
  rw [dif_pos (by omega)]

/-- An accepted packet: what was kept of the last one is the one to compare with, and its readings are kept, but for the fifth auxiliary
counter of an ECM-1240. -/
theorem handle_accepted {fmt : Fmt} {brulconf : Brulconf} {b b' : Brul} (hfoot : fmt.footer b.input)
    (h : fmt.handle F littleE brulconf b = .ok b') : b'.prev = b.cur ∧ b'.cur.seconds.toInt = (fmt.seconds b.input).value ∧
    ∀ i : Fin 48, (i : Int) < brulconf.nrofchannels.toInt → ∀ x ∈ fmt.counter b.input i,
      if fmt = .ecm1240 ∧ i.val = 6 then b'.cur.channel i = b.cur.channel i else (b'.cur.channel i).toInt = x.value := by
  cases fmt with
  | polar32 =>
    obtain ⟨hprev, hsec, hchan⟩ := @brulHandlePolar_accepted F littleE 32 64 2 letoh16 brulconf b b' hfoot h
    refine ⟨hprev, by rw [hsec, convThree_toInt]; rfl, fun i hi x hx => ?_⟩
    obtain ⟨hlt, hval⟩ := hchan i hi
    unfold Fmt.counter at hx
    rw [dif_pos hlt] at hx
    rw [if_neg (by simp), hval, convWattsec_toInt, ← Option.some.inj hx]
    rfl
  | polar48 =>
    obtain ⟨hprev, hsec, hchan⟩ := @brulHandlePolar_accepted F littleE 48 96 6 betoh16 brulconf b b' hfoot h
    refine ⟨hprev, by rw [hsec, convThree_toInt]; rfl, fun i hi x hx => ?_⟩
    obtain ⟨hlt, hval⟩ := hchan i hi
    unfold Fmt.counter at hx
    rw [dif_pos hlt] at hx
    rw [if_neg (by simp), hval, convWattsec_toInt, ← Option.some.inj hx]
    rfl
  | ecm1240 =>
    have hb' := Except.ok.inj h
    unfold brulHandleEcm1240 at hb'
    dsimp only at hb'
    rw [if_neg (by simp [show _ ∧ _ from hfoot])] at hb'
    subst hb'
    refine ⟨rfl, by dsimp only; rw [convThree_toInt]; rfl, fun i hi x hx => ?_⟩
    unfold Fmt.counter at hx
    dsimp only
    by_cases h2 : i.val < 2
    · rw [dif_pos h2] at hx
      rw [if_neg (by omega), dif_pos h2, convWattsec_toInt, ← Option.some.inj hx]
      rfl
    · rw [dif_neg h2] at hx
      by_cases h7 : i.val < 7
      · rw [dif_pos h7] at hx
        rw [dif_neg h2]
        by_cases h6 : i.val = 6
        · rw [if_pos ⟨rfl, h6⟩, dif_neg (by omega)]
        · rw [if_neg (fun hn => h6 hn.2), dif_pos (by omega), letoh32_toInt, ← Option.some.inj hx]
          rfl
      · rw [dif_neg h7] at hx
        exact nomatch hx

/-- A packet that is not accepted is only taken from the buffer. -/
theorem handle_rejected {fmt : Fmt} {brulconf : Brulconf} {b b' : Brul} (hfoot : ¬ fmt.footer b.input)
    (h : fmt.handle F littleE brulconf b = .ok b') : b'.prev = b.prev ∧ b'.cur = b.cur := by
  cases fmt with
  | polar32 =>
    unfold Fmt.handle brulHandleType7 brulHandlePolar at h
    dsimp only at h
    rw [if_pos (not_and_or.mp hfoot)] at h
    cases h
    exact ⟨rfl, rfl⟩
  | polar48 =>
    unfold Fmt.handle brulHandleType5 brulHandlePolar at h
    dsimp only at h
    rw [if_pos (not_and_or.mp hfoot)] at h
    cases h
    exact ⟨rfl, rfl⟩
  | ecm1240 =>
    have hb' := Except.ok.inj h
    unfold brulHandleEcm1240 at hb'
    dsimp only at hb'
    rw [if_pos (not_and_or.mp hfoot)] at hb'
    subst hb'
    exact ⟨rfl, rfl⟩

/-! ## Two packets -/

/-- A handler takes a packet. -/
def brulTake (brulconf : Brulconf) (b : Brul) (packet : Fmt × List (BitVec 8)) : Option Brul :=
  (packet.1.handle F littleE brulconf { b with input := packet.2 }).toOption

/-- Two packets that are accepted one after the other, with others in between that are not, and what is kept after them. -/
structure Pair where
  brulconf : Brulconf
  before : Brul
  first : Fmt × List (BitVec 8)
  between : List (Fmt × List (BitVec 8))
  second : Fmt × List (BitVec 8)
  data : Brul
  accepted : first.1.footer first.2 ∧ second.1.footer second.2
  rejected : ∀ packet ∈ between, ¬ packet.1.footer packet.2
  run : exec (brulTake F littleE brulconf) before (first :: between ++ [second]) = some data

variable {F littleE}

theorem brulTake_eq_some {brulconf : Brulconf} {b b' : Brul} {packet : Fmt × List (BitVec 8)} :
    brulTake F littleE brulconf b packet = some b' ↔ packet.1.handle F littleE brulconf { b with input := packet.2 } = .ok b' := by
  unfold brulTake
  cases packet.1.handle F littleE brulconf { b with input := packet.2 } <;> simp [Except.toOption]

/-- What is compared are the two packets, as far as a handler has kept them. -/
theorem Pair.kept (p : Pair F littleE) :
    p.data.prev.seconds.toInt = (p.first.1.seconds p.first.2).value ∧
    p.data.cur.seconds.toInt = (p.second.1.seconds p.second.2).value ∧
    ∀ i : Fin 48, (i : Int) < p.brulconf.nrofchannels.toInt →
      (∀ x ∈ p.first.1.counter p.first.2 i, ¬ (p.first.1 = .ecm1240 ∧ i.val = 6) → (p.data.prev.channel i).toInt = x.value) ∧
      ∀ y ∈ p.second.1.counter p.second.2 i,
        if p.second.1 = .ecm1240 ∧ i.val = 6 then p.data.cur.channel i = p.data.prev.channel i
        else (p.data.cur.channel i).toInt = y.value := by
  obtain ⟨b1, h1, hrest⟩ := exec_cons_eq_some.mp p.run
  obtain ⟨b2, hmid, hlast⟩ := exec_append_eq_some.mp hrest
  obtain ⟨b3, h3, hend⟩ := exec_cons_eq_some.mp hlast
  cases hend
  have hsame : b2.prev = b1.prev ∧ b2.cur = b1.cur := by
    refine exec_induct_of (I := fun b => b.prev = b1.prev ∧ b.cur = b1.cur) (fun b packet b' hnot hb hs => ?_) p.rejected ⟨rfl, rfl⟩ hmid
    obtain ⟨hprev, hcur⟩ := @handle_rejected F littleE packet.1 _ { b with input := packet.2 } b' hnot (brulTake_eq_some.mp hs)
    exact ⟨hprev.trans hb.1, hcur.trans hb.2⟩
  obtain ⟨-, hsec1, hchan1⟩ :=
    @handle_accepted F littleE p.first.1 _ { p.before with input := p.first.2 } b1 p.accepted.1 (brulTake_eq_some.mp h1)
  obtain ⟨hprev, hsec2, hchan2⟩ :=
    @handle_accepted F littleE p.second.1 _ { b2 with input := p.second.2 } p.data p.accepted.2 (brulTake_eq_some.mp h3)
  have hp : p.data.prev = b1.cur := hprev.trans hsame.2
  rw [hp]
  refine ⟨hsec1, hsec2, fun i hi => ⟨fun x hx hn => ?_, fun y hy => ?_⟩⟩
  · have h := hchan1 i hi x hx
    rw [if_neg hn] at h
    exact h
  · have h := hchan2 i hi y hy
    rw [show ({ b2 with input := p.second.2 } : Brul).cur = b1.cur from hsame.2] at h
    exact h

/-! ## Differences -/

/-- Counters have five bytes, or four for an auxiliary counter of an ECM-1240. -/
theorem counter_width {fmt : Fmt} {input : List (BitVec 8)} {i : Nat} {x : Reading} (hx : x ∈ fmt.counter input i) :
    x.width = 40 ∧ ¬ (fmt = .ecm1240 ∧ i = 6) ∨ fmt = .ecm1240 ∧ x.width = 32 := by
  unfold Fmt.counter at hx
  cases fmt with
  | polar32 =>
    obtain ⟨h, hx⟩ := Option.dite_none_right_eq_some.mp hx
    exact .inl ⟨by rw [← Option.some.inj hx]; rfl, by simp⟩
  | polar48 =>
    obtain ⟨h, hx⟩ := Option.dite_none_right_eq_some.mp hx
    exact .inl ⟨by rw [← Option.some.inj hx]; rfl, by simp⟩
  | ecm1240 =>
    dsimp only at hx
    by_cases h2 : i < 2
    · rw [dif_pos h2] at hx
      exact .inl ⟨by rw [← Option.some.inj hx]; rfl, by omega⟩
    · rw [dif_neg h2] at hx
      obtain ⟨h, hx⟩ := Option.dite_none_right_eq_some.mp hx
      exact .inr ⟨rfl, by rw [← Option.some.inj hx]; rfl⟩

theorem wdiffOf_eq (prev cur : Int) : wdiffOf prev cur = elapsed (2 ^ 40) prev cur := rfl

theorem sdeltaOf_eq (prev cur : Int) : sdeltaOf prev cur = elapsed (2 ^ 24) prev cur := rfl

theorem seconds_width (fmt : Fmt) (input : List (BitVec 8)) : (fmt.seconds input).width = 24 := by
  cases fmt <;> rfl

/-- The seconds between two packets. -/
theorem Pair.sdelta_eq (p : Pair F littleE) : sdeltaOf p.data.prev.seconds.toInt p.data.cur.seconds.toInt =
    (p.first.1.seconds p.first.2).counted (p.second.1.seconds p.second.2) := by
  obtain ⟨hprev, hcur, -⟩ := p.kept
  have hx := (p.first.1.seconds p.first.2).inRange
  have hy := (p.second.1.seconds p.second.2).inRange
  unfold Reading.counted
  rw [seconds_width] at hx hy ⊢
  rw [hprev, hcur, sdeltaOf_eq]
  exact elapsed_eq_emod hx hy

theorem Pair.sdelta_eq_zero_iff (p : Pair F littleE) : sdeltaOf p.data.prev.seconds.toInt p.data.cur.seconds.toInt = 0 ↔
    (p.first.1.seconds p.first.2).value = (p.second.1.seconds p.second.2).value := by
  obtain ⟨hprev, hcur, -⟩ := p.kept
  have hx := (p.first.1.seconds p.first.2).inRange
  have hy := (p.second.1.seconds p.second.2).inRange
  rw [seconds_width] at hx hy
  rw [hprev, hcur, sdeltaOf_eq]
  exact elapsed_eq_zero_iff hx hy

/-- What a counter has counted is found when it has five bytes, and otherwise when it has not run over, and is kept or stands still. -/
theorem Pair.wdiff_iff (p : Pair F littleE) {i : Fin 48} (hi : (i : Int) < p.brulconf.nrofchannels.toInt) {x y : Reading}
    (hx : x ∈ p.first.1.counter p.first.2 i) (hy : y ∈ p.second.1.counter p.second.2 i) (hw : x.width = y.width) :
    wdiffOf (p.data.prev.channel i).toInt (p.data.cur.channel i).toInt = x.counted y ↔
      (x.width = 32 → x.value ≤ y.value ∧ (i.val = 6 → x.value = y.value)) := by
  obtain ⟨-, -, hkept⟩ := p.kept
  obtain ⟨hprev, hcur⟩ := hkept i hi
  have hcur := hcur y hy
  have hxr := x.inRange
  have hyr := y.inRange
  have hval : x.counted y = (y.value - x.value) % 2 ^ y.width := rfl
  rw [hval, wdiffOf_eq]
  rcases counter_width hy with ⟨hy40, hne⟩ | ⟨hecm, hy32⟩
  · have hx40 := hw.trans hy40
    rw [hx40] at hxr
    rw [hy40] at hyr
    rcases counter_width hx with ⟨-, hne'⟩ | ⟨-, hx32⟩
    · rw [if_neg hne] at hcur
      rw [hprev x hx hne', hcur, hy40]
      exact iff_of_true (elapsed_eq_emod hxr hyr) fun h => by omega
    · omega
  · have hx32 := hw.trans hy32
    rw [hx32] at hxr
    rw [hy32] at hyr
    rw [hy32, hx32]
    by_cases h6 : i.val = 6
    · -- the fifth is not kept, so nothing seems to have been counted
      rw [if_pos ⟨hecm, h6⟩] at hcur
      rw [hcur]
      unfold elapsed
      rw [if_neg (lt_irrefl _), sub_self]
      constructor
      · intro h _
        omega
      · intro h
        rw [(h rfl).2 h6, sub_self]
        rfl
    · rw [if_neg fun h => h6 h.2] at hcur
      rw [hprev x hx fun h => h6 h.2, hcur, elapsed_eq_emod_iff (by norm_num) hxr hyr]
      exact ⟨fun h _ => ⟨h, fun h' => absurd h' h6⟩, fun h => (h rfl).1⟩

/-! ## What is stored -/

theorem channelUid_inj {serial : BitVec 32} {kind : String} {i j : Nat} (h : channelUid serial kind i = channelUid serial kind j) :
    i = j := by
  unfold channelUid brulUid at h
  exact padNat_inj (List.append_cancel_left (List.cons.inj (List.append_cancel_left h)).2)

theorem update_eq_some {coll : BrulColl} {uid : Str} {val : BrulVal} {u : BrulUpd} :
    coll.update uid val = some u ↔ coll.devices uid ≠ none ∧ u = ⟨uid, val⟩ := by
  unfold BrulColl.update
  cases coll.devices uid with
  | none => simp
  | some dev => simp [eq_comm]

/-- The watts of a channel are stored in its device. -/
theorem calcWatts_eq_some {coll : BrulColl} {i : Nat} {u : BrulUpd} : calcWatts coll i = .ok (some u) ↔
    coll.devices (channelUid coll.brulconf.serial "w" i) ≠ none ∧ ∃ h : i < 48, u = ⟨channelUid coll.brulconf.serial "w" i,
      .rate (wdiffOf (coll.data.prev.channel ⟨i, h⟩).toInt (coll.data.cur.channel ⟨i, h⟩).toInt)
        (sdeltaOf coll.data.prev.seconds.toInt coll.data.cur.seconds.toInt)⟩ := by
  unfold calcWatts channelAt
  dsimp only
  cases hdev : coll.devices (channelUid coll.brulconf.serial "w" i) with
  | none => simp
  | some dev =>
    by_cases h : i < 48
    · simp only [dif_pos h, bind, Except.bind, Except.ok.injEq, update_eq_some, hdev]
      simp [h]
    · simp [bind, Except.bind, h]

/-- Before the watts, no quotient is stored. -/
theorem rate_not_mem_calcNow {coll : BrulColl} {counts : List BrulUpd}
    (h : collect (calcCount coll) (List.range coll.brulconf.nrofchannels.toInt.toNat) = .ok counts) (uid : Str) (wdiff sdelta : Int) :
    ⟨uid, .rate wdiff sdelta⟩ ∉ calcNow coll counts := by
  intro hmem
  unfold calcNow at hmem
  simp only [List.mem_append, Option.mem_toList, update_eq_some, BrulUpd.mk.injEq, reduceCtorEq, and_false, or_false] at hmem
  rcases hmem with (hmem | hmem) | hmem
  · obtain ⟨i, -, hi⟩ := (mem_collect h).mp hmem
    unfold calcCount at hi
    dsimp only at hi
    split at hi
    · exact nomatch hi
    · obtain ⟨w, -, hw⟩ := Except.map_eq_ok.mp hi
      have hu := (update_eq_some.mp hw).2
      exact nomatch hu
  · unfold calcProbes at hmem
    obtain ⟨i, -, hi⟩ := List.mem_filterMap.mp hmem
    split at hi
    · exact nomatch (update_eq_some.mp hi).2
    · exact nomatch hi
  · unfold calcProbes at hmem
    obtain ⟨i, -, hi⟩ := List.mem_filterMap.mp hmem
    split at hi
    · exact nomatch (update_eq_some.mp hi).2
    · exact nomatch hi

/-- The quotients are those of the channels, and there are none behind a packet whose seconds were zero. -/
theorem rate_mem_iff {coll : BrulColl} {upds : List BrulUpd} (h : calcDevices coll = .ok upds) {uid : Str} {wdiff sdelta : Int} :
    ⟨uid, .rate wdiff sdelta⟩ ∈ upds ↔ coll.data.prev.seconds ≠ 0 ∧ ∃ i : Nat, (i : Int) < coll.brulconf.nrofchannels.toInt ∧
      calcWatts coll i = .ok (some ⟨uid, .rate wdiff sdelta⟩) := by
  obtain ⟨counts, hc, h⟩ := calcDevices_eq_ok.mp h
  by_cases hs : coll.data.prev.seconds = 0
  · rw [if_pos hs] at h
    rw [h]
    exact iff_of_false (rate_not_mem_calcNow hc uid wdiff sdelta) fun h' => h'.1 hs
  · rw [if_neg hs] at h
    obtain ⟨watts, hw, rfl⟩ := h
    rw [List.mem_append, or_iff_right (rate_not_mem_calcNow hc uid wdiff sdelta), mem_collect hw]
    constructor
    · rintro ⟨i, hi, hu⟩
      rw [List.mem_range] at hi
      exact ⟨hs, i, by omega, hu⟩
    · rintro ⟨-, i, hi, hu⟩
      exact ⟨i, List.mem_range.mpr (by omega), hu⟩

/-! ## Comparing -/

/-- `calc_devices` goes through, stores for every channel that has a device and a counter in both packets what has been counted and in
what time, and divides by no time that is zero. -/
def Counted (coll : BrulColl) (first second : Fmt × List (BitVec 8)) : Prop :=
  ∃ upds, calcDevices coll = .ok upds ∧
    (∀ i : Nat, (i : Int) < coll.brulconf.nrofchannels.toInt → coll.devices (channelUid coll.brulconf.serial "w" i) ≠ none →
      ∀ x ∈ first.1.counter first.2 i, ∀ y ∈ second.1.counter second.2 i, x.width = y.width →
        ⟨channelUid coll.brulconf.serial "w" i, .rate (x.counted y) ((first.1.seconds first.2).counted (second.1.seconds second.2))⟩ ∈
          upds) ∧
    ∀ uid wdiff sdelta, ⟨uid, .rate wdiff sdelta⟩ ∈ upds → sdelta ≠ 0

/-- The channels that have devices are kept, time goes on between the packets and does not start at zero, and the auxiliary counters
do not run over, and the fifth stands still. -/
structure Countable (coll : BrulColl) (first second : Fmt × List (BitVec 8)) : Prop where
  counts : ∀ i : Nat, (i : Int) < coll.brulconf.nrofchannels.toInt →
    coll.devices (channelUid coll.brulconf.serial "c" i) ≠ none → i < 48
  watts : (first.1.seconds first.2).value ≠ 0 → ∀ i : Nat, (i : Int) < coll.brulconf.nrofchannels.toInt →
    coll.devices (channelUid coll.brulconf.serial "w" i) ≠ none →
      i < 48 ∧ (first.1.seconds first.2).value ≠ (second.1.seconds second.2).value
  readings : ∀ i : Nat, (i : Int) < coll.brulconf.nrofchannels.toInt → coll.devices (channelUid coll.brulconf.serial "w" i) ≠ none →
    ∀ x ∈ first.1.counter first.2 i, ∀ y ∈ second.1.counter second.2 i, x.width = y.width →
      (first.1.seconds first.2).value ≠ 0 ∧ (x.width = 32 → x.value ≤ y.value ∧ (i = 6 → x.value = y.value))

theorem counter_lt {fmt : Fmt} {input : List (BitVec 8)} {i : Nat} {x : Reading} (hx : x ∈ fmt.counter input i) : i < 48 := by
  unfold Fmt.counter at hx
  cases fmt with
  | polar32 =>
    obtain ⟨h, -⟩ := Option.dite_none_right_eq_some.mp hx
    omega
  | polar48 =>
    obtain ⟨h, -⟩ := Option.dite_none_right_eq_some.mp hx
    exact h
  | ecm1240 =>
    dsimp only at hx
    split at hx
    · omega
    · obtain ⟨h, -⟩ := Option.dite_none_right_eq_some.mp hx
      omega

variable (p : Pair F littleE) (devices : Str → Option Device)

theorem Pair.seconds_ne_zero_iff : p.data.prev.seconds ≠ 0 ↔ (p.first.1.seconds p.first.2).value ≠ 0 := by
  rw [← p.kept.1]
  exact not_congr BitVec.toInt_inj.symm

theorem countable_of_counted (h : Counted ⟨p.brulconf, p.data, devices⟩ p.first p.second) :
    Countable ⟨p.brulconf, p.data, devices⟩ p.first p.second := by
  obtain ⟨upds, hcalc, hall, hdiv⟩ := h
  obtain ⟨hcounts, hwatts⟩ := (exists_calcDevices_iff _).mp ⟨upds, hcalc⟩
  refine ⟨hcounts, fun ht i hi hdev => ?_, fun i hi hdev x hx y hy hw => ?_⟩
  · have hs := p.seconds_ne_zero_iff.mpr ht
    have h48 := hwatts hs i hi hdev
    refine ⟨h48, fun heq => ?_⟩
    have hmem := (rate_mem_iff hcalc).mpr ⟨hs, i, hi, calcWatts_eq_some.mpr ⟨hdev, h48, rfl⟩⟩
    exact hdiv _ _ _ hmem (p.sdelta_eq_zero_iff.mpr heq)
  · obtain ⟨hs, j, hj, hstored⟩ := (rate_mem_iff hcalc).mp (hall i hi hdev x hx y hy hw)
    obtain ⟨-, h48, heq⟩ := calcWatts_eq_some.mp hstored
    obtain ⟨huid, hval⟩ := BrulUpd.mk.inj heq
    cases channelUid_inj huid
    exact ⟨p.seconds_ne_zero_iff.mp hs, (p.wdiff_iff (i := ⟨i, h48⟩) hi hx hy hw).mp (BrulVal.rate.inj hval).1.symm⟩

/-- Between any two packets that are accepted one after the other, `calc_devices` finds what the counters have counted and in what time,
exactly when the counters are those its formula is for. -/
theorem counted_iff : Counted ⟨p.brulconf, p.data, devices⟩ p.first p.second ↔
    Countable ⟨p.brulconf, p.data, devices⟩ p.first p.second := by
  refine ⟨countable_of_counted p devices, fun h => ?_⟩
  obtain ⟨upds, hcalc⟩ := (exists_calcDevices_iff ⟨p.brulconf, p.data, devices⟩).mpr
    ⟨h.counts, fun hs i hi hdev => (h.watts (p.seconds_ne_zero_iff.mp hs) i hi hdev).1⟩
  refine ⟨upds, hcalc, fun i hi hdev x hx y hy hw => ?_, fun uid wdiff sdelta hmem => ?_⟩
  · obtain ⟨ht, hdiff⟩ := h.readings i hi hdev x hx y hy hw
    have h48 := counter_lt hx
    refine (rate_mem_iff hcalc).mpr ⟨p.seconds_ne_zero_iff.mpr ht, i, hi, calcWatts_eq_some.mpr ⟨hdev, h48, ?_⟩⟩
    dsimp only
    rw [(p.wdiff_iff (i := ⟨i, h48⟩) hi hx hy hw).mpr hdiff, p.sdelta_eq]
  · obtain ⟨hs, i, hi, hstored⟩ := (rate_mem_iff hcalc).mp hmem
    obtain ⟨hdev, h48, heq⟩ := calcWatts_eq_some.mp hstored
    rw [(BrulVal.rate.inj (BrulUpd.mk.inj heq).2).2]
    exact fun h0 => (h.watts (p.seconds_ne_zero_iff.mp hs) i hi hdev).2 (p.sdelta_eq_zero_iff.mp h0)

/-- A packet of an ECM-1240 with some seconds and some watt seconds on its first auxiliary counter. -/
def Ecm1240.reads (seconds aux : BitVec 8) : Ecm1240 where
  header i := if i = 0 then 0xFE else 0xFF
  hformat := 3
  voltage _ := 0
  channel _ _ := 0
  polar _ _ := 0
  res1 _ := 0
  serial _ := 0
  flag := 0
  devid := 0
  amps _ _ := 0
  seconds i := if i = 0 then seconds else 0
  aux i k := if i = 0 ∧ k = 0 then aux else 0
  dcin _ := 0
  footer i := if i = 0 then 0xFF else 0xFE
  checksum := 0

theorem decode_reads (seconds aux : BitVec 8) :
    Ecm1240.layout.decode (Ecm1240.layout.encode (Ecm1240.reads seconds aux)) = Ecm1240.reads seconds aux := by
  have h := Ecm1240.layout.decode_encode (Ecm1240.reads seconds aux) []
  rwa [List.append_nil] at h

/-- Ten seconds in which an auxiliary counter comes down from one to zero. -/
def ranPast : Pair Doubles.exact true where
  brulconf := ⟨3, 0, 0, 0⟩
  before := Brul.fresh
  first := (.ecm1240, Ecm1240.layout.encode (Ecm1240.reads 10 1))
  between := []
  second := (.ecm1240, Ecm1240.layout.encode (Ecm1240.reads 20 0))
  data :=
    let b := brulHandleEcm1240 Doubles.exact true { Brul.fresh with input := Ecm1240.layout.encode (Ecm1240.reads 10 1) }
    brulHandleEcm1240 Doubles.exact true { b with input := Ecm1240.layout.encode (Ecm1240.reads 20 0) }
  accepted := by
    unfold Fmt.footer
    dsimp only
    rw [decode_reads, decode_reads]
    exact ⟨⟨rfl, rfl⟩, rfl, rfl⟩
  rejected := nofun
  run := rfl

theorem not_counted : ¬ ∀ (p : Pair Doubles.exact true) (devices : Str → Option Device),
    Counted ⟨p.brulconf, p.data, devices⟩ p.first p.second := by
  intro h
  have hc := countable_of_counted ranPast _ (h ranPast fun uid => some { uid := uid })
  have hcounter : ∀ seconds aux : BitVec 8, Reading.ofBytes ((Ecm1240.reads seconds aux).aux 0) ∈
      Fmt.ecm1240.counter (Ecm1240.layout.encode (Ecm1240.reads seconds aux)) 2 := by
    intro seconds aux
    unfold Fmt.counter
    dsimp only
    rw [dif_neg (by decide), dif_pos (by decide), decode_reads]
    rfl
  have hle := ((hc.readings 2 (by decide) (Option.some_ne_none _) _ (hcounter 10 1) _ (hcounter 20 0) rfl).2 rfl).1
  revert hle
  decide

end Gnhast.Brulcoll
