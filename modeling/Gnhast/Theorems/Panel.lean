import Gnhast.Lemmas.Panel

/-!
# The messages of an alarm panel

The read callback comes to its end exactly when each line it handles has the fields that are read from it, and the devices and zones these
fields name are there. A message of a wireless device then sets only what belongs to it. One of an expander never sets the device of that
expander but the one of the relay with its numbers, and the other way round: the tests for the kind of the message are the wrong way round.
-/

namespace Gnhast.Ad2usbcoll

open CStr Faults Buffers

variable (F : Doubles) (conf : PanelConf)

/-! ## What the messages say -/

/-- A numeral: one digit or more. -/
def Digits (s : Str) : Prop := s ≠ [] ∧ ∀ c ∈ s, isdigit c = true

instance (s : Str) : Decidable (Digits s) :=
  have : Decidable (∀ c ∈ s, isdigit c = true) := List.decidableBAll _ s
  inferInstanceAs (Decidable (_ ∧ _))

/-- The message of an expander or a relay. -/
def extraLine (tag addr input val : Str) : Str := tag ++ (addr ++ chComma :: (input ++ chComma :: val))

/-- The message of a wireless device. -/
def rfxLine (serial msg : Str) : Str := str "!RFX:" ++ (serial ++ chComma :: msg)

/-- The device of an input of an expander, or of a relay. -/
def extraUid (kind : Str) (addr input : Nat) : Str := conf.uid (kind ++ chMinus :: padNat 2 addr ++ chMinus :: padNat 2 input)

/-- The devices of a wireless device: its loops and its battery. -/
def rfxUids (serial : Nat) : List Str :=
  [str "-l1", str "-l2", str "-l3", str "-l4", str "-lowbat"].map fun t => conf.uid (padNat 7 serial ++ t)

/-- A value is stored, and in one device only. -/
def OnlySets (out : List PanelOut) (uid : Str) (val : BitVec 32) : Prop :=
  (∃ u w, PanelOut.stored u w ∈ out) ∧ ∀ u w, PanelOut.stored u w ∈ out → u = uid ∧ w = val

/-- What is done for a line is what the line says. -/
structure Right (line : Str) (out : List PanelOut) : Prop where
  exp : ∀ a i v, Digits a → Digits i → Digits v → line = extraLine (str "!EXP:") a i v →
    OnlySets out (extraUid conf (str "exp") (digitsVal a) (digitsVal i)) (BitVec.ofNat 32 (digitsVal v))
  rel : ∀ a i v, Digits a → Digits i → Digits v → line = extraLine (str "!REL:") a i v →
    OnlySets out (extraUid conf (str "rel") (digitsVal a) (digitsVal i)) (BitVec.ofNat 32 (digitsVal v))
  rfx : ∀ n m, Digits n → line = rfxLine n m → ∀ u w, PanelOut.stored u w ∈ out → u ∈ rfxUids conf (digitsVal n)

/-- The callback comes to its end, and does what each line it handles says. -/
structure Dispatches (lines : List Str) (s : Panel) : Prop where
  ends : ∃ r, ad2usbBufReadCb F conf lines s = .ok r
  right : Each (handleData F conf) (fun line s => ∀ s' out, handleData F conf line s = .ok (s', out) → Right conf line out)
    (handled lines) s

/-! ## When the callback does so -/

/-- The second section names a zone that is there, or the eighth where the first section holds the word. -/
def FaultOk (p : Str) (val : Option (BitVec 32)) (s : Panel) : Prop :=
  conf.count ≤ s.zonefaults.length ∧ ∃ v, val = some v ∧ ((v = 8 ∧ (strstr (str "FAULT ") p).isSome) ∨
    (Takes conf s (zoneName v.toInt) ∧ 0 < v.toInt ∧ v.toInt ≤ s.zonefaults.length))

/-- The zones of the configuration have counters, and those that are known can be updated. -/
def ClearOk (s : Panel) : Prop := conf.count ≤ s.zonefaults.length ∧ ∀ i < conf.count, MayTake conf s (zoneName (i + 1))

/-- What the second section needs. -/
def SectionOk (p : Str) (hit : Bool) (p2 : Str) (s : Panel) : Prop :=
  if stdFault p hit then FaultOk conf p ((scanD p2).map (·.1)) s else hit = true ∨ ClearOk conf s

/-- A line of the panel: a short first section, or four sections and what they need. -/
def StdOk (data : Str) (s : Panel) : Prop :=
  match strtok chComma data with
  | [] => False
  | [p] => p.length < 22
  | p :: p2 :: sections => 22 ≤ p.length →
    (∀ u ∈ stdUpdates p (strcasestr hitStar data).isSome, Takes conf s u.1) ∧
      SectionOk conf p (strcasestr hitStar data).isSome p2 s ∧ 2 ≤ sections.length

/-- A line of a wireless device: of another length, without a field, or with a serial number whose known devices can be updated, and a
message if one is known. -/
def RfxOk (data : Str) (len : Nat) (s : Panel) : Prop :=
  len = 15 → ∀ p ∈ (strtok chColon data)[1]?, ∃ serial rest, scanD p = some (serial, rest) ∧
    ∀ d ∈ rfxNames serial, MayTake conf s d.1 ∧ (scanMsg rest = none → s.known (conf.uid d.1) = none)

/-- The kind of device that the code sets for a first token. -/
def kindSet (p : Option Str) : Str := if p = some (str "!EXP") then str "rel" else str "exp"

/-- The device that a suffix names can be updated, or built and updated. -/
def CanSet (s : Panel) (suffix : Str) : Prop :=
  Room conf suffix ∧ (s.known (conf.uid suffix)).getD (decide (HoldsInt (built conf subtypeSwitch (conf.uid suffix)))) = true

/-- A line of an expander or a relay: a short one, without a field, or with three numbers that name a device which can be updated or built. -/
def ExpOk (data : Str) (len : Nat) (s : Panel) : Prop :=
  10 ≤ len → ∀ p ∈ (strtok chColon data)[1]?, ∃ addr input val, scanInts 3 p = [addr, input, val] ∧
    CanSet conf s (extraName (kindSet (strtok chColon data)[0]?) addr input)

/-- A line that its handler can handle. -/
def Safe (line : Str) (s : Panel) : Prop :=
  if 2 < line.length ∧ line.head? = some 91 then StdOk conf (cstr line) s
  else if (strstr (str "!RFX:") (cstr line)).isSome then RfxOk conf (cstr line) line.length s
  else if (strstr (str "!EXP:") (cstr line)).isSome ∨ (strstr (str "!REL:") (cstr line)).isSome then
    ExpOk conf (cstr line) line.length s
  else True

/-- A line `!EXP:a,i,v` or `!REL:a,i,v`. -/
def IsExtra (line : Str) : Prop :=
  ∃ tag a i v, (tag = str "!EXP:" ∨ tag = str "!REL:") ∧ Digits a ∧ Digits i ∧ Digits v ∧ line = extraLine tag a i v

/-- The zones of the configuration have counters, and those that are known can be updated when their counter is one. -/
def EndOk (s : Panel) : Prop :=
  conf.count ≤ s.zonefaults.length ∧ ∀ i < conf.count, s.zonefaults[i]? = some 1 → MayTake conf s (zoneName (i + 1))

/-- Each line that is handled is none of an expander or a relay and can be handled in the state it is met in, and so can the counters at the
end. -/
structure Meets (lines : List Str) (s : Panel) : Prop where
  each : Each (handleData F conf) (fun line s => ¬ IsExtra line ∧ Safe conf line s) (handled lines) s
  counters : handled lines ≠ [] → ∀ s' out, rounds (handleData F conf) (handled lines) s = .ok (s', out) → EndOk conf s'

/-! ## The lines of the panel -/

variable {F conf}

theorem setFaults_settles (zonefaults : List Int) (i v : Int) :
    Faults.Settles (fun _ => True) (0 ≤ i ∧ i < zonefaults.length) (setFaults zonefaults i v) := by
  unfold setFaults
  split
  · rename_i h
    exact settles_ok h _
  · rename_i h
    exact settles_error h trivial

theorem setFaults_eq_ok {zonefaults zonefaults' : List Int} {i v : Int} (h : setFaults zonefaults i v = .ok zonefaults') :
    zonefaults' = zonefaults.set i.toNat v := by
  unfold setFaults at h
  split at h
  · cases h
    rfl
  · cases h

theorem faultZone_settles (p : Str) (val : Option (BitVec 32)) (s : Panel) :
    Faults.Settles (fun _ => True) (FaultOk conf p val s) (faultZone F conf p val s) := by
  have hcount : Faults.Settles (fun _ => True) (conf.count ≤ s.zonefaults.length) (countFaults conf s) := by
    unfold countFaults
    split
    · rename_i h
      exact settles_ok h _
    · rename_i h
      exact settles_error h trivial
  unfold faultZone FaultOk
  refine hcount.bind fun zf _ => ?_
  cases val with
  | none => exact settles_error (by simp) trivial
  | some v =>
    have hbuf : intoBuffer 16 (zoneName v.toInt) = .ok (zoneName v.toInt) := intoBuffer_of_lt (length_zoneName_lt (natAbs_toInt_lt v))
    simp only [hbuf, bind, Except.bind]
    by_cases h8 : v = 8 ∧ (strstr (str "FAULT ") p).isSome
    · rw [if_pos h8]
      exact settles_ok ⟨v, rfl, Or.inl h8⟩ _
    · rw [if_neg h8]
      refine Faults.Settles.congr ((updateIntDev_settles 1 (zoneName v.toInt) true s).bind
        (q := 0 < v.toInt ∧ v.toInt ≤ s.zonefaults.length) fun r hr => (Faults.Settles.map ?_ _)) ?_
      · obtain ⟨s₁, out₁⟩ := r
        rw [(updateIntDev_eq_ok hr).2.1]
        exact (setFaults_settles _ _ _).congr (by omega)
      · constructor
        · intro h
          exact ⟨v, rfl, Or.inr h⟩
        · rintro ⟨v', hv, h | h⟩
          · cases hv
            exact absurd h h8
          · cases hv
            exact h

theorem clearRound_eq_ok {i : Nat} {s s' : Panel} {out : List PanelOut} (h : clearRound F conf i s = .ok (s', out)) :
    Stores (fun _ => True) s s' out := by
  obtain ⟨zonefaults, hz, h⟩ := bind_eq_ok.mp h
  obtain ⟨buf, hbuf, h⟩ := bind_eq_ok.mp h
  obtain rfl := setFaults_eq_ok hz
  obtain ⟨hs, -⟩ := updateKnown_eq_ok h
  exact ⟨hs.known, hs.length.trans (List.length_set ..), fun _ _ _ => trivial, hs.frame⟩

theorem clearRounds_settles (s : Panel) : Faults.Settles (fun _ => True) (ClearOk conf s)
    (rounds (clearRound F conf) (List.range conf.count) s) := by
  have hround : ∀ (i : Nat) (s : Panel), Faults.Settles (fun _ => True) (i < s.zonefaults.length ∧ (zoneName (i + 1)).length < 16 ∧
      MayTake conf s (zoneName (i + 1))) (clearRound F conf i s) := by
    intro i s
    refine Faults.Settles.congr ((setFaults_settles s.zonefaults i 0).bind fun zonefaults hz =>
      (intoBuffer_settles 16 (zoneName (i + 1))).bind fun buf hbuf => ?_) (p := _ ∧ _ ∧ MayTake conf s (zoneName (i + 1))) ?_
    · obtain rfl := intoBuffer_eq_ok hbuf
      exact (updateKnown_settles (some 0) _ _).congr (by simp [MayTake, Panel.known])
    · simp
  refine (settles_rounds hround (List.pairwise_of_forall fun i j s s' out h => ?_) s).congr ?_
  · have hs := clearRound_eq_ok h
    rw [hs.length, hs.mayTake_iff]
  · simp only [List.mem_range, ClearOk]
    constructor
    · intro h
      refine ⟨?_, fun i hi => (h i hi).2.2⟩
      by_contra hlt
      exact absurd (h s.zonefaults.length (by omega)).1 (lt_irrefl _)
    · intro h i hi
      exact ⟨by omega, length_zone_lt hi, h.2 i hi⟩

theorem sectionTwo_settles (p : Str) (hit : Bool) (p2 : Str) (s : Panel) :
    Faults.Settles (fun _ => True) (SectionOk conf p hit p2 s) (sectionTwo F conf p hit p2 s) := by
  unfold sectionTwo SectionOk
  split
  · exact faultZone_settles _ _ _
  · split
    · rename_i h
      exact settles_ok (Or.inl h) _
    · rename_i h
      exact (clearRounds_settles s).congr (by simp [h])

theorem Stores.sectionOk_iff {U : Str → Prop} {s s' : Panel} {out : List PanelOut} (h : Stores U s s' out) {p p2 : Str} {hit : Bool} :
    SectionOk conf p hit p2 s' ↔ SectionOk conf p hit p2 s := by
  simp only [SectionOk, FaultOk, ClearOk, h.length, h.takes_iff, h.mayTake_iff]

/-- The buffer for the keys is not used after it was freed: where the panel asks for a key, no fault is dealt with. -/
theorem sendKeys_ok (p : Str) {data p4 : Str} (h4 : p4 ∈ strtok chComma data) :
    ∃ out, sendKeys (stdFault p (strcasestr hitStar data).isSome) (strcasestr hitStar p4).isSome = .ok out := by
  unfold sendKeys
  cases h : strcasestr hitStar p4 with
  | none => exact ⟨_, rfl⟩
  | some q =>
    obtain ⟨hq, pre, hpre⟩ := strcasestr_eq_some h
    obtain ⟨pre', post, hdata⟩ := infix_of_mem_strtok h4
    have hhit : (strcasestr hitStar data).isSome = true := by
      have hqpost : prefixCase hitStar (q ++ post) = true := by
        rw [prefixCase, List.isPrefixOf_iff_prefix] at hq ⊢
        rw [List.map_append]
        exact hq.trans (List.prefix_append _ _)
      obtain ⟨r, hr⟩ := strcasestr_isSome hqpost (by decide) (pre' ++ pre)
      have hsplit : pre' ++ pre ++ (q ++ post) = data := by
        rw [← hdata, ← hpre]
        simp only [List.append_assoc]
      rw [← hsplit, hr]
      rfl
    rw [hhit]
    exact ⟨_, by simp [stdFault]; rfl⟩

theorem ad2usbHandleStd_settles (data : Str) (s : Panel) :
    Faults.Settles (fun _ => True) (StdOk conf data s) (ad2usbHandleStd F conf data s) := by
  unfold ad2usbHandleStd StdOk
  cases hs : strtok chComma data with
  | nil => exact settles_error (fun h => h) trivial
  | cons p sections =>
    simp only
    by_cases hlen : p.length < 22
    · rw [if_pos hlen]
      refine settles_ok ?_ _
      cases sections with
      | nil => exact hlen
      | cons p2 sections => exact fun h => absurd hlen (by omega)
    · rw [if_neg hlen]
      cases sections with
      | nil =>
        refine Faults.Settles.congr ((updates_settles _ s).bind (q := False) fun r _ => settles_error (fun h => h) trivial) ?_
        simp [hlen]
      | cons p2 sections =>
        refine Faults.Settles.congr ((updates_settles _ s).bind fun ⟨s₁, out₁⟩ hr => (Faults.Settles.congr
          ((sectionTwo_settles p _ p2 s₁).bind (q := 2 ≤ sections.length) fun r' _ => ?_)
          (and_congr_left' (updates_stores hr).sectionOk_iff))) ?_
        · cases h4 : sections[1]? with
          | none => exact settles_error (Nat.not_le.mpr (Nat.lt_succ_of_le (List.getElem?_eq_none_iff.mp h4))) trivial
          | some p4 =>
            have hmem : p4 ∈ strtok chComma data := by
              rw [hs]
              exact List.mem_cons_of_mem _ (List.mem_cons_of_mem _ (List.mem_of_getElem? h4))
            obtain ⟨out, hout⟩ := sendKeys_ok p hmem
            simp only [hout, Except.map]
            exact settles_ok (List.getElem?_eq_some_iff.mp h4).1 _
        · exact ⟨fun h _ => h, fun h => h (by omega)⟩

/-! ## The lines of wireless devices -/

theorem rfxRound_settles (msg : Option (BitVec 8)) (d : Str × BitVec 8) (s : Panel) :
    Faults.Settles (fun _ => True) (d.1.length < 32 ∧ MayTake conf s d.1 ∧ (msg = none → s.known (conf.uid d.1) = none))
      (rfxRound F conf msg d s) := by
  refine (intoBuffer_settles 32 d.1).bind fun buf hbuf => ?_
  obtain rfl := intoBuffer_eq_ok hbuf
  exact (updateKnown_settles _ _ _).congr (by rw [Option.map_eq_none_iff])

theorem rfxRound_eq_ok {msg : Option (BitVec 8)} {d : Str × BitVec 8} {s s' : Panel} {out : List PanelOut}
    (h : rfxRound F conf msg d s = .ok (s', out)) : Stores (· = conf.uid d.1) s s' out := by
  obtain ⟨buf, hbuf, h⟩ := bind_eq_ok.mp h
  obtain rfl := intoBuffer_eq_ok hbuf
  exact (updateKnown_eq_ok h).1

theorem ad2usbHandleRfx_settles (data : Str) (len : Nat) (s : Panel) :
    Faults.Settles (fun _ => True) (RfxOk conf data len s) (ad2usbHandleRfx F conf data len s) := by
  unfold ad2usbHandleRfx RfxOk
  by_cases hlen : len = 15
  · rw [if_neg (not_not.mpr hlen)]
    cases h1 : (strtok chColon data)[1]? with
    | none => exact settles_ok (by simp) _
    | some p =>
      simp only
      cases hscan : scanD p with
      | none => exact settles_error (by simp [hlen, hscan]) trivial
      | some r =>
        obtain ⟨serial, rest⟩ := r
        refine (settles_rounds (fun d s => rfxRound_settles (scanMsg rest) d s)
          (List.pairwise_of_forall fun d d' s s' out h => ?_) s).congr ?_
        · have hs := rfxRound_eq_ok h
          rw [hs.mayTake_iff, hs.known]
        · constructor
          · rintro h - p' hp'
            cases hp'
            exact ⟨serial, rest, hscan, fun d hd => (h d hd).2⟩
          · intro h d hd
            obtain ⟨serial', rest', hscan', hall⟩ := h hlen p rfl
            rw [hscan] at hscan'
            cases hscan'
            exact ⟨length_rfxName_lt hd, hall d hd⟩
  · rw [if_pos hlen]
    exact settles_ok (fun h => absurd h hlen) _

/-- What is stored for a wireless device goes to the devices with its serial number. -/
theorem ad2usbHandleRfx_eq_ok {data : Str} {len : Nat} {s s' : Panel} {out : List PanelOut}
    (h : ad2usbHandleRfx F conf data len s = .ok (s', out)) {u : Str} {w : BitVec 32} (hw : PanelOut.stored u w ∈ out) :
    len = 15 ∧ ∃ p serial rest, (strtok chColon data)[1]? = some p ∧ scanD p = some (serial, rest) ∧
      ∃ d ∈ rfxNames serial, u = conf.uid d.1 := by
  unfold ad2usbHandleRfx at h
  split at h
  · cases h
    cases hw
  · rename_i hlen
    split at h
    · cases h
      cases hw
    · rename_i p hp
      split at h
      · cases h
      · rename_i serial rest hscan
        have hs : Stores (fun u => ∃ d ∈ rfxNames serial, u = conf.uid d.1) s s' out :=
          rounds_induct (Q := Stores fun u => ∃ d ∈ rfxNames serial, u = conf.uid d.1) .refl .append
            (fun d hd _ _ _ hround => (rfxRound_eq_ok hround).mono fun u hu => ⟨d, hd, hu⟩) h
        exact ⟨not_not.mp hlen, p, serial, rest, hp, hscan, hs.within u w hw⟩

/-! ## The lines of expanders and relays -/

theorem extraKind_some (t : Str) : ∃ type, extraKind (some t) = some type ∧ extratype.getD type [] = kindSet (some t) := by
  unfold extraKind kindSet
  by_cases ht : t = str "!EXP"
  · subst ht
    exact ⟨2, rfl, rfl⟩
  · refine ⟨1, if_pos ht, ?_⟩
    rw [if_neg (by simpa using ht)]
    rfl

theorem setExtra_settles {suffix : Str} (hlen : suffix.length < 32) (val : BitVec 32) (s : Panel) :
    Faults.Settles (fun _ => True) (CanSet conf s suffix) (setExtra F conf suffix val s) := by
  unfold setExtra CanSet
  rw [intoBuffer_of_lt hlen]
  refine (devUid_settles suffix).bind fun buf hbuf => ?_
  have hroom := room_of_devUid hbuf
  obtain rfl := devUid_eq_ok hbuf
  cases hd : s.devices (conf.uid suffix) with
  | none =>
    have hnone : s.known (conf.uid suffix) = none := by rw [Panel.known, hd, Option.map_none]
    refine Faults.Settles.congr ((newIntDev_settles subtypeSwitch val suffix s).bind
      (q := HoldsInt (built conf subtypeSwitch (conf.uid suffix))) fun r hr => (Faults.Settles.map ?_ _)) ?_
    · refine (updateIntDev_settles val suffix true r.1).congr ?_
      rw [Takes, (newIntDev_eq_ok hr).1, Function.update_self]
      simp [hroom]
    · rw [hnone, Option.getD_none, decide_eq_true_iff]
      exact ⟨fun h => h.2, fun h => ⟨⟨hroom, h.1⟩, h⟩⟩
  | some dev =>
    refine (updateIntDev_settles val suffix true s).congr ?_
    have hsome : s.known (conf.uid suffix) = some (decide (HoldsInt dev)) := by rw [Panel.known, hd, Option.map_some]
    rw [Takes, hsome, Option.getD_some, Option.some.injEq]
    exact and_iff_right hroom

/-- What is stored goes to the device that the suffix names. -/
theorem setExtra_eq_ok {suffix : Str} {val : BitVec 32} {s s' : Panel} {out : List PanelOut}
    (h : setExtra F conf suffix val s = .ok (s', out)) {u : Str} {w : BitVec 32} (hw : PanelOut.stored u w ∈ out) :
    u = conf.uid suffix := by
  unfold setExtra at h
  obtain ⟨buf, hbuf, hrest⟩ := bind_eq_ok.mp h
  obtain rfl := intoBuffer_eq_ok hbuf
  obtain ⟨buf2, -, hset⟩ := bind_eq_ok.mp hrest
  split at hset
  · obtain ⟨⟨s₁, out₁⟩, hr, hupdate⟩ := bind_eq_ok.mp hset
    obtain ⟨⟨s₂, out₂⟩, hr', he⟩ := map_eq_ok.mp hupdate
    cases he
    rcases List.mem_append.mp hw with hw | hw
    · exact (newIntDev_eq_ok hr).2.2.2 u w hw
    · rcases List.mem_cons.mp hw with hw | hw
      · cases hw
      · exact (updateIntDev_eq_ok hr').1.within u w hw
  · exact (updateIntDev_eq_ok hset).1.within u w hw

theorem ad2usbHandleExp_settles (data : Str) (len : Nat) (s : Panel) :
    Faults.Settles (fun _ => True) (ExpOk conf data len s) (ad2usbHandleExp F conf data len s) := by
  unfold ad2usbHandleExp ExpOk
  by_cases hlen : len < 10
  · rw [if_pos hlen]
    exact settles_ok (fun h => absurd hlen (by omega)) _
  · rw [if_neg hlen]
    cases h1 : (strtok chColon data)[1]? with
    | none => exact settles_ok (by simp) _
    | some p =>
      have hlt := (List.getElem?_eq_some_iff.mp h1).1
      have h0 : (strtok chColon data)[0]? = some (strtok chColon data)[0] := List.getElem?_eq_getElem (by omega)
      obtain ⟨type, htype, hkind⟩ := extraKind_some (strtok chColon data)[0]
      rw [← h0] at htype hkind
      simp only [htype]
      have hk4 : (kindSet (strtok chColon data)[0]?).length ≤ 4 := by
        unfold kindSet
        split <;> decide
      split
      · rename_i t addr input val ht hscan
        cases ht
        rw [hkind]
        refine (setExtra_settles (length_extraName_lt hk4 addr input) val s).congr ?_
        constructor
        · rintro h - p' hp'
          cases hp'
          exact ⟨addr, input, val, hscan, h⟩
        · intro h
          obtain ⟨addr', input', val', hscan', h⟩ := h (by omega) p rfl
          rw [hscan] at hscan'
          cases hscan'
          exact h
      · rename_i hno
        refine settles_error (fun h => ?_) trivial
        obtain ⟨addr, input, val, hscan, -⟩ := h (by omega) p rfl
        exact hno type addr input val rfl hscan

/-- What is stored goes to one device of the kind that is set for the first token. -/
theorem ad2usbHandleExp_eq_ok {data : Str} {len : Nat} {s s' : Panel} {out : List PanelOut}
    (h : ad2usbHandleExp F conf data len s = .ok (s', out)) {u : Str} {w : BitVec 32} (hw : PanelOut.stored u w ∈ out) :
    ∃ addr input, u = conf.uid (extraName (kindSet (strtok chColon data)[0]?) addr input) := by
  unfold ad2usbHandleExp at h
  split at h
  · cases h
    cases hw
  · split at h
    · cases h
      cases hw
    · rename_i p hp
      have hlt := (List.getElem?_eq_some_iff.mp hp).1
      have h0 : (strtok chColon data)[0]? = some (strtok chColon data)[0] := List.getElem?_eq_getElem (by omega)
      obtain ⟨type, htype, hkind⟩ := extraKind_some (strtok chColon data)[0]
      rw [← h0] at htype hkind
      split at h
      · rename_i t addr input val ht hscan
        rw [htype] at ht
        cases ht
        rw [hkind] at h
        exact ⟨addr, input, setExtra_eq_ok h hw⟩
      · cases h

/-! ## The fault counters -/

theorem decrementRound_settles (i : Nat) (s : Panel) : Faults.Settles (fun _ => True) (i < s.zonefaults.length ∧
    (s.zonefaults[i]? = some 1 → (zoneName (i + 1)).length < 16 ∧ MayTake conf s (zoneName (i + 1)))) (decrementRound F conf i s) := by
  unfold decrementRound
  cases hz : s.zonefaults[i]? with
  | none => exact settles_error (fun h => absurd (List.getElem?_eq_none_iff.mp hz) (by omega)) trivial
  | some j =>
    have hlt := (List.getElem?_eq_some_iff.mp hz).1
    simp only
    by_cases hj : j = 1
    · subst hj
      rw [if_pos (by decide)]
      refine Faults.Settles.congr ((intoBuffer_settles 16 (zoneName (i + 1))).bind (q := MayTake conf s (zoneName (i + 1)))
        fun buf hbuf => ?_) ?_
      · obtain rfl := intoBuffer_eq_ok hbuf
        exact (updateKnown_settles (some 0) _ _).congr (by simp [MayTake, Panel.known])
      · exact ⟨fun h => ⟨hlt, fun _ => h⟩, fun h => h.2 rfl⟩
    · rw [if_neg (by split <;> omega)]
      exact settles_ok ⟨hlt, fun h => absurd (Option.some.inj h) hj⟩ _

theorem decrementRound_eq_ok {i : Nat} {s s' : Panel} {out : List PanelOut} (h : decrementRound F conf i s = .ok (s', out)) :
    Stores (fun _ => True) s s' out ∧ ∀ k, i ≠ k → s'.zonefaults[k]? = s.zonefaults[k]? := by
  unfold decrementRound at h
  split at h
  · cases h
  · rename_i j hz
    simp only at h
    have hlen : ∀ v, (s.zonefaults.set i v).length = s.zonefaults.length := fun v => List.length_set ..
    have hother : ∀ v k, i ≠ k → (s.zonefaults.set i v)[k]? = s.zonefaults[k]? := fun v k hk => List.getElem?_set_ne hk
    by_cases hk : (if 0 < j then j - 1 else j) = 0 ∧ 0 < j
    · rw [if_pos hk] at h
      obtain ⟨buf, -, hupdate⟩ := bind_eq_ok.mp h
      obtain ⟨hs, hzf⟩ := updateKnown_eq_ok hupdate
      exact ⟨⟨hs.known, hs.length.trans (hlen _), fun _ _ _ => trivial, hs.frame⟩, fun k hk => hzf ▸ hother _ k hk⟩
    · rw [if_neg hk] at h
      cases h
      exact ⟨⟨rfl, hlen _, fun _ _ _ => trivial, fun _ _ => rfl⟩, fun k hk => hother _ k hk⟩

theorem decrementRounds_settles (s : Panel) : Faults.Settles (fun _ => True) (EndOk conf s)
    (rounds (decrementRound F conf) (List.range conf.count) s) := by
  refine (settles_rounds decrementRound_settles (List.nodup_range.imp fun {i j} hij s s' out h => ?_) s).congr ?_
  · obtain ⟨hs, hother⟩ := decrementRound_eq_ok h
    rw [hs.length, hs.mayTake_iff, hother j hij]
  · simp only [List.mem_range, EndOk]
    constructor
    · intro h
      refine ⟨?_, fun i hi h1 => ((h i hi).2 h1).2⟩
      by_contra hlt
      exact absurd (h s.zonefaults.length (by omega)).1 (lt_irrefl _)
    · intro h i hi
      exact ⟨by omega, fun h1 => ⟨length_zone_lt hi, h.2 i hi h1⟩⟩

/-! ## What is not stored -/

theorem faultZone_framed {p : Str} {val : Option (BitVec 32)} {s s' : Panel} {out : List PanelOut}
    (h : faultZone F conf p val s = .ok (s', out)) : Framed s s' out := by
  unfold faultZone at h
  obtain ⟨zf, -, hval⟩ := bind_eq_ok.mp h
  cases val with
  | none => cases hval
  | some v =>
    obtain ⟨buf, -, hfault⟩ := bind_eq_ok.mp hval
    split at hfault
    · cases hfault
      exact .refl s
    · obtain ⟨⟨s₁, out₁⟩, hupdate, hset⟩ := bind_eq_ok.mp hfault
      obtain ⟨zonefaults, -, he⟩ := map_eq_ok.mp hset
      cases he
      exact (updateIntDev_eq_ok hupdate).1.frame

theorem sectionTwo_framed {p : Str} {hit : Bool} {p2 : Str} {s s' : Panel} {out : List PanelOut}
    (h : sectionTwo F conf p hit p2 s = .ok (s', out)) : Framed s s' out := by
  unfold sectionTwo at h
  split at h
  · exact faultZone_framed h
  · split at h
    · cases h
      exact .refl s
    · exact rounds_induct (Q := Framed) .refl .append (fun i _ _ _ _ hround => (clearRound_eq_ok hround).frame) h

theorem ad2usbHandleStd_framed {data : Str} {s s' : Panel} {out : List PanelOut} (h : ad2usbHandleStd F conf data s = .ok (s', out)) :
    Framed s s' out := by
  unfold ad2usbHandleStd at h
  simp only at h
  split at h
  · cases h
  · split at h
    · cases h
      exact .refl s
    · obtain ⟨⟨s₁, out₁⟩, hupdates, hsections⟩ := bind_eq_ok.mp h
      split at hsections
      · cases hsections
      · obtain ⟨⟨s₂, out₂⟩, htwo, hfour⟩ := bind_eq_ok.mp hsections
        split at hfour
        · cases hfour
        · obtain ⟨keys, hkeys, he⟩ := map_eq_ok.mp hfour
          cases he
          exact ((updates_stores hupdates).frame.append (sectionTwo_framed htwo)).append fun _ _ => rfl

theorem setExtra_framed {suffix : Str} {val : BitVec 32} {s s' : Panel} {out : List PanelOut}
    (h : setExtra F conf suffix val s = .ok (s', out)) : Framed s s' out := by
  unfold setExtra at h
  obtain ⟨buf, -, hrest⟩ := bind_eq_ok.mp h
  obtain ⟨buf2, -, hset⟩ := bind_eq_ok.mp hrest
  split at hset
  · obtain ⟨⟨s₁, out₁⟩, hbuild, hupdate⟩ := bind_eq_ok.mp hset
    obtain ⟨⟨s₂, out₂⟩, hsend, he⟩ := map_eq_ok.mp hupdate
    cases he
    have hdump : Framed s₁ s₂ (.dumpConf :: out₂) := fun u hu =>
      (updateIntDev_eq_ok hsend).1.frame u fun w hw => hu w (List.mem_cons_of_mem _ hw)
    exact (newIntDev_eq_ok hbuild).2.2.1.append hdump
  · exact (updateIntDev_eq_ok hset).1.frame

theorem handleData_framed {line : Str} {s s' : Panel} {out : List PanelOut} (h : handleData F conf line s = .ok (s', out)) :
    Framed s s' out := by
  unfold handleData at h
  simp only at h
  split at h
  · exact ad2usbHandleStd_framed h
  · split at h
    · unfold ad2usbHandleRfx at h
      split at h
      · cases h
        exact .refl s
      · split at h
        · cases h
          exact .refl s
        · split at h
          · cases h
          · exact rounds_induct (Q := Framed) .refl .append (fun d _ _ _ _ hround => (rfxRound_eq_ok hround).frame) h
    · split at h
      · unfold ad2usbHandleExp at h
        split at h
        · cases h
          exact .refl s
        · split at h
          · cases h
            exact .refl s
          · split at h
            · exact setExtra_framed h
            · cases h
      · cases h
        exact .refl s

/-- The callback leaves every device as it is in which it stores nothing. -/
theorem ad2usbBufReadCb_framed {lines : List Str} {s s' : Panel} {out : List PanelOut}
    (h : ad2usbBufReadCb F conf lines s = .ok (s', out)) : Framed s s' out := by
  unfold ad2usbBufReadCb at h
  obtain ⟨⟨s₁, out₁⟩, hlines, hrest⟩ := bind_eq_ok.mp h
  have hframed : Framed s s₁ out₁ :=
    rounds_induct (Q := Framed) .refl .append (fun line _ _ _ _ hline => handleData_framed hline) hlines
  split at hrest
  · cases hrest
    exact hframed
  · obtain ⟨⟨s₂, out₂⟩, hcounters, he⟩ := map_eq_ok.mp hrest
    cases he
    have hcounting : Framed s₁ s₂ out₂ :=
      rounds_induct (Q := Framed) .refl .append (fun i _ _ _ _ hround => (decrementRound_eq_ok hround).1.frame) hcounters
    exact hframed.append hcounting

/-! ## What is done for a line -/

theorem handleData_settles (line : Str) (s : Panel) : Faults.Settles (fun _ => True) (Safe conf line s) (handleData F conf line s) := by
  unfold handleData Safe
  simp only
  split
  · exact ad2usbHandleStd_settles _ _
  · split
    · exact ad2usbHandleRfx_settles _ _ _
    · split
      · exact ad2usbHandleExp_settles _ _ _
      · exact settles_ok trivial _

/-- A needle with a byte that a text does not hold does not stand in it. -/
theorem strstr_eq_none_of_notMem {needle s : Str} {c : Byte} (hc : c ∈ needle) (hs : c ∉ s) : strstr needle s = none := by
  cases h : strstr needle s with
  | none => rfl
  | some i => exact absurd (List.mem_of_mem_drop ((prefix_of_strstr h).subset hc)) hs

theorem strstr_isSome_append (needle : Str) (hne : needle ≠ []) (s : Str) : (strstr needle (needle ++ s)).isSome = true := by
  obtain ⟨c, needle', rfl⟩ := List.exists_cons_of_ne_nil hne
  rw [List.cons_append, strstr, if_pos]
  · rfl
  · rw [List.isPrefixOf_iff_prefix, ← List.cons_append]
    exact List.prefix_append _ _

/-- A line of an expander or a relay, as its handler meets it: nothing is stored but in one device of the kind for the first token. -/
theorem handleData_extra (name : Str) {a i v : Str} (hname : name = str "!EXP" ∨ name = str "!REL") (ha : Digits a) (hi : Digits i) (hv : Digits v)
    {s s' : Panel} {out : List PanelOut} (h : handleData F conf (extraLine (name ++ [chColon]) a i v) s = .ok (s', out)) {u : Str}
    {w : BitVec 32} (hw : PanelOut.stored u w ∈ out) : ∃ addr input, u = conf.uid (extraName (kindSet (some name)) addr input) := by
  have hcstr : cstr (extraLine (name ++ [chColon]) a i v) =
      name ++ chColon :: cstr (a ++ chComma :: (i ++ chComma :: v)) := by
    rw [extraLine, cstr_append]
    · rw [List.append_assoc, List.singleton_append]
    · rcases hname with rfl | rfl <;> decide
  have htokens : (strtok chColon (cstr (extraLine (name ++ [chColon]) a i v)))[0]? = some name := by
    rw [hcstr, strtok_append]
    · rfl
    · rcases hname with rfl | rfl <;> decide
    · rcases hname with rfl | rfl <;> decide
  have hdigit : ∀ {t : Str}, Digits t → (70 : Byte) ∉ t := fun ht h => absurd (ht.2 70 h) (by decide)
  have hno : strstr (str "!RFX:") (cstr (extraLine (name ++ [chColon]) a i v)) = none := by
    refine strstr_eq_none_of_notMem (c := 70) (by decide) fun hmem => ?_
    have hmem' := (List.takeWhile_prefix _).subset hmem
    simp only [extraLine, List.mem_append, List.mem_cons] at hmem'
    rcases hmem' with (hm | hm) | hm | hm | hm | hm | hm
    · rcases hname with rfl | rfl <;> revert hm <;> decide
    · revert hm
      decide
    · exact hdigit ha hm
    · revert hm
      decide
    · exact hdigit hi hm
    · revert hm
      decide
    · exact hdigit hv hm
  have hhead : (extraLine (name ++ [chColon]) a i v).head? ≠ some 91 := by
    rcases hname with rfl | rfl <;> simp [extraLine, str]
  unfold handleData at h
  simp only [if_neg (fun hn : _ ∧ _ => hhead hn.2), hno, Option.isSome_none, Bool.false_eq_true, if_false] at h
  split at h
  · rw [← htokens]
    exact ad2usbHandleExp_eq_ok h hw
  · cases h
    cases hw

/-- The names of the devices with a serial number. -/
theorem mem_rfxUids {serial : BitVec 32} (h : 0 ≤ serial.toInt) {d : Str × BitVec 8} (hd : d ∈ rfxNames serial) :
    conf.uid d.1 ∈ rfxUids conf serial.toInt.natAbs := by
  have hfmt : fmtDigits 7 serial = padNat 7 serial.toInt.natAbs := if_neg (not_lt.mpr h)
  have hnames : (rfxNames serial).map (·.1) =
      [str "-l1", str "-l2", str "-l3", str "-l4", str "-lowbat"].map fun t => padNat 7 serial.toInt.natAbs ++ t := by
    simp only [rfxNames, loops, hfmt, List.map_append, List.map_cons, List.map_nil, List.append_assoc]
    rfl
  obtain ⟨t, ht, hdt⟩ := List.mem_map.mp (hnames ▸ List.mem_map_of_mem hd : d.1 ∈ _)
  rw [← hdt]
  exact List.mem_map.mpr ⟨t, ht, rfl⟩

/-- What is stored for a line of a wireless device goes to the devices with its serial number. -/
theorem handleData_rfx {n m : Str} (hn : Digits n) {s s' : Panel} {out : List PanelOut}
    (h : handleData F conf (rfxLine n m) s = .ok (s', out)) {u : Str} {w : BitVec 32} (hw : PanelOut.stored u w ∈ out) :
    u ∈ rfxUids conf (digitsVal n) := by
  have hnul : chNul ∉ n ++ [chComma] := by
    intro hmem
    rcases List.mem_append.mp hmem with hmem | hmem
    · exact absurd (hn.2 _ hmem) (by decide)
    · revert hmem
      decide
  have hcstr : cstr (rfxLine n m) = str "!RFX:" ++ ((n ++ [chComma]) ++ cstr m) := by
    rw [rfxLine, cstr_append (by decide), ← cstr_append hnul, List.append_assoc, List.singleton_append]
  have hhead : (rfxLine n m).head? ≠ some 91 := by simp [rfxLine, str]
  unfold handleData at h
  simp only [if_neg (fun hn : _ ∧ _ => hhead hn.2), hcstr, strstr_isSome_append (str "!RFX:") (by decide), if_true] at h
  obtain ⟨hlen, p, serial, rest, hp, hscan, d, hd, rfl⟩ := ad2usbHandleRfx_eq_ok h hw
  have hcolon : chColon ∉ n ++ [chComma] := by
    intro hmem
    rcases List.mem_append.mp hmem with hmem | hmem
    · exact absurd (hn.2 _ hmem) (by decide)
    · revert hmem
      decide
  obtain ⟨t, ts, htokens, -⟩ := exists_strtok_append hcolon (by simp) (cstr m)
  have hsplit : str "!RFX:" ++ ((n ++ [chComma]) ++ cstr m) = str "!RFX" ++ chColon :: ((n ++ [chComma]) ++ cstr m) := rfl
  rw [hsplit, strtok_append (by decide) (by decide), htokens] at hp
  have hpt : p = n ++ chComma :: t := by
    rw [List.getElem?_cons_succ, List.getElem?_cons_zero, Option.some.injEq] at hp
    rw [← hp, List.append_assoc, List.singleton_append]
  rw [hpt, scanD_digits hn.1 hn.2 (by simp [isdigit, chComma])] at hscan
  -- the length of the line leaves at most nine digits
  have hlt := digitsVal_lt hn.2
  have hpow : 10 ^ n.length ≤ 10 ^ 9 := by
    refine Nat.pow_le_pow_right (by decide) ?_
    have hr : (str "!RFX:").length = 5 := by decide
    simp only [rfxLine, List.length_append, List.length_cons] at hlen
    omega
  have hserial : serial.toInt = digitsVal n := by
    rw [Option.some.injEq, Prod.mk.injEq] at hscan
    rw [← hscan.1, BitVec.toInt_ofInt, Int.bmod_eq_of_le]
    all_goals omega
  have hmem : conf.uid d.1 ∈ rfxUids conf serial.toInt.natAbs := mem_rfxUids (by omega) hd
  rw [hserial, Int.natAbs_natCast] at hmem
  exact hmem

theorem right_iff {line : Str} {s s' : Panel} {out : List PanelOut} (h : handleData F conf line s = .ok (s', out)) :
    Right conf line out ↔ ¬ IsExtra line := by
  constructor
  · rintro hright ⟨tag, a, i, v, htag, ha, hi, hv, rfl⟩
    rcases htag with rfl | rfl
    · obtain ⟨⟨u, w, hw⟩, hall⟩ := hright.exp a i v ha hi hv rfl
      obtain ⟨addr, input, hu⟩ := handleData_extra (str "!EXP") (Or.inl rfl) ha hi hv h hw
      have huid := (hall u w hw).1
      rw [hu] at huid
      exact absurd (List.append_cancel_left huid) (by simp [extraName, kindSet, str])
    · obtain ⟨⟨u, w, hw⟩, hall⟩ := hright.rel a i v ha hi hv rfl
      obtain ⟨addr, input, hu⟩ := handleData_extra (str "!REL") (Or.inr rfl) ha hi hv h hw
      have huid := (hall u w hw).1
      rw [hu] at huid
      exact absurd (List.append_cancel_left huid) (by simp [extraName, kindSet, str])
  · intro hno
    refine ⟨fun a i v ha hi hv he => ?_, fun a i v ha hi hv he => ?_, ?_⟩
    · exact absurd ⟨_, a, i, v, Or.inl rfl, ha, hi, hv, he⟩ hno
    · exact absurd ⟨_, a, i, v, Or.inr rfl, ha, hi, hv, he⟩ hno
    · rintro n m hn rfl u w hw
      exact handleData_rfx hn h hw

variable (F conf)

/-- The callback comes to its end and does what the lines say, exactly when each of them can be handled and is none of an expander or a
relay, and the counters can be handled. -/
theorem dispatches_iff (lines : List Str) (s : Panel) : Dispatches F conf lines s ↔ Meets F conf lines s := by
  have hends : (∃ r, ad2usbBufReadCb F conf lines s = .ok r) ↔
      Each (handleData F conf) (fun line s => ∃ r, handleData F conf line s = .ok r) (handled lines) s ∧
        (handled lines ≠ [] → ∀ s' out, rounds (handleData F conf) (handled lines) s = .ok (s', out) → EndOk conf s') := by
    rw [← exists_rounds_iff]
    unfold ad2usbBufReadCb
    cases hr : rounds (handleData F conf) (handled lines) s with
    | error e => simp [bind, Except.bind]
    | ok r =>
      obtain ⟨s₁, out₁⟩ := r
      simp only [bind, Except.bind]
      by_cases hnil : handled lines = []
      · rw [if_pos hnil]
        exact iff_of_true ⟨_, rfl⟩ ⟨⟨_, rfl⟩, fun h => absurd hnil h⟩
      · rw [if_neg hnil]
        have hend : Faults.Settles (fun _ => True) (EndOk conf s₁) (rounds (decrementRound F conf) (List.range conf.count) s₁) :=
          decrementRounds_settles s₁
        constructor
        · rintro ⟨r', hr'⟩
          obtain ⟨r'', hr'', -⟩ := map_eq_ok.mp hr'
          refine ⟨⟨_, rfl⟩, fun _ s' out he => ?_⟩
          cases he
          by_contra hn
          obtain ⟨e, he, -⟩ := hend.stops hn
          rw [he] at hr''
          cases hr''
        · rintro ⟨-, h⟩
          obtain ⟨r', hr'⟩ := hend.ends (h hnil s₁ out₁ rfl)
          exact ⟨_, map_eq_ok.mpr ⟨r', hr', rfl⟩⟩
  have hline : ∀ line s, ((∃ r, handleData F conf line s = .ok r) ∧
      ∀ s' out, handleData F conf line s = .ok (s', out) → Right conf line out) ↔ ¬ IsExtra line ∧ Safe conf line s := by
    intro line s
    constructor
    · rintro ⟨⟨⟨s', out⟩, h⟩, hright⟩
      refine ⟨(right_iff h).mp (hright s' out h), ?_⟩
      by_contra hn
      obtain ⟨e, he, -⟩ := (handleData_settles (F := F) line s).stops hn
      rw [he] at h
      cases h
    · rintro ⟨hno, hsafe⟩
      exact ⟨(handleData_settles line s).ends hsafe, fun s' out h => (right_iff h).mpr hno⟩
  constructor
  · rintro ⟨h, hright⟩
    obtain ⟨heach, hend⟩ := hends.mp h
    exact ⟨(each_congr hline).mp (each_and.mpr ⟨heach, hright⟩), hend⟩
  · rintro ⟨heach, hend⟩
    obtain ⟨h, hright⟩ := each_and.mp ((each_congr hline).mpr heach)
    exact ⟨hends.mpr ⟨h, hend⟩, hright⟩

/-- A collector for a panel with eight zones, with no device in its configuration. -/
def plainConf : PanelConf := { uidprefix := str "ad2usb", zones := 8, newDevFromConf := fun _ => none }

/-- The collector with the devices of the panel. -/
def started : Panel :=
  match maybeDumpConf Doubles.exact plainConf 8
    { devices := fun _ => none, zonefaults := List.replicate 8 0, firstUpdate := true, connected := false } with
  | .ok r => { r.1 with connected := true }
  | .error _ => { devices := fun _ => none, zonefaults := [], firstUpdate := true, connected := false }

/-- The message of an expander sets the device of a relay. -/
theorem not_dispatches : ¬ Dispatches Doubles.exact plainConf [str "!EXP:07,01,01"] started := by
  intro hd
  have hline : IsExtra (str "!EXP:07,01,01") :=
    ⟨str "!EXP:", str "07", str "01", str "01", Or.inl rfl, by decide, by decide, by decide, by decide⟩
  obtain ⟨r, hr⟩ := hd.ends
  obtain ⟨r₁, hr₁, -⟩ := bind_eq_ok.mp hr
  obtain ⟨⟨⟨s', out⟩, h⟩, -⟩ := exists_rounds_iff.mp ⟨r₁, hr₁⟩
  exact (right_iff h).mp (hd.right.1 s' out h) hline

example : (handleData Doubles.exact plainConf (str "!EXP:07,01,01") started).map (·.2) = .ok
    [.stored (str "ad2usb-rel-07-01") 1, .dumpConf, .stored (str "ad2usb-rel-07-01") 1] := by
  decide +kernel

end Gnhast.Ad2usbcoll
