import Gnhast.Lemmas.Spa
import Gnhast.Lib.Fields
import Gnhast.Lib.Runs

/-!
# Controlling the spa

What the spa says of itself, what is stored of it and which buttons are pushed for a change fit together when no panel response
names the second aux device, no pump and no aux device shows a state that its button never brings, and no two installed pumps or
lights show in one bit. The bits of a pump lie two further than those of the pump before, but `parse_status_update` shifts by one.
-/

namespace Gnhast.Balboacoll

open CStr Fields Runs

variable (F : Doubles) (conf : Str → Option SpaDev)

/-! ## Messages -/

/-- A message of the spa for one of its handlers. -/
inductive SpaMsg
  | config (data : List (BitVec 8))
  | panel (data : List (BitVec 8))
  | status (data : List (BitVec 8))

/-- A message comes in; one that is too short for its handler ends the run. -/
def spaStep (s : Spa) : SpaMsg → Option Spa
  | .config data => (parseConfigResp conf data s).toOption
  | .panel data => (parsePanelConfigResp conf data s).toOption
  | .status data => (parseStatusUpdate F conf data s).toOption.map Prod.fst

/-- The places that a message writes. -/
def SpaMsg.written (s : Spa) : SpaMsg → List SpaCell
  | .panel data => if s.devicesReady then [] else panelCells data
  | _ => []

/-- The collector, with the messages that it heard and the places that they wrote. -/
structure SpaLog where
  spa : Spa := {}
  heard : List SpaMsg := []
  written : List SpaCell := []

/-- Behind a message that left some state. -/
def SpaLog.then (t : SpaLog) (m : SpaMsg) (s : Spa) : SpaLog :=
  { spa := s, heard := t.heard ++ [m], written := t.written ++ m.written t.spa }

/-- A message is heard. -/
def spaHear (t : SpaLog) (m : SpaMsg) : Option SpaLog :=
  (spaStep F conf t.spa m).map (t.then m)

/-! ## What is claimed -/

/-- The byte of a status that shows a pump or a light, and how far it is shifted. -/
def SpaPart.place : SpaPart → Option (Nat × Nat)
  | .pump i => some (if i.val < 4 then (16, i.val) else (17, i.val - 4))
  | .light i => some (19, i.val)
  | _ => none

/-- The bits of a byte of a status from which the value of a pump or a light is taken. -/
def SpaPart.mask (k : SpaPart) (j : Nat) : BitVec 8 :=
  match k.place with
  | some (byte, shift) => if j = byte then (0x03 : BitVec 8) <<< shift else 0
  | none => 0

/-- Two messages are the same but for the bits of a part in a status. -/
def SameBut (p : SpaPart) : SpaMsg → SpaMsg → Prop
  | .status a, .status b => a.length = b.length ∧ ∀ j, a.getD j 0 &&& ~~~ p.mask j = b.getD j 0 &&& ~~~ p.mask j
  | m, m' => m = m'

/-- The device of a part was built, with the type and the subtype of the part. -/
def SpaPart.Created (s : Spa) (k : SpaPart) : Prop :=
  s.devicesReady = true ∧ k.installed s.spacfg = true ∧ k.Fresh conf s.macSuffix

/-- The byte that is stored for a part. -/
def Spa.stored (s : Spa) (k : SpaPart) : Option (BitVec 8) := (s.devices (k.uid s.macSuffix)).map (curval F)

/-- The button of a part, with the number of states that it goes through. -/
def SpaPart.button : SpaPart → Option (BitVec 8 × Nat)
  | .pump i => some (0x04 + BitVec.ofNat 8 i, 3)
  | .light i => some (0x11 + BitVec.ofNat 8 i, 2)
  | .aux i => some (0x16 + BitVec.ofNat 8 i, 2)
  | .mister => some (0x0e, 2)
  | _ => none

/-- What one push does to a part with some states. -/
def advance (states v : Nat) : Nat := (v + 1) % states

/-- For a change, only the button of the device is pushed, as often as it takes, and not at all if the state is there already. -/
def Pushed (d : SpaDev) (code : BitVec 8) (states r : Nat) : Prop :=
  let out := collChgSwitchCb F d r
  (∀ msg ∈ out, msg = controlReq code) ∧ (advance states)^[out.length] (curval F d).toNat = r ∧
    ((curval F d).toNat = r → out = [])

/-- The devices that were built hold what they can hold, and their buttons bring every state. -/
structure Served (s : Spa) : Prop where
  switches : ∀ k : SpaPart, k.Created conf s → k.subtype = subtypeSwitch → s.stored F k = some 0 ∨ s.stored F k = some 1
  buttons : ∀ (k : SpaPart) (code : BitVec 8) (states : Nat), k.button = some (code, states) → k.Created conf s →
    ∃ d, s.devices (k.uid s.macSuffix) = some d ∧ ∀ r < states, Pushed F d code states r

/-- Messages that differ from those heard only in the bits of one pump or light leave the same in the others. -/
def Separate (t : SpaLog) : Prop :=
  ∀ p k : SpaPart, p.place.isSome → k.place.isSome → p ≠ k → p.installed t.spa.spacfg = true → k.Created conf t.spa →
    ∀ ms s, List.Forall₂ (SameBut p) t.heard ms → exec (spaStep F conf) {} ms = some s → s.stored F k = t.spa.stored F k

/-- What was written lies in the arrays, and what is stored of the spa and pushed for it is right. -/
structure Controls (t : SpaLog) : Prop where
  inside : ∀ c ∈ t.written, c.Inside
  served : Served F conf t.spa
  separate : Separate F conf t

/-! ## The condition -/

/-- No pump shows both of its bits, no aux device its bit, and no pump or light shows in a bit of another that is installed; of two
lights, one may do so as long as a bit of its own is set. -/
structure StatusFits (s : Spa) (b : Nat → BitVec 8) : Prop where
  pumps : ∀ i, (SpaPart.pump i).Created conf s → ∃ j, b j &&& (SpaPart.pump i).mask j ≠ (SpaPart.pump i).mask j
  aux : ∀ i : Fin 2, (SpaPart.aux i).Created conf s → b 20 &&& (0x08 : BitVec 8) <<< i.val = 0
  bits : ∀ p k : SpaPart, p.place.isSome → k.place.isSome → p ≠ k → p.installed s.spacfg = true → k.Created conf s →
    ∀ j, p.mask j &&& k.mask j ≠ 0 → (∃ i, k = .light i) ∧ b j &&& k.mask j &&& ~~~ p.mask j ≠ 0

/-- A panel response before the devices are built does not name the second aux device, and a status afterwards fits. -/
def SpaFits (t : SpaLog) : SpaMsg → Prop
  | .config _ => True
  | .panel data => t.spa.devicesReady = false → data.getD 9 0 &&& 0x02 = 0
  | .status data => t.spa.devicesReady = true → StatusFits conf t.spa fun j => data.getD j 0

/-! ## Places -/

theorem panelCells_inside_iff (data : List (BitVec 8)) : (∀ c ∈ panelCells data, c.Inside) ↔ data.getD 9 0 &&& 0x02 = 0 := by
  unfold panelCells panelTests
  constructor
  · intro h
    by_contra hne
    refine absurd (h (.aux 2) (List.mem_map.mpr ⟨(9, 0x02, .aux 2), List.mem_filter.mpr ⟨by simp, ?_⟩, rfl⟩)) (by decide)
    simpa using hne
  · intro h c hc
    obtain ⟨x, hx, rfl⟩ := List.mem_map.mp hc
    obtain ⟨hmem, hset⟩ := List.mem_filter.mp hx
    simp only [List.mem_cons, List.not_mem_nil, or_false] at hmem
    rcases hmem with rfl | rfl | rfl | rfl | rfl | rfl | rfl | rfl | rfl | rfl | rfl | rfl | rfl <;>
      first | decide | exact absurd h (by simpa using hset)

/-! ## Buttons -/

/-- Pushing again and again goes through the states in turn. -/
theorem iterate_advance {states v : Nat} (hv : v < states) (n : Nat) : (advance states)^[n] v = (v + n) % states := by
  induction n with
  | zero => exact (Nat.mod_eq_of_lt hv).symm
  | succ n ih => rw [Function.iterate_succ_apply', ih, advance, Nat.mod_add_mod, Nat.add_assoc]

/-- The number of pushes leads to the state that is asked for. -/
theorem pushes_mod {states r : Nat} (v : BitVec 8) (hr : r < states) : (v.toNat + pushes states v r) % states = r := by
  unfold pushes
  cases hfind : (List.range states).find? fun iter => decide ((r : Int) = ((v.toNat + iter) % states : Nat)) with
  | some iter =>
    have hfound := List.find?_some hfind
    exact (Int.ofNat.inj (of_decide_eq_true hfound)).symm
  | none =>
    have hpos : 0 < states := Nat.zero_lt_of_lt hr
    have hmod : v.toNat % states < states := Nat.mod_lt _ hpos
    refine absurd ?_ (List.find?_eq_none.mp hfind ((r + (states - v.toNat % states)) % states) (List.mem_range.mpr (Nat.mod_lt _ hpos)))
    have hreach : (v.toNat + (r + (states - v.toNat % states)) % states) % states = r := by
      rw [Nat.add_mod_mod, ← Nat.mod_add_mod, show v.toNat % states + (r + (states - v.toNat % states)) = r + states by omega,
        Nat.add_mod_right, Nat.mod_eq_of_lt hr]
    rw [hreach]
    exact decide_eq_true rfl

set_option maxRecDepth 2000 in
/-- The messages for the device of a part. -/
theorem collChgSwitchCb_button {k : SpaPart} {code : BitVec 8} {states : Nat} {d : SpaDev} (hb : k.button = some (code, states))
    (hd : k.Suits d) (state : Int) :
    collChgSwitchCb F d state =
      if ((curval F d).toNat : Int) = state then []
      else List.replicate (if states = 3 then pushes 3 (curval F d) state else 1) (controlReq code) := by
  have hpump : ∀ i : Fin 6, (SpaPart.pump i).loc ≠ some (str "l0") ∧ (SpaPart.pump i).loc ≠ some (str "l1") ∧
      pumpOfLoc (str "p" ++ padNat 2 i) = some i := by decide
  unfold collChgSwitchCb
  cases k with
  | pump i =>
    cases hb
    obtain ⟨h0, h1, hi⟩ := hpump i
    rw [hd.loc _ rfl]
    dsimp only
    rw [if_neg (fun h => h0 (congrArg some h)), if_neg (fun h => h1 (congrArg some h)), hi, if_pos rfl]
  | light i =>
    cases hb
    rw [hd.loc _ rfl]
    refine if_congr Iff.rfl rfl ?_
    obtain rfl | rfl : i = 0 ∨ i = 1 := by omega
    · exact if_pos (by decide)
    · rw [if_neg (by decide)]
      exact if_pos (by decide)
  | aux i =>
    cases hb
    rw [hd.loc _ rfl]
    refine if_congr Iff.rfl rfl ?_
    obtain rfl | rfl : i = 0 ∨ i = 1 := by omega
    · rfl
    · rfl
  | mister =>
    cases hb
    rw [hd.loc _ rfl]
    exact if_congr Iff.rfl rfl rfl
  | _ => cases hb

/-- Where the state is the remainder of what is held, no button is pushed. -/
theorem pushes_self {states : Nat} (hpos : 0 < states) (v : BitVec 8) : pushes states v (v.toNat % states : Nat) = 0 := by
  obtain ⟨n, rfl⟩ := Nat.exists_eq_succ_of_ne_zero (Nat.pos_iff_ne_zero.mp hpos)
  unfold pushes
  rw [List.range_succ_eq_map, List.find?_cons_of_pos (by simp)]
  rfl

/-- The button of a device brings every state exactly when the device holds one of them. -/
theorem pushed_iff {k : SpaPart} {code : BitVec 8} {states : Nat} {d : SpaDev} (hb : k.button = some (code, states))
    (hd : k.Suits d) : (∀ r < states, Pushed F d code states r) ↔ (curval F d).toNat < states := by
  have hstates : states = 2 ∨ states = 3 := by
    cases k <;> cases hb <;> decide
  have hpos : 0 < states := by omega
  constructor
  · intro h
    by_contra hge
    have hmod : (curval F d).toNat % states < states := Nat.mod_lt _ hpos
    obtain ⟨-, hreach, -⟩ := h _ hmod
    have hne : ¬ ((curval F d).toNat : Int) = ((curval F d).toNat % states : Nat) := by omega
    rw [collChgSwitchCb_button F hb hd, if_neg hne, List.length_replicate] at hreach
    rcases hstates with rfl | rfl
    · rw [if_neg (by decide), Function.iterate_one, advance] at hreach
      omega
    · rw [if_pos rfl, pushes_self hpos, Function.iterate_zero_apply] at hreach
      omega
  · intro hv r hr
    unfold Pushed
    rw [collChgSwitchCb_button F hb hd]
    by_cases heq : ((curval F d).toNat : Int) = r
    · rw [if_pos heq]
      exact ⟨fun _ h => absurd h List.not_mem_nil, Int.ofNat.inj heq, fun _ => rfl⟩
    · rw [if_neg heq]
      refine ⟨fun _ h => List.eq_of_mem_replicate h, ?_, fun h => absurd (congrArg Int.ofNat h) heq⟩
      rw [List.length_replicate, iterate_advance hv]
      rcases hstates with rfl | rfl
      · rw [if_neg (by decide)]
        omega
      · rw [if_pos rfl]
        exact pushes_mod _ hr

/-! ## Bits -/

/-- A pump or a light shows in two bits of one byte of a status, a pump by their number and a light by whether one is set. -/
theorem place_cases {k : SpaPart} (h : k.place.isSome) :
    ∃ byte shift : Nat, byte < 29 ∧ k.mask = (fun j => if j = byte then (0x03 : BitVec 8) <<< shift else 0) ∧
      ((0x03 : BitVec 8) <<< shift) >>> shift = 0x03 ∧
      ((∃ i, k = .pump i) ∧ (∀ b, k.value b = b byte >>> shift &&& 0x03) ∨
        (∃ i, k = .light i) ∧ ∀ b, k.value b = if b byte >>> shift &&& 0x03 ≠ 0 then 1 else 0) := by
  have hshift : ∀ n : Fin 4, ((0x03 : BitVec 8) <<< n.val) >>> n.val = 0x03 := by decide
  cases k with
  | pump i =>
    by_cases hi : i.val < 4
    · refine ⟨16, i.val, by decide, ?_, hshift ⟨i.val, hi⟩, .inl ⟨⟨i, rfl⟩, fun b => if_pos hi⟩⟩
      funext j
      simp only [SpaPart.mask, SpaPart.place, if_pos hi]
    · refine ⟨17, i.val - 4, by decide, ?_, hshift ⟨i.val - 4, by omega⟩, .inl ⟨⟨i, rfl⟩, fun b => if_neg hi⟩⟩
      funext j
      simp only [SpaPart.mask, SpaPart.place, if_neg hi]
  | light i => exact ⟨19, i.val, by decide, rfl, hshift ⟨i.val, by omega⟩, .inr ⟨⟨i, rfl⟩, fun b => rfl⟩⟩
  | _ => cases h

/-- A pump is in one of its states when not both of its bits are set. -/
theorem pump_value_lt_iff (i : Fin 6) (b : Nat → BitVec 8) :
    ((SpaPart.pump i).value b).toNat < 3 ↔ ∃ j, b j &&& (SpaPart.pump i).mask j ≠ (SpaPart.pump i).mask j := by
  obtain ⟨byte, shift, -, hmask, hshift, ⟨-, hvalue⟩ | ⟨⟨i', hi'⟩, -⟩⟩ := place_cases (k := .pump i) rfl
  · rw [hmask, hvalue]
    have hle : (b byte >>> shift &&& 0x03).toNat ≤ 3 := by
      rw [BitVec.toNat_and]
      exact Nat.and_le_right
    have hfull : b byte >>> shift &&& 0x03 = 3 ↔ b byte &&& (0x03 : BitVec 8) <<< shift = 0x03 <<< shift := by
      have h := field_eq_iff hshift (b byte) ((0x03 : BitVec 8) <<< shift)
      rwa [hshift, BitVec.and_self, BitVec.and_self] at h
    constructor
    · intro hlt
      refine ⟨byte, fun heq => ?_⟩
      dsimp only at heq
      rw [if_pos rfl] at heq
      rw [hfull.mpr heq] at hlt
      exact absurd hlt (by decide)
    · rintro ⟨j, hj⟩
      dsimp only at hj
      by_cases hb : j = byte
      · rw [if_pos hb, hb] at hj
        have hne : (b byte >>> shift &&& 0x03).toNat ≠ 3 := fun h3 => hj (hfull.mp (BitVec.eq_of_toNat_eq h3))
        omega
      · rw [if_neg hb] at hj
        exact absurd BitVec.and_zero hj
  · cases hi'

/-- Where two statuses agree outside of the bits of a part, another part shows the same in both, if it shares no bit or is a light
with a bit of its own set. -/
theorem value_eq_of_sameBut {p k : SpaPart} (hk : k.place.isSome) {b b' : Nat → BitVec 8}
    (hsame : ∀ j, b j &&& ~~~ p.mask j = b' j &&& ~~~ p.mask j)
    (hbits : ∀ j, p.mask j &&& k.mask j ≠ 0 → (∃ i, k = .light i) ∧ b j &&& k.mask j &&& ~~~ p.mask j ≠ 0) :
    k.value b = k.value b' := by
  obtain ⟨byte, shift, -, hmask, hshift, hvalue⟩ := place_cases hk
  have hmask' : k.mask byte = (0x03 : BitVec 8) <<< shift := by
    rw [hmask]
    exact if_pos rfl
  by_cases hd : p.mask byte &&& k.mask byte = 0
  · have hfield : b byte >>> shift &&& 0x03 = b' byte >>> shift &&& (0x03 : BitVec 8) := by
      rw [field_eq_iff hshift, ← hmask']
      exact and_eq_of_disjoint hd (hsame byte)
    rcases hvalue with ⟨-, hv⟩ | ⟨-, hv⟩
    · rw [hv, hv, hfield]
    · rw [hv, hv, hfield]
  · obtain ⟨⟨i, rfl⟩, hown⟩ := hbits byte hd
    have hown' := hown
    rw [and_and_not_eq (hsame byte)] at hown'
    have hset : ∀ x : BitVec 8, x &&& (SpaPart.light i).mask byte &&& ~~~ p.mask byte ≠ 0 → x >>> shift &&& 0x03 ≠ 0 := by
      intro x hx h0
      rw [field_eq_zero_iff hshift, ← hmask'] at h0
      rw [h0] at hx
      exact hx BitVec.zero_and
    rcases hvalue with ⟨⟨i', hi'⟩, -⟩ | ⟨-, hv⟩
    · cases hi'
    · rw [hv, hv, if_pos (hset _ hown), if_pos (hset _ hown')]

theorem getD_set {data : List (BitVec 8)} {j : Nat} (hj : j < data.length) (y : BitVec 8) (i : Nat) :
    (data.set j y).getD i 0 = if i = j then y else data.getD i 0 := by
  rw [List.getD_eq_getElem?_getD, List.getElem?_set, List.getD_eq_getElem?_getD]
  by_cases hi : j = i
  · rw [if_pos hi, if_pos hj, if_pos hi.symm]
    rfl
  · rw [if_neg hi, if_neg (fun h => hi h.symm)]

/-- Otherwise some status that differs only in the bits of the part shows the other one differently. -/
theorem exists_sameBut {p k : SpaPart} (hk : k.place.isSome) {data : List (BitVec 8)} (hlen : 29 ≤ data.length) {j : Nat}
    (hshare : p.mask j &&& k.mask j ≠ 0)
    (hbits : ¬ ((∃ i, k = .light i) ∧ data.getD j 0 &&& k.mask j &&& ~~~ p.mask j ≠ 0)) :
    ∃ data', SameBut p (.status data) (.status data') ∧
      k.value (fun i => data'.getD i 0) ≠ k.value fun i => data.getD i 0 := by
  obtain ⟨byte, shift, hbyte, hmask, hshift, hvalue⟩ := place_cases hk
  have hj : j = byte := by
    by_contra hne
    rw [hmask] at hshare
    dsimp only at hshare
    rw [if_neg hne] at hshare
    exact hshare BitVec.and_zero
  subst hj
  have hmask' : k.mask j = (0x03 : BitVec 8) <<< shift := by
    rw [hmask]
    exact if_pos rfl
  have hin : (p.mask j &&& k.mask j) &&& ~~~ p.mask j = 0 := by
    rw [BitVec.and_comm (p.mask j), BitVec.and_assoc, BitVec.and_not_self]
    exact BitVec.and_zero
  obtain ⟨y, hy, hflip⟩ := exists_flipped hin hshare (data.getD j 0)
  have hjlen : j < data.length := by omega
  refine ⟨data.set j y, ⟨(List.length_set ..).symm, fun i => ?_⟩, ?_⟩
  · rw [getD_set hjlen]
    by_cases hi : i = j
    · rw [if_pos hi, hi, hy]
    · rw [if_neg hi]
  · have hset : (data.set j y).getD j 0 = y := by
      rw [getD_set hjlen, if_pos rfl]
    intro heq
    rcases hvalue with ⟨-, hv⟩ | ⟨hlight, hv⟩
    · rw [hv, hv, hset, field_eq_iff hshift, ← hmask'] at heq
      have hboth : y &&& (p.mask j &&& k.mask j) = data.getD j 0 &&& (p.mask j &&& k.mask j) := by
        rw [BitVec.and_comm (p.mask j), ← BitVec.and_assoc, heq, BitVec.and_assoc]
      rw [hboth] at hflip
      exact (iff_not_self hflip).elim
    · have hown : data.getD j 0 &&& k.mask j &&& ~~~ p.mask j = 0 := by
        by_contra hne
        exact hbits ⟨hlight, hne⟩
      have hown' : y &&& k.mask j &&& ~~~ p.mask j = 0 := by
        rw [and_and_not_eq hy]
        exact hown
      rw [← and_eq_of_and_not hown, ← and_eq_of_and_not hown', hmask', ← field_eq_zero_iff hshift, Ne,
        ← field_eq_zero_iff hshift] at hflip
      rw [hv, hv, hset] at heq
      by_cases hx : data.getD j 0 >>> shift &&& 0x03 = 0
      · rw [if_neg (not_not.mpr hx), if_pos (fun hy0 => hflip.mp hy0 hx)] at heq
        exact absurd heq (by decide)
      · rw [if_pos hx, if_neg (not_not.mpr (hflip.mpr hx))] at heq
        exact absurd heq (by decide)

/-! ## States of a device -/

/-- One bit of a byte is clear or set. -/
theorem and_bit (x : BitVec 8) (i : Nat) : x &&& BitVec.twoPow 8 i = 0 ∨ x &&& BitVec.twoPow 8 i = BitVec.twoPow 8 i := by
  rw [BitVec.and_twoPow]
  split
  · exact .inr rfl
  · exact .inl rfl

/-- But for the aux devices, what is stored in a SWITCH device is zero or one. -/
theorem value_switch {k : SpaPart} (hk : k.subtype = subtypeSwitch) (haux : ∀ i, k ≠ .aux i) (b : Nat → BitVec 8) :
    k.value b = 0 ∨ k.value b = 1 := by
  have hite : ∀ (c : Prop) [Decidable c], (if c then 1 else 0 : BitVec 8) = 0 ∨ (if c then 1 else 0 : BitVec 8) = 1 := by
    intro c _
    split
    · exact .inr rfl
    · exact .inl rfl
  cases k with
  | circpump | light i => exact hite _
  | mister => exact and_bit (b 20) 0
  | aux i => exact absurd rfl (haux i)
  | temprange =>
    have hv : SpaPart.temprange.value b = (b 15 &&& BitVec.twoPow 8 2) >>> 2 := rfl
    rw [hv]
    rcases and_bit (b 15) 2 with h | h
    · rw [h]
      exact .inl rfl
    · rw [h]
      exact .inr rfl
  | pump | heatmode | heatstate => exact absurd (show subtypeTristate = subtypeSwitch from hk) (by decide)
  | curtemp | settemp => exact absurd (show subtypeTemp = subtypeSwitch from hk) (by decide)

/-- What is stored for an aux device is a state of it only when its bit is clear. -/
theorem aux_value (i : Fin 2) (b : Nat → BitVec 8) :
    ((SpaPart.aux i).value b = 0 ↔ b 20 &&& (0x08 : BitVec 8) <<< i.val = 0) ∧
      (((SpaPart.aux i).value b).toNat < 2 ↔ b 20 &&& (0x08 : BitVec 8) <<< i.val = 0) := by
  have hvalue : (SpaPart.aux i).value b = b 20 &&& BitVec.twoPow 8 (3 + i.val) ∧
      (0x08 : BitVec 8) <<< i.val = BitVec.twoPow 8 (3 + i.val) ∧ 2 ≤ (BitVec.twoPow 8 (3 + i.val)).toNat := by
    obtain rfl | rfl : i = 0 ∨ i = 1 := by omega
    · exact ⟨rfl, rfl, by decide⟩
    · exact ⟨rfl, rfl, by decide⟩
  obtain ⟨hv, hmask, hlarge⟩ := hvalue
  rw [hv, hmask]
  refine ⟨Iff.rfl, fun hlt => ?_, fun h0 => by rw [h0]; decide⟩
  rcases and_bit (b 20) (3 + i.val) with h | h
  · exact h
  · rw [h] at hlt
    omega

/-! ## Stored states -/

variable {F conf}

/-- The device of a part holds what the last status says. -/
theorem Healthy.device {s : Spa} (hh : s.devicesReady = true → Healthy F conf s) {k : SpaPart} (hc : k.Created conf s)
    (hk : k.subtype ≠ subtypeTemp) :
    ∃ d, s.devices (k.uid s.macSuffix) = some d ∧ k.Suits d ∧ curval F d = k.value s.prevByte := by
  obtain ⟨hready, hinst, hfresh⟩ := hc
  obtain ⟨d, hd, hshow⟩ := (hh hready).shows k hinst
  exact ⟨d, hd, (hshow hfresh).1, (hshow hfresh).2 hk⟩

theorem Healthy.stored {s : Spa} (hh : s.devicesReady = true → Healthy F conf s) {k : SpaPart} (hc : k.Created conf s)
    (hk : k.subtype ≠ subtypeTemp) : s.stored F k = some (k.value s.prevByte) := by
  obtain ⟨d, hd, -, hv⟩ := Healthy.device hh hc hk
  unfold Spa.stored
  rw [hd, Option.map_some, hv]

theorem states_ne_temp : subtypeTristate ≠ subtypeTemp ∧ subtypeSwitch ≠ subtypeTemp := by
  decide

theorem place_subtype {k : SpaPart} (h : k.place.isSome) : k.subtype ≠ subtypeTemp := by
  cases k with
  | pump => exact states_ne_temp.1
  | light => exact states_ne_temp.2
  | _ => cases h

theorem button_subtype {k : SpaPart} {x : BitVec 8 × Nat} (h : k.button = some x) : k.subtype ≠ subtypeTemp := by
  cases k with
  | pump => exact states_ne_temp.1
  | light | aux | mister => exact states_ne_temp.2
  | _ => cases h

/-- The devices hold what they can hold, and their buttons bring every state, exactly when no pump shows both of its bits and no
aux device its bit. -/
theorem served_iff {s : Spa} (hh : s.devicesReady = true → Healthy F conf s) {b : Nat → BitVec 8}
    (hb : ∀ k : SpaPart, k.value s.prevByte = k.value b) :
    Served F conf s ↔ (∀ i, (SpaPart.pump i).Created conf s → ((SpaPart.pump i).value b).toNat < 3) ∧
      ∀ i : Fin 2, (SpaPart.aux i).Created conf s → b 20 &&& (0x08 : BitVec 8) <<< i.val = 0 := by
  have hbutton : ∀ (k : SpaPart) (code : BitVec 8) (states : Nat), k.button = some (code, states) → k.Created conf s →
      ((∃ d, s.devices (k.uid s.macSuffix) = some d ∧ ∀ r < states, Pushed F d code states r) ↔ (k.value b).toNat < states) := by
    intro k code states hk hc
    obtain ⟨d, hd, hsuits, hv⟩ := Healthy.device hh hc (button_subtype hk)
    rw [← hb, ← hv, ← pushed_iff F hk hsuits, hd]
    exact ⟨fun ⟨d', hd', hall⟩ => by cases hd'; exact hall, fun hall => ⟨d, rfl, hall⟩⟩
  constructor
  · intro h
    refine ⟨fun i hc => (hbutton _ _ _ rfl hc).mp (h.buttons _ _ _ rfl hc), fun i hc => ?_⟩
    exact (aux_value i b).2.mp ((hbutton _ _ _ rfl hc).mp (h.buttons _ _ _ rfl hc))
  · rintro ⟨hpump, haux⟩
    have hswitch : ∀ k : SpaPart, k.Created conf s → k.subtype = subtypeSwitch → k.value b = 0 ∨ k.value b = 1 := by
      intro k hc hk
      by_cases h : ∃ i, k = .aux i
      · obtain ⟨i, rfl⟩ := h
        exact .inl ((aux_value i b).1.mpr (haux i hc))
      · exact value_switch hk (fun i hi => h ⟨i, hi⟩) b
    have hone : ∀ k : SpaPart, k.Created conf s → k.subtype = subtypeSwitch → (k.value b).toNat < 2 := by
      intro k hc hk
      rcases hswitch k hc hk with h | h
      · rw [h]
        decide
      · rw [h]
        decide
    refine ⟨fun k hc hk => ?_, fun k code states hbut hc => (hbutton k code states hbut hc).mpr ?_⟩
    · rw [Healthy.stored hh hc (hk ▸ states_ne_temp.2), hb]
      rcases hswitch k hc hk with h | h
      · exact .inl (congrArg some h)
      · exact .inr (congrArg some h)
    · cases k with
      | pump i =>
        cases hbut
        exact hpump i hc
      | light i | aux i | mister =>
        cases hbut
        exact hone _ hc rfl
      | _ => cases hbut

/-! ## Steps -/

/-- What a message before the devices are built leaves for `init_balboa_devs`. -/
def SpaMsg.prepare (s : Spa) : SpaMsg → Spa
  | .config data =>
    { s with
      macSuffix := if s.macSuffix = {} then ⟨data.getD 11 0, data.getD 12 0, data.getD 13 0⟩ else s.macSuffix
      spacfg := { s.spacfg with cfgdoneConf := true } }
  | .panel data => { s with spacfg := { (panelCells data).foldl Spaconfig.write s.spacfg with cfgdonePanel := true } }
  | .status data =>
    { s with
      spacfg := { s.spacfg with tscale := statusTscale fun k => data.getD k 0, trange := data.getD 15 0 &&& 0x04 != 0
                                cfgdoneStatus := true } }

theorem eq_ok_of_toOption {ε α : Type} {x : Except ε α} {a : α} (h : x.toOption = some a) : x = .ok a := by
  cases x with
  | ok b => exact congrArg Except.ok (Option.some.inj h)
  | error e => cases h

theorem SpaMsg.prepare_ready (m : SpaMsg) (s : Spa) : (m.prepare s).devicesReady = s.devicesReady := by
  cases m <;> rfl

/-- Before the devices are built, a message is noted and `init_balboa_devs` tries. -/
theorem spaStep_unready {s s' : Spa} {m : SpaMsg} (hready : s.devicesReady = false) (h : spaStep F conf s m = some s') :
    s' = initBalboaDevs conf (m.prepare s) := by
  have hunready : ¬ s.devicesReady = true := fun hr => Bool.false_ne_true (hready.symm.trans hr)
  cases m with
  | config data =>
    replace h := eq_ok_of_toOption h
    unfold parseConfigResp at h
    split at h
    · cases h
    · dsimp only at h
      dsimp only [SpaMsg.prepare]
      by_cases hmac : s.macSuffix = {}
      · rw [if_pos hmac, if_neg hunready] at h
        cases h
        rw [if_pos hmac]
      · rw [if_neg hmac, if_neg hunready] at h
        cases h
        rw [if_neg hmac]
  | panel data =>
    replace h := eq_ok_of_toOption h
    unfold parsePanelConfigResp at h
    rw [if_neg hunready] at h
    split at h
    · cases h
    · cases h
      rfl
  | status data =>
    obtain ⟨r, hr, rfl⟩ := Option.map_eq_some_iff.mp h
    replace hr := eq_ok_of_toOption hr
    unfold parseStatusUpdate at hr
    dsimp only at hr
    rw [if_pos hready] at hr
    split at hr
    · cases hr
    · cases hr
      rfl

/-- Once the devices are built, only a status changes anything, and the devices hold what it says. -/
theorem spaStep_ready {s s' : Spa} {m : SpaMsg} (hh : Healthy F conf s) (hready : s.devicesReady = true)
    (h : spaStep F conf s m = some s') :
    (∃ data, m = .status data ∧ 29 ≤ data.length ∧ s'.setup = s.setup ∧ s'.prevStat = statusBytes data ∧ Healthy F conf s') ∨
      (∀ data, m ≠ .status data) ∧ s' = s := by
  cases m with
  | config data =>
    refine .inr ⟨fun _ hm => (nomatch hm), ?_⟩
    replace h := eq_ok_of_toOption h
    unfold parseConfigResp at h
    rw [if_neg (fun hmac => hh.mac hmac.1), if_neg hh.mac] at h
    dsimp only at h
    rw [if_pos hready] at h
    cases h
    rfl
  | panel data =>
    refine .inr ⟨fun _ hm => (nomatch hm), ?_⟩
    replace h := eq_ok_of_toOption h
    unfold parsePanelConfigResp at h
    rw [if_pos hready] at h
    cases h
    rfl
  | status data =>
    obtain ⟨r, hr, rfl⟩ := Option.map_eq_some_iff.mp h
    obtain ⟨hlen, hsetup, hprev, hhealthy⟩ := hh.parseStatusUpdate hready (eq_ok_of_toOption hr)
    exact .inl ⟨data, rfl, hlen, hsetup, hprev, hhealthy⟩

/-- Statuses that come in when the devices are built do not fail. -/
theorem spaStep_status {s : Spa} (hready : s.devicesReady = true) {data : List (BitVec 8)} (hlen : 29 ≤ data.length) :
    ∃ s', spaStep F conf s (.status data) = some s' := by
  have h := parseStatusUpdate_cases F conf data s
  rw [hready, if_pos rfl, if_pos hlen] at h
  obtain ⟨r, hr, -⟩ := h
  exact ⟨r.1, by rw [spaStep, hr]; rfl⟩

/-- The devices stay as they were built. -/
theorem spaStep_healthy {s s' : Spa} {m : SpaMsg} (hh : s.devicesReady = true → Healthy F conf s)
    (h : spaStep F conf s m = some s') : s'.devicesReady = true → Healthy F conf s' := by
  intro hready'
  cases hready : s.devicesReady with
  | true =>
    rcases spaStep_ready (hh hready) hready h with ⟨_, -, -, -, -, hhealthy⟩ | ⟨-, rfl⟩
    · exact hhealthy
    · exact hh hready
  | false =>
    rw [spaStep_unready hready h] at hready' ⊢
    by_cases hcan : CanBuild (m.prepare s)
    · exact healthy_initBalboaDevs hcan
    · rw [initBalboaDevs_of_not conf hcan, SpaMsg.prepare_ready, hready] at hready'
      cases hready'

/-! ## Two runs -/

theorem SameBut.cases {p : SpaPart} {m m' : SpaMsg} (h : SameBut p m m') :
    (∃ a b, m = .status a ∧ m' = .status b ∧ a.length = b.length ∧
      ∀ j, a.getD j 0 &&& ~~~ p.mask j = b.getD j 0 &&& ~~~ p.mask j) ∨ (∀ data, m ≠ .status data) ∧ m = m' := by
  cases m with
  | status a =>
    cases m' with
    | status b => exact .inl ⟨a, b, rfl, rfl, h⟩
    | config | panel => cases h
  | config | panel => exact .inr ⟨fun _ hm => (nomatch hm), h⟩

theorem setup_initBalboaDevs {s t : Spa} (h : s.setup = t.setup) :
    (initBalboaDevs conf s).setup = (initBalboaDevs conf t).setup := by
  have hcan : CanBuild s ↔ CanBuild t := by
    change CanBuild s.setup ↔ CanBuild t.setup
    rw [h]
  by_cases hs : CanBuild s
  · rw [(initBalboaDevs_of Doubles.exact conf hs).1, (initBalboaDevs_of Doubles.exact conf (hcan.mp hs)).1, h]
  · rw [initBalboaDevs_of_not conf hs, initBalboaDevs_of_not conf (fun ht => hs (hcan.mpr ht)), h]

theorem write_frame (x : SpaCell) (c : Spaconfig) :
    { c.write x with tscale := 0, trange := false } = { c with tscale := 0, trange := false : Spaconfig }.write x := by
  cases x with
  | aux i =>
    by_cases hi : i < 2
    · simp only [Spaconfig.write, dif_pos hi]
    · simp only [Spaconfig.write, dif_neg hi]
  | _ => rfl

/-- Writing places does not touch what depends on the temperature. -/
theorem foldl_write_frame (xs : List SpaCell) (c : Spaconfig) :
    { xs.foldl Spaconfig.write c with tscale := 0, trange := false } =
      xs.foldl Spaconfig.write { c with tscale := 0, trange := false } := by
  induction xs generalizing c with
  | nil => rfl
  | cons x xs ih => rw [List.foldl_cons, List.foldl_cons, ih, write_frame]

/-- Before the devices are built, a status only says that it came. -/
theorem setup_prepare {s t : Spa} (h : s.setup = t.setup) {p : SpaPart} {m m' : SpaMsg} (hm : SameBut p m m') :
    (m.prepare s).setup = (m'.prepare t).setup := by
  rcases hm.cases with ⟨a, b, rfl, rfl, -⟩ | ⟨hne, rfl⟩
  · exact congrArg (fun u : Spa => { u with spacfg := { u.spacfg with cfgdoneStatus := true } }) h
  · cases m with
    | status data => exact absurd rfl (hne data)
    | config data =>
      exact congrArg (fun u : Spa => { u with
        macSuffix := if u.macSuffix = ({} : MacSuffix) then ⟨data.getD 11 0, data.getD 12 0, data.getD 13 0⟩ else u.macSuffix
        spacfg := { u.spacfg with cfgdoneConf := true } }) h
    | panel data =>
      have hpanel : ∀ u : Spa, ((SpaMsg.panel data).prepare u).setup =
          { u.setup with
            spacfg := { (panelCells data).foldl Spaconfig.write u.setup.spacfg with cfgdonePanel := true } } := by
        intro u
        unfold Spa.setup
        dsimp only
        rw [← foldl_write_frame]
        rfl
      rw [hpanel, hpanel, h]

variable (F conf) in
/-- Two states that the parts do not tell apart. -/
structure Twin (s t : Spa) : Prop where
  setup : s.setup = t.setup
  left : s.devicesReady = true → Healthy F conf s
  right : t.devicesReady = true → Healthy F conf t

/-- A status does not change what the parts depend on. -/
theorem spaStep_setup {s s' : Spa} {m : SpaMsg} (hh : Healthy F conf s) (hready : s.devicesReady = true)
    (h : spaStep F conf s m = some s') : s'.setup = s.setup := by
  rcases spaStep_ready hh hready h with ⟨_, -, -, hsetup, -⟩ | ⟨-, rfl⟩
  · exact hsetup
  · rfl

/-- On messages that differ in the bits of one part, two states that the parts do not tell apart stay so. -/
theorem Twin.step {s t s' t' : Spa} (h : Twin F conf s t) {p : SpaPart} {m m' : SpaMsg} (hm : SameBut p m m')
    (hs : spaStep F conf s m = some s') (ht : spaStep F conf t m' = some t') : Twin F conf s' t' := by
  refine ⟨?_, spaStep_healthy h.left hs, spaStep_healthy h.right ht⟩
  have hready' := setup_ready h.setup
  cases hready : t.devicesReady with
  | true =>
    rw [hready] at hready'
    rw [spaStep_setup (h.left hready') hready' hs, spaStep_setup (h.right hready) hready ht, h.setup]
  | false =>
    rw [hready] at hready'
    rw [spaStep_unready hready' hs, spaStep_unready hready ht]
    exact setup_initBalboaDevs (setup_prepare h.setup hm)

theorem exec_twin {p : SpaPart} {ms ms' : List SpaMsg} {s t : Spa} (hms : List.Forall₂ (SameBut p) ms ms')
    (hs : exec (spaStep F conf) {} ms = some s) (ht : exec (spaStep F conf) {} ms' = some t) : Twin F conf s t :=
  exec_related (fun _ _ _ _ _ _ h hm hs ht => h.step hm hs ht) hms
    ⟨rfl, fun h => absurd h Bool.false_ne_true, fun h => absurd h Bool.false_ne_true⟩ hs ht

theorem created_of_setup {s t : Spa} (h : s.setup = t.setup) (k : SpaPart) : k.Created conf s ↔ k.Created conf t := by
  unfold SpaPart.Created
  rw [setup_ready h, setup_installed h, setup_mac h]

/-! ## What one message keeps -/

/-- Just built devices show zero. -/
theorem prevByte_new {s s' : Spa} {m : SpaMsg} (hready : s.devicesReady = false) (h : spaStep F conf s m = some s')
    (hready' : s'.devicesReady = true) : s'.prevByte = fun _ => 0 := by
  rw [spaStep_unready hready h] at hready' ⊢
  by_cases hcan : CanBuild (m.prepare s)
  · exact prevByte_zero (initBalboaDevs_of Doubles.exact conf hcan).2.1
  · rw [initBalboaDevs_of_not conf hcan, SpaMsg.prepare_ready, hready] at hready'
    cases hready'

theorem served_new {s s' : Spa} {m : SpaMsg} (hready : s.devicesReady = false) (h : spaStep F conf s m = some s')
    (hh : s'.devicesReady = true → Healthy F conf s') : Served F conf s' := by
  cases hready' : s'.devicesReady with
  | false =>
    have hnone : ∀ k : SpaPart, ¬ k.Created conf s' := fun k hc => Bool.false_ne_true (hready'.symm.trans hc.1)
    exact ⟨fun k hc => absurd hc (hnone k), fun k _ _ _ hc => absurd hc (hnone k)⟩
  | true =>
    refine (served_iff hh (b := fun _ => 0) (fun k => by rw [prevByte_new hready h hready'])).mpr ⟨fun i _ => ?_, fun i _ => ?_⟩
    · rw [value_zero]
      decide
    · exact BitVec.zero_and

variable {t : SpaLog} {m : SpaMsg} {s' : Spa}

/-- Messages that differ in the bits of one part build the same. -/
theorem separate_new (hkept : exec (spaStep F conf) {} t.heard = some t.spa) (hready : t.spa.devicesReady = false)
    (h : spaStep F conf t.spa m = some s') : Separate F conf (t.then m s') := by
  intro p k hp hk hne hinst hc ms s hms hrun
  obtain ⟨ms₀, m', s₀, hms₀, hm, hrun₀, hlast⟩ := exec_related_concat hms hrun
  have htwin := exec_twin hms₀ hkept hrun₀
  have htwin' := htwin.step hm h hlast
  have hready₀ : s₀.devicesReady = false := (setup_ready htwin.setup).symm.trans hready
  have hc' : k.Created conf s := (created_of_setup htwin'.setup k).mp hc
  rw [Healthy.stored htwin'.right hc' (place_subtype hk), prevByte_new hready₀ hlast hc'.1]
  exact (Healthy.stored htwin'.left hc (place_subtype hk)).symm ▸ by rw [prevByte_new hready h hc.1]

/-- A message before the devices are built. -/
theorem Controls.new (hkept : exec (spaStep F conf) {} t.heard = some t.spa) (ht : Controls F conf t)
    (hh : t.spa.devicesReady = true → Healthy F conf t.spa) (hready : t.spa.devicesReady = false)
    (h : spaStep F conf t.spa m = some s') : Controls F conf (t.then m s') ↔ SpaFits conf t m := by
  have hrest : Controls F conf (t.then m s') ↔ ∀ c ∈ m.written t.spa, c.Inside := by
    constructor
    · exact fun hc c hmem => hc.inside c (List.mem_append_right _ hmem)
    · intro hin
      refine ⟨fun c hmem => ?_, served_new hready h (spaStep_healthy hh h), separate_new hkept hready h⟩
      rcases List.mem_append.mp hmem with hmem | hmem
      · exact ht.inside c hmem
      · exact hin c hmem
  rw [hrest]
  cases m with
  | config data => exact iff_of_true (fun c hmem => absurd hmem List.not_mem_nil) trivial
  | panel data =>
    dsimp only [SpaMsg.written, SpaFits]
    rw [hready, if_neg Bool.false_ne_true, panelCells_inside_iff]
    exact ⟨fun hd _ => hd, fun hd => hd rfl⟩
  | status data =>
    exact iff_of_true (fun c hmem => absurd hmem List.not_mem_nil)
      (fun hr => absurd (hready.symm.trans hr) Bool.false_ne_true)

theorem sameBut_refl (p : SpaPart) (m : SpaMsg) : SameBut p m m := by
  cases m with
  | status data => exact ⟨rfl, fun _ => rfl⟩
  | config | panel => rfl

/-- What is stored of a status that comes in when the devices are built. -/
theorem stored_status {s s' : Spa} {data : List (BitVec 8)} (hh : Healthy F conf s) (hready : s.devicesReady = true)
    (h : spaStep F conf s (.status data) = some s') {k : SpaPart} (hk : k.place.isSome) (hc : k.Created conf s) :
    s'.stored F k = some (k.value fun i => data.getD i 0) := by
  rcases spaStep_ready hh hready h with ⟨_, hm, -, hsetup, hprev, hhealthy⟩ | ⟨hne, -⟩
  · cases hm
    rw [Healthy.stored (fun _ => hhealthy) ((created_of_setup hsetup k).mpr hc) (place_subtype hk), value_prevByte hprev]
  · exact absurd rfl (hne data)

/-- Statuses that differ in the bits of one part leave the same in the others exactly when these show in no bit of it, or in one
of their own. -/
theorem separate_status_iff (hkept : exec (spaStep F conf) {} t.heard = some t.spa) (hh : Healthy F conf t.spa)
    (hready : t.spa.devicesReady = true) {data : List (BitVec 8)} (h : spaStep F conf t.spa (.status data) = some s') :
    Separate F conf (t.then (.status data) s') ↔
      ∀ p k : SpaPart, p.place.isSome → k.place.isSome → p ≠ k → p.installed t.spa.spacfg = true → k.Created conf t.spa →
        ∀ j, p.mask j &&& k.mask j ≠ 0 → (∃ i, k = .light i) ∧ data.getD j 0 &&& k.mask j &&& ~~~ p.mask j ≠ 0 := by
  have hsetup := spaStep_setup hh hready h
  constructor
  · intro hsep p k hp hk hne hinst hc j hshare
    by_contra hbits
    have hlen : 29 ≤ data.length := by
      rcases spaStep_ready hh hready h with ⟨_, hm, hlen, -⟩ | ⟨hnot, -⟩
      · cases hm
        exact hlen
      · exact absurd rfl (hnot data)
    obtain ⟨data', hsame, hdiffer⟩ := exists_sameBut hk hlen hshare hbits
    obtain ⟨s₁, hs₁⟩ : ∃ s₁, spaStep F conf t.spa (.status data') = some s₁ := spaStep_status hready (hsame.1 ▸ hlen)
    have hms : List.Forall₂ (SameBut p) (t.heard ++ [.status data]) (t.heard ++ [.status data']) :=
      List.rel_append (List.forall₂_same.mpr fun m _ => sameBut_refl p m) (.cons hsame .nil)
    have hrun : exec (spaStep F conf) {} (t.heard ++ [.status data']) = some s₁ :=
      exec_append_eq_some.mpr ⟨t.spa, hkept, exec_cons_eq_some.mpr ⟨s₁, hs₁, rfl⟩⟩
    have heq := hsep p k hp hk hne (setup_installed hsetup p ▸ hinst) ((created_of_setup hsetup k).mpr hc) _ _ hms hrun
    rw [stored_status hh hready hs₁ hk hc] at heq
    exact hdiffer (Option.some.inj (heq.trans (stored_status hh hready h hk hc)))
  · intro hbits p k hp hk hne hinst hc ms s hms hrun
    obtain ⟨ms₀, m', s₀, hms₀, hm, hrun₀, hlast⟩ := exec_related_concat hms hrun
    have htwin := exec_twin hms₀ hkept hrun₀
    have hready₀ : s₀.devicesReady = true := (setup_ready htwin.setup).symm.trans hready
    have hct : k.Created conf t.spa := (created_of_setup hsetup k).mp hc
    have hc₀ : k.Created conf s₀ := (created_of_setup htwin.setup k).mp hct
    rcases hm.cases with ⟨a, b, ha, rfl, -, hsame⟩ | ⟨hnot, -⟩
    · cases ha
      rw [stored_status (htwin.right hready₀) hready₀ hlast hk hc₀]
      refine Eq.trans ?_ (stored_status hh hready h hk hct).symm
      rw [value_eq_of_sameBut hk hsame (hbits p k hp hk hne (setup_installed hsetup p ▸ hinst) hct)]
    · exact absurd rfl (hnot data)

/-- A status when the devices are built. -/
theorem Controls.status (hkept : exec (spaStep F conf) {} t.heard = some t.spa) (ht : Controls F conf t)
    (hh : Healthy F conf t.spa) (hready : t.spa.devicesReady = true) {data : List (BitVec 8)}
    (h : spaStep F conf t.spa (.status data) = some s') :
    Controls F conf (t.then (.status data) s') ↔ StatusFits conf t.spa fun j => data.getD j 0 := by
  obtain ⟨hsetup, hprev⟩ : s'.setup = t.spa.setup ∧ s'.prevStat = statusBytes data := by
    rcases spaStep_ready hh hready h with ⟨_, hm, -, hsetup, hprev, -⟩ | ⟨hnot, -⟩
    · cases hm
      exact ⟨hsetup, hprev⟩
    · exact absurd rfl (hnot data)
  have hcreated : ∀ k : SpaPart, k.Created conf s' ↔ k.Created conf t.spa := created_of_setup hsetup
  have hserved := served_iff (spaStep_healthy (fun _ => hh) h) (value_prevByte hprev)
  have hseparate := separate_status_iff hkept hh hready h
  constructor
  · intro hc
    obtain ⟨hpumps, haux⟩ := hserved.mp hc.served
    exact ⟨fun i hi => (pump_value_lt_iff i _).mp (hpumps i ((hcreated _).mpr hi)), fun i hi => haux i ((hcreated _).mpr hi),
      hseparate.mp hc.separate⟩
  · rintro ⟨hpumps, haux, hbits⟩
    refine ⟨fun c hmem => ht.inside c ?_, hserved.mpr ⟨fun i hi => ?_, fun i hi => haux i ((hcreated _).mp hi)⟩,
      hseparate.mpr hbits⟩
    · rcases List.mem_append.mp hmem with hmem | hmem
      · exact hmem
      · exact absurd hmem List.not_mem_nil
    · exact (pump_value_lt_iff i _).mpr (hpumps i ((hcreated _).mp hi))

/-- Another message when the devices are built. -/
theorem Controls.idle (hkept : exec (spaStep F conf) {} t.heard = some t.spa) (ht : Controls F conf t)
    (hh : Healthy F conf t.spa) (hready : t.spa.devicesReady = true) (hnot : ∀ data, m ≠ .status data)
    (h : spaStep F conf t.spa m = some s') : Controls F conf (t.then m s') := by
  have hsame : ∀ {s s' : Spa}, Healthy F conf s → s.devicesReady = true → spaStep F conf s m = some s' → s' = s := by
    intro s s' hs hr hstep
    rcases spaStep_ready hs hr hstep with ⟨data, hm, -⟩ | ⟨-, he⟩
    · exact absurd hm (hnot data)
    · exact he
  cases hsame hh hready h
  refine ⟨fun c hmem => ?_, ht.served, fun p k hp hk hne hinst hc ms s hms hrun => ?_⟩
  · rcases List.mem_append.mp hmem with hmem | hmem
    · exact ht.inside c hmem
    · cases m with
      | panel data =>
        rw [SpaMsg.written, if_pos hready] at hmem
        exact absurd hmem List.not_mem_nil
      | config | status => exact absurd hmem List.not_mem_nil
  · obtain ⟨ms₀, m', s₀, hms₀, hm, hrun₀, hlast⟩ := exec_related_concat hms hrun
    have htwin := exec_twin hms₀ hkept hrun₀
    have hready₀ : s₀.devicesReady = true := (setup_ready htwin.setup).symm.trans hready
    rcases hm.cases with ⟨a, _, ha, -⟩ | ⟨-, rfl⟩
    · exact absurd ha (hnot a)
    · rw [hsame (htwin.right hready₀) hready₀ hlast]
      exact ht.separate p k hp hk hne hinst hc ms₀ s₀ hms₀ hrun₀

/-- What a log of messages is. -/
structure Kept (F : Doubles) (conf : Str → Option SpaDev) (t : SpaLog) : Prop where
  run : exec (spaStep F conf) {} t.heard = some t.spa
  healthy : t.spa.devicesReady = true → Healthy F conf t.spa

/-- One message: all is right behind it exactly when it fits. -/
theorem Kept.hear {t' : SpaLog} (hk : Kept F conf t) (h : spaHear F conf t m = some t') :
    Kept F conf t' ∧ (Controls F conf t → (Controls F conf t' ↔ SpaFits conf t m)) := by
  obtain ⟨s', hs', rfl⟩ := Option.map_eq_some_iff.mp h
  refine ⟨⟨exec_append_eq_some.mpr ⟨t.spa, hk.run, exec_cons_eq_some.mpr ⟨s', hs', rfl⟩⟩, spaStep_healthy hk.healthy hs'⟩, ?_⟩
  intro ht
  cases hready : t.spa.devicesReady with
  | false => exact ht.new hk.run hk.healthy hready hs'
  | true =>
    have hh := hk.healthy hready
    cases m with
    | status data =>
      refine (ht.status hk.run hh hready hs').trans ⟨fun hfit _ => hfit, fun hfit => hfit hready⟩
    | config data => exact iff_of_true (ht.idle hk.run hh hready (fun _ hm => nomatch hm) hs') trivial
    | panel data =>
      exact iff_of_true (ht.idle hk.run hh hready (fun _ hm => nomatch hm) hs')
        (fun hr => absurd (hr.symm.trans hready) Bool.false_ne_true)

theorem kept_start : Kept F conf {} := ⟨rfl, fun h => absurd h Bool.false_ne_true⟩

theorem controls_start : Controls F conf {} := by
  have hnone : ∀ k : SpaPart, ¬ k.Created conf {} := fun k hc => Bool.false_ne_true hc.1
  exact ⟨fun c hc => absurd hc List.not_mem_nil, ⟨fun k hc => absurd hc (hnone k), fun k _ _ _ hc => absurd hc (hnone k)⟩,
    fun p k _ _ _ _ hc => absurd hc (hnone k)⟩

variable (F conf)

/-- From the start of the collector on, only the arrays are written and what is stored and pushed is right, exactly when every
message fits. -/
theorem controls_iff (ms : List SpaMsg) :
    Throughout (spaHear F conf) (Controls F conf) {} ms ↔ Along (spaHear F conf) (SpaFits conf) {} ms :=
  throughout_iff_along (fun _ _ _ hk h => (hk.hear h).1) (fun _ _ _ hk ht h => (hk.hear h).2 ht) kept_start controls_start ms

/-- A panel response names the second aux device, and the place behind the array is written. -/
theorem not_controls_aux :
    ¬ Throughout (spaHear Doubles.exact fun _ => none) (Controls Doubles.exact fun _ => none) {}
      [.panel [0x7e, 0x0b, 0x0a, 0xbf, 0x2e, 0x0a, 0x00, 0x01, 0x50, 0x02, 0x00, 0x95, 0x7e]] := by
  intro h
  obtain ⟨-, h⟩ := h
  have hinside := (h _ rfl).inside (.aux 2) (by decide)
  revert hinside
  decide

end Gnhast.Balboacoll
