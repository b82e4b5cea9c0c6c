import Gnhast.Lemmas.Accessors
import Gnhast.Theorems.Tokens
import Gnhast.Venstarcoll

/-!
# A change of the temperature units

When the units of the thermostat change, `request_cb` gives every device of subtype `SUBTYPE_TEMP` the new scale and registers a device
for each; but the pointer to that device has not been assigned. `Switched` is what the loop is for. Without such a device there is
nothing to do, and the rest of the message registers nothing.
-/

namespace Gnhast.Venstarcoll

open CStr

variable (F : Doubles) (conf : VenConf) (beyond : BitVec 64)

/-- A line that registers a device. -/
def VenOut.isReg : VenOut → Bool
  | .gnhastd line => (str "reg ").isPrefixOf line
  | .queryinfo => false

/-- A line registers a device by its uid, with a scale. -/
def Registers (scale : BitVec 32) (dev : Device) : VenOut → Prop
  | .gnhastd line => ∃ mid post, line = str "reg " ++ field .uid dev.uid ++ str " " ++ mid ++ str " " ++ field .scale (fmtD scale) ++
      str " " ++ post
  | .queryinfo => False

/-- The devices of subtype `SUBTYPE_TEMP`. -/
def Ven.temps (s : Ven) : List Device := s.alldevs.filter fun dev => dev.subtype = subtypeTemp

/-- The devices stay, those of subtype `SUBTYPE_TEMP` have the new scale, and each of them is registered once with it, and nothing else. -/
def Switched (scale : BitVec 32) (s : Ven) (r : Except Fault (Ven × List VenOut)) : Prop :=
  ∃ s' out, r = .ok (s', out) ∧ s'.alldevs.map Device.links = s.alldevs.map Device.links ∧
    (∀ dev ∈ s'.temps, (dev.scale.toNat : Int) = scale.toInt) ∧
    ∃ devs, devs.Perm s.temps ∧ List.Forall₂ (Registers scale) devs (out.filter VenOut.isReg)

/-- A Query/Info message tells units that are not those of before. -/
structure TellsUnits (s : Ven) (req : VenReq) (token : List Jsmntok) (val : BitVec 32) : Prop where
  ok : req.responseCode = httpOk
  uri : sameCase req.uri venInfo = true
  body : req.body ≠ []
  parsed : conf.jsmnParse req.body = some token
  told : ∃ i : Nat, jtokFindTokenVal token req.body (str "tempunits") token.length = .ok (i : Int) ∧
    ∃ t ∈ token[i]?, jtokInt t req.body = val
  changed : val ≠ s.tempscale

/-- The name in a message, if there is one, is a string that is not empty. -/
def NameReadable (token : List Jsmntok) (buf : Str) : Prop :=
  ∀ i : Nat, jtokFindTokenVal token buf (str "name") token.length = .ok (i : Int) → ∀ t ∈ token[i]?, jtokString t buf ≠ none

/-! ## Devices that are updated -/

theorem temps_eq_nil_iff (s : Ven) : s.temps = [] ↔ ∀ dev ∈ s.alldevs, dev.subtype ≠ subtypeTemp := by
  simp [Ven.temps, List.filter_eq_nil_iff]

theorem temps_eq_nil_of_links {s s' : Ven} (h : s'.alldevs.map Device.links = s.alldevs.map Device.links) (hs : s.temps = []) :
    s'.temps = [] := by
  rw [temps_eq_nil_iff] at hs ⊢
  intro dev hdev
  have hmem : dev.links ∈ s.alldevs.map Device.links := h ▸ List.mem_map_of_mem hdev
  obtain ⟨d, hd, he⟩ := List.mem_map.mp hmem
  have hsub : d.links.subtype = dev.links.subtype := by rw [he]
  intro htemp
  exact hs d hd (hsub.trans htemp)

/-- What a device's update is: it succeeds, registers nothing and keeps what the devices are. -/
def Updates (s : Ven) (r : Except Fault (Ven × List VenOut)) : Prop :=
  ∃ s' out, r = .ok (s', out) ∧ s'.alldevs.map Device.links = s.alldevs.map Device.links ∧ out.filter VenOut.isReg = []

theorem updates_nothing (s : Ven) : Updates s (.ok (s, [])) := ⟨s, [], rfl, rfl, rfl⟩

/-- An update is no registration. -/
theorem isReg_gnUpdateDevice (dev : Device) :
    ∃ line, gnUpdateDevice F dev gncNoscale = .ok line ∧ (line.map VenOut.gnhastd).toList.filter VenOut.isReg = [] := by
  have hcacti : queryBit gncNoscale gncUpdCacti = false := by decide
  have htags : (queryBit gncNoscale gncUpdTags || queryBit gncNoscale gncUpdFull) = false := by decide
  unfold gnUpdateDevice
  cases dev.name with
  | none => exact ⟨none, rfl, rfl⟩
  | some name =>
    dsimp only
    split
    · exact ⟨none, rfl, rfl⟩
    · rw [hcacti, htags]
      exact ⟨_, rfl, rfl⟩

theorem deref_of_lt {s : Ven} {i : Nat} (h : i < s.alldevs.length) : deref s (some i) = .ok s.alldevs[i] := by
  rw [deref, Option.bind_some, List.getElem?_eq_getElem h]

theorem updates_storeAndUpdate {s : Ven} {dev : Nat} (hdev : dev < s.alldevs.length) (data : Word) :
    Updates s (storeAndUpdate F s dev data) := by
  obtain ⟨line, hline, hreg⟩ := isReg_gnUpdateDevice F (storeDataDev F .data data s.alldevs[dev])
  refine ⟨{ s with alldevs := s.alldevs.set dev (storeDataDev F .data data s.alldevs[dev]) }, _, ?_, ?_, hreg⟩
  · unfold storeAndUpdate
    simp only [deref_of_lt hdev, hline, bind, Except.bind]
  · rw [List.map_set, links_storeDataDev]
    refine List.ext_getElem? fun i => ?_
    rw [List.getElem?_set]
    split
    · rename_i h
      subst h
      simp [hdev]
    · rfl

theorem updates_queryField (token : List Jsmntok) (buf : Str) (qi : Queryinfo) (s : Ven) :
    Updates s (queryField F conf beyond token buf qi s) := by
  unfold queryField
  split
  · exact updates_nothing s
  · rcases landed_jtokFindTokenVal token buf qi.name with h | ⟨i, hi, h⟩
    · rw [h]
      exact updates_nothing s
    · have hne : (i : Int) ≠ -1 := by omega
      simp only [h, bind, Except.bind, if_neg hne, Int.toNat_natCast, tokAt_of_lt hi]
      cases hf : findDeviceByuid s (s.uid qi.name) with
      | none => exact updates_nothing s
      | some dev =>
        have hdev : dev < s.alldevs.length := (List.findIdx?_eq_some_iff_findIdx_eq.mp hf).1
        exact updates_storeAndUpdate F hdev _

theorem updates_queryFields (token : List Jsmntok) (buf : Str) (qis : List Queryinfo) (s : Ven) :
    Updates s (queryFields F conf beyond token buf qis s) := by
  induction qis generalizing s with
  | nil => exact updates_nothing s
  | cons qi qis ih =>
    obtain ⟨s', out, h, hlinks, hreg⟩ := updates_queryField F conf beyond token buf qi s
    obtain ⟨s'', out', h', hlinks', hreg'⟩ := ih s'
    refine ⟨s'', out ++ out', ?_, hlinks'.trans hlinks, ?_⟩
    · rw [queryFields, h]
      simp only [bind, Except.bind, h']
    · rw [List.filter_append, hreg, hreg', List.append_nil]

/-! ## The loop over the devices -/

/-- Without a device of subtype `SUBTYPE_TEMP` the loop does nothing. -/
theorem reregister_quiet {s : Ven} (hs : s.temps = []) (dev : Option Nat) {is : List Nat} (his : ∀ i ∈ is, i < s.alldevs.length) :
    reregister dev is s = .ok (s, []) := by
  induction is with
  | nil => rfl
  | cons i is ih =>
    have hi := his i List.mem_cons_self
    have hne := (temps_eq_nil_iff s).mp hs _ (List.getElem_mem hi)
    rw [reregister, deref_of_lt hi]
    simp only [bind, Except.bind, if_neg hne]
    exact ih fun i hi => his i (List.mem_cons_of_mem _ hi)

/-- The first device of subtype `SUBTYPE_TEMP` makes the loop follow the pointer. -/
theorem reregister_unassigned {s : Ven} {is : List Nat} (his : ∀ i ∈ is, i < s.alldevs.length) {j : Nat} (hj : j ∈ is)
    {dev : Device} (hdev : s.alldevs[j]? = some dev) (htemp : dev.subtype = subtypeTemp) :
    reregister none is s = .error .uninitialised := by
  induction is with
  | nil => cases hj
  | cons i is ih =>
    have hi := his i List.mem_cons_self
    rw [reregister, deref_of_lt hi]
    by_cases hsub : s.alldevs[i].subtype = subtypeTemp
    · simp only [bind, Except.bind, if_pos hsub]
      rfl
    · simp only [bind, Except.bind, if_neg hsub]
      rcases List.mem_cons.mp hj with rfl | hj
      · rw [List.getElem?_eq_getElem hi] at hdev
        cases hdev
        exact absurd htemp hsub
      · exact ih (fun i hi => his i (List.mem_cons_of_mem _ hi)) hj

/-! ## The message -/

theorem switched_of_updates {s : Ven} {r : Except Fault (Ven × List VenOut)} (h : Updates s r) (hs : s.temps = []) (scale : BitVec 32) :
    Switched scale s r := by
  obtain ⟨s', out, hr, hlinks, hreg⟩ := h
  refine ⟨s', out, hr, hlinks, ?_, [], ?_, ?_⟩
  · rw [temps_eq_nil_of_links hlinks hs]
    exact List.forall_mem_nil _
  · rw [hs]
  · rw [hreg]
    exact .nil

/-- Where nothing is registered, no device of subtype `SUBTYPE_TEMP` is there to be. -/
theorem temps_eq_nil_of_switched {s s' : Ven} {scale : BitVec 32} (h : Switched scale s (.ok (s', []))) : s.temps = [] := by
  obtain ⟨_, _, hr, -, -, devs, hperm, hregs⟩ := h
  cases hr
  have hnil : devs = [] := List.forall₂_nil_right_iff.mp hregs
  exact List.nil_perm.mp (hnil ▸ hperm)

/-- A message with new units is handled as it should be exactly when there is no device of subtype `SUBTYPE_TEMP`, and its name can be
read. -/
theorem switched_iff {s : Ven} {req : VenReq} {token : List Jsmntok} {val : BitVec 32} (h : TellsUnits conf s req token val) :
    Switched val s (requestCb F conf beyond (some req) s) ↔
      (∀ dev ∈ s.alldevs, dev.subtype ≠ subtypeTemp) ∧ NameReadable token req.body := by
  have hreq : requestCb F conf beyond (some req) s = handleInfo F conf beyond token req.body s := by
    unfold requestCb
    have hok : ¬(req.responseCode ≠ httpOk ∨ req.body = []) := not_or.mpr ⟨not_not.mpr h.ok, h.body⟩
    simp only [if_neg hok, h.parsed, if_pos h.uri]
  rw [hreq, ← temps_eq_nil_iff]
  unfold handleInfo
  rcases landed_jtokFindTokenVal token req.body (str "name") with hname | ⟨i, hi, hname⟩
  · rw [hname]
    refine ⟨fun hsw => ⟨temps_eq_nil_of_switched hsw, ?_⟩, fun hs => switched_of_updates (updates_nothing s) hs.1 val⟩
    intro i hi
    rw [hname, Except.ok.injEq] at hi
    omega
  · have hne : (i : Int) ≠ -1 := by omega
    simp only [hname, bind, Except.bind, if_neg hne, Int.toNat_natCast, tokAt_of_lt hi]
    have hread : NameReadable token req.body ↔ jtokString token[i] req.body ≠ none := by
      constructor
      · intro hr
        exact hr i hname _ (List.getElem?_eq_getElem hi)
      · intro hr j hj t ht
        rw [hname, Except.ok.injEq, Nat.cast_inj] at hj
        subst hj
        rw [List.getElem?_eq_getElem hi, Option.mem_some_iff] at ht
        exact ht ▸ hr
    rw [hread]
    cases hstr : jtokString token[i] req.body with
    | none =>
      refine iff_of_false ?_ fun hs => hs.2 rfl
      rintro ⟨_, _, hr, -⟩
      cases hr
    | some name =>
      dsimp only
      rw [and_iff_left (Option.some_ne_none name)]
      split
      · exact ⟨temps_eq_nil_of_switched, fun hs => switched_of_updates (updates_nothing s) hs val⟩
      · obtain ⟨j, hj, t, ht, hval⟩ := h.told
        have hj0 : (j : Int) ≠ -1 := by omega
        have htok : tokAt token j = .ok t := by rw [tokAt, Option.mem_def.mp ht]
        simp only [hj, if_neg hj0, Int.toNat_natCast, htok, hval, if_pos h.changed]
        have his : ∀ i ∈ List.range s.alldevs.length, i < s.alldevs.length := fun i hi => List.mem_range.mp hi
        constructor
        · rintro ⟨_, _, hr, -⟩
          rw [temps_eq_nil_iff]
          intro dev hdev htemp
          obtain ⟨k, hk⟩ := List.getElem?_of_mem hdev
          have hklt : k < s.alldevs.length := (List.getElem?_eq_some_iff.mp hk).1
          rw [@reregister_unassigned { s with tempscale := val } _ his k (List.mem_range.mpr hklt) dev hk htemp] at hr
          cases hr
        · intro hs
          rw [@reregister_quiet { s with tempscale := val } hs none _ his]
          obtain ⟨s', out, hq, hlinks, hreg⟩ := updates_queryFields F conf beyond token req.body queryinfo { s with tempscale := val }
          refine switched_of_updates ⟨s', out, ?_, hlinks, hreg⟩ hs val
          simp only [hq, List.nil_append]

/-- The tokens of the answer below. -/
def celsiusTokens : List Jsmntok := [
  { type := .object, start := 0, stop := 35, size := 4 }, { type := .string, start := 2, stop := 6 },
  { type := .string, start := 9, stop := 19, valueof := 1 }, { type := .string, start := 22, stop := 31 },
  { type := .primitive, start := 33, stop := 34, valueof := 3 }]

/-- The thermostat has been set to Celsius. -/
def celsiusAnswer : VenReq where
  responseCode := 200
  uri := venInfo
  body := str "\x7b\"name\":\"Thermostat\",\"tempunits\":1\x7d"

/-- The defaults. -/
def defaultConf : VenConf where
  name := str "Thermostat"
  ttype := ttypeRes
  jsmnParse _ := some celsiusTokens

theorem tellsUnits_celsius (devs : List Device) : TellsUnits defaultConf { alldevs := devs } celsiusAnswer celsiusTokens 1 where
  ok := rfl
  uri := by decide
  body := by decide
  parsed := rfl
  told := ⟨4, by decide, _, rfl, by decide⟩
  changed := show (1 : BitVec 32) ≠ 0 by decide

theorem switched_fan : Switched 1 { alldevs := [{ uid := str "fan", type := 1, subtype := 1 }] }
    (requestCb Doubles.exact defaultConf 0 (some celsiusAnswer) { alldevs := [{ uid := str "fan", type := 1, subtype := 1 }] }) := by
  refine (switched_iff Doubles.exact defaultConf 0 (tellsUnits_celsius _)).mpr ⟨?_, ?_⟩
  · intro dev hdev
    rw [List.mem_singleton.mp hdev]
    decide
  · have hname : jtokFindTokenVal celsiusTokens celsiusAnswer.body (str "name") celsiusTokens.length = .ok ((2 : Nat) : Int) := by decide
    intro i hi t ht
    rw [hname, Except.ok.injEq, Nat.cast_inj] at hi
    subst hi
    cases ht
    decide

/-- One thermometer is enough. -/
theorem not_switched : ¬ ∀ (F : Doubles) (conf : VenConf) (beyond : BitVec 64) (s : Ven) (req : VenReq) (token : List Jsmntok)
    (val : BitVec 32), TellsUnits conf s req token val → Switched val s (requestCb F conf beyond (some req) s) := by
  intro hall
  obtain ⟨_, _, hr, -⟩ := hall Doubles.exact defaultConf 0
    { alldevs := [{ uid := str "spacetemp", name := some (str "t"), proto := 1, type := 3, subtype := 3 }] } celsiusAnswer celsiusTokens 1
    (tellsUnits_celsius _)
  have hfault : requestCb Doubles.exact defaultConf 0 (some celsiusAnswer)
      { alldevs := [{ uid := str "spacetemp", name := some (str "t"), proto := 1, type := 3, subtype := 3 }] } =
        .error .uninitialised := by
    rfl
  rw [hfault] at hr
  cases hr

end Gnhast.Venstarcoll
