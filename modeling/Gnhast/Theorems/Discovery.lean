import Gnhast.D30303
import Gnhast.Lemmas.Memory

/-!
# The choice of a discovered device

`Selects` is the choice that `cb_end_d30303` documents. The variable `ip_match` is not reset for a record, and not assigned before the
first one when a hostname is configured, so what is chosen is the first record with the MAC prefix as soon as it holds something.
`FirstFits` is when that is the record to be chosen.
-/

namespace Gnhast.D30303

open CStr

/-- A record has the MAC prefix, when one is given. -/
def MacFits (dev : D30303Dev) (r : D30303Resp) : Bool := dev.macPrefix.all fun m => prefixCase m r.macaddr

/-- A record has the configured hostname as its hostname or as its address, when one is given. -/
def HostFits (dev : D30303Dev) (r : D30303Resp) : Bool := dev.hostname.all fun h => sameCase h r.ucHostname || sameCase h r.ipaddr

/-- The slot of a record that fits. -/
def slotFits (dev : D30303Dev) (slot : Option D30303Resp) : Bool := slot.any fun r => MacFits dev r && HostFits dev r

/-- A slot passes for the MAC prefix: without a prefix each does, also an empty one. -/
def slotMac (dev : D30303Dev) (slot : Option D30303Resp) : Bool := dev.macPrefix.all fun m => slot.any fun r => prefixCase m r.macaddr

/-- The first record that fits is chosen, with the URL of its hostname or its address; without one the discovery is given up. -/
def Selects (dev : D30303Dev) (s : Heard) (out : Except Fault DiscOut) : Prop :=
  match s.list.findIdx? (slotFits dev) with
  | none => out = .ok .shutdown
  | some i => ∃ r hostname, s.list[i]? = some (some r) ∧
      (out = .ok (.found i (httpUrl r.ucHostname) hostname) ∨ out = .ok (.found i (httpUrl r.ipaddr) hostname))

/-- The first slot that passes for the MAC prefix, if there is one, holds a record with the configured hostname or address. -/
def FirstFits (dev : D30303Dev) (slots : List (Option D30303Resp)) : Prop :=
  ∀ slot ∈ slots.find? (slotMac dev), ∃ r ∈ slot, HostFits dev r = true

instance (dev : D30303Dev) (slots : List (Option D30303Resp)) : Decidable (FirstFits dev slots) :=
  match h : slots.find? (slotMac dev) with
  | none => .isTrue fun _ hs => by rw [h] at hs; cases hs
  | some none => .isFalse fun hf => by
    obtain ⟨r, hr, -⟩ := hf none h
    cases hr
  | some (some r) => decidable_of_iff (HostFits dev r = true) ⟨fun hr slot hs => by
      rw [h] at hs
      cases hs
      exact ⟨r, rfl, hr⟩, fun hf => by
      obtain ⟨r', hr', hh⟩ := hf (some r) h
      cases hr'
      exact hh⟩

/-! ## What is heard -/

/-- An answer leaves its record in the slot of its number, if that is not the last slot. -/
theorem cbD30303Read_ok {addr packet : Str} {s s' : Heard} (h : cbD30303Read addr packet s = .ok s') :
    s'.count = s.count + 1 ∧ ∀ i, s'.list[i]?.join = if i = s.count ∧ i + 1 < maxD30303Devs then recordOf addr packet else s.list[i]?.join := by
  unfold cbD30303Read at h
  split at h
  · cases h
  · split at h
    · rename_i hfull
      cases h
      refine ⟨rfl, fun i => ?_⟩
      rw [if_neg (by omega)]
      rfl
    · rename_i hroom
      split at h
      · rename_i hrec
        cases h
        refine ⟨rfl, fun i => ?_⟩
        split
        · rename_i hi
          rw [hrec]
          exact s.beyond i (by omega)
        · rfl
      · rename_i r hrec
        cases h
        refine ⟨rfl, fun i => ?_⟩
        have hlen := s.size
        change (s.list.set s.count (some r))[i]?.join = _
        rw [List.getElem?_set]
        by_cases hi : i = s.count
        · rw [if_pos hi.symm, if_pos (by omega), if_pos ⟨hi, by omega⟩, hrec]
          rfl
        · rw [if_neg fun he => hi he.symm, if_neg fun he => hi he.1]

/-- What is heard of some answers: the record of each in its slot, and none of those that come when the slots but one are full. -/
theorem hear_ok {answers : List (Str × Str)} {s s' : Heard} (h : hear answers s = .ok s') :
    s'.count = s.count + answers.length ∧ ∀ i, s'.list[i]?.join =
      if s.count ≤ i ∧ i + 1 < maxD30303Devs then (answers[i - s.count]?).bind fun a => recordOf a.1 a.2 else s.list[i]?.join := by
  induction answers generalizing s with
  | nil =>
    have hs : s = s' := Except.ok.inj h
    subst hs
    refine ⟨rfl, fun i => ?_⟩
    split
    · rename_i hi
      exact s.beyond i hi.1
    · rfl
  | cons a answers ih =>
    obtain ⟨s₁, h₁, h⟩ := Except.bind_eq_ok.mp h
    obtain ⟨hcount, hlist⟩ := cbD30303Read_ok h₁
    obtain ⟨hcount', hlist'⟩ := ih h
    refine ⟨by rw [hcount', hcount, List.length_cons]; omega, fun i => ?_⟩
    rw [hlist', hlist, hcount]
    rcases Nat.lt_trichotomy i s.count with hi | rfl | hi
    · rw [if_neg (by omega), if_neg (by omega), if_neg (by omega)]
    · rw [if_neg (by omega), Nat.sub_self]
      by_cases hroom : s.count + 1 < maxD30303Devs
      · rw [if_pos ⟨rfl, hroom⟩, if_pos ⟨Nat.le_refl _, hroom⟩]
        rfl
      · rw [if_neg fun hc => hroom hc.2, if_neg fun hc => hroom hc.2]
    · obtain ⟨k, rfl⟩ : ∃ k, i = s.count + 1 + k := ⟨i - (s.count + 1), by omega⟩
      have hk : s.count + 1 + k - s.count = k + 1 := by omega
      rw [Nat.add_sub_cancel_left, hk, List.getElem?_cons_succ]
      by_cases hroom : s.count + 1 + k + 1 < maxD30303Devs
      · rw [if_pos ⟨by omega, hroom⟩, if_pos ⟨by omega, hroom⟩]
      · rw [if_neg fun hc => hroom hc.2, if_neg fun hc => hroom hc.2, if_neg (by omega)]

/-! ## The loop -/

/-- What the loop over the slots from the `i`th on ends with, when it chooses as it should. -/
def Chooses (dev : D30303Dev) (i : Nat) (slots : List (Option D30303Resp)) (out : Except Fault (Option (Nat × Str))) : Prop :=
  match slots.findIdx? (slotFits dev) with
  | none => out = .ok none
  | some k => ∃ r, slots[k]? = some (some r) ∧ (out = .ok (some (i + k, httpUrl r.ucHostname)) ∨ out = .ok (some (i + k, httpUrl r.ipaddr)))

theorem chooses_cons {dev : D30303Dev} {i : Nat} {slot : Option D30303Resp} {slots : List (Option D30303Resp)}
    {out : Except Fault (Option (Nat × Str))} (h : slotFits dev slot = false) :
    Chooses dev i (slot :: slots) out ↔ Chooses dev (i + 1) slots out := by
  unfold Chooses
  rw [List.findIdx?_cons, h]
  cases slots.findIdx? (slotFits dev) with
  | none => rfl
  | some k =>
    have hik : i + (k + 1) = i + 1 + k := by omega
    simp only [Bool.false_eq_true, if_false, Option.map_some, List.getElem?_cons_succ, hik]

theorem slotFits_eq_false {dev : D30303Dev} {slot : Option D30303Resp} (h : slotMac dev slot = false) : slotFits dev slot = false := by
  cases slot with
  | none => rfl
  | some r =>
    have hmac : MacFits dev r = slotMac dev (some r) := rfl
    rw [slotFits, Option.any_some, hmac, h, Bool.false_and]

theorem mpMatch_eq (dev : D30303Dev) (slot : Option D30303Resp) : mpMatch dev slot = slotMac dev slot := by
  unfold mpMatch slotMac
  cases dev.macPrefix <;> rfl

/-- A record has the configured hostname or address when one of the flags is set for it. -/
theorem hostFits_eq (dev : D30303Dev) (r : D30303Resp) : HostFits dev r = (hnMatch dev (some r) || ipMatchSet dev (some r)) := by
  unfold HostFits hnMatch ipMatchSet
  cases dev.hostname <;> rfl

/-- A slot that does not pass for the MAC prefix is left. -/
theorem endFrom_cons_of_mac {dev : D30303Dev} {slot : Option D30303Resp} (h : slotMac dev slot = false) (i : Nat)
    (slots : List (Option D30303Resp)) (ipMatch : Bool) :
    endFrom dev i (slot :: slots) ipMatch = endFrom dev (i + 1) slots (ipMatch || ipMatchSet dev slot) := by
  simp [endFrom, mpMatch_eq, h]

/-- What the loop does with a record that has the MAC prefix. -/
theorem endFrom_cons_some {dev : D30303Dev} {r : D30303Resp} (h : slotMac dev (some r) = true) (i : Nat)
    (slots : List (Option D30303Resp)) (ipMatch : Bool) :
    endFrom dev i (some r :: slots) ipMatch =
      if hnMatch dev (some r) then .ok (some (i, httpUrl r.ucHostname))
      else if ipMatch || ipMatchSet dev (some r) then .ok (some (i, httpUrl r.ipaddr))
      else endFrom dev (i + 1) slots (ipMatch || ipMatchSet dev (some r)) := by
  simp only [endFrom, mpMatch_eq, h, Bool.and_true]

/-- When the first slot that passes for the MAC prefix fits, it does not matter what `ip_match` holds. -/
theorem chooses_endFrom {dev : D30303Dev} {slots : List (Option D30303Resp)} (h : FirstFits dev slots) (i : Nat) (ipMatch : Bool) :
    Chooses dev i slots (endFrom dev i slots ipMatch) := by
  induction slots generalizing i ipMatch with
  | nil => exact rfl
  | cons slot slots ih =>
    cases hmac : slotMac dev slot with
    | false =>
      have hrest : FirstFits dev slots := by
        intro slot' hs
        exact h slot' (by rw [List.find?_cons, hmac]; exact hs)
      rw [chooses_cons (slotFits_eq_false hmac), endFrom_cons_of_mac hmac]
      exact ih hrest (i + 1) _
    | true =>
      obtain ⟨r, hr, hhost⟩ := h slot (by rw [List.find?_cons, hmac]; rfl)
      cases hr
      have hfits : slotFits dev (some r) = true := by
        have hmac' : MacFits dev r = true := hmac
        rw [slotFits, Option.any_some, hmac', hhost]
        rfl
      unfold Chooses
      rw [List.findIdx?_cons, hfits, endFrom_cons_some hmac]
      refine ⟨r, rfl, ?_⟩
      rw [hostFits_eq, Bool.or_eq_true] at hhost
      by_cases hn : hnMatch dev (some r) = true
      · rw [if_pos hn]
        exact .inl rfl
      · have hip : (ipMatch || ipMatchSet dev (some r)) = true := by
          rw [hhost.resolve_left hn, Bool.or_true]
        rw [if_neg hn, if_pos hip]
        exact .inr rfl

/-- When it does not, the loop goes wrong with an `ip_match` that is set. -/
theorem not_chooses_endFrom {dev : D30303Dev} {slots : List (Option D30303Resp)} {slot : Option D30303Resp}
    (hfind : slots.find? (slotMac dev) = some slot) (hbad : ¬∃ r ∈ slot, HostFits dev r = true) (i : Nat) :
    ¬Chooses dev i slots (endFrom dev i slots true) := by
  induction slots generalizing i with
  | nil => cases hfind
  | cons slot' slots ih =>
    cases hmac : slotMac dev slot' with
    | false =>
      rw [List.find?_cons, hmac] at hfind
      rw [chooses_cons (slotFits_eq_false hmac), endFrom_cons_of_mac hmac, Bool.true_or]
      exact ih hfind (i + 1)
    | true =>
      rw [List.find?_cons, hmac] at hfind
      cases hfind
      cases slot with
      | none =>
        have hn : hnMatch dev none = false := by
          unfold hnMatch
          cases dev.hostname <;> rfl
        have hend : endFrom dev i (none :: slots) true = .error .nullString := by
          simp [endFrom, hn, mpMatch_eq, hmac]
        rw [hend]
        unfold Chooses
        split
        · nofun
        · rintro ⟨_, -, h | h⟩
          · cases h
          · cases h
      | some r =>
        have hhost : HostFits dev r ≠ true := fun h => hbad ⟨r, rfl, h⟩
        have hfits : slotFits dev (some r) = false := by
          rw [slotFits, Option.any_some, Bool.eq_false_of_not_eq_true hhost, Bool.and_false]
        rw [hostFits_eq, ne_eq, Bool.or_eq_true, not_or] at hhost
        rw [chooses_cons hfits, endFrom_cons_some hmac, if_neg hhost.1, Bool.true_or, if_pos rfl]
        unfold Chooses
        split
        · nofun
        · rintro ⟨_, -, h | h⟩
          · simp at h
            omega
          · simp at h
            omega

/-! ## The choice -/

/-- The loop chooses as it should exactly when `cb_end_d30303` does, which ends with what the loop found. -/
theorem selects_map_iff (dev : D30303Dev) (s : Heard) (hostname : Option Str) (x : Except Fault (Option (Nat × Str))) :
    Selects dev s (x.map (discEnd hostname)) ↔ Chooses dev 0 s.list x := by
  unfold Selects Chooses
  cases s.list.findIdx? (slotFits dev) with
  | none =>
    rcases x with e | _ | ⟨i, url⟩
    · exact iff_of_false nofun nofun
    · exact iff_of_true rfl rfl
    · exact iff_of_false nofun nofun
  | some k =>
    dsimp only
    rw [Nat.zero_add]
    refine exists_congr fun r => ?_
    rcases x with e | _ | ⟨i, url⟩
    · simp [Except.map]
    · simp [Except.map, discEnd]
    · simp only [Except.map, discEnd, Except.ok.injEq, DiscOut.found.injEq, Option.some.injEq, Prod.mk.injEq, exists_and_left]
      refine and_congr_right fun _ => ?_
      constructor
      · rintro ⟨_, ⟨hi, hu, -⟩ | ⟨hi, hu, -⟩⟩
        · exact .inl ⟨hi, hu⟩
        · exact .inr ⟨hi, hu⟩
      · rintro (⟨hi, hu⟩ | ⟨hi, hu⟩)
        · exact ⟨_, .inl ⟨hi, hu, rfl⟩⟩
        · exact ⟨_, .inr ⟨hi, hu, rfl⟩⟩

/-- Unconfigured, with one answer: its record is taken, and without one NULL is read. -/
theorem selects_single {dev : D30303Dev} {s : Heard} (hhost : dev.hostname = none) (hmac : dev.macPrefix = none) (hcount : s.count = 1)
    (ipMatch : Bool) : Selects dev s (cbEndD30303 ipMatch dev s) ↔ FirstFits dev s.list := by
  obtain ⟨slot, slots, hlist⟩ : ∃ slot slots, s.list = slot :: slots := by
    cases hl : s.list with
    | nil =>
      have := s.size
      rw [hl] at this
      cases this
    | cons slot slots => exact ⟨slot, slots, rfl⟩
  have hpass : slotMac dev slot = true := by
    rw [slotMac, hmac]
    rfl
  have hfirst : FirstFits dev s.list ↔ ∃ r, slot = some r := by
    rw [hlist]
    unfold FirstFits HostFits
    rw [List.find?_cons, hpass, hhost]
    constructor
    · intro h
      obtain ⟨r, hr, -⟩ := h slot rfl
      exact ⟨r, hr⟩
    · rintro ⟨r, rfl⟩ slot' hs
      cases hs
      exact ⟨r, rfl, rfl⟩
  have hguard : ¬(dev.hostname = none ∧ dev.macPrefix = none ∧ s.count ≠ 1) := fun h => h.2.2 hcount
  rw [hfirst]
  unfold cbEndD30303
  rw [if_neg hguard, if_pos ⟨hhost, hmac⟩]
  dsimp only
  cases slot with
  | none =>
    refine iff_of_false ?_ nofun
    have hend : endFrom { dev with hostname := (s.list[0]?.join).map D30303Resp.ucHostname } 0 s.list ipMatch =
        .error .nullString := by
      simp [hlist, endFrom, hnMatch, ipMatchSet, mpMatch, hmac]
    rw [hend]
    unfold Selects
    split
    · nofun
    · rintro ⟨_, _, -, h | h⟩
      · cases h
      · cases h
  | some r =>
    refine iff_of_true ?_ ⟨r, rfl⟩
    have hend : endFrom { dev with hostname := (s.list[0]?.join).map D30303Resp.ucHostname } 0 s.list ipMatch =
        .ok (some (0, httpUrl r.ucHostname)) := by
      simp [hlist, endFrom, hnMatch, mpMatch, hmac, sameCase]
    have hfits : slotFits dev (some r) = true := by
      simp [slotFits, MacFits, HostFits, hmac, hhost]
    rw [hend, selects_map_iff]
    unfold Chooses
    rw [hlist, List.findIdx?_cons, hfits]
    exact ⟨r, rfl, .inl rfl⟩

/-- Whatever `ip_match` holds, the right record is chosen, exactly when there is nothing to choose from, or when the first slot that
passes for the MAC prefix holds a record with the hostname or address. -/
theorem selects_iff (dev : D30303Dev) (s : Heard) (h : ¬(dev.hostname = none ∧ dev.macPrefix = none ∧ 1 < s.count)) :
    (∀ ipMatch, Selects dev s (cbEndD30303 ipMatch dev s)) ↔
      dev.hostname = none ∧ dev.macPrefix = none ∧ s.count = 0 ∨ FirstFits dev s.list := by
  by_cases hboth : dev.hostname = none ∧ dev.macPrefix = none
  · obtain ⟨hhost, hmac⟩ := hboth
    have hcount : s.count = 0 ∨ s.count = 1 := by
      have hle : ¬1 < s.count := fun hc => h ⟨hhost, hmac, hc⟩
      omega
    rcases hcount with h0 | h1
    · refine iff_of_true (fun ipMatch => ?_) (.inl ⟨hhost, hmac, h0⟩)
      have hguard : dev.hostname = none ∧ dev.macPrefix = none ∧ s.count ≠ 1 := ⟨hhost, hmac, by omega⟩
      have hnone : s.list.findIdx? (slotFits dev) = none := by
        rw [List.findIdx?_eq_none_iff]
        intro slot hslot
        obtain ⟨i, hi⟩ := List.getElem?_of_mem hslot
        have hb := s.beyond i (by omega)
        rw [hi] at hb
        cases hb
        rfl
      rw [cbEndD30303, if_pos hguard]
      unfold Selects
      rw [hnone]
    · have hne : ¬(dev.hostname = none ∧ dev.macPrefix = none ∧ s.count = 0) := fun hc => by omega
      rw [or_iff_right hne]
      constructor
      · intro hall
        exact (selects_single hhost hmac h1 true).mp (hall true)
      · intro hf ipMatch
        exact (selects_single hhost hmac h1 ipMatch).mpr hf
  · have hguard : ¬(dev.hostname = none ∧ dev.macPrefix = none ∧ s.count ≠ 1) := fun hc => hboth ⟨hc.1, hc.2.1⟩
    have hcb : ∀ ipMatch, Selects dev s (cbEndD30303 ipMatch dev s) ↔ Chooses dev 0 s.list (endFrom dev 0 s.list ipMatch) := by
      intro ipMatch
      rw [cbEndD30303, if_neg hguard, if_neg hboth]
      exact selects_map_iff dev s dev.hostname _
    have hne : ¬(dev.hostname = none ∧ dev.macPrefix = none ∧ s.count = 0) := fun hc => hboth ⟨hc.1, hc.2.1⟩
    rw [or_iff_right hne]
    constructor
    · intro hall slot hslot
      by_contra hbad
      exact not_chooses_endFrom hslot hbad 0 ((hcb true).mp (hall true))
    · intro hf ipMatch
      exact (hcb ipMatch).mpr (chooses_endFrom hf 0 ipMatch)

/-- What is left after one answer. -/
def Heard.one (r : D30303Resp) : Heard := ({} : Heard).put r

theorem selects_address : Selects { hostname := some (str "10.0.0.7") }
    (Heard.one ⟨str "10.0.0.7", str "BWGSPA", str "00-15-27-AA-BB-CC"⟩)
    (cbEndD30303 false { hostname := some (str "10.0.0.7") } (Heard.one ⟨str "10.0.0.7", str "BWGSPA", str "00-15-27-AA-BB-CC"⟩)) := by
  refine (selects_iff { hostname := some (str "10.0.0.7") } _ fun h => nomatch h.1).mpr (.inr ?_) false
  intro slot hslot
  cases hslot
  exact ⟨_, rfl, by decide⟩

/-- The address of one device is taken for a match of another, which has the prefix but neither the hostname nor the address. -/
theorem not_selects : ¬ ∀ (dev : D30303Dev) (s : Heard), ¬(dev.hostname = none ∧ dev.macPrefix = none ∧ 1 < s.count) →
    ∀ ipMatch, Selects dev s (cbEndD30303 ipMatch dev s) := by
  intro hall
  have h := hall { hostname := some (str "10.0.0.7"), macPrefix := some (str "00-15-27") }
    ((Heard.one ⟨str "10.0.0.7", str "OTHER", str "00-1E-C0-00-00-01"⟩).put ⟨str "10.0.0.8", str "BWGSPA", str "00-15-27-AA-BB-CC"⟩)
    (fun h => nomatch h.1) false
  have hfound : cbEndD30303 false { hostname := some (str "10.0.0.7"), macPrefix := some (str "00-15-27") }
      ((Heard.one ⟨str "10.0.0.7", str "OTHER", str "00-1E-C0-00-00-01"⟩).put ⟨str "10.0.0.8", str "BWGSPA", str "00-15-27-AA-BB-CC"⟩) =
        .ok (.found 1 (httpUrl (str "10.0.0.8")) (some (str "10.0.0.7"))) := by
    decide
  rw [hfound] at h
  cases h

end Gnhast.D30303
