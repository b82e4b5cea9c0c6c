import Gnhast.Lemmas.Wire

/-!
# Forwarding a change

`cmd_change` does not pass a `chg` line on as it came: it prints the arguments again, each with a format that its own list of
keywords chooses. What the collector decodes are the same arguments, in order, but for the keyword of a rain rate, which the list
does not have. Unsigned values are printed with the format of an `int`, and come back all the same.
-/

namespace Gnhast

open CStr

variable (F : Doubles)

/-- A data keyword: one under which some device is sent. -/
def Sc.IsData (k : Sc) : Prop := ∃ dev, findArgByDev dev = some k

/-- The data keywords as a test. -/
def Sc.isData : Sc → Bool
  | .switch | .dimmer | .temp | .humid | .lux | .pressure | .count | .speed | .dir | .wetness | .ph | .voltage | .wattsec | .watt
  | .amps | .rainrate | .weather | .alarmstatus | .number | .percentage | .flowrate | .distance | .volume | .timer | .thmode
  | .thstate | .smnumber | .collector | .blind | .trigger | .orp | .salinity | .daylight | .moonph | .tristate => true
  | _ => false

theorem Sc.isData_iff (k : Sc) : k.isData = true ↔ k.IsData := by
  constructor
  · intro h
    have hdev : findArgByDev { uid := [], type := 2 } = some k ∨
        ∃ st ∈ List.range 37, findArgByDev { uid := [], type := 3, subtype := BitVec.ofNat 8 st } = some k := by
      revert h
      cases k <;> decide
    rcases hdev with hdev | ⟨st, -, hdev⟩
    · exact ⟨_, hdev⟩
    · exact ⟨_, hdev⟩
  · rintro ⟨dev, h⟩
    unfold findArgByDev at h
    split at h
    · cases h
      rfl
    · generalize dev.devSubtype = st at h
      cases st <;> cases h <;> rfl

instance (k : Sc) : Decidable k.IsData := decidable_of_iff _ k.isData_iff

/-- A value as it arrives: a double is rounded to six decimals and read back. -/
def PtType.arrives : (t : PtType) → t.Carrier → t.Carrier
  | .ptdouble, q => F.round (round6 q)
  | .ptchar, v => v
  | .ptint, v => v
  | .ptuint, v => v
  | .ptll, v => v

/-- An argument as it arrives. -/
def PArg.arrives (a : PArg) : PArg := ⟨a.cword, a.cword.type.arrives F a.arg⟩

/-- The line that `cmd_change` writes to the collector decodes to the command, the uid, and the data arguments of the line that
came in, in order, each with its value. -/
def Forwards (args : List PArg) (c : ClientId) (s : Server) (d : DevId) : Prop :=
  ∃ collector text words, (cmdChange F args c s).out = [.write collector (text ++ [chLf])] ∧
    (s.dev d).collector = some collector ∧ parseNetcommand text = some words ∧ words.head? = some (str "chg") ∧
    parseCommand F words = ⟨.uid, (s.dev d).uid⟩ :: (args.filter fun a => a.cword.IsData).map (PArg.arrives F)

/-! ## The line -/

/-- The field that `cmd_change` prints for an argument. -/
def changeField (a : PArg) : Option (Sc × Str) := a.dataArg.map fun v => (a.cword, v.text)

/-- A keyword of the list is printed so that its value arrives. -/
theorem fieldArg_changeField {a : PArg} {f : Sc × Str} (h : changeField a = some f) : fieldArg F f = a.arrives F := by
  have hint : ∀ v : BitVec 32, atoi (fmtD v) = v := atoi_decInt
  have huint : ∀ v : BitVec 32, (strtoul (fmtD v)).setWidth 32 = v := strtoul_decInt
  have hll : ∀ v : BitVec 64, BitVec.ofInt 64 (strtol (fmtJd v)) = v := strtoll_decInt
  obtain ⟨k, v⟩ := a
  cases k <;> cases h <;>
    simp only [fieldArg, PArg.arrives, DataArg.text, readValue, PtType.arrives, hint, huint, hll, F.strtod_fmtF]

/-- The list has every data keyword but that of a rain rate. -/
theorem changeField_isSome_iff (a : PArg) : (changeField a).isSome ↔ a.cword.IsData ∧ a.cword ≠ .rainrate := by
  rw [← Sc.isData_iff]
  obtain ⟨k, v⟩ := a
  cases k <;> simp [changeField, PArg.dataArg, Sc.isData]

/-- The fields of a line, as they arrive. -/
theorem map_fieldArg (args : List PArg) : (args.filterMap changeField).map (fieldArg F) =
    ((args.filter fun a => a.cword.IsData).filter fun a => a.cword ≠ .rainrate).map (PArg.arrives F) := by
  rw [List.filter_filter]
  induction args with
  | nil => rfl
  | cons a args ih =>
    have hsome := changeField_isSome_iff a
    rw [List.filterMap_cons, List.filter_cons]
    cases hf : changeField a with
    | none =>
      rw [hf] at hsome
      have hno : ¬ (a.cword.IsData ∧ a.cword ≠ .rainrate) := fun h => absurd (hsome.mpr h) (by simp)
      rw [if_neg (by simpa [and_comm] using hno)]
      exact ih
    | some f =>
      rw [hf] at hsome
      have hyes := hsome.mp rfl
      rw [if_pos (by simpa [and_comm] using hyes), List.map_cons, List.map_cons, ih, fieldArg_changeField F hf]

/-- What is printed for the arguments are fields with blanks in front. -/
theorem spaced_changeText (args : List PArg) :
    Spaced (args.filterMap changeField) (args.flatMap changeText) ∧ Ends (args.flatMap changeText) := by
  induction args with
  | nil => exact ⟨.nil, Or.inl rfl⟩
  | cons a args ih =>
    rw [List.filterMap_cons, List.flatMap_cons]
    unfold changeField changeText
    cases a.dataArg with
    | none => exact ih
    | some v => exact ⟨.blank (.field _ _ ih.1 ih.2), Or.inr ⟨_, rfl⟩⟩

/-- The texts that are printed are bare. -/
theorem bare_changeField {a : PArg} {f : Sc × Str} (h : changeField a = some f) : Bare f.2 := by
  obtain ⟨v, -, rfl⟩ := Option.map_eq_some_iff.mp h
  cases v with
  | i v | u v | ll v => exact (Numeral.decInt _).bare
  | d v => exact (Numeral.fmtF v).bare

/-- The words of the line and the arguments among them. -/
theorem decode_change {uid : Str} (hu : Bare uid) (args : List PArg) :
    ∃ words, parseNetcommand (str "chg " ++ field .uid uid ++ args.flatMap changeText) = some (str "chg" :: words) ∧
      parseCommand F (str "chg" :: words) = ⟨.uid, uid⟩ :: (args.filterMap changeField).map (fieldArg F) := by
  obtain ⟨hs, he⟩ := spaced_changeText args
  have hchg : Bare (str "chg") := by decide
  have hspaced : Spaced ((.uid, uid) :: args.filterMap changeField) (field .uid uid ++ args.flatMap changeText) :=
    .field _ _ hs he
  have hbare : ∀ f ∈ (Sc.uid, uid) :: args.filterMap changeField, Bare f.2 := by
    intro f hf
    rcases List.mem_cons.mp hf with rfl | hf
    · exact hu
    · obtain ⟨a, -, ha⟩ := List.mem_filterMap.mp hf
      exact bare_changeField ha
  have hline : str "chg " ++ field .uid uid ++ args.flatMap changeText =
      str "chg" ++ chSpace :: (field .uid uid ++ args.flatMap changeText) := by
    rw [show str "chg " = str "chg" ++ [chSpace] from rfl]
    simp
  refine ⟨lex .skip [] (field .uid uid ++ args.flatMap changeText), ?_, ?_⟩
  · rw [hline, parseNetcommand, if_neg (by simp), lex_top_append hchg, lex_top_space, List.nil_append]
  · exact hspaced.readArgs F hbare

/-- Every data argument of a `chg` line gets to the collector as it is, and nothing else, exactly when no rain rate is among
them. -/
theorem forwards_iff {args : List PArg} (c : ClientId) {s : Server} {uid : Str} {d : DevId} {collector : ClientId}
    (hu : lastArg .uid args = some uid) (hf : s.findDeviceByUid uid = some d) (hb : Bare (s.dev d).uid)
    (hc : (s.dev d).collector = some collector) :
    Forwards F args c s d ↔ ∀ a ∈ args, a.cword ≠ .rainrate := by
  have hcoll : ((s.modDev d (storeChange F args)).dev d).collector = some collector := by
    have hcore := congrArg (fun l : Device => l.collector) (core_storeChange F args (s.dev d))
    rw [Server.modDev_dev, if_pos rfl]
    exact hcore.trans hc
  have hout : (cmdChange F args c s).out =
      [.write collector (str "chg " ++ field .uid (s.dev d).uid ++ args.flatMap changeText ++ [chLf])] := by
    simp only [cmdChange, hu, hf, hcoll]
  obtain ⟨words, hw, hargs⟩ := decode_change F hb args
  rw [map_fieldArg] at hargs
  have hall : ((args.filter fun a => a.cword.IsData).filter fun a => a.cword ≠ .rainrate) =
      (args.filter fun a => a.cword.IsData) ↔ ∀ a ∈ args, a.cword ≠ .rainrate := by
    rw [List.filter_eq_self]
    constructor
    · intro h a ha hr
      have hdata : a.cword.IsData := (Sc.isData_iff _).mp (by rw [hr]; rfl)
      exact absurd hr (by simpa using h a (List.mem_filter.mpr ⟨ha, by simpa using hdata⟩))
    · intro h a ha
      simpa using h a (List.mem_filter.mp ha).1
  rw [← hall]
  constructor
  · rintro ⟨c', text, words', h1, h2, h3, h4, h5⟩
    rw [hout] at h1
    obtain ⟨-, ht⟩ := Out.write.inj (List.cons.inj h1).1
    have ht := List.append_cancel_right ht
    rw [← ht, hw] at h3
    cases h3
    rw [hargs] at h5
    have hlen := congrArg List.length (List.cons.inj h5).2
    rw [List.length_map, List.length_map] at hlen
    exact List.filter_sublist.eq_of_length hlen
  · intro h
    rw [h] at hargs
    exact ⟨collector, _, _, hout, hc, hw, rfl, hargs⟩

/-- A lamp that is told to be at two levels. -/
theorem forwards_iff_lamp : Forwards Doubles.exact [⟨.uid, str "lamp"⟩, ⟨.dimmer, (1 / 2 : ℚ)⟩, ⟨.count, 0xfffffffe#32⟩] 1
    { dev := fun _ => { uid := str "lamp", type := 2, proto := 1, subtype := 1, collector := some 0 }
      devices := Function.update (fun _ => none) (str "lamp") (some 0) } 0 :=
  (@forwards_iff Doubles.exact [⟨.uid, str "lamp"⟩, ⟨.dimmer, (1 / 2 : ℚ)⟩, ⟨.count, 0xfffffffe#32⟩] 1 _ (str "lamp") 0 0 rfl rfl
    (by decide) rfl).mpr (by decide)

/-- A rain rate is left out. -/
theorem not_forwards_rain : ¬ Forwards Doubles.exact [⟨.uid, str "gauge"⟩, ⟨.rainrate, (2 : ℚ)⟩] 1
    { dev := fun _ => { uid := str "gauge", type := 3, proto := 1, subtype := 17, collector := some 0 }
      devices := Function.update (fun _ => none) (str "gauge") (some 0) } 0 := by
  rintro ⟨c, text, words, h1, -, h3, -, h5⟩
  have hout : (cmdChange Doubles.exact [⟨.uid, str "gauge"⟩, ⟨.rainrate, (2 : ℚ)⟩] 1
      { dev := fun _ => { uid := str "gauge", type := 3, proto := 1, subtype := 17, collector := some 0 }
        devices := Function.update (fun _ => none) (str "gauge") (some 0) }).out =
          [.write 0 (str "chg uid:gauge" ++ [chLf])] := rfl
  rw [hout] at h1
  obtain ⟨-, ht⟩ := Out.write.inj (List.cons.inj h1).1
  have ht := List.append_cancel_right ht
  rw [← ht] at h3
  have hwords : parseNetcommand (str "chg uid:gauge") = some [str "chg", str "uid:gauge"] := by decide
  rw [hwords] at h3
  cases h3
  have hlen := congrArg List.length h5
  revert hlen
  decide

end Gnhast
