import Gnhast.Jsoncgicoll
import Gnhast.Lemmas.Alarms
import Gnhast.Lemmas.Memory
import Gnhast.Lemmas.Wire
import Gnhast.Lib.Json
import Gnhast.Lib.Rounding

/-!
# The events of the JSON stream

`json_dump_all` and the two callbacks print the strings of devices and alarms between quotes as they are. What they print is the JSON text of
the devices or the alarm when these strings happen to need no escapes, and only then.
-/

namespace Gnhast.Jsoncgicoll

open CStr

variable (F : Doubles)

/-! ## Events -/

/-- The data of an event: the lines that begin with `data: `, without that. -/
def eventData (text : Str) : Str :=
  join chLf ((pieces chLf text).filterMap fun line => if (str "data: ").isPrefixOf line then some (line.drop 6) else none)

/-- What is printed: the table of devices, a device that was updated, an alarm that was set, or the uid of one that was cleared. -/
inductive Event
  | dump (alldevs : List Device)
  | upd (dev : Device)
  | alarm (alarm : Option Alarm) (aluid : Str)

/-- The text that is printed. -/
def Event.printed : Event → Except Fault Str
  | .dump alldevs => jsonDumpAll F alldevs
  | .upd dev => collUpdCb F dev
  | .alarm al aluid => .ok (collAlarmCb al aluid)

/-- The devices it shows. -/
def Event.shown : Event → List Device
  | .dump alldevs => alldevs
  | .upd dev => if isSwitch dev then [dev] else []
  | .alarm _ _ => []

/-- The strings it shows that came over the network. -/
def Event.strings : Event → List Str
  | .dump alldevs => alldevs.map Device.uid
  | .upd dev => if isSwitch dev then [dev.uid] else []
  | .alarm (some al) _ => [al.aluid, al.altext]
  | .alarm none aluid => [aluid]

/-- A device as the members of an object. -/
def devMembers (dev : Device) : List (Str × Str) :=
  [(str "uid", dev.uid), (str "type", fmtByte dev.type), (str "subt", fmtByte dev.subtype), (str "value", printData F dev .data id)]

/-- An alarm as the members of an object. -/
def alarmMembers (alarm : Alarm) : List (Str × Str) :=
  [(str "aluid", alarm.aluid), (str "altext", alarm.altext), (str "alsev", fmtD alarm.alsev), (str "alchan", fmtU alarm.alchan)]

/-- The alarm that is reported: one that was cleared has no text and the severity zero, and is cleared on every channel. -/
def reported (al : Option Alarm) (aluid : Str) : Alarm := al.getD ⟨aluid, [], 0, allFlagsSet⟩

/-- The objects an event is about. -/
def Event.objects : Event → List (List (Str × Str))
  | .dump alldevs => alldevs.map (devMembers F)
  | .upd dev => if isSwitch dev then [devMembers F dev] else []
  | .alarm al aluid => [alarmMembers (reported al aluid)]

/-- The array of these objects. -/
def Event.array (e : Event) : Json.Value := .arr ((e.objects F).map fun ms => .obj (Json.strMembers ms))

/-- The data of what is printed, if anything is, are the JSON text of the array. -/
def Event.Documented (e : Event) : Prop := ∃ text, e.printed F = .ok text ∧ (text ≠ [] → Json.Valid (eventData text) (e.array F))

/-- The double that `print_data_dev` prints, if it prints one, has less than 256 characters with a sign and six decimals. -/
def DataFits (dev : Device) : Prop :=
  datatypeDev dev = .double →
    -(10 ^ 253) + 1 / 2 < (getDataDev F dev .data (.dbl 0)).double F * 10 ^ 6 ∧
      (getDataDev F dev .data (.dbl 0)).double F * 10 ^ 6 < 10 ^ 254 - 1 / 2

/-! ## Lines -/

/-- A line of data. -/
def dataLine (line : Str) : Str := str "data: " ++ line ++ [chLf]

theorem eventData_lines {lines : List Str} (h : ∀ line ∈ lines, chLf ∉ line) :
    eventData (lines.flatMap dataLine ++ [chLf]) = join chLf lines := by
  have hpieces : ∀ t, (pieces chLf (lines.flatMap dataLine ++ t)).filterMap
      (fun line => if (str "data: ").isPrefixOf line then some (line.drop 6) else none) =
      lines ++ (pieces chLf t).filterMap (fun line => if (str "data: ").isPrefixOf line then some (line.drop 6) else none) := by
    intro t
    induction lines with
    | nil => rfl
    | cons line lines ih =>
      obtain ⟨hline, hlines⟩ := List.forall_mem_cons.mp h
      have hlf : chLf ∉ str "data: " ++ line := List.not_mem_append (by decide) hline
      have hcons : (line :: lines).flatMap dataLine ++ t = (str "data: " ++ line) ++ chLf :: (lines.flatMap dataLine ++ t) := by
        simp [dataLine]
      rw [hcons, pieces_append hlf, List.filterMap_cons, ih hlines]
      rfl
  have hend : (pieces chLf [chLf]).filterMap
      (fun line => if (str "data: ").isPrefixOf line then some (line.drop 6) else none) = [] := rfl
  rw [eventData, hpieces, hend, List.append_nil]

/-! ## What is printed -/

theorem dataFits_iff (dev : Device) : DataFits F dev ↔ (printData F dev .data id).length < printBufSize := by
  unfold DataFits printData
  split
  · rename_i h
    have hlen := length_fmtD_le ((getDataDev F dev .data (.raw 0)).uint F)
    exact iff_of_true (fun hd => nomatch h.symm.trans hd) (Nat.lt_of_le_of_lt hlen (by decide))
  · rename_i h
    have hlen := length_fmtJd_le ((getDataDev F dev .data (.raw 0)).int64 F)
    exact iff_of_true (fun hd => nomatch h.symm.trans hd) (Nat.lt_of_le_of_lt hlen (by decide))
  · rename_i h
    have hlen := @length_fmtF_lt_iff 247 (by decide) ((getDataDev F dev .data (.dbl 0)).double F)
    exact ⟨fun hd => hlen.mpr (hd h), fun hl _ => hlen.mp hl⟩

/-- A number may be printed between quotes. -/
theorem sound_of_numeral {s : Str} (h : Numeral s) : Json.Sound s := by
  refine Json.Literal.sound fun c hc => ?_
  rcases h.bytes c hc with rfl | rfl | hd
  · decide
  · decide
  · obtain ⟨-, -, -, -, hquote, -, -, -, -, hback, -⟩ := ne_of_isdigit hd
    simp only [isdigit, Bool.and_eq_true, decide_eq_true_eq] at hd
    exact ⟨⟨UInt8.le_trans (by decide) hd.1, hquote, hback⟩, UInt8.lt_of_le_of_lt hd.2 (by decide)⟩

theorem sound_fmtByte (b : BitVec 8) : Json.Sound (fmtByte b) := sound_of_numeral (Numeral.decNat _)

theorem framed_devMembers (dev : Device) : Json.Framed (devMembers F dev) where
  nonempty := List.cons_ne_nil _ _
  keys := by
    simp only [devMembers, List.forall_mem_cons]
    exact ⟨Json.Literal.sound (by decide), Json.Literal.sound (by decide), Json.Literal.sound (by decide), Json.Literal.sound (by decide), nofun⟩
  last := by
    rintro m ⟨⟩
    exact sound_of_numeral (numeral_printData F dev .data id)

theorem sound_devMembers_iff (dev : Device) : (∀ m ∈ devMembers F dev, Json.Sound m.2) ↔ Json.Sound dev.uid := by
  simp only [devMembers, List.forall_mem_cons]
  exact ⟨fun h => h.1, fun h => ⟨h, sound_fmtByte _, sound_fmtByte _, sound_of_numeral (numeral_printData F dev .data id), nofun⟩⟩

theorem framed_alarmMembers (alarm : Alarm) : Json.Framed (alarmMembers alarm) where
  nonempty := List.cons_ne_nil _ _
  keys := by
    simp only [alarmMembers, List.forall_mem_cons]
    exact ⟨Json.Literal.sound (by decide), Json.Literal.sound (by decide), Json.Literal.sound (by decide), Json.Literal.sound (by decide), nofun⟩
  last := by
    rintro m ⟨⟩
    exact sound_of_numeral (Numeral.decNat _)

theorem sound_alarmMembers_iff (alarm : Alarm) :
    (∀ m ∈ alarmMembers alarm, Json.Sound m.2) ↔ Json.Sound alarm.aluid ∧ Json.Sound alarm.altext := by
  simp only [alarmMembers, List.forall_mem_cons]
  exact ⟨fun h => ⟨h.1, h.2.1⟩,
    fun h => ⟨h.1, h.2, sound_of_numeral (Numeral.decInt _), sound_of_numeral (Numeral.decNat _), nofun⟩⟩

theorem printDev_eq (dev : Device) :
    str "\x7b" ++ printDev dev (printData F dev .data id) = Json.printObject (devMembers F dev) := by
  have huid : str "\"uid\" : \"" = 34 :: (str "uid" ++ [34, 32, 58, 32, 34]) := by decide
  have htype : str "\"type\" : \"" = 34 :: (str "type" ++ [34, 32, 58, 32, 34]) := by decide
  have hsubt : str "\"subt\" : \"" = 34 :: (str "subt" ++ [34, 32, 58, 32, 34]) := by decide
  have hvalue : str "\"value\" : \"" = 34 :: (str "value" ++ [34, 32, 58, 32, 34]) := by decide
  have hsep : str "\", " = [34, 44, 32] := by decide
  have hend : str "\" \x7d" = [34, 32, 125] := by decide
  have hopen : str "\x7b" = [123] := by decide
  rw [printDev, huid, htype, hsubt, hvalue, hsep, hend, hopen]
  simp [Json.printObject, devMembers, Json.printMembers, Json.printMember]

theorem printDataDev_eq_ok {dev : Device} {buf : Str} :
    printDataDev F dev .data = .ok buf ↔ DataFits F dev ∧ buf = printData F dev .data id := by
  rw [dataFits_iff, printDataDev, sprintf]
  split
  · rename_i h
    rw [Except.ok.injEq, eq_comm]
    exact (and_iff_right h).symm
  · rename_i h
    exact iff_of_false nofun fun hc => h hc.1

/-- The lines of the dump behind `count` others. -/
def dumpLines (count : Nat) : List Device → List Str
  | [] => []
  | dev :: devs => ((if count ≠ 0 then str ", " else []) ++ Json.printObject (devMembers F dev)) :: dumpLines (count + 1) devs

theorem dumpDevs_eq_ok {devs : List Device} {count : Nat} {text : Str} : dumpDevs F count devs = .ok text ↔
    (∀ dev ∈ devs, DataFits F dev) ∧ text = (dumpLines F count devs).flatMap dataLine := by
  induction devs generalizing count text with
  | nil =>
    rw [dumpDevs, Except.ok.injEq, eq_comm]
    simp [dumpLines]
  | cons dev devs ih =>
    have hlead : (if count ≠ 0 then str "data: , \x7b" else str "data: \x7b") =
        str "data: " ++ (if count ≠ 0 then str ", " else []) ++ str "\x7b" := by
      split <;> rfl
    rw [dumpDevs, Except.bind_eq_ok, List.forall_mem_cons]
    constructor
    · rintro ⟨buf, hbuf, h⟩
      obtain ⟨hfit, rfl⟩ := (printDataDev_eq_ok F).mp hbuf
      obtain ⟨rest, hrest, h⟩ := Except.bind_eq_ok.mp h
      obtain ⟨hfits, rfl⟩ := ih.mp hrest
      refine ⟨⟨hfit, hfits⟩, ?_⟩
      rw [← Except.ok.inj h, hlead, dumpLines, List.flatMap_cons, dataLine, ← printDev_eq]
      simp
    · rintro ⟨⟨hfit, hfits⟩, rfl⟩
      refine ⟨_, (printDataDev_eq_ok F).mpr ⟨hfit, rfl⟩, Except.bind_eq_ok.mpr ⟨_, ih.mpr ⟨hfits, rfl⟩, ?_⟩⟩
      rw [hlead, dumpLines, List.flatMap_cons, dataLine, ← printDev_eq]
      simp

/-- The separator of the lines of the dump. -/
def dumpSep : Str := [10, 44, 32]

theorem join_dumpLines {devs : List Device} (hne : devs ≠ []) (count : Nat) :
    join chLf (dumpLines F count devs ++ [str "]"]) = (if count ≠ 0 then str ", " else []) ++
      (Json.printElements dumpSep ((devs.map (devMembers F)).map Json.printObject) ++ [10, 93]) := by
  induction devs generalizing count with
  | nil => exact absurd rfl hne
  | cons dev devs ih =>
    cases devs with
    | nil =>
      simp only [dumpLines, List.cons_append, List.nil_append, join, List.map_cons, List.map_nil, Json.printElements, List.append_assoc]
      rfl
    | cons dev' devs =>
      have ih := ih (List.cons_ne_nil _ _) (count + 1)
      have hstep : join chLf (dumpLines F count (dev :: dev' :: devs) ++ [str "]"]) =
          ((if count ≠ 0 then str ", " else []) ++ Json.printObject (devMembers F dev)) ++
            chLf :: join chLf (dumpLines F (count + 1) (dev' :: devs) ++ [str "]"]) := rfl
      have hcomma : str ", " = [44, 32] := rfl
      rw [hstep, ih, if_pos (Nat.succ_ne_zero count), hcomma]
      simp [Json.printElements, dumpSep, chLf]

theorem lf_notMem_printObject {ms : List (Str × Str)} (h : ∀ m ∈ ms, chLf ∉ m.1 ∧ chLf ∉ m.2) : chLf ∉ Json.printObject ms := by
  have hmember : ∀ m : Str × Str, chLf ∉ m.1 ∧ chLf ∉ m.2 → chLf ∉ Json.printMember m := by
    rintro m ⟨hk, hv⟩
    simp only [Json.printMember, List.mem_cons, List.mem_append, List.not_mem_nil, or_false, not_or]
    exact ⟨by decide, hk, by decide, by decide, by decide, by decide, by decide, hv, by decide⟩
  have hmembers : chLf ∉ Json.printMembers ms := by
    induction ms with
    | nil => exact List.not_mem_nil
    | cons m ms ih =>
      obtain ⟨hm, hms⟩ := List.forall_mem_cons.mp h
      cases ms with
      | nil => exact hmember m hm
      | cons m' ms =>
        simp only [Json.printMembers, List.mem_append, List.mem_cons, not_or]
        exact ⟨hmember m hm, by decide, by decide, ih hms⟩
  simp only [Json.printObject, List.mem_cons, List.mem_append, List.not_mem_nil, or_false, not_or]
  exact ⟨by decide, hmembers, by decide, by decide⟩

theorem lf_notMem_devMembers {dev : Device} (h : chLf ∉ dev.uid) : ∀ m ∈ devMembers F dev, chLf ∉ m.1 ∧ chLf ∉ m.2 := by
  have hb : ∀ b, chLf ∉ fmtByte b := fun b => (Numeral.decNat _).oneLine.2
  have hv := (numeral_printData F dev .data id).oneLine.2
  simp only [devMembers, List.forall_mem_cons]
  exact ⟨⟨by decide, h⟩, ⟨by decide, hb _⟩, ⟨by decide, hb _⟩, ⟨by decide, hv⟩, nofun⟩

theorem lf_notMem_dumpLines {devs : List Device} (h : ∀ dev ∈ devs, chLf ∉ dev.uid) (count : Nat) :
    ∀ line ∈ dumpLines F count devs, chLf ∉ line := by
  induction devs generalizing count with
  | nil => nofun
  | cons dev devs ih =>
    obtain ⟨hdev, hdevs⟩ := List.forall_mem_cons.mp h
    refine List.forall_mem_cons.mpr ⟨List.not_mem_append ?_ (lf_notMem_printObject (lf_notMem_devMembers F hdev)), ih hdevs _⟩
    split <;> decide

/-! ## The text of an event -/

theorem jsonDumpAll_eq_ok {alldevs : List Device} {text : Str} : jsonDumpAll F alldevs = .ok text ↔
    (∀ dev ∈ alldevs, DataFits F dev) ∧ text = (str "[" :: dumpLines F 0 alldevs ++ [str "]"]).flatMap dataLine ++ [chLf] := by
  have htext : (str "[" :: dumpLines F 0 alldevs ++ [str "]"]).flatMap dataLine ++ [chLf] =
      str "data: [" ++ [chLf] ++ (dumpLines F 0 alldevs).flatMap dataLine ++ (str "data: ]" ++ [chLf, chLf]) := by
    have hopen : dataLine (str "[") = str "data: [" ++ [chLf] := rfl
    have hclose : dataLine (str "]") = str "data: ]" ++ [chLf] := rfl
    simp [hopen, hclose]
  rw [jsonDumpAll, Except.bind_eq_ok, htext]
  constructor
  · rintro ⟨devs, hdevs, h⟩
    obtain ⟨hfits, rfl⟩ := (dumpDevs_eq_ok F).mp hdevs
    exact ⟨hfits, (Except.ok.inj h).symm⟩
  · rintro ⟨hfits, rfl⟩
    exact ⟨_, (dumpDevs_eq_ok F).mpr ⟨hfits, rfl⟩, rfl⟩

/-- The dump of a table with devices is an array of objects. -/
theorem eventData_dump {alldevs : List Device} (hne : alldevs ≠ []) (h : ∀ dev ∈ alldevs, chLf ∉ dev.uid) :
    eventData ((str "[" :: dumpLines F 0 alldevs ++ [str "]"]).flatMap dataLine ++ [chLf]) =
      Json.printArray [10] dumpSep [10] (alldevs.map (devMembers F)) := by
  have hlines : ∀ line ∈ str "[" :: dumpLines F 0 alldevs ++ [str "]"], chLf ∉ line := by
    rw [List.cons_append, List.forall_mem_cons, List.forall_mem_append]
    exact ⟨by decide, lf_notMem_dumpLines F h 0, by decide⟩
  have hjoin : join chLf (str "[" :: dumpLines F 0 alldevs ++ [str "]"]) =
      str "[" ++ chLf :: join chLf (dumpLines F 0 alldevs ++ [str "]"]) := by
    cases alldevs with
    | nil => rfl
    | cons dev devs => rfl
  rw [eventData_lines hlines, hjoin, join_dumpLines F hne]
  rfl

theorem eventData_line {line : Str} (h : chLf ∉ line) : eventData (str "data: " ++ line ++ [chLf, chLf]) = line := by
  have hlines := @eventData_lines [line] (by simpa using h)
  rw [← show dataLine line ++ [chLf] = str "data: " ++ line ++ [chLf, chLf] by simp [dataLine]]
  simpa [join] using hlines

/-! ## One object -/

/-- The line of an update or an alarm. -/
def oneObject (trail : Str) (ms : List (Str × Str)) : Str := str "data: " ++ Json.printArray [32] dumpSep trail [ms] ++ [chLf, chLf]

theorem collUpdCb_eq_ok {dev : Device} (hs : isSwitch dev = true) {text : Str} : collUpdCb F dev = .ok text ↔
    DataFits F dev ∧ text = oneObject [32, 32] (devMembers F dev) := by
  have htext : oneObject [32, 32] (devMembers F dev) =
      str "data: [ " ++ (str "\x7b" ++ printDev dev (printData F dev .data id) ++ str " ") ++ (str " ]" ++ [chLf, chLf]) := by
    have hopen : str "data: [ " = str "data: " ++ [91, 32] := rfl
    have hclose : str " ]" = [32, 93] := rfl
    have hblank : str " " = [32] := rfl
    rw [printDev_eq, hopen, hclose, hblank]
    simp [oneObject, Json.printArray, Json.printElements]
  rw [collUpdCb, if_pos hs, Except.bind_eq_ok, htext]
  constructor
  · rintro ⟨buf, hbuf, h⟩
    obtain ⟨hfit, rfl⟩ := (printDataDev_eq_ok F).mp hbuf
    exact ⟨hfit, (Except.ok.inj h).symm⟩
  · rintro ⟨hfit, rfl⟩
    exact ⟨_, (printDataDev_eq_ok F).mpr ⟨hfit, rfl⟩, rfl⟩

theorem collAlarmCb_eq (alarm : Option Alarm) (aluid : Str) :
    collAlarmCb alarm aluid = oneObject [32] (alarmMembers (reported alarm aluid)) := by
  have huid : str "\x7b\"aluid\" : \"" = 123 :: 34 :: (str "aluid" ++ [34, 32, 58, 32, 34]) := by decide
  have htext : str "\"altext\" : \"" = 34 :: (str "altext" ++ [34, 32, 58, 32, 34]) := by decide
  have hsev : str "\"alsev\" : \"" = 34 :: (str "alsev" ++ [34, 32, 58, 32, 34]) := by decide
  have hchan : str "\"alchan\" : \"" = 34 :: (str "alchan" ++ [34, 32, 58, 32, 34]) := by decide
  have hsep : str "\", " = [34, 44, 32] := by decide
  have hopen : str "data: [ " = str "data: " ++ [91, 32] := by decide
  have hend : str "\" \x7d ]" = [34, 32, 125, 32, 93] := by decide
  have hcleared : str "\"altext\" : \"\", \"alsev\" : \"0\", " = 34 :: (str "altext" ++ [34, 32, 58, 32, 34] ++ [34, 44, 32]) ++
      (34 :: (str "alsev" ++ [34, 32, 58, 32, 34]) ++ fmtD 0 ++ [34, 44, 32]) := by decide
  cases alarm with
  | none =>
    rw [collAlarmCb, huid, hcleared, hchan, hsep, hopen, hend]
    simp [oneObject, Json.printArray, Json.printElements, Json.printObject, reported, alarmMembers, Json.printMembers, Json.printMember]
  | some alarm =>
    rw [collAlarmCb, huid, htext, hsev, hchan, hsep, hopen, hend]
    simp [oneObject, Json.printArray, Json.printElements, Json.printObject, reported, alarmMembers, Json.printMembers, Json.printMember]

theorem lf_notMem_alarmMembers {alarm : Alarm} (hu : chLf ∉ alarm.aluid) (ht : chLf ∉ alarm.altext) :
    ∀ m ∈ alarmMembers alarm, chLf ∉ m.1 ∧ chLf ∉ m.2 := by
  have hsev : chLf ∉ fmtD alarm.alsev := (Numeral.decInt _).oneLine.2
  have hchan : chLf ∉ fmtU alarm.alchan := (Numeral.decNat _).oneLine.2
  simp only [alarmMembers, List.forall_mem_cons]
  exact ⟨⟨by decide, hu⟩, ⟨by decide, ht⟩, ⟨by decide, hsev⟩, ⟨by decide, hchan⟩, nofun⟩

/-- Objects with the separator of the dump are a text exactly when no value of theirs needs escapes. -/
theorem valid_objects_iff {lead trail : Str} (hlead : Json.Blank lead) (htrail : Json.Blank trail) {objs : List (List (Str × Str))}
    (hne : objs ≠ []) (h : ∀ ms ∈ objs, Json.Framed ms) :
    Json.Valid (Json.printArray lead dumpSep trail objs) (.arr (objs.map fun ms => .obj (Json.strMembers ms))) ↔
      ∀ ms ∈ objs, ∀ m ∈ ms, Json.Sound m.2 :=
  Json.valid_array_iff hlead htrail (by decide) (fun s => ⟨32 :: s, rfl, rfl⟩) hne h

theorem valid_oneObject_iff {trail : Str} (htrail : Json.Blank trail) (hlf : chLf ∉ trail) {ms : List (Str × Str)} (hms : Json.Framed ms)
    (h : ∀ m ∈ ms, chLf ∉ m.1 ∧ chLf ∉ m.2) :
    Json.Valid (eventData (oneObject trail ms)) (.arr [.obj (Json.strMembers ms)]) ↔ ∀ m ∈ ms, Json.Sound m.2 := by
  have hline : chLf ∉ Json.printArray [32] dumpSep trail [ms] := by
    simp only [Json.printArray, List.map_cons, List.map_nil, Json.printElements, List.mem_cons, List.mem_append, List.not_mem_nil, or_false,
      not_or]
    exact ⟨by decide, by decide, lf_notMem_printObject h, hlf, by decide⟩
  rw [oneObject, eventData_line hline]
  refine (valid_objects_iff (by decide) htrail (List.cons_ne_nil _ _) (by simpa using hms)).trans ?_
  simp

/-! ## Strings that were received -/

/-- A byte that is not in a line is not in its words. -/
theorem notMem_lex {b : Byte} (hb : b ≠ chBackslash) {m : Mode} {w s : Str} (hw : b ∉ w) (hs : b ∉ s) : ∀ v ∈ lex m w s, b ∉ v := by
  induction s generalizing m w with
  | nil =>
    have hend : b ∉ w ++ [chBackslash] := List.not_mem_append hw (by simpa using hb)
    cases m with
    | escaped => simpa [lex] using hend
    | top | quoted | after | skip => simpa [lex] using hw
  | cons c s ih =>
    obtain ⟨hc, hs⟩ := not_or.mp (mt List.mem_cons.mpr hs)
    have hcopy : b ∉ w ++ [c] := List.not_mem_append hw (by simpa using hc)
    have hnew : ∀ v ∈ w :: lex .skip [] s, b ∉ v := List.forall_mem_cons.mpr ⟨hw, ih List.not_mem_nil hs⟩
    cases m with
    | top =>
      rw [lex]
      split
      · exact ih hw hs
      · split
        · exact hnew
        · exact ih hcopy hs
    | quoted =>
      rw [lex]
      split
      · exact ih hw hs
      · split
        · exact ih hw hs
        · exact ih hcopy hs
    | escaped =>
      rw [lex]
      split
      · exact ih hcopy hs
      · split
        · exact ih (List.not_mem_append hw (by simpa using hb)) hs
        · exact ih (List.not_mem_append hw (by simp [hb, hc])) hs
    | after =>
      rw [lex]
      split
      · exact hnew
      · exact ih hcopy hs
    | skip =>
      rw [lex]
      split
      · exact ih hw hs
      · split
        · exact ih hw hs
        · exact ih hcopy hs

/-- The value of an argument of a received line is read from a string without a newline. -/
theorem received_arg {data cmd : Str} {args : List PArg} (hdata : chLf ∉ data) (hr : readCommand F data = some (cmd, args)) {k : Sc}
    {v : k.type.Carrier} (hv : lastArg k args = some v) : ∃ tmp, chLf ∉ tmp ∧ v = readValue F k.type tmp := by
  unfold readCommand parseNetcommand at hr
  split at hr
  · cases hr
  · split at hr
    · cases hr
    · rename_i words hwords
      split at hwords
      · cases hwords
      · obtain rfl := Option.some.inj hwords
        obtain ⟨-, rfl⟩ := Prod.mk.inj (Option.some.inj hr)
        obtain ⟨word, hmem, a, hp, ha⟩ := @exists_word F (lex .top [] (cstr data)).tail _ _ hv
        have hcstr : chLf ∉ cstr data := fun hc => hdata ((List.takeWhile_sublist _).subset hc)
        have hword : chLf ∉ word := notMem_lex (by decide) List.not_mem_nil hcstr word (List.mem_of_mem_tail hmem)
        obtain ⟨cp, tmp, rfl, rfl⟩ := parseWord_as F hp ha
        exact ⟨tmp, fun htmp => hword (List.mem_append_right _ (List.mem_cons_of_mem _ htmp)), rfl⟩

/-- The event of a `setalarm` line, which `cmd_alarm` calls `coll_alarm_cb` for. -/
def alarmEvent (args : List PArg) (alarms : List Alarm) : Option Event :=
  (lastArg .aluid args : Option Str).map fun aluid =>
    .alarm (updateAlarm aluid (lastArg .altext args) ((lastArg .alsev args : Option (BitVec 32)).getD 0)
      ((lastArg .alchan args : Option (BitVec 32)).getD 1) alarms).2 aluid

/-- The strings of such an event have no newline, if those of the table have none. -/
theorem received_alarmEvent {data cmd : Str} {args : List PArg} (hdata : chLf ∉ data) (hr : readCommand F data = some (cmd, args))
    {alarms : List Alarm} (h : ∀ a ∈ alarms, chLf ∉ a.aluid ∧ chLf ∉ a.altext) {e : Event} (he : alarmEvent args alarms = some e) :
    ∀ s ∈ e.strings, chLf ∉ s := by
  obtain ⟨aluid, haluid, rfl⟩ := Option.map_eq_some_iff.mp he
  obtain ⟨tmp, hu, rfl⟩ := received_arg F hdata hr haluid
  have ht : ∀ text, (lastArg .altext args : Option Str) = some text → chLf ∉ text := by
    intro text htext
    obtain ⟨tmp, ht, rfl⟩ := received_arg F hdata hr htext
    exact ht
  generalize halarm : (updateAlarm _ _ _ _ alarms).2 = al
  cases al with
  | none =>
    rw [Event.strings, List.forall_mem_singleton]
    exact hu
  | some alarm =>
    have hboth := updateAlarm_strings (P := fun s => chLf ∉ s) (Q := fun s => chLf ∉ s) hu ht h halarm
    rw [Event.strings, List.forall_mem_cons, List.forall_mem_singleton]
    exact hboth

/-! ## Main result -/

/-- The table without devices is the empty array. -/
theorem valid_empty : Json.Valid (eventData ((str "[" :: [] ++ [str "]"]).flatMap dataLine ++ [chLf])) (.arr []) := by
  have htext : eventData ((str "[" :: [] ++ [str "]"]).flatMap dataLine ++ [chLf]) = [91, 10, 93] := by decide
  have hutf := @Json.utf8_ascii_append [91, 10, 93] (by decide) []
  rw [htext]
  exact ⟨hutf.mpr Json.utf8_nil, [], .arrNil rfl, rfl⟩

theorem documented_dump_iff {alldevs : List Device} (h : ∀ dev ∈ alldevs, chLf ∉ dev.uid) :
    (Event.dump alldevs).Documented F ↔ (∀ dev ∈ alldevs, Json.Sound dev.uid) ∧ ∀ dev ∈ alldevs, DataFits F dev := by
  have hvalid : Json.Valid (eventData ((str "[" :: dumpLines F 0 alldevs ++ [str "]"]).flatMap dataLine ++ [chLf]))
      (.arr ((alldevs.map (devMembers F)).map fun ms => .obj (Json.strMembers ms))) ↔ ∀ dev ∈ alldevs, Json.Sound dev.uid := by
    by_cases hne : alldevs = []
    · rw [hne, dumpLines, List.map_nil, List.map_nil]
      exact iff_of_true valid_empty (List.forall_mem_nil _)
    · rw [eventData_dump F hne h]
      refine (valid_objects_iff (by decide) (by decide) (by simpa using hne) ?_).trans ?_
      · exact List.forall_mem_map.mpr fun dev _ => framed_devMembers F dev
      · rw [List.forall_mem_map]
        exact forall₂_congr fun dev _ => sound_devMembers_iff F dev
  rw [← hvalid]
  constructor
  · rintro ⟨text, htext, hv⟩
    obtain ⟨hfits, rfl⟩ := (jsonDumpAll_eq_ok F).mp htext
    exact ⟨hv (by simp), hfits⟩
  · rintro ⟨hv, hfits⟩
    exact ⟨_, (jsonDumpAll_eq_ok F).mpr ⟨hfits, rfl⟩, fun _ => hv⟩

theorem documented_upd_iff {dev : Device} (hs : isSwitch dev = true) (h : chLf ∉ dev.uid) :
    (Event.upd dev).Documented F ↔ Json.Sound dev.uid ∧ DataFits F dev := by
  have hvalid := @valid_oneObject_iff [32, 32] (by decide) (by decide) _ (framed_devMembers F dev) (lf_notMem_devMembers F h)
  have harray : (Event.upd dev).array F = .arr [.obj (Json.strMembers (devMembers F dev))] := by
    rw [Event.array, Event.objects, if_pos hs, List.map_singleton]
  rw [sound_devMembers_iff] at hvalid
  rw [Event.Documented, harray, ← hvalid]
  constructor
  · rintro ⟨text, htext, hv⟩
    obtain ⟨hfit, rfl⟩ := (collUpdCb_eq_ok F hs).mp htext
    exact ⟨hv (by simp [oneObject]), hfit⟩
  · rintro ⟨hv, hfit⟩
    exact ⟨_, (collUpdCb_eq_ok F hs).mpr ⟨hfit, rfl⟩, fun _ => hv⟩

theorem documented_alarm_iff {al : Option Alarm} {aluid : Str} (hu : chLf ∉ (reported al aluid).aluid)
    (ht : chLf ∉ (reported al aluid).altext) : (Event.alarm al aluid).Documented F ↔
      Json.Sound (reported al aluid).aluid ∧ Json.Sound (reported al aluid).altext := by
  have hvalid := @valid_oneObject_iff [32] (by decide) (by decide) _ (framed_alarmMembers _) (lf_notMem_alarmMembers hu ht)
  rw [← sound_alarmMembers_iff, ← hvalid]
  constructor
  · rintro ⟨text, htext, hv⟩
    obtain rfl : collAlarmCb al aluid = text := Except.ok.inj htext
    rw [collAlarmCb_eq] at hv
    exact hv (by simp [oneObject])
  · intro hv
    refine ⟨_, rfl, fun _ => ?_⟩
    rw [collAlarmCb_eq]
    exact hv

/-- What an event prints is the JSON text of what it is about exactly when the strings it shows need no escapes, and the buffer of
`print_data_dev` holds every number. -/
theorem event_documented_iff (e : Event) (h : ∀ s ∈ e.strings, chLf ∉ s) :
    e.Documented F ↔ (∀ s ∈ e.strings, Json.Sound s) ∧ ∀ dev ∈ e.shown, DataFits F dev := by
  cases e with
  | dump alldevs =>
    rw [Event.strings, List.forall_mem_map] at h ⊢
    exact documented_dump_iff F h
  | upd dev =>
    by_cases hs : isSwitch dev = true
    · have hstrings : (Event.upd dev).strings = [dev.uid] := if_pos hs
      have hshown : (Event.upd dev).shown = [dev] := if_pos hs
      rw [hstrings, List.forall_mem_singleton] at h
      rw [documented_upd_iff F hs h, hstrings, hshown, List.forall_mem_singleton, List.forall_mem_singleton]
    · have hstrings : (Event.upd dev).strings = [] := if_neg hs
      have hshown : (Event.upd dev).shown = [] := if_neg hs
      have hnone : (Event.upd dev).printed F = .ok [] := if_neg hs
      rw [hstrings, hshown]
      exact iff_of_true ⟨[], hnone, fun hne => absurd rfl hne⟩ ⟨List.forall_mem_nil _, List.forall_mem_nil _⟩
  | alarm al aluid =>
    have hshown : ∀ dev ∈ (Event.alarm al aluid).shown, DataFits F dev := List.forall_mem_nil _
    rw [and_iff_left hshown]
    cases al with
    | none =>
      rw [Event.strings, List.forall_mem_singleton] at h ⊢
      rw [@documented_alarm_iff F none aluid h List.not_mem_nil]
      exact and_iff_left (Json.Literal.sound nofun)
    | some alarm =>
      simp only [Event.strings, List.forall_mem_cons] at h ⊢
      rw [@documented_alarm_iff F (some alarm) aluid h.1 h.2.1]
      exact ⟨fun hs => ⟨hs.1, hs.2, nofun⟩, fun hs => ⟨hs.1, hs.2.1⟩⟩

theorem event_documented_iff_leak :
    (Event.alarm (some ⟨str "roof", str "the roof leaks", 5, 1⟩) (str "roof")).Documented Doubles.exact := by
  refine (event_documented_iff Doubles.exact _ ?_).mpr ⟨?_, List.forall_mem_nil _⟩
  · decide
  · simp only [Event.strings, List.forall_mem_cons]
    exact ⟨Json.Literal.sound (by decide), Json.Literal.sound (by decide), List.forall_mem_nil _⟩

/-- The alarm of a line whose text has quotes. -/
theorem not_event_documented : ∃ args e,
    readCommand Doubles.exact (str "setalarm aluid:roof altext:\"the \\\"new\\\" roof leaks\" alsev:5 alchan:1") =
      some (str "setalarm", args) ∧ alarmEvent args [] = some e ∧ ¬ e.Documented Doubles.exact := by
  refine ⟨_, .alarm (some ⟨str "roof", str "the \"new\" roof leaks", 5, 1⟩) (str "roof"), rfl, rfl, fun h => ?_⟩
  have hlf : chLf ∉ str "roof" ∧ chLf ∉ str "the \"new\" roof leaks" := by decide
  have hsound := ((@documented_alarm_iff Doubles.exact (some ⟨str "roof", str "the \"new\" roof leaks", 5, 1⟩) (str "roof") hlf.1 hlf.2).mp h).2
  exact absurd (hsound.1 34 (by decide)) (by decide)

end Gnhast.Jsoncgicoll
