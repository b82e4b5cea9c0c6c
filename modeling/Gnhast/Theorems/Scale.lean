import Gnhast.Lemmas.Steps
import Mathlib.Tactic.NormNum
import Mathlib.Tactic.Linarith

/-!
# The scale of updates nobody asked a scale for

`gn_update_device` reads the scale of an update from a bit of its flags. A flag word without such a bit means scale 0, and not
the device's own scale, which only `GNC_NOSCALE` keeps. The watchers of a device, its handler and an `askf` get flag words
without it. So they get the stored value exactly when it is the same number in scale 0.
-/

namespace Gnhast

open CStr

variable (F : Doubles)

/-- The number `gn_update_device` reads at a location. -/
def reading (dev : Device) (loc : DataLoc) : ℚ := (getDataDev F dev loc (.dbl 0)).double F

/-- The number it prints for the value, before that is cut to six decimals. -/
def printedValue (dev : Device) (what : BitVec 32) : ℚ :=
  gnMaybeScale dev (if queryBit what gncNoscale then dev.scale.toNat else gncGetScale what) (reading F dev .data)

/-- The text of an update that gives a value, watermarks and a scale. -/
def updateText (dev : Device) (what : BitVec 32) (tags : List Str) (scale : BitVec 8) (x lo hi : ℚ) : Str :=
  let full := queryBit what gncUpdFull
  str "upd " ++ field .uid dev.uid ++ str " " ++
    (if queryBit what gncUpdName || full then optText dev.name (fun n => field .name (quote n) ++ str " ") else []) ++
    (if queryBit what gncUpdRrdname || full then optText dev.rrdname (fun r => field .rrdname r ++ str " ") else []) ++
    (if queryBit what gncUpdHandler || full then optText dev.handler (fun h => field .handler h ++ str " ") else []) ++
    (if (queryBit what gncUpdHargs || full) && !dev.hargs.items.isEmpty then
      field .hargs (quotedList dev.hargs.items) ++ str " " else []) ++
    (if tags = [] then [] else field .tags (quotedList tags) ++ str " ") ++
    (if full then
      field .devtype (fmtByte dev.type) ++ str " " ++ field .proto (fmtByte dev.proto) ++ str " " ++
        field .subtype (fmtByte dev.subtype) ++ str " " ++ field .spam (spamSetting dev) ++ str " " ++
        (if scale = 0 then [] else field .scale (fmtByte scale) ++ str " ") else []) ++
    argdev dev ++ chColon :: fmtF x ++
    (if queryBit what gncUpdWater || full then
      str " " ++ field .lowat (fmtF lo) ++ str " " ++ field .hiwat (fmtF hi) else []) ++ [chLf]

/-- A line gives the value, the watermarks and the scale of a device as these numbers, where the value is what was printed. -/
def Prints (dev : Device) (what : BitVec 32) (line : Str) (x lo hi : ℚ) (scale : BitVec 8) : Prop :=
  x = printedValue F dev what ∧ ∃ tags, line = updateText dev what tags scale x lo hi

/-- The paths on which updates are sent to receivers that did not ask for a scale. -/
inductive Unscaled
  | watcher | handler | askf
deriving DecidableEq

/-- The flags of a path. -/
def Unscaled.what : Unscaled → BitVec 32
  | .watcher => gncUpdRrdname
  | .handler => gncUpdName ||| gncUpdRrdname
  | .askf => gncUpdFull

/-- A line is sent for a device on a path. -/
inductive SentOn (s : Server) (d : DevId) : Unscaled → Str → Prop
  | watcher {cs : List ClientId} {out : List Out} {c : ClientId} {line : Str}
      (h : updateEach F (s.dev d) gncUpdRrdname cs = .ok out) (hl : .write c line ∈ out) : SentOn s d .watcher line
  | handler {env : Env} {s' : Server} {out : List Out} {c : ClientId} {line : Str}
      (h : runHandlerDev F env d s = .ok (s', out)) (hl : .write c line ∈ out) : SentOn s d .handler line
  | askf {c : ClientId} {uid : Str} {out : List Out} {c' : ClientId} {line : Str} (hf : s.findDeviceByUid uid = some d)
      (h : askFull F c s [uid] = .ok out) (hl : .write c' line ∈ out) : SentOn s d .askf line

/-- A reading is the same number in a scale and in scale 0. -/
def SameInZero (st : DevSubtype) (scale : Nat) (v : ℚ) : Prop :=
  scale = 0 ∨
    match st, scale with
    | .temp, 1 => v = -40
    | .temp, 2 => v = 5745875 / 10000
    | .temp, 3 => False
    | .pressure, _ => v = 0
    | .speed, 1 | .speed, 2 | .speed, 3 => v = 0
    | .rainrate, 1 | .lux, 1 => v = 0
    | _, _ => True

/-! ## Conversions to scale 0 -/

theorem gnScaleTemp_zero_iff (v : ℚ) {scale : Nat} (h : scale ≠ 0) :
    gnScaleTemp v scale 0 = v ↔ SameInZero .temp scale v := by
  unfold SameInZero
  rw [or_iff_right h]
  rcases scale with _ | _ | _ | _ | n
  · exact absurd rfl h
  · simp only [gnScaleTemp, ctof]
    constructor <;> intro h' <;> linarith
  · simp only [gnScaleTemp, ktof, ctof, ktoc]
    constructor <;> intro h' <;> linarith
  · simp only [gnScaleTemp, rtof, iff_false]
    intro h'
    linarith
  · simp [gnScaleTemp]

theorem gnScalePressure_zero_iff (v : ℚ) {scale : Nat} (h : scale ≠ 0) :
    gnScalePressure v scale 0 = v ↔ SameInZero .pressure scale v := by
  unfold SameInZero
  rw [or_iff_right h]
  rcases scale with _ | _ | _ | _ | n
  · exact absurd rfl h
  all_goals
    simp only [gnScalePressure]
    constructor <;> intro h' <;> linarith

theorem gnScaleSpeed_zero_iff (v : ℚ) {scale : Nat} (h : scale ≠ 0) :
    gnScaleSpeed v scale 0 = v ↔ SameInZero .speed scale v := by
  unfold SameInZero
  rw [or_iff_right h]
  rcases scale with _ | _ | _ | _ | n
  · exact absurd rfl h
  · simp only [gnScaleSpeed]
    constructor <;> intro h' <;> linarith
  · simp only [gnScaleSpeed]
    constructor <;> intro h' <;> linarith
  · simp only [gnScaleSpeed]
    constructor <;> intro h' <;> linarith
  · simp [gnScaleSpeed]

theorem gnScaleLength_zero_iff (v : ℚ) {scale : Nat} (h : scale ≠ 0) :
    gnScaleLength v scale 0 = v ↔ SameInZero .rainrate scale v := by
  unfold SameInZero
  rw [or_iff_right h]
  rcases scale with _ | _ | n
  · exact absurd rfl h
  · simp only [gnScaleLength]
    constructor <;> intro h' <;> linarith
  · simp [gnScaleLength]

theorem gnScaleLight_zero_iff (v : ℚ) {scale : Nat} (h : scale ≠ 0) :
    gnScaleLight v scale 0 = v ↔ SameInZero .lux scale v := by
  unfold SameInZero
  rw [or_iff_right h]
  rcases scale with _ | _ | n
  · exact absurd rfl h
  · simp only [gnScaleLight]
    constructor
    · intro h'
      have : v / (79 / 10000) = v * (10000 / 79) := by ring
      linarith
    · intro h'
      rw [h']
      norm_num
  · simp [gnScaleLight]

/-- In scale 0, a value is the same number exactly under the condition. -/
theorem gnMaybeScale_zero_iff {dev : Device} (h : Scalable dev.devSubtype) (v : ℚ) :
    gnMaybeScale dev 0 v = v ↔ SameInZero dev.devSubtype dev.scale.toNat v := by
  unfold gnMaybeScale
  by_cases h0 : dev.scale.toNat = 0
  · rw [if_pos h0]
    exact iff_of_true rfl (Or.inl h0)
  · rw [if_neg h0]
    rcases h with h | h | h | h | h
    · rw [h]
      exact gnScaleTemp_zero_iff v h0
    · rw [h]
      exact gnScalePressure_zero_iff v h0
    · rw [h]
      exact gnScaleSpeed_zero_iff v h0
    · rw [h]
      exact gnScaleLength_zero_iff v h0
    · rw [h]
      exact gnScaleLight_zero_iff v h0

/-! ## The lines -/

theorem datatype_scalable {dev : Device} (h : Scalable dev.devSubtype) : datatypeDev dev = .double := by
  unfold datatypeDev
  split
  · rfl
  · rcases h with h | h | h | h | h <;> rw [h] <;> rfl

/-- A complete device is sent to a watcher. -/
theorem exists_watcherLine {dev : Device} (h : dev.Complete) : ∃ line, gnUpdateDevice F dev gncUpdRrdname = .ok (some line) := by
  unfold gnUpdateDevice
  cases hn : dev.name with
  | none => exact absurd hn h.name
  | some name =>
    have hz : ¬ (dev.type = 0 ∨ dev.subtype = 0 ∨ dev.proto = 0) := by
      rintro (h' | h' | h')
      · exact h.type h'
      · exact h.subtype h'
      · exact h.proto h'
    dsimp only
    rw [if_neg hz]
    exact ⟨_, rfl⟩

theorem mem_emit {c c' : ClientId} {line : Str} {o : Option Str} (h : Out.write c line ∈ emit c' o) : o = some line := by
  cases o with
  | none => cases h
  | some l =>
    rw [emit, List.mem_singleton] at h
    cases h
    rfl

/-- Every line that is sent on a path was printed with its flags. -/
theorem SentOn.printed {s : Server} {d : DevId} {p : Unscaled} {line : Str} (h : SentOn F s d p line) :
    gnUpdateDevice F (s.dev d) p.what = .ok (some line) := by
  cases h with
  | watcher h hl =>
    obtain ⟨o, ho, rfl⟩ := Except.map_eq_ok.mp h
    obtain ⟨c', -, hl⟩ := List.mem_flatMap.mp hl
    rw [mem_emit hl] at ho
    exact ho
  | handler h hl =>
    unfold runHandlerDev at h
    split at h
    · cases h
      cases hl
    · split at h
      · obtain ⟨o, ho, h⟩ := Except.map_eq_ok.mp h
        cases h
        rw [mem_emit hl] at ho
        exact ho
      · cases h
        cases hl
  | askf hf h hl =>
    rw [askFull, hf] at h
    obtain ⟨o, ho, h⟩ := Except.bind_eq_ok.mp h
    obtain ⟨rest, hrest, h⟩ := Except.bind_eq_ok.mp h
    cases hrest
    cases h
    rw [List.append_nil] at hl
    rw [mem_emit hl] at ho
    exact ho

/-- A thermometer that reads 20 degrees. -/
def thermometer (scale : BitVec 8) : Device :=
  { uid := str "attic", name := some (str "Attic"), rrdname := some (str "attic"), proto := 1, type := 3, subtype := 3
    scale := scale, data := .dbl 20 }

end Gnhast
