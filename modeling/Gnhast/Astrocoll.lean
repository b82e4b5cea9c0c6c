import Gnhast.JsmnFunc
import Gnhast.Lib.Timers
import Mathlib.Data.Fin.VecNotation
import Mathlib.Logic.Function.Basic

/-!
# The daylight of the astronomy collector

`ss_request_cb` and `convert_sunrise_data` of `astrocoll/collector.c`: the timers that an answer of the sunrise-sunset service arms, and
the phase that is set at once. The parser of the answer and the conversion of a time are parameters. The sunrise device is its value;
left out are the log, the update that gnhastd is sent for each value, and the time that only `collector_is_ok` reads.
-/

namespace Gnhast.Astrocoll

open CStr Timers

/-- `DAYLIGHT_TYPES`. -/
inductive Dayl
  | night | day | solarNoon | dawnAstroTwilight | dawnNauticalTwilight | dawnCivilTwilight | duskCivilTwilight | duskNauticalTwilight
  | duskAstroTwilight
deriving Repr, DecidableEq

/-- `SS_TIMES`. -/
abbrev SsTimes : Type := Fin 9

def ssAstroEnd : SsTimes := 7
def ssSolarNoon : SsTimes := 8

/-- `apiwords` -/
def apiwords : SsTimes → Str := ![
  str "astronomical_twilight_begin",
  str "nautical_twilight_begin",
  str "civil_twilight_begin",
  str "sunrise",
  str "sunset",
  str "civil_twilight_end",
  str "nautical_twilight_end",
  str "astronomical_twilight_end",
  str "solar_noon"]

/-- `apidayl` -/
def apidayl : SsTimes → Dayl := ![
  .dawnAstroTwilight,
  .dawnNauticalTwilight,
  .dawnCivilTwilight,
  .day,
  .duskCivilTwilight,
  .duskNauticalTwilight,
  .duskAstroTwilight,
  .night,
  .solarNoon]

/-- The globals, and the value of the sunrise device. -/
structure Astro where
  sunriseOffsets : SsTimes → ℤ := fun _ => 0
  sunEv : SsTimes → Option (Timer Dayl) := fun _ => none
  solarNoonStartEv : Option (Timer Dayl) := none
  solarNoonEndEv : Option (Timer Dayl) := none
  sunrise : Dayl := .night

/-- The timers that are armed. -/
def Astro.pending (s : Astro) : List (Timer Dayl) :=
  (List.finRange 9).filterMap s.sunEv ++ s.solarNoonStartEv.toList ++ s.solarNoonEndEv.toList

/-- `modify_sunrise_cb` -/
def modifySunriseCb (cbarg : Dayl) (s : Astro) : Astro := { s with sunrise := cbarg }

/-- `convert_sunrise_data`, at a time, for the offset of a time from it. -/
def convertSunriseData (now offset : ℤ) (daylight : Dayl) (field : SsTimes) (s : Astro) : Astro :=
  let s := { s with sunriseOffsets := Function.update s.sunriseOffsets field offset }
  let s :=
    if field = ssSolarNoon ∧ 0 < offset - 1800 then
      { s with
        solarNoonStartEv := some ⟨now + (offset - 1800), .solarNoon⟩
        solarNoonEndEv := some ⟨now + (offset + 1800), .day⟩ }
    else s
  if 0 < offset ∧ field ≠ ssSolarNoon then { s with sunEv := Function.update s.sunEv field (some ⟨now + offset, daylight⟩) } else s

/-- What parses an answer, and the time that a text tells. -/
structure AstroConf where
  jsmnParse : Str → Option (List Jsmntok)
  eventTime : Str → ℤ

/-- An answer of the service. -/
structure AstroReq where
  responseCode : Int
  body : Str

variable (conf : AstroConf) (now : ℤ)

/-- The loop over the times, from some on: whether all were found, and what was made of them. -/
def readTimes (token : List Jsmntok) (buf : Str) : List SsTimes → Astro → Except Fault (Bool × Astro)
  | [], s => .ok (true, s)
  | j :: js, s => do
    let i ← jtokFindTokenVal token buf (apiwords j) token.length
    if i = -1 then .ok (false, s)
    else
      let t ← tokAt token i.toNat
      match jtokString t buf with
      | none => .error .nullString
      | some text => readTimes token buf js (convertSunriseData now (conf.eventTime text - now) (apidayl j) j s)

/-- The phase that is set at once: by the first time that is not past. -/
def pickPhase (s : Astro) : Astro :=
  if -1800 < s.sunriseOffsets ssSolarNoon ∧ s.sunriseOffsets ssSolarNoon < 1800 then modifySunriseCb .solarNoon s
  else
    match (List.finRange 9).find? fun j => j < ssAstroEnd ∧ 0 ≤ s.sunriseOffsets j with
    | some j => modifySunriseCb (apidayl (if 0 < j then j - 1 else ssAstroEnd)) s
    | none => s

/-- The offsets are flushed, but for that of the noon. -/
def flushOffsets (s : Astro) : Astro :=
  { s with sunriseOffsets := fun j => if j ≤ ssAstroEnd then -86401 else s.sunriseOffsets j }

/-- `ss_request_cb`, at a time. -/
def ssRequestCb (req : Option AstroReq) (s : Astro) : Except Fault Astro :=
  match req with
  | none => .ok s
  | some req =>
    if req.responseCode ≠ 200 ∨ req.body = [] then .ok s
    else
      match conf.jsmnParse req.body with
      | none => .ok s
      | some token => (readTimes conf now token req.body (List.finRange 9) (flushOffsets s)).map fun r => if r.1 then pickPhase r.2 else r.2

end Gnhast.Astrocoll
