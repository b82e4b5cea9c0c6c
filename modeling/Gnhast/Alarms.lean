import Gnhast.Types

/-!
# Alarms

The alarm table of `alarms.c`: alarms are found by their uid, and an update with severity zero removes one.
-/

namespace Gnhast

open CStr

/-- `find_alarm_by_aluid`. -/
def findAlarmByAluid (alarms : List Alarm) (aluid : Str) : Option Alarm := alarms.find? (fun a => a.aluid = aluid)

/-- The update of an alarm that exists: severity -1 keeps the severity, and without a channel the generic one is set. -/
def Alarm.update (alarm : Alarm) (altext : Option Str) (alsev alchan : BitVec 32) : Alarm :=
  { alarm with
    altext := altext.getD alarm.altext
    alsev := if alsev = -1 then alarm.alsev else alsev
    alchan := if alchan = 0 then 1 else alchan }

/-- Replacing the first alarm of a list that has an uid. -/
def replaceAlarm (aluid : Str) (new : Alarm) : List Alarm → List Alarm
  | [] => []
  | a :: as => if a.aluid = aluid then new :: as else a :: replaceAlarm aluid new as

/-- `update_alarm`: the table after, and the alarm that was made or changed. -/
def updateAlarm (aluid : Str) (altext : Option Str) (alsev alchan : BitVec 32) (alarms : List Alarm) :
    List Alarm × Option Alarm :=
  match findAlarmByAluid alarms aluid with
  | none =>
    if alsev = 0 then (alarms, none)
    else
      match altext with
      | none => (alarms, none)
      | some text =>
        let alarm : Alarm := ⟨aluid, text, alsev, alchan⟩
        (alarms ++ [alarm], some alarm)
  | some alarm =>
    if alsev = 0 then (alarms.eraseP (fun a => a.aluid = aluid), none)
    else
      let alarm := alarm.update altext alsev alchan
      (replaceAlarm aluid alarm alarms, some alarm)

end Gnhast
