import Gnhast.Gncoll

/-!
# The monitor of the collectors

The table of `moncoll`, and the three callbacks that change it: the update of a collector's device (`coll_upd_cb`), the check of the
pids (`cb_checkpids`) and the restart pass (`cb_restart_collectors`). What a system call returns is part of the event. Left out are
the log and the subscription to the devices.
-/

namespace Gnhast.Moncoll

open CStr

/-- `moncol_t`. The options without a default may be missing. The three counters start at zero, and are advanced or set to zero. -/
structure Moncol where
  name : Option Str := none
  uid : Option Str := none
  path : Option Str := none
  args : Option Str := none
  pidfile : Option Str := none
  service : Str := []
  pid : BitVec 32 := -1
  useSystemd : BitVec 32 := 0
  systemdStatus : BitVec 32 := 0
  instanceNo : BitVec 32 := 1
  alive : BitVec 32 := -1
  killAttempts : Nat := 0
  passes : Nat := 0
  restarts : Nat := 0
deriving Repr, DecidableEq

/-- What the callbacks do besides changing the table. -/
inductive Act
  | write (line : Str)
  | system (cmd : Str)
  | kill (pid : BitVec 32) (sig : Nat)
  | timer (secs : Nat)
deriving Repr, DecidableEq

/-- The monitor: the table, whether the restart pass is scheduled, the number of this monitor and what was done so far. -/
structure Monitor where
  collectors : List Moncol := []
  restartEventRunning : Bool := false
  collectorInstance : BitVec 32 := 1
  acts : List Act := []
deriving Repr, DecidableEq

/-- `%s` of a string that may be missing, as the C library prints it. -/
def fmtS (s : Option Str) : Str := s.getD (str "(null)")

/-- `snprintf` to a buffer of 512 bytes. -/
def snprintf512 (text : Str) : Str := text.take 511

/-- The channel in `alchan`: `ACHAN_GNHAST`. -/
def alchan : BitVec 32 := 1 <<< 7

/-- `RESTART_RATE`, and the signals sent. -/
def restartRate : Nat := 10
def sigkill : Nat := 9
def sigterm : Nat := 15

/-- The uid of the alarm of a collector. -/
def alarmUid (collectorInstance : BitVec 32) (mon : Moncol) : Str :=
  snprintf512 (str "MONC-" ++ fmtD collectorInstance ++ str "_" ++ fmtS mon.name ++ str "-" ++ fmtD mon.instanceNo)

/-- The `setalarm` that clears the alarm of a collector. -/
def clearing (collectorInstance : BitVec 32) (mon : Moncol) : Act :=
  .write (gnSetalarm (alarmUid collectorInstance mon) (str "nada") 0 alchan)

/-- `setup_monitors` for one section: the entry, and the clearing event. -/
def setupMonitors (collectorInstance : BitVec 32) (sections : List Moncol) : Monitor :=
  let entries := sections.map fun mon =>
    { mon with pid := -1, systemdStatus := 0, alive := -1, killAttempts := 0, passes := 0, restarts := 0 }
  { collectors := entries, collectorInstance, acts := entries.map (clearing collectorInstance) }

/-- `WIFEXITED` and `WEXITSTATUS`. -/
def wifexited (status : BitVec 32) : Bool := status &&& 0x7f == 0
def wexitstatus (status : BitVec 32) : BitVec 32 := (status >>> 8) &&& 0xff

/-- Whether systemd runs the collector. -/
def Moncol.bySystemd (mon : Moncol) : Bool := mon.useSystemd != 0 && decide (1 < mon.service.length)

/-! ## `coll_upd_cb` -/

/-- `coll_upd_cb`: the first collector with the uid of the device takes the data. `strcmp` on a missing uid is a fault. -/
def collUpdCb (uid : Str) (data : BitVec 8) : List Moncol → Option (List Moncol)
  | [] => some []
  | mon :: rest =>
    match mon.uid with
    | none => none
    | some u =>
      if u = uid then some ({ mon with alive := data.setWidth 32 } :: rest) else (collUpdCb uid data rest).map (mon :: ·)

/-! ## `cb_restart_collectors` -/

/-- What the system calls of a restart pass return for one collector: the status of `system`, and whether `kill` fails because there
is no such process. -/
structure RestartCalls where
  system : BitVec 32 := 0
  noProcess : Bool := false
deriving Repr, DecidableEq

/-- The command that starts a collector again. -/
def Moncol.command (mon : Moncol) : Str :=
  match mon.args with
  | none => snprintf512 (fmtS mon.path)
  | some args => if args.length < 1 then snprintf512 (fmtS mon.path) else snprintf512 (fmtS mon.path ++ str " " ++ args)

/-- A dead collector that systemd runs. -/
def reviveSystemd (calls : RestartCalls) (mon : Moncol) : Moncol × List Act :=
  if mon.systemdStatus ≠ 0 then
    let mon := { mon with restarts := mon.restarts + 1, killAttempts := 0 }
    let cmd := snprintf512 (str "systemctl --no-ask-password --no-pager -q start " ++ mon.service)
    if wifexited calls.system && wexitstatus calls.system != 0 then (mon, [.system cmd])
    else ({ mon with alive := 1 }, [.system cmd, .timer 5])
  else
    let mon := { mon with killAttempts := mon.killAttempts + 1 }
    let cmd := if 5 < mon.killAttempts then str "systemctl --no-ask-password --no-pager -q --signal=SIGKILL kill " ++ mon.service
      else str "systemctl --no-ask-password --no-pager -q stop " ++ mon.service
    (mon, [.system (snprintf512 cmd), .timer 5])

/-- A dead collector that the monitor runs itself. -/
def revivePid (calls : RestartCalls) (mon : Moncol) : Moncol × List Act :=
  let killed := if mon.pid.toInt < 1 then [] else [Act.kill mon.pid sigterm]
  if mon.pid.toInt < 1 ∨ calls.noProcess then
    let mon := { mon with restarts := mon.restarts + 1, killAttempts := 0 }
    if calls.system ≠ 0 then (mon, killed ++ [.system mon.command])
    else ({ mon with alive := 1 }, killed ++ [.system mon.command, .timer 5])
  else
    let mon := { mon with killAttempts := mon.killAttempts + 1 }
    (mon, if 5 < mon.killAttempts then killed ++ [.kill mon.pid sigkill] else killed)

/-- The body of the loop of `cb_restart_collectors`. -/
def restartCollector (collectorInstance : BitVec 32) (calls : RestartCalls) (mon : Moncol) : Moncol × List Act :=
  let mon := { mon with passes := mon.passes + 1 }
  if mon.alive ≠ 0 then
    let mon := if 60 < mon.passes then { mon with passes := 0, restarts := 0 } else mon
    (mon, if 10 < mon.passes ∧ mon.restarts = 0 then [clearing collectorInstance mon] else [])
  else
    let r := if mon.bySystemd then reviveSystemd calls mon else revivePid calls mon
    let alarm := gnSetalarm (alarmUid collectorInstance r.1)
      (snprintf512 (str "Collector " ++ fmtS r.1.uid ++ str " is restarting too fast")) (BitVec.ofNat 32 (r.1.restarts * 5)) alchan
    (r.1, r.2 ++ if 10 < r.1.passes ∧ 5 ≤ r.1.restarts then [.write alarm] else [])

/-- `cb_restart_collectors`: the loop over the table. The calls are those for the collector at each place. -/
def cbRestartCollectors (calls : Nat → RestartCalls) (s : Monitor) : Monitor :=
  let passed := s.collectors.mapIdx fun i mon => restartCollector s.collectorInstance (calls i) mon
  { s with collectors := passed.map Prod.fst, acts := s.acts ++ passed.flatMap Prod.snd }

/-! ## `cb_checkpids` -/

/-- What the calls of a pid check return for one collector: the status of `system`, the text of the pidfile when it can be opened, and
whether there is no such process. -/
structure CheckCalls where
  system : BitVec 32 := 0
  pidtext : Option Str := none
  noProcess : Bool := false
deriving Repr, DecidableEq

/-- The body of the loop of `cb_checkpids`. The command is printed with `sprintf` to 512 bytes. -/
def checkPid (calls : CheckCalls) (mon : Moncol) : Option (Moncol × List Act) :=
  if mon.bySystemd then
    let cmd := str "systemctl --no-ask-password --no-pager -q is-active " ++ mon.service
    if cmd.length < 512 then
      let status := wexitstatus calls.system
      let checked := if wifexited calls.system then
        { mon with alive := if status ≠ 0 then 0 else mon.alive, systemdStatus := status } else mon
      some (checked, [.system cmd])
    else none
  else
    match calls.pidtext with
    | none => some (mon, [])
    | some text =>
      let mon := { mon with pid := atoi (cstr (text.take 127)) }
      some (if calls.noProcess then { mon with alive := 0 } else mon, [.kill mon.pid 0])

/-- The loop of `cb_checkpids`, from the place `i` on. -/
def checkPids (calls : Nat → CheckCalls) (i : Nat) : List Moncol → Option (List (Moncol × List Act))
  | [] => some []
  | mon :: rest => do
    let r ← checkPid (calls i) mon
    let rs ← checkPids calls (i + 1) rest
    return r :: rs

/-- `cb_checkpids`: the loop over the table, and the first time the restart pass is scheduled. -/
def cbCheckpids (calls : Nat → CheckCalls) (s : Monitor) : Option Monitor := do
  let checked ← checkPids calls 0 s.collectors
  let acts := s.acts ++ checked.flatMap Prod.snd
  let started := if s.restartEventRunning then acts else acts ++ [.timer restartRate]
  return { s with collectors := checked.map Prod.fst, restartEventRunning := true, acts := started }

/-! ## Runs -/

/-- What the monitor reacts to. -/
inductive MonEvent
  | upd (uid : Str) (data : BitVec 8)
  | checkpids (calls : Nat → CheckCalls)
  | restart (calls : Nat → RestartCalls)

/-- A restart pass. -/
def MonEvent.isRestart : MonEvent → Bool
  | .restart _ => true
  | _ => false

/-- One event. A restart pass is not run before it is scheduled. -/
def step (s : Monitor) : MonEvent → Option Monitor
  | .upd uid data => (collUpdCb uid data s.collectors).map fun collectors => { s with collectors }
  | .checkpids calls => cbCheckpids calls s
  | .restart calls => if s.restartEventRunning then some (cbRestartCollectors calls s) else none

end Gnhast.Moncoll
