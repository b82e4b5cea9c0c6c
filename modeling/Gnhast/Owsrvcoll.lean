import Gnhast.Gncoll
import Mathlib.Data.PNat.Basic

/-!
# The owserver collector

How `owsrvcoll/collector.c` polls an owserver: the requests it writes (`ows_schedule_devread`, `ows_schedule_dirall`), what it does
with a reply (`ows_buf_read_cb`) and when its timer fires (`ows_timer_cb`). Devices are only ever added behind the others, so a
pointer into the list is a position. Left out are the log, the dump of the configuration, and the times that only the watchdog and
`collector_is_ok` read.
-/

namespace Gnhast.Owsrvcoll

open CStr

/-- A device of the collector: `loc` is always set, `localdata` is the text of `multimodel`. -/
structure OwsDev where
  dev : Device
  loc : Str
  localdata : Option Str := none
deriving Repr, DecidableEq

/-- `OWS_MESSAGE_TYPES`, those that are sent. -/
inductive OwsMsg
  | read | dirall
deriving Repr, DecidableEq

/-- `server_msg`, with the path behind it and its NUL. -/
structure ServerMsg where
  payload : Nat
  type : OwsMsg
  controlFlags : BitVec 32
  size : Nat
  buf : Str
deriving Repr, DecidableEq

/-- `client_msg` in the byte order of the host, with the data behind it. -/
structure ClientMsg where
  payload : BitVec 32
  ret : BitVec 32
  controlFlags : BitVec 32
  buf : Str
deriving Repr, DecidableEq

/-- What the collector is set up with; with a `rescan` of zero the remainder would stop it. -/
structure OwsConf where
  rescan : ℕ+
  owbase : BitVec 32
  tempscale : BitVec 8
  /-- `new_dev_from_conf` -/
  newDevFromConf : Str → Option OwsDev

/-- The globals and the connection to the owserver. -/
structure Ows where
  alldevs : List OwsDev := []
  currentDev : Option Nat := none
  lastcmd : OwsMsg := .dirall
  persistent : Bool := false
  timerPending : Bool := false
  loopnr : BitVec 32 := 0

/-- What the collector does to the outside. -/
inductive OwsOut
  /-- `connect_server_cb` for the owserver. -/
  | connect
  | request (msg : ServerMsg)
  /-- A line to gnhastd. -/
  | gnhastd (line : Str)
deriving Repr, DecidableEq

variable (F : Doubles) (conf : OwsConf)

def chSlash : Byte := 47
def protoSensorOwfs : BitVec 8 := 4
def owflagPersist : BitVec 32 := 4

/-- What the switch of `ows_schedule_devread` makes of a device: a path, the early return, or the next device. -/
inductive OwsRead
  | path (buf : Str)
  | giveUp
  | skip
deriving Repr, DecidableEq

/-- The switch of `ows_schedule_devread`. -/
def owsRead (dev : OwsDev) : OwsRead :=
  match dev.dev.devSubtype with
  | .temp => .path (dev.loc ++ str "/temperature")
  | .humid =>
    match dev.localdata with
    | some m => .path (dev.loc ++ str "/" ++ m ++ str "/humidity")
    | none => .path (dev.loc ++ str "/humidity")
  | .lux =>
    match dev.localdata with
    | some m => .path (dev.loc ++ str "/" ++ m ++ str "/illuminance")
    | none => .path (dev.loc ++ str "/S3-R1-A/illuminance")
  | .pressure =>
    match dev.localdata with
    | some m =>
      if m.head? = (str "s").head? then .path (dev.loc ++ str "/moisture/" ++ m)
      else .path (dev.loc ++ str "/" ++ m ++ str "/pressure")
    | none => .path (dev.loc ++ str "/B1-R1-A/pressure")
  | .wetness =>
    match dev.localdata with
    | some m => .path (dev.loc ++ str "/moisture/" ++ m)
    | none => .giveUp
  | .counter =>
    match dev.localdata with
    | some m => .path (dev.loc ++ str "/" ++ m)
    | none => .giveUp
  | _ => .skip

/-- The start over from the top of the list, with a timer for it. -/
def startOver (s : Ows) : Ows :=
  let loopnr := s.loopnr + 1
  { s with
    loopnr
    currentDev := if loopnr.toNat % conf.rescan = 0 ∨ s.alldevs = [] then none else some 0
    timerPending := true }

/-- A request, on a new connection when the last one is not kept. -/
def sendRequest (s : Ows) (msg : ServerMsg) : List OwsOut := (if s.persistent then [] else [.connect]) ++ [.request msg]

/-- `ows_schedule_devread` for the first device of the rest of the list, which is at a position. -/
def owsScheduleDevread : List OwsDev → Nat → Ows → Ows × List OwsOut
  | [], _, s => (startOver conf s, [])
  | dev :: rest, i, s =>
    match owsRead dev with
    | .path buf =>
      ({ s with lastcmd := .read, currentDev := some i },
        sendRequest s { payload := buf.length + 1, type := .read, controlFlags := conf.owbase, size := 65536, buf := buf ++ [0] })
    | .giveUp => (s, [])
    | .skip => owsScheduleDevread rest (i + 1) (if rest = [] then s else { s with currentDev := some (i + 1) })

/-- `ows_schedule_dirall` -/
def owsScheduleDirall (s : Ows) : Ows × List OwsOut :=
  ({ s with lastcmd := .dirall, currentDev := none },
    sendRequest s { payload := 2, type := .dirall, controlFlags := conf.owbase, size := 0, buf := [chSlash, 0] })

/-- The record of a device that is not configured. -/
def owsDefaultDev (p : Str) : OwsDev :=
  let temp := (str "10.").isPrefixOf p || (str "28.").isPrefixOf p
  { loc := p
    dev :=
      { uid := p, type := 3, proto := protoSensorOwfs, subtype := if temp then 3 else 0
        scale := if temp then conf.tempscale else 0 } }

/-- The record of a device that was not known, without data yet. -/
def owsNewDev (p : Str) : OwsDev :=
  let d := (conf.newDevFromConf p).getD (owsDefaultDev conf p)
  { d with dev := { d.dev with nodata := true } }

/-- A device with a name is registered with gnhastd. -/
def owsRegister (d : OwsDev) : List OwsOut :=
  if d.dev.name = none then [] else ((gnRegisterDevice d.dev).map .gnhastd).toList

/-- One round of the loop of `ows_handle_dirall`. -/
def owsHandleEntry (s : Ows) (p : Str) : Ows × List OwsOut :=
  let p := if p.head? = some chSlash then p.tail else p
  if s.alldevs.any (fun d => d.dev.uid == p) then (s, [])
  else ({ s with alldevs := s.alldevs ++ [owsNewDev conf p] }, owsRegister (owsNewDev conf p))

/-- The loop of `ows_handle_dirall`. -/
def owsHandleEntries : List Str → Ows → Ows × List OwsOut
  | [], s => (s, [])
  | p :: ps, s =>
    let r := owsHandleEntry conf s p
    let r' := owsHandleEntries ps r.1
    (r'.1, r.2 ++ r'.2)

/-- `ows_handle_dirall` -/
def owsHandleDirall (s : Ows) (buf : Str) : Ows × List OwsOut := owsHandleEntries conf (strtok chComma buf) s

/-- The end of `ows_buf_read_cb`: the device behind the current one, or the start over. -/
def readcbout (s : Ows) : Ows × List OwsOut :=
  match s.currentDev with
  | some i =>
    if i + 1 < s.alldevs.length then owsScheduleDevread conf (s.alldevs.drop (i + 1)) (i + 1) s else (startOver conf s, [])
  | none => (startOver conf s, [])

/-- What a reply stores in its device. -/
def owsStore (buf : Str) (dev : Device) : Device :=
  match dev.devSubtype with
  | .temp | .humid | .lux | .pressure => { dev with data := dev.data.assign F .d (.dbl (F.strtod buf)) }
  | .counter => { dev with data := dev.data.assign F .count (.raw (strtoul buf)) }
  | _ => dev

/-- Something is sent before the rest. -/
def sendFirst (out : List OwsOut) (r : Ows × List OwsOut) : Ows × List OwsOut := (r.1, out ++ r.2)

/-- The reply to a read. -/
def owsHandleRead (s : Ows) (buf : Str) : Except Fault (Ows × List OwsOut) :=
  if buf = [] then .ok (readcbout conf s)
  else
    match s.currentDev with
    | none => .ok (readcbout conf s)
    | some i =>
      match s.alldevs[i]? with
      | none => .error .uninitialised
      | some d =>
        let d := { d with dev := owsStore F buf d.dev }
        (if d.dev.name = none then .ok none else gnUpdateDevice F d.dev gncNoscale).map fun line =>
          sendFirst (line.map .gnhastd).toList (readcbout conf { s with alldevs := s.alldevs.set i d })

/-- A packet that only says that the owserver is busy. -/
def ClientMsg.ping (msg : ClientMsg) : Prop := msg.payload = -1 ∧ msg.ret = 0

instance (msg : ClientMsg) : Decidable msg.ping := inferInstanceAs (Decidable (msg.payload = -1 ∧ msg.ret = 0))

/-- `ows_buf_read_cb`, with a header or with less. -/
def owsBufReadCb (msg : Option ClientMsg) (s : Ows) : Except Fault (Ows × List OwsOut) :=
  match msg with
  | none => .ok (readcbout conf s)
  | some msg =>
    let s := { s with persistent := s.persistent || queryBit msg.controlFlags owflagPersist }
    if msg.ping then .ok (s, [])
    else if msg.payload.toInt < 1 then .ok (readcbout conf s)
    else if (msg.buf.length : Int) < msg.payload.toInt then .ok (readcbout conf s)
    else
      let buf := cstr (msg.buf.take msg.payload.toNat)
      match s.lastcmd with
      | .dirall =>
        let (s, out) := owsHandleDirall conf s buf
        .ok (sendFirst out (readcbout conf (if s.alldevs = [] then s else { s with currentDev := some 0 })))
      | .read => owsHandleRead F conf s buf

/-- `ows_timer_cb` -/
def owsTimerCb (s : Ows) : Ows × List OwsOut :=
  let s := { s with timerPending := false }
  match s.currentDev with
  | none => owsScheduleDirall conf s
  | some i => owsScheduleDevread conf (s.alldevs.drop i) i s

end Gnhast.Owsrvcoll
