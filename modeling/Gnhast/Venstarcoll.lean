import Gnhast.Gncoll
import Gnhast.JsmnFunc

/-!
# The Venstar thermostat collector

`request_cb` of `venstarcoll/collector.c`: what is done with the answers of the thermostat to the queries for its state, its sensors and
its alerts, and to a change. The parser of the answer is a parameter. Left out are the log and the time that only `collector_is_ok`
reads.
-/

namespace Gnhast.Venstarcoll

open CStr

/-- The types of the fields of a Query/Info message. -/
inductive QiType
  | int | bool | float
deriving Repr, DecidableEq

/-- `queryinfo_t`. -/
structure Queryinfo where
  name : Str
  type : QiType
  residential : Int
deriving Repr, DecidableEq

def ttypeRes : Int := 0
def ttypeCom : Int := 1

/-- The query/info map. -/
def queryinfo : List Queryinfo := [
  ⟨str "mode", .int, ttypeRes⟩,
  ⟨str "state", .int, ttypeRes⟩,
  ⟨str "fan", .bool, ttypeRes⟩,
  ⟨str "fanstate", .bool, ttypeRes⟩,
  ⟨str "tempunits", .bool, ttypeRes⟩,
  ⟨str "schedule", .bool, ttypeRes⟩,
  ⟨str "schedulepart", .int, ttypeRes⟩,
  ⟨str "away", .bool, ttypeRes⟩,
  ⟨str "holiday", .bool, ttypeCom⟩,
  ⟨str "override", .bool, ttypeCom⟩,
  ⟨str "overridetime", .int, ttypeCom⟩,
  ⟨str "forceunocc", .bool, ttypeCom⟩,
  ⟨str "spacetemp", .float, ttypeRes⟩,
  ⟨str "heattemp", .float, ttypeRes⟩,
  ⟨str "cooltemp", .float, ttypeRes⟩,
  ⟨str "cooltempmin", .float, ttypeRes⟩,
  ⟨str "cooltempmax", .float, ttypeRes⟩,
  ⟨str "heattempmin", .float, ttypeRes⟩,
  ⟨str "heattempmax", .float, ttypeRes⟩,
  ⟨str "setpointdelta", .float, ttypeRes⟩,
  ⟨str "hum", .float, ttypeRes⟩,
  ⟨str "availablemodes", .int, ttypeRes⟩]

def venInfo : Str := str "/query/info"
def venSensors : Str := str "/query/sensors"
def venAlerts : Str := str "/query/alerts"
def venControl : Str := str "/control"
def venSettings : Str := str "/settings"

def httpOk : Int := 200
def subtypeTemp : BitVec 8 := 3

/-- What the collector is set up with, and what parses an answer: the tokens of a text, or a failure. -/
structure VenConf where
  name : Str
  ttype : Int
  jsmnParse : Str → Option (List Jsmntok)

/-- The globals. -/
structure Ven where
  alldevs : List Device := []
  tempscale : BitVec 32 := 0
  macaddr : Str := []
deriving Repr, DecidableEq

/-- An answer of the thermostat. -/
structure VenReq where
  responseCode : Int
  uri : Str
  body : Str
deriving Repr, DecidableEq

/-- What the collector does to the outside: a line to gnhastd, or a query for the state in two seconds. -/
inductive VenOut
  | gnhastd (line : Str)
  | queryinfo
deriving Repr, DecidableEq

variable (F : Doubles) (conf : VenConf) (beyond : BitVec 64)

/-- The 64 bits at the address of an `int`; what lies behind it comes from `beyond`. -/
def intWord (v : BitVec 32) : Word := .raw ((beyond &&& 0xffffffff00000000#64) ||| v.setWidth 64)

/-- `find_device_byuid`. -/
def findDeviceByuid (s : Ven) (uid : Str) : Option Nat := s.alldevs.findIdx? fun d => d.uid = uid

/-- The uid of the device for a field of the thermostat. -/
def Ven.uid (s : Ven) (name : Str) : Str := s.macaddr ++ chMinus :: name

/-- The device a pointer points to. -/
def deref (s : Ven) (dev : Option Nat) : Except Fault Device :=
  match dev.bind (s.alldevs[·]?) with
  | some d => .ok d
  | none => .error .uninitialised

/-- Data are stored in a device, and gnhastd is told. -/
def storeAndUpdate (s : Ven) (dev : Nat) (data : Word) : Except Fault (Ven × List VenOut) := do
  let d ← deref s (some dev)
  let d := storeDataDev F .data data d
  let line ← gnUpdateDevice F d gncNoscale
  .ok ({ s with alldevs := s.alldevs.set dev d }, (line.map .gnhastd).toList)

/-- The loop over the devices when the scale has changed, for the devices at some positions: `dev` is the local variable of that name,
which is not the one of the loop. -/
def reregister (dev : Option Nat) : List Nat → Ven → Except Fault (Ven × List VenOut)
  | [], s => .ok (s, [])
  | i :: is, s => do
    let zdev ← deref s (some i)
    if zdev.subtype = subtypeTemp then
      let s := { s with alldevs := s.alldevs.set i { zdev with scale := s.tempscale.setWidth 8 } }
      let d ← deref s dev
      let (s, out) ← reregister dev is s
      .ok (s, ((gnRegisterDevice d).map .gnhastd).toList ++ out)
    else reregister dev is s

/-- One round of the loop through the query fields. -/
def queryField (token : List Jsmntok) (buf : Str) (qi : Queryinfo) (s : Ven) : Except Fault (Ven × List VenOut) := do
  if conf.ttype ≠ qi.residential then .ok (s, [])
  else
    let i ← jtokFindTokenVal token buf qi.name token.length
    if i = -1 then .ok (s, [])
    else
      match findDeviceByuid s (s.uid qi.name) with
      | none => .ok (s, [])
      | some dev =>
        let t ← tokAt token i.toNat
        storeAndUpdate F s dev (match qi.type with
          | .bool | .int => intWord beyond (jtokInt t buf)
          | .float => .dbl (jtokDouble F t buf))

/-- The loop through the query fields. -/
def queryFields (token : List Jsmntok) (buf : Str) : List Queryinfo → Ven → Except Fault (Ven × List VenOut)
  | [], s => .ok (s, [])
  | qi :: qis, s => do
    let (s, out) ← queryField F conf beyond token buf qi s
    let (s, out') ← queryFields token buf qis s
    .ok (s, out ++ out')

/-- The answer to `VEN_INFO`. The pointer `dev` has not been assigned when the devices are registered again. -/
def handleInfo (token : List Jsmntok) (buf : Str) (s : Ven) : Except Fault (Ven × List VenOut) := do
  let i ← jtokFindTokenVal token buf (str "name") token.length
  if i = -1 then .ok (s, [])
  else
    let t ← tokAt token i.toNat
    match jtokString t buf with
    | none => .error .nullString
    | some name =>
      if !sameCase name conf.name then .ok (s, [])
      else
        let i ← jtokFindTokenVal token buf (str "tempunits") token.length
        if i = -1 then .ok (s, [])
        else
          let t ← tokAt token i.toNat
          let val := jtokInt t buf
          let (s, out) ←
            if val ≠ s.tempscale then reregister none (List.range s.alldevs.length) { s with tempscale := val } else .ok (s, [])
          let (s, out') ← queryFields F conf beyond token buf queryinfo s
          .ok (s, out ++ out')

/-- The answer to `VEN_SENSORS`: only the sensor for the outdoors matters. -/
def handleSensors (token : List Jsmntok) (buf : Str) (s : Ven) : Except Fault (Ven × List VenOut) := do
  let i ← jtokFindTokenValNthArray token buf 1 (str "sensors") (str "temp") token.length
  if i = -1 then .ok (s, [])
  else
    let t ← tokAt token i.toNat
    match findDeviceByuid s (s.uid (str "outdoortemp")) with
    | none => .ok (s, [])
    | some dev => storeAndUpdate F s dev (.dbl (jtokDouble F t buf))

/-- The device for an alert. -/
def alertDevice (name : Str) : Option Str :=
  if name = str "Air Filter" then some (str "filteralarm")
  else if name = str "UV Lamp" then some (str "uvlampalarm")
  else if name = str "Service" then some (str "servicealarm")
  else none

/-- One round of the loop over the alerts. -/
def handleAlert (token : List Jsmntok) (buf : Str) (qi : Nat) (s : Ven) : Except Fault (Ven × List VenOut) := do
  let i ← jtokFindTokenValNthArray token buf qi (str "alerts") (str "name") token.length
  if i = -1 then .ok (s, [])
  else
    let t ← tokAt token i.toNat
    match jtokString t buf with
    | none => .error .nullString
    | some name =>
      match (alertDevice name).bind (fun n => findDeviceByuid s (s.uid n)) with
      | none => .ok (s, [])
      | some dev =>
        let i ← jtokFindTokenValNthArray token buf qi (str "alerts") (str "active") token.length
        if i = -1 then .ok (s, [])
        else
          let t ← tokAt token i.toNat
          storeAndUpdate F s dev (intWord beyond (jtokBool t buf))

/-- The answer to `VEN_ALERTS`: the first three alerts. -/
def handleAlerts (token : List Jsmntok) (buf : Str) (s : Ven) : Except Fault (Ven × List VenOut) := do
  let (s, out) ← handleAlert F beyond token buf 0 s
  let (s, out') ← handleAlert F beyond token buf 1 s
  let (s, out'') ← handleAlert F beyond token buf 2 s
  .ok (s, out ++ out' ++ out'')

/-- The answer to a change: when it succeeded the state is queried soon. -/
def handleControl (token : List Jsmntok) (buf : Str) (s : Ven) : Except Fault (Ven × List VenOut) := do
  let i ← jtokFindTokenVal token buf (str "success") token.length
  if i ≠ -1 then .ok (s, [.queryinfo])
  else
    let i ← jtokFindTokenVal token buf (str "reason") token.length
    if i = -1 then .ok (s, [])
    else
      let t ← tokAt token i.toNat
      match jtokString t buf with
      | none => .error .nullString
      | some _ => .ok (s, [])

/-- `request_cb`. -/
def requestCb (req : Option VenReq) (s : Ven) : Except Fault (Ven × List VenOut) :=
  match req with
  | none => .ok (s, [])
  | some req =>
    if req.responseCode ≠ httpOk ∨ req.body = [] then .ok (s, [])
    else
      match conf.jsmnParse req.body with
      | none => .ok (s, [])
      | some token =>
        if sameCase req.uri venInfo then handleInfo F conf beyond token req.body s
        else if sameCase req.uri venSensors then handleSensors F token req.body s
        else if sameCase req.uri venAlerts then handleAlerts F beyond token req.body s
        else if sameCase req.uri venControl || sameCase req.uri venSettings then handleControl token req.body s
        else .ok (s, [])

end Gnhast.Venstarcoll
