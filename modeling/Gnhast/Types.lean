import Gnhast.Lib.Double

/-!
# The data model

The enumerations of `gnhast.h`, the argument table of `netparser.c`, and the records a server keeps: devices, clients, groups
and alarms. Records are named by numbers that stand for their addresses. A field that may be a NULL pointer is an `Option`;
the two arrays of strings a device points to are an `Arr`, which also says whether the block was freed. Left out are fields
that no modelled function reads: the statistics counters other than `watched`, the addresses and names kept for the log,
`loc`, `localdata` and `last_upd`.
-/

namespace Gnhast

open CStr

-- the sizes of the small arrays whose elements are named by numerals
instance neZeroTwo : NeZero 2 := ⟨Nat.succ_ne_zero 1⟩
instance neZeroThree : NeZero 3 := ⟨Nat.succ_ne_zero 2⟩
instance neZeroFour : NeZero 4 := ⟨Nat.succ_ne_zero 3⟩
instance neZeroFive : NeZero 5 := ⟨Nat.succ_ne_zero 4⟩
instance neZeroNine : NeZero 9 := ⟨Nat.succ_ne_zero 8⟩

abbrev DevId : Type := Nat
abbrev ClientId : Type := Nat
abbrev GroupId : Type := Nat
abbrev WrapId : Type := Nat

/-- What stops the program in the middle of a handler. -/
inductive Fault
  /-- NULL where a string is read. -/
  | nullString
  /-- A pointer that was never assigned is followed. -/
  | uninitialised
  /-- A write behind the end of a local buffer. -/
  | bufferOverflow
  /-- A division by zero, or the remainder of the least `int` by minus one. -/
  | arithmetic
deriving Repr, DecidableEq

/-! ## Device types and subtypes -/

/-- `DEV_TYPES`; `other` is every number above `DEVICE_MAX`. -/
inductive DevType
  | none | switch | dimmer | sensor | timer | blind | other
deriving Repr, DecidableEq

/-- The type a `type` field denotes. -/
def DevType.ofByte (b : BitVec 8) : DevType :=
  match b.toNat with
  | 0 => .none
  | 1 => .switch
  | 2 => .dimmer
  | 3 => .sensor
  | 4 => .timer
  | 5 => .blind
  | _ => .other

/-- `SUBTYPE_TYPES`; `other` is every number above `SUBTYPE_MAX`. -/
inductive DevSubtype
  | none | switch | outlet | temp | humid | counter | pressure | speed | dir | ph | wetness | hub | lux | voltage | wattsec
  | watt | amps | rainrate | weather | alarmstatus | number | percentage | flowrate | distance | volume | timer | thmode
  | thstate | smnumber | blind | collector | trigger | orp | salinity | daylight | moonph | tristate | bool | other
deriving Repr, DecidableEq

/-- The subtype a `subtype` field denotes. -/
def DevSubtype.ofByte (b : BitVec 8) : DevSubtype :=
  match b.toNat with
  | 0 => .none
  | 1 => .switch
  | 2 => .outlet
  | 3 => .temp
  | 4 => .humid
  | 5 => .counter
  | 6 => .pressure
  | 7 => .speed
  | 8 => .dir
  | 9 => .ph
  | 10 => .wetness
  | 11 => .hub
  | 12 => .lux
  | 13 => .voltage
  | 14 => .wattsec
  | 15 => .watt
  | 16 => .amps
  | 17 => .rainrate
  | 18 => .weather
  | 19 => .alarmstatus
  | 20 => .number
  | 21 => .percentage
  | 22 => .flowrate
  | 23 => .distance
  | 24 => .volume
  | 25 => .timer
  | 26 => .thmode
  | 27 => .thstate
  | 28 => .smnumber
  | 29 => .blind
  | 30 => .collector
  | 31 => .trigger
  | 32 => .orp
  | 33 => .salinity
  | 34 => .daylight
  | 35 => .moonph
  | 36 => .tristate
  | 37 => .bool
  | _ => .other

def deviceSwitch : BitVec 8 := 1
def protoCollector : BitVec 8 := 12
def subtypeCollector : BitVec 8 := 30

/-- `COLLECTOR_TYPES`. -/
def collectorBad : BitVec 32 := 0
def collectorOk : BitVec 32 := 1

/-- `DATALOC_TYPES`. -/
inductive DataLoc
  | data | last | lowat | hiwat | change
deriving Repr, DecidableEq

/-- `DATATYPE_TYPES`. -/
inductive DataType
  | uint | double | ll
deriving Repr, DecidableEq

/-! ## Arguments of commands -/

/-- `PT_TYPES`, without the two that no entry of the argument table has. -/
inductive PtType
  | ptdouble | ptchar | ptint | ptuint | ptll
deriving Repr, DecidableEq

/-- The value an argument of each type carries. -/
abbrev PtType.Carrier : PtType → Type
  | .ptdouble => ℚ
  | .ptchar => Str
  | .ptint => BitVec 32
  | .ptuint => BitVec 32
  | .ptll => BitVec 64

/-- `SC_COMMANDS`: the keywords of arguments. -/
inductive Sc
  | uid | name | rate | rrdname | devtype | proto | subtype | switch | dimmer | temp | humid | lux | pressure | count | speed
  | dir | wetness | ph | voltage | wattsec | watt | amps | rainrate | client | scale | weather | hiwat | lowat | handler | hargs
  | tags | alarmstatus | number | percentage | flowrate | distance | volume | timer | thmode | thstate | smnumber | grouplist
  | devlist | collector | blind | alsev | altext | aluid | trigger | orp | salinity | alchan | spam | daylight | moonph | tristate
deriving Repr, DecidableEq

/-- An entry of the argument table. -/
structure Argtable where
  name : Str
  num : Sc
  type : PtType
deriving Repr, DecidableEq

/-- The argument to type mappings. -/
def argtable : List Argtable :=
  [⟨str "uid", .uid, .ptchar⟩, ⟨str "name", .name, .ptchar⟩, ⟨str "rate", .rate, .ptint⟩, ⟨str "rrdname", .rrdname, .ptchar⟩,
   ⟨str "devt", .devtype, .ptint⟩, ⟨str "proto", .proto, .ptint⟩, ⟨str "subt", .subtype, .ptint⟩,
   ⟨str "switch", .switch, .ptint⟩, ⟨str "dimmer", .dimmer, .ptdouble⟩, ⟨str "temp", .temp, .ptdouble⟩,
   ⟨str "humid", .humid, .ptdouble⟩, ⟨str "lux", .lux, .ptdouble⟩, ⟨str "pres", .pressure, .ptdouble⟩,
   ⟨str "speed", .speed, .ptdouble⟩, ⟨str "dir", .dir, .ptdouble⟩, ⟨str "count", .count, .ptuint⟩,
   ⟨str "wet", .wetness, .ptdouble⟩, ⟨str "ph", .ph, .ptdouble⟩, ⟨str "wsec", .wattsec, .ptll⟩,
   ⟨str "volts", .voltage, .ptdouble⟩, ⟨str "watt", .watt, .ptdouble⟩, ⟨str "amps", .amps, .ptdouble⟩,
   ⟨str "rain", .rainrate, .ptdouble⟩, ⟨str "client", .client, .ptchar⟩, ⟨str "scale", .scale, .ptint⟩,
   ⟨str "weather", .weather, .ptint⟩, ⟨str "hiwat", .hiwat, .ptdouble⟩, ⟨str "lowat", .lowat, .ptdouble⟩,
   ⟨str "handler", .handler, .ptchar⟩, ⟨str "hargs", .hargs, .ptchar⟩, ⟨str "tags", .tags, .ptchar⟩,
   ⟨str "flow", .flowrate, .ptdouble⟩, ⟨str "distance", .distance, .ptdouble⟩, ⟨str "alarm", .alarmstatus, .ptint⟩,
   ⟨str "number", .number, .ptll⟩, ⟨str "pct", .percentage, .ptdouble⟩, ⟨str "volume", .volume, .ptdouble⟩,
   ⟨str "timer", .timer, .ptuint⟩, ⟨str "thmode", .thmode, .ptint⟩, ⟨str "thstate", .thstate, .ptint⟩,
   ⟨str "smnum", .smnumber, .ptint⟩, ⟨str "glist", .grouplist, .ptchar⟩, ⟨str "dlist", .devlist, .ptchar⟩,
   ⟨str "collector", .collector, .ptint⟩, ⟨str "blind", .blind, .ptint⟩, ⟨str "alsev", .alsev, .ptint⟩,
   ⟨str "altext", .altext, .ptchar⟩, ⟨str "aluid", .aluid, .ptchar⟩, ⟨str "trigger", .trigger, .ptuint⟩,
   ⟨str "orp", .orp, .ptdouble⟩, ⟨str "salinity", .salinity, .ptdouble⟩, ⟨str "alchan", .alchan, .ptuint⟩,
   ⟨str "spamhandler", .spam, .ptint⟩, ⟨str "daylight", .daylight, .ptint⟩, ⟨str "tristate", .tristate, .ptint⟩,
   ⟨str "moonph", .moonph, .ptdouble⟩]

/-- The type the argument table gives a keyword (`argtable_type`). -/
abbrev Sc.type : Sc → PtType
  | .dimmer | .temp | .humid | .lux | .pressure | .speed | .dir | .wetness | .ph | .voltage | .watt | .amps | .rainrate
  | .hiwat | .lowat | .flowrate | .distance | .percentage | .volume | .orp | .salinity | .moonph => .ptdouble
  | .uid | .name | .rrdname | .client | .handler | .hargs | .tags | .grouplist | .devlist | .altext | .aluid => .ptchar
  | .count | .timer | .trigger | .alchan => .ptuint
  | .wattsec | .number => .ptll
  | .rate | .devtype | .proto | .subtype | .switch | .scale | .weather | .alarmstatus | .thmode | .thstate | .smnumber
  | .collector | .blind | .alsev | .spam | .daylight | .tristate => .ptint

/-- An argument: its keyword, and a value of the type the table gives the keyword. -/
structure PArg where
  cword : Sc
  arg : cword.type.Carrier

/-- The value an argument carries, when it has the keyword. -/
def PArg.as (k : Sc) (a : PArg) : Option k.type.Carrier :=
  if h : a.cword = k then some (h ▸ a.arg) else none

/-- What a loop over the arguments that keeps the value of one keyword ends with: its last occurrence. -/
def lastArg (k : Sc) : List PArg → Option k.type.Carrier
  | [] => none
  | a :: args =>
    match lastArg k args with
    | some v => some v
    | none => a.as k

/-- `find_arg_byid`. -/
def findArgById (id : Sc) : Option Argtable := argtable.find? (fun e => e.num = id)

/-- `ARGNM`: the name of a keyword. -/
def argnm (id : Sc) : Str :=
  match findArgById id with
  | some e => e.name
  | none => str "fail"

theorem argtable_type : ∀ e ∈ argtable, e.type = e.num.type := by
  decide

@[simp] theorem PArg.as_self (k : Sc) (v : k.type.Carrier) : (PArg.mk k v).as k = some v := by
  simp [PArg.as]

theorem PArg.as_of_ne {a : PArg} {k : Sc} (h : a.cword ≠ k) : a.as k = none := by
  simp [PArg.as, h]

/-! ## Device data -/

/-- The storage union: a double, or anything else as its 64 bits. -/
inductive Word
  | raw (w : BitVec 64)
  | dbl (q : ℚ)
deriving Repr, DecidableEq

instance : Inhabited Word := ⟨.raw 0⟩

/-- The members of `data_t` by the type of their values. -/
inductive Member
  | state | count | ll | d
deriving Repr, DecidableEq

namespace Word

/-- The word as 64 bits. -/
def bits (F : Doubles) : Word → BitVec 64
  | raw w => w
  | dbl q => F.toBits q

/-- The word read as a `double`. -/
def double (F : Doubles) : Word → ℚ
  | raw w => F.ofBits w
  | dbl q => q

/-- The word read as an `uint32_t`. -/
def uint (F : Doubles) (w : Word) : BitVec 32 := (w.bits F).setWidth 32

/-- The word read as an `int64_t`. -/
def int64 (F : Doubles) (w : Word) : BitVec 64 := w.bits F

/-- Assigning one member of a word: the bytes behind the member stay as they are. -/
def assign (F : Doubles) (m : Member) (dst src : Word) : Word :=
  match m with
  | .state => raw ((dst.bits F &&& ~~~0xff#64) ||| (src.bits F &&& 0xff#64))
  | .count => raw ((dst.bits F &&& ~~~0xffffffff#64) ||| (src.bits F &&& 0xffffffff#64))
  | .ll => src
  | .d => src

end Word

/-! ## Records -/

/-- A pointer to an allocated array. -/
inductive Arr (α : Type)
  | null
  | block (items : List α)
  | freed
deriving Repr, DecidableEq

instance {α : Type} : Inhabited (Arr α) := ⟨.null⟩

/-- The entries below the counter that goes with the array. -/
def Arr.items {α : Type} : Arr α → List α
  | .block xs => xs
  | _ => []

/-- A slot of the tags array: an allocated string, the string constant that fills up an odd list, or a slot never written. -/
inductive Tag
  | text (s : Str)
  | junk
  | unset
deriving Repr, DecidableEq

/-- The string a slot holds, if it was written. -/
def Tag.str? : Tag → Option Str
  | .text s => some s
  | .junk => some (str "junk")
  | .unset => none

/-- `device_t`. -/
structure Device where
  uid : Str
  name : Option Str := none
  rrdname : Option Str := none
  proto : BitVec 8 := 0
  type : BitVec 8 := 0
  subtype : BitVec 8 := 0
  scale : BitVec 8 := 0
  data : Word := .raw 0
  last : Word := .raw 0
  lowat : Word := .raw 0
  hiwat : Word := .raw 0
  change : Word := .raw 0
  collector : Option ClientId := none
  handler : Option Str := none
  hargs : Arr Str := .null
  tags : Arr Tag := .null
  onqClient : Bool := false
  onqAll : Bool := false
  spamhandler : Bool := false
  nodata : Bool := false
  changehandler : Bool := false
  watchers : List ClientId := []
deriving Repr, DecidableEq, Inhabited

/-- The type of a device. -/
def Device.devType (dev : Device) : DevType := .ofByte dev.type

/-- The subtype of a device. -/
def Device.devSubtype (dev : Device) : DevSubtype := .ofByte dev.subtype

/-- The entry of a client's list of feeds. -/
structure WrapFeed where
  dev : DevId
  rate : BitVec 32
  scale : BitVec 32
  lastFired : Int := 0
deriving Repr, DecidableEq

/-- `client_t`. -/
structure Client where
  provider : Bool := false
  devices : List DevId := []
  wdevices : List WrapFeed := []
  tev : Bool := false
  /-- The seconds that `event_add` has armed `tev` with. -/
  tevSecs : BitVec 32 := 0
  timerGcd : BitVec 32 := 0
  closeOnEmpty : Bool := false
  host : Option Str := none
  watched : BitVec 32 := 0
  lastupd : Int := 0
  alarmwatch : BitVec 32 := 0
  alchan : BitVec 32 := 0
  collDev : Option DevId := none
deriving Repr, DecidableEq, Inhabited

/-- The `wrap_device_t` of a group's member list. -/
structure WrapDevice where
  wrap : WrapId
  dev : DevId
deriving Repr, DecidableEq

/-- `wrap_group_t`. -/
structure WrapGroup where
  wrap : WrapId
  group : GroupId
deriving Repr, DecidableEq

/-- `device_group_t`. -/
structure Group where
  uid : Str
  name : Option Str := none
  subgroup : Int := 0
  members : List WrapDevice := []
  children : List WrapGroup := []
deriving Repr, DecidableEq, Inhabited

/-- `alarm_t`. -/
structure Alarm where
  aluid : Str
  altext : Str
  alsev : BitVec 32
  alchan : BitVec 32
deriving Repr, DecidableEq

/-- The memory of `gnhastd`: the records by address with the next free addresses, the global lists, and the two trees as the
finite maps they implement. -/
structure Server where
  dev : DevId → Device := fun _ => default
  nextDev : Nat := 0
  alldevs : List DevId := []
  devices : Str → Option DevId := fun _ => none
  nrofdevs : Nat := 0
  group : GroupId → Group := fun _ => default
  nextGroup : Nat := 0
  allgroups : List GroupId := []
  devgroups : Str → Option GroupId := fun _ => none
  nextWrap : Nat := 0
  client : ClientId → Client := fun _ => default
  nextClient : Nat := 0
  clients : List ClientId := []
  alarms : List Alarm := []

/-- What a step shows to the outside, in order. -/
inductive Out
  /-- A line is written to a client. -/
  | write (c : ClientId) (line : Str)
  /-- A list entry is read after it was freed. -/
  | freedRead (w : WrapId)
  /-- A pointer is freed that does not point to a live block. -/
  | badFree
  /-- The device configuration file is written. -/
  | devconfDump
deriving Repr, DecidableEq

/-- What the environment decides about one step: the time, whether a handler can be started, what lies in memory behind an
integer whose address is passed on, and the first contents of the local variables of `device_watermark`. -/
structure Env where
  now : Int := 0
  starts : Str → Bool := fun _ => false
  beyond : BitVec 64 := 0
  stack : DataLoc → Word := fun _ => .raw 0

/-- What a handler leaves: the memory, the effects, and the value it returns (none where it returns without one). -/
structure Reply where
  srv : Server
  out : List Out := []
  ret : Option Int := some 0

namespace Server

/-- Writing fields of a device. -/
def modDev (s : Server) (d : DevId) (f : Device → Device) : Server :=
  { s with dev := Function.update s.dev d (f (s.dev d)) }

/-- Writing fields of a client. -/
def modClient (s : Server) (c : ClientId) (f : Client → Client) : Server :=
  { s with client := Function.update s.client c (f (s.client c)) }

/-- Writing fields of a group. -/
def modGroup (s : Server) (g : GroupId) (f : Group → Group) : Server :=
  { s with group := Function.update s.group g (f (s.group g)) }

end Server

end Gnhast
