import Gnhast.Gncoll

/-!
# The alarm collector

What `alarmcoll/collector.c` does with its watch table: reading it from the rows of a CSV file (`parse_csv`), and testing the rows of
a device when the device is updated (`coll_upd_cb`). The rows come from the CSV reader as lists of fields. A message to gnhastd is kept
beside the row it is about; the device records are kept as of their last update. Left out are the log, and the times that only
`collector_is_ok` reads.
-/

namespace Gnhast.Alarmcoll

open CStr

/-! ## Watches -/

/-- `SET_FLAG`. -/
def setFlag (xyz : BitVec 32) (p : Nat) : BitVec 32 := xyz ||| 1#32 <<< (p % 32)

/-- `CLEAR_FLAG`. -/
def clearFlag (xyz : BitVec 32) (p : Nat) : BitVec 32 := xyz &&& ~~~(1#32 <<< (p % 32))

/-- `QUERY_FLAG`. -/
def queryFlag (xyz : BitVec 32) (p : Nat) : Bool := xyz &&& 1#32 <<< (p % 32) != 0

/-- `WTYPES`. -/
inductive Wtype
  | gt | lt | gte | lte | eq | ne | jitter | and | or | handler
deriving Repr, DecidableEq

/-- The position of a watch type's flag. -/
def Wtype.num : Wtype → Nat
  | .gt => 0
  | .lt => 1
  | .gte => 2
  | .lte => 3
  | .eq => 4
  | .ne => 5
  | .jitter => 6
  | .and => 7
  | .or => 8
  | .handler => 9

/-- `watch_t`, zero where nothing was stored. -/
structure Watch where
  uid : Option Str := none
  wtype : BitVec 32 := 0
  sev : BitVec 32 := 0
  channel : BitVec 32 := 0
  aluid : Option Str := none
  msg : Option Str := none
  val : Word := .raw 0
  fired : Bool := false
  lastchg : Int := 0
  threshold : BitVec 32 := 0
  comparison : Int := 0
  handler : Option Str := none
deriving Repr, DecidableEq, Inhabited

/-- The watch has a type. -/
def Watch.is (watch : Watch) (p : Wtype) : Bool := queryFlag watch.wtype p.num

/-- A call of `gn_setalarm`, and the row it is about. -/
structure Setalarm where
  row : Nat
  aluid : Option Str
  msg : Option Str
  sev : BitVec 32
  channel : BitVec 32
deriving Repr, DecidableEq

/-- The memory of the collector, with the messages it sent and the commands it ran. -/
structure Coll where
  watched : List Watch := []
  devices : Str → Option Device := fun _ => none
  sent : List Setalarm := []
  ran : List Str := []

/-- The fired flag of a row of the table. -/
def Coll.rowFired (coll : Coll) (row : Nat) : Bool :=
  match coll.watched[row]? with
  | some watch => watch.fired
  | none => false

/-! ## Reading the table -/

def chLt : Byte := 60
def chEq : Byte := 61
def chGt : Byte := 62
def chAmp : Byte := 38
def chBar : Byte := 124
def chJ : Byte := 74
def chH : Byte := 72

/-- One character of a watch type. -/
def parseWtypeChar (numfields : Nat) (wtype : BitVec 32) (c : Byte) : BitVec 32 :=
  if c = chGt then
    if queryFlag wtype Wtype.lt.num then setFlag wtype Wtype.ne.num else setFlag wtype Wtype.gt.num
  else if c = chLt then
    if queryFlag wtype Wtype.gt.num then setFlag wtype Wtype.ne.num else setFlag wtype Wtype.lt.num
  else if c = chEq then
    if queryFlag wtype Wtype.lt.num then setFlag (clearFlag wtype Wtype.lt.num) Wtype.lte.num
    else if queryFlag wtype Wtype.gt.num then setFlag (clearFlag wtype Wtype.gt.num) Wtype.gte.num
    else setFlag wtype Wtype.eq.num
  else if c = chJ then setFlag wtype Wtype.jitter.num
  else if c = chAmp then
    if queryFlag wtype Wtype.or.num then wtype
    else if numfields < 8 then wtype else setFlag wtype Wtype.and.num
  else if c = chBar then
    if queryFlag wtype Wtype.and.num then wtype
    else if numfields < 8 then wtype else setFlag wtype Wtype.or.num
  else if c = chH then
    if numfields < 9 then wtype else setFlag wtype Wtype.handler.num
  -- the number of the type is added, not its flag
  else wtype + BitVec.ofNat 32 Wtype.gt.num

/-- `parse_wtype`; the threshold it may set is in `jitterThreshold`. -/
def parseWtype (field : Str) (numfields : Nat) : BitVec 32 := field.foldl (parseWtypeChar numfields) 0

/-- The threshold `parse_wtype` stores in a row for a jitter without a timespan. -/
def jitterThreshold (field : Str) (numfields : Nat) : BitVec 32 :=
  if chJ ∈ field ∧ numfields < 7 then 3600 else 0

/-- `find_row_by_aluid`, from a row on: a row that is not parsed has no name to compare. -/
def findRowFrom (aluid : Str) : Int → List Watch → Except Fault Int
  | _, [] => .ok (-1)
  | i, watch :: watched =>
    match watch.aluid with
    | none => .error .nullString
    | some a => if a = aluid then .ok i else findRowFrom aluid (i + 1) watched

/-- `find_row_by_aluid`. -/
def findRowByAluid (aluid : Str) (watched : List Watch) : Except Fault Int := findRowFrom aluid 0 watched

/-- What follows the integer numeral a string opens with, when it opens with one: where `strtoll` leaves its end pointer. -/
def strtolRest (s : Str) : Option Str :=
  let digits := (scanSign (s.dropWhile isspace)).2
  if digits.takeWhile isdigit = [] then none else some (digits.dropWhile isdigit)

/-- The numeral a string opens with fits into 64 bits. -/
def strtolInRange (s : Str) : Bool :=
  let p := scanInt s
  if p.1 then p.2 ≤ 2 ^ 63 else p.2 < 2 ^ 63

/-- `strtou32`: anything else than 32 bits gives the bound. -/
def strtou32 (s : Str) : BitVec 32 :=
  if 0 ≤ strtol s ∧ strtol s < 2 ^ 32 then BitVec.ofInt 32 (strtol s) else BitVec.allOnes 32

variable (F : Doubles)

/-- The value of a row: an integer of 32 bits, else one of 64 bits, else a double. -/
def parseVal (field : Str) : Word :=
  if strtolRest field ≠ some [] then .dbl (F.strtod field)
  else if 0 ≤ strtol field ∧ strtol field < 2 ^ 32 then .raw ((strtou32 field).setWidth 64)
  else if strtolInRange field then .raw (BitVec.ofInt 64 (strtol field))
  else .dbl (F.strtod field)

/-- The channels of a row: none for a number that is no channel. -/
def parseChannel (field : Str) : BitVec 32 :=
  let alchan := atoi field
  if 31 < alchan.toInt ∨ alchan.toInt < 0 then 0 else setFlag 0 alchan.toNat

/-- The timespan of a jitter row with an eighth field; its value records the data. -/
def parseSpan (field : Option Str) (watch : Watch) : Watch :=
  match field with
  | some span =>
    if watch.is .jitter then { watch with threshold := strtou32 span, val := watch.val.assign F .count (.raw 0) } else watch
  | none => watch

/-- The comparison row of a row with a ninth field; without such a row the types are cleared. -/
def parseComparison (watched : List Watch) (field : Option Str) (watch : Watch) : Except Fault Watch :=
  match field with
  | none => .ok watch
  | some field =>
    if watch.is .and || watch.is .or then
      (findRowByAluid field watched).map fun row =>
        if row = -1 then
          { watch with comparison := row, wtype := clearFlag (clearFlag watch.wtype Wtype.and.num) Wtype.or.num }
        else { watch with comparison := row }
    else .ok watch

/-- One row of the loop of `parse_csv`. -/
def parseRow (now : Int) (crow : Nat) (row : List Str) (watched : List Watch) : Except Fault (List Watch) :=
  match row with
  | uid :: wtype :: sev :: alchan :: aluid :: msg :: rest =>
    -- the seventh field is read whether the row has one or not
    match rest[0]? with
    | none => .error .uninitialised
    | some val =>
      let watch := parseSpan F rest[1]?
        { uid := some uid, wtype := parseWtype wtype row.length, sev := atoi sev, channel := parseChannel alchan,
          aluid := some aluid, msg := some msg, val := parseVal F val, threshold := jitterThreshold wtype row.length }
      (parseComparison (watched.set crow watch) rest[2]? watch).map fun watch =>
        watched.set crow
          { watch with handler := if watch.is .handler then rest[3]? else none, lastchg := now, fired := false }
  | _ => .ok watched

/-- The loop of `parse_csv`. -/
def parseRows (now : Int) : Nat → List (List Str) → List Watch → Except Fault (List Watch)
  | _, [], watched => .ok watched
  | crow, row :: rows, watched => (parseRow F now crow row watched).bind fun watched => parseRows now (crow + 1) rows watched

/-- `parse_csv`, on the rows of the file: the table that it leaves in `watched`. -/
def parseCsv (now : Int) (rows : List (List Str)) : Except Fault (List Watch) :=
  parseRows F now 0 rows (List.replicate rows.length {})

/-! ## Updates -/

/-- A comparison of C. -/
def compares {α : Type} [LinearOrder α] (test : Wtype) (a b : α) : Bool :=
  match test with
  | .gt => decide (b < a)
  | .lt => decide (a < b)
  | .gte => decide (b ≤ a)
  | .lte => decide (a ≤ b)
  | .eq => decide (a = b)
  | .ne => decide (a ≠ b)
  | .jitter | .and | .or | .handler => false

/-- `TEST_DATATYPE`. -/
def testDatatype (test : Wtype) (dt : DataType) (data val : Word) : Bool :=
  match dt with
  | .double => compares test (data.double F) (val.double F)
  | .uint => compares test (data.uint F).toNat (val.uint F).toNat
  | .ll => compares test (data.int64 F).toInt (val.int64 F).toInt

/-- The local of `coll_upd_cb` once the data of the device is read into it. -/
def updData (stack : Word) (dev : Device) : Word :=
  let data := getDataDev F dev .data stack
  if dev.devType = .switch ∨ dev.devSubtype = .switch ∨ dev.devSubtype = .outlet ∨ dev.devSubtype = .collector ∨
      dev.devSubtype = .smnumber ∨ dev.devSubtype = .alarmstatus ∨ dev.devSubtype = .daylight ∨ dev.devSubtype = .weather then
    data.assign F .count (.raw (((data.bits F).setWidth 8).setWidth 64))
  else data

/-- The simple tests: the first type a watch has in the order of the code, but for jitter. -/
def simpleTest (dt : DataType) (data : Word) (watch : Watch) : Bool :=
  if watch.is .gt then testDatatype F .gt dt data watch.val
  else if watch.is .lt then testDatatype F .lt dt data watch.val
  else if watch.is .eq then testDatatype F .eq dt data watch.val
  else if watch.is .lte then testDatatype F .lte dt data watch.val
  else if watch.is .gte then testDatatype F .gte dt data watch.val
  else if watch.is .ne then testDatatype F .ne dt data watch.val
  else false

/-- The test that a watch has comes before the jitter test. -/
def Watch.isSimple (watch : Watch) : Bool :=
  watch.is .gt || watch.is .lt || watch.is .eq || watch.is .lte || watch.is .gte || watch.is .ne

/-- The first part of the loop of `coll_upd_cb`: the watch, and whether it fires. -/
def simpleTests (now : Int) (dev : Device) (dt : DataType) (data : Word) (watch : Watch) : Watch × Bool :=
  if !watch.isSimple && watch.is .jitter then
    if testDatatype F .eq dt data watch.val then (watch, decide (now - watch.lastchg > watch.threshold.toNat))
    else ({ watch with val := dev.data, lastchg := now }, false)
  else (watch, simpleTest F dt data watch)

/-- The second part: the row may depend on its comparison row. -/
def complexTests (watch : Watch) (comparison fired : Bool) : Bool :=
  let fired := if watch.is .or && comparison then true else fired
  if watch.is .and then fired && comparison else fired

/-- The last part: the handler is run, and a change is told to gnhastd; an alarm of severity zero is not set, but cleared. -/
def Coll.report (coll : Coll) (row : Nat) (watch : Watch) (fired : Bool) : Coll :=
  let coll :=
    match watch.handler with
    | some handler => if watch.is .handler && fired then { coll with ran := coll.ran ++ [handler] } else coll
    | none => coll
  let tell (sev : BitVec 32) : Setalarm :=
    { row := row, aluid := watch.aluid, msg := watch.msg, sev := sev, channel := watch.channel }
  { coll with
    watched := coll.watched.set row { watch with fired := fired }
    sent := coll.sent ++
      if fired && !watch.fired then (if watch.sev ≠ 0 then [tell watch.sev] else [])
      else if watch.fired && !fired then [tell 0] else [] }

/-- One row of the loop of `coll_upd_cb`. -/
def updRow (now : Int) (dev : Device) (data : Word) (coll : Coll) (row : Nat) : Except Fault Coll :=
  match coll.watched[row]? with
  | none => .ok coll
  | some watch =>
    match watch.uid with
    | none => .error .nullString
    | some uid =>
      if uid ≠ dev.uid then .ok coll
      else
        let (watch, fired) := simpleTests F now dev (datatypeDev dev) data watch
        .ok (coll.report row watch (complexTests watch (coll.rowFired watch.comparison.toNat) fired))

/-- `coll_upd_cb`, on a stack with the given contents, for a device whose record is as given. -/
def collUpdCb (now : Int) (stack : Word) (dev : Device) (coll : Coll) : Except Fault Coll :=
  let coll := { coll with devices := Function.update coll.devices dev.uid (some dev) }
  (List.range coll.watched.length).foldlM (updRow F now dev (updData F stack dev)) coll

end Gnhast.Alarmcoll
