import Gnhast.Brulcoll
import Gnhast.Lib.Collect

/-!
# The devices of a Brultech

How `brulcoll/collector.c` sets up its devices from the answers of the monitor, and what it stores in them after a packet. The devices
are those of the collector's tree, by their uids. Left out are the log, the dump of the configuration, and the lines to gnhastd.
-/

namespace Gnhast.Brulcoll

open CStr Collect

/-! ## The ECM-1240 -/

/-- A `uint32_t` as it lies in memory. -/
abbrev Bytes4 : Type := Fin 4 → BitVec 8

/-- `ecm1240_t`. -/
structure Ecm1240 where
  header : Fin 2 → BitVec 8
  hformat : BitVec 8
  voltage : Bytes2
  channel : Fin 2 → Wattsec
  polar : Fin 2 → Wattsec
  res1 : Bytes4
  serial : Bytes2
  flag : BitVec 8
  devid : BitVec 8
  amps : Fin 2 → Bytes2
  seconds : Threebyte
  aux : Fin 5 → Bytes4
  dcin : Bytes2
  footer : Fin 2 → BitVec 8
  checksum : BitVec 8

/-- How it lies in memory. -/
def Ecm1240.layout : Layout (BitVec 8) Ecm1240 :=
  ((bytes 2).prod (Layout.byte.prod ((bytes 2).prod ((Layout.array 2 (bytes 5)).prod ((Layout.array 2 (bytes 5)).prod
    ((bytes 4).prod ((bytes 2).prod (Layout.byte.prod (Layout.byte.prod ((Layout.array 2 (bytes 2)).prod ((bytes 3).prod
    ((Layout.array 5 (bytes 4)).prod ((bytes 2).prod ((bytes 2).prod Layout.byte)))))))))))))).map
    (fun (header, hformat, voltage, channel, polar, res1, serial, flag, devid, amps, seconds, aux, dcin, footer, checksum) =>
      { header, hformat, voltage, channel, polar, res1, serial, flag, devid, amps, seconds, aux, dcin, footer, checksum })
    (fun g => (g.header, g.hformat, g.voltage, g.channel, g.polar, g.res1, g.serial, g.flag, g.devid, g.amps, g.seconds, g.aux,
      g.dcin, g.footer, g.checksum))
    (fun _ => rfl)

example : Ecm1240.layout.size = 65 := rfl

/-- `bswap32` -/
def bswap32 (x : BitVec 32) : BitVec 32 :=
  (x <<< 24 &&& 0xff000000#32) ||| (x <<< 8 &&& 0x00ff0000#32) ||| (x >>> 8 &&& 0x0000ff00#32) ||| (x >>> 24 &&& 0x000000ff#32)

/-- What a platform reads in four bytes. -/
def uint32 (littleE : Bool) (b : Bytes4) : BitVec 32 :=
  if littleE then b 3 ++ b 2 ++ b 1 ++ b 0 else b 0 ++ b 1 ++ b 2 ++ b 3

/-- `LETOH32` -/
def letoh32 (littleE : Bool) (x : BitVec 32) : BitVec 32 := if littleE then x else bswap32 x

/-- `brul_handle_ecm1240`: the first four of the five auxiliary counters follow the two channels. -/
def brulHandleEcm1240 (F : Doubles) (littleE : Bool) (b : Brul) : Brul :=
  let ecmdata := Ecm1240.layout.decode b.input
  let input := b.input.drop Ecm1240.layout.size
  if ecmdata.footer 0 ≠ 0xFF ∨ ecmdata.footer 1 ≠ 0xFE then { b with input }
  else
    { input, prev := b.cur
      cur := { b.cur with
        channel := fun i =>
          if h : i.val < 2 then convWattsec (ecmdata.channel ⟨i, h⟩)
          else if h : i.val < 6 then (letoh32 littleE (uint32 littleE (ecmdata.aux ⟨i - 2, by omega⟩))).setWidth 64
          else b.cur.channel i
        polar := fun i => if h : i.val < 2 then convWattsec (ecmdata.polar ⟨i, h⟩) else b.cur.polar i
        voltage := F.round ((betoh16 littleE (uint16 littleE ecmdata.voltage)).toNat / 10)
        seconds := (convThree ecmdata.seconds).setWidth 32
        serial := (letoh16 littleE (uint16 littleE ecmdata.serial)).setWidth 32 } }

/-! ## Setting up -/

/-- The collector: what it knows of the monitor, its packets, and its devices. -/
structure BrulColl where
  brulconf : Brulconf
  data : Brul
  devices : Str → Option Device

/-- What the devices are made from: `new_dev_from_conf` and `tempscale`. -/
structure BrulEnv where
  newDevFromConf : Str → Option Device
  tempscale : BitVec 8

/-- A uid: the serial number with eight digits, and what the device is. -/
def brulUid (serial : BitVec 32) (what : Str) : Str :=
  (if serial.toInt < 0 then [chMinus] else []) ++ padNat 8 serial.toInt.natAbs ++ chMinus :: what

/-- The uid of a device of a channel. -/
def channelUid (serial : BitVec 32) (kind : String) (i : Nat) : Str := brulUid serial (str kind ++ padNat 2 i)

/-- `insert_device`: a device whose uid is in the tree is not inserted. -/
def BrulColl.insertDevice (coll : BrulColl) (uid : Str) (dev : Device) : BrulColl :=
  match coll.devices uid with
  | some _ => coll
  | none => { coll with devices := Function.update coll.devices uid (some dev) }

/-- A device from the configuration, else a new one. -/
def BrulColl.addDevice (env : BrulEnv) (coll : BrulColl) (uid : Str) (subtype scale : BitVec 8) : BrulColl :=
  coll.insertDevice uid ((env.newDevFromConf uid).getD { uid := uid, proto := 5, type := 3, subtype := subtype, scale := scale })

/-- `BRUL_HANDLE_TST` and `BRUL_HANDLE_PST`. -/
inductive Probe
  | tst | pst
deriving Repr, DecidableEq

/-- How many probes there are, and from where the numbers go down. -/
def Probe.count : Probe → Nat
  | tst => 8
  | pst => 4

/-- The uid of a probe. -/
def Probe.uid (probe : Probe) (serial : BitVec 32) (t : Nat) : Str :=
  match probe with
  | tst => brulUid serial (str "t" ++ decNat t)
  | pst => brulUid serial (str "p" ++ decNat t)

/-- A probe is enabled, and its device made. -/
def BrulColl.enable (env : BrulEnv) (coll : BrulColl) (probe : Probe) (t : Nat) : BrulColl :=
  let uid := probe.uid coll.brulconf.serial t
  match probe with
  | .tst => { coll with brulconf.validtemp := coll.brulconf.validtemp + 1#32 <<< t }.addDevice env uid 3 env.tempscale
  | .pst => { coll with brulconf.validpulse := coll.brulconf.validpulse + 1#32 <<< t }.addDevice env uid 5 0

/-- The loop of `brul_handle_tstpst`, with the number of the next probe. -/
def tstpstLoop (env : BrulEnv) (probe : Probe) : Nat → Str → BrulColl → BrulColl
  | _, [], coll => coll
  | t, c :: data, coll =>
    if t = 0 ∨ c = chNul ∨ c = chCr ∨ c = chLf then coll
    else if c = 48 then tstpstLoop env probe (t - 1) data coll
    else tstpstLoop env probe (t - 1) data (coll.enable env probe t)

/-- `brul_handle_tstpst`. -/
def brulHandleTstpst (env : BrulEnv) (data : Str) (probe : Probe) (coll : BrulColl) : BrulColl :=
  tstpstLoop env probe probe.count data coll

/-- The answers to `RQSTST` and `RQSPST` in `brul_buf_read_cb`. -/
def brulAnswerTstpst (env : BrulEnv) (data : Str) (probe : Probe) (coll : BrulColl) : BrulColl :=
  brulHandleTstpst env data probe <|
    match probe with
    | .tst => { coll with brulconf.validtemp := 0 }
    | .pst => { coll with brulconf.validpulse := 0 }

/-- The two devices of a channel. -/
def BrulColl.addChannel (env : BrulEnv) (coll : BrulColl) (i : Nat) : BrulColl :=
  let coll := coll.addDevice env (channelUid coll.brulconf.serial "c" i) 14 0
  coll.addDevice env (channelUid coll.brulconf.serial "w" i) 15 0

/-- `brul_build_devices`. -/
def brulBuildDevices (env : BrulEnv) (channels amps : Nat) (coll : BrulColl) : BrulColl :=
  let coll := (List.range channels).foldl (BrulColl.addChannel env) coll
  let coll := (List.range amps).foldl (fun coll i => coll.addDevice env (channelUid coll.brulconf.serial "a" i) 16 0) coll
  let coll := coll.addDevice env (brulUid coll.brulconf.serial (str "sec")) 5 0
  coll.addDevice env (brulUid coll.brulconf.serial (str "volt")) 13 0

/-- The answer to `RQSCMX`. -/
def brulAnswerCmx (env : BrulEnv) (data : Str) (coll : BrulColl) : BrulColl :=
  let coll := { coll with brulconf.nrofchannels := atoi data }
  brulBuildDevices env coll.brulconf.nrofchannels.toInt.toNat 0 coll

/-! ## Storing -/

/-- What is stored in a device: a counter, a number, or the quotient of two differences. -/
inductive BrulVal
  | count (w : BitVec 64)
  | real (q : ℚ)
  | int (w : BitVec 32)
  | rate (wdiff sdelta : Int)
deriving Repr, DecidableEq

/-- A device that is found is updated. -/
structure BrulUpd where
  uid : Str
  val : BrulVal
deriving Repr, DecidableEq

/-- `find_device_byuid`, then a value. -/
def BrulColl.update (coll : BrulColl) (uid : Str) (val : BrulVal) : Option BrulUpd := (coll.devices uid).map fun _ => ⟨uid, val⟩

/-- An entry of one of the arrays of `bruldata`. -/
def channelAt (channel : Fin 48 → BitVec 64) (i : Nat) : Except Fault (BitVec 64) :=
  if h : i < 48 then .ok (channel ⟨i, h⟩) else .error .bufferOverflow

/-- What has elapsed on the counter of seconds, which is put together from three bytes. -/
def sdeltaOf (prev cur : Int) : Int := if prev > cur then 256 * 256 * 256 - prev + cur else cur - prev

/-- What a counter of watt seconds has counted. -/
def wdiffOf (prev cur : Int) : Int := if prev > cur then 256 * 256 * 256 * 256 * 256 - prev + cur else cur - prev

/-- The counter of a channel. -/
def calcCount (coll : BrulColl) (i : Nat) : Except Fault (Option BrulUpd) :=
  let uid := channelUid coll.brulconf.serial "c" i
  match coll.devices uid with
  | none => .ok none
  | some _ => (channelAt coll.data.cur.channel i).map fun w => coll.update uid (.count w)

/-- The watts of a channel. -/
def calcWatts (coll : BrulColl) (i : Nat) : Except Fault (Option BrulUpd) :=
  let uid := channelUid coll.brulconf.serial "w" i
  match coll.devices uid with
  | none => .ok none
  | some _ => do
    let prev ← channelAt coll.data.prev.channel i
    let cur ← channelAt coll.data.cur.channel i
    .ok (coll.update uid
      (.rate (wdiffOf prev.toInt cur.toInt) (sdeltaOf coll.data.prev.seconds.toInt coll.data.cur.seconds.toInt)))

/-- The probes whose bits are set. -/
def calcProbes {n : Nat} (coll : BrulColl) (probe : Probe) (valid : BitVec 32) (val : Fin n → BrulVal) : List BrulUpd :=
  (List.finRange n).filterMap fun (i : Fin n) => if valid.getLsbD i then coll.update (probe.uid coll.brulconf.serial i) (val i) else none

/-- `calc_devices`. -/
def calcDevices (coll : BrulColl) : Except Fault (List BrulUpd) := do
  let cur := coll.data.cur
  let channels := List.range coll.brulconf.nrofchannels.toInt.toNat
  let counts ← collect (calcCount coll) channels
  let upds := counts ++ calcProbes coll .tst coll.brulconf.validtemp (fun i => .real (cur.temp i)) ++
    calcProbes coll .pst coll.brulconf.validpulse (fun i => .int (cur.pulse i)) ++
    (coll.update (brulUid coll.brulconf.serial (str "volt")) (.real cur.voltage)).toList ++
    (coll.update (brulUid coll.brulconf.serial (str "sec")) (.int cur.seconds)).toList
  -- the first packet is not compared
  if coll.data.prev.seconds = 0 then .ok upds
  else do
    let watts ← collect (calcWatts coll) channels
    .ok (upds ++ watts)

/-! ## Packets -/

/-- The formats that `brul_buf_read_cb` has handlers for. -/
inductive Fmt
  | polar32 | polar48 | ecm1240
deriving Repr, DecidableEq

/-- A handler takes a packet from the buffer. -/
def Fmt.handle (F : Doubles) (littleE : Bool) (fmt : Fmt) (brulconf : Brulconf) (b : Brul) : Except Fault Brul :=
  match fmt with
  | polar32 => brulHandleType7 F littleE brulconf b
  | polar48 => brulHandleType5 F littleE brulconf b
  | ecm1240 => .ok (brulHandleEcm1240 F littleE b)

/-- The `switch` at the end of `brul_buf_read_cb`: behind an ECM-1240 nothing is calculated. -/
def brulPacket (F : Doubles) (littleE : Bool) (fmt : Fmt) (coll : BrulColl) : Except Fault (BrulColl × List BrulUpd) := do
  let data ← fmt.handle F littleE coll.brulconf coll.data
  let coll := { coll with data := data }
  match fmt with
  | .ecm1240 => .ok (coll, [])
  | _ => (calcDevices coll).map fun upds => (coll, upds)

end Gnhast.Brulcoll
