import Gnhast.Alarms
import Gnhast.Gncoll

/-!
# The commands of the server

Every handler of `cmdhandler.c`, in the order of the file, and `run_handler_dev`. A handler gets the arguments of a line, the
client the line came from and the memory, and either stops with a fault or leaves a reply. Where the source loops over the
arguments and keeps the last value of a keyword, `lastArg` is that loop.
-/

namespace Gnhast

open CStr

/-! ## From `common.c` -/

/-- `mk_rrdname`: the first 19 letters, digits and underscores. -/
def mkRrdname (orig : Str) : Str := (orig.filter (fun c => isalpha c || c == 95 || isdigit c)).take 19

/-- `gcd` on `int`: the remainder of the least `int` by minus one does not fit. -/
def gcd (a b : Int) : Except Fault Int :=
  if h : a = 0 then .ok b
  else if a = -1 ∧ b = -2 ^ 31 then .error .arithmetic
  else gcd (b.tmod a) a
termination_by a.natAbs
decreasing_by
  rw [Int.natAbs_tmod]
  exact Nat.mod_lt _ (Int.natAbs_pos.mpr h)

/-! ## Helpers -/

variable (F : Doubles)

/-- A line that was printed goes to a client. -/
def emit (c : ClientId) (line : Option Str) : List Out :=
  match line with
  | some l => [.write c l]
  | none => []

/-- An `int` in memory: what is read behind it is not known. -/
def intWord (env : Env) (i : BitVec 32) : Word := .raw ((env.beyond &&& 0xffffffff00000000#64) ||| i.setWidth 64)

/-- The data an argument carries for a device, by the member of the argument that is used. -/
inductive DataArg
  | i (v : BitVec 32)
  | d (v : ℚ)
  | u (v : BitVec 32)
  | ll (v : BitVec 64)

/-- The switch of `cmd_update` and `cmd_change` over the keywords: which arguments carry data, and of which type. -/
def PArg.dataArg : PArg → Option DataArg
  | ⟨.switch, v⟩ | ⟨.weather, v⟩ | ⟨.alarmstatus, v⟩ | ⟨.thmode, v⟩ | ⟨.thstate, v⟩ | ⟨.smnumber, v⟩ | ⟨.collector, v⟩
  | ⟨.blind, v⟩ | ⟨.daylight, v⟩ | ⟨.tristate, v⟩ => some (.i v)
  | ⟨.lux, v⟩ | ⟨.humid, v⟩ | ⟨.temp, v⟩ | ⟨.dimmer, v⟩ | ⟨.pressure, v⟩ | ⟨.speed, v⟩ | ⟨.dir, v⟩ | ⟨.ph, v⟩ | ⟨.wetness, v⟩
  | ⟨.voltage, v⟩ | ⟨.watt, v⟩ | ⟨.amps, v⟩ | ⟨.percentage, v⟩ | ⟨.flowrate, v⟩ | ⟨.distance, v⟩ | ⟨.volume, v⟩ | ⟨.orp, v⟩
  | ⟨.salinity, v⟩ | ⟨.moonph, v⟩ => some (.d v)
  | ⟨.count, v⟩ | ⟨.timer, v⟩ | ⟨.trigger, v⟩ => some (.u v)
  | ⟨.wattsec, v⟩ | ⟨.number, v⟩ => some (.ll v)
  | _ => none

/-- The argument as it lies in memory; the argument array is zeroed when it is allocated. -/
def DataArg.word : DataArg → Word
  | .i v => .raw (v.setWidth 64)
  | .d v => .dbl v
  | .u v => .raw (v.setWidth 64)
  | .ll v => .raw v

/-- The argument as `cmd_change` prints it. -/
def DataArg.text : DataArg → Str
  | .i v => fmtD v
  | .d v => fmtF v
  | .u v => fmtD v
  | .ll v => fmtJd v

/-! ## Handlers -/

/-- `run_handler_dev`: a handler that can be started becomes a client and is told the device's state. -/
def runHandlerDev (env : Env) (d : DevId) (s : Server) : Except Fault (Server × List Out) :=
  match (s.dev d).handler with
  | none => .ok (s, [])
  | some handler =>
    if env.starts handler then
      let c := s.nextClient
      (gnUpdateDevice F (s.dev d) (gncUpdName ||| gncUpdRrdname)).map fun line =>
        ({ s with client := Function.update s.client c {}, nextClient := c + 1, clients := s.clients ++ [c] }, emit c line)
    else .ok (s, [])

/-- The data of a line stored in a device, one argument after the other. -/
def storeArgs (args : List PArg) (dev : Device) : Device :=
  (args.filterMap PArg.dataArg).foldl (fun dev a => storeDataDev F .data a.word dev) dev

/-- The update of a device sent to each client of a list. -/
def updateEach (dev : Device) (what : BitVec 32) (cs : List ClientId) : Except Fault (List Out) :=
  (gnUpdateDevice F dev what).map fun line => cs.flatMap fun c => emit c line

/-- The handler of an updated device runs when the device is beyond a watermark, and always on the first update. -/
def runHandlerOnUpdate (env : Env) (d : DevId) (hadnodata : Bool) (s : Server) : Except Fault (Server × List Out) :=
  if (s.dev d).handler ≠ none ∧ (deviceWatermark F env.stack (s.dev d) ≠ 0 ∨ hadnodata = true) then runHandlerDev F env d s
  else .ok (s, [])

/-- `cmd_update`. -/
def cmdUpdate (env : Env) (args : List PArg) (_client : ClientId) (s : Server) : Except Fault Reply :=
  match (lastArg .uid args : Option Str) with
  | none => .ok { srv := s, ret := some (-1) }
  | some uid =>
    match s.findDeviceByUid uid with
    | none => .ok { srv := s, ret := some (-1) }
    | some d => do
      let hadnodata := (s.dev d).nodata
      let (s, out) ← runHandlerOnUpdate F env d hadnodata (s.modDev d (storeArgs F args))
      let told ← updateEach F (s.dev d) gncUpdRrdname (s.dev d).watchers
      return { srv := s, out := out ++ told }

/-- The text `cmd_change` prints for an argument. -/
def changeText (a : PArg) : Str :=
  match a.dataArg with
  | some v => str " " ++ field a.cword v.text
  | none => []

/-- What `cmd_change` stores of the arguments: those with a double. -/
def storeChange (args : List PArg) (dev : Device) : Device :=
  (args.filterMap PArg.dataArg).foldl
    (fun dev a => match a with | .d v => storeDataDev F .data (.dbl v) dev | _ => dev) dev

/-- `cmd_change`. -/
def cmdChange (args : List PArg) (_client : ClientId) (s : Server) : Reply :=
  match (lastArg .uid args : Option Str) with
  | none => { srv := s, ret := some (-1) }
  | some uid =>
    match s.findDeviceByUid uid with
    | none => { srv := s, ret := some (-1) }
    | some d =>
      let send := str "chg " ++ field .uid (s.dev d).uid ++ args.flatMap changeText
      let s := s.modDev d (storeChange F args)
      match (s.dev d).collector with
      | none => { srv := s, ret := some (-1) }
      | some c => { srv := s, out := [.write c (send ++ [chLf])] }

/-- The low byte of an `int` argument, zero when it is missing. -/
def byteArg (k : Option (BitVec 32)) : BitVec 8 := (k.getD 0).setWidth 8

/-- The end of `cmd_register`: the device goes to the client that registered it, and on the client's list unless it is on a
list already. -/
def claimDevice (s : Server) (d : DevId) (client : ClientId) : Server :=
  let s := s.modDev d fun dev => { dev with collector := some client }
  let s := if (s.client client).devices = [] then s.modClient client fun c => { c with provider := true } else s
  if (s.dev d).onqClient then s
  else (s.modClient client fun c => { c with devices := c.devices ++ [d] }).modDev d fun dev => { dev with onqClient := true }

/-- `cmd_register`. -/
def cmdRegister (args : List PArg) (client : ClientId) (s : Server) : Reply :=
  let name : Option Str := lastArg .name args
  let rrdname : Option Str := (lastArg .rrdname args : Option Str).map (fun r => r.take 19)
  let devtype := byteArg (lastArg .devtype args)
  let proto := byteArg (lastArg .proto args)
  let subtype := byteArg (lastArg .subtype args)
  let scale := byteArg (lastArg .scale args)
  match (lastArg .uid args : Option Str) with
  | none => { srv := s, ret := some (-1) }
  | some uid =>
    match s.findDeviceByUid uid with
    | none =>
      match name with
      | none => { srv := s, ret := some (-1) }
      | some nm =>
        if subtype = 0 ∨ devtype = 0 ∨ proto = 0 then { srv := s, ret := some (-1) }
        else
          let d := s.nextDev
          let dev : Device :=
            { uid := uid, name := some nm, rrdname := some (rrdname.getD (mkRrdname nm)), type := devtype, proto := proto,
              subtype := subtype, scale := scale }
          let s := { s with dev := Function.update s.dev d dev, nextDev := d + 1 }
          { srv := (claimDevice s d client).insertDevice d }
    | some d =>
      let s := s.modDev d fun dev =>
        { dev with name := name, rrdname := rrdname, type := devtype, proto := proto, subtype := subtype, scale := scale }
      { srv := claimDevice s d client }

/-- The add pass of `cmd_register_group` over the group list. -/
def addGroups (devgrp : GroupId) : List Str → Server → Server
  | [], s => s
  | p :: ps, s =>
    match s.findDevgroupByUid p with
    | none => addGroups devgrp ps s
    | some cgrp => addGroups devgrp ps (if s.groupInGroup cgrp devgrp then s else s.addGroupGroup cgrp devgrp)

/-- The prune pass over the children. The walk goes on from the entry it stands on, also when that was just freed. -/
def pruneGroups (toks : List Str) (devgrp : GroupId) : List WrapGroup → Server → Server × List Out
  | [], s => (s, [])
  | w :: ws, s =>
    if (s.group w.group).uid ∈ toks then pruneGroups toks devgrp ws s
    else
      let s := s.removeGroupGroup w.group devgrp
      let r := pruneGroups toks devgrp ws s
      (r.1, (if w ∈ (s.group devgrp).children then [] else [.freedRead w.wrap]) ++ r.2)

/-- The add pass over the device list. -/
def addDevs (devgrp : GroupId) : List Str → Server → Server
  | [], s => s
  | p :: ps, s =>
    match s.findDeviceByUid p with
    | none => addDevs devgrp ps s
    | some dev => addDevs devgrp ps (if s.devInGroup dev devgrp then s else s.addDevGroup dev devgrp)

/-- The prune pass over the members, which walks like `pruneGroups`. -/
def pruneDevs (toks : List Str) (devgrp : GroupId) : List WrapDevice → Server → Server × List Out
  | [], s => (s, [])
  | w :: ws, s =>
    if (s.dev w.dev).uid ∈ toks then pruneDevs toks devgrp ws s
    else
      let s := s.removeDevGroup w.dev devgrp
      let r := pruneDevs toks devgrp ws s
      (r.1, (if w ∈ (s.group devgrp).members then [] else [.freedRead w.wrap]) ++ r.2)

/-- The children of a group brought in line with a group list. -/
def setGroups (devgrp : GroupId) (grouplist : Option Str) (s : Server) : Server × List Out :=
  match grouplist with
  | none => (s, [])
  | some l =>
    let s := addGroups devgrp (strtok chComma l) s
    pruneGroups (strtok chComma l) devgrp (s.group devgrp).children s

/-- The members of a group brought in line with a device list. -/
def setDevs (devgrp : GroupId) (devlist : Option Str) (s : Server) : Server × List Out :=
  match devlist with
  | none => (s, [])
  | some l =>
    let s := addDevs devgrp (strtok chComma l) s
    pruneDevs (strtok chComma l) devgrp (s.group devgrp).members s

/-- The rest of `cmd_register_group`, once the group is there. -/
def updateGroup (devgrp : GroupId) (args : List PArg) (s : Server) : Reply :=
  let s := match (lastArg .name args : Option Str) with
    | some name => s.modGroup devgrp fun g => { g with name := some name }
    | none => s
  let r := setGroups devgrp (lastArg .grouplist args) s
  let r' := setDevs devgrp (lastArg .devlist args) r.1
  { srv := r'.1, out := r.2 ++ r'.2 }

/-- `cmd_register_group`. -/
def cmdRegisterGroup (args : List PArg) (_client : ClientId) (s : Server) : Reply :=
  match (lastArg .uid args : Option Str) with
  | none => { srv := s, ret := some (-1) }
  | some uid =>
    match s.findDevgroupByUid uid with
    | none =>
      match (lastArg .name args : Option Str) with
      | none => { srv := s, ret := some (-1) }
      | some _ =>
        let (s, devgrp) := s.newDevgroup uid
        updateGroup devgrp args s
    | some devgrp => updateGroup devgrp args s

/-- The text behind `spamhandler:` as flags; other numbers leave the flags alone. -/
def setSpam (i : BitVec 32) (dev : Device) : Device :=
  if i = 0 then { dev with spamhandler := false, changehandler := false }
  else if i = 1 then { dev with spamhandler := true, changehandler := false }
  else if i = 2 then { dev with spamhandler := false, changehandler := true }
  else dev

/-- A watermark read as a double and stored by the datatype of the device. -/
def setWatermark (loc : DataLoc) (d : ℚ) (dev : Device) : Device :=
  match datatypeDev dev with
  | .uint => storeDataDev F loc (.raw ((BitVec.ofInt 32 (lrint d)).setWidth 64)) dev
  | .ll => storeDataDev F loc (.raw (BitVec.ofInt 64 (lrint d))) dev
  | .double => storeDataDev F loc (.dbl d) dev

/-- One argument of `cmd_modify`: the device after, the effects, and the text for the collector. -/
def modifyArg (dev : Device) : PArg → Except Fault (Device × List Out × Str)
  | ⟨.name, v⟩ => .ok ({ dev with name := some v }, [], str " " ++ field .name (quote v))
  | ⟨.rrdname, v⟩ => .ok ({ dev with rrdname := some v }, [], str " " ++ field .rrdname (quote v))
  | ⟨.handler, v⟩ => .ok ({ dev with handler := some v }, [], [])
  | ⟨.hiwat, v⟩ => .ok (setWatermark F .hiwat v dev, [], [])
  | ⟨.lowat, v⟩ => .ok (setWatermark F .lowat v dev, [], [])
  | ⟨.hargs, v⟩ => .ok ((parseHargs v dev).1, (parseHargs v dev).2, [])
  | ⟨.tags, v⟩ => (parseTags v dev).map fun r => (r.1, r.2, [])
  | ⟨.spam, v⟩ => .ok (setSpam v dev, [], [])
  | _ => .ok (dev, [], [])

/-- The arguments of `cmd_modify`, one after the other. -/
def modifyArgs (dev : Device) : List PArg → Except Fault (Device × List Out × Str)
  | [] => .ok (dev, [], [])
  | a :: args => do
    let (dev, out, text) ← modifyArg F dev a
    let (dev, out', text') ← modifyArgs dev args
    return (dev, out ++ out', text ++ text')

/-- Reading the tags of every device, as `devconf_dump_cb` does to write the configuration file. -/
def readAllTags (s : Server) : List DevId → Except Fault Unit
  | [] => .ok ()
  | d :: ds => do
    let _ ← readTags (s.dev d).tags.items
    readAllTags s ds

/-- `devconf_dump_cb`. -/
def devconfDumpCb (s : Server) : Except Fault (List Out) :=
  (readAllTags s s.alldevs).map fun _ => [.devconfDump]

/-- `cmd_modify`. -/
def cmdModify (args : List PArg) (_client : ClientId) (s : Server) : Except Fault Reply :=
  match (lastArg .uid args : Option Str) with
  | none => .ok { srv := s, ret := some (-1) }
  | some uid =>
    match s.findDeviceByUid uid with
    | none => .ok { srv := s, ret := some (-1) }
    | some d => do
      let (dev, out, text) ← modifyArgs F (s.dev d) args
      let s := s.modDev d fun _ => dev
      let dump ← devconfDumpCb s
      match dev.collector with
      | none => return { srv := s, out := out ++ dump }
      | some c =>
        return { srv := s, out := out ++ dump ++ [.write c (str "mod " ++ field .uid dev.uid ++ text ++ [chLf])] }

/-- One entry of a client's feeds when the timer fires. -/
def fireFeed (now : Int) (client : ClientId) (s : Server) (w : WrapFeed) : Except Fault (WrapFeed × List Out) :=
  if w.rate = 0 then .error .arithmetic
  else if 1 ≤ (now - w.lastFired).tdiv w.rate.toInt then
    (gnUpdateDevice F (s.dev w.dev) (gncUpdRrdname ||| gncUpdScale w.scale)).map fun line =>
      ({ w with lastFired := now }, emit client line)
  else .ok (w, [])

/-- The entries of a client's feeds, one after the other. -/
def fireFeeds (now : Int) (client : ClientId) (s : Server) : List WrapFeed → Except Fault (List WrapFeed × List Out)
  | [] => .ok ([], [])
  | w :: ws => do
    let (w, out) ← fireFeed F now client s w
    let (ws, out') ← fireFeeds now client s ws
    return (w :: ws, out ++ out')

/-- `feeddata_cb`. -/
def feeddataCb (now : Int) (client : ClientId) (s : Server) : Except Fault Reply :=
  (fireFeeds F now client s (s.client client).wdevices).map fun r =>
    { srv := s.modClient client fun c => { c with wdevices := r.1 }, out := r.2 }

/-- The gcd of a number and the rates of a list of feeds. -/
def gcdRates (g : Int) : List WrapFeed → Except Fault Int
  | [] => .ok g
  | w :: ws => do
    let lc ← gcd w.rate.toInt g
    gcdRates lc ws

/-- `cmd_feed`. -/
def cmdFeed (args : List PArg) (client : ClientId) (s : Server) : Except Fault Reply :=
  let rate : BitVec 32 := (lastArg .rate args : Option (BitVec 32)).getD 60
  match (lastArg .uid args : Option Str) with
  | none => .ok { srv := s, ret := some (-1) }
  | some uid =>
    match s.findDeviceByUid uid with
    | none => .ok { srv := s, ret := some (-1) }
    | some d => do
      let scale : BitVec 32 := (lastArg .scale args : Option (BitVec 32)).getD ((s.dev d).scale.setWidth 32)
      let s := s.addWrappedDevice d client rate scale
      if (s.client client).tev then
        let g ← gcdRates (s.client client).timerGcd.toInt (s.client client).wdevices
        return { srv := s.modClient client fun c => { c with timerGcd := BitVec.ofInt 32 g, tevSecs := BitVec.ofInt 32 g } }
      else return { srv := s.modClient client fun c => { c with tev := true, tevSecs := rate, timerGcd := rate } }

/-- `cmd_cfeed`. -/
def cmdCfeed (args : List PArg) (client : ClientId) (s : Server) : Reply :=
  match (lastArg .uid args : Option Str) with
  | none => { srv := s, ret := some (-1) }
  | some uid =>
    match s.findDeviceByUid uid with
    | none => { srv := s, ret := some (-1) }
    | some d => { srv := s.addWrappedClient client d }

/-- The sizes of the local buffers of `cmd_client`. -/
def uidSize : Nat := 512
def bufSize : Nat := 512
def cliaddrSize : Nat := 256

/-- `sprintf` of a text into a local buffer. -/
def sprintf (size : Nat) (text : Str) : Except Fault Str :=
  if text.length < size then .ok text else .error .bufferOverflow

/-- The name, and the string the rrdname is made from, of a tracking device. -/
def trackName (cli cliaddr : Str) : Str := str "Collector " ++ cli ++ str " from host " ++ cliaddr
def trackRrdname (cli cliaddr : Str) : Str := str "coll_" ++ cli ++ str "_" ++ cliaddr

/-- `cmd_client`. -/
def cmdClient (env : Env) (args : List PArg) (client : ClientId) (s : Server) : Except Fault Reply :=
  match (lastArg .client args : Option Str) with
  | none => .ok { srv := s, ret := some (-1) }
  | some cli => do
    let cliaddr ← sprintf cliaddrSize ((s.client client).host.getD (str "unknown"))
    -- no tracking devices for handlers
    if cli = str "handler" then return { srv := s }
    else
      let uid ← sprintf uidSize (cli ++ str "-" ++ cliaddr)
      match s.findDeviceByUid uid with
      | none =>
        let name ← sprintf bufSize (trackName cli cliaddr)
        let buf ← sprintf bufSize (trackRrdname cli cliaddr)
        let d := s.nextDev
        let dev : Device :=
          { uid := uid, name := some name, rrdname := some (mkRrdname buf), type := deviceSwitch, proto := protoCollector,
            subtype := subtypeCollector, collector := some client }
        let s := { s with dev := Function.update s.dev d dev, nextDev := d + 1 }
        let s := (s.modClient client fun c => { c with collDev := some d }).insertDevice d
        return { srv := s.modDev d (storeDataDev F .data (intWord env collectorOk)) }
      | some d =>
        let s := s.modClient client fun c => { c with collDev := some d }
        return { srv := s.modDev d (storeDataDev F .data (intWord env collectorOk)) }

/-- A qualifier of a search: a number that is missing or zero fits every device. -/
def fits (k : Option (BitVec 32)) (b : BitVec 8) : Bool := k.getD 0 == 0 || k.getD 0 == b.setWidth 32

/-- The qualifiers of `cmd_list_devices`. -/
def listed (args : List PArg) (dev : Device) : Bool :=
  (match (lastArg .uid args : Option Str) with | some uid => decide (uid = dev.uid) | none => true) &&
    fits (lastArg .devtype args) dev.type && fits (lastArg .proto args) dev.proto && fits (lastArg .subtype args) dev.subtype

/-- `cmd_list_devices`. -/
def cmdListDevices (args : List PArg) (client : ClientId) (s : Server) : Reply :=
  { srv := s
    out := ((s.alldevs.filter (fun d => listed args (s.dev d))).flatMap (fun d => emit client (gnRegisterDevice (s.dev d)))) ++
      [.write client (str "endldevs" ++ [chLf])] }

/-- The search of `cmd_list_groups`: the name is compared with the uid that was asked for. -/
def listGroups (uid name : Option Str) (client : ClientId) (s : Server) : List GroupId → Except Fault (List Out)
  | [] => .ok []
  | g :: gs =>
    if ∃ u ∈ uid, u ≠ (s.group g).uid then listGroups uid name client s gs
    else if name = none then (listGroups uid name client s gs).map (fun out => emit client (gnRegisterDevgroup s g) ++ out)
    else
      match uid, (s.group g).name with
      | some u, some n =>
        if u ≠ n then listGroups uid name client s gs
        else (listGroups uid name client s gs).map (fun out => emit client (gnRegisterDevgroup s g) ++ out)
      | _, _ => .error .nullString

/-- `cmd_list_groups`. -/
def cmdListGroups (args : List PArg) (client : ClientId) (s : Server) : Except Fault Reply :=
  (listGroups (lastArg .uid args) (lastArg .name args) client s s.allgroups).map fun out =>
    { srv := s, out := out ++ [.write client (str "endlgrps" ++ [chLf])] }

/-- The flags `cmd_ask_device` collects from the arguments. -/
def askFlags (args : List PArg) : BitVec 32 :=
  args.foldl (fun what a =>
    match a.cword with
    | .hiwat | .lowat => what ||| gncUpdWater
    | .handler => what ||| gncUpdHandler
    | .hargs => what ||| gncUpdHargs
    | .tags => what ||| gncUpdTags
    | _ => what) (gncUpdName ||| gncUpdRrdname)

/-- `cmd_ask_device`. -/
def cmdAskDevice (args : List PArg) (client : ClientId) (s : Server) : Except Fault Reply :=
  match (lastArg .uid args : Option Str).bind s.findDeviceByUid with
  | none => .ok { srv := s, ret := some 1 }
  | some d =>
    let scale : BitVec 32 := (lastArg .scale args : Option (BitVec 32)).getD ((s.dev d).scale.setWidth 32)
    (gnUpdateDevice F (s.dev d) (askFlags args ||| gncUpdScale scale)).map fun line => { srv := s, out := emit client line }

/-- The values a keyword has in a line, in order. -/
def allArgs (k : Sc) (args : List PArg) : List k.type.Carrier := args.filterMap (PArg.as k)

/-- The replies of `cmd_ask_full_device`, one for each uid that is known. -/
def askFull (client : ClientId) (s : Server) : List Str → Except Fault (List Out)
  | [] => .ok []
  | uid :: uids =>
    match s.findDeviceByUid uid with
    | none => askFull client s uids
    | some d => do
      let line ← gnUpdateDevice F (s.dev d) gncUpdFull
      let out ← askFull client s uids
      return emit client line ++ out

/-- `cmd_ask_full_device`. -/
def cmdAskFullDevice (args : List PArg) (client : ClientId) (s : Server) : Except Fault Reply :=
  (askFull F client s (allArgs .uid args)).map fun out => { srv := s, out := out }

/-- `cmd_cactiask_device`: without an uid, `dev` was never assigned. -/
def cmdCactiaskDevice (args : List PArg) (client : ClientId) (s : Server) : Except Fault Reply :=
  if (allArgs .uid args).any (fun uid : Str => (s.findDeviceByUid uid).isNone) then .ok { srv := s }
  else
    match (lastArg .uid args : Option Str).bind s.findDeviceByUid with
    | none => .error .uninitialised
    | some d =>
      let scale : BitVec 32 := (lastArg .scale args : Option (BitVec 32)).getD ((s.dev d).scale.setWidth 32)
      (gnUpdateDevice F (s.dev d) (gncUpdCacti ||| gncUpdScale scale)).map fun line => { srv := s, out := emit client line }

/-- Storing a collector state in the tracking device of a client, if it has one. -/
def storeCollDev (client : ClientId) (w : Word) (s : Server) : Server :=
  match (s.client client).collDev with
  | some d => s.modDev d (storeDataDev F .data w)
  | none => s

/-- `cmd_disconnect`. -/
def cmdDisconnect (env : Env) (client : ClientId) (s : Server) : Reply :=
  { srv := storeCollDev F client (intWord env collectorBad) (s.modClient client fun c => { c with closeOnEmpty := true }) }

/-- `cmd_ping`. -/
def cmdPing (s : Server) : Reply := { srv := s }

/-- `cmd_imalive`: the state is a static byte. -/
def cmdImalive (env : Env) (client : ClientId) (s : Server) : Reply :=
  { srv := storeCollDev F client (.raw ((env.beyond &&& ~~~0xff#64) ||| collectorOk.setWidth 64)) s }

/-- The clients that hear of an alarm, and of its removal. -/
def Client.hears (c : Client) (alarm : Alarm) : Bool :=
  decide (c.alarmwatch.toInt ≤ alarm.alsev.toInt) && c.alarmwatch != 0 && alarm.alchan &&& c.alchan != 0

def Client.hearsClear (c : Client) : Bool := decide (0 < c.alarmwatch.toInt)

/-- `cmd_setalarm`. -/
def cmdSetalarm (args : List PArg) (_client : ClientId) (s : Server) : Reply :=
  match (lastArg .aluid args : Option Str) with
  | none => { srv := s }
  | some aluid =>
    let alsev : BitVec 32 := (lastArg .alsev args : Option (BitVec 32)).getD (-1)
    let alchan : BitVec 32 := (lastArg .alchan args : Option (BitVec 32)).getD 1
    let r := updateAlarm aluid (lastArg .altext args) alsev alchan s.alarms
    let told := match r.2 with
      | none => (s.clients.filter (fun c => (s.client c).hearsClear)).map
          (fun c => Out.write c (gnSetalarm aluid [] 0 (BitVec.allOnes 32)))
      | some alarm => (s.clients.filter (fun c => (s.client c).hears alarm)).map
          (fun c => Out.write c (gnSetalarm alarm.aluid alarm.altext alarm.alsev alarm.alchan))
    { srv := { s with alarms := r.1 }, out := told }

/-- `cmd_listen_alarms`. -/
def cmdListenAlarms (args : List PArg) (client : ClientId) (s : Server) : Reply :=
  let alsev : BitVec 32 := (lastArg .alsev args : Option (BitVec 32)).getD 0
  let alchan : BitVec 32 := (lastArg .alchan args : Option (BitVec 32)).getD (BitVec.allOnes 32)
  { srv := s.modClient client fun c => { c with alarmwatch := alsev, alchan := alchan } }

/-- `cmd_dump_alarms`. -/
def cmdDumpAlarms (args : List PArg) (client : ClientId) (s : Server) : Reply :=
  let alsev : BitVec 32 := (lastArg .alsev args : Option (BitVec 32)).getD 1
  let alchan : BitVec 32 := (lastArg .alchan args : Option (BitVec 32)).getD (BitVec.allOnes 32)
  let dumped := s.alarms.filter fun alarm =>
    decide (alsev.toInt ≤ alarm.alsev.toInt) && alchan &&& alarm.alchan != 0 &&
      (match (lastArg .aluid args : Option Str) with | some aluid => decide (alarm.aluid = aluid) | none => true)
  { srv := s, out := dumped.map (fun a => .write client (gnSetalarm a.aluid a.altext a.alsev a.alchan)) }

/-- `GNHASTD_PROTO_VERS`. -/
def gnhastdProtoVers : Nat := 0x12

/-- `cmd_get_apiv`, which ends without a return value. -/
def cmdGetApiv (client : ClientId) (s : Server) : Reply :=
  { srv := s, out := [.write client (str "apiv " ++ field .number (decNat gnhastdProtoVers) ++ [chLf])], ret := none }

/-! ## Dispatch -/

/-- The commands of the server. -/
inductive Cmd
  | chg | reg | regg | upd | mod | feed | cfeed | ldevs | lgrps | ask | askf | cactiask | disconnect | client | ping | imalive
  | setalarm | listenalarms | dumpalarms | getapiv
deriving Repr, DecidableEq

/-- The command table. -/
def commands : List (Str × Cmd) :=
  [(str "chg", .chg), (str "reg", .reg), (str "regg", .regg), (str "upd", .upd), (str "mod", .mod), (str "feed", .feed),
   (str "cfeed", .cfeed), (str "ldevs", .ldevs), (str "lgrps", .lgrps), (str "ask", .ask), (str "askf", .askf),
   (str "cactiask", .cactiask), (str "disconnect", .disconnect), (str "client", .client), (str "ping", .ping),
   (str "imalive", .imalive), (str "setalarm", .setalarm), (str "listenalarms", .listenalarms),
   (str "dumpalarms", .dumpalarms), (str "getapiv", .getapiv)]

/-- The command a word names, in any case. -/
def findCommand (command : Str) : Option Cmd := commands.lookup (command.map tolower)

/-- The handler the command table has for a command. -/
def Cmd.run (env : Env) (cmd : Cmd) (args : List PArg) (client : ClientId) (s : Server) : Except Fault Reply :=
  match cmd with
  | .chg => .ok (cmdChange F args client s)
  | .reg => .ok (cmdRegister args client s)
  | .regg => .ok (cmdRegisterGroup args client s)
  | .upd => cmdUpdate F env args client s
  | .mod => cmdModify F args client s
  | .feed => cmdFeed args client s
  | .cfeed => .ok (cmdCfeed args client s)
  | .ldevs => .ok (cmdListDevices args client s)
  | .lgrps => cmdListGroups args client s
  | .ask => cmdAskDevice F args client s
  | .askf => cmdAskFullDevice F args client s
  | .cactiask => cmdCactiaskDevice F args client s
  | .disconnect => .ok (cmdDisconnect F env client s)
  | .client => cmdClient F env args client s
  | .ping => .ok (cmdPing s)
  | .imalive => .ok (cmdImalive F env client s)
  | .setalarm => .ok (cmdSetalarm args client s)
  | .listenalarms => .ok (cmdListenAlarms args client s)
  | .dumpalarms => .ok (cmdDumpAlarms args client s)
  | .getapiv => .ok (cmdGetApiv client s)

/-- `parsed_command`. -/
def parsedCommand (env : Env) (command : Str) (args : List PArg) (client : ClientId) (s : Server) : Except Fault Reply :=
  match findCommand command with
  | some cmd => cmd.run F env args client s
  | none => .ok { srv := s, ret := some (-1) }

end Gnhast
