import Gnhast.Types

/-!
# The PLM command queue

The command queue of `insteon_common.c`: the records of `insteon.h`, the functions that queue commands, `plm_runq` with
`plm_condense_runq`, and the functions that say what has come back for the command at the head. The queue is a list with its head
first. An entry is named by a number that stands for its address. What `plm_send_cmd` gives to the connection is kept in the order
it was given. Left out are the log, the fields that only the log reads, and the HTTP requests themselves.
-/

namespace Gnhast.Insteon

open CStr

/-- `uint8_t`. -/
abbrev Octet : Type := BitVec 8

/-! ## Places

The places that are looked at in an address, a command, a frame and what a hub sends.
-/

theorem addrAt0 : 0 < 3 := by decide
theorem addrAt1 : 1 < 3 := by decide
theorem addrAt2 : 2 < 3 := by decide
theorem cmdAt0 : 0 < 25 := by decide
theorem cmdAt1 : 1 < 25 := by decide
theorem cmdAt5 : 5 < 25 := by decide
theorem cmdAt6 : 6 < 25 := by decide
theorem frameAt1 : 1 < 30 := by decide
theorem frameAt4 : 4 < 30 := by decide
theorem frameAt5 : 5 < 30 := by decide
theorem frameAt8 : 8 < 30 := by decide
theorem frameAt22 : 22 < 30 := by decide
theorem hubAt0 : 0 < 32 := by decide
theorem hubAt1 : 1 < 32 := by decide
theorem hubAt5 : 5 < 32 := by decide

/-! ## PLM defines -/

def plmStart : Octet := 0x02
def plmRecvStd : Octet := 0x50
def plmRecvExt : Octet := 0x51
def plmRecvX10 : Octet := 0x52
def plmSend : Octet := 0x62
def plmSendX10 : Octet := 0x63
def plmAlinkStart : Octet := 0x64
def plmAlinkGetfirst : Octet := 0x69
def plmAlinkGetnext : Octet := 0x6A
def plmGetconf : Octet := 0x73
def plmSetconf : Octet := 0x6B
def plmGetinfo : Octet := 0x60

def plmcmdAck : Octet := 0x06
def plmcmdNak : Octet := 0x15

def plmflagMaxhop1 : Octet := 0x01
def plmflagMaxhop2 : Octet := 0x02
def plmflagRemhop1 : Octet := 0x04
def plmflagRemhop2 : Octet := 0x08
def plmflagExt : Octet := 0x10
def plmflagGroup : Octet := 0x40
def plmflagBroad : Octet := 0x80
def plmflagsetStd3hops : Octet := plmflagMaxhop1 ||| plmflagMaxhop2 ||| plmflagRemhop1 ||| plmflagRemhop2

def stdcmdStatusreq : Octet := 0x19
def extcmdRwaldb : Octet := 0x2F

/-- `PROTO_INSTEON_V2CS`. -/
def protoInsteonV2cs : Octet := 3

/-- `CMDQ_MAX_SEND`. -/
def cmdqMaxSend : Octet := 2

/-- `CMDQ_NOPWAIT`, the first byte of an entry that only waits. -/
def cmdqNopwait : Octet := 0xFF

def cmdqWaitack : Octet := 0x01
def cmdqWaitdata : Octet := 0x02
def cmdqWaitext : Octet := 0x04
def cmdqWaitsend : Octet := 0x08
def cmdqWaitalink : Octet := 0x10
def cmdqWaitany : Octet := 0x20
def cmdqWaitaldb : Octet := 0x40
def cmdqWaitackdata : Octet := cmdqWaitack ||| cmdqWaitdata

/-! ## Records -/

/-- `aldb_t`. -/
structure Aldb where
  addr : BitVec 16 := 0
  lflags : Octet := 0
  group : Octet := 0
  devaddr : Vector Octet 3 := Vector.replicate 3 0
  ldata1 : Octet := 0
  ldata2 : Octet := 0
  ldata3 : Octet := 0
deriving Repr, DecidableEq

/-- `ALDB_MAXSIZE`. -/
def aldbMaxsize : Nat := 64

theorem aldbAt0 : 0 < aldbMaxsize := by decide
theorem aldbAt1 : 1 < aldbMaxsize := by decide

/-- `insteon_devdata_t`. The hops are unknown or have no flags but those of the hops. -/
structure InsteonDevdata where
  daddr : Vector Octet 3
  hopflag : Octet := 255
  hop_ok : hopflag = 255 ∨ hopflag &&& 0xF0 = 0 := by decide
  aldb : Vector Aldb aldbMaxsize := Vector.replicate aldbMaxsize {}
  aldblen : Nat := 0
  group : Octet := 0

/-- The hop flag a device starts with. -/
theorem hopUnset : (255 : Octet) = 255 ∨ (255 : Octet) &&& 0xF0 = 0 := .inl rfl

/-- A `device_t` of the collector: the common record, its location and its `localdata`. -/
structure PlmDevice where
  dev : Device
  loc : Str
  dd : InsteonDevdata

/-- `cmdq_t`. -/
structure CmdQ where
  id : Nat
  cmd : Vector Octet 25
  sendcount : Octet := 0
  msglen : Octet := 0
  state : Octet := 0
  wait : Octet := 0
  tp : Int := 0
  uid : Option Str := none
deriving DecidableEq

/-- A flag of the state of an entry is set. -/
def CmdQ.flag (cmd : CmdQ) (f : Octet) : Bool := cmd.state &&& f != 0

/-- The kinds of a PLM. -/
inductive PlmType
  | serial | hubplm | hubhttp
deriving Repr, DecidableEq

/-- `HUBHTMLSTATE_*`. -/
inductive HubState
  | idle | wclear | wcmd | wsend
deriving Repr, DecidableEq

/-- What the collectors for a PLM share. -/
structure Plm where
  cmdfifo : List CmdQ := []
  nextCmd : Nat := 0
  sent : List (Nat × List Octet) := []
  plmtype : PlmType := .serial
  hubhtmlstate : HubState := .idle
  plmAddr : Vector Octet 3 := Vector.replicate 3 0

/-- `SIMPLEQ_INSERT_TAIL` of a new entry. -/
def Plm.insertTail (q : Plm) (cmd : Nat → CmdQ) : Plm :=
  { q with cmdfifo := q.cmdfifo ++ [cmd q.nextCmd], nextCmd := q.nextCmd + 1 }

/-! ## Queueing commands -/

/-- The bytes of a command; the rest of a new entry is zero. -/
def cmdBytes (bytes : List Octet) : Vector Octet 25 := Vector.ofFn fun i => bytes.getD i 0

/-- `plm_get_hops`. -/
def plmGetHops (dev : PlmDevice) : Octet := if dev.dd.hopflag = 255 then plmflagsetStd3hops else dev.dd.hopflag

/-- The first bytes of a command to a device. -/
def sendHeader (dev : PlmDevice) (flags com1 com2 : Octet) : List Octet :=
  [plmStart, plmSend, dev.dd.daddr[0], dev.dd.daddr[1], dev.dd.daddr[2], flags, com1, com2]

/-- `plm_calc_cs`. -/
def plmCalcCs (com1 com2 : Octet) (data : List Octet) : Octet := ~~~(com1 + com2 + data.foldl (fun a b => a + b) 0) + 1

/-- `plm_enq_stdcs`. -/
def plmEnqStdcs (dev : PlmDevice) (com1 com2 waitflags : Octet) (q : Plm) : Plm :=
  let data := (if 0x01 < dev.dd.group then dev.dd.group else 0) :: List.replicate 13 0
  q.insertTail fun id =>
    { id := id
      cmd := cmdBytes (sendHeader dev (plmGetHops dev ||| plmflagExt) com1 com2 ++ data.take 13 ++ [plmCalcCs com1 com2 data])
      msglen := 22, wait := waitflags, state := waitflags ||| cmdqWaitsend, uid := some dev.dev.uid }

/-- `plm_enq_std`. -/
def plmEnqStd (dev : PlmDevice) (com1 com2 waitflags : Octet) (q : Plm) : Plm :=
  if dev.dev.proto = protoInsteonV2cs ∧ com1 ≠ stdcmdStatusreq then plmEnqStdcs dev com1 com2 waitflags q
  else
    q.insertTail fun id =>
      { id := id, cmd := cmdBytes (sendHeader dev (plmGetHops dev) com1 com2)
        msglen := 8, wait := waitflags, state := waitflags ||| cmdqWaitsend, uid := some dev.dev.uid }

/-- `plm_enq_ext`: the last byte of the data is replaced by the checksum over all of it where the protocol has one. -/
def plmEnqExt (dev : PlmDevice) (com1 com2 : Octet) (data : Vector Octet 14) (waitflags : Octet) (q : Plm) : Plm :=
  let last := if dev.dev.proto = protoInsteonV2cs then plmCalcCs com1 com2 data.toList else data[13]
  q.insertTail fun id =>
    { id := id
      cmd := cmdBytes (sendHeader dev (plmGetHops dev ||| plmflagExt) com1 com2 ++ data.toList.take 13 ++ [last])
      msglen := 22, wait := waitflags, state := waitflags ||| cmdqWaitsend, uid := some dev.dev.uid }

/-- `plm_enq_wait`. -/
def plmEnqWait (howlong : BitVec 32) (q : Plm) : Plm :=
  q.insertTail fun id => { id := id, cmd := cmdBytes [cmdqNopwait], sendcount := howlong.setWidth 8 }

/-- A command to the PLM itself. -/
def plmCommand (bytes : List Octet) (wait state : Octet) (q : Plm) : Plm :=
  q.insertTail fun id =>
    { id := id, cmd := cmdBytes (plmStart :: bytes), msglen := BitVec.ofNat 8 (bytes.length + 1), wait := wait, state := state }

/-- `plm_getinfo`. -/
def plmGetinfoCmd : Plm → Plm := plmCommand [plmGetinfo] cmdqWaitack (cmdqWaitack ||| cmdqWaitsend)

/-- `plm_getconf`. -/
def plmGetconfCmd : Plm → Plm := plmCommand [plmGetconf] cmdqWaitack (cmdqWaitack ||| cmdqWaitsend)

/-- `plm_setconf`. -/
def plmSetconfCmd (cfgflags : Octet) : Plm → Plm := plmCommand [plmSetconf, cfgflags] cmdqWaitack (cmdqWaitack ||| cmdqWaitsend)

/-- `plm_getplm_aldb`, for the first record or for the next. -/
def plmGetplmAldb (first : Bool) : Plm → Plm :=
  plmCommand [if first then plmAlinkGetfirst else plmAlinkGetnext] cmdqWaitack (cmdqWaitack ||| cmdqWaitsend)

/-- `plm_all_link`. -/
def plmAllLink (linkcode group : Octet) : Plm → Plm :=
  plmCommand [plmAlinkStart, linkcode, group] (cmdqWaitackdata ||| cmdqWaitalink) (cmdqWaitack ||| cmdqWaitalink ||| cmdqWaitsend)

/-! ## Writing records -/

/-- The data bytes of a record that is written. -/
def aldbData (r : Aldb) : Vector Octet 14 :=
  #v[0, 0x02, (r.addr >>> 8).setWidth 8, r.addr.setWidth 8, 0x08, r.lflags, r.group, r.devaddr[0], r.devaddr[1], r.devaddr[2],
    r.ldata1, r.ldata2, r.ldata3, 0]

/-- `plm_write_aldb_record`: the device, with the address of the record rewritten, and the queue. The check lets the number behind
the last record through. -/
def plmWriteAldbRecord (dev : PlmDevice) (recno : Nat) (q : Plm) : Except Fault (PlmDevice × Plm) :=
  if aldbMaxsize < recno then .ok (dev, q)
  else if h : recno < aldbMaxsize then
    let record := { dev.dd.aldb.get ⟨recno, h⟩ with addr := 0x0FFF - BitVec.ofNat 16 (8 * recno) }
    let dev := { dev with dd := { dev.dd with aldb := dev.dd.aldb.set recno record } }
    .ok (dev, plmEnqExt dev extcmdRwaldb 0x00 (aldbData record) (cmdqWaitack ||| cmdqWaitdata) q)
  else .error .bufferOverflow

/-- The loop of `plm_write_aldb`, over record numbers. -/
def writeAldbRecords : List Nat → PlmDevice → Plm → Except Fault (PlmDevice × Plm)
  | [], dev, q => .ok (dev, q)
  | i :: is, dev, q => do
    let (dev, q) ← plmWriteAldbRecord dev i q
    writeAldbRecords is dev q

/-- `plm_write_aldb`. -/
def plmWriteAldb (dev : PlmDevice) (q : Plm) : Except Fault (PlmDevice × Plm) :=
  writeAldbRecords (List.range dev.dd.aldblen) dev q

/-! ## Running the queue -/

/-- `memcmp` of the first bytes of two commands finds no difference. -/
def samePrefix (n : Nat) (a b : Vector Octet 25) : Bool := decide (a.toList.take n = b.toList.take n)

/-- The first pass of `plm_condense_runq`: what stays behind the head. -/
def dropCopies (cmd : CmdQ) (rest : List CmdQ) : List CmdQ :=
  rest.filter fun chk => !(chk.cmd[0] != cmdqNopwait && samePrefix 25 cmd.cmd chk.cmd)

/-- `plm_condense_runq`. -/
def plmCondenseRunq : List CmdQ → List CmdQ
  | [] => []
  | cmd :: rest =>
    let rest := dropCopies cmd rest
    if rest.any (fun chk => samePrefix 8 cmd.cmd chk.cmd && cmd.cmd[1] == plmSend) then rest else cmd :: rest

/-- `plm_send_cmd`: the bytes the PLM is given. -/
def CmdQ.bytes (cmd : CmdQ) : List Octet := cmd.cmd.toList.take cmd.msglen.toNat

/-- An entry that `plm_runq` sends when it stands at the head. -/
def CmdQ.sendable (cmd : CmdQ) : Bool := cmd.flag cmdqWaitsend && decide (0 < cmd.msglen)

/-- The entry after it was sent. -/
def CmdQ.fired (cmd : CmdQ) (now : Int) : CmdQ :=
  { cmd with sendcount := cmd.sendcount + 1, state := cmd.state &&& ~~~cmdqWaitsend, tp := now }

/-- How long an entry waits for what it waits for, in nanoseconds. -/
def CmdQ.patience (plmtype : PlmType) (cmd : CmdQ) : Int :=
  if cmd.flag cmdqWaitalink then 5000000000
  else if cmd.flag cmdqWaitaldb then 10000000000
  else if plmtype = .hubhttp then 12500000000 else 3500000000

/-- The head of the queue is sent. -/
def Plm.sendHead (q : Plm) (now : Int) (cmd : CmdQ) (rest : List CmdQ) : Plm :=
  { q with
    cmdfifo := cmd.fired now :: rest, sent := q.sent ++ [(cmd.id, cmd.bytes)]
    hubhtmlstate := if q.plmtype = .hubhttp then .wcmd else q.hubhtmlstate }

/-- `plm_runq` from the label `again` on, with the queue: the state after it and whether `plm_queue_empty_cb` is called. An entry
without a length that has timed out is retried for ever. -/
def runqAgain (now : Int) (q : Plm) : List CmdQ → Option (Plm × Bool)
  | [] => some ({ q with cmdfifo := [] }, true)
  | cmd :: rest =>
    if cmd.cmd[0] = cmdqNopwait then
      if cmd.sendcount ≤ 0 then some ({ q with cmdfifo := rest }, false)
      else some ({ q with cmdfifo := { cmd with sendcount := cmd.sendcount - 1 } :: rest }, false)
    else if cmd.state = 0 ∨ cmdqMaxSend < cmd.sendcount then runqAgain now q rest
    else if cmd.sendable then some (q.sendHead now cmd rest, false)
    else if cmd.tp + cmd.patience q.plmtype < now then
      if cmdqMaxSend ≤ cmd.sendcount then runqAgain now q rest
      else
        -- again, with the same head
        let cmd := { cmd with state := cmd.wait ||| cmdqWaitsend }
        if cmd.sendable then some (q.sendHead now cmd rest, false) else none
    else some ({ q with cmdfifo := cmd :: rest }, false)

/-- `plm_runq`. -/
def plmRunq (now : Int) (q : Plm) : Option (Plm × Bool) :=
  if q.plmtype = .hubhttp ∧ q.hubhtmlstate ≠ .idle then some (q, false) else runqAgain now q (plmCondenseRunq q.cmdfifo)

/-! ## What comes back -/

/-- A change to the head of the queue. -/
def Plm.modHead (q : Plm) (f : CmdQ → CmdQ) : Plm :=
  match q.cmdfifo with
  | [] => q
  | cmd :: rest => { q with cmdfifo := f cmd :: rest }

/-- An entry that is to be sent again, and counted. -/
def CmdQ.retried (cmd : CmdQ) : CmdQ := { cmd with state := cmd.wait ||| cmdqWaitsend, sendcount := cmd.sendcount + 1 }

/-- `plmcmdq_retry_cur`. -/
def plmcmdqRetryCur (q : Plm) : Plm := q.modHead CmdQ.retried

/-- An entry that no longer waits for something. -/
def CmdQ.cleared (cmd : CmdQ) (now : Int) (whatkind : Octet) : CmdQ := { cmd with state := cmd.state &&& ~~~whatkind, tp := now }

/-- `plmcmdq_got_data`. -/
def plmcmdqGotData (now : Int) (whatkind : Octet) (q : Plm) : Plm := q.modHead fun cmd => cmd.cleared now whatkind

/-- The body of a command that came in. -/
abbrev Frame : Type := Vector Octet 30

/-- The bytes of a command in a new buffer, which is zero behind them. -/
def frameOf (bytes : List Octet) : Frame := Vector.ofFn fun i => bytes.getD i 0

/-- The local `ackbit` of `plmcmdq_check_ack`, which is assigned for two commands only. -/
def ackbitOf (junk : Octet) (data : Frame) (cmd : CmdQ) : Octet :=
  if cmd.cmd[1] = plmAlinkStart then data[4]
  else if cmd.cmd[1] = plmSend then if 20 < cmd.msglen then data[22] else data[8]
  else junk

/-- `plmcmdq_check_ack` goes to `ackdata`. -/
def ackTaken (data : Frame) (cmd : CmdQ) : Bool :=
  decide (cmd.msglen < 8) || !(cmd.cmd[1] == plmSend || cmd.cmd[1] == plmSendX10) ||
    (decide (data.toList.take 5 = cmd.cmd.toList.take 5) && decide ((data.toList.drop 6).take 2 = (cmd.cmd.toList.drop 6).take 2))

/-- `plmcmdq_check_ack`; `junk` is what the local `ackbit` holds before it is assigned. -/
def plmcmdqCheckAck (now : Int) (junk : Octet) (data : Frame) (q : Plm) : Plm :=
  q.modHead fun cmd =>
    if ackTaken data cmd then
      if ackbitOf junk data cmd = plmcmdAck then cmd.cleared now cmdqWaitack else cmd.retried
    else cmd

/-- `plmcmdq_dequeue`. -/
def plmcmdqDequeue (q : Plm) : Plm := { q with cmdfifo := q.cmdfifo.tail }

/-- `plmcmdq_flush`. -/
def plmcmdqFlush (q : Plm) : Plm := { q with cmdfifo := [] }

/-- `plmcmdq_check_recv`. -/
def plmcmdqCheckRecv (now : Int) (fromaddr toaddr : Vector Octet 3) (cmd1 whatkind : Octet) (q : Plm) : Plm :=
  let ofHead (cmd : CmdQ) : Bool := decide ((cmd.cmd.toList.drop 2).take 3 = fromaddr.toList) && decide (toaddr = q.plmAddr)
  let q := q.modHead fun cmd => if ofHead cmd && cmd1 == cmd.cmd[6] then cmd.cleared now whatkind else cmd
  q.modHead fun cmd => if ofHead cmd then cmd.cleared now cmdqWaitany else cmd

/-- The first entry that only waits gets a new count. -/
def extendDelay : List CmdQ → List CmdQ
  | [] => []
  | cmd :: rest => if cmd.cmd[0] = cmdqNopwait then { cmd with sendcount := 10 } :: rest else cmd :: extendDelay rest

/-- `plm_check_proper_delay`. -/
def plmCheckProperDelay (devaddr : Vector Octet 3) (q : Plm) : Plm :=
  if q.cmdfifo.any fun chk => chk.cmd[1] == plmSend && decide ((chk.cmd.toList.drop 2).take 3 = devaddr.toList) then
    if q.cmdfifo.any fun chk => chk.cmd[0] == cmdqNopwait then { q with cmdfifo := extendDelay q.cmdfifo }
    else
      { q with
        cmdfifo := { id := q.nextCmd, cmd := cmdBytes [cmdqNopwait], sendcount := 10 } :: q.cmdfifo, nextCmd := q.nextCmd + 1 }
  else q

/-! ## The queue as a transition system -/

/-- The operations on the queue. The main programs do them in any order. -/
inductive PlmEvent
  | enqStd (dev : PlmDevice) (com1 com2 waitflags : Octet)
  | enqExt (dev : PlmDevice) (com1 com2 : Octet) (data : Vector Octet 14) (waitflags : Octet)
  | enqStdcs (dev : PlmDevice) (com1 com2 waitflags : Octet)
  | enqWait (howlong : BitVec 32)
  | getinfo
  | getconf
  | setconf (cfgflags : Octet)
  | getplmAldb (first : Bool)
  | allLink (linkcode group : Octet)
  /-- The timer of `plm_runq` fires. -/
  | runq (now : Int)
  /-- A frame is given to `plmcmdq_check_ack`. -/
  | checkAck (now : Int) (junk : Octet) (data : Frame)
  /-- A message is given to `plmcmdq_check_recv`. -/
  | checkRecv (now : Int) (fromaddr toaddr : Vector Octet 3) (cmd1 whatkind : Octet)
  | gotData (now : Int) (whatkind : Octet)
  | dequeue
  | flush
  | properDelay (devaddr : Vector Octet 3)
  /-- An HTTP request is answered, or a frame has come. -/
  | hub (state : HubState)
  /-- The PLM says its address. -/
  | setAddr (addr : Vector Octet 3)

/-- One operation; none when it does not return. -/
def plmStep (q : Plm) : PlmEvent → Option Plm
  | .enqStd dev com1 com2 waitflags => some (plmEnqStd dev com1 com2 waitflags q)
  | .enqExt dev com1 com2 data waitflags => some (plmEnqExt dev com1 com2 data waitflags q)
  | .enqStdcs dev com1 com2 waitflags => some (plmEnqStdcs dev com1 com2 waitflags q)
  | .enqWait howlong => some (plmEnqWait howlong q)
  | .getinfo => some (plmGetinfoCmd q)
  | .getconf => some (plmGetconfCmd q)
  | .setconf cfgflags => some (plmSetconfCmd cfgflags q)
  | .getplmAldb first => some (plmGetplmAldb first q)
  | .allLink linkcode group => some (plmAllLink linkcode group q)
  | .runq now => (plmRunq now q).map Prod.fst
  | .checkAck now junk data => some (plmcmdqCheckAck now junk data q)
  | .checkRecv now fromaddr toaddr cmd1 whatkind => some (plmcmdqCheckRecv now fromaddr toaddr cmd1 whatkind q)
  | .gotData now whatkind => some (plmcmdqGotData now whatkind q)
  | .dequeue => some (plmcmdqDequeue q)
  | .flush => some (plmcmdqFlush q)
  | .properDelay devaddr => some (plmCheckProperDelay devaddr q)
  | .hub state => some { q with hubhtmlstate := state }
  | .setAddr addr => some { q with plmAddr := addr }

end Gnhast.Insteon
