import Gnhast.PlmSerial
import Gnhast.Lib.CStr
import Gnhast.Lib.Machines

/-!
# Reading from a hub

`hubhtml_readcb` of `insteon_common.c`. A hub shows what its PLM has received as hexadecimal text, and the callback decodes commands
from it until something is missing. It stops at a `goto` for each command, which is a step here. What the arrays hold at the start is
whatever was there; a `char` is signed where it is an index. Left out is the log.
-/

namespace Gnhast.Insteon

open CStr

/-- What must not happen: an index in front of a table, or a write behind an array. -/
inductive HubFault
  | badIndex
  | overflow
deriving Repr, DecidableEq

/-! ## Hexadecimal text -/

/-- `_base`. -/
def hexBase (c : Byte) : Octet :=
  if 48 ≤ c ∧ c ≤ 57 then 48 else if 97 ≤ c ∧ c ≤ 102 then 87 else if 65 ≤ c ∧ c ≤ 70 then 55 else 0xAD

/-- `HEXOF`, as far as it goes into a `char`. -/
def hexOf (c : Byte) : Octet := c.toBitVec - hexBase c

/-- The loop of `hex_decode`, with the number of the byte it writes next. -/
def hexLoop {n : Nat} : Str → Nat → Vector Octet n → Except HubFault (Vector Octet n)
  | a :: b :: inp, i, out =>
    if a = chNul then .ok out
    else if h : i < n then hexLoop inp (i + 1) (out.set i (hexOf a <<< 4 + hexOf b))
    else .error .overflow
  | _, _, out => .ok out

/-- `hex_decode`: none where it returns `NULL`. -/
def hexDecode {n : Nat} (inp : Str) (len : Nat) (out : Vector Octet n) : Except HubFault (Option (Vector Octet n)) :=
  if len % 2 = 1 then .ok none else (hexLoop (inp.take len) 0 out).map some

/-! ## The callback -/

/-- The text that has come from the hub, the queue of what was read, and the arrays of the callback. -/
structure Hub where
  workbuf : Str
  workfifo : List Frame
  hubdata : Vector Byte 64
  plmdata : Vector Octet 32

/-- `evbuffer_drain`. -/
def Hub.drain (hub : Hub) (n : Nat) : Hub := { hub with workbuf := hub.workbuf.drop n }

/-- `evbuffer_copyout` to `hubdata`. -/
def Hub.copyout (hub : Hub) (n : Nat) : Except HubFault Hub :=
  if 64 < min n hub.workbuf.length then .error .overflow
  else .ok { hub with hubdata := Vector.ofFn fun i => if i.val < n then hub.workbuf.getD i hub.hubdata[i] else hub.hubdata[i] }

/-- `plm_cmdlen` at a `char`. -/
def cmdlenAt (c : Octet) : Except HubFault Nat := if c.toInt < 0 then .error .badIndex else .ok (plmCmdlen c)

/-- The number of characters of a command: an echo may be extended. -/
def hubClen (hub : Hub) (clen : Nat) : Except HubFault (Hub × Nat) :=
  if hub.plmdata[1] = plmSend then do
    let hub ← hub.copyout clen
    let plmdata ← hexDecode hub.hubdata.toList clen hub.plmdata
    let hub := { hub with plmdata := plmdata.getD hub.plmdata }
    .ok (hub, if hub.plmdata[5] &&& plmflagExt ≠ 0 then extSendLen * 2 else clen)
  else .ok (hub, clen)

/-- A command is taken from the buffer and queued. -/
def hubGrab (hub : Hub) (clen : Nat) : Except HubFault Hub := do
  let hub ← hub.copyout clen
  let cmd ← hexDecode hub.hubdata.toList clen (Vector.replicate 30 0)
  .ok { hub.drain clen with workfifo := hub.workfifo ++ [cmd.getD (Vector.replicate 30 0)] }

/-- What is done when the first two bytes have been decoded. -/
def hubDecoded (hub : Hub) : Except HubFault (Hub ⊕ Hub) :=
  let bufferLen := hub.workbuf.length
  let cmd := hub.plmdata[1]
  if hub.plmdata[0] = 0 then .ok (.inl (hub.drain 2))
  else if hub.plmdata[0] ≠ plmStart then .ok (.inr (hub.drain 2))
  else do
    -- the start and the answer are discarded, but the buffer is looked at as if they were there
    let hub := if cmd = plmcmdNak then hub.drain 4 else hub
    let clen := (← cmdlenAt cmd) * 2
    if clen = 0 then .ok (.inr (hub.drain 4))
    else if bufferLen < clen then .ok (.inr hub)
    else
      let (hub, clen) ← hubClen hub clen
      if bufferLen < clen then .ok (.inr hub) else (hubGrab hub clen).map .inl

/-- `hubhtml_readcb`, from one `goto again` to the next. -/
def hubStep (hub : Hub) : Except HubFault (Hub ⊕ Hub) :=
  if hub.workbuf.length < 4 then .ok (.inr hub)
  else do
    let hub ← hub.copyout 4
    match ← hexDecode hub.hubdata.toList 4 hub.plmdata with
    | none => .ok (.inr hub)
    | some plmdata => hubDecoded { hub with plmdata := plmdata }

end Gnhast.Insteon
