import Gnhast.Hubhtml
import Gnhast.Insteon
import Gnhast.Lib.Buffers

/-!
# The status of a hub's buffer

`hubhtml_buf_request_cb` of `insteon_common.c`: what the answer to a request for `buffstatus.xml` adds to the text that `hubhtml_readcb`
decodes. The arrays of the callback hold at the start whatever was there. Left out are the log and the connection of the request.
-/

namespace Gnhast.Insteon

open CStr Buffers

/-- `HUB_TYPE_OLD` and `HUB_TYPE_NEW`. -/
inductive HubType
  | old | new
deriving Repr, DecidableEq

/-- What the callback reads and leaves: the text, the state, and how often the hub will be told to clear its buffer. -/
structure Buffstatus where
  workbuf : Str := []
  hubtype : Option HubType := none
  hubhtmlstate : HubState := .idle
  clears : Nat := 0
deriving Repr, DecidableEq

/-- An answer of the hub. -/
structure HubReply where
  code : Nat
  body : Str

/-- `memcpy` to `dbuf`: as a `size_t` a negative length is longer than every array. -/
def dbufCopy (src : Str) (blen : Int) (dbuf : Vector Byte 256) : Except HubFault (Vector Byte 256) :=
  if blen < 0 ∨ 256 < blen then .error .overflow else .ok (overlay src blen.toNat dbuf)

/-- A byte of `dbuf`. -/
def dbufAt (dbuf : Vector Byte 256) (i : Nat) : Except HubFault Byte :=
  if h : i < 256 then .ok dbuf[i] else .error .badIndex

/-- A NUL is stored in `dbuf`. -/
def dbufEnd (dbuf : Vector Byte 256) (i : Nat) : Except HubFault (Vector Byte 256) :=
  if h : i < 256 then .ok (dbuf.set i chNul) else .error .overflow

/-- What is usable of the buffer of a new hub: the last two characters before the NUL say how much. -/
def usableNew (dbuf : Vector Byte 256) (blen : Nat) (tmp : Vector Octet 2) : Except HubFault Str := do
  let size0 ← dbufAt dbuf (blen - 3)
  let size1 ← dbufAt dbuf (blen - 2)
  let tmp := (← hexDecode [size0, size1] 2 tmp).getD tmp
  let usableLen := tmp[0].toNat
  if 0 < usableLen then do
    let dbuf ← dbufEnd dbuf usableLen
    .ok (dbuf.toList.take usableLen)
  else .ok []

/-- What is usable of a buffer: an old hub does not say how much is. -/
def usable (hubtype : HubType) (dbuf : Vector Byte 256) (blen : Nat) (tmp : Vector Octet 2) : Except HubFault Str :=
  match hubtype with
  | .new => usableNew dbuf blen tmp
  | .old => .ok (dbuf.toList.take blen)

/-- The zeros that stand behind what is added. -/
def zeroPad : Str := List.replicate 60 48

/-- The work buffer is shown in `debugbuffer`. -/
def showWorkbuf (hub : Buffstatus) : Except HubFault Buffstatus :=
  let usableLen := hub.workbuf.length
  -- the greater of the two is where the NUL is stored
  let last := if 4095 < usableLen then usableLen else 4095
  if last < 4096 then .ok (if hub.hubhtmlstate = .wclear ∧ usableLen = 0 then { hub with hubhtmlstate := .idle } else hub)
  else .error .overflow

/-- What is usable is added to the work buffer, and the hub is told to clear its own. -/
def addWorkbuf (hub : Buffstatus) (added : Str) : Except HubFault Buffstatus :=
  showWorkbuf <|
    if 0 < added.length then { hub with workbuf := hub.workbuf ++ added ++ zeroPad, clears := hub.clears + 1 } else hub

/-- What is done with a body: the length is compared when the characters have been copied. -/
def bufStatus (hub : Buffstatus) (body : Str) (dbuf : Vector Byte 256) (tmp : Vector Octet 2) : Except HubFault Buffstatus :=
  let buf := body ++ [chNul]
  match strstr (str "<BS>") (cstr buf) with
  | none => .ok hub
  | some b =>
    let bstart := b + 4
    match strstr (str "</BS>") (cstr buf) with
    | none => .ok hub
    | some e => do
      let buf := buf.set e chNul
      let bend := e + 1
      let blen := (bend : Int) - bstart
      let dbuf ← dbufCopy (buf.drop bstart) blen dbuf
      if 256 < blen then .ok hub
      else
        let hubtype := if 202 ≤ blen then HubType.new else .old
        let added ← usable hubtype dbuf blen.toNat tmp
        addWorkbuf { hub with hubtype := some hubtype } added

/-- `hubhtml_buf_request_cb`: none where a failed authentication ends the program. -/
def hubhtmlBufRequestCb (hub : Buffstatus) (req : Option HubReply) (dbuf : Vector Byte 256) (tmp : Vector Octet 2) :
    Except HubFault (Option Buffstatus) :=
  match req with
  | none => .ok (some hub)
  | some reply =>
    if reply.code = 200 then
      if reply.body.length = 0 then .ok (some hub) else (bufStatus hub reply.body dbuf tmp).map some
    else if reply.code = 401 then .ok none
    else .ok (some hub)

end Gnhast.Insteon
