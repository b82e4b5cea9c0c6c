import Gnhast.Insteon

/-!
# Reading from the PLM

`plm_readcb` of `insteon_common.c` and its table of lengths. libevent calls it once for each piece of input that arrives; it takes
one command at most from the input buffer and queues it. Left out is the log.
-/

namespace Gnhast.Insteon

def plmAlinkComplete : Octet := 0x53
def plmButtonevent : Octet := 0x54
def plmReset : Octet := 0x55
def plmAlinkCfailrep : Octet := 0x56
def plmAlinkRecord : Octet := 0x57
def plmAlinkCstatusrep : Octet := 0x58
def plmAlinkSend : Octet := 0x61
def plmAlinkCancel : Octet := 0x65
def plmSethost : Octet := 0x66
def plmFullReset : Octet := 0x67
def plmSetAck1 : Octet := 0x68
def plmAlinkGetlastrecord : Octet := 0x6C
def plmLedon : Octet := 0x6D
def plmLedoff : Octet := 0x6E
def plmAlinkModify : Octet := 0x6F
def plmSetNak1 : Octet := 0x70
def plmSetAck2 : Octet := 0x71
def plmSleep : Octet := 0x72

/-- The entries of `plm_cmdlen`. -/
def cmdlenTable : List (Octet × Nat) :=
  [(plmRecvStd, 11), (plmRecvExt, 25), (plmRecvX10, 4), (plmAlinkComplete, 10), (plmButtonevent, 3), (plmReset, 2),
    (plmAlinkCfailrep, 7), (plmAlinkRecord, 10), (plmAlinkCstatusrep, 3), (plmGetinfo, 9), (plmAlinkSend, 6), (plmSend, 9),
    (plmSendX10, 5), (plmAlinkStart, 5), (plmAlinkCancel, 3), (plmSethost, 6), (plmFullReset, 3), (plmSetAck1, 4),
    (plmAlinkGetfirst, 3), (plmAlinkGetnext, 3), (plmSetconf, 4), (plmAlinkGetlastrecord, 3), (plmLedon, 3), (plmLedoff, 3),
    (plmAlinkModify, 12), (plmSetNak1, 3), (plmSetAck2, 5), (plmSleep, 3), (plmGetconf, 6)]

/-- `plm_cmdlen`, zero where it has no entry. -/
def plmCmdlen (cmd : Octet) : Nat := (cmdlenTable.lookup cmd).getD 0

/-- The length of an extended echo. -/
def extSendLen : Nat := 23

/-- The connection to a PLM: its input buffer and the queue of what was read. -/
structure PlmConn where
  evbuf : List Octet := []
  workfifo : List Frame := []
deriving DecidableEq

/-- `plm_readcb`. The length of the buffer is read before a negative answer is drained. -/
def plmReadcb (conn : PlmConn) : PlmConn :=
  match conn.evbuf with
  | b0 :: b1 :: _ =>
    let bufferLen := conn.evbuf.length
    if b0 ≠ plmStart then { conn with evbuf := conn.evbuf.drop 1 }
    else
      let evbuf := if b1 = plmcmdNak then conn.evbuf.drop 2 else conn.evbuf
      let clen := plmCmdlen b1
      if clen = 0 then { conn with evbuf := evbuf.drop 2 }
      else if bufferLen < clen then { conn with evbuf := evbuf }
      else
        let clen := if b1 = plmSend ∧ evbuf.getD 5 0 &&& plmflagExt ≠ 0 then extSendLen else clen
        if bufferLen < clen then { conn with evbuf := evbuf }
        else { evbuf := evbuf.drop clen, workfifo := conn.workfifo ++ [frameOf (evbuf.take clen)] }
  | _ => conn

/-- A piece of input arrives. -/
def plmArrive (conn : PlmConn) (chunk : List Octet) : PlmConn := plmReadcb { conn with evbuf := conn.evbuf ++ chunk }

/-- Pieces of input arrive one after the other. -/
def plmFeed (conn : PlmConn) (chunks : List (List Octet)) : PlmConn := chunks.foldl plmArrive conn

end Gnhast.Insteon
