import Gnhast.Insteoncoll
import Gnhast.Lib.Slots
import Gnhast.Lib.Scanf
import Gnhast.Lib.Lines

/-!
# Link databases

The tables of links that `insteon_common.c` reads from the devices, one record a message, and the files in which `insteon_aldb.c`
keeps them. A record says its own address, from which the number of its slot in the table is computed.
-/

namespace Gnhast.Insteon

open CStr Slots

def aldblinkMaster : Octet := 0x40

/-! ## Reading records -/

/-- The record in the bytes D1 to D14 of a message. -/
def aldbRecord (data : Vector Octet 14) : Aldb :=
  { addr := data[3].setWidth 16 ||| data[2].setWidth 16 <<< 8, lflags := data[5], group := data[6]
    devaddr := #v[data[7], data[8], data[9]], ldata1 := data[10], ldata2 := data[11], ldata3 := data[12] }

/-- The number of a record: `int`s are divided, towards zero. -/
def recnoOf (addr : BitVec 16) : Int := (0x0FFF - (addr.toNat : Int)).tdiv 8

/-- A record with an address. -/
def Aldb.used (r : Aldb) : Bool := r.addr != 0

/-- The uid of the group of a device: what follows the address in its location is not copied. -/
def aldbGroupUid (loc : Str) (group : Octet) : Str := (if loc.length = 8 then loc else loc.take 8) ++ chMinus :: hex2 group

/-- A group gets a member, once. -/
def addMember (d : DevId) (members : List DevId) : List DevId := if d ∈ members then members else members ++ [d]

/-- The group that a record of a controller belongs to, with the device and the one it is linked to. -/
def buildGroup (d : DevId) (record : Aldb) (coll : Coll) : Coll :=
  let gn := aldbGroupUid (coll.dev d).loc record.group
  let members := addMember d ((coll.devgroups gn).getD [])
  let members := match coll.devices (addrToString record.devaddr) with
    | some link => addMember link members
    | none => members
  { coll with devgroups := Function.update coll.devgroups gn (some members) }

/-- The last record of a table is all zeros. -/
def lastRecord (data : Vector Octet 14) : Bool := (data.toList.drop 5).take 8 == List.replicate 8 0

/-- `plm_handle_aldb`: the table and the groups, and whether it was the last record. The search at the end assigns the length only
when it finds a record without an address. -/
def plmHandleAldb (d : DevId) (data : Vector Octet 14) (coll : Coll) : Except Fault (Coll × Bool) :=
  let record := aldbRecord data
  let recno := recnoOf record.addr
  if (aldbMaxsize : Int) ≤ recno then .ok (coll, decide (recno ≤ aldbMaxsize * 3))
  else if recno < 0 then .ok (coll, false)
  else if h : recno.toNat < aldbMaxsize then
    let coll := coll.modDev d fun dev => { dev with dd := { dev.dd with aldb := dev.dd.aldb.set recno.toNat record } }
    let coll := if record.lflags &&& aldblinkMaster ≠ 0 then buildGroup d record coll else coll
    let coll := coll.modDev d fun dev =>
      { dev with dd := { dev.dd with aldblen := firstFree Aldb.used dev.dd.aldblen dev.dd.aldb.toList } }
    .ok (coll, lastRecord data)
  else .error .bufferOverflow

/-! ## Files of records -/

/-- The line for a record. -/
def aldbLine (r : Aldb) : Str :=
  addrToString r.devaddr ++ chSpace :: hex2 r.group ++ chSpace :: hex2 r.ldata1 ++ chSpace :: hex2 r.ldata2 ++
    chSpace :: hex2 r.ldata3 ++ chSpace :: hex2 r.lflags ++ [chLf]

/-- `dump_aldb`, to a file that can be opened. -/
def dumpAldb (dd : InsteonDevdata) : Str := ((dd.aldb.toList.take dd.aldblen).map aldbLine).flatten

/-- The lines that `fgetln` returns, without their line feeds; the last one may have none. -/
def fgetlnLines (file : Str) : List Str :=
  let p := Lines.cut chLf file
  if p.2 = [] then p.1 else p.1 ++ [p.2]

/-- `%X.%X.%X %X %X %X %X %X`. -/
def aldbFormat : List Directive :=
  [.x, .char chDot, .x, .char chDot, .x, .blank, .x, .blank, .x, .blank, .x, .blank, .x, .blank, .x]

/-- The locals of `parse_aldbfile` after a `sscanf`: those it does not assign keep their values. -/
def scanLocals (vals : Vector (BitVec 32) 8) (line : Str) : Vector (BitVec 32) 8 :=
  let scanned := sscanf aldbFormat (cstr line)
  Vector.ofFn fun j => scanned.getD j vals[j]

/-- The record for a line. -/
def fileRecord (i : Nat) (vals : Vector (BitVec 32) 8) : Aldb :=
  { addr := 0x0FFF - BitVec.ofNat 16 (i * 8)
    devaddr := #v[vals[0].setWidth 8, vals[1].setWidth 8, vals[2].setWidth 8], group := vals[3].setWidth 8
    ldata1 := vals[4].setWidth 8, ldata2 := vals[5].setWidth 8, ldata3 := vals[6].setWidth 8, lflags := vals[7].setWidth 8 }

/-- The second loop of `parse_aldbfile`. -/
def parseLines : List Str → Nat → Vector (BitVec 32) 8 → InsteonDevdata → Except Fault InsteonDevdata
  | [], _, _, dd => .ok dd
  | line :: lines, i, vals, dd =>
    if h : i < aldbMaxsize then
      let vals := scanLocals vals line
      parseLines lines (i + 1) vals { dd with aldb := dd.aldb.set i (fileRecord i vals) }
    else .error .bufferOverflow

/-- `parse_aldbfile`, on a file that can be opened: none when the file is too big, which ends the program. `junk` is what the locals
hold before they are assigned. -/
def parseAldbfile (junk : Vector (BitVec 32) 8) (file : Str) (dd : InsteonDevdata) : Except Fault (Option InsteonDevdata) :=
  let lines := fgetlnLines file
  if aldbMaxsize < lines.length then .ok none
  else (parseLines lines 0 junk { dd with aldblen := lines.length }).map some

end Gnhast.Insteon
