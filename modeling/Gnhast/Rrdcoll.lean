import Gnhast.Cmdhandler

/-!
# The round robin database collector

`rrd_update_dev` of `rrdcoll/collector.c`: one line with the time and the number of an updated device, for the cache daemon or
for the database itself.
-/

namespace Gnhast.Rrdcoll

open CStr

/-- What an update of a device goes to. -/
inductive RrdOut
  /-- A line for the cache daemon. -/
  | cached (line : Str)
  /-- `rrdupdate` with a file and the values. -/
  | update (file values : Str)
deriving Repr, DecidableEq

/-- The size of the buffer of `rrd_update_dev`. -/
def rrdBufSize : Nat := 64

variable (F : Doubles)

/-- The number `rrd_update_dev` prints, from a local with the given contents. -/
def rrdNumber (stack : Word) (dev : Device) : Str :=
  let get := getDataDev F dev .data stack
  match datatypeDev dev with
  | .uint => fmtD (get.uint F)
  | .double => fmtF (get.double F)
  | .ll => fmtJd (get.int64 F)

/-- `rrd_update_dev`, for the files of the configured devices. -/
def rrdUpdateDev (usecache : Bool) (file : Str → Option Str) (lastUpd : BitVec 64) (stack : Word) (dev : Device) :
    Except Fault RrdOut :=
  match file dev.uid with
  | none => .error .nullString
  | some f =>
    (sprintf rrdBufSize (fmtJd lastUpd ++ str ":" ++ rrdNumber F stack dev)).map fun buf =>
      if usecache then .cached (str "UPDATE " ++ f ++ str " " ++ buf ++ [chLf]) else .update f buf

end Gnhast.Rrdcoll
