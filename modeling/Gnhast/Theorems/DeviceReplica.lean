import Gnhast.Lemmas.Replica

/-!
# The list of devices at a collector

A collector that executes the lines of an `ldevs` command has the devices of the list, apart from what its `cmd_register` does
not do: it reads no scale, it cuts an rrdname to 19 bytes, and for a device the server has no rrdname for it makes one of the
name, or frees the one it has. So the list is replicated exactly when none of this matters for any device on it.
-/

namespace Gnhast

open CStr Keyed Collcmd

variable (F : Doubles)

/-! ## What is to be had -/

end Gnhast
