import Gnhast.Lemmas.Confdump
import Gnhast.Lemmas.Groups

/-!
# Groups in the file

`new_conf_from_devgrp` sets the lists of a group's section index by index. So when a group has fewer members or children than the
section holds from an earlier dump, the last of those stay in the file, behind the ones the group has. Otherwise the section
lists what the group has, and a server that starts from the file has the same groups.
-/

namespace Gnhast

open CStr Keyed

/-! ## What is written -/

variable {F : Doubles}

end Gnhast
