import Gnhast.Lemmas.Feeds
import Gnhast.Theorems.Safety

/-!
# Feeds and arithmetic

The rates of feeds divide: the callback of a client's timer divides by each of them, and `cmd_feed` takes remainders by them. No other
event computes a quotient that can fail. In every state that is reached, these two events fail exactly when a list of rates does
not fit.
-/

namespace Gnhast

open CStr Faults

variable (F : Doubles)

/-- The rates that an event divides by fit. -/
def Event.RatesFit (s : Server) : Event → Prop
  | .line c text _ => ∀ args, lineCmd F text = some (.feed, args) → FeedLineFits args c s
  | .feed c now => TickFits now s (s.client c).wdevices
  | .accept .. | .data .. | .close .. | .drained .. | .timer | .ping | .health _ | .devconf => True

end Gnhast
