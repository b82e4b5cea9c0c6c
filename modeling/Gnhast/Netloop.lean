import Gnhast.Cmdhandler
import Gnhast.Lib.Lines
import Gnhast.Lib.Runs

/-!
# The network loop

The callbacks of `netloop.c` and the timers of `gnhastd.c`, and the server as a transition system: an event is something that
happens to the process (a connection, bytes of a client, the end of a connection, a timer), and a step is the callback it
fires. What one call of `buf_read_cb` does with the lines it reads is a run of `line` events.
-/

namespace Gnhast

open CStr

/-! ## Reading lines -/

/-- `EVBUFFER_EOL_CRLF`: a line ends in a line feed, with a carriage return before it or not. -/
def stripCr (l : Str) : Str := if l.getLast? = some chCr then l.dropLast else l

/-- What is read of a line that was written. -/
def readLine (line : Str) : Str := stripCr (line.takeWhile (fun c => c != chLf))

/-- `evbuffer_readln`, as it is documented. -/
abbrev LineReader : Type := Lines.Reader chLf stripCr

variable (F : Doubles)

/-- What a read callback makes of a line: the command word and the arguments. An empty line, and one without words, end the
callback. -/
def readCommand (data : Str) : Option (Str × List PArg) :=
  if data = [] then none
  else
    match parseNetcommand (cstr data) with
    | none => none
    | some words => some (words.headD [], parseCommand F words)

/-- The loop of `buf_read_cb` on an input buffer, with what `parsed_command` does: the rest of the buffer and the state. -/
def bufReadCb {σ : Type} (R : LineReader) (parsed : Str × List PArg → σ → σ) (input : Str) (st : σ) : Str × σ :=
  R.loop (readCommand F) parsed input st

/-- The loop of `gnhastd_read_cb` in `collcmd.c`, with what the collector's `parsed_command` does. -/
def gnhastdReadCb {σ : Type} (R : LineReader) (parsed : Str × List PArg → σ → σ) (input : Str) (st : σ) : Str × σ :=
  R.loop (readCommand F) parsed input st

/-- A line of a client that `buf_read_cb` has read: the client is marked, and the command is executed. -/
def handleLine (env : Env) (client : ClientId) (data : Str) (s : Server) : Except Fault Reply :=
  let s := s.modClient client fun c => { c with lastupd := env.now }
  match readCommand F data with
  | none => .ok { srv := s }
  | some (cmdword, args) => parsedCommand F env cmdword args client s

/-! ## Connections -/

/-- `inet_ntoa`. -/
def inetNtoa (a b c d : Byte) : Str :=
  decNat a.toNat ++ str "." ++ decNat b.toNat ++ str "." ++ decNat c.toNat ++ str "." ++ decNat d.toNat

/-- `accept_cb`, and `sslaccept_cb`. -/
def acceptCb (now : Int) (host : Str) (s : Server) : Server :=
  let c := s.nextClient
  { s with
    client := Function.update s.client c { host := some host, lastupd := now }
    nextClient := c + 1
    clients := s.clients ++ [c] }

/-- The loop of `buf_error_cb` over all devices: the client stops watching. -/
def unwatch (client : ClientId) : List DevId → Server → Server
  | [], s => s
  | d :: ds, s =>
    let n := (s.dev d).watchers.count client
    let s := s.modDev d fun dev => { dev with watchers := dev.watchers.filter (fun c => c ≠ client) }
    unwatch client ds (s.modClient client fun c => { c with watched := c.watched - BitVec.ofNat 32 n })

/-- The loop of `buf_error_cb` over the client's devices: they lose their collector. -/
def disown : List DevId → Server → Server
  | [], s => s
  | d :: ds, s => disown ds (s.modDev d fun dev => { dev with collector := none, onqClient := false })

/-- `buf_error_cb`. -/
def bufErrorCb (env : Env) (client : ClientId) (s : Server) : Server :=
  let s := storeCollDev F client (intWord env collectorBad) s
  let s := unwatch client s.alldevs s
  let s :=
    if (s.client client).provider then
      (disown (s.client client).devices s).modClient client fun c => { c with devices := [] }
    else s
  let s := s.modClient client fun c => { c with wdevices := [] }
  { s with clients := s.clients.erase client }

/-! ## Timers -/

/-- `cb_timerdev_update`: every running timer device counts down. -/
def timerdevUpdate : List DevId → Server → Server
  | [], s => s
  | d :: ds, s =>
    let dev := s.dev d
    if dev.devType = .timer ∧ dev.devSubtype = .timer then
      let count := (getDataDev F dev .data (.raw 0)).uint F
      if count = 0 then timerdevUpdate ds s
      else timerdevUpdate ds (s.modDev d (storeDataDev F .data (.raw ((count - 1).setWidth 64))))
    else timerdevUpdate ds s

/-- `ping_clients_cb`. -/
def pingClientsCb (s : Server) : Reply :=
  { srv := s
    out := (s.clients.filter (fun c => (s.client c).collDev ≠ none)).map (fun c => Out.write c gnPing) }

/-- `HEALTH_CHECK_RATE`, in seconds. -/
def healthCheckRate : Int := 60

/-- `health_update_clients_cb`. -/
def healthUpdateClientsCb (env : Env) : List ClientId → Server → Server
  | [], s => s
  | c :: cs, s =>
    if healthCheckRate * 3 < env.now - (s.client c).lastupd then
      healthUpdateClientsCb env cs (storeCollDev F c (intWord env collectorBad) s)
    else healthUpdateClientsCb env cs s

/-! ## The transition system -/

/-- What happens to the process. -/
inductive Event
  /-- A client connects from an address. -/
  | accept (now : Int) (a b c d : Byte)
  /-- Bytes of a client arrive that complete no line. -/
  | data (c : ClientId) (now : Int)
  /-- A line of a client is read. -/
  | line (c : ClientId) (text : Str) (env : Env)
  /-- The connection of a client ends. -/
  | close (c : ClientId) (env : Env)
  /-- Everything has been written to a client that asked to be disconnected. -/
  | drained (c : ClientId) (env : Env)
  /-- The feed timer of a client fires. -/
  | feed (c : ClientId) (now : Int)
  | timer
  | ping
  | health (env : Env)
  /-- The timer for the configuration file fires. -/
  | devconf

/-- The events that can happen in a state: a closed client has no callbacks any more. -/
def Event.possible (s : Server) : Event → Bool
  | .data c _ | .line c _ _ | .close c _ => decide (c ∈ s.clients)
  | .drained c _ => decide (c ∈ s.clients) && (s.client c).closeOnEmpty
  | .feed c _ => decide (c ∈ s.clients) && (s.client c).tev
  | .accept .. | .timer | .ping | .health _ | .devconf => true

/-- The callback an event fires. -/
def handle (s : Server) : Event → Except Fault Reply
  | .accept now a b c d => .ok { srv := acceptCb now (inetNtoa a b c d) s }
  | .data c now => .ok { srv := s.modClient c fun cl => { cl with lastupd := now } }
  | .line c text env => handleLine F env c text s
  | .close c env | .drained c env => .ok { srv := bufErrorCb F env c s }
  | .feed c now => feeddataCb F now c s
  | .timer => .ok { srv := timerdevUpdate F s.alldevs s }
  | .ping => .ok (pingClientsCb s)
  | .health env => .ok { srv := healthUpdateClientsCb F env s.clients s }
  | .devconf => (devconfDumpCb s).map fun out => { srv := s, out := out }

/-- One step: the reply of the callback, and none when the event cannot happen or a fault stops the process. -/
def react (s : Server) (e : Event) : Option Reply := if e.possible s then (handle F s e).toOption else none

/-- The memory after one step. -/
def step (s : Server) (e : Event) : Option Server := (react F s e).map (fun r => r.srv)

end Gnhast
