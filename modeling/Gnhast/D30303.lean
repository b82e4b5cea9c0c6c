import Gnhast.Types

/-!
# Discovery on UDP port 30303

`30303_disc.c`: the records of the answers that are heard (`cb_d30303_read`), and the choice among them when the time is up
(`cb_end_d30303`). A local variable that the code reads before it assigns it is a parameter. Left out are the sockets, the log, and the
address as a number, which nothing reads.
-/

namespace Gnhast.D30303

open CStr

def maxD30303Devs : Nat := 16

/-- `d30303_resp_t`: the three strings are set together. -/
structure D30303Resp where
  ipaddr : Str
  ucHostname : Str
  macaddr : Str
deriving Repr, DecidableEq

/-- `d30303_dev_t`. -/
structure D30303Dev where
  hostname : Option Str := none
  macPrefix : Option Str := none
deriving Repr, DecidableEq

/-- `d30303_list` and `d30303_count`. -/
structure Heard where
  list : List (Option D30303Resp) := List.replicate maxD30303Devs none
  count : Nat := 0
  size : list.length = maxD30303Devs := by rfl
  beyond : ∀ i, count ≤ i → list[i]?.join = none := by
    intro i _
    rw [List.getElem?_replicate]
    split <;> rfl

/-- What becomes of the discovery: `d30303_found_cb` for a record, with the URL and the hostname, or the end of the program. -/
inductive DiscOut
  | found (i : Nat) (url : Str) (hostname : Option Str)
  | shutdown
deriving Repr, DecidableEq

/-- A record in a slot that an answer is for. -/
def Heard.put (s : Heard) (r : D30303Resp) : Heard where
  list := s.list.set s.count (some r)
  count := s.count + 1
  size := by rw [List.length_set, s.size]
  beyond i hi := by
    rw [List.getElem?_set_ne (by omega)]
    exact s.beyond i (by omega)

/-- An answer that leaves no record. -/
def Heard.skip (s : Heard) : Heard :=
  { s with count := s.count + 1, beyond := fun i hi => s.beyond i (by omega) }

/-- The record of what a host sends: a line with its name, up to the first blank, and a line with its MAC address. -/
def recordOf (addr packet : Str) : Option D30303Resp :=
  (splitAt chLf (cstr packet)).map fun (hostname, p) =>
    { ipaddr := addr, ucHostname := hostname.takeWhile fun c => c ≠ chSpace, macaddr := p.takeWhile fun c => c ≠ chCr }

/-- `cb_d30303_read`, for what a host sends. -/
def cbD30303Read (addr packet : Str) (s : Heard) : Except Fault Heard :=
  if 2048 ≤ packet.length then .error .bufferOverflow
  else if maxD30303Devs ≤ s.count + 1 then .ok s.skip
  else
    match recordOf addr packet with
    | none => .ok s.skip
    | some r => .ok (s.put r)

/-- The answers that are heard until the time is up. -/
def hear : List (Str × Str) → Heard → Except Fault Heard
  | [], s => .ok s
  | (addr, packet) :: answers, s => cbD30303Read addr packet s >>= hear answers

/-- `"http://%s"`. -/
def httpUrl (host : Str) : Str := str "http://" ++ host

/-- `mp_match` for a slot. -/
def mpMatch (dev : D30303Dev) (slot : Option D30303Resp) : Bool :=
  match dev.macPrefix with
  | none => true
  | some m => slot.any fun r => prefixCase m r.macaddr

/-- `hn_match` for a slot. -/
def hnMatch (dev : D30303Dev) (slot : Option D30303Resp) : Bool :=
  match dev.hostname with
  | none => false
  | some h => slot.any fun r => sameCase h r.ucHostname

/-- `ip_match` is set for a slot. -/
def ipMatchSet (dev : D30303Dev) (slot : Option D30303Resp) : Bool :=
  match dev.hostname with
  | none => true
  | some h => slot.any fun r => sameCase h r.ipaddr

/-- The loop of `cb_end_d30303` over the slots from the `i`th on, with the value of `ip_match`, which is never reset. -/
def endFrom (dev : D30303Dev) : Nat → List (Option D30303Resp) → Bool → Except Fault (Option (Nat × Str))
  | _, [], _ => .ok none
  | i, slot :: slots, ipMatch =>
    let ipMatch := ipMatch || ipMatchSet dev slot
    if hnMatch dev slot && mpMatch dev slot then
      match slot with
      | some r => .ok (some (i, httpUrl r.ucHostname))
      | none => .error .nullString
    else if ipMatch && mpMatch dev slot then
      match slot with
      | some r => .ok (some (i, httpUrl r.ipaddr))
      | none => .error .nullString
    else endFrom dev (i + 1) slots ipMatch

/-- The end of `cb_end_d30303`, with the record and the URL that the loop found. -/
def discEnd (hostname : Option Str) : Option (Nat × Str) → DiscOut
  | some (i, url) => .found i url hostname
  | none => .shutdown

/-- `cb_end_d30303`: `ipMatch` is what the variable of that name holds before it is assigned. -/
def cbEndD30303 (ipMatch : Bool) (dev : D30303Dev) (s : Heard) : Except Fault DiscOut :=
  if dev.hostname = none ∧ dev.macPrefix = none ∧ s.count ≠ 1 then .ok .shutdown
  else
    let hostname :=
      if dev.hostname = none ∧ dev.macPrefix = none then (s.list[0]?.join).map D30303Resp.ucHostname else dev.hostname
    (endFrom { dev with hostname } 0 s.list ipMatch).map (discEnd hostname)

end Gnhast.D30303
