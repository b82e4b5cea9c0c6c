import Gnhast.Lemmas.Memory
import Gnhast.Lib.Runs
import Gnhast.Owsrvcoll

/-!
# Polling an owserver

A poll is handed on from callback to callback: a request waits for its reply, the reply asks the next device, and behind the last
one a timer starts over from the top. Two of the exits of `ows_schedule_devread` leave neither, for a counter or a wetness sensor
without `localdata`. The end of `ows_buf_read_cb` goes on behind the current device, also when the reply was a list and the current
device is the first one, which is so left out; and a list that failed leaves all of them out.
-/

namespace Gnhast.Owsrvcoll

open CStr Runs

variable (F : Doubles) (conf : OwsConf)

/-! ## Runs -/

/-- A reply with all of its data. -/
def ClientMsg.Complete (msg : ClientMsg) : Prop := msg.buf.length = msg.payload.toInt.toNat

/-- The collector with the requests it has written. -/
structure OwsSys where
  ows : Ows
  /-- How many replies are still to come. -/
  inflight : Nat
  /-- The devices that were asked since the last start over from the top. -/
  asked : List Nat
  /-- For every start over from the top, the devices that were asked before it, and those that should have been. -/
  passes : List (List Nat × List Nat)

/-- What happens to the collector. -/
inductive OwsEvent
  | reply (msg : { msg : ClientMsg // msg.Complete })
  | timer

/-- A device of a subtype that `ows_schedule_devread` can read. -/
def OwsDev.canRead (dev : OwsDev) : Bool :=
  match dev.dev.devSubtype with
  | .temp | .humid | .lux | .pressure | .wetness | .counter => true
  | _ => false

/-- The positions below `n` of devices that can be read. -/
def readable (devs : List OwsDev) (n : Nat) : List Nat := (List.range n).filter fun i => (devs[i]?).any OwsDev.canRead

/-- The requests among what is written. -/
def requests (out : List OwsOut) : Nat := out.countP fun o => match o with | .request _ => true | _ => false

/-- Something written asks a device. -/
def asks (out : List OwsOut) : Bool := out.any fun o => match o with | .request msg => msg.type == .read | _ => false

/-- The system after a callback. The loop number moves with every start over from the top. -/
def OwsSys.after (t : OwsSys) (inflight : Nat) (r : Ows × List OwsOut) : OwsSys where
  ows := r.1
  inflight := inflight + requests r.2
  asked := if r.1.loopnr = t.ows.loopnr then t.asked ++ (if asks r.2 then r.1.currentDev.toList else []) else []
  passes := if r.1.loopnr = t.ows.loopnr then t.passes else t.passes ++ [(t.asked, readable r.1.alldevs r.1.alldevs.length)]

/-- The owserver replies only to requests, and the timer fires only when it is pending. A ping is no reply yet. -/
def owsStep (t : OwsSys) : OwsEvent → Option OwsSys
  | .reply msg =>
    if t.inflight = 0 then none
    else
      match owsBufReadCb F conf (some msg.1) t.ows with
      | .ok r => some (t.after (if msg.1.ping then t.inflight else t.inflight - 1) r)
      | .error _ => none
  | .timer => if t.ows.timerPending then some (t.after t.inflight (owsTimerCb conf t.ows)) else none

/-- The collector as it starts, with the devices of its configuration. -/
def owsStart (devs : List OwsDev) : OwsSys where
  ows := (owsScheduleDirall conf { alldevs := devs }).1
  inflight := 1
  asked := []
  passes := []

/-- A reply is still to come or the timer is pending, and between two starts over from the top every device that can be read was
asked once, in order. -/
structure Polls (t : OwsSys) : Prop where
  alive : 0 < t.inflight ∨ t.ows.timerPending = true
  passes : ∀ p ∈ t.passes, p.1 = p.2

/-! ## The condition -/

/-- The first device in the rest of a list that is not skipped has a path. -/
def scanFits : List OwsDev → Bool
  | [] => true
  | dev :: rest =>
    match owsRead dev with
    | .path _ => true
    | .giveUp => false
    | .skip => scanFits rest

/-- A step comes to no device that it gives up on; a list of devices arrives only when the first device cannot be read, and fails to
arrive only when none can be read. -/
def pollFits (t : OwsSys) : OwsEvent → Bool
  | .timer => t.ows.currentDev.all fun i => scanFits (t.ows.alldevs.drop i)
  | .reply msg =>
    msg.1.ping ||
      match t.ows.lastcmd with
      | .read => t.ows.currentDev.all fun i => scanFits (t.ows.alldevs.drop (i + 1))
      | .dirall =>
        if msg.1.payload.toInt < 1 then t.ows.alldevs.all fun dev => !dev.canRead
        else
          let devs := (owsHandleDirall conf t.ows (cstr (msg.1.buf.take msg.1.payload.toNat))).1.alldevs
          (devs.head?.all fun dev => !dev.canRead) && scanFits (devs.drop 1)

/-- The steps that the condition allows. -/
def PollFits (t : OwsSys) (e : OwsEvent) : Prop := pollFits conf t e = true

instance (t : OwsSys) (e : OwsEvent) : Decidable (PollFits conf t e) := inferInstanceAs (Decidable (_ = true))

/-! ## One scan -/

/-- The turn of the collector: a list is asked for, a device is asked, or the timer is pending. -/
inductive Turn (s : Ows) : Nat → List Nat → Prop
  | listing (h1 : s.timerPending = false) (h2 : s.lastcmd = .dirall) (h3 : s.currentDev = none) : Turn s 1 []
  | reading {i : Nat} (h1 : s.timerPending = false) (h2 : s.lastcmd = .read) (h3 : s.currentDev = some i)
      (h4 : i < s.alldevs.length) : Turn s 1 (readable s.alldevs (i + 1))
  | resting (h1 : s.timerPending = true) (h2 : ∀ i, s.currentDev = some i → i = 0 ∧ s.alldevs ≠ []) : Turn s 0 []

theorem readable_succ_of_not {devs : List OwsDev} {n : Nat} (h : (devs[n]?).any OwsDev.canRead = false) :
    readable devs (n + 1) = readable devs n := by
  unfold readable
  rw [List.range_succ, List.filter_append, List.filter_cons_of_neg (by simp [h])]
  simp

theorem readable_succ_of {devs : List OwsDev} {n : Nat} (h : (devs[n]?).any OwsDev.canRead = true) :
    readable devs (n + 1) = readable devs n ++ [n] := by
  unfold readable
  rw [List.range_succ, List.filter_append, List.filter_cons_of_pos (by simp [h])]
  simp

theorem canRead_of_path {dev : OwsDev} {buf : Str} (h : owsRead dev = .path buf) : dev.canRead = true := by
  unfold owsRead at h
  unfold OwsDev.canRead
  generalize dev.dev.devSubtype = st at h ⊢
  cases st <;> first | rfl | cases h

theorem canRead_of_skip {dev : OwsDev} (h : owsRead dev = .skip) : dev.canRead = false := by
  unfold owsRead at h
  unfold OwsDev.canRead
  generalize dev.dev.devSubtype = st at h
  generalize dev.localdata = m at h
  cases st <;> cases m <;> simp at h ⊢
  all_goals
    split at h <;> cases h

/-- How a scan from a position ends: a device is asked, and those before it cannot be read, or the list is over. -/
inductive Scanned (s : Ows) (i : Nat) : Ows × List OwsOut → Prop
  | ask {j : Nat} {out : List OwsOut} (hj : j < s.alldevs.length)
      (hread : readable s.alldevs (j + 1) = readable s.alldevs i ++ [j]) (hreq : requests out = 1) (hask : asks out = true) :
      Scanned s i ({ s with lastcmd := .read, currentDev := some j }, out)
  | ended (hread : readable s.alldevs s.alldevs.length = readable s.alldevs i) : Scanned s i (startOver conf s, [])

theorem requests_sendRequest (s : Ows) (msg : ServerMsg) : requests (sendRequest s msg) = 1 := by
  unfold requests sendRequest
  cases s.persistent <;> simp

theorem asks_sendRequest (s : Ows) (msg : ServerMsg) : asks (sendRequest s msg) = (msg.type == .read) := by
  unfold asks sendRequest
  cases s.persistent <;> simp

/-- A scan that fits asks a device or comes to the end of the list. -/
theorem scanned_owsScheduleDevread {rest : List OwsDev} (hfit : scanFits rest = true) {i : Nat} {s : Ows} (hrest : s.alldevs.drop i = rest)
    (hi : i ≤ s.alldevs.length) : Scanned conf s i (owsScheduleDevread conf rest i s) := by
  induction rest generalizing i s with
  | nil =>
    have hlen : s.alldevs.length = i := by
      have := List.drop_eq_nil_iff.mp hrest
      omega
    exact .ended (by rw [hlen])
  | cons dev rest ih =>
    have hlt : i < s.alldevs.length := by
      rw [← Nat.not_le, ← List.drop_eq_nil_iff, hrest]
      simp
    have hget : s.alldevs[i]? = some dev := by
      have h0 := congrArg (fun l => l[0]?) hrest
      simpa using h0
    have htail : s.alldevs.drop (i + 1) = rest := by
      rw [← List.tail_drop, hrest, List.tail_cons]
    unfold owsScheduleDevread
    unfold scanFits at hfit
    split
    · rename_i buf hpath
      refine .ask hlt (readable_succ_of ?_) (requests_sendRequest s _) (asks_sendRequest s _)
      rw [hget, Option.any_some]
      exact canRead_of_path hpath
    · rename_i hgive
      rw [hgive] at hfit
      cases hfit
    · rename_i hskip
      rw [hskip] at hfit
      have hnot : readable s.alldevs (i + 1) = readable s.alldevs i := by
        refine readable_succ_of_not ?_
        rw [hget, Option.any_some]
        exact canRead_of_skip hskip
      split
      · have h := ih hfit htail (by omega)
        generalize owsScheduleDevread conf rest (i + 1) s = r at h
        cases h with
        | ask hj hread hreq hask => exact .ask hj (hnot ▸ hread) hreq hask
        | ended hread => exact .ended (hnot ▸ hread)
      · have h := ih (s := { s with currentDev := some (i + 1) }) hfit htail (Nat.succ_le_of_lt hlt)
        generalize owsScheduleDevread conf rest (i + 1) { s with currentDev := some (i + 1) } = r at h
        cases h with
        | ask hj hread hreq hask => exact .ask hj (hnot ▸ hread) hreq hask
        | ended hread => exact .ended (hnot ▸ hread)

/-! ## One step -/

/-- The collector has its turn, and every pass so far was complete. -/
structure InTurn (t : OwsSys) : Prop where
  turn : Turn t.ows t.inflight t.asked
  passes : ∀ p ∈ t.passes, p.1 = p.2

/-- A start over behind a complete pass. -/
theorem InTurn.startOver {t : OwsSys} {s : Ows} (hl : s.loopnr = t.ows.loopnr) (hpasses : ∀ p ∈ t.passes, p.1 = p.2)
    (hasked : t.asked = readable s.alldevs s.alldevs.length) : InTurn (t.after 0 (startOver conf s, [])) := by
  have hne : (Owsrvcoll.startOver conf s).loopnr ≠ t.ows.loopnr := by
    have hstep : ∀ x : BitVec 32, x + 1 ≠ x := by
      intro x h
      simp at h
    rw [← hl]
    exact hstep s.loopnr
  unfold OwsSys.after
  rw [if_neg hne, if_neg hne]
  refine ⟨.resting rfl ?_, ?_⟩
  · intro i hi
    simp only [Owsrvcoll.startOver] at hi
    split at hi
    · cases hi
    · rename_i hcond
      cases hi
      exact ⟨rfl, fun hnil => hcond (Or.inr hnil)⟩
  · intro p hp
    rcases List.mem_append.mp hp with hp | hp
    · exact hpasses p hp
    · rw [List.mem_singleton.mp hp]
      exact hasked

/-- A scan goes on with a pass that is complete up to where it starts. -/
theorem InTurn.scanned {t : OwsSys} {s : Ows} {i : Nat} {r : Ows × List OwsOut} (h : Scanned conf s i r)
    (hl : s.loopnr = t.ows.loopnr) (ht : s.timerPending = false) (hpasses : ∀ p ∈ t.passes, p.1 = p.2)
    (hasked : t.asked = readable s.alldevs i) : InTurn (t.after 0 r) := by
  cases h with
  | ask hj hread hreq hask =>
    unfold OwsSys.after
    rw [if_pos hl, if_pos hl, hreq, hask, hasked]
    refine ⟨?_, hpasses⟩
    have hturn := Turn.reading (s := { s with lastcmd := .read, currentDev := some _ }) ht rfl rfl hj
    simp only [hread] at hturn
    exact hturn
  | ended hread => exact .startOver conf hl hpasses (hasked.trans hread.symm)

/-- The end of `ows_buf_read_cb` behind a device. -/
theorem scanned_readcbout {s : Ows} {i : Nat} (hi : s.currentDev = some i) (hlt : i < s.alldevs.length)
    (hfit : scanFits (s.alldevs.drop (i + 1)) = true) : Scanned conf s (i + 1) (readcbout conf s) := by
  unfold readcbout
  rw [hi]
  dsimp only
  split
  · exact scanned_owsScheduleDevread conf hfit rfl (by omega)
  · have hlen : s.alldevs.length = i + 1 := by omega
    exact .ended (by rw [hlen])

/-- Only lines to gnhastd are written. -/
def Lines (out : List OwsOut) : Prop := ∀ o ∈ out, ∃ line, o = .gnhastd line

theorem requests_append_lines {out : List OwsOut} (h : Lines out) (out' : List OwsOut) : requests (out ++ out') = requests out' := by
  have h0 : requests out = 0 := by
    unfold requests
    rw [List.countP_eq_zero]
    intro o ho
    obtain ⟨line, rfl⟩ := h o ho
    simp
  unfold requests at h0 ⊢
  rw [List.countP_append, h0, Nat.zero_add]

theorem asks_append_lines {out : List OwsOut} (h : Lines out) (out' : List OwsOut) : asks (out ++ out') = asks out' := by
  have h0 : asks out = false := by
    unfold asks
    rw [List.any_eq_false]
    intro o ho
    obtain ⟨line, rfl⟩ := h o ho
    simp
  unfold asks at h0 ⊢
  rw [List.any_append, h0, Bool.false_or]

theorem after_sendFirst (t : OwsSys) (n : Nat) {out : List OwsOut} (h : Lines out) (r : Ows × List OwsOut) :
    t.after n (sendFirst out r) = t.after n r := by
  unfold OwsSys.after sendFirst
  rw [requests_append_lines h, asks_append_lines h]

theorem lines_toList (o : Option Str) : Lines (o.map OwsOut.gnhastd).toList := by
  intro x hx
  cases o with
  | none => cases hx
  | some line => exact ⟨line, List.mem_singleton.mp hx⟩

/-- One entry of a list adds at most a device, which does not depend on the rest of the state, and writes only lines. -/
theorem owsHandleEntry_spec (devs : List OwsDev) (p : Str) : ∃ devs' out, Lines out ∧
    ∀ s : Ows, s.alldevs = devs → owsHandleEntry conf s p = ({ s with alldevs := devs' }, out) := by
  unfold owsHandleEntry
  dsimp only
  generalize (if p.head? = some chSlash then p.tail else p) = q
  by_cases hknown : devs.any (fun d => d.dev.uid == q) = true
  · refine ⟨devs, [], fun o ho => (nomatch ho), fun s hs => ?_⟩
    rw [hs, if_pos hknown, ← hs]
  · refine ⟨devs ++ [owsNewDev conf q], owsRegister (owsNewDev conf q), ?_, fun s hs => by rw [hs, if_neg hknown]⟩
    unfold owsRegister
    split
    · exact fun o ho => (nomatch ho)
    · exact lines_toList _

theorem owsHandleEntries_spec (ps : List Str) (devs : List OwsDev) : ∃ devs' out, Lines out ∧
    ∀ s : Ows, s.alldevs = devs → owsHandleEntries conf ps s = ({ s with alldevs := devs' }, out) := by
  induction ps generalizing devs with
  | nil => exact ⟨devs, [], fun o ho => (nomatch ho), fun s hs => by rw [owsHandleEntries, ← hs]⟩
  | cons p ps ih =>
    obtain ⟨devs1, out1, hl1, h1⟩ := owsHandleEntry_spec conf devs p
    obtain ⟨devs2, out2, hl2, h2⟩ := ih devs1
    refine ⟨devs2, out1 ++ out2, ?_, fun s hs => ?_⟩
    · intro o ho
      rcases List.mem_append.mp ho with ho | ho
      · exact hl1 o ho
      · exact hl2 o ho
    · rw [owsHandleEntries, h1 s hs, h2 _ rfl]

/-- A stored reading leaves the devices that can be read as they were. -/
theorem readable_set {devs : List OwsDev} {i : Nat} {d d' : OwsDev} (hi : devs[i]? = some d) (h : d'.canRead = d.canRead)
    (n : Nat) : readable (devs.set i d') n = readable devs n := by
  unfold readable
  congr 1
  funext k
  by_cases hk : i = k
  · subst hk
    have hlt := (List.getElem?_eq_some_iff.mp hi).1
    rw [List.getElem?_set_self hlt, hi, Option.any_some, Option.any_some, h]
  · rw [List.getElem?_set_ne hk]

theorem canRead_owsStore (buf : Str) (d : OwsDev) : OwsDev.canRead { d with dev := owsStore F buf d.dev } = d.canRead := by
  have hst : (owsStore F buf d.dev).devSubtype = d.dev.devSubtype := by
    unfold owsStore
    split <;> rfl
  unfold OwsDev.canRead
  rw [hst]

/-- What a reply to a read leaves behind is the end of the callback, after lines at most. -/
theorem owsHandleRead_cases {s : Ows} {buf : Str} {i : Nat} (hi : s.currentDev = some i) (hlt : i < s.alldevs.length) :
    ∃ devs out, Lines out ∧ devs.length = s.alldevs.length ∧ devs.drop (i + 1) = s.alldevs.drop (i + 1) ∧
      (∀ n, readable devs n = readable s.alldevs n) ∧
      owsHandleRead F conf s buf = .ok (sendFirst out (readcbout conf { s with alldevs := devs })) := by
  unfold owsHandleRead
  have hnone : Lines [] := fun o ho => (nomatch ho)
  by_cases hbuf : buf = []
  · exact ⟨s.alldevs, [], hnone, rfl, rfl, fun _ => rfl, by rw [if_pos hbuf]; rfl⟩
  · have hget : s.alldevs[i]? = some s.alldevs[i] := List.getElem?_eq_getElem hlt
    rw [if_neg hbuf, hi]
    dsimp only
    rw [hget]
    dsimp only
    have hline : ∃ line, (if (owsStore F buf s.alldevs[i].dev).name = none then .ok none
        else gnUpdateDevice F (owsStore F buf s.alldevs[i].dev) gncNoscale) = .ok line := by
      split
      · exact ⟨none, rfl⟩
      · exact gnUpdateDevice_plain F _ (by decide) (by decide) (by decide)
    obtain ⟨line, hline⟩ := hline
    refine ⟨s.alldevs.set i { s.alldevs[i] with dev := owsStore F buf s.alldevs[i].dev }, (line.map .gnhastd).toList,
      lines_toList line, List.length_set, List.drop_set_of_lt (by omega), readable_set hget (canRead_owsStore F buf _), ?_⟩
    rw [hline]
    rfl

theorem readable_eq_nil {devs : List OwsDev} (h : ∀ dev ∈ devs, dev.canRead = false) (n : Nat) : readable devs n = [] := by
  unfold readable
  rw [List.filter_eq_nil_iff]
  intro i _ hi
  cases hdev : devs[i]? with
  | none =>
    rw [hdev] at hi
    cases hi
  | some dev =>
    rw [hdev, Option.any_some, h dev (List.mem_of_getElem? hdev)] at hi
    cases hi

theorem readable_one {devs : List OwsDev} (h : (devs.head?.all fun dev => !dev.canRead) = true) : readable devs 1 = [] := by
  refine readable_succ_of_not ?_
  cases devs with
  | nil => rfl
  | cons dev devs => simpa using h

/-- The end of the callback behind a list that arrived. -/
theorem InTurn.listed {t : OwsSys} {s : Ows} (hl : s.loopnr = t.ows.loopnr) (ht : s.timerPending = false)
    (hpasses : ∀ p ∈ t.passes, p.1 = p.2) (hasked : t.asked = []) (hcur : s.currentDev = none)
    (hhead : (s.alldevs.head?.all fun dev => !dev.canRead) = true) (hfit : scanFits (s.alldevs.drop 1) = true) :
    InTurn (t.after 0 (readcbout conf (if s.alldevs = [] then s else { s with currentDev := some 0 }))) := by
  split
  · rename_i hnil
    unfold readcbout
    rw [hcur]
    refine .startOver conf hl hpasses ?_
    rw [hasked, hnil]
    rfl
  · rename_i hne
    have hlt : 0 < s.alldevs.length := List.length_pos_iff.mpr hne
    have hscan := scanned_readcbout conf (s := { s with currentDev := some 0 }) rfl hlt hfit
    exact .scanned conf hscan hl ht hpasses (hasked.trans (readable_one hhead).symm)

/-- A callback that asks no device and does not start over. -/
theorem after_silent (t : OwsSys) (n : Nat) {r : Ows × List OwsOut} (hl : r.1.loopnr = t.ows.loopnr) (ha : asks r.2 = false) :
    t.after n r = { ows := r.1, inflight := n + requests r.2, asked := t.asked, passes := t.passes } := by
  unfold OwsSys.after
  rw [if_pos hl, if_pos hl, ha]
  simp

/-- A reply leaves the collector in turn. -/
theorem InTurn.reply {t : OwsSys} (h : InTurn t) {msg : ClientMsg} (hc : msg.Complete) (hfit : PollFits conf t (.reply ⟨msg, hc⟩))
    (hin : t.inflight ≠ 0) : ∃ r, owsBufReadCb F conf (some msg) t.ows = .ok r ∧
      InTurn (t.after (if msg.ping then t.inflight else t.inflight - 1) r) := by
  obtain ⟨⟨devs, cur, cmd, pers, pend, nr⟩, inflight, asked, passes⟩ := t
  obtain ⟨hturn, hpasses⟩ := h
  unfold owsBufReadCb
  dsimp only at hturn hpasses hin hfit ⊢
  generalize (pers || queryBit msg.controlFlags owflagPersist) = pers'
  by_cases hping : msg.ping
  · rw [if_pos hping, if_pos hping]
    refine ⟨_, rfl, ?_⟩
    rw [after_silent _ _ rfl rfl]
    refine ⟨?_, hpasses⟩
    cases hturn with
    | listing h1 h2 h3 => exact .listing h1 h2 h3
    | reading h1 h2 h3 h4 => exact .reading h1 h2 h3 h4
    | resting h1 h2 => exact .resting h1 h2
  · rw [if_neg hping, if_neg hping]
    unfold PollFits pollFits at hfit
    rw [Bool.or_eq_true, decide_eq_true_eq] at hfit
    replace hfit := hfit.resolve_left hping
    have hlen : 1 ≤ msg.payload.toInt → ¬ (msg.buf.length : Int) < msg.payload.toInt := by
      intro h1
      rw [hc]
      omega
    cases hturn with
    | listing h1 h2 h3 =>
      dsimp only at h1 h2 h3
      subst h1 h2 h3
      by_cases hlow : msg.payload.toInt < 1
      · rw [if_pos hlow]
        rw [if_pos hlow] at hfit
        exact ⟨_, rfl, .startOver conf rfl hpasses (readable_eq_nil (by simpa using hfit) _).symm⟩
      · rw [if_neg hlow, if_neg (hlen (by omega))]
        rw [if_neg hlow] at hfit
        obtain ⟨devs', out, hout, hspec⟩ :=
          owsHandleEntries_spec conf (strtok chComma (cstr (msg.buf.take msg.payload.toNat))) devs
        unfold owsHandleDirall at hfit ⊢
        rw [hspec _ rfl] at hfit ⊢
        refine ⟨_, rfl, ?_⟩
        rw [after_sendFirst _ _ hout]
        rw [Bool.and_eq_true] at hfit
        exact .listed conf rfl rfl hpasses rfl rfl hfit.1 hfit.2
    | @reading i h1 h2 h3 h4 =>
      dsimp only at h1 h2 h3 h4
      subst h1 h2 h3
      have hplain : InTurn (OwsSys.after ⟨⟨devs, some i, .read, pers, false, nr⟩, 1, readable devs (i + 1), passes⟩ 0
          (readcbout conf ⟨devs, some i, .read, pers', false, nr⟩)) :=
        .scanned conf (scanned_readcbout conf rfl h4 hfit) rfl rfl hpasses rfl
      by_cases hlow : msg.payload.toInt < 1
      · rw [if_pos hlow]
        exact ⟨_, rfl, hplain⟩
      · rw [if_neg hlow, if_neg (hlen (by omega))]
        obtain ⟨devs', out, hout, hlen', hdrop, hread, heq⟩ := @owsHandleRead_cases F conf
          ⟨devs, some i, .read, pers', false, nr⟩ (cstr (msg.buf.take msg.payload.toNat)) i rfl h4
        dsimp only at hlen' hdrop hread
        refine ⟨_, heq, ?_⟩
        rw [after_sendFirst _ _ hout]
        have hscan := scanned_readcbout conf (s := ⟨devs', some i, .read, pers', false, nr⟩) rfl (hlen' ▸ h4)
          (hdrop ▸ hfit)
        exact .scanned conf hscan rfl rfl hpasses (hread (i + 1)).symm
    | resting h1 h2 => exact absurd rfl hin

/-- The timer leaves the collector in turn. -/
theorem InTurn.timer {t : OwsSys} (h : InTurn t) (hfit : PollFits conf t .timer) (hpend : t.ows.timerPending = true) :
    InTurn (t.after t.inflight (owsTimerCb conf t.ows)) := by
  obtain ⟨⟨devs, cur, cmd, pers, pend, nr⟩, inflight, asked, passes⟩ := t
  obtain ⟨hturn, hpasses⟩ := h
  dsimp only at hturn hpasses hpend
  subst hpend
  cases hturn with
  | listing h1 h2 h3 => cases h1
  | reading h1 h2 h3 h4 => cases h1
  | resting h1 h2 =>
    unfold owsTimerCb
    cases cur with
    | none =>
      dsimp only [owsScheduleDirall]
      rw [after_silent _ _ rfl (asks_sendRequest _ _), requests_sendRequest]
      exact ⟨.listing rfl rfl rfl, hpasses⟩
    | some i =>
      obtain ⟨rfl, hne⟩ := h2 i rfl
      have hscan := scanned_owsScheduleDevread conf (s := ⟨devs, some 0, cmd, pers, false, nr⟩) hfit rfl (Nat.zero_le _)
      exact .scanned conf hscan rfl rfl hpasses rfl

/-! ## Runs -/

theorem inTurn_start (devs : List OwsDev) : InTurn (owsStart conf devs) :=
  ⟨.listing rfl rfl rfl, fun _ hp => (nomatch hp)⟩

/-- A step that fits leaves the collector in turn. -/
theorem InTurn.step {t t' : OwsSys} {e : OwsEvent} (h : InTurn t) (hfit : PollFits conf t e) (hs : owsStep F conf t e = some t') :
    InTurn t' := by
  cases e with
  | reply msg =>
    unfold owsStep at hs
    dsimp only at hs
    by_cases hin : t.inflight = 0
    · rw [if_pos hin] at hs
      cases hs
    · obtain ⟨r, hr, hturn⟩ := h.reply F conf msg.2 hfit hin
      rw [if_neg hin, hr] at hs
      cases hs
      exact hturn
  | timer =>
    unfold owsStep at hs
    dsimp only at hs
    split at hs
    · rename_i hpend
      cases hs
      exact h.timer conf hfit hpend
    · cases hs

theorem InTurn.polls {t : OwsSys} (h : InTurn t) : Polls t := by
  obtain ⟨ows, inflight, asked, passes⟩ := t
  obtain ⟨hturn, hpasses⟩ := h
  refine ⟨?_, hpasses⟩
  dsimp only at hturn
  cases hturn with
  | listing => exact Or.inl Nat.one_pos
  | reading => exact Or.inl Nat.one_pos
  | resting h1 => exact Or.inr h1

/-- Where every step fits, a reply is always still to come or the timer pending, and every pass over the list is complete. -/
theorem polls_of_fits {devs : List OwsDev} {es : List OwsEvent} (h : Along (owsStep F conf) (PollFits conf) (owsStart conf devs) es) :
    Throughout (owsStep F conf) Polls (owsStart conf devs) es :=
  (throughout_of_along (fun _ _ _ ht hfit hs => ht.step F conf hfit hs) (inTurn_start conf devs) h).mono fun _ ht => ht.polls

/-- A collector that has nothing configured. -/
def owsDefaults : OwsConf := { rescan := 15, owbase := 0x10004, tempscale := 0, newDevFromConf := fun _ => none }

/-- A device of some subtype, without `localdata`. -/
def owsDevice (uid : Str) (subtype : BitVec 8) : OwsDev := { dev := { uid := uid, type := 3, proto := 4, subtype := subtype }, loc := uid }

/-- A good reply with a text. -/
def owsReply (buf : Str) (h : ClientMsg.Complete ⟨BitVec.ofNat 32 buf.length, 0, 4, buf⟩) : OwsEvent := .reply ⟨_, h⟩

/-- Behind a device that is never read stands a thermometer: it is asked, and again when the timer has started over. -/
theorem polls_of_fits_thermometer :
    Throughout (owsStep Doubles.exact owsDefaults) Polls (owsStart owsDefaults [owsDevice (str "1D.1") 0, owsDevice (str "10.2") 3])
      [owsReply (str "/10.2") rfl, owsReply (str "20") rfl, .timer] :=
  @polls_of_fits Doubles.exact owsDefaults [owsDevice (str "1D.1") 0, owsDevice (str "10.2") 3]
    [owsReply (str "/10.2") rfl, owsReply (str "20") rfl, .timer] (by decide)

/-- Behind a thermometer stands a counter without `localdata`: the reply to the list asks nothing and starts no timer. -/
theorem not_polls_counter :
    ¬ Throughout (owsStep Doubles.exact owsDefaults) Polls
      (owsStart owsDefaults [owsDevice (str "10.2") 3, owsDevice (str "1D.1") 5]) [owsReply (str "/10.2") rfl] := by
  intro h
  obtain ⟨-, h⟩ := h
  have halive := (h _ rfl).alive
  revert halive
  decide

end Gnhast.Owsrvcoll
