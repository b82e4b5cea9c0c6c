import Gnhast.Lemmas.Spa
import Gnhast.Lib.Frames
import Gnhast.Lib.Runs

/-!
# Messages of the spa in a stream

`balboa_buf_read_cb` takes one message from its buffer each time it is called, as soon as the length has come in. It never drops a
byte that opens no message, does not wait for the rest of one, takes a length of zero, and leaves a second message in the buffer.
So it finds the messages of a stream exactly when each chunk completes one, at the front of the buffer.
-/

namespace Gnhast.Balboacoll

open CStr Frames Runs

variable (F : Doubles) (conf : Str → Option SpaDev)

/-! ## Runs -/

/-- A chunk arrives; `stale` and `j` are what the callback finds besides. -/
structure SpaArrival where
  chunk : List (BitVec 8)
  stale : Bool := false
  j : Bool := false

/-- The collector with what it has received and what it did with it. -/
structure SpaRun where
  spa : Spa := {}
  received : List (BitVec 8) := []
  /-- The lengths that were given to `balboa_calc_cs`, each with the bytes of the message that were there. -/
  checks : List (Int × Nat) := []
  dispatched : List (List (BitVec 8)) := []
  failed : Bool := false

def SpaOut.checks (out : List SpaOut) : List (Int × Nat) :=
  out.filterMap fun o => match o with | .check len received => some (len, received) | _ => none

def SpaOut.dispatched (out : List SpaOut) : List (List (BitVec 8)) :=
  out.filterMap fun o => match o with | .dispatch data => some data | _ => none

/-- Behind a chunk and what the callback did with it. -/
def SpaRun.after (t : SpaRun) (chunk : List (BitVec 8)) (r : List SpaOut × Except SpaFault (Spa × List SpaOut)) : SpaRun :=
  { spa := match r.2 with | .ok r' => r'.1 | .error _ => t.spa
    received := t.received ++ chunk
    checks := t.checks ++ SpaOut.checks r.1
    dispatched := t.dispatched ++ SpaOut.dispatched r.1
    failed := match r.2 with | .ok _ => false | .error _ => true }

/-- A chunk arrives and the callback is called. -/
def spaReceive (t : SpaRun) (e : SpaArrival) : Option SpaRun :=
  if t.failed then none
  else some (t.after e.chunk (balboaBufReadCb F conf e.stale e.j { t.spa with input := t.spa.input ++ e.chunk }))

/-- The length of a message, by its second byte. -/
def messageSize (n : BitVec 8) : Nat := n.toNat + 2

/-- The checksum of a message is right. -/
def checked (data : List (BitVec 8)) : Bool :=
  decide (balboaCalcCs ((data.drop 1).take (data.length - 3)) = data.getD (data.length - 2) 0)

/-- The messages of a stream whose checksum is right. -/
def messages (stream : List (BitVec 8)) : List (List (BitVec 8)) := (frames 0x7e messageSize stream).filter checked

/-- A check is over as many bytes as there are, or fewer. -/
def CheckFits (c : Int × Nat) : Prop := 0 ≤ c.1 ∧ c.1 + 3 ≤ c.2

/-- Nothing but received bytes was read, and the messages that have come in were dispatched, each once and in order. -/
structure Deframes (t : SpaRun) : Prop where
  alive : t.failed = false
  checks : ∀ c ∈ t.checks, CheckFits c
  dispatched : t.dispatched = messages t.received

/-! ## The condition -/

/-- The type of a message that has all of its three bytes. -/
def mtypeOf (data : List (BitVec 8)) : Option Bmt :=
  (mtypes.find? fun t => decide (data.getD 2 0 = t.1 ∧ data.getD 3 0 = t.2.1 ∧ data.getD 4 0 = t.2.2.1)).map fun t => t.2.2.2

/-- How long a message must be for what its handler reads. -/
def needed (s : Spa) (data : List (BitVec 8)) : Nat :=
  match mtypeOf data with
  | some .configResp => if s.macSuffix = {} then 14 else 0
  | some .panelResp => if s.devicesReady then 0 else 10
  | some .statusUpdate => if s.devicesReady then 29 else 16
  | _ => 0

/-- What is in the buffer is no message yet and none is behind its first byte, or it is one whole message with a length above zero
that is long enough for its handler, and none behind it. -/
def BufferFits (s : Spa) : List (BitVec 8) → Prop
  | h :: n :: rest =>
    if h ≠ 0x7e then messages (h :: n :: rest) = []
    else
      let data := (h :: n :: rest).take (messageSize n)
      n ≠ 0 ∧ messageSize n ≤ (h :: n :: rest).length ∧ (checked data = true → needed s data ≤ messageSize n) ∧
        messages ((h :: n :: rest).drop (messageSize n)) = []
  | _ => True

/-- With the chunk, what is in the buffer is none or one. -/
def ArrivalFits (t : SpaRun) (e : SpaArrival) : Prop := BufferFits t.spa (t.spa.input ++ e.chunk)

/-! ## Message types -/

theorem readAt_of_lt {data : List (BitVec 8)} {k : Nat} (h : k < data.length) : readAt data k = .ok (data.getD k 0) := by
  unfold readAt
  rw [List.getD_eq_getElem?_getD, List.getElem?_eq_getElem h]
  rfl

theorem isMtype_of_lt {data : List (BitVec 8)} (h : 4 < data.length) (t : BitVec 8 × BitVec 8 × BitVec 8 × Bmt) :
    isMtype data t = .ok (decide (data.getD 2 0 = t.1 ∧ data.getD 3 0 = t.2.1 ∧ data.getD 4 0 = t.2.2.1)) := by
  unfold isMtype
  rw [readAt_of_lt (show 2 < data.length by omega), readAt_of_lt (show 3 < data.length by omega), readAt_of_lt h]
  by_cases h2 : data.getD 2 0 = t.1
  · by_cases h3 : data.getD 3 0 = t.2.1
    · simp only [bind, Except.bind, h2, h3, ne_eq, not_true, if_false, pure, Except.pure, true_and]
    · simp only [bind, Except.bind, h2, h3, ne_eq, not_true, not_false_iff, if_true, if_false, pure, Except.pure, true_and,
        false_and, decide_false]
  · simp only [bind, Except.bind, h2, ne_eq, not_false_iff, if_true, pure, Except.pure, false_and, decide_false]

/-- Where the three bytes are there, the type is found by them. -/
theorem findBalboaMtype_of_lt {data : List (BitVec 8)} (h : 4 < data.length) : findBalboaMtype data mtypes = .ok (mtypeOf data) := by
  unfold mtypeOf
  induction mtypes with
  | nil => rfl
  | cons t ts ih =>
    unfold findBalboaMtype
    rw [isMtype_of_lt h, List.find?_cons]
    cases hd : decide (data.getD 2 0 = t.1 ∧ data.getD 3 0 = t.2.1 ∧ data.getD 4 0 = t.2.2.1)
    · simpa [bind, Except.bind] using ih
    · rfl

set_option maxRecDepth 4000 in
theorem balboaCalcCs_nil : balboaCalcCs [] = 0 := by
  decide

set_option maxRecDepth 4000 in
theorem balboaCalcCs_two : balboaCalcCs [2] = 2 := by
  decide

theorem checked_cons (h n : BitVec 8) (body : List (BitVec 8)) :
    checked (h :: n :: body) =
      decide (balboaCalcCs ((n :: body).take (body.length - 1)) = (h :: n :: body).getD body.length 0) := by
  unfold checked
  rw [List.length_cons, List.length_cons, List.drop_one, List.tail_cons, show body.length + 1 + 1 - 3 = body.length - 1 by omega,
    show body.length + 1 + 1 - 2 = body.length by omega]

/-- A message of two bytes behind the length, the first of them its checksum, has no type. -/
theorem findBalboaMtype_two (b : BitVec 8) : findBalboaMtype [0x7e, 2, 2, b] mtypes = .ok (mtypeOf [0x7e, 2, 2, b]) := by
  simp [findBalboaMtype, isMtype, readAt, mtypes, mtypeOf, bind, Except.bind, pure, Except.pure]

/-- In a message with the right checksum the type is found without a byte behind its end: where the bytes of the type are not all
there, the checksum stands in the place of one and is none of them. -/
theorem findBalboaMtype_checked {n : BitVec 8} {body : List (BitVec 8)} (hlen : body.length = n.toNat) (hn : n ≠ 0)
    (hc : checked (0x7e :: n :: body) = true) :
    findBalboaMtype (0x7e :: n :: body) mtypes = .ok (mtypeOf (0x7e :: n :: body)) := by
  rw [checked_cons, decide_eq_true_iff] at hc
  rcases body with _ | ⟨a, _ | ⟨b, _ | ⟨c, rest⟩⟩⟩
  · exact absurd (BitVec.eq_of_toNat_eq hlen.symm) hn
  · have h1 : n = 1 := BitVec.eq_of_toNat_eq hlen.symm
    rw [h1] at hc
    simp only [List.length_singleton, Nat.sub_self, List.take_zero, balboaCalcCs_nil, List.getD_cons_succ, List.getD_cons_zero] at hc
    cases hc
  · have h2 : n = 2 := BitVec.eq_of_toNat_eq hlen.symm
    rw [h2] at hc
    simp only [List.length_cons, List.length_nil, Nat.zero_add, Nat.reduceAdd, Nat.reduceSub, List.take_succ_cons, List.take_zero,
      balboaCalcCs_two, List.getD_cons_succ, List.getD_cons_zero] at hc
    rw [h2, ← hc]
    exact findBalboaMtype_two b
  · exact findBalboaMtype_of_lt (by simp)

/-! ## Dispatching -/

/-- A dispatched message leaves the buffer as it is, and fails exactly when it is too short for its handler. -/
theorem balboaDispatch_cases (stale j : Bool) {data : List (BitVec 8)} (s : Spa)
    (hm : findBalboaMtype data mtypes = .ok (mtypeOf data)) :
    if needed s data ≤ data.length then ∃ r, balboaDispatch F conf stale j data s = .ok r ∧ r.1.input = s.input
    else ∃ e, balboaDispatch F conf stale j data s = .error e := by
  unfold balboaDispatch needed
  rw [hm]
  generalize mtypeOf data = m
  have hother : ∀ out : List SpaOut, ∃ r : Spa × List SpaOut, (Except.ok (s, out) : Except SpaFault _) = .ok r ∧ r.1.input = s.input :=
    fun out => ⟨_, rfl, rfl⟩
  cases m with
  | none => exact hother _
  | some m =>
    cases m
    case statusUpdate =>
      have h := parseStatusUpdate_cases F conf data s
      dsimp only
      by_cases hlen : (if s.devicesReady then 29 else 16) ≤ data.length
      · rw [if_pos hlen] at h ⊢
        obtain ⟨r, hr, hin⟩ := h
        refine ⟨(r.1, if s.devicesReady then [] else if stale && r.2 then [SpaOut.configReq] else []), ?_, hin⟩
        simp only [bind, Except.bind, hr, pure, Except.pure]
      · rw [if_neg hlen] at h ⊢
        refine ⟨.readBeyond, ?_⟩
        simp only [bind, Except.bind, h]
    case configResp =>
      have h := parseConfigResp_cases conf data s
      dsimp only
      by_cases hlen : (if s.macSuffix = {} then 14 else 0) ≤ data.length
      · rw [if_pos hlen] at h ⊢
        obtain ⟨s', hr, hin⟩ := h
        refine ⟨(s', []), ?_, hin⟩
        simp only [bind, Except.bind, hr, pure, Except.pure]
      · rw [if_neg hlen] at h ⊢
        refine ⟨.readBeyond, ?_⟩
        simp only [bind, Except.bind, h]
    case panelResp =>
      have h := parsePanelConfigResp_cases conf data s
      dsimp only
      by_cases hlen : (if s.devicesReady then 0 else 10) ≤ data.length
      · rw [if_pos hlen] at h ⊢
        obtain ⟨s', hr, hin⟩ := h
        refine ⟨(s', []), ?_, hin⟩
        simp only [bind, Except.bind, hr, pure, Except.pure]
      · rw [if_neg hlen] at h ⊢
        refine ⟨.readBeyond, ?_⟩
        simp only [bind, Except.bind, h]
    all_goals exact hother _

/-! ## The callback -/

/-- At the front of the buffer stands nothing that the callback takes. -/
theorem balboaBufReadCb_stuck (stale j : Bool) {s : Spa} (h : s.input.length < 2 ∨ s.input.head? ≠ some 0x7e) :
    balboaBufReadCb F conf stale j s = ([], .ok (s, [])) := by
  unfold balboaBufReadCb
  rcases hin : s.input with _ | ⟨b, _ | ⟨n, rest⟩⟩
  · rfl
  · rfl
  · rw [hin] at h
    have hb : b ≠ 0x7e := by
      rintro rfl
      rcases h with h | h
      · simp only [List.length_cons] at h
        omega
      · exact h rfl
    exact if_pos hb

/-- A start byte and a length at the front of the buffer. -/
theorem balboaBufReadCb_start (stale j : Bool) {s : Spa} {n : BitVec 8} {rest : List (BitVec 8)} (h : s.input = 0x7e :: n :: rest) :
    balboaBufReadCb F conf stale j s =
      let data := s.input.take (messageSize n) ++ List.replicate (messageSize n - s.input.length) 0
      let s' := { s with input := s.input.drop (messageSize n) }
      let check := SpaOut.check ((messageSize n : Int) - 3) (min s.input.length (messageSize n))
      if messageSize n < 3 then ([check], .error .negativeLength)
      else if balboaCalcCs ((data.drop 1).take (messageSize n - 3)) ≠ data.getD (messageSize n - 2) 0 then ([check], .ok (s', []))
      else ([check, .dispatch data], balboaDispatch F conf stale j data s') := by
  obtain ⟨input, devicesReady, spacfg, macSuffix, prevStat, devices⟩ := s
  dsimp only at h
  subst h
  rfl

/-- A length of zero. -/
theorem balboaBufReadCb_zero (stale j : Bool) {s : Spa} {rest : List (BitVec 8)} (h : s.input = 0x7e :: 0 :: rest) :
    (balboaBufReadCb F conf stale j s).2 = .error .negativeLength := by
  rw [balboaBufReadCb_start F conf stale j h]
  rfl

/-- A message that has not come in whole is checked over more bytes than there are. -/
theorem balboaBufReadCb_short (stale j : Bool) {s : Spa} {n : BitVec 8} {rest : List (BitVec 8)} (h : s.input = 0x7e :: n :: rest)
    (hlen : s.input.length < messageSize n) :
    .check ((messageSize n : Int) - 3) s.input.length ∈ (balboaBufReadCb F conf stale j s).1 := by
  rw [balboaBufReadCb_start F conf stale j h, Nat.min_eq_left (Nat.le_of_lt hlen)]
  dsimp only
  split
  · exact List.mem_singleton.mpr rfl
  · split
    · exact List.mem_singleton.mpr rfl
    · exact List.mem_cons_self

/-- A whole message at the front of the buffer is taken and checked, and dispatched when its checksum is right. -/
theorem balboaBufReadCb_whole (stale j : Bool) {s : Spa} {n : BitVec 8} {body rest : List (BitVec 8)}
    (h : s.input = 0x7e :: n :: body ++ rest) (hlen : body.length = n.toNat) (hn : n ≠ 0) :
    balboaBufReadCb F conf stale j s =
      if checked (0x7e :: n :: body) then
        ([.check ((messageSize n : Int) - 3) (messageSize n), .dispatch (0x7e :: n :: body)],
          balboaDispatch F conf stale j (0x7e :: n :: body) { s with input := rest })
      else ([.check ((messageSize n : Int) - 3) (messageSize n)], .ok ({ s with input := rest }, [])) := by
  have hpos : n.toNat ≠ 0 := fun h0 => hn (BitVec.eq_of_toNat_eq h0)
  have hsize : (0x7e :: n :: body).length = messageSize n := by
    rw [List.length_cons, List.length_cons, hlen, messageSize]
  have htake : s.input.take (messageSize n) = 0x7e :: n :: body := by
    rw [h, ← hsize, List.take_left]
  have hdrop : s.input.drop (messageSize n) = rest := by
    rw [h, ← hsize, List.drop_left]
  have hle : messageSize n ≤ s.input.length := by
    rw [h, List.length_append]
    omega
  have hc : balboaCalcCs (((0x7e :: n :: body).drop 1).take (messageSize n - 3)) ≠ (0x7e :: n :: body).getD (messageSize n - 2) 0 ↔
      ¬ checked (0x7e :: n :: body) = true := by
    unfold checked
    rw [hsize, decide_eq_true_iff]
  rw [balboaBufReadCb_start F conf stale j h]
  dsimp only
  rw [htake, hdrop, Nat.min_eq_right hle, Nat.sub_eq_zero_of_le hle, List.replicate_zero, List.append_nil,
    if_neg (show ¬ messageSize n < 3 by unfold messageSize; omega)]
  by_cases hck : checked (0x7e :: n :: body) = true
  · rw [if_neg (fun hne => hc.mp hne hck), if_pos hck]
  · rw [if_pos (hc.mpr hck), if_neg hck]

/-! ## The buffer -/

/-- What can stand in the buffer: nothing that is taken, a length of zero, a part of a message, or a message in front. -/
theorem buffer_cases (buf : List (BitVec 8)) :
    (buf.length < 2 ∨ buf.head? ≠ some 0x7e) ∨ (∃ rest, buf = 0x7e :: 0 :: rest) ∨
      (∃ n rest, buf = 0x7e :: n :: rest ∧ n ≠ 0 ∧ buf.length < messageSize n) ∨
      ∃ n body rest, buf = 0x7e :: n :: body ++ rest ∧ body.length = n.toNat ∧ n ≠ 0 := by
  rcases buf with _ | ⟨b, _ | ⟨n, rest⟩⟩
  · exact .inl (.inl Nat.zero_lt_two)
  · exact .inl (.inl Nat.one_lt_two)
  · by_cases hb : b = 0x7e
    · subst hb
      by_cases hn : n = 0
      · exact .inr (.inl ⟨rest, by rw [hn]⟩)
      · by_cases hlen : rest.length < n.toNat
        · refine .inr (.inr (.inl ⟨n, rest, rfl, hn, ?_⟩))
          rw [List.length_cons, List.length_cons, messageSize]
          omega
        · refine .inr (.inr (.inr ⟨n, rest.take n.toNat, rest.drop n.toNat, ?_, ?_, hn⟩))
          · rw [List.cons_append, List.cons_append, List.take_append_drop]
          · rw [List.length_take, Nat.min_eq_left (Nat.le_of_not_lt hlen)]
    · exact .inl (.inr fun h => hb (Option.some.inj h))

theorem messages_of_length_lt_two {buf : List (BitVec 8)} (h : buf.length < 2) : messages buf = [] := by
  rw [messages, frames_of_length_lt_two h, List.filter_nil]

theorem bufferFits_stuck {s : Spa} {buf : List (BitVec 8)} (h : buf.length < 2 ∨ buf.head? ≠ some 0x7e) :
    BufferFits s buf ↔ messages buf = [] := by
  rcases buf with _ | ⟨b, _ | ⟨n, rest⟩⟩
  · exact iff_of_true trivial rfl
  · exact iff_of_true trivial (messages_of_length_lt_two Nat.one_lt_two)
  · have hb : b ≠ 0x7e := by
      rintro rfl
      rcases h with h | h
      · simp only [List.length_cons] at h
        omega
      · exact h rfl
    unfold BufferFits
    dsimp only
    rw [if_pos hb]

theorem not_bufferFits_zero {s : Spa} {rest : List (BitVec 8)} : ¬ BufferFits s (0x7e :: 0 :: rest) := by
  unfold BufferFits
  dsimp only
  rw [if_neg (by simp)]
  exact fun h => h.1 rfl

theorem not_bufferFits_short {s : Spa} {n : BitVec 8} {rest : List (BitVec 8)}
    (hlen : (0x7e :: n :: rest).length < messageSize n) : ¬ BufferFits s (0x7e :: n :: rest) := by
  unfold BufferFits
  dsimp only
  rw [if_neg (by simp)]
  exact fun h => absurd h.2.1 (Nat.not_le_of_lt hlen)

theorem length_whole {n : BitVec 8} {body : List (BitVec 8)} (hlen : body.length = n.toNat) :
    (0x7e :: n :: body : List (BitVec 8)).length = messageSize n := by
  rw [List.length_cons, List.length_cons, hlen, messageSize]

theorem bufferFits_whole {s : Spa} {n : BitVec 8} {body rest : List (BitVec 8)} (hlen : body.length = n.toNat) (hn : n ≠ 0) :
    BufferFits s (0x7e :: n :: body ++ rest) ↔
      (checked (0x7e :: n :: body) = true → needed s (0x7e :: n :: body) ≤ messageSize n) ∧ messages rest = [] := by
  have htake : (0x7e :: n :: (body ++ rest) : List (BitVec 8)).take (messageSize n) = 0x7e :: n :: body := by
    rw [← length_whole hlen]
    exact List.take_left
  have hdrop : (0x7e :: n :: (body ++ rest) : List (BitVec 8)).drop (messageSize n) = rest := by
    rw [← length_whole hlen]
    exact List.drop_left
  have hle : messageSize n ≤ (0x7e :: n :: (body ++ rest) : List (BitVec 8)).length := by
    simp only [List.length_cons, List.length_append, messageSize, hlen]
    omega
  rw [List.cons_append, List.cons_append]
  unfold BufferFits
  dsimp only
  rw [if_neg (by simp), htake, hdrop]
  exact ⟨fun h => h.2.2, fun h => ⟨hn, hle, h⟩⟩

/-- A whole message in front is the first of a stream, if its checksum is right. -/
theorem messages_whole {n : BitVec 8} {body rest : List (BitVec 8)} (hlen : body.length = n.toNat) :
    messages (0x7e :: n :: body ++ rest) = [0x7e :: n :: body].filter checked ++ messages rest := by
  have hsize : body.length + 2 = messageSize n := by
    rw [hlen, messageSize]
  rw [messages, frames_append (feed_frame hsize), List.filter_append]
  rfl

/-! ## Runs -/

/-- While all is well, what was taken out of the buffer is frames, and those with the right checksum were dispatched. -/
def Taken (t : SpaRun) : Prop :=
  t.failed = false → (∀ c ∈ t.checks, CheckFits c) →
    ∃ past fs, t.received = past ++ t.spa.input ∧ Reader.idle.feed 0x7e messageSize past = (.idle, fs) ∧
      t.dispatched = fs.filter checked

/-- Then the messages that come in are those that were dispatched and those of the buffer. -/
theorem Taken.messages_received {t : SpaRun} (ht : Taken t) (halive : t.failed = false) (hfit : ∀ c ∈ t.checks, CheckFits c)
    (chunk : List (BitVec 8)) : messages (t.received ++ chunk) = t.dispatched ++ messages (t.spa.input ++ chunk) := by
  obtain ⟨past, fs, hrec, hfeed, hdisp⟩ := ht halive hfit
  rw [hrec, List.append_assoc, messages, frames_append hfeed, List.filter_append, ← hdisp]
  rfl

/-- A message that is taken out of the buffer follows what was taken before. -/
theorem Taken.take {t : SpaRun} (ht : Taken t) (halive : t.failed = false) (hfit : ∀ c ∈ t.checks, CheckFits c)
    {chunk : List (BitVec 8)} {n : BitVec 8} {body rest : List (BitVec 8)} (hlen : body.length = n.toNat)
    (hbuf : t.spa.input ++ chunk = 0x7e :: n :: body ++ rest) :
    ∃ past fs, t.received ++ chunk = past ++ rest ∧ Reader.idle.feed 0x7e messageSize past = (.idle, fs) ∧
      t.dispatched ++ [0x7e :: n :: body].filter checked = fs.filter checked := by
  obtain ⟨past, fs, hrec, hfeed, hdisp⟩ := ht halive hfit
  have hsize : body.length + 2 = messageSize n := by
    rw [hlen, messageSize]
  refine ⟨past ++ (0x7e :: n :: body), fs ++ [0x7e :: n :: body], ?_, ?_, ?_⟩
  · rw [hrec, List.append_assoc, hbuf, List.append_assoc]
  · rw [Reader.feed_append, hfeed, feed_frame hsize]
  · rw [List.filter_append, hdisp]

theorem SpaRun.after_failed {t : SpaRun} {chunk : List (BitVec 8)} {r : List SpaOut × Except SpaFault (Spa × List SpaOut)}
    {f : SpaFault} (h : r.2 = .error f) : (t.after chunk r).failed = true := by
  unfold SpaRun.after
  rw [h]

theorem SpaRun.mem_checks_after {t : SpaRun} {chunk : List (BitVec 8)} {r : List SpaOut × Except SpaFault (Spa × List SpaOut)}
    {len : Int} {received : Nat} (h : .check len received ∈ r.1) : (len, received) ∈ (t.after chunk r).checks :=
  List.mem_append_right _ (List.mem_filterMap.mpr ⟨_, h, rfl⟩)

theorem SpaRun.mem_checks_after_of_mem {t : SpaRun} {chunk : List (BitVec 8)}
    {r : List SpaOut × Except SpaFault (Spa × List SpaOut)} {c : Int × Nat} (h : c ∈ t.checks) : c ∈ (t.after chunk r).checks :=
  List.mem_append_left _ h

variable {t : SpaRun}

/-- Nothing is taken: all is well if no message has come in. -/
theorem Taken.after_stuck (ht : Taken t) (halive : t.failed = false) (chunk : List (BitVec 8)) :
    let t' := t.after chunk ([], .ok ({ t.spa with input := t.spa.input ++ chunk }, []))
    Taken t' ∧ (Deframes t → (Deframes t' ↔ messages (t.spa.input ++ chunk) = [])) := by
  constructor
  · intro _ hfit
    obtain ⟨past, fs, hrec, hfeed, hdisp⟩ := ht halive fun c hc => hfit c (SpaRun.mem_checks_after_of_mem hc)
    refine ⟨past, fs, ?_, hfeed, ?_⟩
    · exact (congrArg (· ++ chunk) hrec).trans (List.append_assoc _ _ _)
    · exact (List.append_nil _).trans hdisp
  · intro hd
    have hm := ht.messages_received hd.alive hd.checks chunk
    constructor
    · intro hd'
      have hsame := hd'.dispatched.trans hm
      exact List.self_eq_append_right.mp ((List.append_nil _).symm.trans hsame)
    · intro hnone
      refine ⟨rfl, fun c hc => hd.checks c ?_, ?_⟩
      · rcases List.mem_append.mp hc with hc | hc
        · exact hc
        · exact absurd hc List.not_mem_nil
      · refine Eq.trans ?_ hm.symm
        rw [hnone]
        rfl

/-- A message is taken: all is well if its handler does not fail and none is behind it. -/
theorem Taken.after_whole (ht : Taken t) (halive : t.failed = false) {chunk : List (BitVec 8)} {n : BitVec 8}
    {body rest : List (BitVec 8)} (hbuf : t.spa.input ++ chunk = 0x7e :: n :: body ++ rest) (hlen : body.length = n.toNat)
    (hn : n ≠ 0) {r : List SpaOut × Except SpaFault (Spa × List SpaOut)}
    (hchecks : SpaOut.checks r.1 = [((messageSize n : Int) - 3, messageSize n)])
    (hdisp : SpaOut.dispatched r.1 = [0x7e :: n :: body].filter checked)
    (hinput : ∀ r', r.2 = .ok r' → r'.1.input = rest) :
    Taken (t.after chunk r) ∧ (Deframes t → (Deframes (t.after chunk r) ↔ (∃ r', r.2 = .ok r') ∧ messages rest = [])) := by
  have hpos : n.toNat ≠ 0 := fun h0 => hn (BitVec.eq_of_toNat_eq h0)
  have hdisp' : (t.after chunk r).dispatched = t.dispatched ++ [0x7e :: n :: body].filter checked := by
    rw [← hdisp]
    rfl
  have hok : (t.after chunk r).failed = false ↔ ∃ r', r.2 = .ok r' := by
    unfold SpaRun.after
    cases r.2 with
    | ok r' => exact iff_of_true rfl ⟨r', rfl⟩
    | error f => exact iff_of_false (fun h => nomatch h) (fun ⟨_, h⟩ => nomatch h)
  constructor
  · intro halive' hfit
    obtain ⟨r', hr'⟩ := hok.mp halive'
    obtain ⟨past, fs, hrec, hfeed, htaken⟩ := ht.take halive (fun c hc => hfit c (SpaRun.mem_checks_after_of_mem hc)) hlen hbuf
    refine ⟨past, fs, ?_, hfeed, hdisp'.trans htaken⟩
    have hspa : (t.after chunk r).spa = r'.1 := by
      unfold SpaRun.after
      rw [hr']
    rw [hspa, hinput r' hr']
    exact hrec
  · intro hd
    have hm := ht.messages_received hd.alive hd.checks chunk
    rw [hbuf, messages_whole hlen, ← List.append_assoc, ← hdisp'] at hm
    constructor
    · intro hd'
      exact ⟨hok.mp hd'.alive, List.self_eq_append_right.mp (hd'.dispatched.trans hm)⟩
    · rintro ⟨hr', hnone⟩
      refine ⟨hok.mpr hr', fun c hc => ?_, ?_⟩
      · rcases List.mem_append.mp hc with hc | hc
        · exact hd.checks c hc
        · rw [hchecks, List.mem_singleton] at hc
          rw [hc]
          unfold CheckFits messageSize
          constructor
          · push_cast
            omega
          · push_cast
            omega
      · refine Eq.trans ?_ hm.symm
        rw [hnone, List.append_nil]

/-- What the callback does with a whole message in front. -/
theorem balboaBufReadCb_outcome (stale j : Bool) {s : Spa} {n : BitVec 8} {body rest : List (BitVec 8)}
    (h : s.input = 0x7e :: n :: body ++ rest) (hlen : body.length = n.toNat) (hn : n ≠ 0) :
    let r := balboaBufReadCb F conf stale j s
    SpaOut.checks r.1 = [((messageSize n : Int) - 3, messageSize n)] ∧
      SpaOut.dispatched r.1 = [0x7e :: n :: body].filter checked ∧ (∀ r', r.2 = .ok r' → r'.1.input = rest) ∧
      ((∃ r', r.2 = .ok r') ↔ (checked (0x7e :: n :: body) = true → needed s (0x7e :: n :: body) ≤ messageSize n)) := by
  rw [balboaBufReadCb_whole F conf stale j h hlen hn]
  by_cases hck : checked (0x7e :: n :: body) = true
  · rw [if_pos hck, List.filter_cons_of_pos hck, List.filter_nil]
    refine ⟨rfl, rfl, ?_⟩
    have hd := balboaDispatch_cases F conf stale j { s with input := rest } (findBalboaMtype_checked hlen hn hck)
    rw [length_whole hlen] at hd
    dsimp only
    by_cases hneed : needed s (0x7e :: n :: body) ≤ messageSize n
    · obtain ⟨r', hr', hin⟩ := (if_pos hneed).mp hd
      rw [hr']
      refine ⟨fun r'' hr'' => ?_, iff_of_true ⟨r', rfl⟩ fun _ => hneed⟩
      cases hr''
      exact hin
    · obtain ⟨f, hf⟩ := (if_neg hneed).mp hd
      rw [hf]
      refine ⟨fun r' hr' => ?_, iff_of_false ?_ fun hall => hneed (hall hck)⟩
      · cases hr'
      · rintro ⟨r', hr'⟩
        cases hr'
  · rw [if_neg hck, List.filter_cons_of_neg hck, List.filter_nil]
    refine ⟨rfl, rfl, fun r' hr' => ?_, iff_of_true ⟨_, rfl⟩ fun h' => absurd h' hck⟩
    cases hr'
    rfl

/-- One chunk keeps what was taken, and all is well behind it exactly when it fits. -/
theorem Taken.receive {t' : SpaRun} {e : SpaArrival} (ht : Taken t) (h : spaReceive F conf t e = some t') :
    Taken t' ∧ (Deframes t → (Deframes t' ↔ ArrivalFits t e)) := by
  unfold spaReceive at h
  split at h
  · cases h
  rename_i hf
  have halive : t.failed = false := Bool.eq_false_iff.mpr hf
  have hin : ({ t.spa with input := t.spa.input ++ e.chunk } : Spa).input = t.spa.input ++ e.chunk := rfl
  unfold ArrivalFits
  cases h
  rcases buffer_cases (t.spa.input ++ e.chunk) with hstuck | ⟨rest, hzero⟩ | ⟨n, rest, hshort, -, hlen⟩ | ⟨n, body, rest, hwhole, hlen, hn⟩
  · rw [balboaBufReadCb_stuck F conf e.stale e.j hstuck, bufferFits_stuck hstuck]
    exact ht.after_stuck halive e.chunk
  · have hfailed := @SpaRun.after_failed t e.chunk _ _ (balboaBufReadCb_zero F conf e.stale e.j (hin.trans hzero))
    refine ⟨fun halive' => absurd (hfailed.symm.trans halive') Bool.noConfusion, fun _ => iff_of_false (fun hd' => ?_) ?_⟩
    · exact absurd (hfailed.symm.trans hd'.alive) Bool.noConfusion
    · rw [hzero]
      exact not_bufferFits_zero
  · have hmem := @SpaRun.mem_checks_after t e.chunk _ _ _
      (balboaBufReadCb_short F conf e.stale e.j (hin.trans hshort) hlen)
    have hover : ¬ CheckFits ((messageSize n : Int) - 3, (t.spa.input ++ e.chunk).length) := fun hc => by
      have := hc.2
      dsimp only at this
      omega
    refine ⟨fun _ hfit => absurd (hfit _ hmem) hover, fun _ => iff_of_false (fun hd' => hover (hd'.checks _ hmem)) ?_⟩
    rw [hshort] at hlen ⊢
    exact not_bufferFits_short hlen
  · obtain ⟨hchecks, hdisp, hinput, hok⟩ := balboaBufReadCb_outcome F conf e.stale e.j (hin.trans hwhole) hlen hn
    obtain ⟨ht', hiff⟩ := ht.after_whole halive hwhole hlen hn hchecks hdisp hinput
    refine ⟨ht', fun hd => (hiff hd).trans ?_⟩
    rw [hwhole, bufferFits_whole hlen hn, ← hwhole]
    exact and_congr_left' hok

theorem taken_start : Taken {} :=
  fun _ _ => ⟨[], [], rfl, rfl, rfl⟩

theorem deframes_start : Deframes {} :=
  ⟨rfl, fun _ hc => absurd hc List.not_mem_nil, rfl⟩

/-- In a run, nothing but received bytes is read and the messages that have come in are dispatched, each once and in order, exactly
when with every chunk what is in the buffer is no message or just one. -/
theorem deframes_iff (es : List SpaArrival) :
    Throughout (spaReceive F conf) Deframes {} es ↔ Along (spaReceive F conf) ArrivalFits {} es :=
  throughout_iff_along (fun _ _ _ ht h => (ht.receive F conf h).1) (fun _ _ _ ht hd h => (ht.receive F conf h).2 hd)
    taken_start deframes_start es

/-- The request for the configuration comes in in two chunks. -/
theorem not_deframes_cut :
    ¬ Throughout (spaReceive Doubles.exact fun _ => none) Deframes {}
      [{ chunk := [0x7e, 0x05] }, { chunk := [0x0a, 0xbf, 0x04, 0x77, 0x7e] }] := by
  intro h
  obtain ⟨-, h⟩ := h
  obtain ⟨hd, -⟩ := h _ rfl
  have hcut : SpaOut.check 4 2 ∈ (balboaBufReadCb Doubles.exact (fun _ => none) false false { input := [0x7e, 0x05] }).1 :=
    balboaBufReadCb_short Doubles.exact (fun _ => none) false false (s := { input := [0x7e, 0x05] }) (n := 0x05) rfl (by decide)
  have hover := (hd.checks (4, 2) (SpaRun.mem_checks_after hcut)).2
  revert hover
  decide

end Gnhast.Balboacoll
