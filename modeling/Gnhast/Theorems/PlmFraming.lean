import Gnhast.PlmSerial
import Mathlib.Data.List.GetD

/-!
# The frames that are read from the PLM

One call of `plm_readcb` takes one command, and a negative answer takes the two bytes behind it along. Which ways of cutting a
stream into pieces go well is said here by the lengths of the pieces alone.
-/

namespace Gnhast.Insteon

/-! ## Streams -/

/-- The length of a frame, by its command and the flags of an echo. -/
def frameLen (bytes : List Octet) : Nat :=
  if bytes.getD 1 0 = plmSend ∧ bytes.getD 5 0 &&& plmflagExt ≠ 0 then extSendLen else plmCmdlen (bytes.getD 1 0)

/-- A valid frame. -/
structure PlmFrame where
  bytes : List Octet
  start : bytes.head? = some plmStart
  known : plmCmdlen (bytes.getD 1 0) ≠ 0
  length_eq : bytes.length = frameLen bytes

/-- What the PLM sends: a frame, or the answer that a command was not taken. -/
inductive Item
  | frame (f : PlmFrame)
  | nak

/-- The bytes of an item. -/
def Item.bytes : Item → List Octet
  | .frame f => f.bytes
  | .nak => [plmStart, plmcmdNak]

/-- The bytes of a stream. -/
def stream (items : List Item) : List Octet := (items.map Item.bytes).flatten

/-- The entries that the frames of a stream make. -/
def entriesOf (items : List Item) : List Frame := items.filterMap fun | .frame f => some (frameOf f.bytes) | .nak => none

/-- What a call leaves when so many bytes of the items have arrived: the items, whether the first byte of a negative answer in front
of them is gone, and the number of bytes. A call takes one whole frame, a negative answer that is alone, or two of them; of a second
one that has half arrived it takes the first byte, and the other byte costs a call. There is no result where it takes bytes of a
frame along. -/
def callLeaves (half : Bool) (items : List Item) (b : Nat) : Option (Bool × List Item × Nat) :=
  if b < 2 then some (half, items, b)
  else
    match half, items with
    | true, items => some (false, items, b - 1)
    | false, [] => some (false, [], b)
    | false, .frame f :: items =>
      if b < f.bytes.length then some (false, .frame f :: items, b) else some (false, items, b - f.bytes.length)
    | false, .nak :: items =>
      if b = 2 then some (false, items, 0)
      else
        match items with
        | .nak :: items => if b = 3 then some (true, items, 0) else some (false, items, b - 4)
        | _ => none

/-- The calls that come after pieces of these lengths take all items, when so many bytes are in the buffer. -/
def Paced : List Nat → Bool → List Item → Nat → Prop
  | [], half, items, _ => half = false ∧ items = []
  | n :: ns, half, items, b =>
    match callLeaves half items (b + n) with
    | some (half, items, b) => Paced ns half items b
    | none => False

/-! ## One call -/

theorem plmReadcb_short {conn : PlmConn} (h : conn.evbuf.length < 2) : plmReadcb conn = conn := by
  obtain ⟨evbuf, work⟩ := conn
  match evbuf, h with
  | [], _ => rfl
  | [b], _ => rfl

/-- A byte that does not start a frame is dropped. -/
theorem plmReadcb_junk {b0 b1 : Octet} {r : List Octet} {w : List Frame} (h : b0 ≠ plmStart) :
    plmReadcb ⟨b0 :: b1 :: r, w⟩ = ⟨b1 :: r, w⟩ := by
  unfold plmReadcb
  dsimp only
  rw [if_pos h]
  rfl

/-- A negative answer takes the two bytes behind it along. -/
theorem plmReadcb_nak (r : List Octet) (w : List Frame) : plmReadcb ⟨plmStart :: plmcmdNak :: r, w⟩ = ⟨r.drop 2, w⟩ := by
  unfold plmReadcb
  dsimp only
  rw [if_neg (by decide), if_pos (by decide), if_pos rfl]
  rfl

namespace PlmFrame

variable (f : PlmFrame)

/-- A frame starts with its two bytes. -/
theorem bytes_eq : ∃ c r, f.bytes = plmStart :: c :: r ∧ plmCmdlen c ≠ 0 := by
  have hs := f.start
  have hk := f.known
  match hb : f.bytes with
  | [] => simp [hb] at hs
  | [b] =>
    rw [hb] at hk
    exact absurd rfl hk
  | b :: c :: r =>
    rw [hb] at hs hk
    exact ⟨c, r, by rw [Option.some.inj hs], hk⟩

theorem plmCmdlen_le : plmCmdlen (f.bytes.getD 1 0) ≤ f.bytes.length := by
  rw [f.length_eq]
  unfold frameLen
  split
  · rename_i h
    rw [h.1]
    decide
  · exact Nat.le_refl _

theorem two_le_length : 2 ≤ f.bytes.length := by
  obtain ⟨c, r, hf, -⟩ := f.bytes_eq
  rw [hf, List.length_cons, List.length_cons]
  omega

end PlmFrame

/-- A buffer and a frame that begin the same stream: the frame is taken when all of it is there. -/
theorem plmReadcb_frame (f : PlmFrame) {buf a b : List Octet} (h : buf ++ a = f.bytes ++ b) (w : List Frame) :
    plmReadcb ⟨buf, w⟩ =
      if buf.length < f.bytes.length then ⟨buf, w⟩ else ⟨buf.drop f.bytes.length, w ++ [frameOf f.bytes]⟩ := by
  by_cases hshort : buf.length < 2
  · rw [plmReadcb_short hshort, if_pos (Nat.lt_of_lt_of_le hshort f.two_le_length)]
  obtain ⟨c, r, hf, hknown⟩ := f.bytes_eq
  have hget : ∀ i, i < buf.length → i < f.bytes.length → buf.getD i 0 = f.bytes.getD i 0 := by
    intro i hi hi'
    rw [← List.getD_append _ a _ _ hi, h, List.getD_append _ b _ _ hi']
  have hlen := f.length_eq
  have hle := f.plmCmdlen_le
  have hc : f.bytes.getD 1 0 = c := by rw [hf]; rfl
  have htake : ¬ buf.length < f.bytes.length → buf.take f.bytes.length = f.bytes := by
    intro hfull
    rw [← @List.take_append_of_le_length _ buf a _ (Nat.not_lt.mp hfull), h, List.take_left]
  have hnak : c ≠ plmcmdNak := by
    rintro rfl
    exact hknown (by decide)
  rw [hc] at hle
  match buf, Nat.not_lt.mp hshort with
  | b0 :: b1 :: t, _ =>
    have h0 : b0 = plmStart := by
      rw [hf] at h
      exact (List.cons.inj h).1
    have h1 : b1 = c := by
      rw [hf] at h
      exact (List.cons.inj (List.cons.inj h).2).1
    subst h0 h1
    unfold plmReadcb
    dsimp only
    rw [if_neg (fun hn => hn rfl), if_neg hnak, if_neg hknown]
    by_cases hpart : (plmStart :: b1 :: t).length < plmCmdlen b1
    · rw [if_pos hpart, if_pos (Nat.lt_of_lt_of_le hpart hle)]
    · have hclen : (if b1 = plmSend ∧ (plmStart :: b1 :: t).getD 5 0 &&& plmflagExt ≠ 0 then extSendLen else plmCmdlen b1) =
          f.bytes.length := by
        rw [hlen]
        unfold frameLen
        rw [hc]
        by_cases hsend : b1 = plmSend
        · have hnine : plmCmdlen b1 = 9 := by rw [hsend]; decide
          rw [hget 5 (by omega) (by omega)]
        · rw [if_neg (fun hn => hsend hn.1), if_neg (fun hn => hsend hn.1)]
      rw [if_neg hpart, hclen]
      split
      · rfl
      · rename_i hfull
        rw [htake hfull]

/-! ## What cannot be made up for

The bytes that can be the command of a frame are in no negative answer, and a call makes no new ones. Once one of them is dropped, the
frames of the stream are not all read.
-/

/-- The number of bytes that can be the command of a frame. -/
def codes (bytes : List Octet) : Nat := bytes.countP fun b => decide (plmCmdlen b ≠ 0)

/-- Their number in the entries of a queue. -/
def codesIn (work : List Frame) : Nat := (work.map fun e => codes e.toList).sum

/-- A length is zero, or that of an entry. -/
theorem plmCmdlen_cases (c : Octet) : plmCmdlen c = 0 ∨ (c, plmCmdlen c) ∈ cmdlenTable := by
  unfold plmCmdlen
  cases hl : cmdlenTable.lookup c with
  | none => exact Or.inl rfl
  | some n =>
    obtain ⟨l, r, he, -⟩ := List.lookup_eq_some_iff.mp hl
    refine Or.inr ?_
    rw [he]
    exact List.mem_append_right l List.mem_cons_self

theorem plmCmdlen_le_max (c : Octet) : plmCmdlen c ≤ 25 := by
  have htable : ∀ p ∈ cmdlenTable, p.2 ≤ 25 := by decide
  rcases plmCmdlen_cases c with h | h
  · rw [h]
    exact Nat.zero_le 25
  · exact htable _ h

theorem codes_append (l m : List Octet) : codes (l ++ m) = codes l + codes m := List.countP_append

theorem codes_cons_of_known {c : Octet} (h : plmCmdlen c ≠ 0) (l : List Octet) : codes (c :: l) = codes l + 1 :=
  List.countP_cons_of_pos (decide_eq_true h)

theorem codes_cons_of_not {c : Octet} (h : plmCmdlen c = 0) (l : List Octet) : codes (c :: l) = codes l :=
  List.countP_cons_of_neg (by simp [h])

theorem codes_drop_le (n : Nat) (l : List Octet) : codes (l.drop n) ≤ codes l := (List.drop_sublist n l).countP_le

theorem codesIn_append (w w' : List Frame) : codesIn (w ++ w') = codesIn w + codesIn w' := by
  rw [codesIn, codesIn, codesIn, List.map_append, List.sum_append]

/-- An entry has the bytes it was made from, as far as the buffer goes, and zeros. -/
theorem toList_frameOf (l : List Octet) : (frameOf l).toList = l.take 30 ++ List.replicate (30 - l.length) 0 := by
  have hofFn : (frameOf l).toList = List.ofFn fun i : Fin 30 => l.getD i 0 := Vector.toList_ofFn
  have hlen : (l.take 30).length = min 30 l.length := List.length_take
  rw [hofFn]
  refine List.ext_getElem (by simp; omega) fun i hi _ => ?_
  rw [List.length_ofFn] at hi
  rw [List.getElem_ofFn]
  change l.getD i 0 = _
  by_cases hlt : i < l.length
  · rw [List.getElem_append_left (by omega), List.getElem_take, List.getD_eq_getElem _ _ hlt]
  · rw [List.getElem_append_right (by omega), List.getElem_replicate, List.getD_eq_default _ _ (by omega)]

theorem codes_replicate_zero (n : Nat) : codes (List.replicate n 0) = 0 := by
  unfold codes
  rw [List.countP_replicate]
  rfl

theorem codes_frameOf (l : List Octet) : codes (frameOf l).toList = codes (l.take 30) := by
  rw [toList_frameOf, codes_append, codes_replicate_zero, Nat.add_zero]

/-- Taking an entry makes no new bytes. -/
theorem codes_taken_le (w : List Frame) (evbuf : List Octet) (clen : Nat) :
    codesIn (w ++ [frameOf (evbuf.take clen)]) + codes (evbuf.drop clen) ≤ codesIn w + codes evbuf := by
  have hsplit : codes evbuf = codes (evbuf.take clen) + codes (evbuf.drop clen) := by
    rw [← codes_append, List.take_append_drop]
  have hentry : codesIn [frameOf (evbuf.take clen)] ≤ codes (evbuf.take clen) := by
    unfold codesIn
    rw [List.map_singleton, List.sum_singleton, codes_frameOf]
    exact (List.take_sublist _ _).countP_le
  rw [codesIn_append]
  omega

/-- One call makes no new bytes. -/
theorem codes_plmReadcb_le (conn : PlmConn) :
    codesIn (plmReadcb conn).workfifo + codes (plmReadcb conn).evbuf ≤ codesIn conn.workfifo + codes conn.evbuf := by
  unfold plmReadcb
  split
  · rename_i b0 b1 r hbuf
    dsimp only
    have hnak : codes (if b1 = plmcmdNak then conn.evbuf.drop 2 else conn.evbuf) ≤ codes conn.evbuf := by
      split
      · exact codes_drop_le 2 _
      · exact Nat.le_refl _
    revert hnak
    generalize (if b1 = plmcmdNak then conn.evbuf.drop 2 else conn.evbuf) = evbuf
    intro hnak
    have htaken : ∀ clen : Nat, codesIn (if conn.evbuf.length < clen then { conn with evbuf := evbuf } else
          { evbuf := evbuf.drop clen, workfifo := conn.workfifo ++ [frameOf (evbuf.take clen)] }).workfifo +
        codes (if conn.evbuf.length < clen then { conn with evbuf := evbuf } else
          { evbuf := evbuf.drop clen, workfifo := conn.workfifo ++ [frameOf (evbuf.take clen)] } : PlmConn).evbuf ≤
        codesIn conn.workfifo + codes conn.evbuf := by
      intro clen
      split
      · exact Nat.add_le_add_left hnak _
      · exact Nat.le_trans (codes_taken_le _ _ _) (Nat.add_le_add_left hnak _)
    split
    · exact Nat.add_le_add_left (codes_drop_le 1 _) _
    · split
      · exact Nat.add_le_add_left (Nat.le_trans (codes_drop_le 2 _) hnak) _
      · split
        · exact Nat.add_le_add_left hnak _
        · exact htaken _
  · exact Nat.le_refl _

theorem codes_plmFeed_le (chunks : List (List Octet)) (conn : PlmConn) :
    codesIn (plmFeed conn chunks).workfifo + codes (plmFeed conn chunks).evbuf ≤
      codesIn conn.workfifo + codes conn.evbuf + codes chunks.flatten := by
  induction chunks generalizing conn with
  | nil => exact Nat.le_refl _
  | cons chunk chunks ih =>
    have hstep := codes_plmReadcb_le { conn with evbuf := conn.evbuf ++ chunk }
    have hrest := ih (plmArrive conn chunk)
    rw [List.flatten_cons, codes_append]
    rw [codes_append] at hstep
    change codesIn (plmFeed (plmArrive conn chunk) chunks).workfifo + codes (plmFeed (plmArrive conn chunk) chunks).evbuf ≤ _
    change codesIn (plmArrive conn chunk).workfifo + codes (plmArrive conn chunk).evbuf ≤ _ at hstep
    dsimp only at hstep
    omega

/-- What begins with a byte that starts no frame is not read as it stands. -/
theorem codes_lost {c : Octet} (hknown : plmCmdlen c ≠ 0) {chunks : List (List Octet)} {conn : PlmConn} {s : List Octet}
    {w : List Frame} (h : conn.evbuf ++ chunks.flatten = c :: s) (hend : plmFeed conn chunks = ⟨[], w⟩) :
    codesIn w ≤ codesIn conn.workfifo + codes s := by
  induction chunks generalizing conn with
  | nil =>
    cases hend
    cases h
  | cons chunk chunks ih =>
    obtain ⟨evbuf, work⟩ := conn
    rw [List.flatten_cons, ← List.append_assoc] at h
    dsimp only at h
    change plmFeed (plmReadcb ⟨evbuf ++ chunk, work⟩) chunks = _ at hend
    by_cases hshort : (evbuf ++ chunk).length < 2
    · rw [plmReadcb_short hshort] at hend
      exact @ih ⟨evbuf ++ chunk, work⟩ h hend
    · match hbuf : evbuf ++ chunk, Nat.not_lt.mp hshort with
      | b0 :: b1 :: r, _ =>
        rw [hbuf] at h hend
        obtain ⟨rfl, hs⟩ : b0 = c ∧ (b1 :: r) ++ chunks.flatten = s := List.cons.inj h
        have hstart : b0 ≠ plmStart := by
          rintro rfl
          exact hknown (by decide)
        rw [plmReadcb_junk hstart] at hend
        have hle := codes_plmFeed_le chunks ⟨b1 :: r, work⟩
        rw [hend] at hle
        rw [← hs, codes_append]
        dsimp only at hle ⊢
        omega

/-! ## A stream in pieces -/

theorem stream_cons (i : Item) (items : List Item) : stream (i :: items) = i.bytes ++ stream items := rfl

theorem codesIn_entriesOf (items : List Item) : codesIn (entriesOf items) = codes (stream items) := by
  induction items with
  | nil => rfl
  | cons i items ih =>
    rw [stream_cons, codes_append, ← ih]
    cases i with
    | frame f =>
      have hle : f.bytes.length ≤ 30 := by
        rw [f.length_eq]
        unfold frameLen
        split
        · decide
        · exact Nat.le_trans (plmCmdlen_le_max _) (by decide)
      change codesIn (frameOf f.bytes :: entriesOf items) = _
      rw [codesIn, List.map_cons, List.sum_cons, codes_frameOf, List.take_of_length_le hle]
      rfl
    | nak =>
      change _ = codes [plmStart, plmcmdNak] + _
      rw [show codes [plmStart, plmcmdNak] = 0 by decide, Nat.zero_add]
      rfl

/-- What is left in the buffer and to come: the items that are not taken, with the second byte of a negative answer in front of them
where its first byte was dropped. -/
def pendingBytes (half : Bool) (items : List Item) : List Octet := if half then plmcmdNak :: stream items else stream items

theorem pendingBytes_eq_nil_iff {half : Bool} {items : List Item} : pendingBytes half items = [] ↔ half = false ∧ items = [] := by
  cases half with
  | true => simp [pendingBytes]
  | false =>
    cases items with
    | nil => simp [pendingBytes, stream]
    | cons i items =>
      have hne : i.bytes ≠ [] := by
        cases i with
        | frame f => exact List.ne_nil_of_length_pos (Nat.lt_of_lt_of_le Nat.two_pos f.two_le_length)
        | nak => exact List.cons_ne_nil _ _
      simp [pendingBytes, stream_cons, hne]

/-- A negative answer that is whole in the buffer. -/
theorem nak_of_pending {items : List Item} {buf rest : List Octet} (h : buf ++ rest = pendingBytes false (.nak :: items))
    (hlong : ¬ buf.length < 2) : ∃ r, buf = plmStart :: plmcmdNak :: r ∧ r ++ rest = stream items := by
  match buf, Nat.not_lt.mp hlong with
  | b0 :: b1 :: r, _ =>
    obtain ⟨h0, hr₁⟩ : b0 = plmStart ∧ (b1 :: r) ++ rest = plmcmdNak :: stream items := List.cons.inj h
    obtain ⟨h1, hr₂⟩ : b1 = plmcmdNak ∧ r ++ rest = stream items := List.cons.inj hr₁
    exact ⟨r, by rw [h0, h1], hr₂⟩

/-- One call, where it takes no byte of a frame along. -/
theorem plmReadcb_leaves {half half' : Bool} {items items' : List Item} {buf rest : List Octet} {b : Nat}
    (h : buf ++ rest = pendingBytes half items) (hc : callLeaves half items buf.length = some (half', items', b)) (work : List Frame) :
    ∃ buf' work', plmReadcb ⟨buf, work⟩ = ⟨buf', work'⟩ ∧ buf'.length = b ∧ buf' ++ rest = pendingBytes half' items' ∧
      work' ++ entriesOf items' = work ++ entriesOf items := by
  unfold callLeaves at hc
  split at hc
  · rename_i hshort
    cases hc
    exact ⟨buf, work, plmReadcb_short hshort, rfl, h, rfl⟩
  · rename_i hlong
    match half, items, h, hc with
    | true, items, h, hc =>
      match buf, Nat.not_lt.mp hlong, h, hc with
      | b0 :: b1 :: r, _, h, hc =>
        obtain ⟨rfl, hr⟩ : b0 = plmcmdNak ∧ (b1 :: r) ++ rest = stream items := List.cons.inj h
        cases hc
        exact ⟨b1 :: r, work, plmReadcb_junk (by decide), rfl, hr, rfl⟩
    | false, [], h, hc =>
      have hnil : buf = [] := (List.append_eq_nil_iff.mp h).1
      rw [hnil] at hlong
      exact absurd Nat.two_pos hlong
    | false, .frame f :: items, h, hc =>
      have hread := plmReadcb_frame f h work
      dsimp only at hc
      split at hc
      · rename_i hpart
        cases hc
        rw [if_pos hpart] at hread
        exact ⟨buf, work, hread, rfl, h, rfl⟩
      · rename_i hfull
        rw [if_neg hfull] at hread
        have hdrop := congrArg (List.drop f.bytes.length) h
        change _ = List.drop f.bytes.length (f.bytes ++ stream items) at hdrop
        cases hc
        rw [List.drop_append_of_le_length (Nat.not_lt.mp hfull), List.drop_left] at hdrop
        exact ⟨_, _, hread, List.length_drop, hdrop, by simp [entriesOf]⟩
    | false, .nak :: items, h, hc =>
      obtain ⟨r, rfl, hr⟩ := nak_of_pending h hlong
      have hread := plmReadcb_nak r work
      dsimp only at hc
      split at hc
      · rename_i h2
        cases hc
        have hnil : r = [] := List.eq_nil_of_length_eq_zero (by simpa using h2)
        subst hnil
        exact ⟨[], work, hread, rfl, hr, rfl⟩
      · rename_i h2
        match items, r, h2, hr, hc with
        | [], _, _, _, hc => cases hc
        | .frame f :: items, _, _, _, hc => cases hc
        | .nak :: items, [], h2, _, _ => exact absurd rfl h2
        | .nak :: items, [b2], _, hr, hc =>
          obtain ⟨-, hr'⟩ : b2 = plmStart ∧ rest = plmcmdNak :: stream items := List.cons.inj hr
          cases hc
          exact ⟨[], work, hread, rfl, hr', rfl⟩
        | .nak :: items, b2 :: b3 :: r, _, hr, hc =>
          obtain ⟨-, hr'⟩ : b2 = plmStart ∧ (b3 :: r) ++ rest = plmcmdNak :: stream items := List.cons.inj hr
          obtain ⟨-, hr''⟩ : b3 = plmcmdNak ∧ r ++ rest = stream items := List.cons.inj hr'
          have hne : ¬ (plmStart :: plmcmdNak :: b2 :: b3 :: r).length = 3 := by simp
          dsimp only at hc
          rw [if_neg hne] at hc
          cases hc
          exact ⟨r, work, hread, by simp, hr'', rfl⟩

/-- One call that takes bytes of a frame along: what it takes cannot be made up for. -/
theorem plmReadcb_loses {half : Bool} {items : List Item} {buf : List Octet} {chunks : List (List Octet)}
    (h : buf ++ chunks.flatten = pendingBytes half items) (hc : callLeaves half items buf.length = none) (work : List Frame) :
    plmFeed (plmReadcb ⟨buf, work⟩) chunks ≠ ⟨[], work ++ entriesOf items⟩ := by
  intro hend
  unfold callLeaves at hc
  split at hc
  · cases hc
  · rename_i hlong
    match half, items, h, hc, hend with
    | true, _, _, hc, _ => cases hc
    | false, [], _, hc, _ => cases hc
    | false, .frame f :: items, _, hc, _ =>
      dsimp only at hc
      split at hc <;> cases hc
    | false, .nak :: items, h, hc, hend =>
      obtain ⟨r, rfl, hr⟩ := nak_of_pending h hlong
      rw [plmReadcb_nak] at hend
      have hcodes : codesIn (entriesOf (.nak :: items)) = codes (stream items) := codesIn_entriesOf items
      dsimp only at hc
      split at hc
      · cases hc
      · rename_i h2
        match items, r, h2, hr, hc with
        | _, [], h2, _, _ => exact absurd rfl h2
        | [], b2 :: r, _, hr, _ => cases hr
        | .nak :: items, b2 :: r, _, _, hc =>
          dsimp only at hc
          split at hc <;> cases hc
        | .frame f :: items, b2 :: r, _, hr, _ =>
          obtain ⟨c, t, hf, hknown⟩ := f.bytes_eq
          have hstream : stream (.frame f :: items) = plmStart :: c :: (t ++ stream items) := by
            rw [stream_cons, Item.bytes, hf]
            rfl
          have hstart : codes (stream (.frame f :: items)) = codes (t ++ stream items) + 1 := by
            rw [hstream, codes_cons_of_not (by decide), codes_cons_of_known hknown]
          rw [hstream] at hr
          obtain ⟨-, hr'⟩ : b2 = plmStart ∧ r ++ chunks.flatten = c :: (t ++ stream items) := List.cons.inj hr
          match r, hr' with
          | [], hr =>
            have hlost := @codes_lost _ hknown _ ⟨[], work⟩ _ _ hr hend
            rw [codesIn_append, hcodes] at hlost
            dsimp only at hlost
            omega
          | b3 :: r, hr =>
            obtain ⟨-, hr''⟩ : b3 = c ∧ r ++ chunks.flatten = t ++ stream items := List.cons.inj hr
            have hle := codes_plmFeed_le chunks ⟨r, work⟩
            change plmFeed ⟨r, work⟩ chunks = _ at hend
            rw [hend, Nat.add_assoc, ← codes_append, hr'', codesIn_append, hcodes] at hle
            dsimp only at hle
            omega

/-- The items are read, each once and in order, exactly when the calls are paced for it. -/
theorem plmFeed_iff (chunks : List (List Octet)) (half : Bool) (items : List Item) (evbuf : List Octet) (work : List Frame)
    (h : evbuf ++ chunks.flatten = pendingBytes half items) :
    plmFeed ⟨evbuf, work⟩ chunks = ⟨[], work ++ entriesOf items⟩ ↔ Paced (chunks.map List.length) half items evbuf.length := by
  induction chunks generalizing half items evbuf work with
  | nil =>
    rw [List.flatten_nil, List.append_nil] at h
    subst h
    change (⟨pendingBytes half items, work⟩ : PlmConn) = ⟨[], work ++ entriesOf items⟩ ↔ half = false ∧ items = []
    rw [PlmConn.mk.injEq, pendingBytes_eq_nil_iff]
    refine ⟨And.left, fun hnil => ⟨hnil, ?_⟩⟩
    rw [hnil.2]
    exact (List.append_nil work).symm
  | cons chunk chunks ih =>
    rw [List.flatten_cons, ← List.append_assoc] at h
    change plmFeed (plmReadcb ⟨evbuf ++ chunk, work⟩) chunks = _ ↔ _
    rw [List.map_cons]
    unfold Paced
    rw [← List.length_append]
    cases hc : callLeaves half items (evbuf ++ chunk).length with
    | none => exact iff_of_false (plmReadcb_loses h hc work) id
    | some r =>
      obtain ⟨half', items', b⟩ := r
      obtain ⟨buf', work', hread, rfl, hpend, hwork⟩ := plmReadcb_leaves h hc work
      rw [hread, ← hwork]
      exact ih half' items' buf' work' hpend

/-- For every stream and every way of cutting it, the frames of the stream are queued, each once and in order, and nothing is left
over, exactly when the lengths of the pieces are paced for it. -/
theorem plmFeed_frames_iff {items : List Item} {chunks : List (List Octet)} (h : chunks.flatten = stream items) :
    plmFeed {} chunks = { evbuf := [], workfifo := entriesOf items } ↔ Paced (chunks.map List.length) false items 0 :=
  plmFeed_iff chunks false items [] [] h

/-- A button is pressed. -/
def buttonFrame : PlmFrame where
  bytes := [plmStart, plmButtonevent, 0x02]
  start := rfl
  known := by decide
  length_eq := by decide

/-- A negative answer alone, and a frame in two pieces. -/
theorem plmFeed_frames_iff_button : plmFeed {} [[plmStart, plmcmdNak], [plmStart], [plmButtonevent, 0x02]] =
    { evbuf := [], workfifo := entriesOf [.nak, .frame buttonFrame] } :=
  (@plmFeed_frames_iff [.nak, .frame buttonFrame] [[plmStart, plmcmdNak], [plmStart], [plmButtonevent, 0x02]] rfl).mpr
    (by simp [Paced, callLeaves, buttonFrame])

/-- A negative answer arrives with the frame behind it, and the frame is lost; two frames arrive together, and one is left in the
buffer. -/
theorem plmFeed_loses : [[plmStart, plmcmdNak, plmStart, plmButtonevent, 0x02]].flatten = stream [.nak, .frame buttonFrame] ∧
    plmFeed {} [[plmStart, plmcmdNak, plmStart, plmButtonevent, 0x02]] ≠
      { evbuf := [], workfifo := entriesOf [.nak, .frame buttonFrame] } ∧
    [[plmStart, plmButtonevent, 0x02, plmStart, plmButtonevent, 0x02]].flatten = stream [.frame buttonFrame, .frame buttonFrame] ∧
    plmFeed {} [[plmStart, plmButtonevent, 0x02, plmStart, plmButtonevent, 0x02]] ≠
      { evbuf := [], workfifo := entriesOf [.frame buttonFrame, .frame buttonFrame] } :=
  ⟨rfl, by decide, rfl, by decide⟩

/-! ## Streams without negative answers -/

/-- How many packets of these lengths are not whole when so many bytes have arrived. -/
def unfinished : List Nat → Nat → Nat
  | [], _ => 0
  | n :: ns, b => if b < n then ns.length + 1 else unfinished ns (b - n)

theorem unfinished_le (ns : List Nat) (b : Nat) : unfinished ns b ≤ ns.length := by
  induction ns generalizing b with
  | nil => exact Nat.le_refl _
  | cons n ns ih =>
    unfold unfinished
    split
    · exact Nat.le_refl _
    · exact Nat.le_succ_of_le (ih _)

/-- What a call leaves of frames. -/
theorem callLeaves_frames (f : PlmFrame) (fs : List PlmFrame) (b : Nat) :
    callLeaves false ((f :: fs).map Item.frame) b =
      if b < f.bytes.length then some (false, (f :: fs).map Item.frame, b) else some (false, fs.map Item.frame, b - f.bytes.length) := by
  have h2 := f.two_le_length
  unfold callLeaves
  split
  · rw [if_pos (by omega)]
  · rfl

/-- Frames alone are taken in time exactly when after each piece as many pieces are to come as frames are not whole. -/
theorem paced_frames_iff (ns : List Nat) (fs : List PlmFrame) (b : Nat) : Paced ns false (fs.map Item.frame) b ↔
    fs.length ≤ ns.length ∧ ∀ j < ns.length,
      unfinished (fs.map fun f => f.bytes.length) (b + (ns.take (j + 1)).sum) ≤ ns.length - (j + 1) := by
  induction ns generalizing fs b with
  | nil => simp [Paced]
  | cons n ns ih =>
    unfold Paced
    cases fs with
    | nil =>
      have hleaves : callLeaves false [] (b + n) = some (false, [], b + n) := by
        unfold callLeaves
        split <;> rfl
      rw [List.map_nil, hleaves]
      have := ih [] (b + n)
      simp only [List.map_nil] at this
      dsimp only
      rw [this]
      simp [unfinished]
    | cons f fs =>
      rw [callLeaves_frames]
      simp only [List.length_cons, List.map_cons]
      rw [Nat.forall_lt_succ_left]
      simp only [Nat.zero_add, List.take_succ_cons, List.take_zero, List.sum_cons, List.sum_nil, Nat.add_zero, Nat.add_sub_cancel]
      have hsums : ∀ j, b + (n + (ns.take (j + 1)).sum) = b + n + (ns.take (j + 1)).sum := fun j => by omega
      have hlefts : ∀ j, ns.length + 1 - (j + 1 + 1) = ns.length - (j + 1) := fun j => by omega
      simp only [hsums, hlefts]
      by_cases hpart : b + n < f.bytes.length
      · rw [if_pos hpart]
        have hfirst : unfinished (f.bytes.length :: fs.map fun f => f.bytes.length) (b + n) = fs.length + 1 := by
          rw [unfinished, if_pos hpart, List.length_map]
        have hrest := ih (f :: fs) (b + n)
        simp only [List.length_cons, List.map_cons] at hrest
        dsimp only
        rw [hrest, hfirst]
        constructor
        · rintro ⟨h1, h2⟩
          exact ⟨by omega, h1, h2⟩
        · rintro ⟨-, h1, h2⟩
          exact ⟨h1, h2⟩
      · rw [if_neg hpart]
        have hskip : ∀ s, unfinished (f.bytes.length :: fs.map fun f => f.bytes.length) (b + n + s) =
            unfinished (fs.map fun f => f.bytes.length) (b + n - f.bytes.length + s) := by
          intro s
          rw [unfinished, if_neg (by omega), Nat.sub_add_comm (Nat.not_lt.mp hpart)]
        have hfirst := hskip 0
        rw [Nat.add_zero, Nat.add_zero] at hfirst
        have hle := unfinished_le (fs.map fun f => f.bytes.length) (b + n - f.bytes.length)
        rw [List.length_map] at hle
        dsimp only
        rw [ih fs (b + n - f.bytes.length), hfirst]
        simp only [hskip]
        constructor
        · rintro ⟨h1, h2⟩
          exact ⟨by omega, by omega, h2⟩
        · rintro ⟨h1, -, h2⟩
          exact ⟨by omega, h2⟩

/-- Nothing is whole before the first byte. -/
theorem unfinished_zero (fs : List PlmFrame) : unfinished (fs.map fun f => f.bytes.length) 0 = fs.length := by
  cases fs with
  | nil => rfl
  | cons f fs =>
    have h2 := f.two_le_length
    rw [List.map_cons, unfinished, if_pos (by omega), List.length_map, List.length_cons]

/-- A stream of frames alone is read exactly when after each piece as many pieces are to come as frames are not whole: before the
first, as many as there are frames. -/
theorem plmFeed_frames_alone_iff {fs : List PlmFrame} {chunks : List (List Octet)} (h : chunks.flatten = stream (fs.map Item.frame)) :
    plmFeed {} chunks = { evbuf := [], workfifo := fs.map fun f => frameOf f.bytes } ↔
      ∀ j ≤ chunks.length, unfinished (fs.map fun f => f.bytes.length) (chunks.take j).flatten.length ≤ chunks.length - j := by
  have hentries : entriesOf (fs.map Item.frame) = fs.map fun f => frameOf f.bytes := by
    rw [entriesOf, List.filterMap_map, ← List.filterMap_eq_map]
    rfl
  have hsum : ∀ j, ((chunks.map List.length).take j).sum = (chunks.take j).flatten.length := fun j => by
    rw [← List.map_take, List.length_flatten]
  have hiff : plmFeed {} chunks = { evbuf := [], workfifo := entriesOf (fs.map Item.frame) } ↔ _ :=
    plmFeed_iff chunks false (fs.map Item.frame) [] [] h
  rw [← hentries, hiff, List.length_nil, paced_frames_iff, List.length_map]
  simp only [Nat.zero_add, hsum]
  constructor
  · rintro ⟨h1, h2⟩ j hj
    cases j with
    | zero =>
      rw [List.take_zero, List.flatten_nil, List.length_nil, unfinished_zero]
      exact h1
    | succ j => exact h2 j hj
  · intro h
    refine ⟨?_, fun j hj => h (j + 1) hj⟩
    have h0 := h 0 (Nat.zero_le _)
    rwa [List.take_zero, List.flatten_nil, List.length_nil, unfinished_zero] at h0

end Gnhast.Insteon
