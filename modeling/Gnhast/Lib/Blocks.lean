import Mathlib.Data.List.Nodup
import Mathlib.Tactic.Common

/-!
# Blocks of memory, and arrays of pointers to them

Allocation hands out a new block each time; a block is live until it is freed. A block holds data or an array of pointers. Freeing
anything but NULL or a live block, and touching an array outside its slots, are misuses and end a computation.

`ArrayAt` says what a pointer with a count of slots stands for: nothing, an array whose first slots point to data of its own or to
constants, or an array that was freed. Each array comes with its footprint, the blocks that belong to it; what is done to an array
leaves all other blocks as they are (`Frame`).
-/

namespace Blocks

variable {α : Type}

/-- A pointer: NULL, to a block, or to constant data. -/
inductive Ptr (α : Type)
  | null
  | block (b : Nat)
  | const (a : α)
deriving Repr, DecidableEq

/-- What a block holds. -/
inductive Cell (α : Type)
  | data (a : α)
  | slots (ps : List (Ptr α))
deriving Repr, DecidableEq

/-- The blocks handed out so far; one that was freed holds nothing. -/
abbrev Heap (α : Type) : Type := List (Option (Cell α))

/-- What may not be done. -/
inductive Misuse
  | badFree | badRead | badWrite
deriving Repr, DecidableEq

/-- A new block. -/
def alloc (c : Cell α) (h : Heap α) : Ptr α × Heap α := (.block h.length, h ++ [some c])

/-- Freeing NULL does nothing. -/
def free (p : Ptr α) (h : Heap α) : Except Misuse (Heap α) :=
  match p with
  | .null => .ok h
  | .const _ => .error .badFree
  | .block b =>
    match h[b]? with
    | some (some _) => .ok (h.set b none)
    | _ => .error .badFree

/-- Reading a slot of an array. -/
def readSlot (p : Ptr α) (i : Nat) (h : Heap α) : Except Misuse (Ptr α) :=
  match p with
  | .block b =>
    match h[b]? with
    | some (some (.slots ps)) =>
      match ps[i]? with
      | some q => .ok q
      | none => .error .badRead
    | _ => .error .badRead
  | _ => .error .badRead

/-- Writing a slot of an array. -/
def writeSlot (p : Ptr α) (i : Nat) (q : Ptr α) (h : Heap α) : Except Misuse (Heap α) :=
  match p with
  | .block b =>
    match h[b]? with
    | some (some (.slots ps)) => if i < ps.length then .ok (h.set b (some (.slots (ps.set i q)))) else .error .badWrite
    | _ => .error .badWrite
  | _ => .error .badWrite

/-- Reading data. -/
def readData (p : Ptr α) (h : Heap α) : Except Misuse α :=
  match p with
  | .null => .error .badRead
  | .const a => .ok a
  | .block b =>
    match h[b]? with
    | some (some (.data a)) => .ok a
    | _ => .error .badRead

/-- Writing data in place; constants may not be written. -/
def writeData (p : Ptr α) (a : α) (h : Heap α) : Except Misuse (Heap α) :=
  match p with
  | .block b =>
    match h[b]? with
    | some (some (.data _)) => .ok (h.set b (some (.data a)))
    | _ => .error .badWrite
  | _ => .error .badWrite

/-- Freeing what some slots of an array point to, from a slot on. -/
def freeSlots (p : Ptr α) : Nat → Nat → Heap α → Except Misuse (Heap α)
  | _, 0, h => .ok h
  | i, n + 1, h => (readSlot p i h).bind fun q => (free q h).bind (freeSlots p (i + 1) n)

/-- Freeing an array after what its first slots point to. -/
def freeArray (p : Ptr α) (n : Nat) (h : Heap α) : Except Misuse (Heap α) := (freeSlots p 0 n h).bind (free p)

/-- Copying data to blocks of their own that the slots of an array point to, from a slot on. -/
def fillSlots (p : Ptr α) : Nat → List α → Heap α → Except Misuse (Heap α)
  | _, [], h => .ok h
  | i, a :: as, h =>
    let (q, h) := alloc (.data a) h
    (writeSlot p i q h).bind (fillSlots p (i + 1) as)

/-! ## Frames -/

/-- The heap may grow, and blocks outside a footprint stay as they are. -/
structure Frame (fp : List Nat) (h h' : Heap α) : Prop where
  grows : h.length ≤ h'.length
  keeps : ∀ b < h.length, b ∉ fp → h'[b]? = h[b]?

namespace Frame

variable {fp fp' : List Nat} {h h' h'' : Heap α}

theorem refl (fp : List Nat) (h : Heap α) : Frame fp h h := ⟨Nat.le_refl _, fun _ _ _ => rfl⟩

theorem trans (hf : Frame fp h h') (hf' : Frame fp h' h'') : Frame fp h h'' :=
  ⟨Nat.le_trans hf.grows hf'.grows, fun b hb hn => (hf'.keeps b (Nat.lt_of_lt_of_le hb hf.grows) hn).trans (hf.keeps b hb hn)⟩

theorem mono (hf : Frame fp h h') (hsub : fp ⊆ fp') : Frame fp' h h' := ⟨hf.grows, fun b hb hn => hf.keeps b hb fun hm => hn (hsub hm)⟩

/-- What is done to blocks handed out later leaves the frame of the heap before. -/
theorem trans_new {new : List Nat} (hf : Frame fp h h') (hf' : Frame new h' h'') (hnew : ∀ b ∈ new, h.length ≤ b) :
    Frame fp h h'' := by
  refine ⟨Nat.le_trans hf.grows hf'.grows, fun b hb hn => ?_⟩
  rw [hf'.keeps b (Nat.lt_of_lt_of_le hb hf.grows) fun hm => absurd (hnew b hm) (Nat.not_le_of_lt hb), hf.keeps b hb hn]

theorem alloc (fp : List Nat) (c : Cell α) (h : Heap α) : Frame fp h (h ++ [some c]) :=
  ⟨by simp, fun b hb _ => List.getElem?_append_left hb⟩

theorem set {b : Nat} (hb : b ∈ fp) (c : Option (Cell α)) (h : Heap α) : Frame fp h (h.set b c) :=
  ⟨by simp, fun b' _ hn => List.getElem?_set_ne fun he : b = b' => hn (he ▸ hb)⟩

/-- A block with contents is one that was handed out. -/
theorem get {b : Nat} {c : Option (Cell α)} (hf : Frame fp h h') (hb : h[b]? = some c) (hn : b ∉ fp) : h'[b]? = some c :=
  (hf.keeps b (List.getElem?_eq_some_iff.mp hb).1 hn).trans hb

end Frame

theorem lt_of_get {h : Heap α} {b : Nat} {c : Option (Cell α)} (hb : h[b]? = some c) : b < h.length :=
  (List.getElem?_eq_some_iff.mp hb).1

/-! ## Single steps -/

theorem get_alloc (c : Cell α) (h : Heap α) : (h ++ [some c])[h.length]? = some (some c) := by
  simp

theorem free_live {b : Nat} {c : Cell α} {h : Heap α} (hb : h[b]? = some (some c)) : free (.block b) h = .ok (h.set b none) := by
  rw [free, hb]

theorem free_dead {b : Nat} {h : Heap α} (hb : h[b]? = some none) : free (.block b) h = .error .badFree := by
  rw [free, hb]

theorem readSlot_array {b : Nat} {pre ps : List (Ptr α)} {q : Ptr α} {h : Heap α}
    (hb : h[b]? = some (some (.slots (pre ++ q :: ps)))) : readSlot (.block b) pre.length h = .ok q := by
  rw [readSlot, hb]
  simp

theorem readSlot_first {b : Nat} {ps : List (Ptr α)} {q : Ptr α} {h : Heap α} (hb : h[b]? = some (some (.slots (q :: ps)))) :
    readSlot (.block b) 0 h = .ok q := by
  rw [readSlot, hb]
  rfl

theorem writeSlot_array {b : Nat} {pre ps : List (Ptr α)} {q : Ptr α} {h : Heap α}
    (hb : h[b]? = some (some (.slots (pre ++ q :: ps)))) (q' : Ptr α) :
    writeSlot (.block b) pre.length q' h = .ok (h.set b (some (.slots (pre ++ q' :: ps)))) := by
  rw [writeSlot, hb]
  simp

/-! ## Arrays -/

/-- What a slot of an array points to: data of its own, or a constant. -/
inductive Item (α : Type)
  | own (a : α)
  | const (a : α)
deriving Repr, DecidableEq

/-- The item may be freed. -/
def Item.owned : Item α → Bool
  | .own _ => true
  | .const _ => false

/-- The state of an array: there is none, it has items, or it was freed and the pointer to it kept. -/
inductive State (α : Type)
  | null
  | live (items : List (Item α))
  | dead
deriving Repr, DecidableEq

/-- Slots that point to items; the blocks are those of the data. -/
inductive SlotsAt (h : Heap α) : List (Ptr α) → List Nat → List (Item α) → Prop
  | nil : SlotsAt h [] [] []
  | own {b : Nat} {a : α} {ps : List (Ptr α)} {bs : List Nat} {items : List (Item α)} (hb : h[b]? = some (some (.data a)))
      (rest : SlotsAt h ps bs items) : SlotsAt h (.block b :: ps) (b :: bs) (.own a :: items)
  | const {a : α} {ps : List (Ptr α)} {bs : List Nat} {items : List (Item α)} (rest : SlotsAt h ps bs items) :
      SlotsAt h (.const a :: ps) bs (.const a :: items)

/-- A pointer and a count of slots, with the blocks that belong to them, stand for the state of an array. -/
inductive ArrayAt (h : Heap α) : Ptr α → Nat → List Nat → State α → Prop
  | null : ArrayAt h .null 0 [] .null
  | live {b : Nat} {ps rest : List (Ptr α)} {bs : List Nat} {items : List (Item α)}
      (hb : h[b]? = some (some (.slots (ps ++ rest)))) (hps : SlotsAt h ps bs items) :
      ArrayAt h (.block b) items.length (b :: bs) (.live items)
  | dead {b : Nat} (hb : h[b]? = some none) : ArrayAt h (.block b) 0 [b] .dead

theorem SlotsAt.frame {fp : List Nat} {h h' : Heap α} (hf : Frame fp h h') {ps : List (Ptr α)} {bs : List Nat}
    {items : List (Item α)} (hs : SlotsAt h ps bs items) (hd : ∀ b ∈ bs, b ∉ fp) : SlotsAt h' ps bs items := by
  induction hs with
  | nil => exact .nil
  | own hb rest ih => exact .own (hf.get hb (hd _ List.mem_cons_self)) (ih fun b hm => hd b (List.mem_cons_of_mem _ hm))
  | const rest ih => exact .const (ih hd)

theorem SlotsAt.lt {h : Heap α} {ps : List (Ptr α)} {bs : List Nat} {items : List (Item α)} (hs : SlotsAt h ps bs items) :
    ∀ b ∈ bs, b < h.length := by
  induction hs with
  | nil => simp
  | own hb rest ih => exact List.forall_mem_cons.mpr ⟨lt_of_get hb, ih⟩
  | const rest ih => exact ih

theorem SlotsAt.length {h : Heap α} {ps : List (Ptr α)} {bs : List Nat} {items : List (Item α)} (hs : SlotsAt h ps bs items) :
    ps.length = items.length := by
  induction hs with
  | nil => rfl
  | own hb rest ih => simp [ih]
  | const rest ih => simp [ih]

/-- A constant in the next slot. -/
theorem SlotsAt.append_const {h : Heap α} {ps : List (Ptr α)} {bs : List Nat} {items : List (Item α)} (hs : SlotsAt h ps bs items)
    (a : α) : SlotsAt h (ps ++ [.const a]) bs (items ++ [.const a]) := by
  induction hs with
  | nil => exact .const .nil
  | own hb rest ih => exact .own hb ih
  | const rest ih => exact .const ih

/-- What is done to other blocks leaves an array. -/
theorem ArrayAt.frame {fp' : List Nat} {h h' : Heap α} (hf : Frame fp' h h') {p : Ptr α} {n : Nat} {fp : List Nat} {st : State α}
    (ha : ArrayAt h p n fp st) (hd : ∀ b ∈ fp, b ∉ fp') : ArrayAt h' p n fp st := by
  cases ha with
  | null => exact .null
  | live hb hps =>
    exact .live (hf.get hb (hd _ List.mem_cons_self)) (hps.frame hf fun b hm => hd b (List.mem_cons_of_mem _ hm))
  | dead hb => exact .dead (hf.get hb (hd _ List.mem_cons_self))

theorem ArrayAt.lt {h : Heap α} {p : Ptr α} {n : Nat} {fp : List Nat} {st : State α} (ha : ArrayAt h p n fp st) :
    ∀ b ∈ fp, b < h.length := by
  cases ha with
  | null => simp
  | live hb hps => exact List.forall_mem_cons.mpr ⟨lt_of_get hb, hps.lt⟩
  | dead hb => simpa using lt_of_get hb

theorem ArrayAt.null_iff {h : Heap α} {p : Ptr α} {n : Nat} {fp : List Nat} {st : State α} (ha : ArrayAt h p n fp st) :
    p = .null ↔ st = .null := by
  cases ha <;> simp

/-- Of an array that was freed, neither the items nor the array itself can be. -/
theorem ArrayAt.free_dead {h : Heap α} {p : Ptr α} {n : Nat} {fp : List Nat} (ha : ArrayAt h p n fp .dead) :
    freeSlots p 0 n h = .ok h ∧ free p h = .error .badFree := by
  cases ha with
  | dead hb => exact ⟨rfl, Blocks.free_dead hb⟩

/-! ## Freeing an array -/

/-- Freeing the first slot of some, and going on with the others. -/
theorem freeSlots_own {h : Heap α} {b b' : Nat} {a : α} {pre ps rest : List (Ptr α)} {bs : List Nat} {items : List (Item α)}
    (hb : h[b]? = some (some (.slots (pre ++ Ptr.block b' :: (ps ++ rest))))) (hb' : h[b']? = some (some (.data a)))
    (hs : SlotsAt h ps bs items) (hnd : (b :: b' :: bs).Nodup) :
    freeSlots (.block b) pre.length (items.length + 1) h =
        freeSlots (.block b) (pre ++ [Ptr.block b']).length items.length (h.set b' none) ∧
      (h.set b' none)[b]? = some (some (.slots (pre ++ [Ptr.block b'] ++ (ps ++ rest)))) ∧
      SlotsAt (h.set b' none) ps bs items ∧ Frame (b' :: bs) h (h.set b' none) := by
  obtain ⟨hnb, hnd'⟩ := List.nodup_cons.mp hnd
  obtain ⟨hnb', -⟩ := List.nodup_cons.mp hnd'
  have hf : Frame [b'] h (h.set b' none) := Frame.set (List.mem_singleton_self b') none h
  refine ⟨?_, ?_, hs.frame hf fun x hx hm => ?_, hf.mono fun x hx => ?_⟩
  · rw [freeSlots, readSlot_array hb]
    change (free (.block b') h).bind _ = _
    rw [free_live hb', List.length_append]
    rfl
  · rw [hf.get hb fun hm => hnb (List.mem_singleton.mp hm ▸ List.mem_cons_self)]
    simp
  · exact hnb' (List.mem_singleton.mp hm ▸ hx)
  · exact List.mem_singleton.mp hx ▸ List.mem_cons_self

/-- Slots whose items are all data of their own can be freed. -/
theorem freeSlots_owned {items : List (Item α)} (ho : ∀ item ∈ items, item.owned = true) {h : Heap α} {b : Nat}
    (pre : List (Ptr α)) {ps rest : List (Ptr α)} {bs : List Nat} (hb : h[b]? = some (some (.slots (pre ++ (ps ++ rest)))))
    (hs : SlotsAt h ps bs items) (hnd : (b :: bs).Nodup) :
    ∃ h', freeSlots (.block b) pre.length items.length h = .ok h' ∧ Frame bs h h' := by
  induction items generalizing h pre ps bs with
  | nil =>
    cases hs
    exact ⟨h, rfl, Frame.refl [] h⟩
  | cons item items ih =>
    cases hs with
    | own hb' hs =>
      obtain ⟨heq, hb1, hs1, hf1⟩ := freeSlots_own hb hb' hs hnd
      have hnd1 := hnd.sublist (List.Sublist.cons_cons b (List.sublist_cons_self _ _))
      obtain ⟨h', hfree, hf⟩ := ih (fun x hx => ho x (List.mem_cons_of_mem _ hx)) _ hb1 hs1 hnd1
      exact ⟨h', heq.trans hfree, hf1.trans (hf.mono (List.subset_cons_self _ _))⟩
    | const hs => cases ho _ List.mem_cons_self

/-- Slots with a constant among their items cannot be freed. -/
theorem freeSlots_const {items : List (Item α)} (hc : ∃ item ∈ items, item.owned = false) {h : Heap α} {b : Nat}
    (pre : List (Ptr α)) {ps rest : List (Ptr α)} {bs : List Nat} (hb : h[b]? = some (some (.slots (pre ++ (ps ++ rest)))))
    (hs : SlotsAt h ps bs items) (hnd : (b :: bs).Nodup) :
    freeSlots (.block b) pre.length items.length h = .error .badFree := by
  induction items generalizing h pre ps bs with
  | nil => simp at hc
  | cons item items ih =>
    cases hs with
    | own hb' hs =>
      obtain ⟨heq, hb1, hs1, -⟩ := freeSlots_own hb hb' hs hnd
      have hnd1 := hnd.sublist (List.Sublist.cons_cons b (List.sublist_cons_self _ _))
      have hc1 : ∃ item ∈ items, item.owned = false := by
        obtain ⟨x, hx, hxo⟩ := hc
        rcases List.mem_cons.mp hx with rfl | hx
        · cases hxo
        · exact ⟨x, hx, hxo⟩
      exact heq.trans (ih hc1 _ hb1 hs1 hnd1)
    | const hs =>
      rw [List.cons_append] at hb
      rw [List.length_cons, freeSlots, readSlot_array hb]
      rfl

/-- The array can be freed: it was not freed, and its items are data of their own. -/
def State.freeable : State α → Bool
  | .null => true
  | .live items => items.all Item.owned
  | .dead => false

/-- What is left of an array when its items are freed. -/
def State.emptied : State α → State α
  | .null => .null
  | .live _ => .live []
  | .dead => .dead

/-- What is left of an array when it is freed. -/
def State.dropped : State α → State α
  | .null => .null
  | .live _ => .dead
  | .dead => .dead

theorem freeSlots_freeable {h : Heap α} {p : Ptr α} {n : Nat} {fp : List Nat} {st : State α} (ha : ArrayAt h p n fp st)
    (hnd : fp.Nodup) (hst : st.freeable = true) :
    ∃ h', freeSlots p 0 n h = .ok h' ∧ Frame fp h h' ∧ ArrayAt h' p 0 (fp.take 1) st.emptied := by
  cases ha with
  | null => exact ⟨h, rfl, Frame.refl [] h, .null⟩
  | dead hb => cases hst
  | live hb hps =>
    obtain ⟨h', hfree, hf⟩ := freeSlots_owned (List.all_eq_true.mp hst) [] hb hps hnd
    exact ⟨h', hfree, hf.mono (List.subset_cons_self _ _), .live ((List.nil_append _).symm ▸ hf.get hb (List.nodup_cons.mp hnd).1) .nil⟩

theorem free_emptied {h : Heap α} {p : Ptr α} {n : Nat} {fp : List Nat} {st : State α} (ha : ArrayAt h p n fp st.emptied)
    (hst : st.freeable = true) : ∃ h', free p h = .ok h' ∧ Frame fp h h' ∧ ArrayAt h' p 0 fp st.dropped := by
  cases st with
  | null =>
    cases ha
    exact ⟨h, rfl, Frame.refl [] h, .null⟩
  | dead => cases hst
  | live items =>
    generalize he : State.emptied (State.live items) = st' at ha
    cases ha with
    | null => cases he
    | dead hb => cases he
    | live hb hps =>
      rename_i b ps rest bs items'
      refine ⟨h.set b none, free_live hb, Frame.set List.mem_cons_self none h, ?_⟩
      cases he
      cases hps
      exact .dead (List.getElem?_set_self (lt_of_get hb))

theorem freeArray_freeable {h : Heap α} {p : Ptr α} {n : Nat} {fp : List Nat} {st : State α} (ha : ArrayAt h p n fp st)
    (hnd : fp.Nodup) (hst : st.freeable = true) :
    ∃ h', freeArray p n h = .ok h' ∧ Frame fp h h' ∧ ArrayAt h' p 0 (fp.take 1) st.dropped := by
  obtain ⟨h1, hfree1, hf1, ha1⟩ := freeSlots_freeable ha hnd hst
  obtain ⟨h2, hfree2, hf2, ha2⟩ := free_emptied ha1 hst
  refine ⟨h2, ?_, hf1.trans (hf2.mono (List.take_subset 1 fp)), ha2⟩
  rw [freeArray, hfree1]
  exact hfree2

/-- An array with a constant among its items cannot be emptied. -/
theorem freeSlots_not_owned {h : Heap α} {p : Ptr α} {n : Nat} {fp : List Nat} {items : List (Item α)}
    (ha : ArrayAt h p n fp (.live items)) (hnd : fp.Nodup) (hc : ∃ item ∈ items, item.owned = false) :
    freeSlots p 0 n h = .error .badFree := by
  cases ha with
  | live hb hps => exact freeSlots_const hc [] hb hps hnd

theorem freeArray_not_freeable {h : Heap α} {p : Ptr α} {n : Nat} {fp : List Nat} {st : State α} (ha : ArrayAt h p n fp st)
    (hnd : fp.Nodup) (hst : st.freeable = false) : freeArray p n h = .error .badFree := by
  cases st with
  | null => cases hst
  | dead =>
    rw [freeArray, ha.free_dead.1]
    exact ha.free_dead.2
  | live items =>
    rw [freeArray, freeSlots_not_owned ha hnd (by simpa [State.freeable] using hst)]
    rfl

/-! ## Filling an array -/

/-- Empty slots are filled with copies of data. -/
theorem fillSlots_spec (as : List α) {h : Heap α} {b : Nat} (pre : List (Ptr α)) {old : List (Ptr α)}
    (hb : h[b]? = some (some (.slots (pre ++ old)))) (hlen : as.length ≤ old.length) :
    ∃ h' ps bs, fillSlots (.block b) pre.length as h = .ok h' ∧ h'[b]? = some (some (.slots (pre ++ (ps ++ old.drop as.length)))) ∧
      SlotsAt h' ps bs (as.map .own) ∧ bs.Nodup ∧ (∀ x ∈ bs, h.length ≤ x) ∧ Frame [b] h h' := by
  induction as generalizing h pre old with
  | nil => exact ⟨h, [], [], rfl, by simpa using hb, .nil, List.nodup_nil, by simp, Frame.refl [b] h⟩
  | cons a as ih =>
    obtain ⟨q, old, rfl⟩ : ∃ q old', old = q :: old' := List.exists_cons_of_length_pos (by simp at hlen; omega)
    have hbl := lt_of_get hb
    have hf1 : Frame [b] h (h ++ [some (Cell.data a)]) := Frame.alloc [b] _ h
    have hb1 : (h ++ [some (Cell.data a)])[b]? = some (some (.slots (pre ++ q :: old))) := by
      rw [List.getElem?_append_left hbl, hb]
    have hf2 := Frame.set (List.mem_singleton_self b) (some (Cell.slots (pre ++ Ptr.block h.length :: old))) (h ++ [some (Cell.data a)])
    generalize hh2 : (h ++ [some (Cell.data a)]).set b (some (Cell.slots (pre ++ Ptr.block h.length :: old))) = h2 at hf2
    have hlen2 : h2.length = h.length + 1 := by
      rw [← hh2]
      simp
    have hb2 : h2[b]? = some (some (.slots (pre ++ [.block h.length] ++ old))) := by
      rw [← hh2, List.getElem?_set_self (by simp; omega)]
      simp
    have ha2 : h2[h.length]? = some (some (.data a)) :=
      hf2.get (get_alloc _ h) fun hm => by
        have := List.mem_singleton.mp hm
        omega
    obtain ⟨h', ps, bs, hfill, hb', hs', hnd, hnew, hf'⟩ := ih _ hb2 (by simpa using hlen)
    refine ⟨h', .block h.length :: ps, h.length :: bs, ?_, ?_, ?_, ?_, ?_, (hf1.trans hf2).trans hf'⟩
    · rw [fillSlots]
      simp only [alloc]
      rw [writeSlot_array hb1, hh2]
      rw [List.length_append] at hfill
      exact hfill
    · rw [hb']
      simp
    · refine .own (hf'.get ha2 fun hm => ?_) hs'
      have := List.mem_singleton.mp hm
      omega
    · refine List.nodup_cons.mpr ⟨fun hm => ?_, hnd⟩
      have := hnew _ hm
      omega
    · refine List.forall_mem_cons.mpr ⟨Nat.le_refl _, fun x hx => ?_⟩
      have := hnew x hx
      omega

/-- A new array filled with copies of data: the slots behind them are NULL. -/
theorem newArray_spec (as : List α) {n : Nat} (hlen : as.length ≤ n) (h : Heap α) :
    ∃ h' ps bs, fillSlots (.block h.length) 0 as (h ++ [some (.slots (List.replicate n .null))]) = .ok h' ∧
      h'[h.length]? = some (some (.slots (ps ++ List.replicate (n - as.length) .null))) ∧ SlotsAt h' ps bs (as.map .own) ∧
      (h.length :: bs).Nodup ∧ (∀ x ∈ h.length :: bs, h.length ≤ x) ∧ Frame [] h h' := by
  obtain ⟨h', ps, bs, hfill, hb, hs, hnd, hnew, hf⟩ :=
    fillSlots_spec as [] (get_alloc (.slots (List.replicate n .null)) h) (by simpa using hlen)
  rw [List.length_append, List.length_singleton] at hnew
  refine ⟨h', ps, bs, hfill, by simpa using hb, hs, List.nodup_cons.mpr ⟨fun hm => ?_, hnd⟩,
    List.forall_mem_cons.mpr ⟨Nat.le_refl _, fun x hx => ?_⟩, ?_⟩
  · have := hnew _ hm
    omega
  · have := hnew x hx
    omega
  · exact (Frame.alloc [] _ h).trans_new hf fun x hx => Nat.le_of_eq (List.mem_singleton.mp hx).symm

/-- Blocks handed out later are none of those before. -/
theorem nodup_new {fp new : List Nat} {n : Nat} (hfp : fp.Nodup) (hlt : ∀ b ∈ fp, b < n) (hnew : new.Nodup)
    (hge : ∀ b ∈ new, n ≤ b) : (new ++ fp).Nodup :=
  List.nodup_append.mpr ⟨hnew, hfp, fun a ha b hb he => absurd (hge a ha) (by have := hlt b hb; omega)⟩

end Blocks
