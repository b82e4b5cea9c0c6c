import Gnhast.Decoder

/-!
# Argument decoding fills its array, copies its strings and frees its words

Every word that is read yields at most one entry, and the first word yields none; so the entry that ends the array has room. The words
are changed in place, but stay blocks of their own, which are freed one after the other at the end. The binary search finds what the
table has under a name, as the table is sorted and has no name twice.
-/

namespace Gnhast.Decoder

open CStr Blocks

variable (F : Doubles)

/-! ## The argument table -/

theorem nodup_nameKey : (argtable.map nameKey).Nodup := by decide

theorem type_of_mem : ∀ e ∈ argtable, e.type = e.num.type := by decide

theorem mem_initArgcomm {e : Argtable} : e ∈ initArgcomm ↔ e ∈ argtable := (List.mergeSort_perm _ _).mem_iff

theorem pairwise_initArgcomm : initArgcomm.Pairwise fun a b => nameKey a ≤ nameKey b := by
  have h : initArgcomm.Pairwise fun a b => decide (nameKey a ≤ nameKey b) = true := List.pairwise_mergeSort
    (fun a b c hab hbc => decide_eq_true ((of_decide_eq_true hab).trans (of_decide_eq_true hbc)))
    (fun a b => by simpa using le_total (nameKey a) (nameKey b)) argtable
  exact h.imp of_decide_eq_true

theorem nodup_initArgcomm : (initArgcomm.map nameKey).Nodup :=
  ((List.mergeSort_perm argtable _).map nameKey).nodup_iff.mpr nodup_nameKey

theorem toNat_injective : Function.Injective (List.map UInt8.toNat) :=
  List.map_injective_iff.mpr fun _ _ h => UInt8.toNat_inj.mp h

/-- The binary search finds the entry with a name, as a search from front to back does. -/
theorem findArg_eq (name : Str) : findArg name = findArgByName name := by
  have hiff : ∀ e, findArg name = some e ↔ e ∈ argtable ∧ e.name = name := by
    intro e
    rw [findArg, Search.bsearch_eq_some_iff pairwise_initArgcomm nodup_initArgcomm, mem_initArgcomm]
    exact and_congr_right fun _ => toNat_injective.eq_iff
  unfold findArgByName
  cases hf : argtable.find? (fun e => decide (e.name = name)) with
  | none =>
    rw [List.find?_eq_none] at hf
    rw [Option.eq_none_iff_forall_ne_some]
    intro e he
    obtain ⟨hm, hn⟩ := (hiff e).mp he
    exact hf e hm (decide_eq_true hn)
  | some e =>
    have hn := List.find?_some hf
    exact (hiff e).mpr ⟨List.mem_of_find?_eq_some hf, of_decide_eq_true hn⟩

/-! ## What the array holds -/

/-- The copy a value points to. -/
def Value.copy : Value → Option (Ptr Str)
  | .c p => some p
  | _ => none

/-- A value in memory is that of an argument; its copy is one of the blocks from a block on. -/
def Holds (base : Nat) (h : Heap Str) : (t : PtType) → Value → t.Carrier → Prop
  | .ptdouble, .d x, y => x = y
  | .ptchar, .c p, s => ∃ b, base ≤ b ∧ p = .block b ∧ h[b]? = some (some (.data s))
  | .ptint, .i n, m => n = m
  | .ptuint, .u n, m => n = m
  | .ptll, .ll n, m => n = m
  | _, _, _ => False

/-- An entry is an argument: its number, the type of that number in the table, and the value. -/
structure Stands (base : Nat) (h : Heap Str) (e : Entry) (a : PArg) : Prop where
  cword : e.cword = a.cword
  type : e.type = a.cword.type
  arg : Holds base h a.cword.type e.arg a.arg

/-- The blocks of the copies that entries point to. -/
def copies (es : List Entry) : List (Ptr Str) := es.filterMap fun e => e.arg.copy

/-- The entries written so far: they are arguments, the others are as they were allocated, and there is one new block for each copy. -/
structure Filled (base cap : Nat) (st : Work) (es : List Entry) (args : List PArg) : Prop where
  slots : st.args = es.map .arg ++ List.replicate (cap - es.length) .unset
  cur : st.cur = es.length
  stands : List.Forall₂ (Stands base st.heap) es args
  copies : copies es = (List.range' base (copies es).length).map .block
  heap : st.heap.length = base + (Decoder.copies es).length

theorem Holds.frame {base : Nat} {fp : List Nat} {h h' : Heap Str} (hf : Frame fp h h') (hfp : ∀ b ∈ fp, b < base) {t : PtType}
    {v : Value} {x : t.Carrier} (hv : Holds base h t v x) : Holds base h' t v x := by
  cases t with
  | ptchar =>
    cases v with
    | c p =>
      obtain ⟨b, hle, hp, hb⟩ := hv
      refine ⟨b, hle, hp, hf.get hb fun hm => ?_⟩
      have := hfp b hm
      omega
    | _ => exact hv
  | _ => cases v <;> exact hv

theorem Stands.frame {base : Nat} {fp : List Nat} {h h' : Heap Str} (hf : Frame fp h h') (hfp : ∀ b ∈ fp, b < base) {e : Entry}
    {a : PArg} (hs : Stands base h e a) : Stands base h' e a := ⟨hs.cword, hs.type, hs.arg.frame hf hfp⟩

/-- A value is read, and a string copied to a new block. -/
theorem readInto_spec {base : Nat} (type : PtType) (tmp : Str) {h : Heap Str} (hb : base ≤ h.length) :
    ∃ v h', readInto F type tmp h = (v, h') ∧ Frame [] h h' ∧ Holds base h' type v (readValue F type tmp) ∧
      v.copy.toList = (List.range' h.length v.copy.toList.length).map .block ∧ h'.length = h.length + v.copy.toList.length := by
  cases type with
  | ptchar =>
    exact ⟨_, _, rfl, Frame.alloc [] _ h, ⟨h.length, hb, rfl, get_alloc _ h⟩, rfl, List.length_append⟩
  | _ => exact ⟨_, _, rfl, Frame.refl [] h, rfl, rfl, rfl⟩

/-- A new entry behind those that were written. -/
theorem Filled.put {base cap : Nat} {st : Work} {es : List Entry} {args : List PArg} (hf : Filled base cap st es args)
    (hcap : es.length < cap) {h' : Heap Str} {fp : List Nat} (hframe : Frame fp st.heap h') (hfp : ∀ b ∈ fp, b < base) {e : Entry}
    {a : PArg} (hs : Stands base h' e a)
    (hc : e.arg.copy.toList = (List.range' st.heap.length e.arg.copy.toList.length).map .block)
    (hlen : h'.length = st.heap.length + e.arg.copy.toList.length) :
    ∃ st', (Work.put { st with heap := h' } (.arg e)).map (fun st => { st with cur := st.cur + 1 }) = .ok st' ∧ st'.heap = h' ∧
      Filled base cap st' (es ++ [e]) (args ++ [a]) := by
  have hlt : st.cur < st.args.length := by
    rw [hf.slots, hf.cur]
    simp
    omega
  have hcopies : Decoder.copies (es ++ [e]) = Decoder.copies es ++ e.arg.copy.toList := by
    unfold Decoder.copies
    rw [List.filterMap_append]
    cases h : e.arg.copy <;> simp [h]
  have hset : st.args.set st.cur (.arg e) = (es ++ [e]).map .arg ++ List.replicate (cap - (es ++ [e]).length) .unset := by
    obtain ⟨n, hn⟩ : ∃ n, cap - es.length = n + 1 := ⟨cap - es.length - 1, by omega⟩
    have hn' : cap - (es ++ [e]).length = n := by
      rw [List.length_append, List.length_singleton]
      omega
    rw [hf.slots, hf.cur, hn, hn', List.replicate_succ, List.set_append_right _ _ (by simp)]
    simp
  refine ⟨{ args := st.args.set st.cur (.arg e), cur := st.cur + 1, heap := h' }, ?_, rfl, hset, ?_, ?_, ?_, ?_⟩
  · rw [Work.put, if_pos hlt]
    rfl
  · rw [hf.cur, List.length_append, List.length_singleton]
  · exact List.rel_append (hf.stands.imp fun _ _ hs => hs.frame hframe hfp) (.cons hs .nil)
  · rw [hcopies, List.length_append, hf.copies, hc, hf.heap]
    rw [← List.map_append, List.range'_append_1]
    simp
  · rw [hcopies, List.length_append, hlen, hf.heap, Nat.add_assoc]

/-! ## Words -/

/-- A word becomes the entry that its argument is, or none; its block stays one with data. -/
theorem decodeWord_spec {base cap : Nat} {st : Work} {es : List Entry} {args : List PArg} (hf : Filled base cap st es args)
    (hcap : es.length < cap) {b : Nat} {word : Str} (hb : st.heap[b]? = some (some (.data word))) (hlt : b < base) :
    ∃ st' es', decodeWord F (.block b) word st = .ok st' ∧ Filled base cap st' es' (args ++ (parseWord F word).toList) ∧
      es'.length ≤ es.length + 1 ∧ Frame [b] st.heap st'.heap ∧ ∃ w, st'.heap[b]? = some (some (.data w)) := by
  unfold decodeWord parseWord
  cases hsplit : splitAt chColon word with
  | none => exact ⟨st, es, rfl, by simpa using hf, by omega, Frame.refl [b] _, word, hb⟩
  | some p =>
    obtain ⟨cp, tmp⟩ := p
    have hwrite : writeData (.block b) (cp.map tolower) st.heap = .ok (st.heap.set b (some (.data (cp.map tolower)))) := by
      rw [writeData, hb]
    have hframe := Frame.set (List.mem_singleton_self b) (some (Cell.data (cp.map tolower))) st.heap
    have hset : (st.heap.set b (some (Cell.data (cp.map tolower))))[b]? = some (some (.data (cp.map tolower))) :=
      List.getElem?_set_self (lt_of_get hb)
    have hbase : ∀ x ∈ [b], x < base := fun x hx => (List.mem_singleton.mp hx) ▸ hlt
    simp only [hwrite, Except.bind, findArg_eq]
    cases hfind : findArgByName (cp.map tolower) with
    | none =>
      refine ⟨_, es, rfl, ⟨hf.slots, hf.cur, ?_, hf.copies, ?_⟩, by omega, hframe, _, hset⟩
      · simpa using hf.stands.imp fun _ _ hs => hs.frame hframe hbase
      · rw [← hf.heap]
        exact List.length_set
    | some asp =>
      obtain ⟨name, num, type⟩ := asp
      have htype : type = num.type := type_of_mem _ (List.mem_of_find?_eq_some hfind)
      subst htype
      have hle : base ≤ (st.heap.set b (some (Cell.data (cp.map tolower)))).length := by
        rw [List.length_set, hf.heap]
        omega
      obtain ⟨v, h', hread, hframe', hv, hcopy, hlen⟩ := readInto_spec F num.type tmp hle
      rw [List.length_set] at hcopy hlen
      have hframe2 : Frame [b] st.heap h' := hframe.trans (hframe'.mono (List.nil_subset _))
      obtain ⟨st', hput, hheap, hf'⟩ := hf.put hcap hframe2 hbase (e := ⟨num, num.type, v⟩) (a := ⟨num, readValue F num.type tmp⟩)
        ⟨rfl, rfl, hv⟩ hcopy hlen
      refine ⟨st', _, ?_, hf', by simp, ?_, cp.map tolower, ?_⟩
      · simp only [hread]
        exact hput
      · rw [hheap]
        exact hframe2
      · rw [hheap]
        exact hframe'.get hset (List.not_mem_nil)

/-- The words are decoded up to the first that is empty, and stay blocks of their own. -/
theorem decodeWords_spec {base cap b k : Nat} {ws : List Str} (pre : List (Ptr Str)) {ps : List (Ptr Str)} {bs : List Nat} {st : Work}
    {es : List Entry} {args : List PArg} (hb : st.heap[b]? = some (some (.slots (pre ++ (ps ++ List.replicate k .null)))))
    (hs : SlotsAt st.heap ps bs (ws.map .own)) (hnd : (b :: bs).Nodup) (hlt : ∀ x ∈ b :: bs, x < base)
    (hf : Filled base cap st es args) (hcap : es.length + ws.length < cap) :
    ∃ st' es' ws', decodeWords F (.block b) pre.length (ws.length + k) st = .ok st' ∧
      Filled base cap st' es' (args ++ (ws.takeWhile fun w => !w.isEmpty).filterMap (parseWord F)) ∧ es'.length < cap ∧
      Frame bs st.heap st'.heap ∧ SlotsAt st'.heap ps bs (List.map .own ws') ∧ ws'.length = ws.length := by
  induction ws generalizing pre ps bs st es args with
  | nil =>
    cases hs
    refine ⟨st, es, [], ?_, by simpa using hf, by simpa using hcap, Frame.refl [] _, .nil, rfl⟩
    cases k with
    | zero => rfl
    | succ k =>
      have hread : readSlot (.block b) pre.length st.heap = .ok .null := readSlot_array hb
      rw [List.length_nil, Nat.zero_add, decodeWords, hread]
      rfl
  | cons word ws ih =>
    cases hs with
    | own hb' hs =>
      rename_i b' ps bs
      obtain ⟨hnb, hnd'⟩ := List.nodup_cons.mp hnd
      obtain ⟨hnb', -⟩ := List.nodup_cons.mp hnd'
      have hread : readSlot (.block b) pre.length st.heap = .ok (.block b') := readSlot_array hb
      have hdata : readData (.block b') st.heap = .ok word := by rw [readData, hb']
      have hstep : decodeWords F (.block b) pre.length ((word :: ws).length + k) st =
          if word = [] then .ok st
          else (decodeWord F (.block b') word st).bind (decodeWords F (.block b) (pre.length + 1) (ws.length + k)) := by
        rw [List.length_cons, Nat.add_right_comm, decodeWords, hread]
        simp only [Except.bind, if_neg (show (Ptr.block b' : Ptr Str) ≠ .null by simp), hdata]
      by_cases hw : word = []
      · rw [hstep, if_pos hw]
        refine ⟨st, es, word :: ws, rfl, ?_, by omega, Frame.refl _ _, .own hb' hs, rfl⟩
        simpa [hw] using hf
      · simp only [List.length_cons] at hcap
        obtain ⟨st1, es1, hword, hf1, hlen1, hframe1, w, hw1⟩ :=
          decodeWord_spec F hf (by omega) hb' (hlt b' (List.mem_cons_of_mem _ List.mem_cons_self))
        have hb1 : st1.heap[b]? = some (some (.slots (pre ++ [.block b'] ++ (ps ++ List.replicate k .null)))) := by
          rw [hframe1.get hb fun hm => hnb ((List.mem_singleton.mp hm) ▸ List.mem_cons_self)]
          simp
        have hs1 : SlotsAt st1.heap ps bs (ws.map .own) :=
          hs.frame hframe1 fun x hx hm => hnb' ((List.mem_singleton.mp hm) ▸ hx)
        obtain ⟨st', es', ws', hrest, hf', hcap', hframe', hs', hlen'⟩ :=
          ih _ hb1 hs1 (hnd.sublist (List.Sublist.cons_cons b (List.sublist_cons_self _ _)))
            (fun x hx => hlt x (by
              rcases List.mem_cons.mp hx with rfl | hx
              · exact List.mem_cons_self
              · exact List.mem_cons_of_mem _ (List.mem_cons_of_mem _ hx))) hf1 (by omega)
        rw [List.length_append] at hrest
        refine ⟨st', es', w :: ws', ?_, ?_, hcap', ?_, .own (hframe'.get hw1 hnb') hs', by simp [hlen']⟩
        · rw [hstep, if_neg hw, hword]
          exact hrest
        · have htake : (word :: ws).takeWhile (fun w => !w.isEmpty) = word :: ws.takeWhile fun w => !w.isEmpty := by
            rw [List.takeWhile_cons_of_pos]
            simpa using hw
          rw [htake, List.filterMap_cons]
          cases hp : parseWord F word with
          | none => simpa [hp] using hf'
          | some a => simpa [hp] using hf'
        · exact (hframe1.mono fun x hx => (List.mem_singleton.mp hx) ▸ List.mem_cons_self).trans
            (hframe'.mono (List.subset_cons_self _ _))

/-! ## Freeing -/

/-- Every word is freed, and nothing else. -/
theorem freeWords_spec {b k : Nat} {ws : List Str} (pre : List (Ptr Str)) {ps : List (Ptr Str)} {bs : List Nat} {h : Heap Str}
    (hb : h[b]? = some (some (.slots (pre ++ (ps ++ List.replicate k .null))))) (hs : SlotsAt h ps bs (ws.map .own))
    (hnd : (b :: bs).Nodup) :
    ∃ h', freeWords (.block b) pre.length (ws.length + k) h = .ok h' ∧ Frame bs h h' ∧ h'.length = h.length ∧
      ∀ x ∈ bs, h'[x]? = some none := by
  induction ws generalizing pre ps bs h with
  | nil =>
    cases hs
    refine ⟨h, ?_, Frame.refl [] h, rfl, by simp⟩
    cases k with
    | zero => rfl
    | succ k =>
      have hread : readSlot (.block b) pre.length h = .ok .null := readSlot_array hb
      rw [List.length_nil, Nat.zero_add, freeWords, hread]
      rfl
  | cons word ws ih =>
    cases hs with
    | own hb' hs =>
      rename_i b' ps bs
      obtain ⟨-, hb1, hs1, hf1⟩ := freeSlots_own hb hb' hs hnd
      have hnd1 := hnd.sublist (List.Sublist.cons_cons b (List.sublist_cons_self _ _))
      have hnb' := (List.nodup_cons.mp (List.nodup_cons.mp hnd).2).1
      have hread : readSlot (.block b) pre.length h = .ok (.block b') := readSlot_array hb
      obtain ⟨h', hfree, hf, hlen, hdead⟩ := ih _ hb1 hs1 hnd1
      rw [List.length_append] at hfree
      refine ⟨h', ?_, hf1.trans (hf.mono (List.subset_cons_self _ _)), by rw [hlen, List.length_set], ?_⟩
      · rw [List.length_cons, Nat.add_right_comm, freeWords, hread]
        simp only [Except.bind, reduceCtorEq, if_false, free_live hb']
        exact hfree
      · intro x hx
        rcases List.mem_cons.mp hx with rfl | hx
        · exact hf.get (List.getElem?_set_self (lt_of_get hb')) hnb'
        · exact hdead x hx

/-! ## What `parse_command` does -/

/-- An array of words, with NULLs behind them, and the blocks that belong to it. -/
structure WordArray (h : Heap Str) (b : Nat) (bs : List Nat) (ws : List Str) (k : Nat) : Prop where
  slots : ∃ ps, h[b]? = some (some (.slots (ps ++ List.replicate k .null))) ∧ SlotsAt h ps bs (ws.map .own)
  nodup : (b :: bs).Nodup

/-- The arguments that are strings. -/
def strings (args : List PArg) : List PArg := args.filter fun a => a.cword.type = .ptchar

/-- What `parse_command` leaves of an array of words: an array of as many entries with an end, in front of which stand the arguments
in order; no words, and one block for each argument that is a string. -/
structure Decoded (h : Heap Str) (b : Nat) (bs : List Nat) (count : Nat) (args : List PArg) (out : List Slot) (h' : Heap Str) : Prop where
  length : out.length = count
  entries : ∃ es rest, out = es.map .arg ++ .stop :: rest ∧ List.Forall₂ (Stands h.length h') es args ∧
    copies es = (List.range' h.length (strings args).length).map .block
  heap : h'.length = h.length + (strings args).length
  freed : ∀ x ∈ b :: bs, h'[x]? = some none
  others : ∀ x < h.length, x ∉ b :: bs → h'[x]? = h[x]?

/-- There is a copy of a value exactly when it is a string. -/
theorem Holds.copy {base : Nat} {h : Heap Str} {t : PtType} {v : Value} {x : t.Carrier} (hv : Holds base h t v x) :
    v.copy.toList.length = if t = .ptchar then 1 else 0 := by
  cases t with
  | ptchar =>
    cases v with
    | c p => rfl
    | _ => exact hv.elim
  | _ =>
    cases v with
    | c p => exact hv.elim
    | _ => rfl

theorem length_copies {base : Nat} {h : Heap Str} {es : List Entry} {args : List PArg} (hs : List.Forall₂ (Stands base h) es args) :
    (copies es).length = (strings args).length := by
  induction hs with
  | nil => rfl
  | @cons e a es args hs _ ih =>
    have hc := hs.arg.copy
    unfold copies strings at ih ⊢
    rw [List.filterMap_cons, List.filter_cons]
    by_cases ht : a.cword.type = .ptchar
    · rw [if_pos ht] at hc
      obtain ⟨p, hp⟩ : ∃ p, e.arg.copy = some p := by
        cases h : e.arg.copy with
        | none =>
          rw [h] at hc
          cases hc
        | some p => exact ⟨p, rfl⟩
      simp only [hp, ht, decide_true, if_true, List.length_cons, ih]
    · rw [if_neg ht] at hc
      have hn : e.arg.copy = none := by
        cases h : e.arg.copy with
        | none => rfl
        | some p =>
          rw [h] at hc
          cases hc
      simp only [hn, ht, decide_false, Bool.false_eq_true, if_false, ih]

/-- The end of the array is written behind the entries. -/
theorem Filled.put_stop {base cap : Nat} {st : Work} {es : List Entry} {args : List PArg} (hf : Filled base cap st es args)
    (hcap : es.length < cap) : ∃ rest, (es.map Slot.arg ++ .stop :: rest).length = cap ∧
      st.put .stop = .ok { st with args := es.map .arg ++ .stop :: rest } := by
  obtain ⟨n, hn⟩ : ∃ n, cap - es.length = n + 1 := ⟨cap - es.length - 1, by omega⟩
  have hslots := hf.slots
  rw [hn, List.replicate_succ] at hslots
  refine ⟨List.replicate n .unset, by simp; omega, ?_⟩
  rw [Work.put, if_pos (by rw [hslots, hf.cur]; simp), hslots, hf.cur, List.set_append_right _ _ (by simp)]
  simp

/-- The words and their array are freed when the arguments are decoded. -/
theorem free_decoded {h : Heap Str} {b k : Nat} {bs : List Nat} {ws : List Str} {ps : List (Ptr Str)}
    (hb : h[b]? = some (some (.slots (ps ++ List.replicate k .null)))) (hs : SlotsAt h ps bs (ws.map .own)) (hnd : (b :: bs).Nodup) :
    ∃ h', ((freeWords (.block b) 0 (ws.length + k) h).bind fun h => free (.block b) h) = .ok h' ∧ Frame (b :: bs) h h' ∧
      h'.length = h.length ∧ ∀ x ∈ b :: bs, h'[x]? = some none := by
  obtain ⟨h1, hfree, hf, hlen, hdead⟩ := freeWords_spec [] hb hs hnd
  have hnb := (List.nodup_cons.mp hnd).1
  have hb1 := hf.get hb hnb
  have hf2 := Frame.set (List.mem_singleton_self b) none h1
  refine ⟨h1.set b none, ?_, ?_, by rw [List.length_set, hlen], ?_⟩
  · rw [List.length_nil] at hfree
    rw [hfree]
    exact free_live hb1
  · exact (hf.mono (List.subset_cons_self _ _)).trans (hf2.mono (by simp))
  · intro x hx
    rcases List.mem_cons.mp hx with rfl | hx
    · exact List.getElem?_set_self (lt_of_get hb1)
    · exact hf2.get (hdead x hx) fun hm => hnb ((List.mem_singleton.mp hm) ▸ hx)

/-- Of an array with a word, the arguments are returned, in an array of its own with as many entries as there are slots for words; the
array and the words are freed. Of an array without a word nothing is returned; it is freed. -/
theorem parse_command_decodes {h : Heap Str} {b : Nat} {bs : List Nat} {ws : List Str} {k : Nat} (ha : WordArray h b bs ws k)
    (hne : 0 < ws.length + k) :
    (ws ≠ [] → ∃ out h', parseCommand F (.block b) (ws.length + k) h = .ok (some out, h') ∧
      Decoded h b bs (ws.length + k) (Gnhast.parseCommand F ws) out h') ∧
    (ws = [] → parseCommand F (.block b) (ws.length + k) h = .ok (none, h.set b none)) := by
  obtain ⟨ps, hb, hs⟩ := ha.slots
  have hlt : ∀ x ∈ b :: bs, x < h.length := by
    intro x hx
    rcases List.mem_cons.mp hx with rfl | hx
    · exact lt_of_get hb
    · exact hs.lt x hx
  have hnull : (Ptr.block b : Ptr Str) ≠ .null := by simp
  constructor
  · intro hw
    obtain ⟨w, ws, rfl⟩ := List.exists_cons_of_ne_nil hw
    cases hs with
    | own hb0 hs =>
      rename_i b0 ps bs
      obtain ⟨hnb, hnd⟩ := List.nodup_cons.mp ha.nodup
      obtain ⟨hnb0, -⟩ := List.nodup_cons.mp hnd
      have hnb' : b ∉ bs := fun hm => hnb (List.mem_cons_of_mem _ hm)
      have hread : readSlot (.block b) 0 h = .ok (.block b0) := readSlot_first hb
      -- the arguments are decoded from the words behind the first
      have hfill : Filled h.length ((w :: ws).length + k) ⟨List.replicate ((w :: ws).length + k) .unset, 0, h⟩ [] [] :=
        ⟨rfl, rfl, .nil, rfl, rfl⟩
      obtain ⟨st, es, ws', hdec, hf, hcap, hframe, hs', hlen'⟩ := decodeWords_spec F [.block b0] hb hs
        (List.nodup_cons.mpr ⟨hnb', hnd.sublist (List.sublist_cons_self _ _)⟩)
        (fun x hx => hlt x (by
          rcases List.mem_cons.mp hx with rfl | hx
          · exact List.mem_cons_self
          · exact List.mem_cons_of_mem _ (List.mem_cons_of_mem _ hx))) hfill (by simp only [List.length_nil, List.length_cons]; omega)
      obtain ⟨rest, hlen, hput⟩ := hf.put_stop hcap
      -- the words stay, some of them changed, and are freed
      have hkept : SlotsAt st.heap (.block b0 :: ps) (b0 :: bs) ((w :: ws').map .own) := .own (hframe.get hb0 hnb0) hs'
      obtain ⟨h', hfree, hframe', hlenh, hdead⟩ := free_decoded (hframe.get hb hnb') hkept ha.nodup
      refine ⟨_, h', ?_, hlen, ⟨es, rest, rfl, ?_, ?_⟩, ?_, hdead, ?_⟩
      · have hcount : (w :: ws).length + k - 1 = ws.length + k := by
          rw [List.length_cons]
          omega
        have hcount' : (w :: ws').length + k = (w :: ws).length + k := by simp [hlen']
        rw [hcount'] at hfree
        simp only [parseCommand, if_neg hnull, hread, Except.bind, if_neg (show (Ptr.block b0 : Ptr Str) ≠ .null by simp), hcount,
          show decodeWords F (.block b) 1 (ws.length + k) _ = .ok st from hdec, hput]
        cases hw : freeWords (.block b) 0 ((w :: ws).length + k) st.heap with
        | error e =>
          rw [hw] at hfree
          cases hfree
        | ok h1 =>
          rw [hw] at hfree
          have hfree : free (.block b) h1 = .ok h' := hfree
          simp only [hfree, Except.map]
      · exact hf.stands.imp fun _ _ hst => hst.frame hframe' hlt
      · rw [hf.copies, length_copies hf.stands]
        rfl
      · rw [hlenh, hf.heap, length_copies hf.stands]
        rfl
      · intro x hx hn
        have hn' : x ∉ bs := fun hm => hn (List.mem_cons_of_mem _ (List.mem_cons_of_mem _ hm))
        rw [hframe'.keeps x (Nat.lt_of_lt_of_le hx hframe.grows) hn, hframe.keeps x hx hn']
  · rintro rfl
    cases hs
    obtain ⟨k, rfl⟩ : ∃ k', k = k' + 1 := ⟨k - 1, by simp at hne; omega⟩
    have hread : readSlot (.block b) 0 h = .ok .null := readSlot_first hb
    simp only [parseCommand, if_neg hnull, hread, Except.bind, if_true, List.length_nil, Nat.zero_add, freeWords, free_live hb,
      Except.map]

theorem parse_command_decodes_upd :
    (([str "upd", str "UID:s1", str "junk", str "switch:1"] : List Str) ≠ [] → ∃ out h',
      parseCommand Doubles.exact (.block 4) 5 [some (.data (str "upd")), some (.data (str "UID:s1")), some (.data (str "junk")),
        some (.data (str "switch:1")), some (.slots [.block 0, .block 1, .block 2, .block 3, .null])] = .ok (some out, h') ∧
      Decoded [some (.data (str "upd")), some (.data (str "UID:s1")), some (.data (str "junk")), some (.data (str "switch:1")),
        some (.slots [.block 0, .block 1, .block 2, .block 3, .null])] 4 [0, 1, 2, 3] 5
        (Gnhast.parseCommand Doubles.exact [str "upd", str "UID:s1", str "junk", str "switch:1"]) out h') ∧
    (([str "upd", str "UID:s1", str "junk", str "switch:1"] : List Str) = [] →
      parseCommand Doubles.exact (.block 4) 5 [some (.data (str "upd")), some (.data (str "UID:s1")), some (.data (str "junk")),
        some (.data (str "switch:1")), some (.slots [.block 0, .block 1, .block 2, .block 3, .null])] =
        .ok (none, [some (.data (str "upd")), some (.data (str "UID:s1")), some (.data (str "junk")), some (.data (str "switch:1")),
          none])) :=
  have ha : WordArray [some (.data (str "upd")), some (.data (str "UID:s1")), some (.data (str "junk")), some (.data (str "switch:1")),
      some (.slots [.block 0, .block 1, .block 2, .block 3, .null])] 4 [0, 1, 2, 3]
      [str "upd", str "UID:s1", str "junk", str "switch:1"] 1 :=
    ⟨⟨[.block 0, .block 1, .block 2, .block 3], rfl, .own rfl (.own rfl (.own rfl (.own rfl .nil)))⟩, by decide⟩
  parse_command_decodes Doubles.exact ha (by decide)

end Gnhast.Decoder
