import Gnhast.Lemmas.Accessors
import Gnhast.Lemmas.Faults
import Gnhast.Lib.Passes

/-!
# Crossing a watermark

`device_watermark` compares the data of a device with a mark, and the data before with the same mark, both strictly. A sequence
of updates that gets from one side of a mark to the other is noticed when one update jumps over the mark. When every passage
rests on the mark itself, the update that leaves the mark finds the data before not on the other side.
-/

namespace Gnhast

open CStr

variable (F : Doubles)

/-- The two marks of a device that can be crossed. -/
inductive Side
  | above | below
deriving Repr, DecidableEq

namespace Side

/-- What `device_watermark` returns for a crossing. -/
def code : Side → Int
  | above => 1
  | below => -1

/-- Where the mark is. -/
def loc : Side → DataLoc
  | above => .hiwat
  | below => .lowat

/-- Strictly within the mark. -/
def Within (mark v : ℚ) : Side → Prop
  | above => v < mark
  | below => mark < v

/-- Strictly beyond the mark. -/
def Beyond (mark v : ℚ) : Side → Prop
  | above => mark < v
  | below => v < mark

end Side

/-- The word that an argument brings to the device. -/
def PArg.word (a : PArg) : Word :=
  match a.dataArg with
  | some v => v.word
  | none => default

/-- What `device_watermark` returns for the lines `upd` of a sequence, each with a value for one keyword. -/
def watermarks (c : ClientId) (uid : Str) (d : DevId) (k : Sc) : Server → List (Env × k.type.Carrier) → Except Fault (List Int)
  | _, [] => .ok []
  | s, (env, v) :: es => do
    let r ← cmdUpdate F env [⟨.uid, uid⟩, ⟨k, v⟩] c s
    let codes ← watermarks c uid d k r.srv es
    return deviceWatermark F env.stack (r.srv.dev d) :: codes

/-- An integer device that has a mark and is told of crossings only. -/
structure Marked (dev : Device) (k : Sc) (m : Member) : Prop where
  keyword : findArgByDev dev = some k
  member : storeMember dev.devType dev.devSubtype = some m
  integer : datatypeDev dev ≠ .double
  spam : dev.spamhandler = false
  change : dev.changehandler = false
  mark : m.value F dev.lowat ≠ 0 ∨ m.value F dev.hiwat ≠ 0

/-- On every stack, one of the updates with the given values is reported as a crossing. -/
def Reported (s : Server) (c : ClientId) (uid : Str) (d : DevId) (k : Sc) (side : Side) (vs : List k.type.Carrier) : Prop :=
  ∀ es : List (Env × k.type.Carrier), es.map Prod.snd = vs →
    ∃ codes, watermarks F c uid d k s es = .ok codes ∧ side.code ∈ codes

/-- The number an argument brings to a member. -/
def sentValue (m : Member) (k : Sc) (u : k.type.Carrier) : ℚ := m.value F (PArg.mk k u).word

/-- Some value of a sequence is strictly within a mark, and the next one strictly beyond it. -/
def JumpsOver (m : Member) (k : Sc) (mark : ℚ) (side : Side) (vs : List k.type.Carrier) : Prop :=
  Passes (fun u => side.Within mark (sentValue F m k u)) (fun u => side.Beyond mark (sentValue F m k u)) vs

/-! ## One device -/

/-- What `device_watermark` returns for a sequence of words stored in a device. -/
def storeCodes : Device → List ((DataLoc → Word) × Word) → List Int
  | _, [] => []
  | dev, (stack, w) :: ws =>
    deviceWatermark F stack (storeDataDev F .data w dev) :: storeCodes (storeDataDev F .data w dev) ws

/-- The keyword of an integer device carries data. -/
theorem dataArg_keyword {dev : Device} {k : Sc} (hk : findArgByDev dev = some k) (hd : datatypeDev dev ≠ .double)
    (v : k.type.Carrier) : (PArg.mk k v).dataArg ≠ none := by
  unfold findArgByDev at hk
  unfold datatypeDev at hd
  split at hk
  · rename_i hdim
    rw [if_pos hdim] at hd
    exact absurd rfl hd
  · rename_i hdim
    rw [if_neg hdim] at hd
    generalize dev.devSubtype = st at hk hd
    cases st <;> cases hk <;> first
      | exact absurd rfl hd
      | exact Option.some_ne_none _

/-- The updates of a sequence, as what they do to the device. -/
theorem watermarks_eq {c : ClientId} {uid : Str} {d : DevId} {k : Sc} (hk : k ≠ .uid)
    (harg : ∀ v : k.type.Carrier, (PArg.mk k v).dataArg ≠ none) (es : List (Env × k.type.Carrier)) (s : Server)
    (hf : s.findDeviceByUid uid = some d) :
    watermarks F c uid d k s es = .ok (storeCodes F (s.dev d) (es.map fun e => (e.1.stack, (PArg.mk k e.2).word))) := by
  induction es generalizing s with
  | nil => rfl
  | cons e es ih =>
    obtain ⟨env, v⟩ := e
    have hu : lastArg .uid [⟨.uid, uid⟩, ⟨k, v⟩] = some uid := by
      simp [lastArg, PArg.as, hk]
    obtain ⟨r, hr, -, hdev, htree⟩ := cmdUpdate_known F env c hu hf
    have hstore : r.srv.dev d = storeDataDev F .data (PArg.mk k v).word (s.dev d) := by
      have huid : (PArg.mk .uid uid).dataArg = none := rfl
      obtain ⟨a, ha⟩ := Option.ne_none_iff_exists'.mp (harg v)
      rw [hdev, Server.modDev_dev, if_pos rfl]
      simp only [storeArgs, List.filterMap_cons, huid, ha, List.filterMap_nil, List.foldl_cons, List.foldl_nil, PArg.word]
    have hf' : r.srv.findDeviceByUid uid = some d := by
      rw [Server.findDeviceByUid, htree]
      exact hf
    rw [watermarks]
    refine Except.bind_eq_ok.mpr ⟨r, hr, Except.bind_eq_ok.mpr ⟨_, ih r.srv hf', ?_⟩⟩
    rw [List.map_cons, storeCodes, hstore]
    rfl

/-- A store keeps what a device is marked with. -/
theorem Marked.store {dev : Device} {k : Sc} {m : Member} (h : Marked F dev k m) (w : Word) :
    Marked F (storeDataDev F .data w dev) k m := by
  have ht := types_storeDataDev F .data w dev
  have hlo := store_storeDataDev F .data w dev (l := .lowat) (by decide)
  have hhi := store_storeDataDev F .data w dev (l := .hiwat) (by decide)
  simp only [reduceCtorEq, and_false, if_false] at hlo hhi
  have hlo' : (storeDataDev F .data w dev).lowat = dev.lowat := hlo
  have hhi' : (storeDataDev F .data w dev).hiwat = dev.hiwat := hhi
  have hflags : (storeDataDev F .data w dev).spamhandler = dev.spamhandler ∧
      (storeDataDev F .data w dev).changehandler = dev.changehandler := by
    simp only [storeDataDev, if_true]
    split <;> exact ⟨rfl, rfl⟩
  exact ⟨by rw [findArgByDev, ht.1, ht.2]; exact h.keyword, by rw [ht.1, ht.2]; exact h.member,
    by rw [datatype_storeDataDev]; exact h.integer, hflags.1.trans h.spam, hflags.2.trans h.change,
    by rw [hlo', hhi']; exact h.mark⟩

/-- The outcome of the comparisons, with marks and for crossings only. -/
theorem watermarkResult_iff {α : Type} [LinearOrder α] (lw hw d pd : α) :
    (watermarkResult false (d < lw) (d > hw) (pd > lw) (pd < hw) false = 1 ↔ pd < hw ∧ hw < d) ∧
      (watermarkResult false (d < lw) (d > hw) (pd > lw) (pd < hw) false = -1 ↔ lw < pd ∧ d < lw) := by
  unfold watermarkResult
  simp only [Bool.false_eq_true, if_false, Bool.and_eq_true, decide_eq_true_eq, gt_iff_lt]
  by_cases hb : d < lw ∧ lw < pd
  · rw [if_pos hb]
    refine ⟨iff_of_false (by decide) ?_, iff_of_true rfl ⟨hb.2, hb.1⟩⟩
    rintro ⟨h1, h2⟩
    exact lt_irrefl lw (hb.2.trans (h1.trans (h2.trans hb.1)))
  · rw [if_neg hb]
    have hb' : ¬ (lw < pd ∧ d < lw) := fun h => hb ⟨h.2, h.1⟩
    by_cases ha : hw < d ∧ pd < hw
    · rw [if_pos ha]
      exact ⟨iff_of_true rfl ⟨ha.2, ha.1⟩, iff_of_false (by decide) hb'⟩
    · rw [if_neg ha]
      exact ⟨iff_of_false (by decide) fun h => ha ⟨h.2, h.1⟩, iff_of_false (by decide) hb'⟩

/-- A device that is read in full and has a mark: what is returned are the crossings. -/
theorem deviceWatermark_iff {dev : Device} {k : Sc} {m : Member} (h : Marked F dev k m) (hr : FullRead dev)
    (stack : DataLoc → Word) (side : Side) :
    deviceWatermark F stack dev = side.code ↔ side.Within (m.value F (dev.store side.loc)) (m.value F dev.last) ∧
      side.Beyond (m.value F (dev.store side.loc)) (m.value F dev.data) := by
  have hm : m = (datatypeDev dev).member := Option.some.inj (h.member.symm.trans (storeMember_of_getMember hr))
  have hget := fun loc => get_fullRead F hr loc (stack loc)
  have hmark := h.mark
  subst hm
  cases hd : datatypeDev dev with
  | double => exact absurd hd h.integer
  | uint =>
    simp only [hd] at hget hmark
    have hno : ¬ ((dev.lowat.uint F).toNat = 0 ∧ (dev.hiwat.uint F).toNat = 0) := by
      rintro ⟨h1, h2⟩
      rcases hmark with hmark | hmark
      · exact hmark (congrArg (Nat.cast : Nat → ℚ) h1)
      · exact hmark (congrArg (Nat.cast : Nat → ℚ) h2)
    have hno' : (((dev.lowat.uint F).toNat == 0) && ((dev.hiwat.uint F).toNat == 0)) = false := by
      simpa using hno
    have hres := watermarkResult_iff (dev.lowat.uint F).toNat (dev.hiwat.uint F).toNat (dev.data.uint F).toNat
      (dev.last.uint F).toNat
    unfold deviceWatermark
    simp only [h.change, Bool.false_eq_true, if_false, hd, hget, Device.store, hno', h.spam]
    cases side with
    | above => exact hres.1.trans (and_congr Nat.cast_lt.symm Nat.cast_lt.symm)
    | below => exact hres.2.trans (and_congr Nat.cast_lt.symm Nat.cast_lt.symm)
  | ll =>
    simp only [hd] at hget hmark
    have hno : ¬ ((dev.lowat.int64 F).toInt = 0 ∧ (dev.hiwat.int64 F).toInt = 0) := by
      rintro ⟨h1, h2⟩
      rcases hmark with hmark | hmark
      · exact hmark (congrArg (Int.cast : Int → ℚ) h1)
      · exact hmark (congrArg (Int.cast : Int → ℚ) h2)
    have hno' : (((dev.lowat.int64 F).toInt == 0) && ((dev.hiwat.int64 F).toInt == 0)) = false := by
      simpa using hno
    have hres := watermarkResult_iff (dev.lowat.int64 F).toInt (dev.hiwat.int64 F).toInt (dev.data.int64 F).toInt
      (dev.last.int64 F).toInt
    unfold deviceWatermark
    simp only [h.change, Bool.false_eq_true, if_false, hd, hget, Device.store, hno', h.spam]
    cases side with
    | above => exact hres.1.trans (and_congr Int.cast_lt.symm Int.cast_lt.symm)
    | below => exact hres.2.trans (and_congr Int.cast_lt.symm Int.cast_lt.symm)

/-- The codes of a sequence, for a device that is read in full: the passages of its values from within the mark to beyond. -/
theorem mem_storeCodes_iff {dev : Device} {k : Sc} {m : Member} (h : Marked F dev k m) (hr : FullRead dev) (side : Side)
    (ws : List ((DataLoc → Word) × Word)) :
    side.code ∈ storeCodes F dev ws ↔
      Passes (fun v => side.Within (m.value F (dev.store side.loc)) v) (fun v => side.Beyond (m.value F (dev.store side.loc)) v)
        (m.value F dev.data :: ws.map fun w => m.value F w.2) := by
  induction ws generalizing dev with
  | nil => exact iff_of_false List.not_mem_nil id
  | cons w ws ih =>
    obtain ⟨stack, w⟩ := w
    have hr' : FullRead (storeDataDev F .data w dev) := by
      rw [FullRead, (types_storeDataDev F .data w dev).1, (types_storeDataDev F .data w dev).2, datatype_storeDataDev]
      exact hr
    have hmark : (storeDataDev F .data w dev).store side.loc = dev.store side.loc := by
      have hs := fun l hl => store_storeDataDev F .data w dev (l := l) hl
      cases side with
      | above => exact hs .hiwat (by decide)
      | below => exact hs .lowat (by decide)
    have hlast : (storeDataDev F .data w dev).last = dev.data := store_storeDataDev F .data w dev (l := .last) (by decide)
    have hdata : m.value F (storeDataDev F .data w dev).data = m.value F w := by
      rw [data_storeDataDev F h.member, value_assign]
    rw [storeCodes, List.mem_cons, ih (h.store F w) hr', eq_comm, deviceWatermark_iff F (h.store F w) hr', hmark, hlast, hdata]
    rfl

/-! ## Reads that are not full -/

/-- Where a read does not fill the local, the bytes behind the first are those of the stack. -/
theorem get_partial {dev : Device} (h : ¬ FullRead dev) (loc : DataLoc) (w : BitVec 64) :
    ∃ w' : BitVec 64, getDataDev F dev loc (.raw w) = .raw w' ∧ w'.toNat / 256 = w.toNat / 256 := by
  rcases read_cases dev with hr | hr | hr
  · exact absurd hr h
  · refine ⟨(w &&& ~~~0xff#64) ||| ((dev.store loc).bits F &&& 0xff#64), by rw [getDataDev, hr]; rfl, ?_⟩
    have hshift : ((w &&& ~~~0xff#64) ||| ((dev.store loc).bits F &&& 0xff#64)) >>> 8 = w >>> 8 := by
      rw [and_low_byte]
      apply BitVec.eq_of_getLsbD_eq
      intro i hi
      have hmask : (0xff#64).getLsbD (8 + i) = false := by
        rw [show (0xff#64) = (0xff#8).setWidth 64 from rfl, BitVec.getLsbD_setWidth, BitVec.getLsbD_of_ge _ _ (by omega),
          Bool.and_false]
      have hlow : (BitVec.setWidth 8 ((dev.store loc).bits F)).getLsbD (8 + i) = false := BitVec.getLsbD_of_ge _ _ (by omega)
      simp only [BitVec.getLsbD_ushiftRight, BitVec.getLsbD_or, BitVec.getLsbD_and, BitVec.getLsbD_not, BitVec.getLsbD_setWidth,
        hmask, hlow, Bool.and_false, Bool.or_false, Bool.not_false, Bool.and_true]
      by_cases h64 : 8 + i < 64
      · simp [h64]
      · rw [BitVec.getLsbD_of_ge w _ (by omega)]
        simp
    have ht := congrArg BitVec.toNat hshift
    rw [BitVec.toNat_ushiftRight, BitVec.toNat_ushiftRight, Nat.shiftRight_eq_div_pow, Nat.shiftRight_eq_div_pow] at ht
    exact ht
  · exact ⟨w, by rw [getDataDev, hr], rfl⟩

/-- A stack on which no crossing is seen: the mark, or the data, look large. -/
def silent (side : Side) (loc : DataLoc) : Word :=
  match side, loc with
  | .above, .hiwat | .below, .data => .raw 0x7fffffffffffff00
  | _, _ => .raw 0

/-- The result for a mark that is not passed. -/
theorem watermarkResult_ne {nomark below above wasAbove wasBelow spam : Bool} :
    (above = false → watermarkResult nomark below above wasAbove wasBelow spam ≠ 1) ∧
      (below = false → watermarkResult nomark below above wasAbove wasBelow spam ≠ -1) := by
  revert nomark below above wasAbove wasBelow spam
  decide

theorem deviceWatermark_silent {dev : Device} {k : Sc} {m : Member} (h : Marked F dev k m) (hr : ¬ FullRead dev) (side : Side) :
    deviceWatermark F (silent side) dev ≠ side.code := by
  have hlow : ∀ loc, ∃ w, getDataDev F dev loc (.raw 0) = .raw w ∧ w.toNat / 256 = 0 := fun loc => get_partial F hr loc 0
  have hlarge : ∀ loc, ∃ w, getDataDev F dev loc (.raw 0x7fffffffffffff00) = .raw w ∧ w.toNat / 256 = 0x7fffffffffffff :=
    fun loc => get_partial F hr loc 0x7fffffffffffff00
  -- the large local is not below the other, in the width of the datatype
  have huint : ∀ l l', ¬ ((getDataDev F dev l (.raw 0x7fffffffffffff00)).uint F).toNat <
      ((getDataDev F dev l' (.raw 0)).uint F).toNat := by
    intro l l'
    obtain ⟨a, ha, h1⟩ := hlarge l
    obtain ⟨b, hb, h2⟩ := hlow l'
    rw [ha, hb]
    change ¬ (a.setWidth 32).toNat < (b.setWidth 32).toNat
    rw [BitVec.toNat_setWidth, BitVec.toNat_setWidth]
    omega
  have hint : ∀ l l', ¬ ((getDataDev F dev l (.raw 0x7fffffffffffff00)).int64 F).toInt <
      ((getDataDev F dev l' (.raw 0)).int64 F).toInt := by
    intro l l'
    obtain ⟨a, ha, h1⟩ := hlarge l
    obtain ⟨b, hb, h2⟩ := hlow l'
    rw [ha, hb]
    change ¬ a.toInt < b.toInt
    rw [BitVec.toInt_eq_toNat_of_lt (by omega), BitVec.toInt_eq_toNat_of_lt (by omega)]
    omega
  unfold deviceWatermark
  simp only [h.change, Bool.false_eq_true, if_false]
  cases hd : datatypeDev dev with
  | double => exact absurd hd h.integer
  | uint =>
    cases side with
    | above => exact watermarkResult_ne.1 (decide_eq_false (huint .hiwat .data))
    | below => exact watermarkResult_ne.2 (decide_eq_false (huint .data .lowat))
  | ll =>
    cases side with
    | above => exact watermarkResult_ne.1 (decide_eq_false (hint .hiwat .data))
    | below => exact watermarkResult_ne.2 (decide_eq_false (hint .data .lowat))

/-- Then no sequence has a code. -/
theorem notMem_storeCodes {dev : Device} {k : Sc} {m : Member} (h : Marked F dev k m) (hr : ¬ FullRead dev) (side : Side)
    (ws : List Word) : side.code ∉ storeCodes F dev (ws.map fun w => (silent side, w)) := by
  induction ws generalizing dev with
  | nil => exact List.not_mem_nil
  | cons w ws ih =>
    have hr' : ¬ FullRead (storeDataDev F .data w dev) := by
      rw [FullRead, (types_storeDataDev F .data w dev).1, (types_storeDataDev F .data w dev).2, datatype_storeDataDev]
      exact hr
    intro hmem
    rcases List.mem_cons.mp hmem with he | hmem
    · exact deviceWatermark_silent F (h.store F w) hr' side he.symm
    · exact ih (h.store F w) hr' hmem

/-! ## Sequences of updates -/

/-- A sequence that starts strictly within a mark and ends strictly beyond it is reported on every stack exactly when the device is
read in full and one of its updates jumps over the mark. One does when no value is the mark itself. -/
theorem reported_iff {s : Server} {c : ClientId} {uid : Str} {d : DevId} {k : Sc} {m : Member}
    (hf : s.findDeviceByUid uid = some d) (h : Marked F (s.dev d) k m) (side : Side) {mark : ℚ}
    (hmark : m.value F ((s.dev d).store side.loc) = mark) {v : k.type.Carrier} {vs : List k.type.Carrier}
    (hstart : side.Within mark (sentValue F m k v))
    (hend : side.Beyond mark (sentValue F m k ((v :: vs).getLast (List.cons_ne_nil v vs)))) :
    (Reported F s c uid d k side (v :: vs) ↔ FullRead (s.dev d) ∧ JumpsOver F m k mark side (v :: vs)) ∧
      ((∀ u ∈ vs, sentValue F m k u ≠ mark) → JumpsOver F m k mark side (v :: vs)) := by
  have heq := fun es => watermarks_eq F (c := c) (findArgByDev_ne_uid h.keyword) (dataArg_keyword h.keyword h.integer) es s hf
  have hexcl : ∀ u, side.Within mark (sentValue F m k u) → ¬ side.Beyond mark (sentValue F m k u) := by
    intro u hw hb
    cases side with
    | above => exact lt_asymm hw hb
    | below => exact lt_asymm hw hb
  have hcodes : FullRead (s.dev d) → ∀ es : List (Env × k.type.Carrier), es.map Prod.snd = v :: vs →
      (side.code ∈ storeCodes F (s.dev d) (es.map fun e => (e.1.stack, (PArg.mk k e.2).word)) ↔
        JumpsOver F m k mark side (v :: vs)) := by
    intro hr es hes
    have hvals : (es.map fun e => (e.1.stack, (PArg.mk k e.2).word)).map (fun w => m.value F w.2) =
        (v :: vs).map (sentValue F m k) := by
      rw [← hes, List.map_map, List.map_map]
      rfl
    have hjump : Passes (fun x => side.Within mark x) (fun x => side.Beyond mark x) ((v :: vs).map (sentValue F m k)) ↔
        JumpsOver F m k mark side (v :: vs) := passes_map
    rw [mem_storeCodes_iff F h hr, hvals, hmark, ← hjump]
    exact passes_cons_of_not (hexcl v hstart)
  constructor
  · constructor
    · intro hrep
      have hes : ∀ stack, ((v :: vs).map fun u => (({ stack := stack } : Env), u)).map Prod.snd = v :: vs := by
        intro stack
        rw [List.map_map]
        exact List.map_id _
      by_cases hr : FullRead (s.dev d)
      · obtain ⟨codes, hok, hmem⟩ := hrep _ (hes fun _ => .raw 0)
        rw [heq] at hok
        cases hok
        exact ⟨hr, (hcodes hr _ (hes _)).mp hmem⟩
      · obtain ⟨codes, hok, hmem⟩ := hrep _ (hes (silent side))
        rw [heq] at hok
        cases hok
        have hno := notMem_storeCodes F h hr side ((v :: vs).map fun u => (PArg.mk k u).word)
        rw [List.map_map] at hmem hno
        exact absurd hmem hno
    · rintro ⟨hr, hj⟩ es hes
      exact ⟨_, heq es, (hcodes hr es hes).mpr hj⟩
  · intro hne
    refine passes_of_ends hstart hend (fun u hu => ?_) hexcl
    cases side with
    | above => exact lt_or_gt_of_ne (hne u hu)
    | below => exact (lt_or_gt_of_ne (hne u hu)).symm

/-- A counter that is told about above ten. -/
def tankDev : Device :=
  { uid := str "tank", name := some (str "Tank"), type := 3, proto := 1, subtype := 5, hiwat := .raw 10 }

/-- A server that knows the counter. -/
def tankServer : Server :=
  { dev := fun _ => tankDev, nextDev := 1, devices := Function.update (fun _ => none) (str "tank") (some 0) }

theorem marked_tankDev : Marked Doubles.exact tankDev .count .count :=
  ⟨rfl, rfl, by decide, rfl, rfl, Or.inr (by decide)⟩

theorem sentValue_count (n : BitVec 32) : sentValue Doubles.exact .count .count n = n.toNat := by
  change (((n.setWidth 64).setWidth 32).toNat : ℚ) = n.toNat
  rw [BitVec.setWidth_setWidth_of_le _ (by decide), BitVec.setWidth_eq]

/-- Five is within the mark and fifteen beyond it. -/
theorem tank_ends : Side.above.Within (Member.count.value Doubles.exact tankDev.hiwat) (sentValue Doubles.exact .count .count 5#32) ∧
    Side.above.Beyond (Member.count.value Doubles.exact tankDev.hiwat) (sentValue Doubles.exact .count .count 15#32) := by
  rw [sentValue_count, sentValue_count]
  exact ⟨Nat.cast_lt.mpr (by decide), Nat.cast_lt.mpr (by decide)⟩

theorem reported_iff_jump : Reported Doubles.exact tankServer 0 (str "tank") 0 .count .above [5#32, 15#32] :=
  (@reported_iff Doubles.exact tankServer 0 (str "tank") 0 .count .count rfl marked_tankDev .above _ rfl 5#32 [15#32]
    tank_ends.1 tank_ends.2).1.mpr ⟨by decide, Or.inl tank_ends⟩

/-- From five to fifteen by way of ten. -/
theorem not_reported_resting : Marked Doubles.exact tankDev .count .count ∧
    Side.above.Within (Member.count.value Doubles.exact tankDev.hiwat) (sentValue Doubles.exact .count .count 5#32) ∧
    Side.above.Beyond (Member.count.value Doubles.exact tankDev.hiwat) (sentValue Doubles.exact .count .count 15#32) ∧
    ¬ Reported Doubles.exact tankServer 0 (str "tank") 0 .count .above [5#32, 10#32, 15#32] := by
  refine ⟨marked_tankDev, tank_ends.1, tank_ends.2, fun h => ?_⟩
  obtain ⟨codes, hok, hmem⟩ := h [({}, 5#32), ({}, 10#32), ({}, 15#32)] rfl
  have hrun : watermarks Doubles.exact 0 (str "tank") 0 .count tankServer [({}, 5#32), ({}, 10#32), ({}, 15#32)] =
      .ok [0, 0, 0] := rfl
  rw [hrun] at hok
  cases hok
  revert hmem
  decide

end Gnhast
