import Gnhast.Lemmas.Values

/-!
# What a `mod` line does to a device

`Edited` lists it, setting by setting: the last argument of each keyword counts, and a setting without an argument stays.
The handler stops only on a tag slot that was never written, in the device or in any other one, since the configuration of all
devices is written out afterwards.
-/

namespace Gnhast

open CStr

variable (F : Doubles)

/-! ## Tag slots -/

/-- Every slot of the tags array was written. -/
def Device.Readable (dev : Device) : Prop := ∀ t ∈ dev.tags.items, t ≠ .unset

instance (dev : Device) : Decidable dev.Readable := inferInstanceAs (Decidable (∀ t ∈ dev.tags.items, t ≠ .unset))

theorem freeTags_ok {ts : List Tag} : (∃ out, freeTags ts = .ok out) ↔ ∀ t ∈ ts, t ≠ .unset := by
  induction ts with
  | nil => simp [freeTags]
  | cons t ts ih =>
    cases t with
    | text s => simp [freeTags, ih]
    | unset => simp [freeTags]
    | junk =>
      have hmap : (∃ out, freeTags (.junk :: ts) = .ok out) ↔ ∃ out, freeTags ts = .ok out := by
        constructor
        · rintro ⟨out, h⟩
          obtain ⟨out', h', -⟩ := Except.map_eq_ok.mp h
          exact ⟨out', h'⟩
        · rintro ⟨out, h⟩
          exact ⟨_, Except.map_eq_ok.mpr ⟨out, h, rfl⟩⟩
      rw [hmap, ih]
      simp

/-- The strings of an array that was written. -/
theorem readTags_ok {ts : List Tag} {ss : List Str} : readTags ts = .ok ss ↔ ts.map Tag.str? = ss.map some := by
  induction ts generalizing ss with
  | nil => cases ss <;> simp [readTags]
  | cons t ts ih =>
    unfold readTags
    cases ht : t.str? with
    | none => cases ss <;> simp [ht]
    | some s =>
      dsimp only
      rw [Except.map_eq_ok]
      constructor
      · rintro ⟨ss', h', rfl⟩
        simp [ht, ih.mp h']
      · intro h
        cases ss with
        | nil => simp at h
        | cons s' ss =>
          simp only [List.map_cons, ht, List.cons.injEq, Option.some.injEq] at h
          exact ⟨ss, ih.mpr h.2, by rw [h.1]⟩

/-- The strings of a device's tags. -/
def Device.tagTexts (dev : Device) : List Str := dev.tags.items.filterMap Tag.str?

theorem tagTexts_of_readTags {dev : Device} {tags : List Str} (h : readTags dev.tags.items = .ok tags) : dev.tagTexts = tags := by
  have hm := readTags_ok.mp h
  have hf := congrArg (List.filterMap id) hm
  rw [List.filterMap_map, List.filterMap_map] at hf
  simpa [Device.tagTexts] using hf

theorem exists_readTags {ts : List Tag} : (∃ ss, readTags ts = .ok ss) ↔ ∀ t ∈ ts, t ≠ .unset := by
  induction ts with
  | nil => simp [readTags]
  | cons t ts ih =>
    have hmap : ∀ s, t.str? = some s → ((∃ ss, readTags (t :: ts) = .ok ss) ↔ ∃ ss, readTags ts = .ok ss) := by
      intro s hs
      have hcons : readTags (t :: ts) = (readTags ts).map (fun ss => s :: ss) := by
        rw [readTags, hs]
      rw [hcons]
      constructor
      · rintro ⟨ss, h⟩
        obtain ⟨ss', h', -⟩ := Except.map_eq_ok.mp h
        exact ⟨ss', h'⟩
      · rintro ⟨ss, h⟩
        exact ⟨_, Except.map_eq_ok.mpr ⟨ss, h, rfl⟩⟩
    cases t with
    | text s =>
      rw [hmap s rfl, ih]
      simp
    | junk =>
      rw [hmap _ rfl, ih]
      simp
    | unset => simp [readTags, Tag.str?]

theorem readable_tagSlots (toks : List Str) : ∀ t ∈ tagSlots toks, t ≠ .unset := by
  intro t ht
  rcases List.mem_append.mp ht with ht | ht
  · obtain ⟨s, -, rfl⟩ := List.mem_map.mp ht
    simp
  · split at ht
    · rw [List.mem_singleton.mp ht]
      simp
    · cases ht

/-- `parse_tags` leaves the slots for the tokens, for an empty text none. -/
theorem items_parseTags {data : Str} {dev : Device} {r : Device × List Out} (h : parseTags data dev = .ok r) :
    r.1.tags.items = tagSlots (strtok chComma data) := by
  obtain ⟨out, -, rfl⟩ := Except.map_eq_ok.mp h
  split
  · rename_i hd
    subst hd
    split
    · cases hi : dev.tags <;> simp [Arr.items] <;> rfl
    · cases hi : dev.tags <;> simp [Arr.items, Arr.dangling] <;> rfl
  · rfl

theorem parseTags_ok (data : Str) (dev : Device) : (∃ r, parseTags data dev = .ok r) ↔ dev.Readable := by
  rw [Device.Readable, ← freeTags_ok]
  constructor
  · rintro ⟨r, h⟩
    obtain ⟨out, h', -⟩ := Except.map_eq_ok.mp h
    exact ⟨out, h'⟩
  · rintro ⟨out, h⟩
    exact ⟨_, Except.map_eq_ok.mpr ⟨out, h, rfl⟩⟩

/-! ## Settings -/

/-- The word that is stored for a watermark. -/
def waterWord (t : DataType) (q : ℚ) : Word :=
  match t with
  | .uint => .raw ((BitVec.ofInt 32 (lrint q)).setWidth 64)
  | .ll => .raw (BitVec.ofInt 64 (lrint q))
  | .double => .dbl q

theorem setWatermark_eq (loc : DataLoc) (q : ℚ) (dev : Device) :
    setWatermark F loc q dev = storeDataDev F loc (waterWord (datatypeDev dev) q) dev := by
  cases h : datatypeDev dev <;> simp only [setWatermark, waterWord, h]

/-- What a run of arguments does to a device. -/
structure Edited (args : List PArg) (dev dev' : Device) : Prop where
  links : dev'.links = dev.links
  name : dev'.name = (lastArg .name args : Option Str).or dev.name
  rrdname : dev'.rrdname = (lastArg .rrdname args : Option Str).or dev.rrdname
  handler : dev'.handler = (lastArg .handler args : Option Str).or dev.handler
  hargs : dev'.hargs.items = ((lastArg .hargs args : Option Str).map (strtok chComma)).getD dev.hargs.items
  tags : dev'.tags.items = ((lastArg .tags args : Option Str).map (fun v => tagSlots (strtok chComma v))).getD dev.tags.items
  flagsKept : lastArg .spam args = none → dev'.spamhandler = dev.spamhandler ∧ dev'.changehandler = dev.changehandler
  flags : ∀ i : BitVec 32, lastArg .spam args = some i → i.toNat ≤ 2 →
    dev'.spamhandler = decide (i = 1) ∧ dev'.changehandler = decide (i = 2)
  lowatKept : lastArg .lowat args = none → dev'.lowat = dev.lowat
  lowat : ∀ q : ℚ, lastArg .lowat args = some q → ∀ m, storeMember dev.devType dev.devSubtype = some m →
    m.value F dev'.lowat = m.value F (waterWord (datatypeDev dev) q)
  hiwatKept : lastArg .hiwat args = none → dev'.hiwat = dev.hiwat
  hiwat : ∀ q : ℚ, lastArg .hiwat args = some q → ∀ m, storeMember dev.devType dev.devSubtype = some m →
    m.value F dev'.hiwat = m.value F (waterWord (datatypeDev dev) q)

theorem Edited.nil (dev : Device) : Edited F [] dev dev := by
  constructor <;> simp

theorem Edited.same_types {args : List PArg} {dev dev' : Device} (h : Edited F args dev dev') :
    dev'.devType = dev.devType ∧ dev'.devSubtype = dev.devSubtype ∧ datatypeDev dev' = datatypeDev dev := by
  have ht : dev'.type = dev.type := by
    have := congrArg Device.type h.links
    exact this
  have hs : dev'.subtype = dev.subtype := by
    have := congrArg Device.subtype h.links
    exact this
  have ht' : dev'.devType = dev.devType := by rw [Device.devType, ht, Device.devType]
  have hs' : dev'.devSubtype = dev.devSubtype := by rw [Device.devSubtype, hs, Device.devSubtype]
  exact ⟨ht', hs', by rw [datatypeDev, ht', hs', datatypeDev]⟩

/-- Runs of arguments one after the other. -/
theorem Edited.append {xs ys : List PArg} {dev dev₁ dev' : Device} (h : Edited F xs dev dev₁) (h' : Edited F ys dev₁ dev') :
    Edited F (xs ++ ys) dev dev' := by
  obtain ⟨ht, hs, hd⟩ := h.same_types
  have hor : ∀ (x y z : Option Str), x.or (y.or z) = (x.or y).or z := fun x y z => (Option.or_assoc).symm
  have hget : ∀ {β : Type} (f : Str → β) (x y : Option Str) (z : β),
      (x.map f).getD ((y.map f).getD z) = ((x.or y).map f).getD z := by
    intro β f x y z
    cases x <;> rfl
  constructor
  · exact h'.links.trans h.links
  · rw [lastArg_append, h'.name, h.name, hor]
  · rw [lastArg_append, h'.rrdname, h.rrdname, hor]
  · rw [lastArg_append, h'.handler, h.handler, hor]
  · rw [lastArg_append, h'.hargs, h.hargs, hget]
  · rw [lastArg_append, h'.tags, h.tags, hget]
  · intro hn
    rw [lastArg_append, Option.or_eq_none_iff] at hn
    obtain ⟨h1, h2⟩ := h'.flagsKept hn.1
    obtain ⟨h3, h4⟩ := h.flagsKept hn.2
    exact ⟨h1.trans h3, h2.trans h4⟩
  · intro i hi hle
    rw [lastArg_append, Option.or_eq_some_iff] at hi
    rcases hi with hi | ⟨hn, hi⟩
    · exact h'.flags i hi hle
    · obtain ⟨h1, h2⟩ := h'.flagsKept hn
      obtain ⟨h3, h4⟩ := h.flags i hi hle
      exact ⟨h1.trans h3, h2.trans h4⟩
  · intro hn
    rw [lastArg_append, Option.or_eq_none_iff] at hn
    rw [h'.lowatKept hn.1, h.lowatKept hn.2]
  · intro q hq m hm
    rw [lastArg_append, Option.or_eq_some_iff] at hq
    rcases hq with hq | ⟨hn, hq⟩
    · rw [h'.lowat q hq m (by rw [ht, hs]; exact hm), hd]
    · rw [h'.lowatKept hn, h.lowat q hq m hm]
  · intro hn
    rw [lastArg_append, Option.or_eq_none_iff] at hn
    rw [h'.hiwatKept hn.1, h.hiwatKept hn.2]
  · intro q hq m hm
    rw [lastArg_append, Option.or_eq_some_iff] at hq
    rcases hq with hq | ⟨hn, hq⟩
    · rw [h'.hiwat q hq m (by rw [ht, hs]; exact hm), hd]
    · rw [h'.hiwatKept hn, h.hiwat q hq m hm]

/-- Storing a watermark writes that watermark only. -/
theorem storeDataDev_lowat (w : Word) (dev : Device) :
    ∃ v, storeDataDev F .lowat w dev = { dev with lowat := v } ∧
      ∀ m, storeMember dev.devType dev.devSubtype = some m → m.value F v = m.value F w := by
  cases hm : storeMember dev.devType dev.devSubtype with
  | none => exact ⟨dev.lowat, by simp [storeDataDev, hm], by simp⟩
  | some m =>
    refine ⟨dev.lowat.assign F m w, by simp [storeDataDev, hm, Device.setStore, Device.store], ?_⟩
    rintro m' he
    cases he
    exact value_assign F m _ w

theorem storeDataDev_hiwat (w : Word) (dev : Device) :
    ∃ v, storeDataDev F .hiwat w dev = { dev with hiwat := v } ∧
      ∀ m, storeMember dev.devType dev.devSubtype = some m → m.value F v = m.value F w := by
  cases hm : storeMember dev.devType dev.devSubtype with
  | none => exact ⟨dev.hiwat, by simp [storeDataDev, hm], by simp⟩
  | some m =>
    refine ⟨dev.hiwat.assign F m w, by simp [storeDataDev, hm, Device.setStore, Device.store], ?_⟩
    rintro m' he
    cases he
    exact value_assign F m _ w

/-- Handler arguments, tags and flags are written alone. -/
theorem parseHargs_only (data : Str) (dev : Device) :
    ∃ x, (parseHargs data dev).1 = { dev with hargs := x } ∧ x.items = strtok chComma data := by
  unfold parseHargs
  split
  · rename_i h
    subst h
    exact ⟨dev.hargs.dangling, rfl, by cases dev.hargs <;> rfl⟩
  · exact ⟨_, rfl, rfl⟩

theorem parseTags_only {data : Str} {dev : Device} {r : Device × List Out} (h : parseTags data dev = .ok r) :
    ∃ x, r.1 = { dev with tags := x } ∧ x.items = tagSlots (strtok chComma data) := by
  have hitems := items_parseTags h
  obtain ⟨out, -, rfl⟩ := Except.map_eq_ok.mp h
  refine ⟨_, ?_, hitems⟩
  split
  · split <;> rfl
  · rfl

theorem setSpam_only (i : BitVec 32) (dev : Device) :
    ∃ b1 b2, setSpam i dev = { dev with spamhandler := b1, changehandler := b2 } ∧
      (i.toNat ≤ 2 → b1 = decide (i = 1) ∧ b2 = decide (i = 2)) := by
  unfold setSpam
  split
  · rename_i h
    exact ⟨_, _, rfl, fun _ => by simp [h]⟩
  · split
    · rename_i h
      exact ⟨_, _, rfl, fun _ => by simp [h]⟩
    · split
      · rename_i h
        exact ⟨_, _, rfl, fun _ => by simp [h]⟩
      · rename_i h0 h1 h2
        refine ⟨dev.spamhandler, dev.changehandler, rfl, fun hle => ?_⟩
        have hn : i.toNat = 0 ∨ i.toNat = 1 ∨ i.toNat = 2 := by omega
        rcases hn with hn | hn | hn
        · exact absurd (BitVec.eq_of_toNat_eq hn) h0
        · exact absurd (BitVec.eq_of_toNat_eq hn) h1
        · exact absurd (BitVec.eq_of_toNat_eq hn) h2

/-- One argument. -/
theorem edited_modifyArg {dev : Device} {a : PArg} {r : Device × List Out × Str} (h : modifyArg F dev a = .ok r) :
    Edited F [a] dev r.1 := by
  obtain ⟨k, v⟩ := a
  cases k with
  | hiwat =>
    cases h
    obtain ⟨w, hw, hv⟩ := storeDataDev_hiwat F (waterWord (datatypeDev dev) v) dev
    rw [← setWatermark_eq] at hw
    dsimp only
    rw [hw]
    constructor <;> try first
      | rfl | exact fun _ => ⟨rfl, rfl⟩ | exact fun _ => rfl | (intro hq; cases hq; done) | (intro _ hq; cases hq; done)
    intro q hq m hm
    cases hq
    exact hv m hm
  | lowat =>
    cases h
    obtain ⟨w, hw, hv⟩ := storeDataDev_lowat F (waterWord (datatypeDev dev) v) dev
    rw [← setWatermark_eq] at hw
    dsimp only
    rw [hw]
    constructor <;> try first
      | rfl | exact fun _ => ⟨rfl, rfl⟩ | exact fun _ => rfl | (intro hq; cases hq; done) | (intro _ hq; cases hq; done)
    intro q hq m hm
    cases hq
    exact hv m hm
  | tags =>
    obtain ⟨r', h', rfl⟩ := Except.map_eq_ok.mp h
    obtain ⟨x, hx, hitems⟩ := parseTags_only h'
    dsimp only
    rw [hx]
    constructor <;> first
      | rfl | exact hitems | exact fun _ => ⟨rfl, rfl⟩ | exact fun _ => rfl | (intro _ hq; cases hq)
  | hargs =>
    cases h
    obtain ⟨x, hx, hitems⟩ := parseHargs_only v dev
    dsimp only
    rw [hx]
    constructor <;> first
      | rfl | exact hitems | exact fun _ => ⟨rfl, rfl⟩ | exact fun _ => rfl | (intro _ hq; cases hq)
  | spam =>
    cases h
    obtain ⟨b1, b2, hx, hset⟩ := setSpam_only v dev
    dsimp only
    rw [hx]
    constructor <;> try first
      | rfl | exact fun _ => rfl | (intro hq; cases hq; done) | (intro _ hq; cases hq; done)
    intro i hi hle
    cases hi
    exact hset hle
  | _ =>
    cases h
    constructor <;> first
      | rfl | exact fun _ => ⟨rfl, rfl⟩ | exact fun _ => rfl | (intro _ hq; cases hq)

theorem edited_modifyArgs {args : List PArg} {dev : Device} {r : Device × List Out × Str}
    (h : modifyArgs F dev args = .ok r) : Edited F args dev r.1 := by
  induction args generalizing dev r with
  | nil =>
    cases h
    exact Edited.nil F dev
  | cons a args ih =>
    obtain ⟨r1, h1, h⟩ := Except.bind_eq_ok.mp h
    obtain ⟨r2, h2, h⟩ := Except.bind_eq_ok.mp h
    cases h
    have h2' := ih h2
    exact (edited_modifyArg F h1).append F h2'

/-! ## Watermarks on the wire -/

/-- A watermark arrives where the sender reads the member that the receiver stores, a 64-bit one when it is a double, and also
where it is zero as it is printed. -/
def WaterArrives (dev : Device) (m : Member) (loc : DataLoc) : Prop :=
  Transmits dev ∧ (m = .ll → F.round (m.value F (dev.store loc)) = m.value F (dev.store loc)) ∨
    m.sent F (m.value F (dev.store loc)) = 0

/-- What a receiver stores of a printed watermark is what arrives, but for 64-bit integers that are no doubles. -/
theorem waterWord_printed (dev : Device) (loc : DataLoc)
    (h : datatypeDev dev = .ll → F.round (((getDataDev F dev loc (.raw 0)).int64 F).toInt : ℚ) =
      ((getDataDev F dev loc (.raw 0)).int64 F).toInt) :
    waterWord (datatypeDev dev) (F.strtod (printData F dev loc id)) = arriving F dev loc := by
  unfold waterWord printData arriving
  cases hd : datatypeDev dev with
  | uint =>
    generalize (getDataDev F dev loc (.raw 0)).uint F = u
    have h1 := u.toInt_lt
    have h2 := u.le_toInt
    have hu : F.strtod (fmtD u) = (u.toInt : ℚ) := by
      refine F.strtod_decInt_of_small (abs_le.mpr ⟨?_, ?_⟩) <;> omega
    dsimp only
    rw [hu, lrint_intCast (by omega) (by omega), BitVec.ofInt_toInt]
  | ll =>
    have h := h hd
    generalize (getDataDev F dev loc (.raw 0)).int64 F = v at h
    have h1 := v.toInt_lt
    have h2 := v.le_toInt
    have hv : lrint (F.strtod (fmtJd v)) = v.toInt := (F.lrint_strtod_decInt (by omega) (by omega)).mpr h
    dsimp only
    rw [hv, BitVec.ofInt_toInt]
  | double => simp only [id, F.strtod_fmtF]

/-- Where the member is no 64-bit integer, or is not read, what is printed of one is small. -/
theorem round_narrow {dev : Device} {m : Member} (hm : storeMember dev.devType dev.devSubtype = some m)
    (h : m ≠ .ll ∨ ¬ Transmits dev) (loc : DataLoc) (hd : datatypeDev dev = .ll) :
    F.round (((getDataDev F dev loc (.raw 0)).int64 F).toInt : ℚ) = ((getDataDev F dev loc (.raw 0)).int64 F).toInt := by
  refine F.round_small ?_
  cases ht : dev.devType with
  | none | other =>
    rw [ht] at hm
    cases hm
  | dimmer =>
    rw [datatypeDev, if_pos ht] at hd
    cases hd
  | switch =>
    have hget : (getDataDev F dev loc (.raw 0)).int64 F = (0 &&& ~~~0xff#64) ||| ((dev.store loc).bits F &&& 0xff#64) := by
      rw [getDataDev, ht]
      rfl
    have hlt : ((getDataDev F dev loc (.raw 0)).int64 F).toNat < 256 := by
      have hz : (0 : BitVec 64) &&& ~~~0xff#64 = 0#64 := by decide
      rw [hget, hz, BitVec.zero_or, BitVec.toNat_and]
      exact Nat.lt_of_le_of_lt Nat.and_le_right (by decide)
    rw [BitVec.toInt_eq_toNat_of_lt (by omega), abs_le]
    omega
  | blind =>
    have hget : getDataDev F dev loc (.raw 0) = .raw 0 := by
      rw [getDataDev, ht]
      rfl
    rw [hget]
    simp [Word.int64, Word.bits]
  | sensor | timer =>
    rw [ht] at hm
    have hdt : datatypeDev dev = subtypeDatatype dev.devSubtype := if_neg (by simp [ht])
    rw [hdt, subtypeDatatype_of_member hm] at hd
    have hll : m = .ll := by
      cases m <;> simp at hd ⊢
    have htrans : Transmits dev := ⟨by simp [ht], by simp [ht]⟩
    rcases h with h | h
    · exact absurd hll h
    · exact absurd htrans h

/-- The number of a 64-bit watermark that is stored. -/
theorem value_waterWord_ll (q : ℚ) : Member.value F .ll (waterWord .ll q) = ((lrint q : ℤ) : ℚ) := by
  have hr := lrint_range q
  have h : (BitVec.ofInt 64 (lrint q)).toInt = lrint q := BitVec.toInt_ofInt_eq_self (by decide) hr.1 hr.2
  exact congrArg (fun z : ℤ => (z : ℚ)) h

/-- Whether a printed watermark is stored with the value that was sent. -/
theorem waterArrives_iff {dev : Device} {m : Member} (hm : storeMember dev.devType dev.devSubtype = some m) (loc : DataLoc) :
    m.value F (waterWord (datatypeDev dev) (F.strtod (printData F dev loc id))) = m.sent F (m.value F (dev.store loc)) ↔
      WaterArrives F dev m loc := by
  unfold WaterArrives
  by_cases ht : Transmits dev
  · by_cases hll : m = .ll
    · subst hll
      have hsensor : subtypeMember dev.devSubtype = some .ll ∧ datatypeDev dev = subtypeDatatype dev.devSubtype ∧
          getMember dev.devType dev.devSubtype = some .ll := by
        cases hty : dev.devType with
        | none | other | switch | dimmer =>
          rw [hty] at hm
          cases hm
        | blind => exact absurd hty ht.1
        | sensor | timer =>
          rw [hty] at hm
          exact ⟨hm, if_neg (by simp [hty]), hm⟩
      obtain ⟨hst, hdt, hget⟩ := hsensor
      rw [subtypeDatatype_of_member hst] at hdt
      have hread : getDataDev F dev loc (.raw 0) = dev.store loc := by
        rw [getDataDev, hget]
        rfl
      have hprint : printData F dev loc id = decInt ((dev.store loc).bits F).toInt := by
        rw [printData, hdt, hread]
        rfl
      have hval : Member.value F .ll (dev.store loc) = (((dev.store loc).bits F).toInt : ℚ) := rfl
      have hsent : ∀ q, Member.sent F .ll q = q := fun _ => rfl
      rw [hdt, hprint, hsent, hval]
      generalize (dev.store loc).bits F = v
      have h1 := v.toInt_lt
      have h2 := v.le_toInt
      have hback : Member.value F .ll (waterWord .ll (F.strtod (decInt v.toInt))) = (v.toInt : ℚ) ↔
          lrint (F.strtod (decInt v.toInt)) = v.toInt := by
        rw [value_waterWord_ll]
        norm_cast
      rw [hback, F.lrint_strtod_decInt (by omega) (by omega)]
      constructor
      · intro h
        exact Or.inl ⟨ht, fun _ => h⟩
      · rintro (⟨-, h⟩ | h)
        · exact h rfl
        · rw [h, F.round_zero]
    · have hw := waterWord_printed F dev loc (round_narrow F hm (Or.inl hll) loc)
      rw [hw, value_arriving F hm ht]
      simp [ht, hll]
  · have hw := waterWord_printed F dev loc (round_narrow F hm (Or.inr ht) loc)
    rw [hw, value_arriving_zero F hm ht]
    simp [ht, eq_comm]

/-! ## Faults -/

/-- The arguments stop only on a slot that was never written, and write all slots when they write any. -/
theorem modifyArg_ok (dev : Device) (a : PArg) (h : dev.Readable) : ∃ r, modifyArg F dev a = .ok r := by
  unfold modifyArg
  split
  case h_7 v =>
    obtain ⟨r, hr⟩ := (parseTags_ok v dev).mpr h
    exact ⟨_, Except.map_eq_ok.mpr ⟨r, hr, rfl⟩⟩
  all_goals exact ⟨_, rfl⟩

theorem readable_modifyArg {dev : Device} {a : PArg} {r : Device × List Out × Str} (h : modifyArg F dev a = .ok r) :
    r.1.Readable ↔ dev.Readable := by
  have htags := (edited_modifyArg F h).tags
  rw [lastArg_cons, lastArg_nil, Option.none_or] at htags
  unfold Device.Readable
  rw [htags]
  cases ha : (a.as .tags : Option Str) with
  | none => rfl
  | some v =>
    obtain ⟨k, v'⟩ := a
    by_cases hk : k = .tags
    · subst hk
      obtain ⟨r', h', -⟩ := Except.map_eq_ok.mp h
      have hd := (parseTags_ok v' dev).mp ⟨r', h'⟩
      simp only [Option.map_some, Option.getD_some]
      exact ⟨fun _ => hd, fun _ => readable_tagSlots _⟩
    · rw [PArg.as_of_ne hk] at ha
      cases ha

theorem readable_modifyArgs {args : List PArg} {dev : Device} {r : Device × List Out × Str}
    (h : modifyArgs F dev args = .ok r) : r.1.Readable ↔ dev.Readable := by
  induction args generalizing dev r with
  | nil =>
    cases h
    rfl
  | cons a args ih =>
    obtain ⟨r1, h1, h⟩ := Except.bind_eq_ok.mp h
    obtain ⟨r2, h2, h⟩ := Except.bind_eq_ok.mp h
    cases h
    exact (ih h2).trans (readable_modifyArg F h1)

theorem modifyArgs_ok (args : List PArg) {dev : Device} (h : dev.Readable) : ∃ r, modifyArgs F dev args = .ok r := by
  induction args generalizing dev with
  | nil => exact ⟨_, rfl⟩
  | cons a args ih =>
    obtain ⟨r1, h1⟩ := modifyArg_ok F dev a h
    obtain ⟨r2, h2⟩ := ih ((readable_modifyArg F h1).mpr h)
    exact ⟨_, Except.bind_eq_ok.mpr ⟨r1, h1, Except.bind_eq_ok.mpr ⟨r2, h2, rfl⟩⟩⟩

theorem readAllTags_ok {s : Server} {ds : List DevId} : readAllTags s ds = .ok () ↔ ∀ d ∈ ds, (s.dev d).Readable := by
  induction ds with
  | nil => simp [readAllTags]
  | cons d ds ih =>
    rw [readAllTags, Except.bind_eq_ok, List.forall_mem_cons, ← ih, Device.Readable, ← exists_readTags]
    constructor
    · rintro ⟨ss, h1, h2⟩
      exact ⟨⟨ss, h1⟩, h2⟩
    · rintro ⟨⟨ss, h1⟩, h2⟩
      exact ⟨ss, h1, h2⟩

/-- `cmd_modify` for a device that is known edits the device, when the slots of all devices were written. -/
theorem cmdModify_known {args : List PArg} (c : ClientId) {s : Server} {uid : Str} {d : DevId} (hu : lastArg .uid args = some uid)
    (hf : s.findDeviceByUid uid = some d) (hd : (s.dev d).Readable) (hs : ∀ d ∈ s.alldevs, (s.dev d).Readable) :
    ∃ r, cmdModify F args c s = .ok r ∧ r.ret = some 0 ∧ Edited F args (s.dev d) (r.srv.dev d) := by
  obtain ⟨⟨dev, out, text⟩, h1⟩ := modifyArgs_ok F args hd
  have hdev : dev.Readable := (readable_modifyArgs F h1).mpr hd
  have hdump : devconfDumpCb (s.modDev d fun _ => dev) = .ok [.devconfDump] := by
    refine Except.map_eq_ok.mpr ⟨(), readAllTags_ok.mpr ?_, rfl⟩
    intro d' hd'
    rw [Server.modDev_dev]
    split
    · exact hdev
    · exact hs d' hd'
  have hedit := edited_modifyArgs F h1
  have hself : (s.modDev d fun _ => dev).dev d = dev := by
    rw [Server.modDev_dev, if_pos rfl]
  cases hc : dev.collector with
  | none =>
    refine ⟨{ srv := s.modDev d fun _ => dev, out := out ++ [.devconfDump] }, ?_, rfl, by rw [hself]; exact hedit⟩
    simp only [cmdModify, hu, hf]
    exact Except.bind_eq_ok.mpr ⟨_, h1, Except.bind_eq_ok.mpr ⟨_, hdump, by rw [hc]; rfl⟩⟩
  | some c' =>
    refine ⟨{ srv := s.modDev d fun _ => dev, out := out ++ [.devconfDump] ++ [.write c' (str "mod " ++ field .uid dev.uid ++
      text ++ [chLf])] }, ?_, rfl, by rw [hself]; exact hedit⟩
    simp only [cmdModify, hu, hf]
    exact Except.bind_eq_ok.mpr ⟨_, h1, Except.bind_eq_ok.mpr ⟨_, hdump, by rw [hc]; rfl⟩⟩

/-- `cmd_modify` for a device that is not known is refused. -/
theorem cmdModify_unknown {args : List PArg} (c : ClientId) {s : Server}
    (h : ∀ uid, lastArg .uid args = some uid → s.findDeviceByUid uid = none) :
    cmdModify F args c s = .ok { srv := s, ret := some (-1) } := by
  cases hu : (lastArg .uid args : Option Str) with
  | none => simp only [cmdModify, hu]
  | some uid => simp only [cmdModify, hu, h uid hu]

/-- What `cmd_modify` did when it came through, for a device that is known: the slots of all devices were written, and it wrote
this device only. -/
theorem cmdModify_wrote {args : List PArg} {c : ClientId} {s : Server} {uid : Str} {d : DevId} {r : Reply}
    (hu : lastArg .uid args = some uid) (hf : s.findDeviceByUid uid = some d) (h : cmdModify F args c s = .ok r) :
    ∃ dev, r.srv = s.modDev d (fun _ => dev) ∧ Edited F args (s.dev d) dev ∧ ((s.dev d).Readable ↔ dev.Readable) ∧
      ∀ d' ∈ s.alldevs, ((s.modDev d fun _ => dev).dev d').Readable := by
  simp only [cmdModify, hu, hf] at h
  obtain ⟨⟨dev, out, text⟩, h1, h⟩ := Except.bind_eq_ok.mp h
  obtain ⟨dump, h2, h⟩ := Except.bind_eq_ok.mp h
  obtain ⟨_, hread, -⟩ := Except.map_eq_ok.mp h2
  refine ⟨dev, ?_, edited_modifyArgs F h1, (readable_modifyArgs F h1).symm, readAllTags_ok.mp hread⟩
  split at h <;> cases h <;> rfl

/-- A device that the line is not about stays as it is. -/
theorem cmdModify_elsewhere {args : List PArg} {c : ClientId} {s : Server} {d : DevId} {r : Reply}
    (h : cmdModify F args c s = .ok r) (hd : ∀ uid, lastArg .uid args = some uid → s.findDeviceByUid uid ≠ some d) :
    r.srv.dev d = s.dev d := by
  by_cases hk : ∃ uid d', lastArg .uid args = some uid ∧ s.findDeviceByUid uid = some d'
  · obtain ⟨uid, d', hu, hf⟩ := hk
    obtain ⟨dev, hsrv, -, -⟩ := cmdModify_wrote F hu hf h
    have hne : d' ≠ d := fun he => hd uid hu (he ▸ hf)
    rw [hsrv, Server.modDev_dev, if_neg (Ne.symm hne)]
  · rw [cmdModify_unknown F c fun uid hu => by
      by_contra hf
      obtain ⟨d', hf⟩ := Option.ne_none_iff_exists'.mp hf
      exact hk ⟨uid, d', hu, hf⟩] at h
    cases h
    rfl

end Gnhast
