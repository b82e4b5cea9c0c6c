import Gnhast.Lemmas.Accessors
import Gnhast.Lemmas.Modify
import Gnhast.Theorems.Scale

/-!
# Answers to a question

`cmd_ask_device` puts two things into one word of flags: a bit for each optional field it was asked for, and the bit at eight plus
the scale it was asked for. The scale comes from the wire as it is. In the eight bits that are kept for it, a scale that the
subtype does not know still converts the value to the base of the subtype; below and above them it sets bits that mean other
things, up to the whole device or the format for cacti, or it is no shift at all.
-/

namespace Gnhast

open CStr

variable (F : Doubles)

/-! ## What an update says -/

/-- What `gn_update_device` prints, before it is text. -/
inductive UpdReply
  | cacti (rrdname : Str) (value : DataVal)
  | upd (head : List (Sc × Str)) (value : DataVal) (water : Bool)
deriving Repr, DecidableEq

/-- A value as it is printed. -/
def DataVal.text : DataVal → Str
  | .uint v => fmtD v
  | .ll v => fmtJd v
  | .double q => fmtF q

/-- The value of a device that is printed, a double scaled by `sc`. -/
def dataVal (dev : Device) (sc : ℚ → ℚ) : DataVal :=
  match datatypeDev dev with
  | .uint => .uint ((getDataDev F dev .data (.raw 0)).uint F)
  | .ll => .ll ((getDataDev F dev .data (.raw 0)).int64 F)
  | .double => .double (sc (reading F dev .data))

/-- The fields in front of the value. -/
def updHead (dev : Device) (name : Str) (what : BitVec 32) (tags : List Str) : List (Sc × Str) :=
  let full := queryBit what gncUpdFull
  (Sc.uid, dev.uid) ::
    ((if queryBit what gncUpdName || full then [(Sc.name, quote name)] else []) ++
      (if queryBit what gncUpdRrdname || full then (dev.rrdname.map fun r => (Sc.rrdname, r)).toList else []) ++
      (if queryBit what gncUpdHandler || full then (dev.handler.map fun h => (Sc.handler, h)).toList else []) ++
      (if (queryBit what gncUpdHargs || full) && !dev.hargs.items.isEmpty then [(Sc.hargs, quotedList dev.hargs.items)] else []) ++
      (if tags = [] then [] else [(Sc.tags, quotedList tags)]) ++
      (if full then
        (Sc.devtype, fmtByte dev.type) :: (Sc.proto, fmtByte dev.proto) :: (Sc.subtype, fmtByte dev.subtype) ::
          (Sc.spam, spamSetting dev) :: (if dev.scale = 0 then [] else [(Sc.scale, fmtByte dev.scale)]) else []))

/-- What `gn_update_device` prints for a device and flags. -/
def updReply (dev : Device) (what : BitVec 32) : Except Fault (Option UpdReply) :=
  match dev.name with
  | none => .ok none
  | some name =>
    if dev.type = 0 ∨ dev.subtype = 0 ∨ dev.proto = 0 then .ok none
    else
      let value := dataVal F dev
        (gnMaybeScale dev (if queryBit what gncNoscale then dev.scale.toNat else gncGetScale what))
      let full := queryBit what gncUpdFull
      if queryBit what gncUpdCacti then
        match dev.rrdname with
        | none => .error .nullString
        | some rrdname => .ok (some (.cacti rrdname value))
      else
        (if queryBit what gncUpdTags || full then readTags dev.tags.items else .ok []).map fun tags =>
          some (.upd (updHead dev name what tags) value (queryBit what gncUpdWater || full))

/-- The text of what is printed. -/
def UpdReply.render (dev : Device) : UpdReply → Str
  | .cacti rrdname value => rrdname ++ str ":" ++ value.text ++ [chLf]
  | .upd head value water =>
    str "upd " ++ head.flatMap (fun f => field f.1 f.2 ++ str " ") ++ argdev dev ++ chColon :: value.text ++
      (if water then waterText F dev else []) ++ [chLf]

theorem printData_eq (dev : Device) (sc : ℚ → ℚ) : printData F dev .data sc = (dataVal F dev sc).text := by
  unfold printData dataVal
  cases datatypeDev dev <;> rfl

theorem flatMap_ite {α β : Type} (f : α → List β) (c : Prop) [Decidable c] (xs ys : List α) :
    (if c then xs else ys).flatMap f = if c then xs.flatMap f else ys.flatMap f := by
  split <;> rfl

theorem flatMap_toList {α : Type} (f : α → Str) (g : Str → α) (o : Option Str) :
    (o.map g).toList.flatMap f = optText o fun v => f (g v) := by
  cases o <;> simp [optText]

/-- `gn_update_device` prints what the reply says. -/
theorem gnUpdateDevice_eq (dev : Device) (what : BitVec 32) :
    gnUpdateDevice F dev what = (updReply F dev what).map (Option.map (UpdReply.render F dev)) := by
  unfold gnUpdateDevice updReply
  cases hn : dev.name with
  | none => rfl
  | some name =>
    dsimp only
    split
    · rfl
    · split
      · cases dev.rrdname with
        | none => rfl
        | some rrdname =>
          simp only [Except.map, Option.map_some, UpdReply.render, printData_eq]
      · cases (if (queryBit what gncUpdTags || queryBit what gncUpdFull) = true then readTags dev.tags.items else .ok []) with
        | error e => rfl
        | ok tags =>
          simp only [Except.map, Option.map_some, UpdReply.render, updHead, List.flatMap_cons, List.flatMap_append, flatMap_ite,
            flatMap_toList, List.flatMap_nil, List.append_nil, printData_eq, List.append_assoc, List.cons_append]

/-! ## The word of flags -/

/-- The optional fields that can be asked for. -/
inductive OptField
  | water | handler | hargs | tags
deriving Repr, DecidableEq

/-- The keywords that ask for a field. -/
def OptField.keywords : OptField → List Sc
  | .water => [.hiwat, .lowat]
  | .handler => [.handler]
  | .hargs => [.hargs]
  | .tags => [.tags]

/-- The flag of a field. -/
def OptField.flag : OptField → BitVec 32
  | .water => gncUpdWater
  | .handler => gncUpdHandler
  | .hargs => gncUpdHargs
  | .tags => gncUpdTags

/-- A field is asked for. -/
def asks (args : List PArg) (f : OptField) : Bool := args.any fun a => decide (a.cword ∈ f.keywords)

/-- The scale that is asked for, or else the scale of the device. -/
def askScale (args : List PArg) (dev : Device) : BitVec 32 :=
  (lastArg .scale args : Option (BitVec 32)).getD (dev.scale.setWidth 32)

/-- The flags that a keyword adds. -/
def optFlag : Sc → BitVec 32
  | .hiwat | .lowat => gncUpdWater
  | .handler => gncUpdHandler
  | .hargs => gncUpdHargs
  | .tags => gncUpdTags
  | _ => 0

theorem queryBit_or (v w p : BitVec 32) : queryBit (v ||| w) p = (queryBit v p || queryBit w p) := by
  rw [Bool.eq_iff_iff, Bool.or_eq_true]
  simp only [queryBit, bne_iff_ne, ne_eq, BitVec.and_or_distrib_right, BitVec.ofNat_eq_ofNat, BitVec.or_eq_zero_iff]
  exact not_and_or

theorem askFlags_eq (args : List PArg) :
    askFlags args = args.foldl (fun what a => what ||| optFlag a.cword) (gncUpdName ||| gncUpdRrdname) := by
  unfold askFlags
  congr 1
  funext what a
  cases a.cword <;> first | rfl | exact BitVec.or_zero.symm

/-- A mask finds something in the flags of a line when it finds it in the first flags or in those of a keyword. -/
theorem queryBit_foldl (args : List PArg) (w p : BitVec 32) :
    queryBit (args.foldl (fun what a => what ||| optFlag a.cword) w) p =
      (queryBit w p || args.any fun a => queryBit (optFlag a.cword) p) := by
  induction args generalizing w with
  | nil => simp
  | cons a args ih => rw [List.foldl_cons, ih, queryBit_or, List.any_cons, Bool.or_assoc]

theorem queryBit_optFlag (k : Sc) (f : OptField) : queryBit (optFlag k) f.flag = decide (k ∈ f.keywords) := by
  cases f <;> cases k <;> rfl

/-- The flag of a field is set when the field is asked for. -/
theorem queryBit_askFlags (args : List PArg) (f : OptField) : queryBit (askFlags args) f.flag = asks args f := by
  have h0 : queryBit (gncUpdName ||| gncUpdRrdname) f.flag = false := by
    cases f <;> rfl
  rw [askFlags_eq, queryBit_foldl, h0, Bool.false_or]
  unfold asks
  congr 1
  funext a
  exact queryBit_optFlag a.cword f

/-- A mask that none of the fields is in. -/
theorem queryBit_askFlags_none (args : List PArg) {p : BitVec 32} (h0 : queryBit (gncUpdName ||| gncUpdRrdname) p = false)
    (h : ∀ f : OptField, queryBit f.flag p = false) : queryBit (askFlags args) p = false := by
  rw [askFlags_eq, queryBit_foldl, h0, Bool.false_or, List.any_eq_false]
  intro a _
  rw [Bool.not_eq_true]
  unfold optFlag
  split
  · exact h .water
  · exact h .water
  · exact h .handler
  · exact h .hargs
  · exact h .tags
  · simp [queryBit]

/-- What the bit of a shift means: one bit, and a scale when it is one of the eight. -/
theorem bit_table : ∀ b < 31, ∀ w, w = 1#32 <<< b →
    queryBit w gncNoscale = decide (b = 0) ∧ queryBit w gncUpdCacti = decide (b = 3) ∧
      queryBit w gncUpdHandler = decide (b = 4) ∧ queryBit w gncUpdHargs = decide (b = 5) ∧
      queryBit w gncUpdWater = decide (b = 6) ∧ queryBit w gncUpdFull = decide (b = 7) ∧
      queryBit w gncUpdTags = decide (b = 17) ∧ gncGetScale w = if 8 ≤ b ∧ b ≤ 15 then b - 8 else 0 := by
  have h : ∀ b < 31, queryBit (1#32 <<< b) gncNoscale = decide (b = 0) ∧ queryBit (1#32 <<< b) gncUpdCacti = decide (b = 3) ∧
      queryBit (1#32 <<< b) gncUpdHandler = decide (b = 4) ∧ queryBit (1#32 <<< b) gncUpdHargs = decide (b = 5) ∧
      queryBit (1#32 <<< b) gncUpdWater = decide (b = 6) ∧ queryBit (1#32 <<< b) gncUpdFull = decide (b = 7) ∧
      queryBit (1#32 <<< b) gncUpdTags = decide (b = 17) ∧
      gncGetScale (1#32 <<< b) = if 8 ≤ b ∧ b ≤ 15 then b - 8 else 0 := by
    decide
  intro b hb w hw
  subst hw
  exact h b hb

/-- The shift of a scale is one that the language defines. -/
def ShiftDefined (scale : BitVec 32) : Prop := 0 ≤ 8 + scale.toInt ∧ 8 + scale.toInt ≤ 30

instance (scale : BitVec 32) : Decidable (ShiftDefined scale) :=
  inferInstanceAs (Decidable (0 ≤ 8 + scale.toInt ∧ 8 + scale.toInt ≤ 30))

/-- The bit that a scale sets. -/
def shiftOf (scale : BitVec 32) : Nat := (8 + scale.toInt).toNat

theorem gncUpdScale_eq {scale : BitVec 32} (h : ShiftDefined scale) : gncUpdScale scale = 1#32 <<< shiftOf scale := by
  obtain ⟨h1, h2⟩ := h
  have hb : (8#32 + scale).toNat % 32 = shiftOf scale := by
    unfold shiftOf
    rw [BitVec.toNat_add]
    rw [BitVec.toInt_eq_toNat_cond] at h1 h2 ⊢
    have := scale.isLt
    split at h1 <;> simp only [BitVec.toNat_ofNat] <;> split at h2 <;> omega
  unfold gncUpdScale
  rw [hb]

/-- The scale that `gn_update_device` reads from the word. -/
def codeScale (dev : Device) (scale : BitVec 32) : Nat :=
  if shiftOf scale = 0 then dev.scale.toNat
  else if 8 ≤ shiftOf scale ∧ shiftOf scale ≤ 15 then shiftOf scale - 8 else 0

/-- The word that `cmd_ask_device` passes on. -/
def askWord (args : List PArg) (dev : Device) : BitVec 32 := askFlags args ||| gncUpdScale (askScale args dev)

theorem and_mask_askFlags (args : List PArg) : askFlags args &&& 0xff00#32 = 0 := by
  have h := queryBit_askFlags_none args (p := 0xff00#32) (by decide) (fun f => by cases f <;> decide)
  simpa [queryBit] using h

theorem gncGetScale_or {v : BitVec 32} (h : v &&& 0xff00#32 = 0) (w : BitVec 32) : gncGetScale (v ||| w) = gncGetScale w := by
  unfold gncGetScale
  rw [BitVec.and_or_distrib_right, h]
  exact congrArg (fun u : BitVec 32 => ffs (u >>> 9)) BitVec.zero_or

/-- What the word says, when its shift is defined. -/
structure WordSays (args : List PArg) (dev : Device) : Prop where
  cacti : queryBit (askWord args dev) gncUpdCacti = decide (shiftOf (askScale args dev) = 3)
  full : queryBit (askWord args dev) gncUpdFull = decide (shiftOf (askScale args dev) = 7)
  name : queryBit (askWord args dev) gncUpdName = true
  rrdname : queryBit (askWord args dev) gncUpdRrdname = true
  handler : queryBit (askWord args dev) gncUpdHandler = (asks args .handler || decide (shiftOf (askScale args dev) = 4))
  hargs : queryBit (askWord args dev) gncUpdHargs = (asks args .hargs || decide (shiftOf (askScale args dev) = 5))
  water : queryBit (askWord args dev) gncUpdWater = (asks args .water || decide (shiftOf (askScale args dev) = 6))
  tags : queryBit (askWord args dev) gncUpdTags = (asks args .tags || decide (shiftOf (askScale args dev) = 17))
  scale : (if queryBit (askWord args dev) gncNoscale then dev.scale.toNat else gncGetScale (askWord args dev)) =
    codeScale dev (askScale args dev)

theorem wordSays {args : List PArg} {dev : Device} (h : ShiftDefined (askScale args dev)) : WordSays args dev := by
  have hb : shiftOf (askScale args dev) < 31 := by
    have := h.2
    unfold shiftOf
    omega
  obtain ⟨t1, t2, t3, t4, t5, t6, t7, t8⟩ := bit_table _ hb _ (gncUpdScale_eq h)
  have hnone : ∀ p : BitVec 32, queryBit (gncUpdName ||| gncUpdRrdname) p = false → (∀ f : OptField, queryBit f.flag p = false) →
      queryBit (askWord args dev) p = queryBit (gncUpdScale (askScale args dev)) p := by
    intro p hp hf
    rw [askWord, queryBit_or, queryBit_askFlags_none args hp hf, Bool.false_or]
  have hfield : ∀ f : OptField, queryBit (askWord args dev) f.flag =
      (asks args f || queryBit (gncUpdScale (askScale args dev)) f.flag) := by
    intro f
    rw [askWord, queryBit_or, queryBit_askFlags]
  have hfirst : ∀ p : BitVec 32, queryBit (gncUpdName ||| gncUpdRrdname) p = true → queryBit (askWord args dev) p = true := by
    intro p hp
    rw [askWord, queryBit_or, askFlags_eq, queryBit_foldl, hp, Bool.true_or, Bool.true_or]
  refine
    { cacti := (hnone _ (by decide) fun f => by cases f <;> decide).trans t2
      full := (hnone _ (by decide) fun f => by cases f <;> decide).trans t6
      name := hfirst _ (by decide)
      rrdname := hfirst _ (by decide)
      handler := (hfield .handler).trans (congrArg _ t3)
      hargs := (hfield .hargs).trans (congrArg _ t4)
      water := (hfield .water).trans (congrArg _ t5)
      tags := (hfield .tags).trans (congrArg _ t7)
      scale := ?_ }
  rw [hnone gncNoscale (by decide) (fun f => by cases f <;> decide), t1, askWord, gncGetScale_or (and_mask_askFlags args), t8]
  unfold codeScale
  simp only [decide_eq_true_eq]

/-! ## The value -/

/-- How many scales a subtype has. -/
def DevSubtype.knownScales : DevSubtype → Nat
  | .temp | .pressure | .speed => 4
  | .rainrate | .lux => 2
  | _ => 0

/-- A value in the scale that is asked for; a scale that the subtype does not know leaves it as it is. -/
def askedValue (dev : Device) (scale : BitVec 32) (v : ℚ) : ℚ :=
  if 0 ≤ scale.toInt ∧ scale.toInt < dev.devSubtype.knownScales then gnMaybeScale dev scale.toNat v else v

/-- A value is the same number in the base of its subtype, which an unknown scale converts to. -/
def SameInBase (st : DevSubtype) (scale : Nat) (v : ℚ) : Prop :=
  match st, scale with
  | .pressure, 0 | .pressure, 1 | .pressure, 3 => v = 0
  | .pressure, _ => True
  | _, _ => SameInZero st scale v

/-- The value that is sent for a scale is the value that is asked for. -/
def ValueKept (dev : Device) (scale : BitVec 32) (v : ℚ) : Prop :=
  (0 ≤ scale.toInt ∧ scale.toInt < dev.devSubtype.knownScales) ∨ scale.toInt = -8 ∨ ¬ Scalable dev.devSubtype ∨
    if 0 ≤ scale.toInt ∧ scale.toInt ≤ 7 then scale.toInt = dev.scale.toNat ∨ SameInBase dev.devSubtype dev.scale.toNat v
    else SameInZero dev.devSubtype dev.scale.toNat v

theorem knownScales_le (st : DevSubtype) : st.knownScales ≤ 4 := by
  cases st <;> decide

theorem gnMaybeScale_unscalable {dev : Device} (h : ¬ Scalable dev.devSubtype) (n : Nat) (v : ℚ) : gnMaybeScale dev n v = v := by
  unfold gnMaybeScale
  split
  · rfl
  · unfold Scalable at h
    generalize dev.devSubtype = st at h
    cases st <;> simp at h ⊢

theorem gnScalePressure_base_iff (v : ℚ) (cur n : Nat) :
    gnScalePressure v cur (n + 4) = v ↔ SameInBase .pressure cur v := by
  unfold SameInBase
  rcases cur with _ | _ | _ | _ | cur
  · simp only [gnScalePressure]
    constructor <;> intro h <;> linarith
  · simp only [gnScalePressure]
    constructor <;> intro h <;> linarith
  · simp [gnScalePressure]
  · simp only [gnScalePressure]
    constructor <;> intro h <;> linarith
  · simp [gnScalePressure]

/-- In a scale that the subtype does not know, a value is the same number exactly under the condition. -/
theorem gnMaybeScale_unknown_iff {dev : Device} (h : Scalable dev.devSubtype) {n : Nat} (hn : dev.devSubtype.knownScales ≤ n)
    (v : ℚ) : gnMaybeScale dev n v = v ↔ n = dev.scale.toNat ∨ SameInBase dev.devSubtype dev.scale.toNat v := by
  unfold gnMaybeScale
  by_cases hcur : dev.scale.toNat = n
  · rw [if_pos hcur]
    exact iff_of_true rfl (Or.inl hcur.symm)
  · rw [if_neg hcur, or_iff_right (Ne.symm hcur)]
    have hzero : ∀ f : ℚ → Nat → Nat → ℚ, (f v 0 0 = v) →
        (∀ {cur : Nat}, cur ≠ 0 → (f v cur 0 = v ↔ SameInZero dev.devSubtype cur v)) → ∀ cur,
        (f v cur 0 = v ↔ SameInZero dev.devSubtype cur v) := by
      intro f h0 hf cur
      by_cases hc : cur = 0
      · rw [hc]
        exact iff_of_true h0 (Or.inl rfl)
      · exact hf hc
    rcases h with h | h | h | h | h
    · rw [h] at hn hzero ⊢
      obtain ⟨m, rfl⟩ := Nat.exists_eq_add_of_le' hn
      exact hzero gnScaleTemp rfl (gnScaleTemp_zero_iff v) _
    · rw [h] at hn ⊢
      obtain ⟨m, rfl⟩ := Nat.exists_eq_add_of_le' hn
      exact gnScalePressure_base_iff v _ m
    · rw [h] at hn hzero ⊢
      obtain ⟨m, rfl⟩ := Nat.exists_eq_add_of_le' hn
      exact hzero gnScaleSpeed rfl (gnScaleSpeed_zero_iff v) _
    · rw [h] at hn hzero ⊢
      obtain ⟨m, rfl⟩ := Nat.exists_eq_add_of_le' hn
      exact hzero gnScaleLength rfl (gnScaleLength_zero_iff v) _
    · rw [h] at hn hzero ⊢
      obtain ⟨m, rfl⟩ := Nat.exists_eq_add_of_le' hn
      exact hzero gnScaleLight rfl (gnScaleLight_zero_iff v) _

/-- The scale in the word converts as it was asked exactly under the condition. -/
theorem codeScale_iff {dev : Device} {scale : BitVec 32} (h : ShiftDefined scale) (v : ℚ) :
    gnMaybeScale dev (codeScale dev scale) v = askedValue dev scale v ↔ ValueKept dev scale v := by
  obtain ⟨h1, h2⟩ := h
  have hknown := knownScales_le dev.devSubtype
  have hnat : 0 ≤ scale.toInt → scale.toNat = scale.toInt.toNat := by
    intro h0
    rw [BitVec.toInt_eq_toNat_cond] at h0 ⊢
    have := scale.isLt
    split at h0 <;> rename_i hs
    · rw [if_pos hs]
      simp
    · omega
  unfold askedValue ValueKept
  by_cases hk : 0 ≤ scale.toInt ∧ scale.toInt < dev.devSubtype.knownScales
  · have hcode : codeScale dev scale = scale.toNat := by
      rw [hnat hk.1]
      unfold codeScale shiftOf
      rw [if_neg (by omega), if_pos (by omega)]
      omega
    rw [if_pos hk, hcode]
    exact iff_of_true rfl (Or.inl hk)
  · rw [if_neg hk, or_iff_right hk]
    by_cases h8 : scale.toInt = -8
    · have hcode : codeScale dev scale = dev.scale.toNat := by
        unfold codeScale shiftOf
        rw [if_pos (by omega)]
      rw [hcode]
      refine iff_of_true ?_ (Or.inl h8)
      rw [gnMaybeScale, if_pos rfl]
    · rw [or_iff_right h8]
      by_cases hs : Scalable dev.devSubtype
      · rw [or_iff_right (not_not_intro hs)]
        split
        · rename_i h7
          have hcode : codeScale dev scale = scale.toInt.toNat := by
            unfold codeScale shiftOf
            rw [if_neg (by omega), if_pos (by omega)]
            omega
          rw [hcode, gnMaybeScale_unknown_iff hs (by omega)]
          refine or_congr_left ?_
          omega
        · rename_i h7
          have hcode : codeScale dev scale = 0 := by
            unfold codeScale shiftOf
            rw [if_neg (by omega), if_neg (by omega)]
          rw [hcode]
          exact gnMaybeScale_zero_iff hs v
      · exact iff_of_true (gnMaybeScale_unscalable hs _ v) (Or.inl hs)

/-- Two conversions print the same for a double when they agree on the reading. -/
theorem dataVal_eq_iff (dev : Device) (f g : ℚ → ℚ) :
    dataVal F dev f = dataVal F dev g ↔ (datatypeDev dev = .double → f (reading F dev .data) = g (reading F dev .data)) := by
  unfold dataVal
  cases datatypeDev dev <;> simp

/-! ## The reply -/

/-- The keywords in front of a value. -/
def headKeywords (rrdname handler hargs tags full scale : Bool) : List Sc :=
  Sc.uid :: Sc.name ::
    ((if rrdname then [Sc.rrdname] else []) ++ (if handler then [Sc.handler] else []) ++ (if hargs then [Sc.hargs] else []) ++
      (if tags then [Sc.tags] else []) ++
      (if full then Sc.devtype :: Sc.proto :: Sc.subtype :: Sc.spam :: (if scale then [Sc.scale] else []) else []))

theorem headKeywords_inj (r h a t f s h' a' t' : Bool) :
    headKeywords r h a t f s = headKeywords r h' a' t' false false ↔ f = false ∧ h = h' ∧ a = a' ∧ t = t' := by
  refine ⟨fun hl => ?_, fun ⟨hf, hh, ha, ht⟩ => by rw [hf, hh, ha, ht]; rfl⟩
  have hmem : ∀ k, decide (k ∈ headKeywords r h a t f s) = decide (k ∈ headKeywords r h' a' t' false false) := by
    intro k
    rw [hl]
  refine ⟨?_, ?_, ?_, ?_⟩
  · simpa [headKeywords] using hmem .devtype
  · simpa [headKeywords] using hmem .handler
  · simpa [headKeywords] using hmem .hargs
  · simpa [headKeywords] using hmem .tags

/-- The fields of a reply: the uid and the names, and each optional field that is asked for and that the device has. -/
def askedFields (args : List PArg) (dev : Device) : List Sc :=
  headKeywords dev.rrdname.isSome (asks args .handler && dev.handler.isSome) (asks args .hargs && !dev.hargs.items.isEmpty)
    (asks args .tags && !dev.tags.items.isEmpty) false false

theorem updHead_fields (dev : Device) (name : Str) {what : BitVec 32} (tags : List Str)
    (h1 : queryBit what gncUpdName = true) (h2 : queryBit what gncUpdRrdname = true) :
    (updHead dev name what tags).map Prod.fst = headKeywords dev.rrdname.isSome
      ((queryBit what gncUpdHandler || queryBit what gncUpdFull) && dev.handler.isSome)
      ((queryBit what gncUpdHargs || queryBit what gncUpdFull) && !dev.hargs.items.isEmpty) (!tags.isEmpty)
      (queryBit what gncUpdFull) (decide (dev.scale ≠ 0)) := by
  unfold updHead headKeywords
  rw [h1, h2]
  generalize queryBit what gncUpdHandler = h, queryBit what gncUpdHargs = a, queryBit what gncUpdFull = f
  have htags : (if tags = [] then [] else [(Sc.tags, quotedList tags)]).map Prod.fst = if !tags.isEmpty then [Sc.tags] else [] := by
    cases tags <;> rfl
  have hscale : (if dev.scale = 0 then [] else [(Sc.scale, fmtByte dev.scale)]).map Prod.fst =
      if decide (dev.scale ≠ 0) then [Sc.scale] else [] := by
    by_cases h0 : dev.scale = 0
    · rw [if_pos h0, decide_eq_false (not_not_intro h0)]
      rfl
    · rw [if_neg h0, decide_eq_true h0]
      rfl
  simp only [List.map_cons, List.map_append, htags]
  cases f
  · cases dev.rrdname <;> cases dev.handler <;> cases h <;> cases a <;> cases dev.hargs.items <;> rfl
  · simp only [Bool.or_true, if_true, List.map_cons, List.map_nil, hscale]
    cases dev.rrdname <;> cases dev.handler <;> cases dev.hargs.items <;> rfl

/-- A question is answered as it was asked: the shift of the flag word is defined, and a device that can be sent is sent in one
update with the fields that were asked for, the watermarks if they were, and the value in the scale that was asked for. -/
structure AsksRight (args : List PArg) (c : ClientId) (s : Server) (d : DevId) : Prop where
  shift : ShiftDefined (askScale args (s.dev d))
  reply : (s.dev d).Complete → ∃ head reply, head.map Prod.fst = askedFields args (s.dev d) ∧
    reply = UpdReply.upd head (dataVal F (s.dev d) (askedValue (s.dev d) (askScale args (s.dev d)))) (asks args .water) ∧
    updReply F (s.dev d) (askWord args (s.dev d)) = .ok (some reply) ∧
    cmdAskDevice F args c s = .ok { srv := s, out := [.write c (reply.render F (s.dev d))] }

/-- A scale that meets no flag but its own, or only flags that change nothing for the device. -/
structure AskFits (args : List PArg) (dev : Device) : Prop where
  readable : asks args .tags = true → dev.Readable
  cacti : (askScale args dev).toInt ≠ -5
  full : (askScale args dev).toInt ≠ -1
  handler : (askScale args dev).toInt = -4 → asks args .handler = true ∨ dev.handler = none
  hargs : (askScale args dev).toInt = -3 → asks args .hargs = true ∨ dev.hargs.items = []
  water : (askScale args dev).toInt = -2 → asks args .water = true
  tags : (askScale args dev).toInt = 9 → asks args .tags = true ∨ dev.tags.items = []
  value : ValueKept dev (askScale args dev) (reading F dev .data)

/-- What a complete device is answered, by the position of the bit. -/
theorem updReply_askWord {args : List PArg} {dev : Device} {name : Str} (hc : dev.Complete) (hn : dev.name = some name)
    (h : ShiftDefined (askScale args dev)) : updReply F dev (askWord args dev) =
      if shiftOf (askScale args dev) = 3 then
        match dev.rrdname with
        | none => .error .nullString
        | some rrdname => .ok (some (.cacti rrdname (dataVal F dev (gnMaybeScale dev (codeScale dev (askScale args dev))))))
      else
        (if asks args .tags || decide (shiftOf (askScale args dev) = 17) || decide (shiftOf (askScale args dev) = 7)
          then readTags dev.tags.items else .ok []).map fun tags =>
          some (.upd (updHead dev name (askWord args dev) tags)
            (dataVal F dev (gnMaybeScale dev (codeScale dev (askScale args dev))))
            (asks args .water || decide (shiftOf (askScale args dev) = 6) || decide (shiftOf (askScale args dev) = 7))) := by
  have hw : WordSays args dev := wordSays h
  have hz : ¬ (dev.type = 0 ∨ dev.subtype = 0 ∨ dev.proto = 0) := by
    rintro (h' | h' | h')
    · exact hc.type h'
    · exact hc.subtype h'
    · exact hc.proto h'
  unfold updReply
  rw [hn]
  dsimp only
  rw [if_neg hz, hw.scale, hw.cacti, hw.full, hw.water, hw.tags]
  simp only [decide_eq_true_eq]

/-- A read that is made only when it is asked for. -/
theorem readTags_if {dev : Device} {c : Bool} {tags : List Str}
    (h : (if c then readTags dev.tags.items else .ok []) = .ok tags) : (c = true → dev.Readable) ∧
      (!tags.isEmpty) = (c && !dev.tags.items.isEmpty) := by
  cases c with
  | false =>
    cases h
    exact ⟨fun h => (nomatch h), rfl⟩
  | true =>
    rw [if_pos rfl] at h
    refine ⟨fun _ => exists_readTags.mp ⟨tags, h⟩, ?_⟩
    have hm := congrArg List.isEmpty (readTags_ok.mp h)
    rw [List.isEmpty_map, List.isEmpty_map] at hm
    rw [hm, Bool.true_and]

theorem exists_readTags_if {dev : Device} {c : Bool} (h : c = true → dev.Readable) :
    ∃ tags, (if c then readTags dev.tags.items else .ok []) = .ok tags := by
  cases c with
  | false => exact ⟨[], rfl⟩
  | true => exact exists_readTags.mpr (h rfl)

theorem or_and_eq_iff (x y : Bool) (p : Prop) [Decidable p] :
    ((x || decide p) && y) = (x && y) ↔ (p → x = true ∨ y = false) := by
  by_cases hp : p <;> cases x <;> cases y <;> simp [hp]

/-- A complete device is answered as it was asked exactly when the scale fits. -/
theorem right_iff_fits {args : List PArg} {dev : Device} (hc : dev.Complete) (h : ShiftDefined (askScale args dev)) :
    (∃ head, head.map Prod.fst = askedFields args dev ∧ updReply F dev (askWord args dev) = .ok (some
      (.upd head (dataVal F dev (askedValue dev (askScale args dev))) (asks args .water)))) ↔ AskFits F args dev := by
  obtain ⟨name, hn⟩ := Option.ne_none_iff_exists'.mp hc.name
  have hw : WordSays args dev := wordSays h
  have hreply := updReply_askWord F hc hn h
  have hpos : ∀ n : Nat, n ≤ 30 → (shiftOf (askScale args dev) = n ↔ (askScale args dev).toInt = (n : Int) - 8) := by
    intro n hle
    obtain ⟨h1, h2⟩ := h
    unfold shiftOf
    omega
  have hvalue : dataVal F dev (gnMaybeScale dev (codeScale dev (askScale args dev))) =
      dataVal F dev (askedValue dev (askScale args dev)) ↔ ValueKept dev (askScale args dev) (reading F dev .data) := by
    rw [dataVal_eq_iff, codeScale_iff h]
    refine ⟨fun hk => ?_, fun hk _ => hk⟩
    by_cases hs : Scalable dev.devSubtype
    · exact hk (datatype_scalable hs)
    · exact Or.inr (Or.inr (Or.inl hs))
  have hfields := fun tags => updHead_fields dev name tags hw.name hw.rrdname
  rw [hw.handler, hw.hargs, hw.full] at hfields
  constructor
  · rintro ⟨head, hhead, hr⟩
    rw [hreply] at hr
    by_cases h3 : shiftOf (askScale args dev) = 3
    · rw [if_pos h3] at hr
      cases hrr : dev.rrdname <;> rw [hrr] at hr <;> cases hr
    · rw [if_neg h3] at hr
      obtain ⟨tags, htags, hr⟩ := Except.map_eq_ok.mp hr
      injection hr with hr
      injection hr with hh hv hwater
      rw [← hh, hfields, (readTags_if htags).2, askedFields, headKeywords_inj] at hhead
      obtain ⟨hf, hhandler, hhargs, htagged⟩ := hhead
      have hread := (readTags_if htags).1
      simp only [hf, Bool.or_false] at hhandler hhargs hwater htagged hread
      rw [decide_eq_false_iff_not, hpos 7 (by omega)] at hf
      rw [or_and_eq_iff, hpos _ (by omega)] at hhandler hhargs htagged
      rw [hpos 3 (by omega)] at h3
      exact
        { readable := fun ht => hread (by rw [ht, Bool.true_or])
          cacti := h3
          full := hf
          handler := fun hx => (hhandler hx).imp_right fun h' => by simpa using h'
          hargs := fun hx => (hhargs hx).imp_right fun h' => by simpa using h'
          water := fun hx => by simpa [(hpos 6 (by omega)).mpr hx] using hwater
          tags := fun hx => (htagged hx).imp_right fun h' => by simpa using h'
          value := hvalue.mp hv }
  · intro hfit
    have h3 : shiftOf (askScale args dev) ≠ 3 := fun h' => hfit.cacti ((hpos 3 (by omega)).mp h')
    have h7 : decide (shiftOf (askScale args dev) = 7) = false :=
      decide_eq_false fun h' => hfit.full ((hpos 7 (by omega)).mp h')
    have hread : (asks args .tags || decide (shiftOf (askScale args dev) = 17)) = true → dev.Readable := by
      intro hasked
      rw [Bool.or_eq_true, decide_eq_true_eq] at hasked
      rcases hasked with hasked | h17
      · exact hfit.readable hasked
      · rcases hfit.tags ((hpos 17 (by omega)).mp h17) with hasked | hnone
        · exact hfit.readable hasked
        · intro t ht
          rw [hnone] at ht
          cases ht
    obtain ⟨tags, htags⟩ := exists_readTags_if hread
    refine ⟨updHead dev name (askWord args dev) tags, ?_, ?_⟩
    · rw [hfields, (readTags_if htags).2, askedFields, headKeywords_inj, h7]
      simp only [Bool.or_false, true_and]
      refine ⟨?_, ?_, ?_⟩
      · rw [or_and_eq_iff]
        exact fun hx => (hfit.handler ((hpos 4 (by omega)).mp hx)).imp_right fun h' => by simp [h']
      · rw [or_and_eq_iff]
        exact fun hx => (hfit.hargs ((hpos 5 (by omega)).mp hx)).imp_right fun h' => by simp [h']
      · rw [or_and_eq_iff]
        exact fun hx => (hfit.tags ((hpos 17 (by omega)).mp hx)).imp_right fun h' => by simp [h']
    · have hwater : (asks args .water || decide (shiftOf (askScale args dev) = 6)) = asks args .water := by
        rw [Bool.or_eq_left_iff_imp, decide_eq_true_eq]
        exact fun hx => hfit.water ((hpos 6 (by omega)).mp hx)
      rw [hreply, if_neg h3, h7, Bool.or_false, Bool.or_false, htags, hwater, hvalue.mpr hfit.value]
      rfl

/-- `cmd_ask_device` writes the text of the reply. -/
theorem cmdAskDevice_reply {args : List PArg} {c : ClientId} {s : Server} {d : DevId} {r : UpdReply}
    (hd : (lastArg .uid args : Option Str).bind s.findDeviceByUid = some d)
    (hr : updReply F (s.dev d) (askWord args (s.dev d)) = .ok (some r)) :
    cmdAskDevice F args c s = .ok { srv := s, out := [.write c (r.render F (s.dev d))] } := by
  unfold cmdAskDevice
  rw [hd]
  dsimp only
  rw [gnUpdateDevice_eq]
  unfold askWord askScale at hr
  rw [hr]
  rfl

/-- A question about a device is answered as it was asked exactly when the bit of its scale is one of the word's and the device
cannot be sent or the scale fits. -/
theorem asksRight_iff {args : List PArg} {s : Server} {d : DevId}
    (hd : (lastArg .uid args : Option Str).bind s.findDeviceByUid = some d) (c : ClientId) :
    AsksRight F args c s d ↔
      ShiftDefined (askScale args (s.dev d)) ∧ ((s.dev d).Complete → AskFits F args (s.dev d)) := by
  constructor
  · rintro ⟨hshift, hreply⟩
    refine ⟨hshift, fun hc => (right_iff_fits F hc hshift).mp ?_⟩
    obtain ⟨head, reply, hhead, rfl, hr, -⟩ := hreply hc
    exact ⟨head, hhead, hr⟩
  · rintro ⟨hshift, hfit⟩
    refine ⟨hshift, fun hc => ?_⟩
    obtain ⟨head, hhead, hr⟩ := (right_iff_fits F hc hshift).mpr (hfit hc)
    exact ⟨head, _, hhead, rfl, hr, cmdAskDevice_reply F hd hr⟩

/-- A server with a thermometer in the attic. -/
def atticServer (scale : BitVec 8) : Server :=
  { dev := fun _ => thermometer scale, devices := Function.update (fun _ => none) (str "attic") (some 0) }

/-- Its temperature in some scale, with the watermarks. -/
def askAttic (scale : BitVec 32) : List PArg := [⟨.uid, str "attic"⟩, ⟨.scale, scale⟩, ⟨.hiwat, (0 : ℚ)⟩]

theorem asksRight_iff_kelvin :
    AsksRight Doubles.exact (askAttic 2) 1 (atticServer 1) 0 ↔ ShiftDefined (askScale (askAttic 2) (thermometer 1)) ∧
      ((thermometer 1).Complete → AskFits Doubles.exact (askAttic 2) (thermometer 1)) :=
  @asksRight_iff Doubles.exact (askAttic 2) (atticServer 1) 0 rfl 1

/-- Asked for the scale -5, it answers in the format for cacti. -/
theorem not_asksRight_cacti : ¬ AsksRight Doubles.exact (askAttic (-5)) 1 (atticServer 0) 0 := by
  intro h
  have hc : (thermometer 0).Complete := ⟨by decide, by decide, by decide, by decide⟩
  obtain ⟨head, reply, -, rfl, hr, -⟩ := h.reply hc
  change updReply Doubles.exact (thermometer 0) (askWord (askAttic (-5)) (thermometer 0)) = _ at hr
  rw [updReply_askWord Doubles.exact hc rfl h.shift, if_pos (by decide)] at hr
  cases hr

end Gnhast
