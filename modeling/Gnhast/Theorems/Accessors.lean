import Gnhast.Lemmas.Accessors

/-!
# Stored and read again

Three switches over types and subtypes decide how the data of a device are kept: `datatype_dev` announces a C type,
`store_data_dev` stores a variable of that type in a member, and `get_data_dev` reads the member into such a variable. They agree
where the member is as wide as the variable. Where it is a state, the value has to fit in a byte of its variable; a type that
only the store knows, and a subtype that none of the accessors knows, give nothing but zero back.
-/

namespace Gnhast

open CStr

variable (F : Doubles)

/-- The value a variable has when only the first of its bytes is not zero. -/
def DataVal.lowByte : DataVal → DataVal
  | .uint v => .uint (v &&& 0xff)
  | .ll v => .ll (v &&& 0xff)
  | .double v => .double (F.ofBits (F.toBits v &&& 0xff))

/-- A value that is all in the first byte of its variable. -/
def DataVal.OneByte (v : DataVal) : Prop := v.lowByte F = v

instance (v : DataVal) : Decidable (v.OneByte F) := inferInstanceAs (Decidable (_ = _))

/-- A value that is stored comes back into a zeroed variable; the other locations stay as they are, except that new data push the
old data to the last, and the device has data then. -/
structure Agrees (dev : Device) (loc : DataLoc) (v : DataVal) : Prop where
  returns : ∀ beyond, readVar F (datatypeDev dev)
    (getDataDev F (storeDataDev F loc (v.word beyond) dev) loc ((datatypeDev dev).zero.word 0)) = v
  others : ∀ beyond l, l ≠ loc →
    (storeDataDev F loc (v.word beyond) dev).store l = if loc = .data ∧ l = .last then dev.data else dev.store l
  nodata : ∀ beyond, (storeDataDev F loc (v.word beyond) dev).nodata = if loc = .data then false else dev.nodata

/-- The value goes through the accessors of a device: by a member as wide as the variable, by a state it fits in, or because it is
the zero that a variable holds anyway. -/
def GoesThrough (dev : Device) (v : DataVal) : Prop :=
  FullRead dev ∨ (getMember dev.devType dev.devSubtype = some .state ∧ v.OneByte F) ∨ v = (datatypeDev dev).zero

/-- The low byte of a word that got its low byte from another. -/
theorem mask_self (a b m : BitVec 64) : ((a &&& ~~~m) ||| (b &&& m)) &&& m = b &&& m := by
  apply BitVec.eq_of_getLsbD_eq
  intro i hi
  simp only [BitVec.getLsbD_or, BitVec.getLsbD_and, BitVec.getLsbD_not, hi, decide_true, Bool.true_and]
  cases a.getLsbD i <;> cases b.getLsbD i <;> cases m.getLsbD i <;> rfl

theorem bits_zero (t : DataType) : (t.zero.word 0).bits F = 0#64 := by
  cases t with
  | uint | ll => rfl
  | double => exact F.toBits_zero

/-- A variable of which only the first byte was written. -/
theorem readVar_state (v : DataVal) (beyond : BitVec 64) (x : Word) :
    readVar F v.type ((v.type.zero.word 0).assign F .state (x.assign F .state (v.word beyond))) = v.lowByte F := by
  have hbits : ((v.type.zero.word 0).assign F .state (x.assign F .state (v.word beyond))) =
      .raw ((v.word beyond).bits F &&& 0xff#64) := by
    change Word.raw ((_ &&& ~~~0xff#64) ||| (((x.bits F &&& ~~~0xff#64) ||| ((v.word beyond).bits F &&& 0xff#64)) &&& 0xff#64)) = _
    rw [mask_self, bits_zero, BitVec.zero_and, BitVec.zero_or]
  rw [hbits]
  cases v with
  | uint v =>
    refine congrArg DataVal.uint ?_
    change ((((beyond &&& 0xffffffff00000000#64) ||| v.setWidth 64) &&& 0xff#64)).setWidth 32 = v &&& 0xff#32
    rw [BitVec.setWidth_and, BitVec.setWidth_or, BitVec.setWidth_and, show (0xffffffff00000000#64).setWidth 32 = 0#32 from rfl]
    simp
  | ll | double => rfl

/-- Zero is all in the first byte. -/
theorem oneByte_zero (t : DataType) : t.zero.OneByte F := by
  cases t with
  | uint | ll => rfl
  | double =>
    have hz : F.toBits 0 &&& 0xff = 0 := by
      rw [F.toBits_zero]
      decide
    exact congrArg DataVal.double ((congrArg F.ofBits hz).trans F.ofBits_zero)

/-- The accessors agree on a value exactly when it goes through them. -/
theorem agrees_iff {dev : Device} (loc : DataLoc) {v : DataVal} (hv : v.type = datatypeDev dev) :
    Agrees F dev loc v ↔ GoesThrough F dev v := by
  have hothers : ∀ beyond l, l ≠ loc →
      (storeDataDev F loc (v.word beyond) dev).store l = if loc = .data ∧ l = .last then dev.data else dev.store l :=
    fun beyond _ hl => store_storeDataDev F loc (v.word beyond) dev hl
  have hnodata := fun beyond => nodata_storeDataDev F loc (v.word beyond) dev
  have hget : ∀ beyond stack, getDataDev F (storeDataDev F loc (v.word beyond) dev) loc stack =
      (getMember dev.devType dev.devSubtype).elim stack fun m => stack.assign F m ((dev.store loc).assign F m (v.word beyond)) := by
    intro beyond stack
    rw [getDataDev, (types_storeDataDev F loc _ dev).1, (types_storeDataDev F loc _ dev).2, store_storeDataDev_self]
    cases hm : getMember dev.devType dev.devSubtype with
    | none => rfl
    | some m =>
      rw [storeMember_of_getMember hm]
      rfl
  have hreturns : (∀ beyond, readVar F (datatypeDev dev)
      (getDataDev F (storeDataDev F loc (v.word beyond) dev) loc ((datatypeDev dev).zero.word 0)) = v) ↔ GoesThrough F dev v := by
    simp only [hget]
    unfold GoesThrough FullRead
    rcases read_cases dev with h | h | h
    · rw [h]
      refine iff_of_true (fun beyond => ?_) (Or.inl rfl)
      rw [Option.elim_some, readVar_assign, readVar_assign, ← hv]
      exact readVar_word F v beyond
    · rw [h, ← hv]
      have hstate : some Member.state ≠ some v.type.member := by
        intro he
        cases v <;> cases he
      constructor
      · intro hr
        have hr := hr 0
        rw [Option.elim_some, readVar_state] at hr
        exact Or.inr (Or.inl ⟨rfl, hr⟩)
      · intro hc beyond
        rw [Option.elim_some, readVar_state]
        rcases hc with hc | ⟨-, hc⟩ | hc
        · exact absurd hc hstate
        · exact hc
        · have hz := oneByte_zero F v.type
          rw [← hc] at hz
          exact hz
    · rw [h]
      have hz : readVar F (datatypeDev dev) ((datatypeDev dev).zero.word 0) = (datatypeDev dev).zero := by
        have := readVar_word F (datatypeDev dev).zero 0
        cases hd : datatypeDev dev <;> rw [hd] at this <;> exact this
      simp only [Option.elim_none, hz, reduceCtorEq, false_and, false_or]
      exact ⟨fun hr => (hr 0).symm, fun hc _ => hc.symm⟩
  exact ⟨fun ha => hreturns.mp ha.returns, fun hc => ⟨hreturns.mpr hc, hothers, hnodata⟩⟩

/-- A counter of a sensor. -/
theorem agrees_iff_counter : Agrees Doubles.exact { uid := str "meter", type := 3, proto := 1, subtype := 5 } .hiwat
    (.uint 0xfffffffe) :=
  (@agrees_iff Doubles.exact { uid := str "meter", type := 3, proto := 1, subtype := 5 } .hiwat (.uint 0xfffffffe) rfl).mpr
    (Or.inl (by decide))

/-- The position of a blind is stored, and read as zero. -/
theorem not_agrees_blind : ¬ Agrees Doubles.exact { uid := str "blind", type := 5, proto := 1, subtype := 29 } .change
    (.uint 2) := by
  intro h
  have hr := h.returns 0
  revert hr
  decide

end Gnhast
