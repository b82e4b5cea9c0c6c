import Gnhast.Lemmas.Values

/-!
# Variables that data are read into

The callers of `get_data_dev` and `store_data_dev` pass the address of a variable whose C type goes by the datatype of the
device. `readVar` is the value of such a variable. A read fills the variable only when the member it writes is as wide as the
variable (`FullRead`); a state is one byte of it, and some types write nothing.
-/

namespace Gnhast

open CStr

variable (F : Doubles)

/-- A value of one of the C types that datatypes announce. -/
inductive DataVal
  | uint (v : BitVec 32)
  | ll (v : BitVec 64)
  | double (v : ℚ)
deriving Repr, DecidableEq

/-- The datatype whose variables have a value. -/
def DataVal.type : DataVal → DataType
  | .uint _ => .uint
  | .ll _ => .ll
  | .double _ => .double

/-- A variable with a value; what lies behind an `uint32_t` is not known. -/
def DataVal.word (beyond : BitVec 64) : DataVal → Word
  | .uint v => .raw ((beyond &&& 0xffffffff00000000#64) ||| v.setWidth 64)
  | .ll v => .raw v
  | .double v => .dbl v

/-- The value zero of a datatype. -/
def DataType.zero : DataType → DataVal
  | .uint => .uint 0
  | .ll => .ll 0
  | .double => .double 0

/-- The value of a variable of the C type that a datatype announces. -/
def readVar (t : DataType) (w : Word) : DataVal :=
  match t with
  | .uint => .uint (w.uint F)
  | .ll => .ll (w.int64 F)
  | .double => .double (w.double F)

/-- The member that is as wide as a variable of a datatype. -/
def DataType.member : DataType → Member
  | .uint => .count
  | .ll => .ll
  | .double => .d

/-- A read of the device's data writes the whole variable. -/
def FullRead (dev : Device) : Prop := getMember dev.devType dev.devSubtype = some (datatypeDev dev).member

instance (dev : Device) : Decidable (FullRead dev) := inferInstanceAs (Decidable (_ = _))

/-- A read writes the whole variable, its first byte, or nothing. -/
theorem read_cases (dev : Device) :
    FullRead dev ∨ getMember dev.devType dev.devSubtype = some .state ∨ getMember dev.devType dev.devSubtype = none := by
  unfold FullRead datatypeDev
  cases dev.devType with
  | none | blind | other => exact Or.inr (Or.inr rfl)
  | switch => exact Or.inr (Or.inl rfl)
  | dimmer => exact Or.inl rfl
  | sensor | timer =>
    simp only [reduceCtorEq, if_false, getMember]
    cases dev.devSubtype with
    | switch | weather | alarmstatus | thmode | thstate | smnumber | collector | blind | daylight | tristate =>
      exact Or.inr (Or.inl rfl)
    | none | outlet | hub | bool | other => exact Or.inr (Or.inr rfl)
    | _ => exact Or.inl rfl

/-- What is read was stored in the same member. -/
theorem storeMember_of_getMember {t : DevType} {st : DevSubtype} {m : Member} (h : getMember t st = some m) :
    storeMember t st = some m := by
  cases t with
  | none | blind | other => cases h
  | switch | dimmer | sensor | timer => exact h

/-- A variable that is written as a whole has the value of what was written. -/
theorem readVar_assign (t : DataType) (dst src : Word) : readVar F t (dst.assign F t.member src) = readVar F t src := by
  cases t with
  | uint => exact congrArg DataVal.uint (setWidth_mask (by decide) (by decide) _ _)
  | ll | double => rfl

theorem readVar_word (v : DataVal) (beyond : BitVec 64) : readVar F v.type (v.word beyond) = v := by
  cases v with
  | uint v =>
    refine congrArg DataVal.uint ?_
    change ((beyond &&& 0xffffffff00000000#64) ||| v.setWidth 64).setWidth 32 = v
    rw [BitVec.setWidth_or, BitVec.setWidth_and, show (0xffffffff00000000#64).setWidth 32 = 0#32 from rfl]
    simp
  | ll | double => rfl

/-- A full read gives the value that is stored, whatever the variable held before. -/
theorem readVar_getDataDev {dev : Device} (h : FullRead dev) (loc : DataLoc) (stack : Word) :
    readVar F (datatypeDev dev) (getDataDev F dev loc stack) = readVar F (datatypeDev dev) (dev.store loc) := by
  rw [getDataDev, h]
  exact readVar_assign F _ _ _

/-- What a full read leaves of the three kinds of locals. -/
theorem get_fullRead {dev : Device} (h : FullRead dev) (loc : DataLoc) (stack : Word) :
    match datatypeDev dev with
    | .uint => (getDataDev F dev loc stack).uint F = (dev.store loc).uint F
    | .ll => (getDataDev F dev loc stack).int64 F = (dev.store loc).int64 F
    | .double => (getDataDev F dev loc stack).double F = (dev.store loc).double F := by
  have hr := readVar_getDataDev F h loc stack
  cases hd : datatypeDev dev <;> rw [hd] at hr
  · exact DataVal.uint.inj hr
  · exact DataVal.double.inj hr
  · exact DataVal.ll.inj hr

/-! ## What a store changes -/

/-- The device that `store_data_dev` writes a member of. -/
def prepared (loc : DataLoc) (dev : Device) : Device :=
  if loc = .data then { dev with last := dev.data, nodata := false } else dev

theorem prepared_type (loc : DataLoc) (dev : Device) :
    (prepared loc dev).devType = dev.devType ∧ (prepared loc dev).devSubtype = dev.devSubtype := by
  unfold prepared
  split <;> exact ⟨rfl, rfl⟩

theorem setStore_store (dev : Device) (loc l : DataLoc) (w : Word) :
    (dev.setStore loc w).store l = if l = loc then w else dev.store l := by
  cases loc <;> cases l <;> rfl

theorem prepared_store (loc l : DataLoc) (dev : Device) :
    (prepared loc dev).store l = if loc = .data ∧ l = .last then dev.data else dev.store l := by
  cases loc <;> cases l <;> rfl

/-- A store leaves every location but its own, except that new data push the old data to the last. -/
theorem store_storeDataDev (loc : DataLoc) (w : Word) (dev : Device) {l : DataLoc} (hl : l ≠ loc) :
    (storeDataDev F loc w dev).store l = if loc = .data ∧ l = .last then dev.data else dev.store l := by
  have hp : storeDataDev F loc w dev = (storeMember dev.devType dev.devSubtype).elim (prepared loc dev)
      fun m => (prepared loc dev).setStore loc (((prepared loc dev).store loc).assign F m w) := by
    rw [← (prepared_type loc dev).1, ← (prepared_type loc dev).2]
    unfold storeDataDev
    cases loc <;> dsimp only [prepared, reduceCtorEq, if_true, if_false] <;> split <;> rename_i hm <;> rw [hm] <;> rfl
  rw [hp]
  cases storeMember dev.devType dev.devSubtype with
  | none => exact prepared_store loc l dev
  | some m => rw [Option.elim_some, setStore_store, if_neg hl, prepared_store]

theorem nodata_storeDataDev (loc : DataLoc) (w : Word) (dev : Device) :
    (storeDataDev F loc w dev).nodata = if loc = .data then false else dev.nodata := by
  have hset : ∀ (dev : Device) (w : Word), (dev.setStore loc w).nodata = dev.nodata := by
    intro dev w
    cases loc <;> rfl
  simp only [storeDataDev]
  split <;> split <;> first | rfl | exact hset _ _

/-- What a store leaves at its own location. -/
theorem store_storeDataDev_self (loc : DataLoc) (w : Word) (dev : Device) :
    (storeDataDev F loc w dev).store loc =
      match storeMember dev.devType dev.devSubtype with
      | some m => (dev.store loc).assign F m w
      | none => dev.store loc := by
  cases loc with
  | data =>
    have hm : storeMember ({ dev with last := dev.data, nodata := false } : Device).devType
        ({ dev with last := dev.data, nodata := false } : Device).devSubtype = storeMember dev.devType dev.devSubtype := rfl
    simp only [storeDataDev, if_true, hm]
    cases storeMember dev.devType dev.devSubtype <;> rfl
  | last | lowat | hiwat | change =>
    simp only [storeDataDev, reduceCtorEq, if_false]
    cases storeMember dev.devType dev.devSubtype <;> rfl

theorem types_storeDataDev (loc : DataLoc) (w : Word) (dev : Device) :
    (storeDataDev F loc w dev).devType = dev.devType ∧ (storeDataDev F loc w dev).devSubtype = dev.devSubtype := by
  have h := links_storeDataDev F loc w dev
  have h1 := congrArg (fun l : Device => l.type) h
  have h2 := congrArg (fun l : Device => l.subtype) h
  exact ⟨congrArg DevType.ofByte h1, congrArg DevSubtype.ofByte h2⟩

theorem datatype_storeDataDev (loc : DataLoc) (w : Word) (dev : Device) :
    datatypeDev (storeDataDev F loc w dev) = datatypeDev dev := by
  rw [datatypeDev, (types_storeDataDev F loc w dev).1, (types_storeDataDev F loc w dev).2]
  rfl

end Gnhast
