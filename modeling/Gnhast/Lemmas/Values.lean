import Gnhast.Lemmas.Memory
import Gnhast.Lib.Double

/-!
# Values that are sent

The value of a device lies in one member of a word. A sender reads it into a local by the device's type and prints it by the
datatype; a receiver stores the number it read in the member. `Transmits` says when the member that is printed is the member
that is stored; then the number arrives, a double up to six decimals. Otherwise what is printed is zero.
-/

namespace Gnhast

open CStr

variable (F : Doubles)

/-! ## Members -/

/-- The number in a member of a word. -/
def Member.value : Member → Word → ℚ
  | .state, w => ((w.bits F).setWidth 8).toNat
  | .count, w => ((w.bits F).setWidth 32).toNat
  | .ll, w => (w.bits F).toInt
  | .d, w => w.double F

/-- The number as it arrives: a double is rounded to six decimals and read back. -/
def Member.sent : Member → ℚ → ℚ
  | .d, q => F.round (round6 q)
  | .state, q | .count, q | .ll, q => q

/-- Bits under a mask, taken from another word. -/
theorem setWidth_mask {n : Nat} {m : BitVec 64} (h1 : (~~~m).setWidth n = 0) (h2 : m.setWidth n = BitVec.allOnes n)
    (a b : BitVec 64) : ((a &&& ~~~m) ||| (b &&& m)).setWidth n = b.setWidth n := by
  rw [BitVec.setWidth_or, BitVec.setWidth_and, BitVec.setWidth_and, h1, h2]
  simp

/-- The low byte of a word. -/
theorem and_low_byte (v : BitVec 64) : v &&& 0xff#64 = (v.setWidth 8).setWidth 64 := by
  refine BitVec.eq_of_toNat_eq ?_
  rw [BitVec.toNat_and, show (0xff#64).toNat = 2 ^ 8 - 1 from rfl, Nat.and_two_pow_sub_one_eq_mod, BitVec.toNat_setWidth,
    BitVec.toNat_setWidth]
  omega

/-- What was assigned to a member is in the member. -/
theorem value_assign (m : Member) (dst src : Word) : m.value F (dst.assign F m src) = m.value F src := by
  cases m with
  | state => exact congrArg (fun v : BitVec 8 => (v.toNat : ℚ)) (setWidth_mask (by decide) (by decide) _ _)
  | count => exact congrArg (fun v : BitVec 32 => (v.toNat : ℚ)) (setWidth_mask (by decide) (by decide) _ _)
  | ll => rfl
  | d => rfl

/-- The current data of a device change to what is stored, in the member that is stored. -/
theorem data_storeDataDev {m : Member} {dev : Device} (h : storeMember dev.devType dev.devSubtype = some m) (w : Word) :
    (storeDataDev F .data w dev).data = dev.data.assign F m w := by
  have h' : storeMember ({ dev with last := dev.data, nodata := false } : Device).devType
      ({ dev with last := dev.data, nodata := false } : Device).devSubtype = some m := h
  simp only [storeDataDev, if_true, h', Device.setStore, Device.store]

/-- Storing a state: it is the low byte. -/
theorem low_storeDataDev {dev : Device} (h : storeMember dev.devType dev.devSubtype = some .state) (w : Word) :
    ((storeDataDev F .data w dev).data.bits F).setWidth 8 = (w.bits F).setWidth 8 := by
  rw [data_storeDataDev F h]
  exact setWidth_mask (by decide) (by decide) _ _

/-! ## Types and datatypes -/

/-- The member that is printed is the member that is stored, and the datatype has room for it. -/
def Transmits (dev : Device) : Prop :=
  dev.devType ≠ .blind ∧ ¬ (dev.devType = .switch ∧ datatypeDev dev = .double)

instance (dev : Device) : Decidable (Transmits dev) := inferInstanceAs (Decidable (_ ∧ _))

/-- The datatype of a subtype goes with its member. -/
theorem subtypeDatatype_of_member {st : DevSubtype} {m : Member} (h : subtypeMember st = some m) :
    subtypeDatatype st = match m with | .state | .count => .uint | .ll => .ll | .d => .double := by
  cases st <;> simp [subtypeMember] at h <;> subst h <;> rfl

/-- What arrives of the word at a location: the sender reads it into a local, and prints the local by the datatype. -/
def arriving (dev : Device) (loc : DataLoc) : Word :=
  match datatypeDev dev with
  | .uint => .raw (((getDataDev F dev loc (.raw 0)).uint F).setWidth 64)
  | .ll => .raw ((getDataDev F dev loc (.raw 0)).int64 F)
  | .double => .dbl (F.round (round6 ((getDataDev F dev loc (.dbl 0)).double F)))

theorem findArgByDev_ne_uid {dev : Device} {k : Sc} (hk : findArgByDev dev = some k) : k ≠ .uid := by
  rintro rfl
  unfold findArgByDev at hk
  split at hk
  · cases hk
  · generalize dev.devSubtype = st at hk
    cases st <;> cases hk

/-- Printing as an `uint32_t` keeps the narrow members. -/
theorem value_uint {m : Member} (hm : m = .state ∨ m = .count) (w : Word) :
    m.value F (.raw ((w.uint F).setWidth 64)) = m.value F w := by
  rcases hm with rfl | rfl
  · have h : (((w.bits F).setWidth 32).setWidth 64).setWidth 8 = (w.bits F).setWidth 8 := by
      rw [BitVec.setWidth_setWidth_of_le _ (by decide), BitVec.setWidth_setWidth_of_le _ (by decide)]
    exact congrArg (fun v : BitVec 8 => (v.toNat : ℚ)) h
  · have h : (((w.bits F).setWidth 32).setWidth 64).setWidth 32 = (w.bits F).setWidth 32 := by
      rw [BitVec.setWidth_setWidth_of_le _ (by decide)]
      simp
    exact congrArg (fun v : BitVec 32 => (v.toNat : ℚ)) h

/-- What arrives has the value that was sent, where the device transmits it. -/
theorem value_arriving {m : Member} {dev : Device} (h : storeMember dev.devType dev.devSubtype = some m)
    (ht : Transmits dev) (loc : DataLoc) : m.value F (arriving F dev loc) = m.sent F (m.value F (dev.store loc)) := by
  obtain ⟨hblind, hswitch⟩ := ht
  have hread : ∀ t, t = dev.devType → t ≠ .blind → getMember t dev.devSubtype = some m := by
    rintro t rfl hb
    rw [← h]
    cases ht : dev.devType <;> first | rfl | exact absurd ht hb
  have hget : ∀ data, getDataDev F dev loc data = data.assign F m (dev.store loc) := by
    intro data
    rw [getDataDev, hread _ rfl hblind]
  unfold arriving
  cases ht : dev.devType with
  | none | other =>
    rw [ht] at h
    cases h
  | blind => exact absurd ht hblind
  | dimmer =>
    rw [ht] at h
    cases h
    rw [datatypeDev, if_pos ht, hget, hget]
    rfl
  | switch =>
    rw [ht] at h
    cases h
    cases hdt : datatypeDev dev with
    | uint =>
      dsimp only
      rw [value_uint F (Or.inl rfl), hget, value_assign]
      rfl
    | ll =>
      dsimp only
      rw [hget]
      exact value_assign F .state _ _
    | double => exact absurd ⟨ht, hdt⟩ hswitch
  | sensor | timer =>
    rw [ht] at h
    have hdt : datatypeDev dev = subtypeDatatype dev.devSubtype := if_neg (by simp [ht])
    rw [hdt, subtypeDatatype_of_member h, hget, hget]
    cases m with
    | state =>
      dsimp only
      rw [value_uint F (Or.inl rfl), value_assign]
      rfl
    | count =>
      dsimp only
      rw [value_uint F (Or.inr rfl), value_assign]
      rfl
    | ll => rfl
    | d => rfl

/-- Zero arrives, where the device does not transmit. -/
theorem value_arriving_zero {m : Member} {dev : Device} (h : storeMember dev.devType dev.devSubtype = some m)
    (ht : ¬ Transmits dev) (loc : DataLoc) : m.value F (arriving F dev loc) = 0 := by
  unfold arriving
  by_cases hb : dev.devType = .blind
  · have hget : ∀ data, getDataDev F dev loc data = data := fun data => by
      rw [getDataDev, hb]
      rfl
    rw [hb] at h
    have hdt : datatypeDev dev = subtypeDatatype dev.devSubtype := if_neg (by simp [hb])
    rw [hdt, subtypeDatatype_of_member h, hget, hget]
    cases m with
    | state => simp [Member.value, Word.uint, Word.bits]
    | count => simp [Member.value, Word.uint, Word.bits]
    | ll => simp [Member.value, Word.int64, Word.bits]
    | d =>
      have hz : F.round (round6 0) = 0 := by rw [round6_zero, F.round_zero]
      exact hz
  · obtain ⟨hs, hd⟩ : dev.devType = .switch ∧ datatypeDev dev = .double := by
      by_contra hn
      exact ht ⟨hb, hn⟩
    rw [hs] at h
    cases h
    -- the state lies in the low byte of a double, which is too small for six decimals
    have hsmall : round6 ((getDataDev F dev loc (.dbl 0)).double F) = 0 := by
      have hlt : ((F.toBits 0 &&& ~~~0xff#64) ||| ((dev.store loc).bits F &&& 0xff#64)).toNat < 256 := by
        have hz : F.toBits 0 &&& ~~~0xff#64 = 0#64 := by simp [F.toBits_zero]
        rw [hz, BitVec.zero_or, BitVec.toNat_and]
        exact Nat.lt_of_le_of_lt Nat.and_le_right (by decide)
      obtain ⟨h0, h1⟩ := F.ofBits_small _ hlt
      rw [getDataDev, hs]
      exact round6_of_small h0 h1
    rw [hd]
    dsimp only
    rw [hsmall, F.round_zero]
    simp [Member.value, Word.bits, F.toBits_zero]

end Gnhast
