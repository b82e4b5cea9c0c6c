import Gnhast.Lemmas.Steps

/-!
# What `chg` does to the server's data

`cmd_change` only has to forward a request to the collector. But while it prints the arguments, it stores those that are doubles
as the device's current data, before it looks whether there is a collector. So the data stay as they were exactly when the line
has no double, or when the device already holds what the line stores.
-/

namespace Gnhast

open CStr Runs

variable (F : Doubles)

/-- The data, the watermarks and the watchers of a device are what they were, byte by byte. -/
structure SameData (dev dev' : Device) : Prop where
  data : dev'.data.bits F = dev.data.bits F
  last : dev'.last.bits F = dev.last.bits F
  lowat : dev'.lowat.bits F = dev.lowat.bits F
  hiwat : dev'.hiwat.bits F = dev.hiwat.bits F
  nodata : dev'.nodata = dev.nodata
  watchers : dev'.watchers = dev.watchers

/-- No device's data differ. -/
def KeepsData (s s' : Server) : Prop := ∀ d, SameData F (s.dev d) (s'.dev d)

/-- The doubles among the data of a line, in order. -/
def changeDoubles (args : List PArg) : List ℚ :=
  (args.filterMap PArg.dataArg).filterMap fun a => match a with | .d v => some v | _ => none

/-- The current data of a device after doubles were stored one after the other: the last one counts. -/
def overwritten (dev : Device) (vs : List ℚ) : BitVec 64 :=
  match storeMember dev.devType dev.devSubtype, vs.getLast? with
  | some m, some v => (dev.data.assign F m (.dbl v)).bits F
  | _, _ => dev.data.bits F

/-- A line without doubles, or for a device that was updated before and whose current and previous data are what the line
stores. -/
def StoresNothing (args : List PArg) (s : Server) : Prop :=
  ∀ uid d, lastArg .uid args = some uid → s.findDeviceByUid uid = some d →
    changeDoubles args = [] ∨ ((s.dev d).nodata = false ∧
      overwritten F (s.dev d) (changeDoubles args) = (s.dev d).data.bits F ∧
      overwritten F (s.dev d) (changeDoubles args).dropLast = (s.dev d).last.bits F)

theorem SameData.refl (dev : Device) : SameData F dev dev := ⟨rfl, rfl, rfl, rfl, rfl, rfl⟩

theorem storeChange_eq (args : List PArg) (dev : Device) :
    storeChange F args dev = (changeDoubles args).foldl (fun dev v => storeDataDev F .data (.dbl v) dev) dev := by
  unfold storeChange changeDoubles
  induction args.filterMap PArg.dataArg generalizing dev with
  | nil => rfl
  | cons a as ih =>
    rw [List.foldl_cons, ih, List.filterMap_cons]
    cases a with
    | d v => rfl
    | i v => rfl
    | u v => rfl
    | ll v => rfl

/-- Bits under a mask that were taken twice. -/
theorem mask_mask (a b c k : BitVec 64) : (((a &&& ~~~k) ||| (b &&& k)) &&& ~~~k) ||| (c &&& k) = (a &&& ~~~k) ||| (c &&& k) := by
  apply BitVec.eq_of_getLsbD_eq
  intro i hi
  simp only [BitVec.getLsbD_or, BitVec.getLsbD_and, BitVec.getLsbD_not, hi, decide_true, Bool.true_and]
  cases a.getLsbD i <;> cases b.getLsbD i <;> cases c.getLsbD i <;> cases k.getLsbD i <;> rfl

/-- The second of two values assigned to a member counts. -/
theorem bits_assign_assign (m : Member) (dst u v : Word) :
    ((dst.assign F m u).assign F m v).bits F = (dst.assign F m v).bits F := by
  cases m with
  | state => exact mask_mask _ _ _ _
  | count => exact mask_mask _ _ _ _
  | ll => rfl
  | d => rfl

/-- What is assigned to a word depends on its bytes only. -/
theorem bits_assign_congr {m : Member} {dst dst' : Word} (h : dst.bits F = dst'.bits F) (v : Word) :
    (dst.assign F m v).bits F = (dst'.assign F m v).bits F := by
  cases m with
  | state => exact congrArg (fun b => (b &&& ~~~0xff#64) ||| (v.bits F &&& 0xff#64)) h
  | count => exact congrArg (fun b => (b &&& ~~~0xffffffff#64) ||| (v.bits F &&& 0xffffffff#64)) h
  | ll => rfl
  | d => rfl

/-- Storing data leaves the rest of the device alone. -/
structure OnlyData (dev dev' : Device) : Prop where
  lowat : dev'.lowat = dev.lowat
  hiwat : dev'.hiwat = dev.hiwat
  watchers : dev'.watchers = dev.watchers
  type : dev'.type = dev.type
  subtype : dev'.subtype = dev.subtype

theorem onlyData_storeDataDev (w : Word) (dev : Device) : OnlyData dev (storeDataDev F .data w dev) := by
  simp only [storeDataDev, if_true]
  split <;> exact ⟨rfl, rfl, rfl, rfl, rfl⟩

/-- What one double stored does to the data, the previous data and the mark. -/
theorem storeDataDev_data (v : ℚ) (dev : Device) :
    (storeDataDev F .data (.dbl v) dev).data.bits F = overwritten F dev [v] ∧
      (storeDataDev F .data (.dbl v) dev).last = dev.data ∧ (storeDataDev F .data (.dbl v) dev).nodata = false := by
  simp only [storeDataDev, if_true, overwritten]
  have ht : storeMember ({ dev with last := dev.data, nodata := false } : Device).devType
      ({ dev with last := dev.data, nodata := false } : Device).devSubtype = storeMember dev.devType dev.devSubtype := rfl
  rw [ht]
  cases storeMember dev.devType dev.devSubtype <;> exact ⟨rfl, rfl, rfl⟩

/-- The device after several doubles. -/
theorem foldl_storeDataDev (vs : List ℚ) (dev : Device) :
    let dev' := vs.foldl (fun dev v => storeDataDev F .data (.dbl v) dev) dev
    OnlyData dev dev' ∧ dev'.data.bits F = overwritten F dev vs ∧
      (vs ≠ [] → dev'.last.bits F = overwritten F dev vs.dropLast ∧ dev'.nodata = false) := by
  induction vs using List.reverseRecOn with
  | nil =>
    refine ⟨⟨rfl, rfl, rfl, rfl, rfl⟩, ?_, fun h => absurd rfl h⟩
    simp [overwritten]
  | append_singleton vs v ih =>
    obtain ⟨ho, hd, -⟩ := ih
    simp only [List.foldl_append, List.foldl_cons, List.foldl_nil]
    generalize vs.foldl (fun dev v => storeDataDev F .data (.dbl v) dev) dev = dev₁ at ho hd
    have h₁ := onlyData_storeDataDev F (.dbl v) dev₁
    obtain ⟨h2, h3, h4⟩ := storeDataDev_data F v dev₁
    refine ⟨⟨h₁.lowat.trans ho.lowat, h₁.hiwat.trans ho.hiwat, h₁.watchers.trans ho.watchers, h₁.type.trans ho.type,
      h₁.subtype.trans ho.subtype⟩, ?_, fun _ => ⟨?_, h4⟩⟩
    · rw [h2]
      have hm : storeMember dev₁.devType dev₁.devSubtype = storeMember dev.devType dev.devSubtype := by
        rw [Device.devType, Device.devSubtype, ho.type, ho.subtype, Device.devType, Device.devSubtype]
      unfold overwritten at hd ⊢
      rw [hm]
      cases hs : storeMember dev.devType dev.devSubtype with
      | none =>
        rw [hs] at hd
        simpa using hd
      | some m =>
        rw [hs] at hd
        simp only [List.getLast?_singleton, List.getLast?_concat]
        cases hv : vs.getLast? with
        | none =>
          rw [hv] at hd
          exact bits_assign_congr F hd _
        | some u =>
          rw [hv] at hd
          exact (bits_assign_congr F hd _).trans (bits_assign_assign F m _ _ _)
    · rw [h3, hd, List.dropLast_concat]

/-- What a line stores in a device leaves its data as they were exactly when the device holds them already. -/
theorem sameData_storeChange_iff (args : List PArg) (dev : Device) : SameData F dev (storeChange F args dev) ↔
    changeDoubles args = [] ∨ (dev.nodata = false ∧ overwritten F dev (changeDoubles args) = dev.data.bits F ∧
      overwritten F dev (changeDoubles args).dropLast = dev.last.bits F) := by
  rw [storeChange_eq]
  obtain ⟨ho, hd, hl⟩ := foldl_storeDataDev F (changeDoubles args) dev
  by_cases hn : changeDoubles args = []
  · rw [hn]
    exact iff_of_true (SameData.refl F dev) (Or.inl rfl)
  · obtain ⟨hlast, hno⟩ := hl hn
    rw [or_iff_right hn]
    constructor
    · intro h
      exact ⟨h.nodata.symm.trans hno, hd.symm.trans h.data, hlast.symm.trans h.last⟩
    · rintro ⟨h1, h2, h3⟩
      exact ⟨hd.trans h2, hlast.trans h3, by rw [ho.lowat], by rw [ho.hiwat], hno.trans h1.symm, ho.watchers⟩

/-- The devices after a `chg`: the one it names stores the doubles, with and without a collector. -/
theorem cmdChange_dev {args : List PArg} {uid : Str} {d : DevId} {s : Server} (hu : lastArg .uid args = some uid)
    (hf : s.findDeviceByUid uid = some d) (c : ClientId) :
    (cmdChange F args c s).srv = s.modDev d (storeChange F args) := by
  simp only [cmdChange, hu, hf]
  split
  · rfl
  · rfl

/-- A `chg` leaves the data of all devices as they were, in every state and with all its returns, exactly when it names no
device, has no double, or stores what the device holds already. -/
theorem keepsData_iff (args : List PArg) (c : ClientId) (s : Server) :
    KeepsData F s (cmdChange F args c s).srv ↔ StoresNothing F args s := by
  cases hu : (lastArg .uid args : Option Str) with
  | none =>
    refine iff_of_true (fun d => ?_) (fun uid d h => absurd (hu.symm.trans h) (by simp))
    simp only [cmdChange, hu]
    exact SameData.refl F _
  | some uid =>
    cases hf : s.findDeviceByUid uid with
    | none =>
      refine iff_of_true (fun d => ?_) (fun uid' d h h' => ?_)
      · simp only [cmdChange, hu, hf]
        exact SameData.refl F _
      · cases hu.symm.trans h
        exact absurd (hf.symm.trans h') (by simp)
    | some d =>
      rw [cmdChange_dev F hu hf]
      constructor
      · intro h uid' d' h1 h2
        cases hu.symm.trans h1
        cases hf.symm.trans h2
        have hd := h d
        rw [Server.modDev_dev, if_pos rfl] at hd
        exact (sameData_storeChange_iff F args _).mp hd
      · intro h d'
        rw [Server.modDev_dev]
        split
        · rename_i he
          rw [he]
          exact (sameData_storeChange_iff F args _).mpr (h uid d hu hf)
        · exact SameData.refl F _

/-- A dimmer that never got data counts as updated after a `chg`. -/
theorem not_keepsData_dimmer : ∃ s,
    exec (step Doubles.exact) {} [.accept 0 10 0 0 1, .line 0 (str "reg uid:lamp name:Lamp devt:2 proto:1 subt:1") {}] = some s ∧
    ∃ r, react Doubles.exact s (.line 0 (str "chg uid:lamp dimmer:1") {}) = some r ∧ ¬ KeepsData Doubles.exact s r.srv := by
  refine ⟨_, rfl, _, rfl, fun h => ?_⟩
  have hn : false = true := (h 0).nodata
  cases hn

end Gnhast
