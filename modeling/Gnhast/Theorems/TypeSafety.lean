import Gnhast.Lemmas.Accessors
import Gnhast.Lemmas.Faults
import Gnhast.Lib.Runs

/-!
# Keywords and devices

`cmd_update` has one case for every data keyword, and all of them pass a pointer into the argument to `store_data_dev`. Which
member of the argument is read is decided by the type of the device, and the keyword is not looked at. An argument is safe when
its keyword is the one the device's value is sent under and its value fits in the member, or when it brings what the device
holds already.
-/

namespace Gnhast

open CStr Runs

variable (F : Doubles)

/-- One turn of the loop of `cmd_update` over the arguments. -/
def storeArg (dev : Device) (a : PArg) : Device :=
  match a.dataArg with
  | some v => storeDataDev F .data v.word dev
  | none => dev

/-- The loop, as a run that takes the arguments one after the other. -/
def argStep (dev : Device) (a : PArg) : Option Device := some (storeArg F dev a)

/-- The number an argument carries. -/
def DataArg.number : DataArg → ℚ
  | .i v => v.toInt
  | .d v => v
  | .u v => v.toNat
  | .ll v => v.toInt

/-- The data change only through an argument with the keyword of the device, and then to its value; an argument with another
keyword leaves the data and the last data as they are. -/
structure TypeSafe (dev : Device) (a : PArg) : Prop where
  through : (storeArg F dev a).data.bits F ≠ dev.data.bits F → findArgByDev dev = some a.cword ∧
    ∃ v m, a.dataArg = some v ∧ storeMember dev.devType dev.devSubtype = some m ∧ m.value F (storeArg F dev a).data = v.number
  others : findArgByDev dev ≠ some a.cword →
    (storeArg F dev a).data.bits F = dev.data.bits F ∧ (storeArg F dev a).last.bits F = dev.last.bits F

/-- Storing an argument leaves the data of a device as they are. -/
def Holds (dev : Device) (v : DataArg) : Prop :=
  ∀ m, storeMember dev.devType dev.devSubtype = some m → (dev.data.assign F m v.word).bits F = dev.data.bits F

/-- The number of an argument is that of the member it is read as. -/
def ReadAsMeant (dev : Device) (v : DataArg) : Prop :=
  ∀ m, storeMember dev.devType dev.devSubtype = some m → m.value F v.word = v.number

/-- An argument with data has the device's keyword and is read as it is meant, or the device holds what it brings. -/
def ArgFits (dev : Device) (a : PArg) : Prop :=
  ∀ v, a.dataArg = some v →
    if findArgByDev dev = some a.cword then ReadAsMeant F dev v ∨ Holds F dev v
    else Holds F dev v ∧ dev.data.bits F = dev.last.bits F

/-- What storing new data does to the data and the last data. -/
theorem storeDataDev_spec (w : Word) (dev : Device) :
    (storeDataDev F .data w dev).last = dev.data ∧
      (storeDataDev F .data w dev).data =
        match storeMember dev.devType dev.devSubtype with
        | some m => dev.data.assign F m w
        | none => dev.data :=
  ⟨store_storeDataDev F .data w dev (l := .last) (by decide), store_storeDataDev_self F .data w dev⟩

/-- The device holds what an argument brings exactly when the data are not changed by it. -/
theorem holds_iff (dev : Device) (v : DataArg) :
    Holds F dev v ↔ (storeDataDev F .data v.word dev).data.bits F = dev.data.bits F := by
  rw [(storeDataDev_spec F v.word dev).2]
  unfold Holds
  cases storeMember dev.devType dev.devSubtype with
  | none => simp
  | some m => simp

/-- One turn is safe exactly when the argument fits. -/
theorem typeSafe_iff (dev : Device) (a : PArg) : TypeSafe F dev a ↔ ArgFits F dev a := by
  unfold ArgFits
  cases ha : a.dataArg with
  | none =>
    have hs : storeArg F dev a = dev := by
      rw [storeArg, ha]
    refine iff_of_true ⟨fun hne => absurd ?_ hne, fun _ => ?_⟩ (fun v hv => nomatch hv)
    · rw [hs]
    · rw [hs]
      exact ⟨rfl, rfl⟩
  | some v =>
    have hs : storeArg F dev a = storeDataDev F .data v.word dev := by
      rw [storeArg, ha]
    obtain ⟨hlast, hdata⟩ := storeDataDev_spec F v.word dev
    constructor
    · intro h w hw
      cases hw
      split
      · by_cases hd : (storeArg F dev a).data.bits F = dev.data.bits F
        · rw [hs] at hd
          exact Or.inr ((holds_iff F dev v).mpr hd)
        · obtain ⟨-, v', m, hv', hm, hval⟩ := h.through hd
          cases ha.symm.trans hv'
          refine Or.inl fun m' hm' => ?_
          cases hm.symm.trans hm'
          rw [hs, hdata, hm] at hval
          dsimp only at hval
          rw [value_assign] at hval
          exact hval
      · rename_i hk
        obtain ⟨h1, h2⟩ := h.others hk
        rw [hs] at h1 h2
        rw [hlast] at h2
        exact ⟨(holds_iff F dev v).mpr h1, h2⟩
    · intro h
      have h := h v rfl
      constructor
      · intro hne
        rw [hs] at hne ⊢
        have hn : ¬ Holds F dev v := fun hh => hne ((holds_iff F dev v).mp hh)
        split at h
        · rename_i hk
          rcases h with h | h
          · cases hm : storeMember dev.devType dev.devSubtype with
            | none =>
              rw [hdata, hm] at hne
              exact absurd rfl hne
            | some m =>
              refine ⟨hk, v, m, ha, rfl, ?_⟩
              rw [hdata, hm]
              dsimp only
              rw [value_assign]
              exact h m hm
          · exact absurd h hn
        · exact absurd h.1 hn
      · intro hk
        rw [if_neg hk] at h
        rw [hs, hlast]
        exact ⟨(holds_iff F dev v).mp h.1, h.2⟩

/-- The loop of `cmd_update` is the run. -/
theorem exec_argStep (args : List PArg) (dev : Device) : exec (argStep F) dev args = some (storeArgs F args dev) := by
  induction args generalizing dev with
  | nil => rfl
  | cons a args ih =>
    rw [exec_cons_eq_some]
    refine ⟨storeArg F dev a, rfl, ?_⟩
    rw [ih, storeArgs, storeArgs, storeArg, List.filterMap_cons]
    cases a.dataArg <;> rfl

/-- `cmd_update` stores the arguments of a line in the device one after the other and in no other device, and every one of them
is safe exactly when every one fits the device as it is then. -/
theorem update_typeSafe_iff (env : Env) {args : List PArg} (c : ClientId) {s : Server} {uid : Str} {d : DevId}
    (hu : lastArg .uid args = some uid) (hf : s.findDeviceByUid uid = some d) :
    (∃ r, cmdUpdate F env args c s = .ok r ∧ exec (argStep F) (s.dev d) args = some (r.srv.dev d) ∧
      ∀ d' ≠ d, r.srv.dev d' = s.dev d') ∧
    (Along (argStep F) (TypeSafe F) (s.dev d) args ↔ Along (argStep F) (ArgFits F) (s.dev d) args) := by
  constructor
  · obtain ⟨r, hr, -, hdev, -⟩ := cmdUpdate_known F env c hu hf
    refine ⟨r, hr, ?_, fun d' hd' => ?_⟩
    · rw [exec_argStep, hdev, Server.modDev_dev, if_pos rfl]
    · rw [hdev, Server.modDev_dev, if_neg hd']
  · exact along_congr_of (I := fun _ => True) (Q := fun _ => True) (fun _ _ _ _ _ _ => trivial)
      (fun dev a _ _ _ _ => typeSafe_iff F dev a) trivial (fun _ _ => trivial)

theorem update_typeSafe_iff_counter :
    Along (argStep Doubles.exact) (TypeSafe Doubles.exact) { uid := str "meter", type := 3, proto := 1, subtype := 5 }
      [⟨.uid, str "meter"⟩, ⟨.count, 7#32⟩] := by
  refine (@update_typeSafe_iff Doubles.exact {} [⟨.uid, str "meter"⟩, ⟨.count, 7#32⟩] 0
    { dev := fun _ => { uid := str "meter", type := 3, proto := 1, subtype := 5 }
      devices := Function.update (fun _ => none) (str "meter") (some 0) } (str "meter") 0 rfl rfl).2.mpr ?_
  intro dev hd
  refine ⟨fun v hv => (nomatch hv), fun dev' hd' => ⟨fun v hv => ?_, trivial⟩⟩
  cases hd
  cases hv
  refine Or.inl fun m hm => ?_
  cases hm
  decide

/-- The number of a switch becomes a temperature. -/
theorem not_typeSafe_switch :
    ¬ Along (argStep Doubles.exact) (TypeSafe Doubles.exact) { uid := str "attic", type := 3, proto := 1, subtype := 3 }
      [⟨.uid, str "attic"⟩, ⟨.switch, 1#32⟩] := by
  intro h
  have hs := ((h _ rfl).2 _ rfl).1
  have hk : findArgByDev { uid := str "attic", type := 3, proto := 1, subtype := 3 } = some Sc.switch :=
    (hs.through (by decide)).1
  revert hk
  decide

end Gnhast
