import Gnhast.Lemmas.Memory

/-!
# Handlers that come to an end

Which handlers can stop with a fault, and on what. An update that is printed without the CACTI, TAGS and FULL flags reads
nothing that may be missing, so the handlers that only print such updates always leave a reply.
-/

namespace Gnhast

open CStr

variable (F : Doubles)

/-! ## Updates -/

/-- The flags that make `gn_update_device` read a string or an array that may be missing. -/
theorem plain_updName_updRrdname :
    queryBit (gncUpdName ||| gncUpdRrdname) gncUpdCacti = false ∧ queryBit (gncUpdName ||| gncUpdRrdname) gncUpdTags = false ∧
      queryBit (gncUpdName ||| gncUpdRrdname) gncUpdFull = false := by
  decide

theorem plain_updRrdname :
    queryBit gncUpdRrdname gncUpdCacti = false ∧ queryBit gncUpdRrdname gncUpdTags = false ∧
      queryBit gncUpdRrdname gncUpdFull = false := by
  decide

theorem runHandlerDev_ok (env : Env) (d : DevId) (s : Server) :
    ∃ s' out, runHandlerDev F env d s = .ok (s', out) ∧ s'.dev = s.dev ∧ s'.devices = s.devices := by
  unfold runHandlerDev
  split
  · exact ⟨s, [], rfl, rfl, rfl⟩
  · split
    · obtain ⟨h1, h2, h3⟩ := plain_updName_updRrdname
      obtain ⟨line, hl⟩ := gnUpdateDevice_plain F (s.dev d) h1 h2 h3
      rw [hl]
      exact ⟨_, _, rfl, rfl, rfl⟩
    · exact ⟨s, [], rfl, rfl, rfl⟩

theorem runHandlerOnUpdate_ok (env : Env) (d : DevId) (hadnodata : Bool) (s : Server) :
    ∃ s' out, runHandlerOnUpdate F env d hadnodata s = .ok (s', out) ∧ s'.dev = s.dev ∧ s'.devices = s.devices := by
  unfold runHandlerOnUpdate
  split
  · exact runHandlerDev_ok F env d s
  · exact ⟨s, [], rfl, rfl, rfl⟩

theorem updateEach_ok (dev : Device) (cs : List ClientId) : ∃ told, updateEach F dev gncUpdRrdname cs = .ok told := by
  obtain ⟨h1, h2, h3⟩ := plain_updRrdname
  obtain ⟨line, hl⟩ := gnUpdateDevice_plain F dev h1 h2 h3
  exact ⟨_, by rw [updateEach, hl]; rfl⟩

/-- `cmd_update` for a device that is known stores the data of the line in the device. -/
theorem cmdUpdate_known (env : Env) {args : List PArg} (c : ClientId) {s : Server} {uid : Str} {d : DevId}
    (hu : lastArg .uid args = some uid) (hf : s.findDeviceByUid uid = some d) :
    ∃ r, cmdUpdate F env args c s = .ok r ∧ r.ret = some 0 ∧ r.srv.dev = (s.modDev d (storeArgs F args)).dev ∧
      r.srv.devices = s.devices := by
  obtain ⟨s', out, h1, hdev, htree⟩ := runHandlerOnUpdate_ok F env d (s.dev d).nodata (s.modDev d (storeArgs F args))
  obtain ⟨told, h2⟩ := updateEach_ok F (s'.dev d) (s'.dev d).watchers
  refine ⟨{ srv := s', out := out ++ told }, ?_, rfl, hdev, htree⟩
  simp only [cmdUpdate, hu, hf, h1]
  exact Except.bind_eq_ok.mpr ⟨_, rfl, Except.bind_eq_ok.mpr ⟨_, h2, rfl⟩⟩

/-- `cmd_update` for a device that is not known is refused. -/
theorem cmdUpdate_unknown (env : Env) {args : List PArg} (c : ClientId) {s : Server}
    (h : ∀ uid, lastArg .uid args = some uid → s.findDeviceByUid uid = none) :
    cmdUpdate F env args c s = .ok { srv := s, ret := some (-1) } := by
  cases hu : (lastArg .uid args : Option Str) with
  | none => simp only [cmdUpdate, hu]
  | some uid => simp only [cmdUpdate, hu, h uid hu]

end Gnhast
