import Gnhast.Lemmas.Faults
import Gnhast.Lemmas.Values
import Gnhast.Lemmas.Wire

/-!
# Devices over the wire: updates

The value of a device that `gn_update_device` prints, stored by a server in its device of that uid. The sender takes the
keyword from the subtype and the number from the type, and the receiver has a switch over keywords and stores by type and
subtype again. The three agree but for one keyword that the receiver does not store, for one type the sender does not read,
and for switches whose subtype goes with a double.
-/

namespace Gnhast

open CStr

variable (F : Doubles)

/-- The fields of the line. -/
def updRest (dev : Device) (k : Sc) : Str := field .uid dev.uid ++ chSpace :: field k (printData F dev .data id)

theorem gnMaybeScale_self (dev : Device) : gnMaybeScale dev dev.scale.toNat = id := by
  funext q
  rw [gnMaybeScale, if_pos rfl]
  rfl

theorem gnUpdateDevice_noscale {dev : Device} (h : dev.Complete) {k : Sc} (hk : findArgByDev dev = some k) :
    gnUpdateDevice F dev gncNoscale = .ok (some (str "upd" ++ chSpace :: updRest F dev k ++ [chLf])) := by
  obtain ⟨name, hn⟩ := Option.ne_none_iff_exists'.mp h.name
  have hflags : queryBit gncNoscale gncUpdFull = false ∧ queryBit gncNoscale gncUpdCacti = false ∧
      queryBit gncNoscale gncUpdTags = false ∧ queryBit gncNoscale gncUpdName = false ∧
      queryBit gncNoscale gncUpdRrdname = false ∧ queryBit gncNoscale gncUpdHandler = false ∧
      queryBit gncNoscale gncUpdHargs = false ∧ queryBit gncNoscale gncUpdWater = false ∧
      queryBit gncNoscale gncNoscale = true := by
    decide
  obtain ⟨h1, h2, h3, h4, h5, h6, h7, h8, h9⟩ := hflags
  have hc : ¬ (dev.type = 0 ∨ dev.subtype = 0 ∨ dev.proto = 0) := by
    rintro (h' | h' | h')
    · exact h.type h'
    · exact h.subtype h'
    · exact h.proto h'
  have hs1 : str "upd " = str "upd" ++ [chSpace] := rfl
  have hs2 : str " " = [chSpace] := rfl
  simp only [gnUpdateDevice, hn, hc, h1, h2, h3, h4, h5, h6, h7, h8, h9, if_true, if_false, gnMaybeScale_self, argdev, hk,
    Bool.or_self, Bool.false_and, Bool.false_eq_true]
  simp [Except.map, updRest, field, hs1, hs2]

/-! ## The keyword and its value -/

end Gnhast
