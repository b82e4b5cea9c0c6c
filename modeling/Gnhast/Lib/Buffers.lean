import Mathlib.Data.List.Infix
import Mathlib.Data.Vector.Basic

/-!
# Buffers

What programs do with the bytes of a buffer: the search for the first occurrence of a needle, and the copy of the front of a text to an
array whose other elements stay as they were.
-/

namespace Buffers

variable {α : Type}

/-! ## The first occurrence -/

section Strstr

variable [DecidableEq α] {needle : List α}

/-- `strstr`: the place of the first occurrence. -/
def strstr (needle : List α) : List α → Option Nat
  | [] => if needle = [] then some 0 else none
  | c :: s => if needle.isPrefixOf (c :: s) then some 0 else (strstr needle s).map (· + 1)

/-- What is found is an occurrence. -/
theorem prefix_of_strstr {s : List α} {i : Nat} (h : strstr needle s = some i) : needle <+: s.drop i := by
  induction s generalizing i with
  | nil =>
    unfold strstr at h
    split at h
    · rename_i hn
      rw [hn]
      exact List.nil_prefix
    · cases h
  | cons c s ih =>
    unfold strstr at h
    split at h
    · rename_i hp
      cases h
      exact List.isPrefixOf_iff_prefix.mp hp
    · obtain ⟨j, hj, rfl⟩ := Option.map_eq_some_iff.mp h
      rw [List.drop_succ_cons]
      exact ih hj

/-- An occurrence lies within the text. -/
theorem add_length_le_of_strstr {s : List α} {i : Nat} (h : strstr needle s = some i) (hne : needle ≠ []) :
    i + needle.length ≤ s.length := by
  have hlen := (prefix_of_strstr h).length_le
  have hpos := List.length_pos_iff.mpr hne
  rw [List.length_drop] at hlen
  omega

/-- The characters of an occurrence are those of the needle. -/
theorem getElem?_of_strstr {s : List α} {i : Nat} (h : strstr needle s = some i) {k : Nat} (hk : k < needle.length) :
    s[i + k]? = some needle[k] := by
  rw [← List.getElem?_drop]
  exact (List.prefix_iff_getElem?.mp (prefix_of_strstr h)) k hk

end Strstr

/-! ## Copies -/

/-- The first `n` elements of a text are copied to the front of an array. -/
def overlay {m : Nat} (src : List α) (n : Nat) (dst : Vector α m) : Vector α m :=
  Vector.ofFn fun i => if i.val < n then src.getD i dst[i] else dst[i]

theorem getElem_overlay {m : Nat} {src : List α} {n : Nat} {dst : Vector α m} {i : Nat} (hi : i < m) (hn : i < n)
    (hs : i < src.length) : (overlay src n dst)[i] = src[i] := by
  unfold overlay
  rw [Vector.getElem_ofFn, if_pos hn]
  simp [hs]

theorem take_overlay {m : Nat} {src : List α} {n : Nat} (hs : n ≤ src.length) (hm : n ≤ m) (dst : Vector α m) :
    (overlay src n dst).toList.take n = src.take n := by
  refine List.ext_getElem (by simp; omega) fun i hi hi' => ?_
  simp only [List.length_take, Vector.length_toList] at hi hi'
  rw [List.getElem_take, List.getElem_take, Vector.getElem_toList]
  exact getElem_overlay (by omega) (by omega) (by omega)

end Buffers
