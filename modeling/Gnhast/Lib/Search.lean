import Mathlib.Order.Compare
import Mathlib.Data.List.Sort

/-!
# Binary search

The search of the C library: the half-open window of the places where the key can be is halved until an entry with the key is met or
the window is empty. In a table that is sorted by its keys it finds an entry exactly when there is one.
-/

namespace Search

variable {α κ : Type} [LinearOrder κ] (key : α → κ)

/-- `bsearch`, between two places. -/
def bsearch (k : κ) (xs : List α) (l u : Nat) : Option α :=
  if l < u then
    let idx := (l + u) / 2
    match xs[idx]? with
    | none => none
    | some x => if k < key x then bsearch k xs l idx else if key x < k then bsearch k xs (idx + 1) u else some x
  else none
termination_by u - l

variable {key} {k : κ} {xs : List α} {l u : Nat}

/-- What is found is an entry with the key. -/
theorem mem_of_bsearch {x : α} (h : bsearch key k xs l u = some x) : x ∈ xs ∧ key x = k := by
  fun_induction bsearch key k xs l u with
  | case1 | case5 => cases h
  | case2 l u hlt idx y hy hk ih => exact ih h
  | case3 l u hlt idx y hy hk hk' ih => exact ih h
  | case4 l u hlt idx y hy hk hk' =>
    cases h
    exact ⟨List.mem_of_getElem? hy, le_antisymm (not_lt.mp hk) (not_lt.mp hk')⟩

/-- Every place in the window that holds the key stays in it. -/
theorem isSome_bsearch (hs : xs.Pairwise fun a b => key a ≤ key b) (hu : u ≤ xs.length) {i : Nat} (hlen : i < xs.length)
    (hk : key xs[i] = k) (hl : l ≤ i) (hi : i < u) : (bsearch key k xs l u).isSome := by
  have hmono : ∀ {i j : Nat} (hi : i < xs.length) (hj : j < xs.length), i ≤ j → key xs[i] ≤ key xs[j] := by
    intro i j hi hj hij
    rcases Nat.lt_or_eq_of_le hij with hij | rfl
    · exact List.pairwise_iff_getElem.mp hs i j hi hj hij
    · exact le_rfl
  fun_induction bsearch key k xs l u with
  | case1 l u hlt idx hnone =>
    rw [List.getElem?_eq_none_iff] at hnone
    omega
  | case2 l u hlt idx y hy hlt' ih =>
    obtain ⟨hidx, rfl⟩ := List.getElem?_eq_some_iff.mp hy
    refine ih (by omega) hl (Nat.lt_of_not_le fun hle => ?_)
    -- the key is below the entry in the middle, so it is not behind it
    exact absurd (hmono hidx hlen hle) (by rw [hk]; exact not_le.mpr hlt')
  | case3 l u hlt idx y hy _ hlt' ih =>
    obtain ⟨hidx, rfl⟩ := List.getElem?_eq_some_iff.mp hy
    refine ih hu (Nat.lt_of_not_le fun hle => ?_) hi
    exact absurd (hmono hlen hidx hle) (by rw [hk]; exact not_le.mpr hlt')
  | case4 => rfl
  | case5 l u hlt => omega

/-- In a sorted table in which no key stands twice, the entry with a key is found exactly when there is one. -/
theorem bsearch_eq_some_iff (hs : xs.Pairwise fun a b => key a ≤ key b) (hnd : (xs.map key).Nodup) {x : α} :
    bsearch key k xs 0 xs.length = some x ↔ x ∈ xs ∧ key x = k := by
  refine ⟨mem_of_bsearch, ?_⟩
  rintro ⟨hx, hk⟩
  obtain ⟨i, hi, rfl⟩ := List.mem_iff_getElem.mp hx
  obtain ⟨y, hy⟩ := Option.isSome_iff_exists.mp (isSome_bsearch hs le_rfl hi hk (Nat.zero_le i) hi)
  obtain ⟨hmem, hky⟩ := mem_of_bsearch hy
  rw [hy, List.inj_on_of_nodup_map hnd hmem hx (hky.trans hk.symm)]

end Search
