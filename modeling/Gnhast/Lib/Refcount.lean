import Mathlib.Logic.Function.Basic
import Mathlib.Data.List.Nodup
import Mathlib.Data.List.Count

/-!
# References in the lists of nodes

Nodes have lists of what they refer to, and a reference may stand in a list more than once. `total` counts the references to one
thing over all nodes, and the rules say what it becomes when the list of one node changes, or a node without references joins.
-/

namespace Refcount

variable {ι α : Type} [DecidableEq ι] [DecidableEq α]

/-- The number of references to a thing in the lists of some nodes. -/
def total (nodes : List ι) (out : ι → List α) (a : α) : Nat := (nodes.flatMap out).count a

omit [DecidableEq ι] in
theorem total_cons (n : ι) (nodes : List ι) (out : ι → List α) (a : α) :
    total (n :: nodes) out a = (out n).count a + total nodes out a := by
  rw [total, List.flatMap_cons, List.count_append, total]

theorem total_update_of_notMem {nodes : List ι} {i : ι} (hi : i ∉ nodes) (out : ι → List α) (l : List α) (a : α) :
    total nodes (Function.update out i l) a = total nodes out a := by
  unfold total
  congr 1
  refine List.flatMap_congr fun n hn => ?_
  have hne : n ≠ i := fun he => hi (he ▸ hn)
  rw [Function.update_of_ne hne]

/-- The list of one node is replaced: its references go, and those of the new list come. -/
theorem total_update {nodes : List ι} (hn : nodes.Nodup) {i : ι} (hi : i ∈ nodes) (out : ι → List α) (l : List α) (a : α) :
    total nodes (Function.update out i l) a + (out i).count a = total nodes out a + l.count a := by
  induction nodes with
  | nil => cases hi
  | cons n nodes ih =>
    obtain ⟨hne, hn⟩ := List.nodup_cons.mp hn
    rw [total_cons, total_cons]
    rcases List.mem_cons.mp hi with rfl | hi
    · rw [Function.update_self, total_update_of_notMem hne]
      omega
    · have hin : n ≠ i := fun he => hne (he ▸ hi)
      have := ih hn hi
      rw [Function.update_of_ne hin]
      omega

omit [DecidableEq ι] in
/-- A node without references joins. -/
theorem total_concat_nil (nodes : List ι) {out : ι → List α} {i : ι} (hi : out i = []) (a : α) :
    total (nodes ++ [i]) out a = total nodes out a := by
  rw [total, List.flatMap_append, List.flatMap_cons, hi, List.flatMap_nil, List.nil_append, List.append_nil, total]

omit [DecidableEq ι] in
theorem total_eq_zero_iff {nodes : List ι} {out : ι → List α} {a : α} : total nodes out a = 0 ↔ ∀ n ∈ nodes, a ∉ out n := by
  rw [total, List.count_eq_zero, List.mem_flatMap]
  exact ⟨fun h n hn ha => h ⟨n, hn, ha⟩, fun h ⟨n, hn, ha⟩ => h n hn ha⟩

end Refcount
