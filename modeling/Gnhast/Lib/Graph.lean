import Mathlib.Order.WellFoundedSet
import Mathlib.Logic.Relation
import Mathlib.Logic.Function.Basic

/-!
# Graphs given by lists of successors

A walk down a graph that marks no vertices ends exactly when no cycle can be reached; in a graph with finitely many inner
vertices and no cycle every walk ends (`halts_of_acyclic`). Replacing the successors of one vertex keeps a graph free of cycles
exactly when the vertex cannot be reached from one of its new successors (`acyclic_update_iff`).
-/

namespace Graph

open Relation

variable {α : Type} (out : α → List α)

/-- One vertex is a successor of another. -/
def Edge (a b : α) : Prop := b ∈ out a

/-- No vertex is reached from itself. -/
def Acyclic : Prop := ∀ a, ¬ TransGen (Edge out) a a

/-- All walks from a vertex end before a depth. -/
def Halts : Nat → α → Prop
  | 0, _ => False
  | n + 1, a => ∀ b ∈ out a, Halts n b

variable {out}

theorem Halts.succ {n : Nat} {a : α} (h : Halts out n a) : Halts out (n + 1) a := by
  induction n generalizing a with
  | zero => exact h.elim
  | succ n ih => exact fun b hb => ih (h b hb)

theorem Halts.mono {n m : Nat} {a : α} (h : Halts out n a) (hnm : n ≤ m) : Halts out m a := by
  induction hnm with
  | refl => exact h
  | step _ ih => exact ih.succ

/-- Walks from finitely many vertices, each of which ends, end before a common depth. -/
theorem halts_bound {bs : List α} (h : ∀ b ∈ bs, ∃ n, Halts out n b) : ∃ n, ∀ b ∈ bs, Halts out n b := by
  induction bs with
  | nil => exact ⟨0, by simp⟩
  | cons b bs ih =>
    obtain ⟨n, hn⟩ := h b List.mem_cons_self
    obtain ⟨m, hm⟩ := ih (fun b' hb' => h b' (List.mem_cons_of_mem _ hb'))
    refine ⟨max n m, fun b' hb' => ?_⟩
    rcases List.mem_cons.mp hb' with rfl | hb'
    · exact hn.mono (le_max_left _ _)
    · exact (hm b' hb').mono (le_max_right _ _)

theorem halts_of_successors {a : α} (h : ∀ b ∈ out a, ∃ n, Halts out n b) : ∃ n, Halts out n a := by
  obtain ⟨n, hn⟩ := halts_bound h
  exact ⟨n + 1, hn⟩

/-- Walks down a graph without cycles end. -/
theorem halts_of_acyclic (h : Acyclic out) (S : List α) (hS : ∀ a, a ∉ S → out a = []) (a : α) : ∃ n, Halts out n a := by
  have hleaf : ∀ a, a ∉ S → ∃ n, Halts out n a := fun a ha => halts_of_successors (by simp [hS a ha])
  let r : α → α → Prop := fun b a => TransGen (Edge out) a b
  have : IsStrictOrder α r := { irrefl := h, trans := fun _ _ _ h1 h2 => TransGen.trans h2 h1 }
  have hwf : {a | a ∈ S}.WellFoundedOn r := Set.Finite.wellFoundedOn (List.finite_toSet S)
  by_cases ha : a ∈ S
  · refine hwf.induction (P := fun a => ∃ n, Halts out n a) ha fun a _ ih => halts_of_successors fun b hb => ?_
    by_cases hbS : b ∈ S
    · exact ih b hbS (TransGen.single hb)
    · exact hleaf b hbS
  · exact hleaf a ha

/-- Where all walks end, the walk does not come back. -/
theorem acyclic_of_halts (h : ∀ a, ∃ n, Halts out n a) : Acyclic out := by
  have key : ∀ n a, Halts out n a → ¬ TransGen (Edge out) a a := by
    intro n
    induction n with
    | zero => exact fun a ha => ha.elim
    | succ n ih =>
      intro a ha hc
      -- a cycle through a vertex is also one through its first successor on it
      obtain ⟨b, hab, hba⟩ := TransGen.head'_iff.mp hc
      exact ih b (ha b hab) (TransGen.tail'_iff.mpr ⟨a, hba, hab⟩)
  intro a
  obtain ⟨n, hn⟩ := h a
  exact key n a hn

section Related

variable {β : Type} {out' : β → List β} {R : α → β → Prop}

/-- A path in a graph whose edges are those of another under a relation is a path in the other. -/
theorem trans_of_related (hR : ∀ a x y, R a x → R a y → x = y)
    (he : ∀ a b, Edge out a b → ∃ x y, R a x ∧ R b y ∧ Edge out' x y) {a b : α} (h : TransGen (Edge out) a b) :
    ∃ x y, R a x ∧ R b y ∧ TransGen (Edge out') x y := by
  induction h with
  | single hab =>
    obtain ⟨x, y, hx, hy, hxy⟩ := he _ _ hab
    exact ⟨x, y, hx, hy, TransGen.single hxy⟩
  | tail _ hbc ih =>
    obtain ⟨x, y, hx, hy, hxy⟩ := ih
    obtain ⟨y', z, hy', hz, hyz⟩ := he _ _ hbc
    rw [hR _ _ _ hy' hy] at hyz
    exact ⟨x, z, hx, hz, hxy.tail hyz⟩

/-- Graphs whose vertices correspond have cycles together. -/
theorem acyclic_iff_of_related (hR : ∀ a x y, R a x → R a y → x = y) (hL : ∀ a b x, R a x → R b x → a = b)
    (he : ∀ a b, Edge out a b → ∃ x y, R a x ∧ R b y ∧ Edge out' x y)
    (he' : ∀ x y, Edge out' x y → ∃ a b, R a x ∧ R b y ∧ Edge out a b) : Acyclic out ↔ Acyclic out' := by
  constructor
  · intro h x hx
    obtain ⟨a, b, ha, hb, hab⟩ := trans_of_related (R := fun x a => R a x) (fun x a b h1 h2 => hL a b x h1 h2) he' hx
    rw [hL _ _ _ hb ha] at hab
    exact h a hab
  · intro h a ha
    obtain ⟨x, y, hx, hy, hxy⟩ := trans_of_related hR he ha
    rw [hR _ _ _ hy hx] at hxy
    exact h x hxy

end Related

variable [DecidableEq α] {v : α} {xs : List α}

/-- A path to a vertex does not need the successors of that vertex. -/
theorem reach_update {a : α} (h : ReflTransGen (Edge out) a v) : ReflTransGen (Edge (Function.update out v xs)) a v := by
  induction h using ReflTransGen.head_induction_on with
  | refl => exact ReflTransGen.refl
  | @head a b hab _ ih =>
    by_cases ha : a = v
    · rw [ha]
    · have hab' : Edge (Function.update out v xs) a b := by rwa [Edge, Function.update_of_ne ha]
      exact ih.head hab'

theorem reach_update_iff {a : α} : ReflTransGen (Edge (Function.update out v xs)) a v ↔ ReflTransGen (Edge out) a v := by
  refine ⟨fun h => ?_, reach_update⟩
  have : ReflTransGen (Edge (Function.update (Function.update out v xs) v (out v))) a v := reach_update h
  rwa [Function.update_idem, Function.update_eq_self] at this

/-- A path in the new graph is a path in the old one, or goes through a new edge. -/
theorem trans_update {a b : α} (h : TransGen (Edge (Function.update out v xs)) a b) :
    TransGen (Edge out) a b ∨ (ReflTransGen (Edge (Function.update out v xs)) a v ∧
      ∃ x ∈ xs, ReflTransGen (Edge (Function.update out v xs)) x b) := by
  have hedge : ∀ {b c}, Edge (Function.update out v xs) b c → (Edge out b c ∧ b ≠ v) ∨ (b = v ∧ c ∈ xs) := by
    intro b c hbc
    by_cases hb : b = v
    · rw [Edge, hb, Function.update_self] at hbc
      exact Or.inr ⟨hb, hbc⟩
    · rw [Edge, Function.update_of_ne hb] at hbc
      exact Or.inl ⟨hbc, hb⟩
  induction h with
  | single hab =>
    obtain ⟨hab, -⟩ | ⟨rfl, hx⟩ := hedge hab
    · exact Or.inl (TransGen.single hab)
    · exact Or.inr ⟨ReflTransGen.refl, _, hx, ReflTransGen.refl⟩
  | tail hab hbc ih =>
    obtain ⟨h1, -⟩ | ⟨rfl, hx⟩ := hedge hbc
    · obtain ih | ⟨h2, x, hx, h3⟩ := ih
      · exact Or.inl (ih.tail h1)
      · exact Or.inr ⟨h2, x, hx, h3.tail hbc⟩
    · exact Or.inr ⟨hab.to_reflTransGen, _, hx, ReflTransGen.refl⟩

/-- Replacing the successors of a vertex in a graph without cycles makes no cycle exactly when the vertex is reached from none of
the new ones. -/
theorem acyclic_update_iff (h : Acyclic out) :
    Acyclic (Function.update out v xs) ↔ ∀ x ∈ xs, ¬ ReflTransGen (Edge out) x v := by
  constructor
  · intro hc x hx hxv
    refine hc v (TransGen.head'_iff.mpr ⟨x, ?_, reach_update hxv⟩)
    rwa [Edge, Function.update_self]
  · intro hx a ha
    obtain ha | ⟨h1, x, hxs, h2⟩ := trans_update ha
    · exact h a ha
    · exact hx x hxs (reach_update_iff.mp (h2.trans h1))

omit [DecidableEq α] in
/-- Whether a graph has a cycle depends on its edges only. -/
theorem acyclic_congr {out' : α → List α} (h : ∀ a b, Edge out' a b ↔ Edge out a b) : Acyclic out' ↔ Acyclic out := by
  have he : Edge out' = Edge out := by
    funext a b
    exact propext (h a b)
  rw [Acyclic, Acyclic, he]

end Graph
