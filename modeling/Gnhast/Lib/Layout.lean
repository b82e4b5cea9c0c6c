import Mathlib.Data.List.OfFn

/-!
# Packed structures

A layout says how the values of a type lie in memory, byte after byte and without padding. It has a fixed size, and it reads back
what it wrote, whatever follows. Memory that is too short reads as if it went on with the default byte.
-/

namespace Gnhast

/-- How the values of a type lie in memory. -/
structure Layout (β α : Type) where
  size : Nat
  encode : α → List β
  decode : List β → α
  length_encode : ∀ a, (encode a).length = size
  decode_encode : ∀ a rest, decode (encode a ++ rest) = a

namespace Layout

variable {β α γ : Type}

/-- One byte. -/
def byte [Inhabited β] : Layout β β where
  size := 1
  encode b := [b]
  decode bs := bs.headD default
  length_encode _ := rfl
  decode_encode _ _ := rfl

/-- One value behind another. -/
def prod (L : Layout β α) (M : Layout β γ) : Layout β (α × γ) where
  size := L.size + M.size
  encode p := L.encode p.1 ++ M.encode p.2
  decode bs := (L.decode bs, M.decode (bs.drop L.size))
  length_encode p := by
    rw [List.length_append, L.length_encode, M.length_encode]
  decode_encode p rest := by
    rw [List.append_assoc, L.decode_encode, ← L.length_encode p.1, List.drop_left, M.decode_encode]

/-- The same bytes for another type. -/
def map (L : Layout β α) (f : α → γ) (g : γ → α) (h : ∀ c, f (g c) = c) : Layout β γ where
  size := L.size
  encode c := L.encode (g c)
  decode bs := f (L.decode bs)
  length_encode c := L.length_encode (g c)
  decode_encode c rest := by
    rw [L.decode_encode, h]

theorem length_flatMap_encode (L : Layout β α) (as : List α) : (as.flatMap L.encode).length = as.length * L.size := by
  induction as with
  | nil => simp
  | cons a as ih =>
    rw [List.flatMap_cons, List.length_append, ih, L.length_encode, List.length_cons, Nat.succ_mul, Nat.add_comm]

/-- Behind the values before it stands each value of an array. -/
theorem exists_drop_flatMap (L : Layout β α) {as : List α} (rest : List β) {i : Nat} (hi : i < as.length) :
    ∃ more, (as.flatMap L.encode ++ rest).drop (i * L.size) = L.encode as[i] ++ more := by
  refine ⟨(as.drop (i + 1)).flatMap L.encode ++ rest, ?_⟩
  have hsplit : as.flatMap L.encode = (as.take i).flatMap L.encode ++ (as.drop i).flatMap L.encode := by
    rw [← List.flatMap_append, List.take_append_drop]
  have hlen : i * L.size = ((as.take i).flatMap L.encode).length := by
    rw [length_flatMap_encode, List.length_take, Nat.min_eq_left hi.le]
  rw [hsplit, hlen, List.append_assoc, List.drop_left, List.drop_eq_getElem_cons hi, List.flatMap_cons, List.append_assoc]

/-- An array. -/
def array (n : Nat) (L : Layout β α) : Layout β (Fin n → α) where
  size := n * L.size
  encode v := (List.ofFn v).flatMap L.encode
  decode bs i := L.decode (bs.drop (i * L.size))
  length_encode v := by
    rw [length_flatMap_encode, List.length_ofFn]
  decode_encode v rest := by
    funext i
    have hi : i.val < (List.ofFn v).length := by
      rw [List.length_ofFn]
      exact i.isLt
    obtain ⟨more, hmore⟩ := L.exists_drop_flatMap rest hi
    rw [hmore, L.decode_encode, List.getElem_ofFn]

end Layout

end Gnhast
