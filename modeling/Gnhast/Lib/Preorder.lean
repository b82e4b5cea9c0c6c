import Mathlib.Data.List.TakeWhile
import Mathlib.Tactic.Common

/-!
# Documents in preorder

A document is a primitive, a string, an array or an object. `items` lists it in preorder, each array and object before what it holds,
with the number of its children: the elements of an array, the keys and the values of an object. A child count is at most the number
of items that follow (`Enclosed`), and is that number exactly where no child holds anything. `member` is the place and the value of the
first member of a name in the order of the document, and `front` the fields of an object in front of a field.
-/

namespace Preorder

/-- The kinds of items. -/
inductive Kind
  | primitive | object | array | string
deriving Repr, DecidableEq

/-- A document. -/
inductive Doc (α : Type)
  | primitive (text : α)
  | string (text : α)
  | array (es : List (Doc α))
  | object (fs : List (α × Doc α))

/-- An item: its kind, whether it is the key of a member, its text, and how many children it has. -/
structure Item (α : Type) where
  kind : Kind
  key : Bool := false
  text : Option α := none
  size : Nat := 0
deriving Repr, DecidableEq

variable {α : Type}

/-- The key of a member. -/
def keyItem (k : α) : Item α := { kind := .string, key := true, text := some k }

mutual
/-- A document in preorder. -/
def items : Doc α → List (Item α)
  | .primitive t => [{ kind := .primitive, text := some t }]
  | .string t => [{ kind := .string, text := some t }]
  | .array es => { kind := .array, size := es.length } :: itemsL es
  | .object fs => { kind := .object, size := 2 * fs.length } :: itemsF fs
/-- The elements of an array. -/
def itemsL : List (Doc α) → List (Item α)
  | [] => []
  | e :: es => items e ++ itemsL es
/-- The members of an object. -/
def itemsF : List (α × Doc α) → List (Item α)
  | [] => []
  | (k, v) :: fs => keyItem k :: (items v ++ itemsF fs)
end

/-- The number of children of a document. -/
def Doc.size : Doc α → Nat
  | .primitive _ | .string _ => 0
  | .array es => es.length
  | .object fs => 2 * fs.length

/-- No child of a document holds anything. -/
def Doc.Shallow (d : Doc α) : Prop := (items d).length = d.size + 1

instance (d : Doc α) : Decidable d.Shallow := inferInstanceAs (Decidable (_ = _))

/-! ## Lengths -/

theorem items_eq_cons (d : Doc α) : ∃ it its, items d = it :: its ∧ it.size = d.size ∧ it.key = false := by
  cases d <;> exact ⟨_, _, rfl, rfl, rfl⟩

theorem length_items_pos (d : Doc α) : 0 < (items d).length := by
  obtain ⟨it, its, h, -⟩ := items_eq_cons d
  rw [h]
  exact Nat.succ_pos _

theorem itemsL_append (xs ys : List (Doc α)) : itemsL (xs ++ ys) = itemsL xs ++ itemsL ys := by
  induction xs with
  | nil => rfl
  | cons x xs ih => rw [List.cons_append, itemsL, ih, itemsL, List.append_assoc]

theorem itemsF_append (xs ys : List (α × Doc α)) : itemsF (xs ++ ys) = itemsF xs ++ itemsF ys := by
  induction xs with
  | nil => rfl
  | cons x xs ih =>
    obtain ⟨k, v⟩ := x
    rw [List.cons_append, itemsF, ih, itemsF, List.cons_append, List.append_assoc]

theorem length_le_itemsL (es : List (Doc α)) : es.length ≤ (itemsL es).length := by
  induction es with
  | nil => exact Nat.zero_le _
  | cons e es ih =>
    have h := length_items_pos e
    rw [itemsL, List.length_append, List.length_cons]
    omega

theorem length_le_itemsF (fs : List (α × Doc α)) : 2 * fs.length ≤ (itemsF fs).length := by
  induction fs with
  | nil => exact Nat.zero_le _
  | cons f fs ih =>
    obtain ⟨k, v⟩ := f
    have h := length_items_pos v
    rw [itemsF, List.length_cons, List.length_cons, List.length_append]
    omega

/-- A document has at least as many items as children, and itself. -/
theorem size_lt_length (d : Doc α) : d.size < (items d).length := by
  cases d with
  | primitive t => exact Nat.zero_lt_one
  | string t => exact Nat.zero_lt_one
  | array es => exact Nat.lt_succ_of_le (length_le_itemsL es)
  | object fs => exact Nat.lt_succ_of_le (length_le_itemsF fs)

/-! ## Child counts -/

/-- No child count of a list of items exceeds the number of items behind it. -/
def Enclosed : List (Item α) → Prop
  | [] => True
  | it :: its => it.size ≤ its.length ∧ Enclosed its

theorem Enclosed.append {xs ys : List (Item α)} (hx : Enclosed xs) (hy : Enclosed ys) : Enclosed (xs ++ ys) := by
  induction xs with
  | nil => exact hy
  | cons x xs ih =>
    refine ⟨?_, ih hx.2⟩
    have h := hx.1
    change x.size ≤ (xs ++ ys).length
    rw [List.length_append]
    omega

/-- The children counted by an item are among the items behind it. -/
theorem Enclosed.getElem? {its : List (Item α)} (h : Enclosed its) {i : Nat} {it : Item α} (hi : its[i]? = some it) :
    i + it.size + 1 ≤ its.length := by
  induction its generalizing i with
  | nil => simp at hi
  | cons x xs ih =>
    cases i with
    | zero =>
      cases hi
      have := h.1
      rw [List.length_cons]
      omega
    | succ i =>
      have := ih h.2 hi
      rw [List.length_cons]
      omega

mutual
theorem enclosed_items : (d : Doc α) → Enclosed (items d)
  | .primitive _ => ⟨Nat.zero_le _, trivial⟩
  | .string _ => ⟨Nat.zero_le _, trivial⟩
  | .array es => ⟨length_le_itemsL es, enclosed_itemsL es⟩
  | .object fs => ⟨length_le_itemsF fs, enclosed_itemsF fs⟩
theorem enclosed_itemsL : (es : List (Doc α)) → Enclosed (itemsL es)
  | [] => trivial
  | e :: es => (enclosed_items e).append (enclosed_itemsL es)
theorem enclosed_itemsF : (fs : List (α × Doc α)) → Enclosed (itemsF fs)
  | [] => trivial
  | (_, v) :: fs => ⟨Nat.zero_le _, (enclosed_items v).append (enclosed_itemsF fs)⟩
end

/-! ## Members -/

variable [DecidableEq α]

/-- A string of a text. -/
def Item.named (name : α) (it : Item α) : Bool := it.kind = .string ∧ it.text = some name

/-- The key of a member of a name. -/
def Item.keyOf (name : α) (it : Item α) : Bool := it.named name && it.key

/-- No key of a name is among some items. -/
def NoKey (name : α) (its : List (Item α)) : Prop := ∀ it ∈ its, it.keyOf name = false

theorem noKey_iff {name : α} {its : List (Item α)} : NoKey name its ↔ its.findIdx? (Item.keyOf name) = none :=
  List.findIdx?_eq_none_iff.symm

theorem keyOf_eq_false {name : α} {it : Item α} (h : it.key = false) : it.keyOf name = false := by
  rw [Item.keyOf, h, Bool.and_false]

instance (name : α) (its : List (Item α)) : Decidable (NoKey name its) := List.decidableBAll _ its

mutual
/-- The place of the value of the first member of a name, and the value, in a document whose first place is `p`. -/
def member (name : α) (p : Nat) : Doc α → Option (Nat × Doc α)
  | .primitive _ => none
  | .string _ => none
  | .array es => memberL name (p + 1) es
  | .object fs => memberF name (p + 1) fs
def memberL (name : α) (p : Nat) : List (Doc α) → Option (Nat × Doc α)
  | [] => none
  | e :: es => (member name p e).or (memberL name (p + (items e).length) es)
def memberF (name : α) (p : Nat) : List (α × Doc α) → Option (Nat × Doc α)
  | [] => none
  | (k, v) :: fs =>
    if k = name then some (p + 1, v) else (member name (p + 1) v).or (memberF name (p + 1 + (items v).length) fs)
end

/-- A member was looked for among some items, of which the first is at the place `p`: its key is the first of the name. -/
def Found (name : α) (p : Nat) (its : List (Item α)) : Option (Nat × Doc α) → Prop
  | none => NoKey name its
  | some (q, v) => ∃ pre post, its = pre ++ keyItem name :: (items v ++ post) ∧ q = p + pre.length + 1 ∧ NoKey name pre

theorem NoKey.append {name : α} {xs ys : List (Item α)} (hx : NoKey name xs) (hy : NoKey name ys) : NoKey name (xs ++ ys) := by
  intro it hit
  rcases List.mem_append.mp hit with h | h
  · exact hx it h
  · exact hy it h

theorem found_cons {name : α} {p : Nat} {it : Item α} {its : List (Item α)} (hit : it.keyOf name = false)
    {r : Option (Nat × Doc α)} (h : Found name (p + 1) its r) : Found name p (it :: its) r := by
  have hno : NoKey name [it] := by
    intro it' h'
    rw [List.mem_singleton.mp h']
    exact hit
  cases r with
  | none => exact hno.append h
  | some r =>
    obtain ⟨pre, post, rfl, hq, hpre⟩ := h
    refine ⟨it :: pre, post, rfl, ?_, hno.append hpre⟩
    rw [List.length_cons]
    omega

theorem found_append {name : α} {p : Nat} {xs ys : List (Item α)} {r r' : Option (Nat × Doc α)} (h : Found name p xs r)
    (h' : Found name (p + xs.length) ys r') : Found name p (xs ++ ys) (r.or r') := by
  cases r with
  | some r =>
    obtain ⟨pre, post, rfl, hq, hpre⟩ := h
    exact ⟨pre, post ++ ys, by simp, hq, hpre⟩
  | none =>
    cases r' with
    | none => exact h.append h'
    | some r' =>
      obtain ⟨pre, post, rfl, hq, hpre⟩ := h'
      refine ⟨xs ++ pre, post, by simp, ?_, h.append hpre⟩
      rw [List.length_append]
      omega

mutual
theorem found_member (name : α) (p : Nat) : (d : Doc α) → Found name p (items d) (member name p d)
  | .primitive _ => by
    intro it hit
    rw [List.mem_singleton.mp hit]
    exact keyOf_eq_false rfl
  | .string _ => by
    intro it hit
    rw [List.mem_singleton.mp hit]
    exact keyOf_eq_false rfl
  | .array es => found_cons (keyOf_eq_false rfl) (found_memberL name (p + 1) es)
  | .object fs => found_cons (keyOf_eq_false rfl) (found_memberF name (p + 1) fs)
theorem found_memberL (name : α) (p : Nat) : (es : List (Doc α)) → Found name p (itemsL es) (memberL name p es)
  | [] => fun _ h => nomatch h
  | e :: es => found_append (found_member name p e) (found_memberL name _ es)
theorem found_memberF (name : α) (p : Nat) : (fs : List (α × Doc α)) → Found name p (itemsF fs) (memberF name p fs)
  | [] => fun _ h => nomatch h
  | (k, v) :: fs => by
    rw [memberF, itemsF]
    split
    · rename_i hk
      exact ⟨[], itemsF fs, by rw [hk]; rfl, rfl, fun _ h => nomatch h⟩
    · rename_i hk
      have hit : (keyItem k).keyOf name = false := by simp [Item.keyOf, Item.named, keyItem, hk]
      exact found_cons hit (found_append (found_member name _ v) (found_memberF name _ fs))
end

/-- Among the first `k` items, the first key of a name is a given one: none is in front of it, and it is among them. -/
theorem findIdx?_take_front (name : α) (xs ys : List (Item α)) (k : Nat) :
    ((xs ++ keyItem name :: ys).take k).findIdx? (Item.keyOf name) = some xs.length ↔ NoKey name xs ∧ xs.length < k := by
  have hkey : (keyItem name).keyOf name = true := by simp [Item.keyOf, Item.named, keyItem]
  rw [List.findIdx?_take, List.findIdx?_append, noKey_iff]
  cases hf : xs.findIdx? (Item.keyOf name) with
  | none =>
    rw [Option.none_or, List.findIdx?_cons, if_pos hkey, Option.map_some, Option.bind_some, Nat.zero_add, Option.guard_eq_some_iff]
    simp
  | some i =>
    have hi : i < xs.length := (List.findIdx?_eq_some_iff_findIdx_eq.mp hf).1
    refine iff_of_false ?_ fun h => nomatch h.1
    rw [Option.some_or, Option.bind_some, Option.guard_eq_some_iff]
    rintro ⟨he, -⟩
    omega

/-! ## Fields -/

/-- The fields in front of the first one of a name; all of them, when there is none. -/
def front (name : α) (fs : List (α × Doc α)) : List (α × Doc α) := fs.takeWhile fun f => f.1 ≠ name

/-- An object is the fields in front of a field, the field, and the others. -/
theorem front_append_cons {name : α} {fs : List (α × Doc α)} (h : name ∈ fs.map Prod.fst) :
    ∃ v rest, fs = front name fs ++ (name, v) :: rest := by
  induction fs with
  | nil => cases h
  | cons f fs ih =>
    obtain ⟨k, v⟩ := f
    by_cases hk : k = name
    · refine ⟨v, fs, ?_⟩
      rw [front, List.takeWhile_cons_of_neg (by simpa using hk), List.nil_append, hk]
    · have hmem : name ∈ fs.map Prod.fst := by
        rcases List.mem_cons.mp h with he | he
        · exact absurd he.symm hk
        · exact he
      obtain ⟨w, rest, hw⟩ := ih hmem
      refine ⟨w, rest, ?_⟩
      rw [front, List.takeWhile_cons_of_pos (by simpa using hk), List.cons_append]
      exact congrArg _ hw

theorem front_eq_self {name : α} {fs : List (α × Doc α)} (h : name ∉ fs.map Prod.fst) : front name fs = fs := by
  refine List.takeWhile_eq_self_iff.mpr fun f hf => ?_
  simp only [decide_eq_true_eq]
  rintro rfl
  exact h (List.mem_map_of_mem hf)

end Preorder
