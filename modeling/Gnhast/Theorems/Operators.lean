import Gnhast.Lemmas.Alarmcoll
import Gnhast.Lemmas.Memory

/-!
# The operators of watch types

A watch type is read character by character, in any order, into flags, and an `if` chain takes the first flag that is set as the simple test.
For the two ways to write not equal the flag of the first character stays beside the one that both give, and comes first in the chain.
-/

namespace Gnhast.Alarmcoll

open CStr

/-! ## Watch types -/

/-- The documented operators: the two of not equal are written both ways. -/
inductive Operator
  | gt | lt | eq | ge | le | ltgt | gtlt
deriving Repr, DecidableEq

/-- How an operator is written. -/
def Operator.text : Operator → Str
  | gt => [chGt]
  | lt => [chLt]
  | eq => [chEq]
  | ge => [chGt, chEq]
  | le => [chLt, chEq]
  | ltgt => [chLt, chGt]
  | gtlt => [chGt, chLt]

/-- A character that no operator is written with, and that is not the sign of a jitter. -/
def Plain (c : Byte) : Prop := c ≠ chGt ∧ c ≠ chLt ∧ c ≠ chEq ∧ c ≠ chJ

/-- A watch type with one operator, and any signs and unknown characters before and after it. -/
structure OneOperator where
  before : Str
  op : Operator
  after : Str
  plain : ∀ c ∈ before ++ after, Plain c

/-- The text of such a type. -/
def OneOperator.text (field : OneOperator) : Str := field.before ++ field.op.text ++ field.after

/-- The type of a row, which loses & and | when the row it names is not known. -/
def rowType (field : Str) (numfields : Nat) (known : Bool) : BitVec 32 :=
  if known then parseWtype field numfields
  else clearFlag (clearFlag (parseWtype field numfields) Wtype.and.num) Wtype.or.num

/-! ## Flags of the simple tests -/

/-- The types that decide which simple test is made. -/
def Wtype.simple : Wtype → Bool
  | .and | .or | .handler => false
  | _ => true

/-- Two types make the same simple test. -/
def SameTests (wtype wtype' : BitVec 32) : Prop := ∀ p : Wtype, p.simple = true → queryFlag wtype p.num = queryFlag wtype' p.num

theorem SameTests.trans {w w' w'' : BitVec 32} (h : SameTests w w') (h' : SameTests w' w'') : SameTests w w'' :=
  fun p hp => (h p hp).trans (h' p hp)

theorem SameTests.setFlag {w w' : BitVec 32} (h : SameTests w w') (p : Wtype) : SameTests (setFlag w p.num) (setFlag w' p.num) := by
  intro q hq
  rw [queryFlag_setFlag, queryFlag_setFlag, h q hq]

theorem SameTests.clearFlag {w w' : BitVec 32} (h : SameTests w w') (p : Wtype) :
    SameTests (clearFlag w p.num) (clearFlag w' p.num) := by
  intro q hq
  rw [queryFlag_clearFlag, queryFlag_clearFlag, h q hq]

theorem parseWtypeChar_gt (numfields : Nat) (wtype : BitVec 32) : parseWtypeChar numfields wtype chGt =
    if queryFlag wtype Wtype.lt.num then setFlag wtype Wtype.ne.num else setFlag wtype Wtype.gt.num := rfl

theorem parseWtypeChar_lt (numfields : Nat) (wtype : BitVec 32) : parseWtypeChar numfields wtype chLt =
    if queryFlag wtype Wtype.gt.num then setFlag wtype Wtype.ne.num else setFlag wtype Wtype.lt.num := rfl

theorem parseWtypeChar_eq (numfields : Nat) (wtype : BitVec 32) : parseWtypeChar numfields wtype chEq =
    if queryFlag wtype Wtype.lt.num then setFlag (clearFlag wtype Wtype.lt.num) Wtype.lte.num
    else if queryFlag wtype Wtype.gt.num then setFlag (clearFlag wtype Wtype.gt.num) Wtype.gte.num
    else setFlag wtype Wtype.eq.num := rfl

/-- What a character of an operator does is up to the flags of the simple tests. -/
theorem SameTests.step {w w' : BitVec 32} (h : SameTests w w') (numfields : Nat) {c : Byte}
    (hc : c = chGt ∨ c = chLt ∨ c = chEq) : SameTests (parseWtypeChar numfields w c) (parseWtypeChar numfields w' c) := by
  have hgt := h .gt rfl
  have hlt := h .lt rfl
  rcases hc with rfl | rfl | rfl
  · rw [parseWtypeChar_gt, parseWtypeChar_gt, hlt]
    split
    · exact h.setFlag .ne
    · exact h.setFlag .gt
  · rw [parseWtypeChar_lt, parseWtypeChar_lt, hgt]
    split
    · exact h.setFlag .ne
    · exact h.setFlag .lt
  · rw [parseWtypeChar_eq, parseWtypeChar_eq, hgt, hlt]
    split
    · exact (h.clearFlag .lt).setFlag .lte
    · split
      · exact (h.clearFlag .gt).setFlag .gte
      · exact h.setFlag .eq

theorem SameTests.foldl {w w' : BitVec 32} (h : SameTests w w') (numfields : Nat) {cs : Str}
    (hcs : ∀ c ∈ cs, c = chGt ∨ c = chLt ∨ c = chEq) :
    SameTests (cs.foldl (parseWtypeChar numfields) w) (cs.foldl (parseWtypeChar numfields) w') := by
  induction cs generalizing w w' with
  | nil => exact h
  | cons c cs ih =>
    obtain ⟨hc, hcs⟩ := List.forall_mem_cons.mp hcs
    exact ih (h.step numfields hc) hcs

/-- The flags that an operator leaves. -/
def Operator.flags : Operator → BitVec 32
  | gt => setFlag 0 Wtype.gt.num
  | lt => setFlag 0 Wtype.lt.num
  | eq => setFlag 0 Wtype.eq.num
  | ge => setFlag 0 Wtype.gte.num
  | le => setFlag 0 Wtype.lte.num
  | ltgt => setFlag (setFlag 0 Wtype.lt.num) Wtype.ne.num
  | gtlt => setFlag (setFlag 0 Wtype.gt.num) Wtype.ne.num

variable (F : Doubles)

/-- The comparison that the chain of tests makes for an operator. -/
def Operator.made : Operator → Wtype
  | gt => .gt
  | lt => .lt
  | eq => .eq
  | ge => .gte
  | le => .lte
  | ltgt => .lt
  | gtlt => .gt

/-- The type that a row has once it is read. -/
theorem parseRow_type {now : Int} {n : Nat} {row : List Str} (hlen : 7 ≤ row.length) {watched watched' : List Watch}
    (hn : n < watched.length) (h : parseRow F now n row watched = .ok watched') :
    ∃ watch known, watched'[n]? = some watch ∧ watch.wtype = rowType (row.getD 1 []) row.length known := by
  obtain ⟨watch, found, stored, -, -, htype, hcomp, rfl, -, -, hs, -⟩ := parseRow_spec F hlen h
  unfold parseComparison at hcomp
  have hfound : ∃ known, found.wtype = rowType (row.getD 1 []) row.length known := by
    split at hcomp
    · cases hcomp
      exact ⟨true, htype⟩
    · split at hcomp
      · obtain ⟨r, -, rfl⟩ := Except.map_eq_ok.mp hcomp
        split
        · refine ⟨false, ?_⟩
          dsimp only
          rw [htype]
          rfl
        · exact ⟨true, htype⟩
      · cases hcomp
        exact ⟨true, htype⟩
  obtain ⟨known, hknown⟩ := hfound
  exact ⟨stored, known, List.getElem?_set_self hn, hs.trans hknown⟩

end Gnhast.Alarmcoll
