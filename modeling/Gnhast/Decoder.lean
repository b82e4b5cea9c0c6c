import Gnhast.Netparser
import Gnhast.Lib.Blocks
import Gnhast.Lib.Search
import Mathlib.Data.List.Lex

/-!
# Argument decoding, block by block

`parse_command` on a heap: the words are blocks that an array of pointers leads to, a value of type `PTCHAR` is a copy in a new block,
and the arguments are written to an array that has as many entries as there are words. Which arguments come out, without the memory,
is `Gnhast.parseCommand`.
-/

namespace Gnhast.Decoder

open CStr Blocks

variable (F : Doubles)

/-- What `strcmp` compares names by. -/
def nameKey (e : Argtable) : List Nat := e.name.map UInt8.toNat

/-- `init_argcomm` sorts the table. -/
def initArgcomm : List Argtable := argtable.mergeSort fun a b => decide (nameKey a ≤ nameKey b)

/-- The `bsearch` of `parse_command`. -/
def findArg (name : Str) : Option Argtable := Search.bsearch nameKey (name.map UInt8.toNat) initArgcomm 0 initArgcomm.length

/-- The value of a `pargs_t`. -/
inductive Value
  | d (x : ℚ)
  | c (p : Ptr Str)
  | i (n : BitVec 32)
  | u (n : BitVec 32)
  | ll (n : BitVec 64)

/-- A `pargs_t` that was filled in. -/
structure Entry where
  cword : Sc
  type : PtType
  arg : Value

/-- An entry of the array of arguments: as it was allocated, filled in, or with the `cword` -1 that ends the array. -/
inductive Slot
  | unset
  | arg (e : Entry)
  | stop

/-- The switch over the type of an argument. -/
def readInto (type : PtType) (tmp : Str) (h : Heap Str) : Value × Heap Str :=
  match type with
  | .ptdouble => (.d (readValue F .ptdouble tmp), h)
  | .ptchar => let (p, h) := alloc (.data tmp) h; (.c p, h)
  | .ptint => (.i (readValue F .ptint tmp), h)
  | .ptuint => (.u (readValue F .ptuint tmp), h)
  | .ptll => (.ll (readValue F .ptll tmp), h)

/-- The array of arguments, the next free entry, and the heap. -/
structure Work where
  args : List Slot
  cur : Nat
  heap : Heap Str

/-- Writing the next free entry. -/
def Work.put (st : Work) (x : Slot) : Except Misuse Work :=
  if st.cur < st.args.length then .ok { st with args := st.args.set st.cur x } else .error .badWrite

/-- One word: it is cut at the colon and lower-cased in place; the value behind the colon is read from the rest of the block. -/
def decodeWord (q : Ptr Str) (word : Str) (st : Work) : Except Misuse Work :=
  match splitAt chColon word with
  | none => .ok st
  | some (cp, tmp) =>
    (writeData q (cp.map tolower) st.heap).bind fun h =>
      match findArg (cp.map tolower) with
      | none => .ok { st with heap := h }
      | some asp =>
        let (v, h) := readInto F asp.type tmp h
        (Work.put { st with heap := h } (.arg ⟨asp.num, asp.type, v⟩)).map fun st => { st with cur := st.cur + 1 }

/-- The loop over the words, from a word on and for a number of them: it stops at a NULL and at an empty word. -/
def decodeWords (words : Ptr Str) : Nat → Nat → Work → Except Misuse Work
  | _, 0, st => .ok st
  | i, n + 1, st =>
    (readSlot words i st.heap).bind fun q =>
      if q = .null then .ok st
      else
        (readData q st.heap).bind fun word =>
          if word = [] then .ok st else (decodeWord F q word st).bind (decodeWords words (i + 1) n)

/-- The loop that frees the words, up to a NULL. -/
def freeWords (words : Ptr Str) : Nat → Nat → Heap Str → Except Misuse (Heap Str)
  | _, 0, h => .ok h
  | i, n + 1, h => (readSlot words i h).bind fun q => if q = .null then .ok h else (free q h).bind (freeWords words (i + 1) n)

/-- `parse_command`. -/
def parseCommand (words : Ptr Str) (count : Nat) (h : Heap Str) : Except Misuse (Option (List Slot) × Heap Str) :=
  if words = .null then (freeWords words 0 count h).map fun h => (none, h)
  else
    (readSlot words 0 h).bind fun w =>
      if w = .null then (freeWords words 0 count h).bind fun h => (free words h).map fun h => (none, h)
      else
        (decodeWords F words 1 (count - 1) ⟨List.replicate count .unset, 0, h⟩).bind fun st =>
          (st.put .stop).bind fun st =>
            (freeWords words 0 count st.heap).bind fun h => (free words h).map fun h => (some st.args, h)

end Gnhast.Decoder
