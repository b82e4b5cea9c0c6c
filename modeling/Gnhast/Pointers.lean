import Gnhast.Confparser
import Gnhast.Lib.Blocks

/-!
# The arrays of a device, block by block

`parse_hargs`, `parse_tags`, the other two functions that make arrays of tags, and the part of `new_dev_from_conf` that makes the two
arrays, on a heap on which every `strdup` and every allocation gives a new block. What the arrays hold without the blocks is in
`Devices` and `Confparser`. A test whether a pointer is NULL in front of a `free` of the same pointer is left out.
-/

namespace Gnhast.Pointers

open CStr Blocks

/-- The two arrays of a device with their counters, and the heap. -/
structure Arrays where
  heap : Heap Str := []
  hargs : Ptr Str := .null
  nrofhargs : Nat := 0
  tags : Ptr Str := .null
  nroftags : Nat := 0

/-- What `parse_hargs` and `parse_tags` do for a text that is not empty: the old array is freed with its strings, and a new one of
`n` slots gets the tokens. `strtok` works on copies of the text, one to count the tokens and one to copy them. -/
def replaceArray (data : Str) (p : Ptr Str) (old n : Nat) (h : Heap Str) : Except Misuse (Ptr Str × Heap Str) :=
  let (hold, h) := alloc (.data data) h
  (freeArray p old h).bind fun h =>
    let (arr, h) := alloc (.slots (List.replicate n .null)) h
    (free hold h).bind fun h =>
      let (hold, h) := alloc (.data data) h
      (fillSlots arr 0 (strtok chComma data) h).bind fun h =>
        (free hold h).map fun h => (arr, h)

/-- `parse_hargs`. -/
def parseHargs (data : Str) (dev : Arrays) : Except Misuse Arrays :=
  if data = [] then
    (freeArray dev.hargs dev.nrofhargs dev.heap).map fun h => { dev with heap := h, nrofhargs := 0 }
  else
    let n := (strtok chComma data).length
    (replaceArray data dev.hargs dev.nrofhargs n dev.heap).map fun r =>
      { dev with heap := r.2, hargs := r.1, nrofhargs := n }

/-- `parse_tags`. -/
def parseTags (data : Str) (dev : Arrays) : Except Misuse Arrays :=
  if data = [] then
    (freeSlots dev.tags 0 dev.nroftags dev.heap).bind fun h =>
      -- the test is on the handler arguments
      (if dev.hargs = .null then .ok h else free dev.tags h).map fun h => { dev with heap := h, nroftags := 0 }
  else
    let toks := (strtok chComma data).length
    let n := toks + toks % 2
    (replaceArray data dev.tags dev.nroftags n dev.heap).bind fun r =>
      (if toks % 2 = 1 then writeSlot r.1 toks (.const (str "junk")) r.2 else .ok r.2).map fun h =>
        { dev with heap := h, tags := r.1, nroftags := n }

/-- The handler arguments `new_dev_from_conf` reads. -/
def loadHargs (hargs : List Str) (dev : Arrays) : Except Misuse Arrays :=
  if hargs = [] then .ok dev
  else
    let (p, h) := alloc (.slots (List.replicate hargs.length .null)) dev.heap
    (fillSlots p 0 hargs h).map fun h => { dev with heap := h, hargs := p, nrofhargs := hargs.length }

/-- The tags `new_dev_from_conf` reads: an odd list is filled up at an index that is two too high. -/
def loadTags (tags : List Str) (dev : Arrays) : Except Misuse Arrays :=
  if tags = [] then .ok dev
  else
    let tn := tags.length
    let (p, h) := alloc (.slots (List.replicate tn .null)) dev.heap
    (fillSlots p 0 tags h).bind fun h =>
      (if tn % 2 = 1 then writeSlot p (tn + 1) (.const []) h else .ok h).map fun h =>
        { dev with heap := h, tags := p, nroftags := tn + tn % 2 }

/-- `new_dev_from_conf`, for a title that is no device yet. -/
def newDevFromConf (conf : DeviceConf) : Except Misuse Arrays :=
  (loadHargs conf.hargs {}).bind (loadTags conf.tags)

/-- The case of `SC_TAGS` in `cmd_update` of a collector. `k` stops at the number of tokens, and an odd list is filled up one slot behind
that. -/
def cmdUpdateTags (data : Str) (dev : Arrays) : Except Misuse Arrays :=
  let j := (strtok chComma data).length
  let n := j + j % 2
  (replaceArray data dev.tags dev.nroftags n dev.heap).bind fun r =>
    (if j % 2 = 1 then writeSlot r.1 (j + 1) (.const []) r.2 else .ok r.2).map fun h =>
      { dev with heap := h, tags := r.1, nroftags := n }

/-- The bytes of a pointer. -/
def ptrSize : Nat := 8

/-- `build_tags`. For an odd number of tags one byte more than they take is allocated; of a slot that is not whole nothing may be
written. -/
def buildTags (tags : List Str) (h : Heap Str) : Except Misuse (Ptr Str × Heap Str) :=
  let num := tags.length
  let size := if num % 2 = 1 then ptrSize * num + 1 else ptrSize * num
  let (p, h) := alloc (.slots (List.replicate (size / ptrSize) .null)) h
  (fillSlots p 0 tags h).bind fun h =>
    if num % 2 = 1 then
      let (q, h) := alloc (.data []) h
      (writeSlot p num q h).map fun h => (p, h)
    else .ok (p, h)

/-- One argument of a `mod` command. -/
def modifyArg (dev : Arrays) (a : PArg) : Except Misuse Arrays :=
  match a with
  | ⟨.hargs, v⟩ => parseHargs v dev
  | ⟨.tags, v⟩ => parseTags v dev
  | _ => .ok dev

/-- The loop of `cmd_modify` over its arguments. -/
def cmdModify (dev : Arrays) (args : List PArg) : Except Misuse Arrays := args.foldlM modifyArg dev

/-- A device is loaded, and modified by commands. -/
def loadAndModify (conf : DeviceConf) (mods : List (List PArg)) : Except Misuse Arrays :=
  (newDevFromConf conf).bind fun dev => mods.foldlM cmdModify dev

end Gnhast.Pointers
