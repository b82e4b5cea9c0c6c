import Gnhast.Cmdhandler
import Gnhast.Confdump

/-!
# The loop of `mk_rrdname`

`mk_rrdname` of `common.c`, cursor by cursor. A string in memory is the list of the bytes from its first one on, the terminating NUL
included; what lies behind is not the string's, so a read past the end of the list is a fault.
-/

namespace Gnhast

open CStr

/-- `strlen` on a string in memory. -/
def strlen : Str → Except Fault Nat
  | [] => .error .bufferOverflow
  | c :: s => if c = chNul then .ok 0 else (strlen s).map (· + 1)

/-- A character is stored at the end of what is written of `newbuf`, which has 20 bytes. -/
def newbufPut (newbuf : Str) (c : Byte) : Except Fault Str :=
  if newbuf.length < 20 then .ok (newbuf ++ [c]) else .error .bufferOverflow

/-- The characters of an rrdname. -/
def rrdChar (c : Byte) : Bool := isalpha c || c == 95 || isdigit c

/-- The loop of `mk_rrdname` from the cursor `p` on: `i` is the length of what is written of `newbuf`, and `l` the `int` that holds
the length of the string. -/
def mkRrdnameLoop (l : Int) : Str → Str → Except Fault Str
  | [], _ => .error .bufferOverflow
  | c :: p, newbuf =>
    if c ≠ chNul ∧ (newbuf.length : Int) < l ∧ newbuf.length < 19 then
      if rrdChar c then do
        let newbuf ← newbufPut newbuf c
        mkRrdnameLoop l p newbuf
      else mkRrdnameLoop l p newbuf
    else newbufPut newbuf chNul

/-- `mk_rrdname` on a string in memory. -/
def mkRrdnameMem (orig : Str) : Except Fault Str := do
  let l ← strlen orig
  mkRrdnameLoop (BitVec.ofNat 32 l).toInt orig []

end Gnhast
