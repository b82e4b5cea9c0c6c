import Gnhast.Lib.Headers
import Gnhast.Types

/-!
# Fields of an SSDP message

`find_ssdp_field` of `ssdp.c`. Pointers into the buffer are what stands from there on; a length is a `size_t`, so that the copy of a
negative one runs over every buffer.
-/

namespace Gnhast

open CStr

/-- How far `end` is from a pointer: at the first CR, else at the first LF, else at the NUL. -/
def ssdpEnd (p : Str) : Nat := ((strchr chCr p).or (strchr chLf p)).getD p.length

/-- What `find_ssdp_field` copies when the field was found. -/
def ssdpCopy (p : Str) : Except Fault (Option Str) :=
  match strchr chColon p with
  | none => .ok none
  | some i =>
    let begin := i + 2
    if ssdpEnd p < begin then .error .bufferOverflow else .ok (some ((p.drop begin).take (ssdpEnd p - begin)))

/-- `find_ssdp_field`. -/
def findSsdpField (buf field : Str) : Except Fault (Option Str) :=
  match strcasestr field buf with
  | none => .ok none
  | some p => ssdpCopy p

end Gnhast
