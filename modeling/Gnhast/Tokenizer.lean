import Gnhast.Netparser
import Gnhast.Lib.Blocks
import Gnhast.Lib.Machines

/-!
# The tokenizer, byte by byte

`parse_netcommand` as a machine whose steps are the statements of its loops. `buf` is an offset in the line, which ends with a NUL;
`buf2` is one in the scratch buffer, which is allocated with the length of the line and one byte more and holds nothing at first.
What the tokenizer makes of a line without its buffers is `lex`.
-/

namespace Gnhast.Tokenizer

open CStr Blocks

/-- Where the machine stands. -/
inductive Place
  /-- At the top of the loop. -/
  | top
  /-- In the loop over what stands in quotes. -/
  | quoted
  /-- Behind that loop, where a closing quote is passed over. -/
  | close
  /-- At the test for the end of a word. -/
  | test
  /-- In the loop over blanks. -/
  | skip
deriving Repr, DecidableEq

/-- The variables of `parse_netcommand`, and a count of the bytes written to the scratch buffer, which the program does not keep. -/
structure Scan where
  place : Place := .top
  buf : Nat := 0
  mem : List (Option Byte)
  buf2 : Nat := 0
  words : List Str := []
  i : Nat := 0
  writes : Nat := 0
deriving Repr, DecidableEq

/-- What `parse_netcommand` returns and stores in `arg_count`, and how many bytes it wrote to the scratch buffer. -/
structure Parsed where
  words : List Str
  argCount : Nat
  writes : Nat
deriving Repr, DecidableEq

/-- Reading the line, up to its NUL. -/
def readByte (line : Str) (p : Nat) : Except Misuse Byte :=
  match (line ++ [chNul])[p]? with
  | some c => .ok c
  | none => .error .badRead

/-- Writing where `buf2` points to. -/
def Scan.put (st : Scan) (c : Byte) : Except Misuse Scan :=
  if st.buf2 < st.mem.length then
    .ok { st with mem := st.mem.set st.buf2 (some c), buf2 := st.buf2 + 1, writes := st.writes + 1 }
  else .error .badWrite

/-- `strdup` of a buffer: its bytes up to a NUL, all of which must have been written. -/
def dup : List (Option Byte) → Except Misuse Str
  | some c :: m => if c = chNul then .ok [] else (dup m).map fun w => c :: w
  | _ => .error .badRead

/-- One statement of `parse_netcommand`. -/
def step (line : Str) (st : Scan) : Except Misuse (Scan ⊕ Parsed) :=
  (readByte line st.buf).bind fun c =>
    match st.place with
    | .top => if c = chQuote then .ok (.inl { st with buf := st.buf + 1, place := .quoted }) else .ok (.inl { st with place := .test })
    | .quoted =>
      if c ≠ chNul ∧ c ≠ chQuote then
        if c = chBackslash then
          (readByte line (st.buf + 1)).bind fun c' =>
            if c' = chQuote then (st.put c').map fun st => .inl { st with buf := st.buf + 2 }
            else (st.put c).map fun st => .inl { st with buf := st.buf + 1 }
        else (st.put c).map fun st => .inl { st with buf := st.buf + 1 }
      else .ok (.inl { st with place := .close })
    | .close => .ok (.inl { st with buf := if c = chQuote then st.buf + 1 else st.buf, place := .test })
    | .test =>
      if c = chSpace ∨ c = chNul then
        (st.put chNul).bind fun st =>
          (dup st.mem).map fun w =>
            let st := { st with buf2 := 0, words := st.words ++ [w], i := st.i + 1 }
            if c = chNul then .inr ⟨st.words, st.i, st.writes⟩ else .inl { st with buf := st.buf + 1, place := .skip }
      else (st.put c).map fun st => .inl { st with buf := st.buf + 1, place := .top }
    | .skip => .ok (.inl (if c = chSpace then { st with buf := st.buf + 1 } else { st with place := .top }))

/-- The machine at its start, with a scratch buffer of the length of the line and one byte more. -/
def start (line : Str) : Scan := { mem := List.replicate (line.length + 1) none }

/-- `parse_netcommand` ends with a result, and without touching a byte outside its buffers; for an empty line it returns NULL. -/
def Returns (line : Str) (r : Option Parsed) : Prop :=
  if line = [] then r = none else ∃ p, r = some p ∧ Machines.Halts (step line) (start line) p

end Gnhast.Tokenizer
