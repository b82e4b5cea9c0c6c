import Gnhast.Lib.CStr
import Gnhast.Lib.Preorder
import Gnhast.Types

/-!
# Searching tokens

The functions of `jsmn_func.c` over the tokens that `jsmn_parse` leaves for a text. A token that the parser has not written is not
read: beyond the list of tokens there is none.
-/

namespace Gnhast

open CStr Preorder

/-- `jsmntok_t`. The field `stop` is the source's `end`. -/
structure Jsmntok where
  type : Kind
  start : Nat := 0
  stop : Nat := 0
  size : Nat := 0
  valueof : Int := -1
deriving Repr, DecidableEq

/-- A token is read. -/
def tokAt (tokens : List Jsmntok) (i : Nat) : Except Fault Jsmntok :=
  match tokens[i]? with
  | some t => .ok t
  | none => .error .uninitialised

/-- The bytes of a token. -/
def Jsmntok.text (t : Jsmntok) (buf : Str) : Str := (buf.drop t.start).take (t.stop - t.start)

/-- A token is the string `match`: its length is compared, and its bytes by `strncmp`. -/
def Jsmntok.matches (t : Jsmntok) (buf name : Str) : Bool :=
  t.type == .string && t.stop - t.start == name.length && t.text buf == name

/-- `jtok_string`. -/
def jtokString (t : Jsmntok) (buf : Str) : Option Str :=
  if t.type ≠ .string then none else if t.stop - t.start < 1 then none else some (cstr (t.text buf))

/-- `jtok_int`. -/
def jtokInt (t : Jsmntok) (buf : Str) : BitVec 32 :=
  if t.type = .array then 0
  else if t.stop - t.start < 1 ∨ 255 < t.stop - t.start then 0 else atoi (cstr (t.text buf))

/-- `jtok_double`. -/
def jtokDouble (F : Doubles) (t : Jsmntok) (buf : Str) : ℚ :=
  if t.type = .array then 0
  else if t.stop - t.start < 1 ∨ 255 < t.stop - t.start then 0 else F.strtod (cstr (t.text buf))

/-- `jtok_bool`. -/
def jtokBool (t : Jsmntok) (buf : Str) : BitVec 32 :=
  if t.type = .array then 0
  else if t.stop - t.start < 1 ∨ 255 < t.stop - t.start then 0
  else if (cstr (t.text buf)).map tolower = str "true" then 1 else 0

/-- The loop of `jtok_find_token` over the `k` tokens from `i` on. -/
def findTokenFrom (tokens : List Jsmntok) (buf name : Str) : Nat → Nat → Except Fault Int
  | 0, _ => .ok (-1)
  | k + 1, i => do
    let t ← tokAt tokens i
    if t.matches buf name then .ok i else findTokenFrom tokens buf name k (i + 1)

/-- `jtok_find_token`. -/
def jtokFindToken (tokens : List Jsmntok) (buf name : Str) (maxtoken : Nat) : Except Fault Int :=
  findTokenFrom tokens buf name maxtoken 0

/-- The loop of `jtok_find_token_val` over the `k` tokens from `i` on. -/
def findValueFrom (tokens : List Jsmntok) (tok : Int) : Nat → Nat → Except Fault Int
  | 0, _ => .ok (-1)
  | k + 1, i => do
    let t ← tokAt tokens i
    if t.valueof = tok then .ok i else findValueFrom tokens tok k (i + 1)

/-- `jtok_find_token_val`. -/
def jtokFindTokenVal (tokens : List Jsmntok) (buf name : Str) (maxtoken : Nat) : Except Fault Int := do
  let tok ← jtokFindToken tokens buf name maxtoken
  if tok = -1 then .ok (-1) else findValueFrom tokens tok (maxtoken - (tok.toNat + 1)) (tok.toNat + 1)

/-- The loop of `jtok_find_nth_array_member`: `n` tokens are skipped with as many tokens as they have children. -/
def skipMembers (tokens : List Jsmntok) (first : Nat) : Nat → Nat → Except Fault Nat
  | 0, j => .ok j
  | n + 1, j => do
    let t ← tokAt tokens (first + j)
    skipMembers tokens first n (j + (t.size + 1))

/-- `jtok_find_nth_array_member`. -/
def jtokFindNthArrayMember (tokens : List Jsmntok) (buf : Str) (nth : Nat) (name : Str) (maxtoken : Nat) : Except Fault Int := do
  let tok ← jtokFindTokenVal tokens buf name maxtoken
  if tok < 0 then .ok (-1)
  else
    let t ← tokAt tokens tok.toNat
    if t.type ≠ .array then .ok (-1)
    else if t.size < nth then .ok (-1)
    else if nth = 0 then .ok (tok + 1)
    else
      let j ← skipMembers tokens (tok.toNat + 1) nth 0
      if j + tok < maxtoken then .ok (j + tok + 1) else .ok (-1)

/-- The loop of `jtok_find_token_val_nth_array` over the `k` tokens from `i` on. -/
def findFieldFrom (tokens : List Jsmntok) (buf name : Str) : Nat → Nat → Except Fault Int
  | 0, _ => .ok (-1)
  | k + 1, i => do
    let t ← tokAt tokens i
    if t.matches buf name then
      let t' ← tokAt tokens (i + 1)
      if t'.valueof = i then .ok ((i : Int) + 1) else findFieldFrom tokens buf name k (i + 1)
    else findFieldFrom tokens buf name k (i + 1)

/-- `jtok_find_token_val_nth_array`. -/
def jtokFindTokenValNthArray (tokens : List Jsmntok) (buf : Str) (nth : Nat) (arrayname name : Str) (maxtoken : Nat) :
    Except Fault Int := do
  let tok ← jtokFindNthArrayMember tokens buf nth arrayname maxtoken
  if tok = -1 then .ok (-1)
  else
    let t ← tokAt tokens tok.toNat
    findFieldFrom tokens buf name (t.size - 1) (tok.toNat + 1)

end Gnhast
