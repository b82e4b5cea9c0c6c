import Gnhast.Lib.CStr

/-!
# Reading a line by a format

`sscanf` with the conversions for `unsigned int`s in hexadecimal, blanks and ordinary characters, and its conversion for `int`s in decimal.
It stops at the first directive that fails, and assigns what it has converted until then. What is proved of it is how it reads numbers that
were printed with two hexadecimal digits, and runs of decimal digits.
-/

namespace CStr

/-- `isxdigit` of the C locale. -/
def isxdigit (c : Byte) : Bool := isdigit c || (decide (65 ≤ c) && decide (c ≤ 70)) || (decide (97 ≤ c) && decide (c ≤ 102))

/-- The value of a hexadecimal digit. -/
def xdigitVal (c : Byte) : Nat := if c ≤ 57 then c.toNat - 48 else if c ≤ 70 then c.toNat - 55 else c.toNat - 87

/-- The value of a run of hexadecimal digits. -/
def xdigitsVal (s : Str) : Nat := s.foldl (fun n c => 16 * n + xdigitVal c) 0

/-- What stands behind `0x`. -/
def dropX (s : Str) : Str :=
  match s with
  | a :: b :: t => if a = 48 ∧ (b = 88 ∨ b = 120) then t else s
  | _ => s

/-- A conversion with `%X`: the number, as `strtoul` gives it and an `unsigned int` holds it, and what is left. -/
def scanX (s : Str) : Option (BitVec 32 × Str) :=
  let p := scanSign (s.dropWhile isspace)
  let t := dropX p.2
  let digits := t.takeWhile isxdigit
  if digits = [] then none
  else
    let n := min (xdigitsVal digits) (2 ^ 64 - 1)
    some (if p.1 then -BitVec.ofNat 32 n else BitVec.ofNat 32 n, t.drop digits.length)

/-- A conversion with `%d`: the number, as `strtol` gives it and an `int` holds it, and what is left. -/
def scanD (s : Str) : Option (BitVec 32 × Str) :=
  let p := scanSign (s.dropWhile isspace)
  let digits := p.2.takeWhile isdigit
  if digits = [] then none
  else
    let n : Int := digitsVal digits
    some (BitVec.ofInt 32 (if p.1 then max (-n) (-2 ^ 63) else min n (2 ^ 63 - 1)), p.2.drop digits.length)

/-- The directives of a format. -/
inductive Directive
  | x
  | blank
  | char (c : Byte)
deriving Repr, DecidableEq

/-- `sscanf`: the values it assigns. -/
def sscanf : List Directive → Str → List (BitVec 32)
  | [], _ => []
  | .x :: fmt, s =>
    match scanX s with
    | none => []
    | some (v, s) => v :: sscanf fmt s
  | .blank :: fmt, s => sscanf fmt (s.dropWhile isspace)
  | .char c :: fmt, s =>
    match s with
    | [] => []
    | d :: s => if d = c then sscanf fmt s else []

/-! ## Numbers with two digits -/

theorem isxdigit_iff {c : Byte} : isxdigit c = true ↔
    (48 ≤ c.toNat ∧ c.toNat ≤ 57) ∨ (65 ≤ c.toNat ∧ c.toNat ≤ 70) ∨ (97 ≤ c.toNat ∧ c.toNat ≤ 102) := by
  simp [isxdigit, isdigit, UInt8.le_iff_toNat_le, or_assoc]

theorem not_isspace_of_isxdigit {c : Byte} (h : isxdigit c = true) : isspace c = false := by
  rw [isxdigit_iff] at h
  simp only [isspace, Bool.or_eq_false_iff, beq_eq_false_iff_ne, ne_eq, Bool.and_eq_false_iff, decide_eq_false_iff_not,
    UInt8.le_iff_toNat_le, ← UInt8.toNat_inj, UInt8.reduceToNat]
  omega

theorem ne_of_isxdigit {c d : Byte} (h : isxdigit c = true) (hd : isxdigit d = false) : c ≠ d := by
  rintro rfl
  rw [h] at hd
  cases hd

/-- A number of two digits, behind which no digit stands. -/
theorem scanX_two {a b : Byte} (ha : isxdigit a = true) (hb : isxdigit b = true) {s : Str}
    (hs : ∀ c ∈ s.head?, isxdigit c = false) :
    scanX (a :: b :: s) = some (BitVec.ofNat 32 (16 * xdigitVal a + xdigitVal b), s) := by
  have hsign : scanSign ((a :: b :: s).dropWhile isspace) = (false, a :: b :: s) := by
    rw [List.dropWhile_cons_of_neg (by rw [not_isspace_of_isxdigit ha]; decide), scanSign,
      if_neg (ne_of_isxdigit ha (by decide)), if_neg (ne_of_isxdigit ha (by decide))]
  have hx : dropX (a :: b :: s) = a :: b :: s :=
    if_neg fun h => h.2.elim (ne_of_isxdigit hb (by decide)) (ne_of_isxdigit hb (by decide))
  have htake : (a :: b :: s).takeWhile isxdigit = [a, b] := by
    rw [List.takeWhile_cons_of_pos ha, List.takeWhile_cons_of_pos hb]
    cases s with
    | nil => rfl
    | cons c s => rw [List.takeWhile_cons_of_neg (by rw [hs c rfl]; decide)]
  have hval : ∀ {c : Byte}, isxdigit c = true → xdigitVal c < 16 := by
    intro c hc
    rw [isxdigit_iff] at hc
    unfold xdigitVal
    simp only [UInt8.le_iff_toNat_le, UInt8.reduceToNat]
    split
    · omega
    · split <;> omega
  have hsmall : min (16 * xdigitVal a + xdigitVal b) (2 ^ 64 - 1) = 16 * xdigitVal a + xdigitVal b := by
    have h1 := hval ha
    have h2 := hval hb
    omega
  have hdigits : xdigitsVal [a, b] = 16 * xdigitVal a + xdigitVal b := by simp [xdigitsVal]
  unfold scanX
  simp only [hsign, hx, htake, hdigits, hsmall, if_neg (List.cons_ne_nil a [b])]
  rfl

/-! ## Runs of decimal digits -/

/-- A run of digits that stands alone, or in front of something else. -/
theorem scanD_digits {s : Str} (hne : s ≠ []) (h : ∀ c ∈ s, isdigit c = true) {t : Str} (ht : ∀ c ∈ t.head?, isdigit c = false) :
    scanD (s ++ t) = some (BitVec.ofInt 32 (min (digitsVal s : Int) (2 ^ 63 - 1)), t) := by
  obtain ⟨c, s', rfl⟩ := List.exists_cons_of_ne_nil hne
  have hc := ne_of_isdigit (h c List.mem_cons_self)
  have hsign : scanSign ((c :: s' ++ t).dropWhile isspace) = (false, c :: s' ++ t) := by
    have h45 : c ≠ 45 := hc.2.2.2.2.2.2.1
    have h43 : c ≠ 43 := hc.2.2.2.2.2.2.2.2.2.2.1
    rw [List.cons_append, List.dropWhile_cons_of_neg (by rw [hc.2.2.2.2.2.2.2.2.2.2.2]; decide), scanSign, if_neg h45, if_neg h43]
  have htake : (c :: s' ++ t).takeWhile isdigit = c :: s' := by
    rw [List.takeWhile_append_of_pos h]
    cases t with
    | nil => rw [List.takeWhile_nil, List.append_nil]
    | cons d t => rw [List.takeWhile_cons_of_neg (by rw [ht d rfl]; decide), List.append_nil]
  unfold scanD
  simp only [hsign, htake, if_neg hne, Bool.false_eq_true, if_false, List.drop_left]

/-- A run of digits has a value below the power of ten with its length. -/
theorem digitsVal_lt {s : Str} (h : ∀ c ∈ s, isdigit c = true) : digitsVal s < 10 ^ s.length := by
  induction s with
  | nil => simp [digitsVal]
  | cons c s ih =>
    have hc : c.toNat ≤ 57 := by
      have hd := h c List.mem_cons_self
      simp only [isdigit, Bool.and_eq_true, decide_eq_true_eq, UInt8.le_iff_toNat_le] at hd
      exact hd.2
    have hs := ih fun d hd => h d (List.mem_cons_of_mem c hd)
    have hcons : digitsVal (c :: s) = (c.toNat - 48) * 10 ^ s.length + digitsVal s := by
      rw [← List.singleton_append, digitsVal_append]
      simp [digitsVal]
    have hmul : (c.toNat - 48) * 10 ^ s.length ≤ 9 * 10 ^ s.length := Nat.mul_le_mul_right _ (by omega)
    rw [hcons, List.length_cons, pow_succ]
    omega

end CStr
