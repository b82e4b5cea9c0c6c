import Mathlib.Data.List.Basic
import Mathlib.Data.List.Infix
import Mathlib.Data.List.Nodup
import Mathlib.Data.List.TakeWhile
import Mathlib.Tactic.Ring

/-!
# Byte strings as C reads and prints them

A C string is a list of bytes; the terminating NUL is the end of the list, and `cstr` cuts a raw buffer there. The functions
are the ones of the C library that programs use on such strings: the character classes of the C locale, `tolower`,
`strcspn`, `strtok`, the `strtol` family and the integer conversions of `printf`. What is proved of them is how printing and
reading compose, and which bytes their results can hold.
-/

namespace CStr

abbrev Byte : Type := UInt8

/-- A C string, without its terminating NUL. -/
abbrev Str : Type := List Byte

/-- Strings are compared byte by byte. -/
instance lawfulBEqStr : LawfulBEq Str := inferInstance

/-- The bytes of an ASCII literal. -/
def str (s : String) : Str := s.toList.map (fun c => UInt8.ofNat c.toNat)

def chNul : Byte := 0
def chLf : Byte := 10
def chCr : Byte := 13
def chSpace : Byte := 32
def chQuote : Byte := 34
def chComma : Byte := 44
def chMinus : Byte := 45
def chDot : Byte := 46
def chColon : Byte := 58
def chBackslash : Byte := 92

/-- The C string a buffer holds: its bytes up to the first NUL. -/
def cstr (b : Str) : Str := b.takeWhile (fun c => c != chNul)

/-- `isspace` of the C locale. -/
def isspace (c : Byte) : Bool := c == 32 || (decide (9 ≤ c) && decide (c ≤ 13))

/-- `isdigit` of the C locale. -/
def isdigit (c : Byte) : Bool := decide (48 ≤ c) && decide (c ≤ 57)

/-- `isalpha` of the C locale. -/
def isalpha (c : Byte) : Bool := (decide (65 ≤ c) && decide (c ≤ 90)) || (decide (97 ≤ c) && decide (c ≤ 122))

/-- `tolower` of the C locale. -/
def tolower (c : Byte) : Byte := if 65 ≤ c ∧ c ≤ 90 then c + 32 else c

/-- `strcasecmp` finds no difference. -/
def sameCase (s t : Str) : Bool := s.map tolower == t.map tolower

/-- `strncasecmp` finds no difference in the length of the first string. -/
def prefixCase (p s : Str) : Bool := (p.map tolower).isPrefixOf (s.map tolower)

/-- The bytes before the first `sep`, and what follows it; none when `sep` does not occur (`strcspn` with `strchr`). -/
def splitAt (sep : Byte) : Str → Option (Str × Str)
  | [] => none
  | c :: s => if c = sep then some ([], s) else (splitAt sep s).map (fun p => (c :: p.1, p.2))

/-- The pieces of a string between the separators, the empty ones included. -/
def pieces (sep : Byte) : Str → List Str
  | [] => [[]]
  | c :: s =>
    match pieces sep s with
    | p :: ps => if c = sep then [] :: p :: ps else (c :: p) :: ps
    | [] => []

/-- The tokens a loop over `strtok` with one separator yields: the pieces that are not empty. -/
def strtok (sep : Byte) (s : Str) : List Str := (pieces sep s).filter (fun p => !p.isEmpty)

/-- Strings joined by a separator, as a loop prints them that writes the separator before every string but the first. -/
def join (sep : Byte) : List Str → Str
  | [] => []
  | [s] => s
  | s :: t :: ts => s ++ sep :: join sep (t :: ts)

/-! ## Splitting and joining -/

theorem splitAt_append {sep : Byte} {k : Str} (h : sep ∉ k) (v : Str) : splitAt sep (k ++ sep :: v) = some (k, v) := by
  induction k with
  | nil => simp [splitAt]
  | cons c k ih =>
    have hc : c ≠ sep := fun he => h (by simp [he])
    simp [splitAt, hc, ih (fun hk => h (by simp [hk]))]

/-- What `splitAt` returns is the string, cut at a separator that the first part does not hold. -/
theorem splitAt_eq_some {sep : Byte} {s k v : Str} (h : splitAt sep s = some (k, v)) : s = k ++ sep :: v ∧ sep ∉ k := by
  induction s generalizing k with
  | nil => simp [splitAt] at h
  | cons c s ih =>
    unfold splitAt at h
    split at h
    · rename_i hc
      simp only [Option.some.injEq, Prod.mk.injEq] at h
      obtain ⟨rfl, rfl⟩ := h
      simp [hc]
    · rename_i hc
      simp only [Option.map_eq_some_iff, Prod.mk.injEq] at h
      obtain ⟨⟨k', v'⟩, hs, rfl, rfl⟩ := h
      obtain ⟨rfl, hk⟩ := ih hs
      exact ⟨by simp, by simp [Ne.symm hc, hk]⟩

/-- A string is cut into at least one piece. -/
theorem pieces_ne_nil (sep : Byte) (s : Str) : pieces sep s ≠ [] := by
  induction s with
  | nil => simp [pieces]
  | cons c s ih =>
    unfold pieces
    split
    · split <;> simp
    · rename_i h
      exact absurd h ih

/-- A string without the separator is its only piece. -/
theorem pieces_of_notMem {sep : Byte} {s : Str} (h : sep ∉ s) : pieces sep s = [s] := by
  induction s with
  | nil => rfl
  | cons c s ih =>
    have hc : c ≠ sep := fun he => h (by simp [he])
    simp [pieces, ih (fun hs => h (by simp [hs])), hc]

theorem pieces_append {sep : Byte} {s : Str} (h : sep ∉ s) (t : Str) :
    pieces sep (s ++ sep :: t) = s :: pieces sep t := by
  induction s with
  | nil =>
    obtain ⟨p, ps, hp⟩ := List.exists_cons_of_ne_nil (pieces_ne_nil sep t)
    simp [pieces, hp]
  | cons c s ih =>
    have hc : c ≠ sep := fun he => h (by simp [he])
    simp [pieces, ih (fun hs => h (by simp [hs])), hc]

/-- Joining strings that hold no separator and cutting the result gives the strings back. -/
theorem pieces_join {sep : Byte} {ss : List Str} (hne : ss ≠ []) (h : ∀ s ∈ ss, sep ∉ s) :
    pieces sep (join sep ss) = ss := by
  induction ss with
  | nil => exact absurd rfl hne
  | cons s ss ih =>
    cases ss with
    | nil => exact pieces_of_notMem (h s (by simp))
    | cons t ts =>
      rw [join, pieces_append (h s (by simp)), ih (by simp) (fun x hx => h x (by simp [hx]))]

/-- A piece holds no separator, and its bytes are bytes of the string. -/
theorem mem_pieces {sep : Byte} {s p : Str} (h : p ∈ pieces sep s) : sep ∉ p ∧ p ⊆ s := by
  induction s generalizing p with
  | nil =>
    simp only [pieces, List.mem_singleton] at h
    simp [h]
  | cons c s ih =>
    obtain ⟨q, qs, hq⟩ := List.exists_cons_of_ne_nil (pieces_ne_nil sep s)
    simp only [pieces, hq] at h
    by_cases hc : c = sep
    · rw [if_pos hc] at h
      rcases List.mem_cons.mp h with rfl | h
      · simp
      · obtain ⟨h1, h2⟩ := ih (hq ▸ h)
        exact ⟨h1, List.subset_cons_of_subset _ h2⟩
    · rw [if_neg hc] at h
      rcases List.mem_cons.mp h with rfl | h
      · obtain ⟨h1, h2⟩ := ih (p := q) (by simp [hq])
        exact ⟨by simp [Ne.symm hc, h1], List.cons_subset_cons _ h2⟩
      · obtain ⟨h1, h2⟩ := ih (p := p) (by simp [hq, h])
        exact ⟨h1, List.subset_cons_of_subset _ h2⟩

/-- A token is not empty, holds no separator, and its bytes are bytes of the string. -/
theorem mem_strtok {sep : Byte} {s p : Str} (h : p ∈ strtok sep s) : p ≠ [] ∧ sep ∉ p ∧ p ⊆ s := by
  obtain ⟨h1, h2⟩ := List.mem_filter.mp h
  exact ⟨by simpa using h2, mem_pieces h1⟩

/-- The first piece of a string that begins with bytes which are no separators goes on from there. -/
theorem pieces_append_eq {sep : Byte} {k : Str} (h : sep ∉ k) {v p : Str} {ps : List Str} (hv : pieces sep v = p :: ps) :
    pieces sep (k ++ v) = (k ++ p) :: ps := by
  induction k with
  | nil => exact hv
  | cons c k ih =>
    have hc : c ≠ sep := fun he => h (by simp [he])
    simp [pieces, ih (fun hk => h (by simp [hk])), hc]

/-- The first piece begins the string, and every piece stands in it. -/
theorem pieces_parts {sep : Byte} {s p : Str} {ps : List Str} (h : pieces sep s = p :: ps) : p <+: s ∧ ∀ q ∈ p :: ps, q <:+: s := by
  induction s generalizing p ps with
  | nil =>
    cases h
    exact ⟨List.nil_prefix, fun q hq => List.mem_singleton.mp hq ▸ List.nil_infix⟩
  | cons c s ih =>
    obtain ⟨q, qs, hq⟩ := List.exists_cons_of_ne_nil (pieces_ne_nil sep s)
    obtain ⟨hpre, hall⟩ := ih hq
    simp only [pieces, hq] at h
    split at h
    · cases h
      refine ⟨List.nil_prefix, fun r hr => ?_⟩
      rcases List.mem_cons.mp hr with rfl | hr
      · exact List.nil_infix
      · exact (hall r hr).trans (List.suffix_cons c s).isInfix
    · cases h
      have hcons : c :: q <+: c :: s := List.cons_prefix_cons.mpr ⟨rfl, hpre⟩
      refine ⟨hcons, fun r hr => ?_⟩
      rcases List.mem_cons.mp hr with rfl | hr
      · exact hcons.isInfix
      · exact (hall r (List.mem_cons_of_mem q hr)).trans (List.suffix_cons c s).isInfix

/-- A token stands in the string. -/
theorem infix_of_mem_strtok {sep : Byte} {s p : Str} (h : p ∈ strtok sep s) : p <:+: s := by
  obtain ⟨q, qs, hq⟩ := List.exists_cons_of_ne_nil (pieces_ne_nil sep s)
  exact (pieces_parts hq).2 p (hq ▸ (List.mem_filter.mp h).1)

/-- A string that begins with bytes which are no separators has a first token that begins so. -/
theorem exists_strtok_append {sep : Byte} {k : Str} (h : sep ∉ k) (hne : k ≠ []) (v : Str) :
    ∃ p ps, strtok sep (k ++ v) = (k ++ p) :: ps ∧ p <+: v := by
  obtain ⟨p, ps, hp⟩ := List.exists_cons_of_ne_nil (pieces_ne_nil sep v)
  refine ⟨p, ps.filter (fun p => !p.isEmpty), ?_, (pieces_parts hp).1⟩
  rw [strtok, pieces_append_eq h hp, List.filter_cons_of_pos (by simp [hne])]

theorem strtok_append {sep : Byte} {k : Str} (h : sep ∉ k) (hne : k ≠ []) (v : Str) :
    strtok sep (k ++ sep :: v) = k :: strtok sep v := by
  rw [strtok, pieces_append h, List.filter_cons_of_pos (by simp [hne])]
  rfl

/-- Joining strings that hold no separator, and taking the tokens of the result, leaves the empty strings out. -/
theorem strtok_join_filter {sep : Byte} {ss : List Str} (h : ∀ s ∈ ss, sep ∉ s) :
    strtok sep (join sep ss) = ss.filter (fun p => !p.isEmpty) := by
  cases ss with
  | nil => rfl
  | cons s ss => rw [strtok, pieces_join (by simp) h]

theorem mem_strtok_join {sep : Byte} {ss : List Str} (h : ∀ s ∈ ss, sep ∉ s) {p : Str} :
    p ∈ strtok sep (join sep ss) ↔ p ∈ ss ∧ p ≠ [] := by
  rw [strtok_join_filter h, List.mem_filter]
  simp

/-- The bytes of joined strings are bytes of the strings, and separators. -/
theorem mem_join {sep c : Byte} {ss : List Str} (h : c ∈ join sep ss) : c = sep ∨ ∃ s ∈ ss, c ∈ s := by
  induction ss with
  | nil => simp [join] at h
  | cons s ss ih =>
    cases ss with
    | nil => exact Or.inr ⟨s, by simp, h⟩
    | cons t ts =>
      simp only [join, List.mem_append, List.mem_cons] at h
      rcases h with h | h | h
      · exact Or.inr ⟨s, by simp, h⟩
      · exact Or.inl h
      · rcases ih h with h | ⟨x, hx, hc⟩
        · exact Or.inl h
        · exact Or.inr ⟨x, List.mem_cons_of_mem _ hx, hc⟩

/-! ## The end of a string -/

/-- A NUL behind a text does not change the string. -/
theorem cstr_append_nul (body : Str) : cstr (body ++ [chNul]) = cstr body := by
  unfold cstr
  induction body with
  | nil => rfl
  | cons c body ih =>
    simp only [List.cons_append, List.takeWhile_cons]
    rw [ih]

theorem cstr_append {k : Str} (h : chNul ∉ k) (v : Str) : cstr (k ++ v) = k ++ cstr v :=
  List.takeWhile_append_of_pos fun _ hc => bne_iff_ne.mpr fun he => h (he ▸ hc)

theorem ne_chNul_of_mem_cstr {c : Byte} {l : Str} (h : c ∈ cstr l) : c ≠ chNul := by
  simpa using List.mem_takeWhile_imp h

/-! ## Numerals -/

/-- The value of a run of decimal digits. -/
def digitsVal (s : Str) : Nat := s.foldl (fun n c => 10 * n + (c.toNat - 48)) 0

/-- A natural number in decimal, as `%u` and its kin print it. -/
def decNat (n : Nat) : Str := (Nat.toDigits 10 n).map (fun c => UInt8.ofNat c.toNat)

/-- An integer in decimal, as `%d` and its kin print it. -/
def decInt : Int → Str
  | .ofNat n => decNat n
  | .negSucc n => chMinus :: decNat (n + 1)

/-- The sign of a numeral, and what follows it. -/
def scanSign : Str → Bool × Str
  | [] => (false, [])
  | c :: s => if c = 45 then (true, s) else if c = 43 then (false, s) else (false, c :: s)

/-- The integer numeral a string opens with, after blanks: its sign and the value of its digits (zero when there are none). -/
def scanInt (s : Str) : Bool × Nat :=
  let p := scanSign (s.dropWhile isspace)
  (p.1, digitsVal (p.2.takeWhile isdigit))

/-- `strtol` and `strtoll` in base ten, with 64-bit results: a value out of range gives the nearest bound. -/
def strtol (s : Str) : Int :=
  let p := scanInt s
  if p.1 then max (-(p.2 : Int)) (-2 ^ 63) else min (p.2 : Int) (2 ^ 63 - 1)

/-- `strtoul` in base ten, with a 64-bit result: a value out of range gives the bound, and a minus sign negates the result. -/
def strtoul (s : Str) : BitVec 64 :=
  let p := scanInt s
  if 2 ^ 64 ≤ p.2 then BitVec.allOnes 64 else if p.1 then -BitVec.ofNat 64 p.2 else BitVec.ofNat 64 p.2

/-- `atoi`: `strtol` cut to an `int`. -/
def atoi (s : Str) : BitVec 32 := BitVec.ofInt 32 (strtol s)

/-- The bytes a digit character can be. -/
theorem isdigit_ofNat_toNat {c : Char} (h : c.isDigit = true) :
    isdigit (UInt8.ofNat c.toNat) = true ∧ (UInt8.ofNat c.toNat).toNat = c.toNat := by
  have h1 : 48 ≤ c.toNat ∧ c.toNat ≤ 57 := by
    simp only [Char.isDigit, Bool.and_eq_true, decide_eq_true_eq] at h
    exact ⟨UInt32.le_iff_toNat_le.mp h.1, UInt32.le_iff_toNat_le.mp h.2⟩
  have h2 : (UInt8.ofNat c.toNat).toNat = c.toNat := by
    rw [UInt8.toNat_ofNat']
    omega
  refine ⟨?_, h2⟩
  simp only [isdigit, Bool.and_eq_true, decide_eq_true_eq, UInt8.le_iff_toNat_le, h2]
  exact ⟨h1.1, h1.2⟩

/-- Every byte of a printed number is a digit. -/
theorem isdigit_of_mem_decNat {n : Nat} {c : Byte} (h : c ∈ decNat n) : isdigit c = true := by
  obtain ⟨d, hd, rfl⟩ := List.mem_map.mp h
  exact (isdigit_ofNat_toNat (Nat.isDigit_of_mem_toDigits (by decide) (by decide) hd)).1

theorem decNat_ne_nil (n : Nat) : decNat n ≠ [] := by
  simp [decNat]

theorem digitsVal_append (s t : Str) : digitsVal (s ++ t) = digitsVal s * 10 ^ t.length + digitsVal t := by
  have key : ∀ (t : Str) (n : Nat),
      t.foldl (fun n c => 10 * n + (c.toNat - 48)) n = n * 10 ^ t.length + digitsVal t := by
    intro t
    induction t with
    | nil => intro n; simp [digitsVal]
    | cons c t ih =>
      intro n
      have h : digitsVal (c :: t) = (10 * 0 + (c.toNat - 48)) * 10 ^ t.length + digitsVal t := ih _
      rw [List.foldl_cons, ih, h, List.length_cons, pow_succ]
      ring
  rw [digitsVal, List.foldl_append, key]
  rfl

/-- Reading a printed number gives the number back. -/
theorem digitsVal_decNat (n : Nat) : digitsVal (decNat n) = n := by
  have key : ∀ (l : List Char) (k : Nat), (∀ c ∈ l, c.isDigit = true) →
      (l.map (fun c => UInt8.ofNat c.toNat)).foldl (fun n c => 10 * n + (c.toNat - 48)) k = Nat.ofDigitChars 10 l k := by
    intro l
    induction l with
    | nil => intro k _; simp
    | cons c l ih =>
      intro k h
      rw [List.map_cons, List.foldl_cons, Nat.ofDigitChars_cons, (isdigit_ofNat_toNat (h c (by simp))).2]
      exact ih _ (fun d hd => h d (by simp [hd]))
  rw [digitsVal, decNat, key _ _ (fun c hc => Nat.isDigit_of_mem_toDigits (by decide) (by decide) hc)]
  exact Nat.ofDigitChars_ten_toDigits

theorem decNat_inj {m n : Nat} (h : decNat m = decNat n) : m = n := by
  rw [← digitsVal_decNat m, h, digitsVal_decNat]

/-- A digit is not one of the bytes that separate, quote or sign. -/
theorem ne_of_isdigit {c : Byte} (h : isdigit c = true) :
    c ≠ chNul ∧ c ≠ chLf ∧ c ≠ chCr ∧ c ≠ chSpace ∧ c ≠ chQuote ∧ c ≠ chComma ∧ c ≠ chMinus ∧ c ≠ chDot ∧
      c ≠ chColon ∧ c ≠ chBackslash ∧ c ≠ 43 ∧ isspace c = false := by
  simp only [isdigit, Bool.and_eq_true, decide_eq_true_eq] at h
  have hs : isspace c = false := by
    simp only [isspace, Bool.or_eq_false_iff, beq_eq_false_iff_ne, ne_eq, Bool.and_eq_false_iff, decide_eq_false_iff_not]
    exact ⟨fun he => absurd (he ▸ h.1) (by decide), Or.inr (fun hle => absurd (UInt8.le_trans h.1 hle) (by decide))⟩
  refine ⟨?_, ?_, ?_, ?_, ?_, ?_, ?_, ?_, ?_, ?_, ?_, hs⟩
  all_goals
    rintro rfl
    revert h
    decide

/-- The bytes of a printed integer: digits, and perhaps a minus sign. -/
theorem of_mem_decInt {z : Int} {c : Byte} (h : c ∈ decInt z) : c = chMinus ∨ isdigit c = true := by
  cases z with
  | ofNat n => exact Or.inr (isdigit_of_mem_decNat h)
  | negSucc n =>
    rcases List.mem_cons.mp h with h | h
    · exact Or.inl h
    · exact Or.inr (isdigit_of_mem_decNat h)

theorem decInt_ne_nil (z : Int) : decInt z ≠ [] := by
  cases z with
  | ofNat n => exact decNat_ne_nil n
  | negSucc n => simp [decInt]

/-- Scanning a run of digits finds no sign and reads the run. -/
theorem scanInt_digits {s : Str} (hne : s ≠ []) (h : ∀ c ∈ s, isdigit c = true) : scanInt s = (false, digitsVal s) := by
  obtain ⟨c, t, rfl⟩ := List.exists_cons_of_ne_nil hne
  have hc := ne_of_isdigit (h c (by simp))
  have h1 : (c :: t).dropWhile isspace = c :: t := by
    rw [List.dropWhile_cons, hc.2.2.2.2.2.2.2.2.2.2.2]
    rfl
  have h2 : scanSign (c :: t) = (false, c :: t) := by
    have h45 : c ≠ 45 := hc.2.2.2.2.2.2.1
    have h43 : c ≠ 43 := hc.2.2.2.2.2.2.2.2.2.2.1
    simp [scanSign, h45, h43]
  have h3 : (c :: t).takeWhile isdigit = c :: t := List.takeWhile_eq_self_iff.mpr h
  simp only [scanInt, h1, h2, h3]

/-- Scanning a printed integer finds its sign and its absolute value. -/
theorem scanInt_decInt (z : Int) : scanInt (decInt z) = (decide (z < 0), z.natAbs) := by
  cases z with
  | ofNat n =>
    rw [decInt, scanInt_digits (decNat_ne_nil n) (fun _ h => isdigit_of_mem_decNat h), digitsVal_decNat]
    simp
  | negSucc n =>
    have h1 : (chMinus :: decNat (n + 1)).dropWhile isspace = chMinus :: decNat (n + 1) := rfl
    have h2 : (decNat (n + 1)).takeWhile isdigit = decNat (n + 1) :=
      List.takeWhile_eq_self_iff.mpr (fun _ h => isdigit_of_mem_decNat h)
    have h3 : scanSign (chMinus :: decNat (n + 1)) = (true, decNat (n + 1)) := rfl
    simp only [decInt, scanInt, h1, h3, h2, digitsVal_decNat]
    simp [Int.negSucc_lt_zero]

/-- `strtol` reads back every 64-bit integer that was printed. -/
theorem strtol_decInt {z : Int} (h1 : -2 ^ 63 ≤ z) (h2 : z < 2 ^ 63) : strtol (decInt z) = z := by
  simp only [strtol, scanInt_decInt]
  split
  · rename_i h
    have hz : z < 0 := by simpa using h
    omega
  · rename_i h
    have hz : ¬ z < 0 := by simpa using h
    omega

/-- `atoi` reads back every `int` that was printed. -/
theorem atoi_decInt (v : BitVec 32) : atoi (decInt v.toInt) = v := by
  have h1 := v.toInt_lt
  have h2 := v.le_toInt
  rw [atoi, strtol_decInt (by omega) (by omega), BitVec.ofInt_toInt]

/-- `strtoul`, cut to 32 bits, reads back every unsigned value, also where it was printed as a signed one. -/
theorem strtoul_decInt (v : BitVec 32) : (strtoul (decInt v.toInt)).setWidth 32 = v := by
  have h1 := v.toInt_lt
  have h2 := v.le_toInt
  have hr : ¬ 2 ^ 64 ≤ v.toInt.natAbs := by omega
  simp only [strtoul, scanInt_decInt, if_neg hr]
  have hk : BitVec.ofInt 32 v.toInt = v := BitVec.ofInt_toInt
  split
  · rename_i h
    have hz : v.toInt < 0 := by simpa using h
    rw [BitVec.setWidth_neg_of_le (by decide), BitVec.setWidth_ofNat_of_le (by decide)]
    rw [← BitVec.ofInt_natCast, ← BitVec.ofInt_neg, show (-(v.toInt.natAbs : Int)) = v.toInt by omega, hk]
  · rename_i h
    have hz : ¬ v.toInt < 0 := by simpa using h
    rw [BitVec.setWidth_ofNat_of_le (by decide), ← BitVec.ofInt_natCast,
      show ((v.toInt.natAbs : Int)) = v.toInt by omega, hk]

/-- `strtoul`, cut to 32 bits, reads back every unsigned value that was printed. -/
theorem strtoul_decNat (v : BitVec 32) : (strtoul (decNat v.toNat)).setWidth 32 = v := by
  have hv := v.isLt
  have hscan : scanInt (decNat v.toNat) = (false, v.toNat) := by
    rw [scanInt_digits (decNat_ne_nil _) (fun _ hc => isdigit_of_mem_decNat hc), digitsVal_decNat]
  have hr : ¬ 2 ^ 64 ≤ v.toNat := by omega
  simp only [strtoul, hscan, if_neg hr, Bool.false_eq_true, if_false]
  rw [BitVec.setWidth_ofNat_of_le (by decide), BitVec.ofNat_toNat, BitVec.setWidth_eq]

/-- `strtoll` reads back every 64-bit integer that was printed. -/
theorem strtoll_decInt (v : BitVec 64) : BitVec.ofInt 64 (strtol (decInt v.toInt)) = v := by
  rw [strtol_decInt (by have := v.le_toInt; omega) (by have := v.toInt_lt; omega), BitVec.ofInt_toInt]

/-! ## Tables of names -/

/-- The bytes of a string as the digits of a number. -/
def bytesVal (s : Str) : Nat := s.foldl (fun n c => 256 * n + c.toNat) 0

/-- Strings with different numbers differ: the names of a table are told apart by comparing numbers. -/
theorem nodup_of_bytesVal {l : List Str} (h : (l.map bytesVal).Nodup) : l.Nodup := List.Nodup.of_map bytesVal h

end CStr
