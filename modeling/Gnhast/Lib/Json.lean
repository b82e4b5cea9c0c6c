import Gnhast.Lib.CStr

/-!
# JSON texts

The grammar of JSON over bytes, as a relation between a text, the value it opens with, and the rest: a byte of 0x80 or more stands in
strings only, and the text as a whole is UTF-8. A program that prints strings between quotes prints a text of the grammar when the strings
need no escapes (`text_printed`, `members_printed_iff`).
-/

namespace Json

open CStr

/-! ## UTF-8 -/

/-- Bytes of ASCII. -/
def Ascii (s : Str) : Prop := ∀ c ∈ s, c < 0x80

instance (s : Str) : Decidable (Ascii s) := List.decidableBAll _ s

/-- A sequence of encoded characters. -/
def Utf8 (s : Str) : Prop := ∃ cs : List Char, s = cs.flatMap String.utf8EncodeChar

/-- A character is one byte of ASCII, or has none. -/
theorem utf8EncodeChar_ascii (c : Char) : (∃ x, x < 0x80 ∧ String.utf8EncodeChar c = [x]) ∨ ∀ x ∈ String.utf8EncodeChar c, 0x80 ≤ x := by
  unfold String.utf8EncodeChar
  dsimp only
  split
  · rename_i h
    refine .inl ⟨_, ?_, rfl⟩
    rw [UInt8.lt_iff_toNat_lt, UInt8.toNat_ofNat']
    exact Nat.lt_of_le_of_lt (Nat.mod_le _ _) (Nat.lt_succ_of_le h)
  · refine .inr fun x hx => ?_
    rw [UInt8.le_iff_toNat_le]
    split at hx
    · simp only [List.mem_cons, List.not_mem_nil, or_false] at hx
      rcases hx with rfl | rfl <;> simp <;> omega
    · split at hx
      · simp only [List.mem_cons, List.not_mem_nil, or_false] at hx
        rcases hx with rfl | rfl | rfl <;> simp <;> omega
      · simp only [List.mem_cons, List.not_mem_nil, or_false] at hx
        rcases hx with rfl | rfl | rfl | rfl <;> simp <;> omega

/-- Bytes in front of a byte that is not among them are in front of it in the whole. -/
theorem append_eq_append_cons {α : Type} {xs s u t : List α} {c : α} (h : xs ++ s = u ++ c :: t) (hc : c ∉ xs) :
    ∃ u', u = xs ++ u' ∧ s = u' ++ c :: t := by
  rcases List.append_eq_append_iff.mp h with ⟨u', hu, hs⟩ | ⟨v, hx, hv⟩
  · exact ⟨u', hu, hs⟩
  · cases v with
    | nil => exact ⟨[], by simpa using hx.symm, by simpa using hv.symm⟩
    | cons y v =>
      cases hv
      exact absurd (by rw [hx]; simp) hc

/-- A byte of ASCII ends a character and is one itself. -/
theorem utf8_append_cons_iff {s t : Str} {c : Byte} (hc : c < 0x80) : Utf8 (s ++ c :: t) ↔ Utf8 s ∧ Utf8 (c :: t) := by
  constructor
  · rintro ⟨cs, h⟩
    induction cs generalizing s with
    | nil => simp at h
    | cons ch cs ih =>
      rw [List.flatMap_cons] at h
      cases s with
      | nil => exact ⟨⟨[], rfl⟩, ⟨ch :: cs, by simpa using h⟩⟩
      | cons x s =>
        have hsplit : ∃ u', x :: s = String.utf8EncodeChar ch ++ u' ∧ cs.flatMap String.utf8EncodeChar = u' ++ c :: t := by
          rcases utf8EncodeChar_ascii ch with ⟨y, -, hy⟩ | hall
          · rw [hy] at h ⊢
            obtain ⟨rfl, htail⟩ := List.cons.inj h
            exact ⟨s, rfl, htail.symm⟩
          · exact append_eq_append_cons h.symm fun hmem => absurd (hall c hmem) (UInt8.not_le.mpr hc)
        obtain ⟨u', hu, hrest⟩ := hsplit
        obtain ⟨⟨ds, hds⟩, ht⟩ := ih hrest.symm
        exact ⟨⟨ch :: ds, by rw [hu, hds, List.flatMap_cons]⟩, ht⟩
  · rintro ⟨⟨cs, hs⟩, ds, ht⟩
    exact ⟨cs ++ ds, by rw [hs, ht, List.flatMap_append]⟩

theorem utf8_cons_iff {t : Str} {c : Byte} (hc : c < 0x80) : Utf8 (c :: t) ↔ Utf8 t := by
  constructor
  · rintro ⟨cs, h⟩
    cases cs with
    | nil => simp at h
    | cons ch cs =>
      rw [List.flatMap_cons] at h
      rcases utf8EncodeChar_ascii ch with ⟨y, -, hy⟩ | hall
      · rw [hy] at h
        exact ⟨cs, (List.cons.inj h).2⟩
      · obtain ⟨y, ys, hy⟩ := List.exists_cons_of_ne_nil (@String.utf8EncodeChar_ne_nil ch)
        rw [hy] at h hall
        rw [(List.cons.inj h).1] at hc
        exact absurd (hall y List.mem_cons_self) (UInt8.not_le.mpr hc)
  · rintro ⟨cs, rfl⟩
    have hlt : c.toNat ≤ 0x7f := Nat.le_of_lt_succ (UInt8.lt_iff_toNat_lt.mp hc)
    have henc : String.utf8EncodeChar (Char.ofUInt8 c) = [c] := by
      unfold String.utf8EncodeChar
      have hval : (Char.ofUInt8 c).val.toNat = c.toNat := rfl
      dsimp only
      rw [hval, if_pos hlt, UInt8.ofNat_toNat]
    exact ⟨Char.ofUInt8 c :: cs, by rw [List.flatMap_cons, henc, List.singleton_append]⟩

theorem utf8_nil : Utf8 [] := ⟨[], rfl⟩

theorem utf8_ascii_append {a : Str} (h : Ascii a) (t : Str) : Utf8 (a ++ t) ↔ Utf8 t := by
  induction a with
  | nil => rfl
  | cons c a ih =>
    obtain ⟨hc, ha⟩ := List.forall_mem_cons.mp h
    rw [List.cons_append, utf8_cons_iff hc]
    exact ih ha

/-! ## Values -/

/-- A JSON value: numbers are kept as they are written, and an object keeps the order of its members. -/
inductive Value
  | null
  | bool (b : Bool)
  | num (text : Str)
  | str (s : Str)
  | arr (vs : List Value)
  | obj (ms : List (Str × Value))

/-- White space is skipped. -/
def skip (s : Str) : Str := s.dropWhile fun c => decide (c ∈ [(32 : Byte), 9, 10, 13])

/-- Digits, at least one. -/
def Digits (s : Str) : Prop := s ≠ [] ∧ ∀ c ∈ s, isdigit c = true

/-- The integral part of a number has no leading zeros. -/
def IntPart (s : Str) : Prop := s = [48] ∨ Digits s ∧ s.head? ≠ some 48

/-- What may follow the integral part of a number: a point and digits. -/
def FracPart (s : Str) : Prop := s = [] ∨ ∃ ds, Digits ds ∧ s = 46 :: ds

/-- An exponent. -/
def ExpPart (s : Str) : Prop :=
  s = [] ∨ ∃ ds, Digits ds ∧ (s = 101 :: ds ∨ s = 69 :: ds ∨ ∃ sign ∈ [(43 : Byte), 45], s = 101 :: sign :: ds ∨ s = 69 :: sign :: ds)

/-- A number. -/
def Number (s : Str) : Prop :=
  ∃ minus ip fp ep, s = minus ++ ip ++ fp ++ ep ∧ (minus = [] ∨ minus = [45]) ∧ IntPart ip ∧ FracPart fp ∧ ExpPart ep

/-- What an escape of one character stands for. -/
def escape (c : Byte) : Option Byte :=
  if c = 34 ∨ c = 92 ∨ c = 47 then some c
  else if c = 98 then some 8
  else if c = 102 then some 12
  else if c = 110 then some 10
  else if c = 114 then some 13
  else if c = 116 then some 9
  else none

/-- The value of a hexadecimal digit. -/
def hexDigit (c : Byte) : Option Nat :=
  if 48 ≤ c ∧ c ≤ 57 then some (c.toNat - 48)
  else if 97 ≤ c ∧ c ≤ 102 then some (c.toNat - 87)
  else if 65 ≤ c ∧ c ≤ 70 then some (c.toNat - 55)
  else none

/-- A backslash, a `u` and four hexadecimal digits. -/
def HexEscape (s : Str) (n : Nat) : Prop :=
  ∃ a b c d x y z w, s = [92, 117, a, b, c, d] ∧ hexDigit a = some x ∧ hexDigit b = some y ∧ hexDigit c = some z ∧ hexDigit d = some w ∧
    n = 4096 * x + 256 * y + 16 * z + w

/-- A byte that stands for itself in a string. -/
def Plain (c : Byte) : Prop := 0x20 ≤ c ∧ c ≠ 34 ∧ c ≠ 92

instance (c : Byte) : Decidable (Plain c) := inferInstanceAs (Decidable (_ ∧ _))

/-- The rest of a string behind its opening quote: the text, what it stands for, and what follows the closing quote. -/
inductive Text : Str → Str → Str → Prop
  | close (rest : Str) : Text (34 :: rest) [] rest
  | plain {c : Byte} {s d rest : Str} (hc : Plain c) (h : Text s d rest) : Text (c :: s) (c :: d) rest
  | escaped {e x : Byte} {s d rest : Str} (he : escape e = some x) (h : Text s d rest) : Text (92 :: e :: s) (x :: d) rest
  | unicode {u s d rest : Str} {n : Nat} (hu : HexEscape u n) (hn : n < 0xD800 ∨ 0xDFFF < n) (h : Text s d rest) :
      Text (u ++ s) (String.utf8EncodeChar (Char.ofNat n) ++ d) rest
  | pair {u v s d rest : Str} {hi lo : Nat} (hu : HexEscape u hi) (hv : HexEscape v lo) (hhi : 0xD800 ≤ hi ∧ hi ≤ 0xDBFF)
      (hlo : 0xDC00 ≤ lo ∧ lo ≤ 0xDFFF) (h : Text s d rest) :
      Text (u ++ v ++ s) (String.utf8EncodeChar (Char.ofNat (0x10000 + 0x400 * (hi - 0xD800) + (lo - 0xDC00))) ++ d) rest

mutual

/-- A value, and what follows it. -/
inductive Reads : Str → Value → Str → Prop
  | null (rest : Str) : Reads (str "null" ++ rest) .null rest
  | bool (b : Bool) (rest : Str) : Reads (str (if b then "true" else "false") ++ rest) (.bool b) rest
  | num {s : Str} (h : Number s) (rest : Str) : Reads (s ++ rest) (.num s) rest
  | str {s d rest : Str} (h : Text s d rest) : Reads (34 :: s) (.str d) rest
  | arrNil {s rest : Str} (h : skip s = 93 :: rest) : Reads (91 :: s) (.arr []) rest
  | arr {s rest : Str} {vs : List Value} (h : Elements s vs rest) : Reads (91 :: s) (.arr vs) rest
  | objNil {s rest : Str} (h : skip s = 125 :: rest) : Reads (123 :: s) (.obj []) rest
  | obj {s rest : Str} {ms : List (Str × Value)} (h : Members s ms rest) : Reads (123 :: s) (.obj ms) rest

/-- The elements of an array, and what follows its closing bracket. -/
inductive Elements : Str → List Value → Str → Prop
  | last {s s' rest : Str} {v : Value} (hv : Reads (skip s) v s') (hr : skip s' = 93 :: rest) : Elements s [v] rest
  | more {s s' s'' rest : Str} {v : Value} {vs : List Value} (hv : Reads (skip s) v s') (hr : skip s' = 44 :: s'')
      (hvs : Elements s'' vs rest) : Elements s (v :: vs) rest

/-- The members of an object, and what follows its closing brace. -/
inductive Members : Str → List (Str × Value) → Str → Prop
  | last {s s1 k s2 s3 s4 rest : Str} {v : Value} (hq : skip s = 34 :: s1) (hk : Text s1 k s2) (hc : skip s2 = 58 :: s3)
      (hv : Reads (skip s3) v s4) (hr : skip s4 = 125 :: rest) : Members s [(k, v)] rest
  | more {s s1 k s2 s3 s4 s5 rest : Str} {v : Value} {ms : List (Str × Value)} (hq : skip s = 34 :: s1) (hk : Text s1 k s2)
      (hc : skip s2 = 58 :: s3) (hv : Reads (skip s3) v s4) (hr : skip s4 = 44 :: s5) (hms : Members s5 ms rest) :
      Members s ((k, v) :: ms) rest

end

/-- A text of one value, in UTF-8. -/
def Valid (text : Str) (v : Value) : Prop := Utf8 text ∧ ∃ rest, Reads (skip text) v rest ∧ skip rest = []

/-! ## Strings without escapes -/

theorem text_of_plain {d : Str} (h : ∀ c ∈ d, Plain c) (rest : Str) : Text (d ++ 34 :: rest) d rest := by
  induction d with
  | nil => exact .close rest
  | cons c d ih =>
    obtain ⟨hc, hd⟩ := List.forall_mem_cons.mp h
    exact .plain hc (ih hd)

theorem hexDigit_quote : hexDigit 34 = none := rfl

theorem HexEscape.quote_not_mem {u : Str} {n : Nat} (h : HexEscape u n) : (34 : Byte) ∉ u := by
  obtain ⟨a, b, c, d, x, y, z, w, rfl, ha, hb, hc, hd, -⟩ := h
  have hne : ∀ {e : Byte} {v : Nat}, hexDigit e = some v → (34 : Byte) ≠ e := by
    rintro e v he rfl
    exact nomatch hexDigit_quote.symm.trans he
  simp only [List.mem_cons, List.not_mem_nil, or_false, not_or]
  exact ⟨by decide, by decide, hne ha, hne hb, hne hc, hne hd⟩

theorem HexEscape.length {u : Str} {n : Nat} (h : HexEscape u n) : u.length = 6 := by
  obtain ⟨a, b, c, d, x, y, z, w, rfl, -⟩ := h
  rfl

theorem HexEscape.head {u : Str} {n : Nat} (h : HexEscape u n) : ∃ u', u = 92 :: u' := by
  obtain ⟨a, b, c, d, x, y, z, w, rfl, -⟩ := h
  exact ⟨_, rfl⟩

/-- Without escapes a string is read as it stands. -/
theorem text_plain_inv {w t d rest : Str} (hw : ∀ c ∈ w, Plain c) (h : Text (w ++ 34 :: t) d rest) : d = w ∧ rest = t := by
  generalize hs : w ++ 34 :: t = s at h
  induction h generalizing w with
  | close rest =>
    cases w with
    | nil => exact ⟨rfl, (List.cons.inj hs).2.symm⟩
    | cons c w => exact absurd (List.cons.inj hs).1 (hw c List.mem_cons_self).2.1
  | plain hc h ih =>
    cases w with
    | nil => exact absurd (List.cons.inj hs).1.symm hc.2.1
    | cons c w =>
      obtain ⟨rfl, htail⟩ := List.cons.inj hs
      obtain ⟨rfl, rfl⟩ := ih (fun c hc => hw c (List.mem_cons_of_mem _ hc)) htail
      exact ⟨rfl, rfl⟩
  | escaped he h ih =>
    cases w with
    | nil => exact absurd (List.cons.inj hs).1 (by decide)
    | cons c w => exact absurd (List.cons.inj hs).1 (hw c List.mem_cons_self).2.2
  | unicode hu hn h ih =>
    obtain ⟨u', rfl⟩ := hu.head
    cases w with
    | nil => exact absurd (List.cons.inj hs).1 (by decide)
    | cons c w => exact absurd (List.cons.inj hs).1 (hw c List.mem_cons_self).2.2
  | pair hu hv hhi hlo h ih =>
    obtain ⟨u', rfl⟩ := hu.head
    cases w with
    | nil => exact absurd (List.cons.inj hs).1 (by decide)
    | cons c w => exact absurd (List.cons.inj hs).1 (hw c List.mem_cons_self).2.2

/-- An escape is longer than what it stands for. -/
theorem text_length {s d rest : Str} (h : Text s d rest) :
    (s = d ++ 34 :: rest ∧ ∀ c ∈ d, Plain c) ∨ d.length + rest.length + 1 < s.length := by
  have hle : ∀ {s d rest : Str}, ((s = d ++ 34 :: rest ∧ ∀ c ∈ d, Plain c) ∨ d.length + rest.length + 1 < s.length) →
      d.length + rest.length + 1 ≤ s.length := by
    rintro s d rest (⟨rfl, -⟩ | h)
    · simp only [List.length_append, List.length_cons]
      omega
    · exact h.le
  have hchar : ∀ c : Char, (String.utf8EncodeChar c).length ≤ 4 := by
    intro c
    rw [String.length_utf8EncodeChar]
    exact Char.utf8Size_le_four c
  induction h with
  | close rest => exact .inl ⟨rfl, nofun⟩
  | plain hc h ih =>
    rcases ih with ⟨rfl, hd⟩ | hlt
    · exact .inl ⟨rfl, List.forall_mem_cons.mpr ⟨hc, hd⟩⟩
    · refine .inr ?_
      simp only [List.length_cons]
      omega
  | escaped he h ih =>
    refine .inr ?_
    have := hle ih
    simp only [List.length_cons]
    omega
  | @unicode u s d rest n hu hn h ih =>
    refine .inr ?_
    have := hle ih
    have := hchar (Char.ofNat n)
    have := hu.length
    simp only [List.length_append]
    omega
  | @pair u v s d rest hi lo hu hv hhi hlo h ih =>
    refine .inr ?_
    have := hle ih
    have := hchar (Char.ofNat (0x10000 + 0x400 * (hi - 0xD800) + (lo - 0xDC00)))
    have := hu.length
    have := hv.length
    simp only [List.length_append]
    omega

/-- A string that is read past a quote ends in front of it with a backslash. -/
theorem text_past_quote {u w t d rest : Str} (hw : ∀ c ∈ w, Plain c) (hne : w ≠ []) (h : Text (u ++ 34 :: (w ++ 34 :: t)) d rest) :
    (w ++ 34 :: t).length ≤ rest.length ∨ d.getLast? = w.getLast? ∧ u.getLast? = some 92 := by
  obtain ⟨y, hy⟩ := Option.ne_none_iff_exists'.mp (mt List.getLast?_eq_none_iff.mp hne)
  generalize hs : u ++ 34 :: (w ++ 34 :: t) = s at h
  induction h generalizing u with
  | close rest =>
    refine .inl ?_
    cases u with
    | nil => exact (congrArg List.length (List.cons.inj hs).2).le
    | cons c u =>
      have htail : u ++ 34 :: (w ++ 34 :: t) = rest := (List.cons.inj hs).2
      rw [← htail]
      simp only [List.length_append, List.length_cons]
      omega
  | plain hc h ih =>
    cases u with
    | nil => exact absurd (List.cons.inj hs).1.symm hc.2.1
    | cons c u =>
      refine (ih (List.cons.inj hs).2).imp_right fun ⟨hd, hu⟩ => ?_
      rw [List.getLast?_cons, List.getLast?_cons, hd, hu, hy]
      exact ⟨rfl, rfl⟩
  | @escaped e x s d rest he h ih =>
    rcases u with _ | ⟨c, _ | ⟨c', u⟩⟩
    · exact absurd (List.cons.inj hs).1 (by decide)
    · -- the quote itself is escaped
      obtain ⟨rfl, htail⟩ := List.cons.inj hs
      rw [← (List.cons.inj htail).2] at h
      obtain ⟨rfl, rfl⟩ := text_plain_inv hw h
      refine .inr ⟨?_, rfl⟩
      rw [List.getLast?_cons, hy]
      rfl
    · refine (ih (List.cons.inj (List.cons.inj hs).2).2).imp_right fun ⟨hd, hu⟩ => ?_
      rw [List.getLast?_cons, List.getLast?_cons, List.getLast?_cons, hd, hu, hy]
      exact ⟨rfl, rfl⟩
  | unicode hu hn h ih =>
    obtain ⟨u', rfl, hs'⟩ := append_eq_append_cons hs.symm hu.quote_not_mem
    refine (ih hs'.symm).imp_right fun ⟨hd, hu⟩ => ?_
    rw [List.getLast?_append, List.getLast?_append, hd, hu, hy]
    exact ⟨rfl, rfl⟩
  | pair hu hv hhi hlo h ih =>
    have hq := List.not_mem_append hu.quote_not_mem hv.quote_not_mem
    obtain ⟨u', rfl, hs'⟩ := append_eq_append_cons hs.symm hq
    refine (ih hs'.symm).imp_right fun ⟨hd, hu⟩ => ?_
    rw [List.getLast?_append, List.getLast?_append, hd, hu, hy]
    exact ⟨rfl, rfl⟩

/-- A string that is printed as it is, and followed by something plain and another quote, reads back exactly when it is plain. -/
theorem text_printed {v w t rest : Str} (hw : ∀ c ∈ w, Plain c) (hne : w ≠ []) :
    Text (v ++ 34 :: (w ++ 34 :: t)) v rest ↔ (∀ c ∈ v, Plain c) ∧ rest = w ++ 34 :: t := by
  constructor
  · intro h
    rcases text_length h with ⟨heq, hv⟩ | hlt
    · exact ⟨hv, (List.cons.inj (List.append_cancel_left heq)).2.symm⟩
    · rcases text_past_quote hw hne h with hle | ⟨hlast, hback⟩
      · rw [List.length_append, List.length_cons] at hlt
        omega
      · rw [hlast] at hback
        exact absurd rfl (hw 92 (List.mem_of_getLast? hback)).2.2
  · rintro ⟨hv, rfl⟩
    exact text_of_plain hv _

/-! ## Printing -/

/-- A string that may be printed between quotes as it stands. -/
def Sound (s : Str) : Prop := (∀ c ∈ s, Plain c) ∧ Utf8 s

/-- A string of ASCII without escapes. -/
def Literal (s : Str) : Prop := ∀ c ∈ s, Plain c ∧ c < 0x80

instance (s : Str) : Decidable (Literal s) := List.decidableBAll _ s

theorem Literal.sound {s : Str} (h : Literal s) : Sound s := by
  have hutf := @utf8_ascii_append s (fun c hc => (h c hc).2) []
  rw [List.append_nil] at hutf
  exact ⟨fun c hc => (h c hc).1, hutf.mpr utf8_nil⟩

/-- A member with a string as its value, as `"%s" : "%s"` prints it. -/
def printMember (m : Str × Str) : Str := 34 :: (m.1 ++ 34 :: 32 :: 58 :: 32 :: 34 :: (m.2 ++ [34]))

/-- Members with a comma and a blank between them. -/
def printMembers : List (Str × Str) → Str
  | [] => []
  | [m] => printMember m
  | m :: m' :: ms => printMember m ++ 44 :: 32 :: printMembers (m' :: ms)

/-- The members as values. -/
def strMembers (ms : List (Str × Str)) : List (Str × Value) := ms.map fun m => (m.1, .str m.2)

/-- The texts of elements with a separator between them. -/
def printElements (sep : Str) : List Str → Str
  | [] => []
  | [s] => s
  | s :: s' :: ss => s ++ sep ++ printElements sep (s' :: ss)

/-- Members in braces. -/
def printObject (ms : List (Str × Str)) : Str := 123 :: (printMembers ms ++ [32, 125])

/-- Objects in brackets, with blanks behind the opening one and in front of the closing one. -/
def printArray (lead sep trail : Str) (objs : List (List (Str × Str))) : Str :=
  91 :: (lead ++ (printElements sep (objs.map printObject) ++ (trail ++ [93])))

/-- White space only. -/
def Blank (s : Str) : Prop := ∀ c ∈ s, c ∈ [(32 : Byte), 9, 10, 13]

instance (s : Str) : Decidable (Blank s) := List.decidableBAll _ s

/-- White space is ASCII. -/
theorem Blank.ascii {s : Str} (h : Blank s) : Ascii s := by
  intro c hc
  have hblank := h c hc
  simp only [List.mem_cons, List.not_mem_nil, or_false] at hblank
  rcases hblank with rfl | rfl | rfl | rfl <;> decide

/-- Members whose keys need no escapes, and whose last value needs none. -/
structure Framed (ms : List (Str × Str)) : Prop where
  nonempty : ms ≠ []
  keys : ∀ m ∈ ms, Sound m.1
  last : ∀ m ∈ ms.getLast?, Sound m.2

theorem skip_of_head {s : Str} {c : Byte} (h : c ∉ [(32 : Byte), 9, 10, 13]) : skip (c :: s) = c :: s :=
  List.dropWhile_cons_of_neg (by simpa using h)

theorem skip_blanks {b : Str} (h : Blank b) (s : Str) : skip (b ++ s) = skip s := by
  induction b with
  | nil => rfl
  | cons c b ih =>
    obtain ⟨hc, hb⟩ := List.forall_mem_cons.mp h
    rw [List.cons_append, skip, List.dropWhile_cons_of_pos (by simpa using hc)]
    exact ih hb

/-- A value that is a string is read from a string. -/
theorem reads_str_iff {s d rest : Str} : Reads (34 :: s) (.str d) rest ↔ Text s d rest := by
  refine ⟨fun h => ?_, .str⟩
  generalize hs : 34 :: s = s' at h
  generalize hv : Value.str d = v at h
  cases h with
  | str h =>
    cases hv
    rwa [(List.cons.inj hs).2]
  | _ => cases hv

/-- A value that is an object with members is read from its members. -/
theorem reads_obj_iff {s rest : Str} {m : Str × Value} {ms : List (Str × Value)} :
    Reads (123 :: s) (.obj (m :: ms)) rest ↔ Members s (m :: ms) rest := by
  refine ⟨fun h => ?_, .obj⟩
  generalize hs : 123 :: s = s' at h
  generalize hv : Value.obj (m :: ms) = v at h
  cases h with
  | obj h =>
    cases hv
    rwa [(List.cons.inj hs).2]
  | _ => cases hv

/-- A value that is an array is read from its elements. -/
theorem reads_arr_iff {s rest : Str} {v : Value} {vs : List Value} : Reads (91 :: s) (.arr (v :: vs)) rest ↔ Elements s (v :: vs) rest := by
  refine ⟨fun h => ?_, .arr⟩
  generalize hs : 91 :: s = s' at h
  generalize hw : Value.arr (v :: vs) = w at h
  cases h with
  | arr h =>
    cases hw
    rwa [(List.cons.inj hs).2]
  | _ => cases hw

theorem Members.of_skip {s s' rest : Str} {ms : List (Str × Value)} (h : Members s ms rest) (heq : skip s = skip s') :
    Members s' ms rest := by
  cases h with
  | last hq hk hc hv hr => exact .last (heq ▸ hq) hk hc hv hr
  | more hq hk hc hv hr hms => exact .more (heq ▸ hq) hk hc hv hr hms

variable {m : Str × Str}

theorem printMember_append (m : Str × Str) (t : Str) :
    printMember m ++ t = 34 :: (m.1 ++ 34 :: 32 :: 58 :: 32 :: 34 :: (m.2 ++ 34 :: t)) := by
  simp [printMember]

/-- What is read of a printed member whose key needs no escapes: the key, and the value from its opening quote on. -/
theorem member_read (hkey : ∀ c ∈ m.1, Plain c) {t s1 k s2 s3 : Str} (hq : skip (printMember m ++ t) = 34 :: s1) (hk : Text s1 k s2)
    (hc : skip s2 = 58 :: s3) : k = m.1 ∧ skip s3 = 34 :: (m.2 ++ 34 :: t) := by
  rw [printMember_append, skip_of_head (by decide)] at hq
  rw [← (List.cons.inj hq).2] at hk
  obtain ⟨hkm, rfl⟩ := text_plain_inv hkey hk
  refine ⟨hkm, ?_⟩
  rw [← (List.cons.inj hc).2]
  rfl

theorem members_last_iff (hkey : ∀ c ∈ m.1, Plain c) {t rest : Str} {v : Value} :
    Members (printMember m ++ t) [(m.1, v)] rest ↔ ∃ s, Reads (34 :: (m.2 ++ 34 :: t)) v s ∧ skip s = 125 :: rest := by
  constructor
  · intro h
    cases h with
    | last hq hk hc hv hr => exact ⟨_, (member_read hkey hq hk hc).2 ▸ hv, hr⟩
    | more hq hk hc hv hr hms => nomatch hms
  · rintro ⟨s, hv, hr⟩
    rw [printMember_append]
    exact .last (skip_of_head (by decide)) (text_of_plain hkey _) rfl hv hr

theorem members_more_iff (hkey : ∀ c ∈ m.1, Plain c) {t rest : Str} {v : Value} {x : Str × Value} {xs : List (Str × Value)} :
    Members (printMember m ++ t) ((m.1, v) :: x :: xs) rest ↔
      ∃ s s', Reads (34 :: (m.2 ++ 34 :: t)) v s ∧ skip s = 44 :: s' ∧ Members s' (x :: xs) rest := by
  constructor
  · intro h
    cases h with
    | more hq hk hc hv hr hms => exact ⟨_, _, (member_read hkey hq hk hc).2 ▸ hv, hr, hms⟩
  · rintro ⟨s, s', hv, hr, hms⟩
    rw [printMember_append]
    exact .more (skip_of_head (by decide)) (text_of_plain hkey _) rfl hv hr hms

/-- Printed members, of which the last value needs no escapes, are read back exactly when no value needs any. -/
theorem members_printed_iff {ms : List (Str × Str)} (hne : ms ≠ []) (hkeys : ∀ m ∈ ms, ∀ c ∈ m.1, Plain c)
    (hlast : ∀ m ∈ ms.getLast?, ∀ c ∈ m.2, Plain c) {t rest : Str} :
    Members (printMembers ms ++ t) (strMembers ms) rest ↔ (∀ m ∈ ms, ∀ c ∈ m.2, Plain c) ∧ skip t = 125 :: rest := by
  induction ms with
  | nil => exact absurd rfl hne
  | cons m ms ih =>
    obtain ⟨hkey, hkeys⟩ := List.forall_mem_cons.mp hkeys
    cases ms with
    | nil =>
      have hv : ∀ c ∈ m.2, Plain c := hlast m rfl
      rw [printMembers, strMembers, List.map_singleton, members_last_iff hkey]
      constructor
      · rintro ⟨s, hr, hs⟩
        rw [(text_plain_inv hv (reads_str_iff.mp hr)).2] at hs
        exact ⟨by simpa using hv, hs⟩
      · rintro ⟨-, hs⟩
        exact ⟨t, .str (text_of_plain hv t), hs⟩
    | cons m' ms =>
      have ih := ih (List.cons_ne_nil _ _) hkeys (by rwa [List.getLast?_cons_cons] at hlast)
      obtain ⟨t', ht'⟩ : ∃ t', printMembers (m' :: ms) ++ t = 34 :: t' := by
        cases ms <;> simp [printMembers, printMember]
      have hsep : Literal [44, 32] := by decide
      have hmore : ∀ {s : Str}, Reads (34 :: (m.2 ++ 34 :: 44 :: 32 :: (printMembers (m' :: ms) ++ t))) (.str m.2) s ↔
          (∀ c ∈ m.2, Plain c) ∧ s = 44 :: 32 :: (printMembers (m' :: ms) ++ t) := by
        intro s
        rw [ht', reads_str_iff]
        exact text_printed hsep.sound.1 (List.cons_ne_nil _ _)
      rw [printMembers, List.append_assoc, strMembers, List.map_cons, List.map_cons, members_more_iff hkey]
      constructor
      · rintro ⟨s, s', hr, hs, hms⟩
        obtain ⟨hv, rfl⟩ := hmore.mp hr
        rw [← (List.cons.inj hs).2] at hms
        obtain ⟨hvs, ht⟩ := ih.mp (hms.of_skip rfl)
        exact ⟨List.forall_mem_cons.mpr ⟨hv, hvs⟩, ht⟩
      · rintro ⟨hvs, ht⟩
        obtain ⟨hv, hvs⟩ := List.forall_mem_cons.mp hvs
        exact ⟨_, _, hmore.mpr ⟨hv, rfl⟩, rfl, (ih.mpr ⟨hvs, ht⟩).of_skip rfl⟩

theorem Elements.of_skip {s s' rest : Str} {vs : List Value} (h : Elements s vs rest) (heq : skip s = skip s') : Elements s' vs rest := by
  cases h with
  | last hv hr => exact .last (heq ▸ hv) hr
  | more hv hr hvs => exact .more (heq ▸ hv) hr hvs

/-- A printed object is read back exactly when no value of it needs escapes. -/
theorem object_printed_iff {ms : List (Str × Str)} (h : Framed ms) {t rest : Str} :
    Reads (printObject ms ++ t) (.obj (strMembers ms)) rest ↔ (∀ m ∈ ms, ∀ c ∈ m.2, Plain c) ∧ rest = t := by
  have hmem := @members_printed_iff ms h.nonempty (fun m hm => (h.keys m hm).1) (fun m hm => (h.last m hm).1) (32 :: 125 :: t) rest
  have hskip : skip (32 :: 125 :: t) = 125 :: rest ↔ rest = t := by
    rw [show skip (32 :: 125 :: t) = 125 :: t from rfl, List.cons.injEq, eq_comm (a := t)]
    simp
  obtain ⟨m, ms, rfl⟩ := List.exists_cons_of_ne_nil h.nonempty
  rw [hskip] at hmem
  rw [← hmem, strMembers, List.map_cons, ← reads_obj_iff, printObject, List.cons_append, List.append_assoc]
  rfl

/-- Elements with commas between them are read back exactly when each of them is. -/
theorem elements_printed_iff {α : Type} {text : α → Str} {val : α → Value} {ok : α → Prop} {sep : Str}
    (hsep : ∀ s, ∃ s', skip (sep ++ s) = 44 :: s' ∧ skip s' = skip s)
    {xs : List α} (hread : ∀ x ∈ xs, ∀ t rest, Reads (skip (text x ++ t)) (val x) rest ↔ ok x ∧ rest = t) (hne : xs ≠ [])
    {t rest : Str} :
    Elements (printElements sep (xs.map text) ++ t) (xs.map val) rest ↔ (∀ x ∈ xs, ok x) ∧ skip t = 93 :: rest := by
  induction xs with
  | nil => exact absurd rfl hne
  | cons x xs ih =>
    have hfirst := hread x List.mem_cons_self
    have hreads := fun y hy => hread y (List.mem_cons_of_mem _ hy)
    cases xs with
    | nil =>
      constructor
      · intro h
        cases h with
        | last hv hr =>
          obtain ⟨hx, rfl⟩ := (hfirst _ _).mp hv
          exact ⟨by simpa using hx, hr⟩
        | more hv hr hvs => nomatch hvs
      · rintro ⟨hx, ht⟩
        exact .last ((hfirst _ _).mpr ⟨hx x List.mem_cons_self, rfl⟩) ht
    | cons x' xs =>
      have ih := ih hreads (List.cons_ne_nil _ _)
      obtain ⟨s', hs', heq⟩ := hsep (printElements sep ((x' :: xs).map text) ++ t)
      have hprint : printElements sep ((x :: x' :: xs).map text) ++ t =
          text x ++ (sep ++ (printElements sep ((x' :: xs).map text) ++ t)) := by
        simp [printElements]
      rw [hprint]
      constructor
      · intro h
        cases h with
        | more hv hr hvs =>
          obtain ⟨hx, rfl⟩ := (hfirst _ _).mp hv
          obtain ⟨-, rfl⟩ := List.cons.inj (hs'.symm.trans hr)
          obtain ⟨hxs, ht⟩ := ih.mp (hvs.of_skip heq)
          exact ⟨List.forall_mem_cons.mpr ⟨hx, hxs⟩, ht⟩
      · rintro ⟨hxs, ht⟩
        obtain ⟨hx, hxs⟩ := List.forall_mem_cons.mp hxs
        exact .more ((hfirst _ _).mpr ⟨hx, rfl⟩) hs' ((ih.mpr ⟨hxs, ht⟩).of_skip heq.symm)

/-! ## Validity -/

theorem utf8_printMember (m : Str × Str) (t : Str) : Utf8 (printMember m ++ t) ↔ (Utf8 m.1 ∧ Utf8 m.2) ∧ Utf8 t := by
  have hsep : Ascii [34, 32, 58, 32, 34] := by decide
  rw [printMember_append, utf8_cons_iff (by decide), utf8_append_cons_iff (by decide), and_assoc]
  refine and_congr_right fun _ => ?_
  rw [show 34 :: 32 :: 58 :: 32 :: 34 :: (m.2 ++ 34 :: t) = [34, 32, 58, 32, 34] ++ (m.2 ++ 34 :: t) from rfl, utf8_ascii_append hsep,
    utf8_append_cons_iff (by decide), utf8_cons_iff (by decide)]

theorem utf8_printMembers (ms : List (Str × Str)) (t : Str) :
    Utf8 (printMembers ms ++ t) ↔ (∀ m ∈ ms, Utf8 m.1 ∧ Utf8 m.2) ∧ Utf8 t := by
  induction ms with
  | nil => simp [printMembers]
  | cons m ms ih =>
    cases ms with
    | nil => simpa [printMembers] using utf8_printMember m t
    | cons m' ms =>
      rw [printMembers, List.append_assoc, utf8_printMember, List.cons_append, List.cons_append, utf8_cons_iff (by decide),
        utf8_cons_iff (by decide), ih, ← and_assoc]
      exact and_congr_left fun _ => (List.forall_mem_cons (p := fun m : Str × Str => Utf8 m.1 ∧ Utf8 m.2)).symm

theorem utf8_printObject {ms : List (Str × Str)} (h : Framed ms) (t : Str) :
    Utf8 (printObject ms ++ t) ↔ (∀ m ∈ ms, Utf8 m.2) ∧ Utf8 t := by
  have htail : Utf8 ([32, 125] ++ t) ↔ Utf8 t := utf8_ascii_append (by decide) t
  rw [printObject, List.cons_append, utf8_cons_iff (by decide), List.append_assoc, utf8_printMembers, htail]
  refine and_congr_left fun _ => forall₂_congr fun m hm => ?_
  exact and_iff_right (h.keys m hm).2

theorem utf8_printElements {sep : Str} (hsep : Ascii sep) {objs : List (List (Str × Str))} (h : ∀ ms ∈ objs, Framed ms)
    (t : Str) : Utf8 (printElements sep (objs.map printObject) ++ t) ↔ (∀ ms ∈ objs, ∀ m ∈ ms, Utf8 m.2) ∧ Utf8 t := by
  induction objs with
  | nil => simp [printElements]
  | cons ms objs ih =>
    obtain ⟨hms, hobjs⟩ := List.forall_mem_cons.mp h
    cases objs with
    | nil => simpa [printElements] using utf8_printObject hms t
    | cons ms' objs =>
      have ih := ih hobjs
      have hprint : printElements sep ((ms :: ms' :: objs).map printObject) ++ t =
          printObject ms ++ (sep ++ (printElements sep ((ms' :: objs).map printObject) ++ t)) := by
        simp [printElements]
      rw [hprint, utf8_printObject hms, utf8_ascii_append hsep, ih, ← and_assoc]
      exact and_congr_left fun _ => (List.forall_mem_cons (p := fun ms : List (Str × Str) => ∀ m ∈ ms, Utf8 m.2)).symm

/-- Printed objects are a text with their members exactly when every value of theirs may be printed as it stands. -/
theorem valid_array_iff {lead sep trail : Str} (hlead : Blank lead) (htrail : Blank trail) (hascii : Ascii sep)
    (hsep : ∀ s, ∃ s', skip (sep ++ s) = 44 :: s' ∧ skip s' = skip s) {objs : List (List (Str × Str))} (hne : objs ≠ [])
    (h : ∀ ms ∈ objs, Framed ms) :
    Valid (printArray lead sep trail objs) (.arr (objs.map fun ms => .obj (strMembers ms))) ↔ ∀ ms ∈ objs, ∀ m ∈ ms, Sound m.2 := by
  have hutf : Utf8 (printArray lead sep trail objs) ↔ ∀ ms ∈ objs, ∀ m ∈ ms, Utf8 m.2 := by
    rw [printArray, utf8_cons_iff (by decide), utf8_ascii_append hlead.ascii, utf8_printElements hascii h,
      utf8_ascii_append htrail.ascii, utf8_cons_iff (by decide)]
    exact and_iff_left utf8_nil
  have hread : ∀ ms ∈ objs, ∀ t rest,
      Reads (skip (printObject ms ++ t)) (.obj (strMembers ms)) rest ↔ (∀ m ∈ ms, ∀ c ∈ m.2, Plain c) ∧ rest = t := by
    intro ms hms t rest
    rw [show skip (printObject ms ++ t) = printObject ms ++ t from rfl]
    exact object_printed_iff (h ms hms)
  have harr : ∀ rest, Reads (skip (printArray lead sep trail objs)) (.arr (objs.map fun ms => .obj (strMembers ms))) rest ↔
      (∀ ms ∈ objs, ∀ m ∈ ms, ∀ c ∈ m.2, Plain c) ∧ rest = [] := by
    intro rest
    have hskip : skip (trail ++ [93]) = 93 :: rest ↔ rest = [] := by
      rw [skip_blanks htrail, skip_of_head (by decide), List.cons.injEq, eq_comm (a := [])]
      simp
    rw [← hskip, ← elements_printed_iff hsep hread hne]
    obtain ⟨ms, objs, rfl⟩ := List.exists_cons_of_ne_nil hne
    rw [printArray, skip_of_head (by decide)]
    exact reads_arr_iff.trans ⟨fun h => h.of_skip (skip_blanks hlead _), fun h => h.of_skip (skip_blanks hlead _).symm⟩
  unfold Valid Sound
  rw [hutf]
  constructor
  · rintro ⟨hu, rest, hr, -⟩ ms hms m hm
    exact ⟨((harr rest).mp hr).1 ms hms m hm, hu ms hms m hm⟩
  · intro hs
    exact ⟨fun ms hms m hm => (hs ms hms m hm).2, [], (harr []).mpr ⟨fun ms hms m hm => (hs ms hms m hm).1, rfl⟩, rfl⟩

end Json
