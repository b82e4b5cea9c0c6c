import Gnhast.Lib.CStr

/-!
# Messages of header lines

A message is a sequence of lines, each ended by CR and LF or by LF alone, and a last one that may be left open. A line with a colon is a
header line: what is in front of the colon is its name, and what is behind it, but for one blank, its value. A search for the name as a
substring finds something in every message that has the header, though not only there.
-/

namespace CStr

/-- `strchr`: how far the first `c` is. -/
def strchr (c : Byte) (s : Str) : Option Nat := (splitAt c s).map fun k => k.1.length

/-- `strcasestr`: the text from the first place on where another stands, in capitals or not. -/
def strcasestr (field : Str) : Str → Option Str
  | [] => if field = [] then some [] else none
  | c :: s => if prefixCase field (c :: s) then some (c :: s) else strcasestr field s

theorem strchr_append {c : Byte} {k : Str} (h : c ∉ k) (v : Str) : strchr c (k ++ c :: v) = some k.length := by
  rw [strchr, splitAt_append h]
  rfl

theorem strchr_eq_some {c : Byte} {s : Str} {i : Nat} (h : strchr c s = some i) : ∃ k v, s = k ++ c :: v ∧ c ∉ k ∧ k.length = i := by
  obtain ⟨⟨k, v⟩, hs, rfl⟩ := Option.map_eq_some_iff.mp h
  obtain ⟨rfl, hk⟩ := splitAt_eq_some hs
  exact ⟨k, v, rfl, hk, rfl⟩

theorem strchr_eq_none_iff {c : Byte} {s : Str} : strchr c s = none ↔ c ∉ s := by
  constructor
  · intro h hc
    obtain ⟨k, v, hs, hk⟩ := List.eq_append_cons_of_mem hc
    rw [hs, strchr_append hk] at h
    cases h
  · intro h
    cases hs : strchr c s with
    | none => rfl
    | some i =>
      obtain ⟨k, v, rfl, -, -⟩ := strchr_eq_some hs
      exact absurd (by simp) h

/-- What `strcasestr` finds begins with what it looks for, and is the end of the text. -/
theorem strcasestr_eq_some {field s p : Str} (h : strcasestr field s = some p) : prefixCase field p = true ∧ p <:+ s := by
  induction s with
  | nil =>
    rw [strcasestr] at h
    split at h
    · rename_i hf
      cases h
      rw [hf]
      exact ⟨rfl, List.suffix_refl _⟩
    · cases h
  | cons c s ih =>
    rw [strcasestr] at h
    split at h
    · rename_i hp
      cases h
      exact ⟨hp, List.suffix_refl _⟩
    · obtain ⟨h1, h2⟩ := ih h
      exact ⟨h1, h2.trans (List.suffix_cons c s)⟩

/-- It finds something wherever what it looks for stands. -/
theorem strcasestr_isSome {field p : Str} (hp : prefixCase field p = true) (hne : field ≠ []) (pre : Str) :
    ∃ q, strcasestr field (pre ++ p) = some q := by
  induction pre with
  | nil =>
    cases p with
    | nil =>
      cases field with
      | nil => exact absurd rfl hne
      | cons c f => cases hp
    | cons c p => exact ⟨_, if_pos hp⟩
  | cons c pre ih =>
    rw [List.cons_append, strcasestr]
    split
    · exact ⟨_, rfl⟩
    · exact ih

/-- A colon that is looked for is a colon where it is found. -/
theorem mem_of_prefixCase {name p : Str} (h : prefixCase (name ++ [chColon]) p = true) : chColon ∈ p := by
  rw [prefixCase, List.isPrefixOf_iff_prefix, List.map_append] at h
  have hmem : tolower chColon ∈ p.map tolower := h.subset (List.mem_append_right _ List.mem_cons_self)
  obtain ⟨c, hc, he⟩ := List.mem_map.mp hmem
  have hcolon : c = chColon := by
    rw [show tolower chColon = chColon from rfl, tolower] at he
    split at he
    · rename_i hup
      have hlow : 65 ≤ c.toNat := UInt8.le_iff_toNat_le.mp hup.1
      have hhigh : c.toNat ≤ 90 := UInt8.le_iff_toNat_le.mp hup.2
      have hsum : (c.toNat + 32) % 256 = 58 := congrArg UInt8.toNat he
      omega
    · exact he
  exact hcolon ▸ hc

theorem prefixCase_append {p q : Str} (h : sameCase p q = true) (t : Str) : prefixCase q (p ++ t) = true := by
  rw [sameCase, beq_iff_eq] at h
  rw [prefixCase, List.map_append, h, List.isPrefixOf_iff_prefix]
  exact List.prefix_append _ _

end CStr

namespace Headers

open CStr

/-- The ends of lines. -/
inductive LineEnd
  | crlf | lf
deriving Repr, DecidableEq

def LineEnd.text : LineEnd → Str
  | .crlf => [chCr, chLf]
  | .lf => [chLf]

/-- A text within a line. -/
def Plain (t : Str) : Prop := chCr ∉ t ∧ chLf ∉ t ∧ chNul ∉ t

instance (t : Str) : Decidable (Plain t) := inferInstanceAs (Decidable (_ ∧ _ ∧ _))

/-- Lines with their ends, and what follows the last of these. -/
structure Message where
  lines : List (Str × LineEnd) := []
  last : Str := []
  plain : ∀ t ∈ lines.map Prod.fst ++ [last], Plain t

/-- The text of some lines. -/
def linesText (lines : List (Str × LineEnd)) : Str := lines.flatMap fun l => l.1 ++ l.2.text

def Message.text (m : Message) : Str := linesText m.lines ++ m.last

/-- The lines without their ends. -/
def Message.texts (m : Message) : List Str := m.lines.map Prod.fst ++ [m.last]

/-- The names of the header lines, with what is behind their colons. -/
def Message.headers (m : Message) : List (Str × Str) := m.texts.filterMap (splitAt chColon)

/-- A text without the blank it may begin with. -/
def dropBlank : Str → Str
  | c :: s => if c = chSpace then s else c :: s
  | [] => []

/-- The value of the first header line whose name, with its colon, is a field. -/
def Message.value (m : Message) (field : Str) : Option Str :=
  (m.headers.find? fun h => sameCase (h.1 ++ [chColon]) field).map fun h => dropBlank h.2

/-- Each line stands somewhere in the text. -/
theorem Message.exists_text (m : Message) {t : Str} (h : t ∈ m.texts) : ∃ pre post, m.text = pre ++ (t ++ post) := by
  rcases List.mem_append.mp h with h | h
  · obtain ⟨l, hl, rfl⟩ := List.mem_map.mp h
    obtain ⟨as, bs, hlines⟩ := List.append_of_mem hl
    refine ⟨linesText as, l.2.text ++ (linesText bs ++ m.last), ?_⟩
    rw [Message.text, hlines]
    simp [linesText]
  · rw [List.mem_singleton.mp h]
    exact ⟨linesText m.lines, [], by rw [List.append_nil]; rfl⟩

/-- A value is that of a line. -/
theorem Message.value_eq_some {m : Message} {field v : Str} (h : m.value field = some v) :
    ∃ n r, n ++ chColon :: r ∈ m.texts ∧ chColon ∉ n ∧ sameCase (n ++ [chColon]) field = true ∧ v = dropBlank r := by
  obtain ⟨⟨n, r⟩, hfind, rfl⟩ := Option.map_eq_some_iff.mp h
  obtain ⟨t, ht, hsplit⟩ := List.mem_filterMap.mp (List.mem_of_find?_eq_some hfind)
  obtain ⟨rfl, hn⟩ := splitAt_eq_some hsplit
  have hname := List.find?_some hfind
  exact ⟨n, r, ht, hn, hname, rfl⟩

/-- A message with the header has the field in its text. -/
theorem Message.occurs {m : Message} {field v : Str} (h : m.value field = some v) : ∃ p, strcasestr field m.text = some p := by
  obtain ⟨n, r, hmem, -, hname, -⟩ := value_eq_some h
  obtain ⟨pre, post, htext⟩ := m.exists_text hmem
  have hpre : prefixCase field (n ++ chColon :: r ++ post) = true := by
    have h := prefixCase_append hname (r ++ post)
    rwa [List.append_assoc, List.singleton_append, ← List.cons_append, ← List.append_assoc] at h
  have hne : field ≠ [] := by
    rintro rfl
    rw [sameCase, beq_iff_eq] at hname
    simp at hname
  rw [htext]
  exact strcasestr_isSome hpre hne pre

end Headers
