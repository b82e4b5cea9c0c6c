import Gnhast.Types
import Gnhast.Lib.Keyed

/-!
# The network parser

`parse_netcommand` cuts a line into words; `parse_command` reads the words after the first as arguments. The tokenizer is
written as the walk over the line that it is: the mode says where in the loop the walk stands.
-/

namespace Gnhast

open CStr

/-- Where `parse_netcommand` stands in its loop. -/
inductive Mode
  /-- At the top of the loop. -/
  | top
  /-- Between quotes. -/
  | quoted
  /-- Between quotes, behind a backslash that is not copied yet. -/
  | escaped
  /-- Behind a closing quote: the next byte is copied even when it is a quote. -/
  | after
  /-- Behind a blank that ended a word: further blanks are skipped. -/
  | skip
deriving Repr, DecidableEq

/-- The loop of `parse_netcommand` from a mode, with the word copied so far and the rest of the line. -/
def lex : Mode → Str → Str → List Str
  | .escaped, w, [] => [w ++ [chBackslash]]
  | _, w, [] => [w]
  | .top, w, c :: s =>
    if c = chQuote then lex .quoted w s else if c = chSpace then w :: lex .skip [] s else lex .top (w ++ [c]) s
  | .quoted, w, c :: s =>
    if c = chQuote then lex .after w s else if c = chBackslash then lex .escaped w s else lex .quoted (w ++ [c]) s
  | .escaped, w, c :: s =>
    -- a backslash before anything but a quote is copied, and that byte is looked at again
    if c = chQuote then lex .quoted (w ++ [c]) s
    else if c = chBackslash then lex .escaped (w ++ [chBackslash]) s
    else lex .quoted (w ++ [chBackslash, c]) s
  | .after, w, c :: s => if c = chSpace then w :: lex .skip [] s else lex .top (w ++ [c]) s
  | .skip, w, c :: s =>
    if c = chSpace then lex .skip w s else if c = chQuote then lex .quoted w s else lex .top (w ++ [c]) s

/-- `parse_netcommand`: the words of a line, or nothing for an empty line. -/
def parseNetcommand (buf : Str) : Option (List Str) :=
  if buf = [] then none else some (lex .top [] buf)

/-- The entry of the argument table with a name. -/
def findArgByName (name : Str) : Option Argtable := argtable.find? (fun e => e.name = name)

/-- The value `parse_command` reads for an argument of each type. -/
def readValue (F : Doubles) : (t : PtType) → Str → t.Carrier
  | .ptdouble, v => F.strtod v
  | .ptchar, v => v
  | .ptint, v => atoi v
  | .ptuint, v => (strtoul v).setWidth 32
  | .ptll, v => BitVec.ofInt 64 (strtol v)

/-- One word read as an argument: a keyword in any case, a colon and a value; other words are passed over. -/
def parseWord (F : Doubles) (word : Str) : Option PArg :=
  match splitAt chColon word with
  | none => none
  | some (cp, tmp) =>
    match findArgByName (cp.map tolower) with
    | none => none
    | some asp => some ⟨asp.num, readValue F asp.num.type tmp⟩

/-- `parse_command`: the arguments among the words after the first, up to an empty word. -/
def parseCommand (F : Doubles) (words : List Str) : List PArg :=
  (words.tail.takeWhile (fun w => !w.isEmpty)).filterMap (parseWord F)

/-- `find_arg_bydev`: the keyword under which a device's value is sent. -/
def findArgByDev (dev : Device) : Option Sc :=
  if dev.devType = .dimmer then some .dimmer
  else
    match dev.devSubtype with
    | .temp => some .temp
    | .humid => some .humid
    | .lux => some .lux
    | .counter => some .count
    | .pressure => some .pressure
    | .speed => some .speed
    | .dir => some .dir
    | .switch => some .switch
    | .outlet => some .switch
    | .wetness => some .wetness
    | .ph => some .ph
    | .voltage => some .voltage
    | .wattsec => some .wattsec
    | .watt => some .watt
    | .amps => some .amps
    | .rainrate => some .rainrate
    | .weather => some .weather
    | .alarmstatus => some .alarmstatus
    | .number => some .number
    | .percentage => some .percentage
    | .flowrate => some .flowrate
    | .distance => some .distance
    | .volume => some .volume
    | .timer => some .timer
    | .thmode => some .thmode
    | .thstate => some .thstate
    | .smnumber => some .smnumber
    | .collector => some .collector
    | .blind => some .blind
    | .trigger => some .trigger
    | .orp => some .orp
    | .salinity => some .salinity
    | .daylight => some .daylight
    | .tristate => some .tristate
    | .moonph => some .moonph
    | _ => none

/-- `ARGDEV`: the name of that keyword. -/
def argdev (dev : Device) : Str :=
  match findArgByDev dev with
  | some id => argnm id
  | none => str "fail"

/-! ## Words -/

/-- A string that the tokenizer copies as it is outside quotes. -/
def Bare (s : Str) : Prop := chQuote ∉ s ∧ chSpace ∉ s

instance (s : Str) : Decidable (Bare s) := inferInstanceAs (Decidable (_ ∧ _))

theorem Bare.append {s t : Str} (hs : Bare s) (ht : Bare t) : Bare (s ++ t) :=
  ⟨by simp [hs.1, ht.1], by simp [hs.2, ht.2]⟩

theorem Bare.cons {c : Byte} {s : Str} (h1 : c ≠ chQuote) (h2 : c ≠ chSpace) (h : Bare s) : Bare (c :: s) :=
  ⟨by simp [h.1, Ne.symm h1], by simp [h.2, Ne.symm h2]⟩

theorem bare_nil : Bare [] := by
  decide

/-- Every keyword has an entry in the table, with its type. -/
theorem argtable_entry (k : Sc) : ⟨argnm k, k, k.type⟩ ∈ argtable := by
  obtain ⟨e, he⟩ : ∃ e, findArgById k = some e := Option.isSome_iff_exists.mp (by cases k <;> rfl)
  have hmem := List.mem_of_find?_eq_some he
  have hnum : e.num = k := by simpa using List.find?_some he
  have htype := argtable_type e hmem
  obtain ⟨name, num, type⟩ := e
  obtain rfl : num = k := hnum
  obtain rfl : type = num.type := htype
  rwa [argnm, he]

/-- The keywords are of small letters. -/
theorem argtable_letters : ∀ e ∈ argtable, ∀ c ∈ e.name, 97 ≤ c ∧ c ≤ 122 := by
  have h : (argtable.all fun e => e.name.all fun c => decide (97 ≤ c ∧ c ≤ 122)) = true := by decide
  intro e he c hc
  exact of_decide_eq_true (List.all_eq_true.mp (List.all_eq_true.mp h e he) c hc)

/-- An entry is found by its name. -/
theorem argtable_named : ∀ e ∈ argtable, e.name ≠ [] ∧ findArgByName e.name = some e := by
  have hempty : (argtable.all fun e => !e.name.isEmpty) = true := by decide
  have hnames : (argtable.map Argtable.name).Nodup := nodup_of_bytesVal (by decide)
  intro e he
  refine ⟨?_, Keyed.Distinct.get_of_mem hnames he⟩
  simpa using List.all_eq_true.mp hempty e he

theorem argnm_letters (k : Sc) : ∀ c ∈ argnm k, 97 ≤ c ∧ c ≤ 122 := argtable_letters _ (argtable_entry k)

theorem notMem_argnm {c : Byte} (h : ¬ (97 ≤ c ∧ c ≤ 122)) (k : Sc) : c ∉ argnm k := fun hc => h (argnm_letters k c hc)

theorem bare_argnm (k : Sc) : Bare (argnm k) := ⟨notMem_argnm (by decide) k, notMem_argnm (by decide) k⟩

theorem argnm_ne_nil (k : Sc) : argnm k ≠ [] := (argtable_named _ (argtable_entry k)).1

theorem colon_notMem_argnm (k : Sc) : chColon ∉ argnm k := notMem_argnm (by decide) k

/-- Outside quotes, bytes other than quotes and blanks go into the word. -/
theorem lex_top_append {t : Str} (h : Bare t) (w s : Str) : lex .top w (t ++ s) = lex .top (w ++ t) s := by
  induction t generalizing w with
  | nil => simp
  | cons c t ih =>
    have h1 : c ≠ chQuote := fun he => h.1 (by simp [he])
    have h2 : c ≠ chSpace := fun he => h.2 (by simp [he])
    have ht : Bare t := ⟨fun hm => h.1 (by simp [hm]), fun hm => h.2 (by simp [hm])⟩
    rw [List.cons_append, lex, if_neg h1, if_neg h2, ih ht]
    simp

theorem lex_top_space (w s : Str) : lex .top w (chSpace :: s) = w :: lex .skip [] s := by
  simp [lex, chSpace, chQuote]

theorem lex_skip_space (s : Str) : lex .skip [] (chSpace :: s) = lex .skip [] s := by
  simp [lex]

/-- Behind the blanks, the walk is at the top of the loop. -/
theorem lex_skip {c : Byte} (h : c ≠ chSpace) (s : Str) : lex .skip [] (c :: s) = lex .top [] (c :: s) := by
  simp [lex, h]

/-- A bare word and the blank that ends it. -/
theorem lex_skip_word {t : Str} (h : Bare t) (hne : t ≠ []) (s : Str) :
    lex .skip [] (t ++ chSpace :: s) = t :: lex .skip [] s := by
  obtain ⟨c, t, rfl⟩ := List.exists_cons_of_ne_nil hne
  have hc : c ≠ chSpace := fun he => h.2 (by simp [he])
  rw [List.cons_append, lex_skip hc, ← List.cons_append, lex_top_append h, lex_top_space, List.nil_append]

/-- A bare word at the end of the line. -/
theorem lex_skip_last {t : Str} (h : Bare t) (hne : t ≠ []) : lex .skip [] t = [t] := by
  obtain ⟨c, t, rfl⟩ := List.exists_cons_of_ne_nil hne
  have hc : c ≠ chSpace := fun he => h.2 (by simp [he])
  have hl := lex_top_append h [] []
  rw [List.append_nil, List.nil_append] at hl
  rw [lex_skip hc, hl, lex]
  simp

/-- The last byte of a string is a backslash. -/
def EndsInBackslash (s : Str) : Prop := s.getLast? = some chBackslash

instance (s : Str) : Decidable (EndsInBackslash s) := inferInstanceAs (Decidable (_ = _))

/-- Before a byte that is no quote, the backslash held back is copied. -/
theorem lex_escaped {c : Byte} (h : c ≠ chQuote) (w s : Str) :
    lex .escaped w (c :: s) = lex .quoted (w ++ [chBackslash]) (c :: s) := by
  rw [lex, lex, if_neg h, if_neg h]
  by_cases hb : c = chBackslash
  · rw [if_pos hb, if_pos hb]
  · simp [if_neg hb]

/-- Between quotes, a string without quotes goes into the word; a backslash at its end is held back. -/
theorem lex_quoted_append {t : Str} (h : chQuote ∉ t) (w s : Str) :
    lex .quoted w (t ++ s) =
      if EndsInBackslash t then lex .escaped (w ++ t.dropLast) s else lex .quoted (w ++ t) s := by
  induction t using List.reverseRecOn generalizing s with
  | nil => simp [EndsInBackslash]
  | append_singleton t c ih =>
    have hc : c ≠ chQuote := fun he => h (by simp [he])
    have ht : chQuote ∉ t := fun hm => h (by simp [hm])
    have hstep : lex .quoted w (t ++ c :: s) = lex .quoted (w ++ t) (c :: s) := by
      rw [ih ht]
      split
      · rename_i hb
        have hne : t ≠ [] := fun hn => by simp [hn, EndsInBackslash] at hb
        have ht' : t.dropLast ++ [chBackslash] = t := by
          rw [EndsInBackslash, List.getLast?_eq_some_getLast hne, Option.some.injEq] at hb
          rw [← hb, List.dropLast_append_getLast hne]
        rw [lex_escaped hc, List.append_assoc, ht']
      · rfl
    rw [List.append_assoc, List.singleton_append, hstep, lex, if_neg hc]
    by_cases hb : c = chBackslash <;> simp [EndsInBackslash, hb]

/-- A string in quotes goes into the word, when it holds no quote and does not end in a backslash. -/
theorem lex_quoted_close {t : Str} (h : chQuote ∉ t) (hb : ¬ EndsInBackslash t) (w s : Str) :
    lex .quoted w (t ++ chQuote :: s) = lex .after (w ++ t) s := by
  rw [lex_quoted_append h, if_neg hb, lex, if_pos rfl]

/-! ## Arguments -/

theorem findArgByName_argnm (k : Sc) : findArgByName (argnm k) = some ⟨argnm k, k, k.type⟩ := (argtable_named _ (argtable_entry k)).2

theorem map_tolower_argnm (k : Sc) : (argnm k).map tolower = argnm k := by
  have hsame : ∀ c ∈ argnm k, tolower c = c := by
    intro c hc
    have hlo := (argnm_letters k c hc).1
    unfold tolower
    rw [if_neg]
    simp only [UInt8.le_iff_toNat_le, UInt8.reduceToNat] at hlo ⊢
    omega
  rw [List.map_congr_left hsame, List.map_id']

/-- A keyword of the table, a colon and a value are read as that argument. -/
theorem parseWord_argnm (F : Doubles) (k : Sc) (v : Str) :
    parseWord F (argnm k ++ chColon :: v) = some ⟨k, readValue F k.type v⟩ := by
  simp only [parseWord, splitAt_append (colon_notMem_argnm k), map_tolower_argnm, findArgByName_argnm]

@[simp] theorem lastArg_nil (k : Sc) : lastArg k [] = none := rfl

theorem lastArg_cons (k : Sc) (a : PArg) (args : List PArg) : lastArg k (a :: args) = (lastArg k args).or (a.as k) := by
  rw [lastArg]
  cases lastArg k args <;> rfl

theorem lastArg_append (k : Sc) (xs ys : List PArg) : lastArg k (xs ++ ys) = (lastArg k ys).or (lastArg k xs) := by
  induction xs with
  | nil => simp
  | cons a xs ih => rw [List.cons_append, lastArg_cons, ih, lastArg_cons, Option.or_assoc]

/-- Every argument loop finds a value among the arguments. -/
theorem exists_of_lastArg {k : Sc} {args : List PArg} {v : k.type.Carrier} (h : lastArg k args = some v) :
    ∃ a ∈ args, a.as k = some v := by
  induction args with
  | nil => cases h
  | cons a args ih =>
    rw [lastArg_cons, Option.or_eq_some_iff] at h
    rcases h with h | ⟨-, h⟩
    · obtain ⟨b, hb, hv⟩ := ih h
      exact ⟨b, List.mem_cons_of_mem _ hb, hv⟩
    · exact ⟨a, List.mem_cons_self, h⟩

end Gnhast
