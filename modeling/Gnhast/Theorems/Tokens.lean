import Gnhast.JsmnFunc
import Gnhast.Lemmas.Memory

/-!
# Elements of arrays among tokens

`Parsed` says what the parser leaves for a document: a token for each item, with its kind, its child count and its bytes, and the value
of a member points back to the key. The functions of `jsmn_func.c` are followed over the items. They skip an element with as many
tokens as it has children, take the first string of a name for a key, and look for a field among as many tokens as the element has
children: `Fits` is when that is enough.
-/

namespace Gnhast

open CStr Preorder

/-- The item at a place is a key. -/
def keyAt (its : List (Item Str)) (i : Nat) : Bool := (its[i]?.map Item.key).getD false

/-- A token stands for the item at a place. -/
structure TokenOf (buf : Str) (its : List (Item Str)) (i : Nat) (t : Jsmntok) (it : Item Str) : Prop where
  type : t.type = it.kind
  size : t.size = it.size
  within : t.start ≤ t.stop ∧ t.stop ≤ buf.length
  text : it.kind = .string → it.text = some (t.text buf)
  valueof : t.valueof = if 0 < i ∧ keyAt its (i - 1) = true then (i : Int) - 1 else -1

instance (buf : Str) (its : List (Item Str)) (i : Nat) (t : Jsmntok) (it : Item Str) : Decidable (TokenOf buf its i t it) :=
  decidable_of_iff (t.type = it.kind ∧ t.size = it.size ∧ (t.start ≤ t.stop ∧ t.stop ≤ buf.length) ∧
      (it.kind = .string → it.text = some (t.text buf)) ∧
      t.valueof = if 0 < i ∧ keyAt its (i - 1) = true then (i : Int) - 1 else -1)
    ⟨fun ⟨h1, h2, h3, h4, h5⟩ => ⟨h1, h2, h3, h4, h5⟩, fun h => ⟨h.type, h.size, h.within, h.text, h.valueof⟩⟩

/-- The tokens stand for the items, one for one. -/
structure Reads (buf : Str) (tokens : List Jsmntok) (its : List (Item Str)) : Prop where
  length : tokens.length = its.length
  token : ∀ i < its.length, ∀ t ∈ tokens[i]?, ∀ it ∈ its[i]?, TokenOf buf its i t it

/-- What the parser leaves for a document. -/
def Parsed (buf : Str) (tokens : List Jsmntok) (d : Doc Str) : Prop := Reads buf tokens (items d)

instance (buf : Str) (tokens : List Jsmntok) (its : List (Item Str)) : Decidable (Reads buf tokens its) :=
  decidable_of_iff (tokens.length = its.length ∧ ∀ i < its.length, ∀ t ∈ tokens[i]?, ∀ it ∈ its[i]?, TokenOf buf its i t it)
    ⟨fun ⟨h1, h2⟩ => ⟨h1, h2⟩, fun h => ⟨h.length, h.token⟩⟩

instance (buf : Str) (tokens : List Jsmntok) (d : Doc Str) : Decidable (Parsed buf tokens d) :=
  inferInstanceAs (Decidable (Reads buf tokens (items d)))

/-! ## Reading tokens -/

theorem tokAt_of_lt {tokens : List Jsmntok} {i : Nat} (h : i < tokens.length) : tokAt tokens i = .ok tokens[i] := by
  rw [tokAt, List.getElem?_eq_getElem h]

/-- What a search for a token ends with: nothing, or the place of a token. -/
def Landed (tokens : List Jsmntok) (r : Except Fault Int) : Prop := r = .ok (-1) ∨ ∃ i < tokens.length, r = .ok (i : Int)

theorem landed_findTokenFrom (tokens : List Jsmntok) (buf name : Str) {k i : Nat} (hk : i + k = tokens.length) :
    Landed tokens (findTokenFrom tokens buf name k i) := by
  induction k generalizing i with
  | zero => exact .inl rfl
  | succ k ih =>
    have hi : i < tokens.length := by omega
    rw [findTokenFrom, tokAt_of_lt hi]
    change Landed tokens (if tokens[i].matches buf name then _ else _)
    split
    · exact .inr ⟨i, hi, rfl⟩
    · exact ih (by omega)

theorem landed_findValueFrom (tokens : List Jsmntok) (tok : Int) {k i : Nat} (hk : i + k = tokens.length) :
    Landed tokens (findValueFrom tokens tok k i) := by
  induction k generalizing i with
  | zero => exact .inl rfl
  | succ k ih =>
    have hi : i < tokens.length := by omega
    rw [findValueFrom, tokAt_of_lt hi]
    change Landed tokens (if tokens[i].valueof = tok then _ else _)
    split
    · exact .inr ⟨i, hi, rfl⟩
    · exact ih (by omega)

/-- Among any tokens `jtok_find_token_val` reads none that is not there. -/
theorem landed_jtokFindTokenVal (tokens : List Jsmntok) (buf name : Str) :
    Landed tokens (jtokFindTokenVal tokens buf name tokens.length) := by
  unfold jtokFindTokenVal jtokFindToken
  rcases landed_findTokenFrom tokens buf name (Nat.zero_add tokens.length) with h | ⟨i, hi, h⟩
  · rw [h]
    exact .inl rfl
  · have hne : (i : Int) ≠ -1 := by omega
    simp only [h, bind, Except.bind, if_neg hne, Int.toNat_natCast]
    exact landed_findValueFrom tokens i (by omega)

section
variable {buf : Str} {tokens : List Jsmntok} {its : List (Item Str)}

/-- A place that has an item has a token. -/
theorem Reads.tokAt (h : Reads buf tokens its) {i : Nat} {it : Item Str} (hi : its[i]? = some it) :
    ∃ t, tokAt tokens i = .ok t ∧ TokenOf buf its i t it := by
  obtain ⟨hlt, -⟩ := List.getElem?_eq_some_iff.mp hi
  have hlt' : i < tokens.length := h.length.symm ▸ hlt
  have htok : tokens[i]? = some tokens[i] := List.getElem?_eq_getElem hlt'
  refine ⟨tokens[i], ?_, h.token i hlt _ htok _ hi⟩
  rw [Gnhast.tokAt, htok]

theorem TokenOf.matches {i : Nat} {t : Jsmntok} {it : Item Str} (h : TokenOf buf its i t it) (name : Str) :
    t.matches buf name = it.named name := by
  obtain ⟨h1, h2⟩ := h.within
  have hlen : (t.text buf).length = t.stop - t.start := by
    rw [Jsmntok.text, List.length_take, List.length_drop]
    omega
  rw [Bool.eq_iff_iff, Jsmntok.matches, Item.named, Bool.and_eq_true, Bool.and_eq_true, beq_iff_eq, beq_iff_eq, beq_iff_eq,
    decide_eq_true_eq, h.type]
  constructor
  · rintro ⟨⟨hk, -⟩, ht⟩
    exact ⟨hk, by rw [h.text hk, ht]⟩
  · rintro ⟨hk, ht⟩
    rw [h.text hk, Option.some.injEq] at ht
    exact ⟨⟨hk, by rw [← hlen, ht]⟩, ht⟩

/-- The token behind the item at a place points back to it exactly when the item is a key. -/
theorem TokenOf.valueof_succ {i : Nat} {t : Jsmntok} {it : Item Str} (h : TokenOf buf its (i + 1) t it) (q : Nat) :
    t.valueof = q ↔ q = i ∧ keyAt its i = true := by
  rw [h.valueof, Nat.add_sub_cancel]
  split
  · rename_i hc
    rw [and_iff_left hc.2]
    omega
  · rename_i hc
    have hk : keyAt its i ≠ true := fun hk => hc ⟨Nat.succ_pos i, hk⟩
    refine iff_of_false (by omega) fun hq => hk hq.2

/-- A place, or minus one. -/
def place : Option Nat → Int
  | none => -1
  | some i => i

/-- The loop of `jtok_find_token` finds the first string of the name. -/
theorem findTokenFrom_eq (h : Reads buf tokens its) (name : Str) {k i : Nat} (hk : i + k = its.length) :
    findTokenFrom tokens buf name k i = .ok (place (((its.drop i).findIdx? (Item.named name)).map (i + ·))) := by
  induction k generalizing i with
  | zero =>
    have hnil : its.drop i = [] := List.drop_eq_nil_of_le (by omega)
    rw [hnil]
    rfl
  | succ k ih =>
    have hlt : i < its.length := by omega
    obtain ⟨t, ht, hof⟩ := h.tokAt (List.getElem?_eq_getElem hlt)
    rw [findTokenFrom, ht, List.drop_eq_getElem_cons hlt, List.findIdx?_cons]
    change (if t.matches buf name then _ else _) = _
    rw [hof.matches]
    split
    · rfl
    · rw [ih (by omega), Option.map_map]
      congr 3
      funext x
      simp only [Function.comp_apply]
      omega

/-- The loop of `jtok_find_token_val` finds the value behind a key. -/
theorem findValueFrom_key (h : Reads buf tokens its) {q k : Nat} (hk : q + 1 + k = its.length) (hpos : 0 < k) (hq : keyAt its q = true) :
    findValueFrom tokens q k (q + 1) = .ok ((q : Int) + 1) := by
  obtain ⟨k, rfl⟩ := Nat.exists_eq_succ_of_ne_zero (Nat.ne_of_gt hpos)
  obtain ⟨t, ht, hof⟩ := h.tokAt (List.getElem?_eq_getElem (show q + 1 < its.length by omega))
  rw [findValueFrom, ht]
  exact if_pos ((hof.valueof_succ q).mpr ⟨rfl, hq⟩)

/-- It finds nothing for what is no key. -/
theorem findValueFrom_other (h : Reads buf tokens its) {q k i : Nat} (hk : i + k = its.length) (hi : q < i) (hq : keyAt its q ≠ true) :
    findValueFrom tokens q k i = .ok (-1) := by
  induction k generalizing i with
  | zero => rfl
  | succ k ih =>
    obtain ⟨j, rfl⟩ := Nat.exists_eq_succ_of_ne_zero (show i ≠ 0 by omega)
    obtain ⟨t, ht, hof⟩ := h.tokAt (List.getElem?_eq_getElem (show j + 1 < its.length by omega))
    have hne : t.valueof ≠ q := by
      intro he
      obtain ⟨hqj, hkey⟩ := (hof.valueof_succ q).mp he
      exact hq (hqj ▸ hkey)
    rw [findValueFrom, ht]
    exact (if_neg hne).trans (ih (by omega) (by omega))

/-- What `jtok_find_token_val` finds: what follows the first string of the name, when that is a key. -/
theorem jtokFindTokenVal_eq (h : Reads buf tokens its) (name : Str)
    (hlast : ∀ q, its.findIdx? (Item.named name) = some q → keyAt its q = true → q + 1 < its.length) :
    jtokFindTokenVal tokens buf name its.length =
      .ok (place (((its.findIdx? (Item.named name)).filter (keyAt its)).map (· + 1))) := by
  have hfind := findTokenFrom_eq h name (show 0 + its.length = its.length from Nat.zero_add _)
  rw [List.drop_zero] at hfind
  unfold jtokFindTokenVal jtokFindToken
  rw [hfind]
  cases hf : its.findIdx? (Item.named name) with
  | none => rfl
  | some q =>
    have hq : q < its.length := (List.findIdx?_eq_some_iff_findIdx_eq.mp hf).1
    rw [Option.map_some, Nat.zero_add]
    change (if (q : Int) = -1 then Except.ok (-1) else findValueFrom tokens (q : Int) (its.length - (q + 1)) (q + 1)) = _
    rw [if_neg (by omega)]
    by_cases hk : keyAt its q = true
    · have := hlast q hf hk
      rw [findValueFrom_key h (by omega) (by omega) hk, Option.filter_some, if_pos hk]
      rfl
    · rw [findValueFrom_other h (by omega) (by omega) hk, Option.filter_some, if_neg hk]
      rfl

/-- The loop of `jtok_find_token_val_nth_array` finds what follows the first key of the name. -/
theorem findFieldFrom_eq (h : Reads buf tokens its) (name : Str) {k i : Nat} (hk : 0 < k → i + k < its.length) :
    findFieldFrom tokens buf name k i =
      .ok (place ((((its.drop i).take k).findIdx? (Item.keyOf name)).map (i + · + 1))) := by
  induction k generalizing i with
  | zero => rfl
  | succ k ih =>
    have hk := hk (Nat.succ_pos k)
    have hlt : i < its.length := by omega
    obtain ⟨t, ht, hof⟩ := h.tokAt (List.getElem?_eq_getElem hlt)
    have hkey : keyAt its i = its[i].key := by
      rw [keyAt, List.getElem?_eq_getElem hlt]
      rfl
    have hrest : findFieldFrom tokens buf name k (i + 1) =
        .ok (place (((((its.drop (i + 1)).take k).findIdx? (Item.keyOf name)).map (· + 1)).map (i + · + 1))) := by
      rw [ih fun _ => by omega, Option.map_map]
      congr 3
      funext x
      simp only [Function.comp_apply]
      omega
    rw [findFieldFrom, ht, List.drop_eq_getElem_cons hlt, List.take_succ_cons, List.findIdx?_cons, Item.keyOf]
    change (if t.matches buf name then _ else _) = _
    rw [hof.matches]
    cases hn : its[i].named name with
    | false => exact hrest
    | true =>
      obtain ⟨t', ht', hof'⟩ := h.tokAt (List.getElem?_eq_getElem (show i + 1 < its.length by omega))
      have hval := hof'.valueof_succ i
      rw [if_pos rfl, ht']
      change (if t'.valueof = (i : Int) then _ else _) = _
      cases hkt : its[i].key with
      | true =>
        rw [if_pos (hval.mpr ⟨rfl, hkey.trans hkt⟩)]
        rfl
      | false =>
        rw [if_neg fun he => by
          have := (hval.mp he).2
          rw [hkey, hkt] at this
          cases this]
        exact hrest

/-! ## Skipping elements -/

/-- `n` skips from a place not behind the element `k` end not behind the element `k + n`; they end there exactly when they start at the
element `k` and no child of the skipped elements holds anything. -/
theorem skipMembers_spec (h : Reads buf tokens its) {pre post : List (Item Str)} {es : List (Doc Str)}
    (hits : its = pre ++ itemsL es ++ post) {n k j : Nat} (hk : k + n ≤ es.length) (hj : j ≤ (itemsL (es.take k)).length) :
    ∃ j', skipMembers tokens pre.length n j = .ok j' ∧ j' ≤ (itemsL (es.take (k + n))).length ∧
      (j' = (itemsL (es.take (k + n))).length ↔
        j = (itemsL (es.take k)).length ∧ ∀ e ∈ (es.drop k).take n, e.Shallow) := by
  induction n generalizing k j with
  | zero => exact ⟨j, rfl, hj, by simp⟩
  | succ n ih =>
    have hlt : k < es.length := by omega
    have hdrop : es.drop k = es[k] :: es.drop (k + 1) := List.drop_eq_getElem_cons hlt
    have hes : itemsL es = itemsL (es.take k) ++ (items es[k] ++ itemsL (es.drop (k + 1))) := by
      conv_lhs => rw [← List.take_append_drop k es, itemsL_append, hdrop, itemsL]
    have hnext : (itemsL (es.take (k + 1))).length = (itemsL (es.take k)).length + (items es[k]).length := by
      rw [List.take_succ_eq_append_getElem hlt, itemsL_append, itemsL, itemsL, List.length_append, List.append_nil]
    have hsize := size_lt_length es[k]
    -- the item that is read, and how far it leads
    obtain ⟨it, hit, hle, hiff⟩ : ∃ it, (itemsL es)[j]? = some it ∧ j + (it.size + 1) ≤ (itemsL (es.take (k + 1))).length ∧
        (j + (it.size + 1) = (itemsL (es.take (k + 1))).length ↔ j = (itemsL (es.take k)).length ∧ es[k].Shallow) := by
      rcases Nat.lt_or_eq_of_le hj with hj | rfl
      · have hget : (itemsL es)[j]? = some (itemsL (es.take k))[j] := by
          rw [hes, List.getElem?_append_left hj, List.getElem?_eq_getElem hj]
        have henc := (enclosed_itemsL (es.take k)).getElem? (List.getElem?_eq_getElem hj)
        exact ⟨_, hget, by omega, by omega⟩
      · obtain ⟨it, its', hcons, hs, -⟩ := items_eq_cons es[k]
        have hget : (itemsL es)[(itemsL (es.take k)).length]? = some it := by
          rw [hes, List.getElem?_append_right (Nat.le_refl _), Nat.sub_self, hcons]
          rfl
        refine ⟨it, hget, by omega, ?_⟩
        rw [hnext, hs, Doc.Shallow]
        omega
    have hin : its[pre.length + j]? = some it := by
      have hjlt : j < (itemsL es).length := (List.getElem?_eq_some_iff.mp hit).1
      rw [hits, List.append_assoc, List.getElem?_append_right (Nat.le_add_right _ _), Nat.add_sub_cancel_left,
        List.getElem?_append_left hjlt, hit]
    obtain ⟨t, ht, hof⟩ := h.tokAt hin
    obtain ⟨j', hskip, hle', hiff'⟩ := ih (show k + 1 + n ≤ es.length by omega) hle
    refine ⟨j', ?_, ?_, ?_⟩
    · rw [skipMembers, ht]
      change skipMembers tokens pre.length n (j + (t.size + 1)) = _
      rw [hof.size]
      exact hskip
    · rwa [Nat.add_right_comm] at hle'
    · rw [Nat.add_right_comm] at hiff'
      rw [← Nat.add_assoc, hiff', hiff, hdrop, List.take_succ_cons, List.forall_mem_cons, and_assoc]

end

/-! ## Names -/

/-- The first string of a name is a key. -/
def KeyFirst (name : Str) (its : List (Item Str)) : Prop := ∀ it ∈ its.find? (Item.named name), it.key = true

instance (name : Str) (its : List (Item Str)) : Decidable (KeyFirst name its) :=
  inferInstanceAs (Decidable (∀ it ∈ its.find? (Item.named name), it.key = true))

theorem keyAt_eq {its : List (Item Str)} {q : Nat} (hq : q < its.length) : keyAt its q = its[q].key := by
  rw [keyAt, List.getElem?_eq_getElem hq]
  rfl

/-- Without a key of the name, no string of the name is a key. -/
theorem filter_keyAt_of_noKey {name : Str} {its : List (Item Str)} (h : NoKey name its) :
    (its.findIdx? (Item.named name)).filter (keyAt its) = none := by
  cases hf : its.findIdx? (Item.named name) with
  | none => rfl
  | some q =>
    obtain ⟨hq, hn, -⟩ := List.findIdx?_eq_some_iff_getElem.mp hf
    have hk := h _ (List.getElem_mem hq)
    rw [Item.keyOf, hn, Bool.true_and] at hk
    rw [Option.filter_some, if_neg]
    rw [keyAt_eq hq, hk]
    exact Bool.false_ne_true

/-- With a first key of the name, it is the first string of the name, or that is no key. -/
theorem filter_keyAt_of_key {name : Str} {pre post : List (Item Str)} (h : NoKey name pre) :
    ((pre ++ keyItem name :: post).findIdx? (Item.named name)).filter (keyAt (pre ++ keyItem name :: post)) =
      if KeyFirst name (pre ++ keyItem name :: post) then some pre.length else none := by
  have hname : (keyItem name).named name = true := decide_eq_true ⟨rfl, rfl⟩
  have hfirst : KeyFirst name (pre ++ keyItem name :: post) ↔ ∀ it ∈ ((pre.findIdx? (Item.named name)).or
      (((keyItem name :: post).findIdx? (Item.named name)).map fun i => i + pre.length)).bind
        ((pre ++ keyItem name :: post)[·]?), it.key = true := by
    rw [KeyFirst, List.find?_eq_bind_findIdx?_getElem?, List.findIdx?_append]
  rw [List.findIdx?_append]
  cases hf : pre.findIdx? (Item.named name) with
  | none =>
    have hidx : ((keyItem name :: post).findIdx? (Item.named name)).map (fun i => i + pre.length) = some pre.length := by
      rw [List.findIdx?_cons, if_pos hname, Option.map_some, Nat.zero_add]
    have hget : (pre ++ keyItem name :: post)[pre.length]? = some (keyItem name) := by
      rw [List.getElem?_append_right (Nat.le_refl _), Nat.sub_self]
      rfl
    have hkey : keyAt (pre ++ keyItem name :: post) pre.length = true := by
      rw [keyAt, hget]
      rfl
    rw [hf, hidx, Option.none_or, Option.bind_some, hget] at hfirst
    rw [hidx, Option.none_or, Option.filter_some, if_pos hkey, if_pos]
    refine hfirst.mpr fun it hit => ?_
    cases hit
    rfl
  | some q =>
    obtain ⟨hq, hn, -⟩ := List.findIdx?_eq_some_iff_getElem.mp hf
    have hget : (pre ++ keyItem name :: post)[q]? = some pre[q] := by
      rw [List.getElem?_append_left hq, List.getElem?_eq_getElem hq]
    have hnk : pre[q].key ≠ true := by
      have := h _ (List.getElem_mem hq)
      rw [Item.keyOf, hn, Bool.true_and] at this
      rw [this]
      exact Bool.false_ne_true
    have hkey : keyAt (pre ++ keyItem name :: post) q ≠ true := by
      rw [keyAt, hget]
      exact hnk
    rw [hf, Option.some_or, Option.bind_some, hget] at hfirst
    rw [Option.some_or, Option.filter_some, if_neg hkey, if_neg]
    intro hall
    exact hnk (hfirst.mp hall pre[q] rfl)

/-! ## Elements and fields -/

/-- The element of an array that is the value of the first member of a name, with its place. -/
def nthElement (name : Str) (n : Nat) (d : Doc Str) : Option (Nat × Doc Str) :=
  match member name 0 d with
  | some (p, .array es) => es[n]?.map fun e => (p + 1 + (itemsL (es.take n)).length, e)
  | _ => none

/-- The place of the value of the first field of a name, of an object at a place. -/
def fieldOf (name : Str) : Nat × Doc Str → Option Nat
  | (p, .object fs) => if name ∈ fs.map Prod.fst then some (p + 1 + (itemsF (front name fs)).length + 1) else none
  | _ => none

/-- The two functions return the places of the element and of its field, and read no token that the parser has not written. -/
def AccessesRight (buf : Str) (tokens : List Jsmntok) (d : Doc Str) (arrayname name : Str) (n : Nat) : Prop :=
  jtokFindNthArrayMember tokens buf n arrayname tokens.length = .ok (place ((nthElement arrayname n d).map Prod.fst)) ∧
    jtokFindTokenValNthArray tokens buf n arrayname name tokens.length = .ok (place ((nthElement arrayname n d).bind (fieldOf name)))

/-- A field is found among as many items as an element has children: no key of the name is nested in the fields in front of it, as far
as they are among these items, and its own key is among them. -/
def FieldInReach (name : Str) : Doc Str → Prop
  | .array es => NoKey name ((itemsL es).take (es.length - 1))
  | .object fs => NoKey name ((itemsF (front name fs)).take (2 * fs.length - 1)) ∧
      (name ∈ fs.map Prod.fst → (itemsF (front name fs)).length < 2 * fs.length - 1)
  | _ => True

/-- An array is reached by its name, the element exists and no child of the elements in front of it holds anything, and the field is
in reach; or the element is behind the end, and not the first behind it. -/
def Fits (arrayname name : Str) (n : Nat) (d : Doc Str) : Prop :=
  match member arrayname 0 d with
  | some (_, .array es) =>
    if KeyFirst arrayname (items d) then
      es.length < n ∨ ∃ e ∈ es[n]?, (∀ e' ∈ es.take n, e'.Shallow) ∧ FieldInReach name e
    else es.length ≤ n
  | _ => True

/-- Where the value of the first member of a name stands, and what `jtok_find_token_val` finds of it. -/
theorem jtokFindTokenVal_member {buf : Str} {tokens : List Jsmntok} {d : Doc Str} (h : Parsed buf tokens d) (name : Str) :
    jtokFindTokenVal tokens buf name tokens.length =
      .ok (place (if KeyFirst name (items d) then (member name 0 d).map Prod.fst else none)) := by
  have hlen := h.length
  have hfound := found_member name 0 d
  rw [hlen]
  cases hm : member name 0 d with
  | none =>
    rw [hm] at hfound
    have hnone := filter_keyAt_of_noKey hfound
    rw [jtokFindTokenVal_eq h name, hnone]
    · simp
    · intro q hq hk
      rw [hq, Option.filter_some, if_pos hk] at hnone
      cases hnone
  | some r =>
    obtain ⟨p, v⟩ := r
    rw [hm] at hfound
    obtain ⟨pre, post, hits, hp, hpre⟩ := hfound
    have hkey := @filter_keyAt_of_key name pre (items v ++ post) hpre
    have hv := length_items_pos v
    rw [← hits] at hkey
    rw [jtokFindTokenVal_eq h name, hkey]
    · rw [hp]
      split
      · rw [Option.map_some, Option.map_some, Nat.zero_add]
      · rfl
    · intro q hq hk
      rw [hq, Option.filter_some, if_pos hk] at hkey
      split at hkey
      · cases hkey
        rw [hits]
        simp only [List.length_append, List.length_cons]
        omega
      · cases hkey

theorem place_inj {x y : Option Nat} : place x = place y ↔ x = y := by
  cases x <;> cases y <;> simp [place]

/-- What the functions find in an array that its name leads to: behind its end nothing, and up to its end a place that is the one of
the element, or of the end, exactly when no child of the elements in front of it holds anything. -/
theorem jtokFindNthArrayMember_array {buf : Str} {tokens : List Jsmntok} {d : Doc Str} (h : Parsed buf tokens d) {name : Str} {p : Nat}
    {es : List (Doc Str)} (hm : member name 0 d = some (p, .array es)) (hk : KeyFirst name (items d)) (n : Nat) :
    (es.length < n ∧ jtokFindNthArrayMember tokens buf n name tokens.length = .ok (-1)) ∨
      n ≤ es.length ∧ ∃ j, jtokFindNthArrayMember tokens buf n name tokens.length = .ok ((p + 1 + j : Nat) : Int) ∧
        (j = (itemsL (es.take n)).length ↔ ∀ e ∈ es.take n, e.Shallow) := by
  have hval := jtokFindTokenVal_member h name
  have hfound := found_member name 0 d
  rw [hm] at hfound
  rw [if_pos hk, hm] at hval
  obtain ⟨pre, post, hits, hp, -⟩ := hfound
  rw [Nat.zero_add] at hp
  have hits' : items d = (pre ++ [keyItem name, { kind := .array, size := es.length }]) ++ itemsL es ++ post := by
    rw [hits, items]
    simp
  have hget : (items d)[p]? = some { kind := .array, size := es.length } := by
    rw [hits', hp]
    simp
  have hlen : p + 1 + (itemsL es).length + post.length = tokens.length := by
    rw [h.length, hits', hp]
    simp only [List.length_append, List.length_cons, List.length_nil]
  obtain ⟨t, ht, hof⟩ := h.tokAt hget
  have hread : jtokFindNthArrayMember tokens buf n name tokens.length =
      if es.length < n then .ok (-1) else if n = 0 then .ok ((p : Int) + 1)
        else skipMembers tokens (p + 1) n 0 >>= fun j => if (j : Int) + p < tokens.length then .ok (j + p + 1) else .ok (-1) := by
    have hpos : ¬((p : Int) < 0) := by omega
    unfold jtokFindNthArrayMember
    simp only [hval, Option.map_some, place, Except.bind, bind, if_neg hpos, Int.toNat_natCast, ht, hof.size]
    rw [if_neg (not_not.mpr hof.type)]
  rcases Nat.lt_or_ge es.length n with hn | hn
  · exact .inl ⟨hn, by rw [hread, if_pos hn]⟩
  · refine .inr ⟨hn, ?_⟩
    obtain ⟨j, hskip, hle, hiff⟩ := skipMembers_spec h hits' (show 0 + n ≤ es.length by omega) (Nat.zero_le _)
    have hpre : (pre ++ [keyItem name, { kind := .array, size := es.length }]).length = p + 1 := by
      rw [List.length_append, hp]
      rfl
    rw [hpre] at hskip
    rw [Nat.zero_add] at hle hiff
    have hall : (itemsL es).length = (itemsL (es.take n)).length + (itemsL (es.drop n)).length := by
      rw [← List.length_append, ← itemsL_append, List.take_append_drop]
    refine ⟨j, ?_, ?_⟩
    · rw [hread, if_neg (by omega)]
      by_cases h0 : n = 0
      · subst h0
        cases hskip
        rw [if_pos rfl]
        rfl
      · rw [if_neg h0, hskip]
        change (if (j : Int) + p < tokens.length then _ else _) = _
        rw [if_pos (by omega)]
        congr 1
        omega
    · rw [hiff]
      exact and_iff_right rfl

/-- The first field of a name that is looked for among as many items as an element has children is the field of the element exactly
when it is in reach. -/
theorem fieldAt_iff (name : Str) (q : Nat) (e : Doc Str) {it : Item Str} {its : List (Item Str)} (hits : items e = it :: its) :
    (((its.take (e.size - 1)).findIdx? (Item.keyOf name)).map (q + 1 + · + 1) = fieldOf name (q, e)) ↔ FieldInReach name e := by
  cases e with
  | primitive t =>
    cases hits
    exact iff_of_true rfl trivial
  | string t =>
    cases hits
    exact iff_of_true rfl trivial
  | array es =>
    cases hits
    rw [fieldOf, Option.map_eq_none_iff, FieldInReach, noKey_iff, Doc.size]
    nofun
  | object fs =>
    cases hits
    rw [fieldOf, FieldInReach, Doc.size]
    by_cases hname : name ∈ fs.map Prod.fst
    · rw [if_pos hname, imp_iff_right hname]
      obtain ⟨v, rest, hfs⟩ := front_append_cons hname
      have hsplit : itemsF fs = itemsF (front name fs) ++ keyItem name :: (items v ++ itemsF rest) := by
        conv_lhs => rw [hfs, itemsF_append, itemsF]
      have hlast := findIdx?_take_front name (itemsF (front name fs)) (items v ++ itemsF rest) (2 * fs.length - 1)
      rw [← hsplit] at hlast
      have hshift : (((itemsF fs).take (2 * fs.length - 1)).findIdx? (Item.keyOf name)).map (q + 1 + · + 1) =
          some (q + 1 + (itemsF (front name fs)).length + 1) ↔
            ((itemsF fs).take (2 * fs.length - 1)).findIdx? (Item.keyOf name) = some (itemsF (front name fs)).length := by
        rw [Option.map_eq_some_iff]
        constructor
        · rintro ⟨i, hi, he⟩
          rw [hi]
          congr 1
          omega
        · intro hi
          exact ⟨_, hi, rfl⟩
      rw [hshift, hlast]
      constructor
      · rintro ⟨hno, hlt⟩
        exact ⟨fun it hit => hno it (List.mem_of_mem_take hit), hlt⟩
      · rintro ⟨hno, hlt⟩
        rw [List.take_of_length_le (Nat.le_of_lt hlt)] at hno
        exact ⟨hno, hlt⟩
    · rw [if_neg hname, front_eq_self hname, Option.map_eq_none_iff, ← noKey_iff]
      exact ⟨fun hno => ⟨hno, fun h => absurd h hname⟩, fun h => h.1⟩

/-- Where the array is not found by its name, both functions find nothing. -/
theorem jtokFind_unfound {buf : Str} {tokens : List Jsmntok} {d : Doc Str} (h : Parsed buf tokens d) {arrayname : Str}
    (hno : ∀ p es, member arrayname 0 d = some (p, .array es) → ¬KeyFirst arrayname (items d)) (name : Str) (n : Nat) :
    jtokFindNthArrayMember tokens buf n arrayname tokens.length = .ok (-1) ∧
      jtokFindTokenValNthArray tokens buf n arrayname name tokens.length = .ok (-1) := by
  have hval := jtokFindTokenVal_member h arrayname
  have hnth : jtokFindNthArrayMember tokens buf n arrayname tokens.length = .ok (-1) := by
    by_cases hk : KeyFirst arrayname (items d)
    · rw [if_pos hk] at hval
      have hfound := found_member arrayname 0 d
      cases hm : member arrayname 0 d with
      | none =>
        rw [hm] at hval
        rw [jtokFindNthArrayMember, hval]
        rfl
      | some r =>
        obtain ⟨p, v⟩ := r
        rw [hm] at hval hfound
        obtain ⟨pre, post, hits, hp, -⟩ := hfound
        obtain ⟨it, its, hcons, hkind⟩ : ∃ it its, items v = it :: its ∧ it.kind ≠ .array := by
          cases v with
          | array es => exact absurd hk (hno p es hm)
          | primitive t => exact ⟨_, _, rfl, nofun⟩
          | string t => exact ⟨_, _, rfl, nofun⟩
          | object fs => exact ⟨_, _, rfl, nofun⟩
        have hget : (items d)[p]? = some it := by
          rw [hits, hcons, hp]
          simp
        obtain ⟨t, ht, hof⟩ := h.tokAt hget
        have hpos : ¬((p : Int) < 0) := by omega
        unfold jtokFindNthArrayMember
        simp only [hval, Option.map_some, place, Except.bind, bind, if_neg hpos, Int.toNat_natCast, ht]
        rw [if_pos (hof.type ▸ hkind)]
    · rw [if_neg hk] at hval
      rw [jtokFindNthArrayMember, hval]
      rfl
  refine ⟨hnth, ?_⟩
  rw [jtokFindTokenValNthArray, hnth]
  rfl

/-- Led to the place of an element, `jtok_find_token_val_nth_array` returns its field exactly when that is in reach. -/
theorem jtokFindTokenValNthArray_iff {buf : Str} {tokens : List Jsmntok} {d e : Doc Str} (h : Parsed buf tokens d) {arrayname : Str}
    {n : Nat} {pre post : List (Item Str)} (hits : items d = pre ++ items e ++ post)
    (hnth : jtokFindNthArrayMember tokens buf n arrayname tokens.length = .ok (pre.length : Int)) (name : Str) :
    jtokFindTokenValNthArray tokens buf n arrayname name tokens.length = .ok (place (fieldOf name (pre.length, e))) ↔
      FieldInReach name e := by
  obtain ⟨it, its, hcons, hsize, -⟩ := items_eq_cons e
  have hlt := size_lt_length e
  rw [hcons, List.length_cons] at hlt
  have hits' : items d = pre ++ it :: (its ++ post) := by
    rw [hits, hcons]
    simp
  have hget : (items d)[pre.length]? = some it := by
    rw [hits']
    simp
  have hlen : pre.length + 1 + (its.length + post.length) = (items d).length := by
    rw [hits']
    simp only [List.length_append, List.length_cons]
    omega
  obtain ⟨t, ht, hof⟩ := h.tokAt hget
  have hdrop : ((items d).drop (pre.length + 1)).take (e.size - 1) = its.take (e.size - 1) := by
    rw [hits', ← List.drop_drop, List.drop_left, List.drop_one, List.tail_cons, List.take_append_of_le_length (by omega)]
  have hne : (pre.length : Int) ≠ -1 := by omega
  have hfield := findFieldFrom_eq h name (show 0 < e.size - 1 → pre.length + 1 + (e.size - 1) < (items d).length by omega)
  unfold jtokFindTokenValNthArray
  simp only [hnth, Except.bind, bind, if_neg hne, Int.toNat_natCast, ht, hof.size, hsize]
  rw [hfield, hdrop, Except.ok.injEq, place_inj]
  exact fieldAt_iff name pre.length e hcons

/-- What the functions return is right exactly when the array, the element and the field fit the way they are looked for. -/
theorem accessesRight_iff {buf : Str} {tokens : List Jsmntok} {d : Doc Str} (h : Parsed buf tokens d) (arrayname name : Str) (n : Nat) :
    AccessesRight buf tokens d arrayname name n ↔ Fits arrayname name n d := by
  unfold AccessesRight Fits nthElement
  split
  · rename_i p es hm
    by_cases hk : KeyFirst arrayname (items d)
    · rw [if_pos hk]
      rcases jtokFindNthArrayMember_array h hm hk n with ⟨hlt, hnth⟩ | ⟨hle, j, hnth, hj⟩
      · refine iff_of_true ?_ (.inl hlt)
        rw [jtokFindTokenValNthArray, hnth, List.getElem?_eq_none (Nat.le_of_lt hlt)]
        exact ⟨rfl, rfl⟩
      · rw [hnth]
        rcases Nat.lt_or_eq_of_le hle with hlt | heq
        · have hget : es[n]? = some es[n] := List.getElem?_eq_getElem hlt
          obtain ⟨pre, post, hits, hp, -⟩ : Found arrayname 0 (items d) (some (p, .array es)) := hm ▸ found_member arrayname 0 d
          have hes : itemsL es = itemsL (es.take n) ++ (items es[n] ++ itemsL (es.drop (n + 1))) := by
            conv_lhs => rw [← List.take_append_drop n es, itemsL_append, List.drop_eq_getElem_cons hlt, itemsL]
          -- what stands in front of the element, and its length
          obtain ⟨pre', hpre', hlen⟩ : ∃ pre', items d = pre' ++ items es[n] ++ (itemsL (es.drop (n + 1)) ++ post) ∧
              pre'.length = p + 1 + (itemsL (es.take n)).length := by
            refine ⟨pre ++ keyItem arrayname :: { kind := .array, size := es.length } :: itemsL (es.take n), ?_, ?_⟩
            · rw [hits, items, hes]
              simp
            · simp only [List.length_append, List.length_cons, hp]
              omega
          have hsome : (some es[n]).map (fun e => (p + 1 + (itemsL (es.take n)).length, e)) = some (pre'.length, es[n]) := by
            rw [Option.map_some, hlen]
          have hplace : Except.ok ((p + 1 + j : Nat) : Int) = (.ok (place (some pre'.length)) : Except Fault Int) ↔
              ∀ e ∈ es.take n, e.Shallow := by
            rw [← hj, hlen, Except.ok.injEq, place]
            omega
          rw [hget, or_iff_right (Nat.not_lt.mpr hle), hsome, Option.map_some, Option.bind_some, hplace]
          simp only [Option.mem_some_iff, exists_eq_left']
          refine and_congr_right fun hall => ?_
          refine jtokFindTokenValNthArray_iff h hpre' ?_ name
          rw [hnth]
          exact hplace.mpr hall
        · refine iff_of_false ?_ ?_
          · rintro ⟨hplace, -⟩
            rw [List.getElem?_eq_none (Nat.le_of_eq heq.symm), Except.ok.injEq] at hplace
            simp [place] at hplace
            omega
          · rintro (hlt | ⟨e, he, -⟩)
            · omega
            · rw [List.getElem?_eq_none (Nat.le_of_eq heq.symm)] at he
              cases he
    · rw [if_neg hk]
      obtain ⟨hnth, hfield⟩ := jtokFind_unfound h (fun _ _ _ => hk) name n
      rw [hnth, hfield]
      constructor
      · rintro ⟨hplace, -⟩
        rw [Except.ok.injEq, show (-1 : Int) = place none from rfl, place_inj, eq_comm, Option.map_eq_none_iff,
          Option.map_eq_none_iff] at hplace
        exact List.getElem?_eq_none_iff.mp hplace
      · intro hle
        rw [List.getElem?_eq_none hle]
        exact ⟨rfl, rfl⟩
  · rename_i hno
    obtain ⟨hnth, hfield⟩ := jtokFind_unfound h (fun p es hm => absurd hm (hno p es)) name n
    rw [hnth, hfield]
    exact iff_of_true ⟨rfl, rfl⟩ trivial

theorem accessesRight_second : AccessesRight (str "\x7b\"a\":[1,\x7b\"b\":2\x7d]\x7d")
    [{ type := .object, start := 0, stop := 17, size := 2 }, { type := .string, start := 2, stop := 3 },
      { type := .array, start := 5, stop := 16, size := 2, valueof := 1 }, { type := .primitive, start := 6, stop := 7 },
      { type := .object, start := 8, stop := 15, size := 2 }, { type := .string, start := 10, stop := 11 },
      { type := .primitive, start := 13, stop := 14, valueof := 5 }]
    (.object [(str "a", .array [.primitive (str "1"), .object [(str "b", .primitive (str "2"))]])]) (str "a") (str "b") 1 := by
  refine (accessesRight_iff ?_ (str "a") (str "b") 1).mpr ?_
  · decide
  · refine .inr ⟨_, rfl, ?_, ?_⟩
    · intro e he
      rw [List.mem_singleton.mp he]
      exact rfl
    · exact ⟨fun _ h => (nomatch h), fun _ => Nat.zero_lt_one⟩

/-- The element behind the only one of an array is the place behind the last token. -/
theorem not_accessesRight : ¬ ∀ (buf : Str) (tokens : List Jsmntok) (d : Doc Str), Parsed buf tokens d →
    ∀ (arrayname name : Str) (n : Nat), AccessesRight buf tokens d arrayname name n := by
  intro hall
  have h := hall (str "\x7b\"a\":[1]\x7d")
    [{ type := .object, start := 0, stop := 9, size := 2 }, { type := .string, start := 2, stop := 3 },
      { type := .array, start := 5, stop := 8, size := 1, valueof := 1 }, { type := .primitive, start := 6, stop := 7 }]
    (.object [(str "a", .array [.primitive (str "1")])]) (by decide) (str "a") (str "b") 1
  exact absurd h.1 (by decide)

end Gnhast
