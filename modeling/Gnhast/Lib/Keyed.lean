import Mathlib.Data.List.Nodup
import Mathlib.Data.List.Perm.Basic

/-!
# Tables and their mirrors

A table is a list of records that are found by a key, where the first record with a key counts. A change sets a record, which
replaces the one with its key or joins the table, or deletes the record with a key. A mirror of a table under a filter is a
second table that holds the records that pass. It is told of a change that sets a record only when the record passes, and of
every change that deletes one; it stays a mirror exactly when no change takes a record that passed out of the filter.
-/

namespace Keyed

variable {α κ : Type} (key : α → κ)

/-- No two records have one key. -/
def Distinct (l : List α) : Prop := (l.map key).Nodup

variable {key}

theorem Distinct.nodup {l : List α} (h : Distinct key l) : l.Nodup := List.Nodup.of_map key h

theorem Distinct.eq_of_key {l : List α} (h : Distinct key l) {a b : α} (ha : a ∈ l) (hb : b ∈ l) (hk : key a = key b) :
    a = b := List.inj_on_of_nodup_map h ha hb hk

/-- A table holds the records of another that pass a filter, each once. -/
def Mirrors (p : α → Bool) (l t : List α) : Prop := t.Perm (l.filter p)

theorem mirrors_iff {p : α → Bool} {l t : List α} (hl : Distinct key l) (ht : Distinct key t) :
    Mirrors p l t ↔ ∀ a, a ∈ t ↔ a ∈ l ∧ p a = true := by
  unfold Mirrors
  rw [List.perm_ext_iff_of_nodup ht.nodup (hl.nodup.filter p)]
  simp only [List.mem_filter]

variable [DecidableEq κ]

variable (key) in
/-- The first record with a key. -/
def get (k : κ) (l : List α) : Option α := l.find? (fun a => key a = k)

variable (key) in
/-- The first record with a key replaced. -/
def put (k : κ) (new : α) : List α → List α
  | [] => []
  | a :: as => if key a = k then new :: as else a :: put k new as

variable (key) in
/-- The first record with a key removed. -/
def del (k : κ) (l : List α) : List α := l.eraseP (fun a => key a = k)

theorem get_eq_none {k : κ} {l : List α} : get key k l = none ↔ ∀ a ∈ l, key a ≠ k := by
  simp [get]

theorem mem_of_get {k : κ} {l : List α} {a : α} (h : get key k l = some a) : a ∈ l ∧ key a = k := by
  refine ⟨List.mem_of_find?_eq_some h, ?_⟩
  have := List.find?_some h
  exact of_decide_eq_true this

namespace Distinct

variable {l : List α} (h : Distinct key l)

include h

theorem get_of_mem {a : α} (ha : a ∈ l) : get key (key a) l = some a := by
  cases hg : get key (key a) l with
  | none => exact absurd rfl (get_eq_none.mp hg a ha)
  | some b =>
    obtain ⟨hb, hk⟩ := mem_of_get hg
    rw [h.eq_of_key hb ha hk]

theorem append_singleton {a : α} (ha : get key (key a) l = none) : Distinct key (l ++ [a]) := by
  unfold Distinct
  rw [List.map_append, List.map_singleton, List.nodup_append]
  refine ⟨h, List.nodup_singleton _, ?_⟩
  intro x hx y hy
  rw [List.mem_singleton.mp hy]
  obtain ⟨b, hb, rfl⟩ := List.mem_map.mp hx
  exact get_eq_none.mp ha b hb

theorem del (k : κ) : Distinct key (del key k l) := List.Nodup.sublist ((List.eraseP_sublist).map key) h

/-- Exactly the records with other keys are left. -/
theorem mem_del {k : κ} {b : α} : b ∈ Keyed.del key k l ↔ b ∈ l ∧ key b ≠ k := by
  unfold Keyed.del
  constructor
  · intro hb
    refine ⟨List.mem_of_mem_eraseP hb, fun hk => ?_⟩
    obtain ⟨a, l₁, l₂, hl₁, ha, hl, he⟩ := List.exists_of_eraseP (p := fun a => decide (key a = k))
      (List.mem_of_mem_eraseP hb) (by simpa using hk)
    rw [he] at hb
    have hnd : (l.map key).Nodup := h
    rw [hl, List.map_append, List.map_cons] at hnd
    have hka : key a = k := of_decide_eq_true ha
    rcases List.mem_append.mp hb with hb | hb
    · exact hl₁ b hb (by simpa using hk)
    · have := (List.nodup_cons.mp (List.nodup_append.mp hnd).2.1).1
      exact this (by rw [hka, ← hk]; exact List.mem_map_of_mem hb)
  · rintro ⟨hb, hk⟩
    exact (List.mem_eraseP_of_neg (by simpa using hk)).mpr hb

end Distinct

theorem map_key_put {k : κ} {new : α} (hn : key new = k) (l : List α) : (put key k new l).map key = l.map key := by
  induction l with
  | nil => rfl
  | cons a l ih =>
    unfold put
    split
    · rename_i ha
      rw [List.map_cons, List.map_cons, hn, ha]
    · rw [List.map_cons, List.map_cons, ih]

theorem Distinct.put {l : List α} (h : Distinct key l) {k : κ} {new : α} (hn : key new = k) : Distinct key (put key k new l) := by
  unfold Distinct
  rw [map_key_put hn]
  exact h

/-- The record that was put, and those with other keys. -/
theorem Distinct.mem_put {l : List α} (h : Distinct key l) {k : κ} {new : α} (hn : ∃ a ∈ l, key a = k) {b : α} :
    b ∈ Keyed.put key k new l ↔ b = new ∨ (b ∈ l ∧ key b ≠ k) := by
  induction l with
  | nil =>
    obtain ⟨a, ha, -⟩ := hn
    cases ha
  | cons a l ih =>
    have hnd : (key a :: l.map key).Nodup := h
    rw [List.nodup_cons] at hnd
    unfold Keyed.put
    split
    · rename_i ha
      rw [List.mem_cons, List.mem_cons]
      constructor
      · rintro (hb | hb)
        · exact Or.inl hb
        · refine Or.inr ⟨Or.inr hb, fun hk => hnd.1 ?_⟩
          rw [ha, ← hk]
          exact List.mem_map_of_mem hb
      · rintro (hb | ⟨hb | hb, hk⟩)
        · exact Or.inl hb
        · exact absurd (hb ▸ ha) hk
        · exact Or.inr hb
    · rename_i ha
      have hn' : ∃ a ∈ l, key a = k := by
        obtain ⟨c, hc, hk⟩ := hn
        rcases List.mem_cons.mp hc with rfl | hc
        · exact absurd hk ha
        · exact ⟨c, hc, hk⟩
      rw [List.mem_cons, List.mem_cons, ih hnd.2 hn']
      constructor
      · rintro (hb | hb | ⟨hb, hk⟩)
        · exact Or.inr ⟨Or.inl hb, hb ▸ ha⟩
        · exact Or.inl hb
        · exact Or.inr ⟨Or.inr hb, hk⟩
      · rintro (hb | ⟨hb | hb, hk⟩)
        · exact Or.inr (Or.inl hb)
        · exact Or.inl hb
        · exact Or.inr (Or.inr ⟨hb, hk⟩)

/-! ## Changes -/

/-- A change of a table. -/
inductive Change (α κ : Type)
  | set (a : α)
  | del (k : κ)

variable (key) in
/-- A table after a change. -/
def Change.apply : Change α κ → List α → List α
  | .set a, l => match get key (key a) l with
    | none => l ++ [a]
    | some _ => put key (key a) a l
  | .del k, l => Keyed.del key k l

/-- The records a change leaves. -/
def Change.Leaves (key : α → κ) (c : Change α κ) (P : α → Prop) (b : α) : Prop :=
  match c with
  | .set a => b = a ∨ (P b ∧ key b ≠ key a)
  | .del k => P b ∧ key b ≠ k

theorem Distinct.apply {l : List α} (h : Distinct key l) (c : Change α κ) : Distinct key (c.apply key l) := by
  cases c with
  | set a =>
    simp only [Change.apply]
    split
    · rename_i hg
      exact h.append_singleton hg
    · exact h.put rfl
  | del k => exact h.del k

theorem Distinct.mem_apply {l : List α} (h : Distinct key l) (c : Change α κ) {b : α} :
    b ∈ c.apply key l ↔ c.Leaves key (· ∈ l) b := by
  cases c with
  | set a =>
    simp only [Change.apply, Change.Leaves]
    split
    · rename_i hg
      rw [List.mem_append, List.mem_singleton]
      constructor
      · rintro (hb | hb)
        · exact Or.inr ⟨hb, get_eq_none.mp hg b hb⟩
        · exact Or.inl hb
      · rintro (hb | ⟨hb, -⟩)
        · exact Or.inr hb
        · exact Or.inl hb
    · rename_i a' hg
      exact h.mem_put ⟨a', mem_of_get hg⟩
  | del k => exact h.mem_del

/-! ## Mirrors -/

/-- What a mirror is told of a change. -/
def Change.tell (p : α → Bool) : Change α κ → Option (Change α κ)
  | .set a => if p a then some (.set a) else none
  | .del k => some (.del k)

/-- A table after a change that it may be told of. -/
def applyTold (key : α → κ) (c : Option (Change α κ)) (t : List α) : List α :=
  match c with
  | some c => c.apply key t
  | none => t

theorem Distinct.applyTold {t : List α} (h : Distinct key t) (c : Option (Change α κ)) : Distinct key (applyTold key c t) := by
  cases c with
  | none => exact h
  | some c => exact h.apply c

/-- A change that takes no record out of a filter. -/
def Change.Stays (key : α → κ) (p : α → Bool) (l : List α) : Change α κ → Prop
  | .set a => ∀ old ∈ l, key old = key a → p old = true → p a = true
  | .del _ => True

/-- A mirror that is told of a change stays a mirror exactly when the change takes no record out of the filter. -/
theorem mirrors_apply_iff {p : α → Bool} {l t : List α} (hl : Distinct key l) (ht : Distinct key t) (h : Mirrors p l t)
    (c : Change α κ) : Mirrors p (c.apply key l) (applyTold key (c.tell p) t) ↔ c.Stays key p l := by
  rw [mirrors_iff hl ht] at h
  rw [mirrors_iff (hl.apply c) (ht.applyTold _)]
  have hmem : ∀ a, a ∈ c.apply key l ↔ c.Leaves key (· ∈ l) a := fun a => hl.mem_apply c
  cases c with
  | del k =>
    refine ⟨fun _ => trivial, fun _ a => ?_⟩
    rw [hmem]
    change a ∈ Change.apply key (.del k) t ↔ _
    rw [ht.mem_apply]
    simp only [Change.Leaves, h a]
    tauto
  | set new =>
    by_cases hp : p new = true
    · refine ⟨fun _ old _ _ _ => hp, fun _ a => ?_⟩
      rw [hmem, Change.tell, if_pos hp]
      change a ∈ Change.apply key (.set new) t ↔ _
      rw [ht.mem_apply]
      simp only [Change.Leaves, h a]
      constructor
      · rintro (rfl | ⟨⟨ha, hpa⟩, hk⟩)
        · exact ⟨Or.inl rfl, hp⟩
        · exact ⟨Or.inr ⟨ha, hk⟩, hpa⟩
      · rintro ⟨rfl | ⟨ha, hk⟩, hpa⟩
        · exact Or.inl rfl
        · exact Or.inr ⟨⟨ha, hpa⟩, hk⟩
    · rw [Change.tell, if_neg hp]
      constructor
      · intro hm old hold hk hpo
        have hin := (hm old).mp ((h old).mpr ⟨hold, hpo⟩)
        rcases (hmem old).mp hin.1 with rfl | ⟨-, hne⟩
        · exact hpo
        · exact absurd hk hne
      · intro hs a
        rw [hmem]
        change a ∈ t ↔ _
        rw [h a]
        simp only [Change.Leaves]
        constructor
        · rintro ⟨ha, hpa⟩
          exact ⟨Or.inr ⟨ha, fun hk => hp (hs a ha hk hpa)⟩, hpa⟩
        · rintro ⟨rfl | ⟨ha, -⟩, hpa⟩
          · exact absurd hpa hp
          · exact ⟨ha, hpa⟩

/-! ## Filling a mirror -/

/-- A table holds only records of another that pass a filter. -/
def Within (p : α → Bool) (l t : List α) : Prop := ∀ a ∈ t, a ∈ l ∧ p a = true

/-- A table within another stays within it when it is told of changes that take no record out of the filter. -/
theorem within_apply {p : α → Bool} {l t : List α} (hl : Distinct key l) (ht : Distinct key t) (h : Within p l t)
    {c : Change α κ} (hs : c.Stays key p l) : Within p (c.apply key l) (applyTold key (c.tell p) t) := by
  intro a ha
  rw [hl.mem_apply]
  cases c with
  | del k =>
    obtain ⟨hat, hk⟩ := (ht.mem_apply (.del k)).mp ha
    exact ⟨⟨(h a hat).1, hk⟩, (h a hat).2⟩
  | set new =>
    rw [Change.tell] at ha
    split at ha
    · rename_i hp
      rcases (ht.mem_apply (.set new)).mp ha with rfl | ⟨hat, hk⟩
      · exact ⟨Or.inl rfl, hp⟩
      · exact ⟨Or.inr ⟨(h a hat).1, hk⟩, (h a hat).2⟩
    · rename_i hp
      obtain ⟨hal, hpa⟩ := h a ha
      exact ⟨Or.inr ⟨hal, fun hk => hp (hs a hal hk hpa)⟩, hpa⟩

variable (key) in
/-- A table in which records are set, one after the other. -/
def setAll (as t : List α) : List α := as.foldl (fun t a => (Change.set a : Change α κ).apply key t) t

theorem Distinct.setAll {t : List α} (h : Distinct key t) (as : List α) : Distinct key (setAll key as t) := by
  induction as generalizing t with
  | nil => exact h
  | cons a as ih => exact ih (h.apply (.set a))

/-- Among records of a table, those that are set join those that were there. -/
theorem Distinct.mem_setAll {l : List α} (hl : Distinct key l) {as t : List α} (ht : Distinct key t) (has : ∀ a ∈ as, a ∈ l)
    (htl : ∀ a ∈ t, a ∈ l) {b : α} : b ∈ Keyed.setAll key as t ↔ b ∈ as ∨ b ∈ t := by
  induction as generalizing t with
  | nil => simp [Keyed.setAll]
  | cons a as ih =>
    have ha := has a List.mem_cons_self
    have hmem : ∀ b, b ∈ (Change.set a : Change α κ).apply key t ↔ b = a ∨ b ∈ t := by
      intro b
      rw [ht.mem_apply]
      constructor
      · rintro (hb | ⟨hb, -⟩)
        · exact Or.inl hb
        · exact Or.inr hb
      · rintro (hb | hb)
        · exact Or.inl hb
        · by_cases hk : key b = key a
          · exact Or.inl (hl.eq_of_key (htl b hb) ha hk)
          · exact Or.inr ⟨hb, hk⟩
    have hstep := ih (ht.apply (.set a)) (fun x hx => has x (List.mem_cons_of_mem _ hx)) (fun x hx => by
      rcases (hmem x).mp hx with rfl | hx
      · exact ha
      · exact htl x hx)
    rw [List.mem_cons]
    refine hstep.trans ?_
    rw [hmem]
    tauto

/-- A table within another becomes its mirror when all records that pass are set in it. -/
theorem mirrors_setAll {p : α → Bool} {l t : List α} (hl : Distinct key l) (ht : Distinct key t) (h : Within p l t) :
    Mirrors p l (setAll key (l.filter p) t) := by
  rw [mirrors_iff hl (ht.setAll _)]
  intro a
  rw [hl.mem_setAll ht (fun a ha => (List.mem_filter.mp ha).1) (fun a ha => (h a ha).1), List.mem_filter]
  exact ⟨fun ha => ha.elim id (h a), Or.inl⟩

/-! ## Records brought up to date in place -/

variable (key) in
/-- A table with the record for a key brought up to date; a record that is missing is made first. -/
def upsert (new : α) (f : α → α) (l : List α) : List α :=
  (Change.set (f ((get key (key new) l).getD new)) : Change α κ).apply key l

variable (key) in
/-- A table brought up to date for one thing after the other. -/
def upsertAll {β : Type} (new : β → α) (f : β → α → α) (bs : List β) (l : List α) : List α :=
  bs.foldl (fun l b => upsert key (new b) (f b) l) l

theorem Distinct.get_eq_some_iff {l : List α} (h : Distinct key l) {k : κ} {a : α} :
    get key k l = some a ↔ a ∈ l ∧ key a = k := by
  refine ⟨mem_of_get, ?_⟩
  rintro ⟨ha, rfl⟩
  exact h.get_of_mem ha

/-- The record that was set is found, and the others are found as before. -/
theorem Distinct.get_set {l : List α} (h : Distinct key l) (a : α) (k : κ) :
    get key k ((Change.set a : Change α κ).apply key l) = if k = key a then some a else get key k l := by
  have hd := h.apply (.set a)
  split
  · rename_i hk
    rw [hd.get_eq_some_iff, h.mem_apply]
    exact ⟨Or.inl rfl, hk.symm⟩
  · rename_i hk
    ext b
    rw [hd.get_eq_some_iff, h.get_eq_some_iff, h.mem_apply]
    constructor
    · rintro ⟨rfl | ⟨hb, -⟩, hkb⟩
      · exact absurd hkb.symm hk
      · exact ⟨hb, hkb⟩
    · rintro ⟨hb, hkb⟩
      exact ⟨Or.inr ⟨hb, fun he => hk (hkb.symm.trans he)⟩, hkb⟩

section Upsert

variable {f : α → α} (hf : ∀ a, key (f a) = key a)

include hf

theorem key_upserted (new : α) (l : List α) : key (f ((get key (key new) l).getD new)) = key new := by
  rw [hf]
  cases hg : get key (key new) l with
  | none => rfl
  | some a => exact (mem_of_get hg).2

theorem Distinct.get_upsert {l : List α} (h : Distinct key l) (new : α) (k : κ) :
    get key k (Keyed.upsert key new f l) = if k = key new then some (f ((get key k l).getD new)) else get key k l := by
  rw [Keyed.upsert, h.get_set, key_upserted hf]
  split
  · rename_i hk
    rw [hk]
  · rfl

end Upsert

theorem Distinct.upsert {l : List α} (h : Distinct key l) (new : α) (f : α → α) : Distinct key (upsert key new f l) :=
  h.apply _

section UpsertAll

variable {β : Type} {new : β → α} {f : β → α → α}

theorem Distinct.upsertAll {l : List α} (h : Distinct key l) (bs : List β) : Distinct key (upsertAll key new f bs l) := by
  induction bs generalizing l with
  | nil => exact h
  | cons b bs ih => exact ih (h.upsert _ _)

variable (hf : ∀ b a, key (f b a) = key a)

include hf

/-- A record with another key is found as before. -/
theorem Distinct.get_upsertAll_of_ne {l : List α} (h : Distinct key l) {bs : List β} {k : κ} (hk : ∀ b ∈ bs, key (new b) ≠ k) :
    get key k (Keyed.upsertAll key new f bs l) = get key k l := by
  induction bs generalizing l with
  | nil => rfl
  | cons b bs ih =>
    refine (ih (h.upsert _ _) fun b' hb' => hk b' (List.mem_cons_of_mem _ hb')).trans ?_
    rw [h.get_upsert (hf b), if_neg (fun he => hk b List.mem_cons_self he.symm)]

/-- Where no two things have one key, the record of each is brought up to date from the one that was there. -/
theorem Distinct.get_upsertAll {l : List α} (h : Distinct key l) {bs : List β} (hn : (bs.map fun b => key (new b)).Nodup) {b : β}
    (hb : b ∈ bs) : get key (key (new b)) (Keyed.upsertAll key new f bs l) =
      some (f b ((get key (key (new b)) l).getD (new b))) := by
  induction bs generalizing l with
  | nil => cases hb
  | cons b' bs ih =>
    rw [List.map_cons, List.nodup_cons] at hn
    rcases List.mem_cons.mp hb with rfl | hb
    · refine (Distinct.get_upsertAll_of_ne hf (h.upsert _ _) fun b' hb' he => hn.1 ?_).trans ?_
      · rw [← he]
        exact List.mem_map_of_mem hb'
      · rw [h.get_upsert (hf b), if_pos rfl]
    · refine (ih (h.upsert _ _) hn.2 hb).trans ?_
      have hne : key (new b) ≠ key (new b') := fun he => hn.1 (he ▸ List.mem_map_of_mem hb)
      rw [h.get_upsert (hf b'), if_neg hne]

end UpsertAll

/-! ## Maps that learn -/

section Learn

variable {β : Type} (name : β → κ) (f : β → Option α → α)

variable {name}

end Learn

end Keyed
