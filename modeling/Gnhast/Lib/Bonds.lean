import Mathlib.Data.List.Nodup
import Mathlib.Tactic.Tauto

/-!
# Things that are vouched for

Members that come and go are each bound to a thing, or to none, and some things count as well. A member that binds itself to a
thing, or that gives a sign of life, makes the thing well; a member that is ill, or leaves, makes it unwell. The things that are
well are vouched for when each has a member that is bound to it. Members can be bound anew, and several can be bound to one
thing; so a thing that is left behind stays well, and one that others vouch for becomes unwell. Both are told here exactly.
-/

/-- Members, what each is bound to, and what is well. -/
structure Bonds (C D : Type) where
  live : List C
  bound : C → Option D
  well : D → Prop

namespace Bonds

variable {C D : Type}

@[ext] theorem ext {b b' : Bonds C D} (h1 : b.live = b'.live) (h2 : ∀ c, b.bound c = b'.bound c)
    (h3 : ∀ x, b.well x ↔ b'.well x) : b = b' := by
  obtain ⟨l, f, w⟩ := b
  obtain ⟨l', f', w'⟩ := b'
  have hf : f = f' := funext h2
  have hw : w = w' := funext fun x => propext (h3 x)
  subst hf hw
  congr

/-- Every thing that is well has a member that is bound to it. -/
def Vouched (b : Bonds C D) : Prop := ∀ x, b.well x → ∃ c ∈ b.live, b.bound c = some x

/-- Another member is bound to a thing. -/
def Other (b : Bonds C D) (c : C) (x : D) : Prop := ∃ c' ∈ b.live, c' ≠ c ∧ b.bound c' = some x

/-- What is well, and has another member, stays well. -/
def Spares (b : Bonds C D) (c : C) (b' : Bonds C D) : Prop := ∀ x, b.well x → b.Other c x → b'.well x

/-- A member gives a sign of life: what it is bound to becomes well if it counts. -/
def alive (b : Bonds C D) (counts : D → Prop) (c : C) : Bonds C D :=
  { b with well := fun y => b.well y ∨ (b.bound c = some y ∧ counts y) }

/-- A member is ill. -/
def ill (b : Bonds C D) (c : C) : Bonds C D := { b with well := fun y => b.well y ∧ b.bound c ≠ some y }

theorem Vouched.alive {b : Bonds C D} (h : b.Vouched) (counts : D → Prop) {c : C} (hc : c ∈ b.live) :
    (b.alive counts c).Vouched := by
  rintro x (hx | ⟨hx, -⟩)
  · exact h x hx
  · exact ⟨c, hc, hx⟩

/-- Where nothing becomes well, and members and bonds stay, all is vouched for. -/
theorem Vouched.mono {b b' : Bonds C D} (h : b.Vouched) (hl : b'.live = b.live) (hb : b'.bound = b.bound)
    (hw : ∀ x, b'.well x → b.well x) : b'.Vouched := by
  intro x hx
  rw [hl, hb]
  exact h x (hw x hx)

theorem Vouched.ill {b : Bonds C D} (h : b.Vouched) (c : C) : (b.ill c).Vouched := h.mono rfl rfl fun _ hx => hx.1

/-- A member that is ill spares the others exactly when what it is bound to is not well, or has no other member. -/
theorem spares_ill_iff (b : Bonds C D) (c : C) :
    b.Spares c (b.ill c) ↔ ∀ x, b.bound c = some x → b.well x → ¬ b.Other c x := by
  constructor
  · intro h x hx hw ho
    exact (h x hw ho).2 hx
  · intro h x hw ho
    exact ⟨hw, fun hx => h x hx hw ho⟩

variable [DecidableEq C]

/-- A member joins, bound to nothing. -/
def join (b : Bonds C D) (c : C) : Bonds C D := { b with live := b.live ++ [c], bound := Function.update b.bound c none }

/-- A member is bound to a thing, which becomes well if it counts. -/
def bind (b : Bonds C D) (counts : D → Prop) (c : C) (x : D) : Bonds C D :=
  { b with bound := Function.update b.bound c (some x), well := fun y => b.well y ∨ (y = x ∧ counts x) }

/-- A member leaves. -/
def leave (b : Bonds C D) (c : C) : Bonds C D := { b.ill c with live := b.live.erase c }

theorem Vouched.join {b : Bonds C D} (h : b.Vouched) {c : C} (hc : c ∉ b.live) : (b.join c).Vouched := by
  intro x hx
  obtain ⟨c', hc', hb⟩ := h x hx
  refine ⟨c', List.mem_append_left _ hc', ?_⟩
  have hne : c' ≠ c := fun he => hc (he ▸ hc')
  simpa [Bonds.join, hne] using hb

theorem Vouched.leave {b : Bonds C D} (h : b.Vouched) (c : C) : (b.leave c).Vouched := by
  rintro x ⟨hx, hne⟩
  obtain ⟨c', hc', hb⟩ := h x hx
  have hcc : c' ≠ c := fun he => hne (he ▸ hb)
  exact ⟨c', (List.mem_erase_of_ne hcc).mpr hc', hb⟩

/-- A member that is bound to another thing leaves nothing behind exactly when what it was bound to is not well, or has another
member. -/
theorem vouched_bind_iff {b : Bonds C D} (h : b.Vouched) (counts : D → Prop) {c : C} (hc : c ∈ b.live) (x : D) :
    (b.bind counts c x).Vouched ↔ ∀ y, b.bound c = some y → y ≠ x → b.well y → b.Other c y := by
  constructor
  · intro h' y hy hne hw
    obtain ⟨c', hc', hb⟩ := h' y (Or.inl hw)
    by_cases he : c' = c
    · subst he
      have hb : some x = some y := by simpa [Bonds.bind] using hb
      exact absurd (Option.some.inj hb).symm hne
    · exact ⟨c', hc', he, by simpa [Bonds.bind, he] using hb⟩
  · intro hcond y hy
    by_cases hyx : y = x
    · exact ⟨c, hc, by simp [Bonds.bind, hyx]⟩
    · have hw : b.well y := hy.resolve_right fun hr => hyx hr.1
      have hother : b.Other c y := by
        obtain ⟨c', hc', hb⟩ := h y hw
        by_cases he : c' = c
        · exact hcond y (he ▸ hb) hyx hw
        · exact ⟨c', hc', he, hb⟩
      obtain ⟨c', hc', he, hb⟩ := hother
      exact ⟨c', hc', by simpa [Bonds.bind, he] using hb⟩

/-- A member that leaves spares the others exactly under the same condition. -/
theorem spares_leave_iff (b : Bonds C D) (c : C) :
    b.Spares c (b.leave c) ↔ ∀ x, b.bound c = some x → b.well x → ¬ b.Other c x := spares_ill_iff b c

end Bonds
