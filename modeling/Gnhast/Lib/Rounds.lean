import Gnhast.Lib.Faults

/-!
# Loops that may stop

A loop over a list hands a state on from round to round and collects what the rounds give. `Each` says that every round that is reached
meets a condition on the state it begins in. A loop settles as its rounds do, where no round changes the condition of a later one.
-/

namespace Faults

variable {ε α σ ω : Type} {bad : ε → Prop}

theorem bind_eq_ok {β : Type} {x : Except ε α} {f : α → Except ε β} {b : β} :
    (x >>= f) = .ok b ↔ ∃ a, x = .ok a ∧ f a = .ok b := by
  cases x <;> simp [bind, Except.bind]

theorem map_eq_ok {β : Type} {x : Except ε α} {f : α → β} {b : β} : x.map f = .ok b ↔ ∃ a, x = .ok a ∧ f a = b := by
  cases x <;> simp [Except.map]

/-- A loop over a list. -/
def rounds (f : α → σ → Except ε (σ × List ω)) : List α → σ → Except ε (σ × List ω)
  | [], s => .ok (s, [])
  | a :: as, s => f a s >>= fun r => (rounds f as r.1).map fun r' => (r'.1, r.2 ++ r'.2)

/-- Every round that is reached meets a condition. -/
def Each (f : α → σ → Except ε (σ × List ω)) (P : α → σ → Prop) : List α → σ → Prop
  | [], _ => True
  | a :: as, s => P a s ∧ ∀ s' out, f a s = .ok (s', out) → Each f P as s'

variable {f : α → σ → Except ε (σ × List ω)}

theorem rounds_cons_eq_ok {a : α} {as : List α} {s : σ} {r : σ × List ω} : rounds f (a :: as) s = .ok r ↔
    ∃ s₁ out₁ s₂ out₂, f a s = .ok (s₁, out₁) ∧ rounds f as s₁ = .ok (s₂, out₂) ∧ r = (s₂, out₁ ++ out₂) := by
  have hcons : rounds f (a :: as) s = f a s >>= fun r => (rounds f as r.1).map fun r' => (r'.1, r.2 ++ r'.2) := rfl
  rw [hcons, bind_eq_ok]
  simp only [map_eq_ok, Prod.exists]
  exact ⟨fun ⟨s₁, out₁, h₁, s₂, out₂, h₂, hr⟩ => ⟨s₁, out₁, s₂, out₂, h₁, h₂, hr.symm⟩,
    fun ⟨s₁, out₁, s₂, out₂, h₁, h₂, hr⟩ => ⟨s₁, out₁, h₁, s₂, out₂, h₂, hr.symm⟩⟩

/-- What every round does holds of the whole loop, when it is so for no round and for two in a row. -/
theorem rounds_induct {Q : σ → σ → List ω → Prop} (hnil : ∀ s, Q s s [])
    (happend : ∀ {s s' s'' out out'}, Q s s' out → Q s' s'' out' → Q s s'' (out ++ out')) {as : List α}
    (hf : ∀ a ∈ as, ∀ s s' out, f a s = .ok (s', out) → Q s s' out) {s s' : σ} {out : List ω}
    (h : rounds f as s = .ok (s', out)) : Q s s' out := by
  induction as generalizing s out with
  | nil =>
    cases h
    exact hnil _
  | cons a as ih =>
    obtain ⟨s₁, out₁, s₂, out₂, h₁, h₂, hr⟩ := rounds_cons_eq_ok.mp h
    cases hr
    exact happend (hf a List.mem_cons_self _ _ _ h₁) (ih (fun b hb => hf b (List.mem_cons_of_mem a hb)) h₂)

/-- What each round brings about for its element, and no round undoes, holds for every element after the loop. -/
theorem rounds_establish {P : α → σ → Prop} (hdo : ∀ a s s' out, f a s = .ok (s', out) → P a s')
    (hkeep : ∀ a b s s' out, f a s = .ok (s', out) → P b s → P b s') {as : List α} {s s' : σ} {out : List ω}
    (h : rounds f as s = .ok (s', out)) : ∀ a ∈ as, P a s' := by
  induction as generalizing s out with
  | nil => exact fun a ha => (List.not_mem_nil ha).elim
  | cons a as ih =>
    obtain ⟨s₁, out₁, s₂, out₂, h₁, h₂, hr⟩ := rounds_cons_eq_ok.mp h
    cases hr
    intro b hb
    rcases List.mem_cons.mp hb with rfl | hb
    · have hpass := rounds_induct (Q := fun s s' _ => P b s → P b s') (fun _ hp => hp) (fun hp hp' hb => hp' (hp hb))
        (fun c _ s s' out hc => hkeep c b s s' out hc) h₂
      exact hpass (hdo b s s₁ out₁ h₁)
    · exact ih h₂ b hb

/-- A loop settles exactly when its rounds do, where a round does not change the condition of a later one. -/
theorem settles_rounds {ok : α → σ → Prop} (hf : ∀ a s, Settles bad (ok a s) (f a s)) {as : List α}
    (hkeep : as.Pairwise fun a b => ∀ s s' out, f a s = .ok (s', out) → (ok b s' ↔ ok b s)) (s : σ) :
    Settles bad (∀ a ∈ as, ok a s) (rounds f as s) := by
  induction as generalizing s with
  | nil => exact settles_ok (fun a ha => by cases ha) _
  | cons a as ih =>
    obtain ⟨hab, has⟩ := List.pairwise_cons.mp hkeep
    have hsettles : Settles bad (ok a s ∧ ∀ b ∈ as, ok b s) (rounds f (a :: as) s) := by
      refine (hf a s).bind fun r hr => (Settles.map ?_ _)
      refine (ih has r.1).congr ?_
      exact forall_congr' fun b => forall_congr' fun hb => hab b hb s r.1 r.2 hr
    exact hsettles.congr (List.forall_mem_cons (p := fun b => ok b s)).symm

/-- A loop comes to its end exactly when every round that is reached does. -/
theorem exists_rounds_iff {as : List α} {s : σ} : (∃ r, rounds f as s = .ok r) ↔ Each f (fun a s => ∃ r, f a s = .ok r) as s := by
  induction as generalizing s with
  | nil => exact iff_of_true ⟨_, rfl⟩ trivial
  | cons a as ih =>
    constructor
    · rintro ⟨r, hr⟩
      obtain ⟨s₁, out₁, s₂, out₂, h₁, h₂, -⟩ := rounds_cons_eq_ok.mp hr
      refine ⟨⟨_, h₁⟩, fun s' out h => ?_⟩
      rw [h₁] at h
      cases h
      exact ih.mp ⟨_, h₂⟩
    · rintro ⟨⟨⟨s₁, out₁⟩, h₁⟩, hrest⟩
      obtain ⟨⟨s₂, out₂⟩, h₂⟩ := ih.mpr (hrest s₁ out₁ h₁)
      exact ⟨_, rounds_cons_eq_ok.mpr ⟨s₁, out₁, s₂, out₂, h₁, h₂, rfl⟩⟩

theorem each_congr {P Q : α → σ → Prop} (h : ∀ a s, P a s ↔ Q a s) {as : List α} {s : σ} : Each f P as s ↔ Each f Q as s := by
  induction as generalizing s with
  | nil => exact Iff.rfl
  | cons a as ih => exact and_congr (h a s) (forall_congr' fun s' => forall_congr' fun out => imp_congr_right fun _ => ih)

theorem each_and {P Q : α → σ → Prop} {as : List α} {s : σ} :
    Each f (fun a s => P a s ∧ Q a s) as s ↔ Each f P as s ∧ Each f Q as s := by
  induction as generalizing s with
  | nil => exact (and_self_iff).symm
  | cons a as ih =>
    constructor
    · rintro ⟨⟨hP, hQ⟩, hrest⟩
      exact ⟨⟨hP, fun s' out h => (ih.mp (hrest s' out h)).1⟩, hQ, fun s' out h => (ih.mp (hrest s' out h)).2⟩
    · rintro ⟨⟨hP, hPs⟩, hQ, hQs⟩
      exact ⟨⟨hP, hQ⟩, fun s' out h => ih.mpr ⟨hPs s' out h, hQs s' out h⟩⟩

end Faults
