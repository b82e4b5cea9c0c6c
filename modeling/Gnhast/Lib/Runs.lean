import Mathlib.Tactic.Common

/-!
# Runs of a transition function

A step takes a state and an event to the next state, or to none when the event is not possible or ends the run. `exec` runs a
list of events; `Along ok` says that every step of a run is taken under a condition on the state before it and the event;
`Throughout P` says that a property holds in every state a run visits. The rules turn what one step preserves into what runs
preserve (`exec_induct`, `along_induct`), and an exact condition for one step into one for runs (`throughout_iff_along`).
-/

namespace Runs

variable {σ ε : Type} (step : σ → ε → Option σ)

/-- The state after a list of events. -/
def exec : σ → List ε → Option σ
  | s, [] => some s
  | s, e :: es => (step s e).bind fun s' => exec s' es

/-- Every step that a run takes meets a condition. -/
def Along (ok : σ → ε → Prop) : σ → List ε → Prop
  | _, [] => True
  | s, e :: es => ∀ s', step s e = some s' → ok s e ∧ Along ok s' es

/-- A property holds in every state a run visits. -/
def Throughout (P : σ → Prop) : σ → List ε → Prop
  | s, [] => P s
  | s, e :: es => P s ∧ ∀ s', step s e = some s' → Throughout P s' es

/-- Whether the steps of a given run meet a condition can be computed. -/
instance decidableAlong {ok : σ → ε → Prop} [∀ s e, Decidable (ok s e)] : ∀ s es, Decidable (Along step ok s es)
  | _, [] => .isTrue trivial
  | s, e :: es =>
    match h : step s e with
    | none => .isTrue fun _ hs' => (nomatch h.symm.trans hs')
    | some s' =>
      have : Decidable (Along step ok s' es) := decidableAlong s' es
      decidable_of_iff (ok s e ∧ Along step ok s' es)
        ⟨fun hok _ hs'' => (Option.some.inj (h.symm.trans hs'')) ▸ hok, fun hok => hok s' h⟩

variable {step}

theorem exec_cons_eq_some {s s'' : σ} {e : ε} {es : List ε} :
    exec step s (e :: es) = some s'' ↔ ∃ s', step s e = some s' ∧ exec step s' es = some s'' :=
  Option.bind_eq_some_iff

theorem exec_append_eq_some {s s'' : σ} {xs ys : List ε} :
    exec step s (xs ++ ys) = some s'' ↔ ∃ s', exec step s xs = some s' ∧ exec step s' ys = some s'' := by
  induction xs generalizing s with
  | nil => simp [exec]
  | cons e xs ih =>
    rw [List.cons_append, exec_cons_eq_some]
    constructor
    · rintro ⟨s1, h1, h2⟩
      obtain ⟨s2, h3, h4⟩ := ih.mp h2
      exact ⟨s2, exec_cons_eq_some.mpr ⟨s1, h1, h3⟩, h4⟩
    · rintro ⟨s2, h3, h4⟩
      obtain ⟨s1, h1, h2⟩ := exec_cons_eq_some.mp h3
      exact ⟨s1, h1, ih.mpr ⟨s2, h2, h4⟩⟩

/-- What every step on some events preserves holds after every run of such events. -/
theorem exec_induct_of {I : σ → Prop} {Q : ε → Prop} (hstep : ∀ s e s', Q e → I s → step s e = some s' → I s') {s s' : σ}
    {es : List ε} (hQ : ∀ e ∈ es, Q e) (hs : I s) (h : exec step s es = some s') : I s' := by
  induction es generalizing s with
  | nil =>
    cases h
    exact hs
  | cons e es ih =>
    obtain ⟨he, hes⟩ := List.forall_mem_cons.mp hQ
    obtain ⟨s1, h1, h2⟩ := exec_cons_eq_some.mp h
    exact ih hes (hstep s e s1 he hs h1) h2

/-- What every step preserves holds after every run. -/
theorem exec_induct {I : σ → Prop} (hstep : ∀ s e s', I s → step s e = some s' → I s') {s s' : σ} {es : List ε} (hs : I s)
    (h : exec step s es = some s') : I s' :=
  exec_induct_of (fun s e s' _ => hstep s e s') (fun _ _ => trivial) hs h

/-- Two runs on related events keep what every two steps on related events keep. -/
theorem exec_related {τ φ : Type} {step' : τ → φ → Option τ} {R : σ → τ → Prop} {E : ε → φ → Prop}
    (hstep : ∀ s t e f s' t', R s t → E e f → step s e = some s' → step' t f = some t' → R s' t') {s s' : σ} {t t' : τ}
    {es : List ε} {fs : List φ} (hes : List.Forall₂ E es fs) (hr : R s t) (hs : exec step s es = some s')
    (ht : exec step' t fs = some t') : R s' t' := by
  induction hes generalizing s t with
  | nil =>
    cases hs
    cases ht
    exact hr
  | cons he _ ih =>
    obtain ⟨s1, hs1, hs⟩ := exec_cons_eq_some.mp hs
    obtain ⟨t1, ht1, ht⟩ := exec_cons_eq_some.mp ht
    exact ih (hstep _ _ _ _ _ _ hr he hs1 ht1) hs ht

/-- Where every step from a state with an invariant is possible and keeps it, every run is possible. -/
theorem exec_total {I : σ → Prop} (hstep : ∀ s e, I s → ∃ s', step s e = some s' ∧ I s') {s : σ} (hs : I s) (es : List ε) :
    ∃ s', exec step s es = some s' := by
  induction es generalizing s with
  | nil => exact ⟨s, rfl⟩
  | cons e es ih =>
    obtain ⟨s1, h1, hs1⟩ := hstep s e hs
    obtain ⟨s2, h2⟩ := ih hs1
    exact ⟨s2, exec_cons_eq_some.mpr ⟨s1, h1, h2⟩⟩

/-- Where the steps from a state with an invariant keep it, and are possible exactly on certain events, so are the runs. -/
theorem exists_exec_iff {I : σ → Prop} {ok : ε → Prop} (hI : ∀ s e s', I s → step s e = some s' → I s')
    (hok : ∀ s e, I s → ((∃ s', step s e = some s') ↔ ok e)) {s : σ} (hs : I s) (es : List ε) :
    (∃ s', exec step s es = some s') ↔ ∀ e ∈ es, ok e := by
  induction es generalizing s with
  | nil => exact iff_of_true ⟨s, rfl⟩ (fun _ he => nomatch he)
  | cons e es ih =>
    rw [List.forall_mem_cons, ← hok s e hs]
    constructor
    · rintro ⟨s', h⟩
      obtain ⟨s1, h1, h2⟩ := exec_cons_eq_some.mp h
      exact ⟨⟨s1, h1⟩, (ih (hI s e s1 hs h1)).mp ⟨s', h2⟩⟩
    · rintro ⟨⟨s1, h1⟩, hes⟩
      obtain ⟨s2, h2⟩ := (ih (hI s e s1 hs h1)).mpr hes
      exact ⟨s2, exec_cons_eq_some.mpr ⟨s1, h1, h2⟩⟩

/-- A run on events that are related to some events and a last one: its last step is on one that is related to that one. -/
theorem exec_related_concat {φ : Type} {E : φ → ε → Prop} {xs : List φ} {x : φ} {es : List ε}
    (hes : List.Forall₂ E (xs ++ [x]) es) {s s' : σ} (h : exec step s es = some s') :
    ∃ es' e s₁, List.Forall₂ E xs es' ∧ E x e ∧ exec step s es' = some s₁ ∧ step s₁ e = some s' := by
  induction xs generalizing s es with
  | nil =>
    rw [List.nil_append] at hes
    rcases hes with _ | ⟨he, ⟨⟩⟩
    obtain ⟨s₁, hs, hend⟩ := exec_cons_eq_some.mp h
    cases hend
    exact ⟨[], _, s, .nil, he, rfl, hs⟩
  | cons y xs ih =>
    rw [List.cons_append] at hes
    rcases hes with _ | ⟨he, hrest⟩
    obtain ⟨s₁, hs, hend⟩ := exec_cons_eq_some.mp h
    obtain ⟨es', e', s₂, hes', he', hrun, hlast⟩ := ih hrest hend
    exact ⟨_ :: es', e', s₂, .cons he hes', he', exec_cons_eq_some.mpr ⟨s₁, hs, hrun⟩, hlast⟩

/-- What every step under a condition preserves holds after every run that meets the condition. -/
theorem along_induct {I : σ → Prop} {ok : σ → ε → Prop} (hstep : ∀ s e s', I s → ok s e → step s e = some s' → I s')
    {s s' : σ} {es : List ε} (hs : I s) (hok : Along step ok s es) (h : exec step s es = some s') : I s' := by
  induction es generalizing s with
  | nil =>
    cases h
    exact hs
  | cons e es ih =>
    obtain ⟨s1, h1, h2⟩ := exec_cons_eq_some.mp h
    obtain ⟨h3, h4⟩ := hok s1 h1
    exact ih (hstep s e s1 hs h3 h1) h4 h2

/-- A goal is reached that steps keep: as long as it is not, a counted step lowers a rank and the others do not raise it, and the run has
more counted steps than the rank at its start. -/
theorem along_reaches {I G : σ → Prop} {ok : σ → ε → Prop} {counted : ε → Bool} {rank : σ → Nat}
    (hgoal : ∀ s e s', G s → ok s e → step s e = some s' → G s')
    (hcounted : ∀ s e s', I s → ok s e → counted e = true → step s e = some s' → G s' ∨ (I s' ∧ rank s' < rank s))
    (hother : ∀ s e s', I s → ok s e → counted e = false → step s e = some s' → G s' ∨ (I s' ∧ rank s' ≤ rank s))
    {s s' : σ} {es : List ε} (hs : I s) (hok : Along step ok s es) (h : exec step s es = some s')
    (hn : rank s < es.countP counted) : G s' := by
  induction es generalizing s with
  | nil => exact absurd hn (Nat.not_lt_zero _)
  | cons e es ih =>
    obtain ⟨s1, h1, h2⟩ := exec_cons_eq_some.mp h
    obtain ⟨h3, h4⟩ := hok s1 h1
    rcases hc : counted e with _ | _
    · rw [List.countP_cons_of_neg (by simp [hc])] at hn
      rcases hother s e s1 hs h3 hc h1 with hg | ⟨hi, hr⟩
      · exact along_induct hgoal hg h4 h2
      · exact ih hi h4 h2 (by omega)
    · rw [List.countP_cons_of_pos hc] at hn
      rcases hcounted s e s1 hs h3 hc h1 with hg | ⟨hi, hr⟩
      · exact along_induct hgoal hg h4 h2
      · exact ih hi h4 h2 (by omega)

/-- What every step under a condition preserves holds throughout every run that meets the condition. -/
theorem throughout_of_along {I : σ → Prop} {ok : σ → ε → Prop} (hstep : ∀ s e s', I s → ok s e → step s e = some s' → I s')
    {s : σ} (hs : I s) {es : List ε} (hok : Along step ok s es) : Throughout step I s es := by
  induction es generalizing s with
  | nil => exact hs
  | cons e es ih =>
    refine ⟨hs, fun s' hs' => ?_⟩
    obtain ⟨h1, h2⟩ := hok s' hs'
    exact ih (hstep s e s' hs h1 hs') h2

/-- A condition met along two runs in a row is met along each. -/
theorem along_append {ok : σ → ε → Prop} {s s' : σ} {xs ys : List ε} (hok : Along step ok s (xs ++ ys))
    (h : exec step s xs = some s') : Along step ok s xs ∧ Along step ok s' ys := by
  induction xs generalizing s with
  | nil =>
    cases h
    exact ⟨trivial, hok⟩
  | cons e xs ih =>
    obtain ⟨s1, h1, h2⟩ := exec_cons_eq_some.mp h
    obtain ⟨h3, h4⟩ := hok s1 h1
    obtain ⟨h5, h6⟩ := ih h4 h2
    refine ⟨fun s2 hs2 => ?_, h6⟩
    rw [h1, Option.some.injEq] at hs2
    exact hs2 ▸ ⟨h3, h5⟩

/-- A property that holds throughout a run holds at its start. -/
theorem Throughout.first {P : σ → Prop} {s : σ} {es : List ε} (hp : Throughout step P s es) : P s := by
  cases es with
  | nil => exact hp
  | cons e es => exact hp.1

theorem Throughout.mono {P P' : σ → Prop} (hp : ∀ s, P s → P' s) {s : σ} {es : List ε} (h : Throughout step P s es) :
    Throughout step P' s es := by
  induction es generalizing s with
  | nil => exact hp s h
  | cons e es ih => exact ⟨hp s h.1, fun s' hs' => ih (h.2 s' hs')⟩

/-- Where one step on certain events keeps a property exactly under a condition, a run of such events keeps it throughout exactly
when all its steps meet the condition. -/
theorem throughout_iff_along_of {I P : σ → Prop} {ok : σ → ε → Prop} {Q : ε → Prop}
    (hI : ∀ s e s', Q e → I s → step s e = some s' → I s')
    (hP : ∀ s e s', Q e → I s → P s → step s e = some s' → (P s' ↔ ok s e)) {s : σ} (hs : I s) (hp : P s) {es : List ε}
    (hQ : ∀ e ∈ es, Q e) : Throughout step P s es ↔ Along step ok s es := by
  induction es generalizing s with
  | nil => exact ⟨fun _ => trivial, fun _ => hp⟩
  | cons e es ih =>
    have he := hQ e List.mem_cons_self
    have hes : ∀ e' ∈ es, Q e' := fun e' h' => hQ e' (List.mem_cons_of_mem _ h')
    constructor
    · rintro ⟨-, h⟩ s' hs'
      have hp' : P s' := (h s' hs').first
      exact ⟨(hP s e s' he hs hp hs').mp hp', (ih (hI s e s' he hs hs') hp' hes).mp (h s' hs')⟩
    · intro h
      refine ⟨hp, fun s' hs' => ?_⟩
      obtain ⟨hok, hrest⟩ := h s' hs'
      exact (ih (hI s e s' he hs hs') ((hP s e s' he hs hp hs').mpr hok) hes).mpr hrest

/-- Where one step keeps a property exactly under a condition, a run keeps it throughout exactly when all its steps meet the
condition. -/
theorem throughout_iff_along {I P : σ → Prop} {ok : σ → ε → Prop} (hI : ∀ s e s', I s → step s e = some s' → I s')
    (hP : ∀ s e s', I s → P s → step s e = some s' → (P s' ↔ ok s e)) {s : σ} (hs : I s) (hp : P s) (es : List ε) :
    Throughout step P s es ↔ Along step ok s es :=
  throughout_iff_along_of (Q := fun _ => True) (fun s e s' _ => hI s e s') (fun s e s' _ => hP s e s') hs hp
    (fun _ _ => trivial)

/-- What every step from a state with an invariant meets, the steps of a run meet. -/
theorem along_of_invariant {I : σ → Prop} {ok : σ → ε → Prop} (hI : ∀ s e s', I s → step s e = some s' → I s')
    (hok : ∀ s e s', I s → step s e = some s' → ok s e) {s : σ} (hs : I s) (es : List ε) : Along step ok s es := by
  induction es generalizing s with
  | nil => trivial
  | cons e es ih => exact fun s' hs' => ⟨hok s e s' hs hs', ih (hI s e s' hs hs')⟩

/-- Two conditions that agree on the steps of a run are met along the same runs. -/
theorem along_congr_of {I : σ → Prop} {ok ok' : σ → ε → Prop} {Q : ε → Prop}
    (hI : ∀ s e s', Q e → I s → step s e = some s' → I s')
    (hok : ∀ s e s', Q e → I s → step s e = some s' → (ok s e ↔ ok' s e)) {s : σ} (hs : I s) {es : List ε}
    (hQ : ∀ e ∈ es, Q e) : Along step ok s es ↔ Along step ok' s es := by
  induction es generalizing s with
  | nil => exact Iff.rfl
  | cons e es ih =>
    have he := hQ e List.mem_cons_self
    refine forall_congr' fun s' => forall_congr' fun hs' => ?_
    exact and_congr (hok s e s' he hs hs') (ih (hI s e s' he hs hs') fun e' h' => hQ e' (List.mem_cons_of_mem _ h'))

theorem along_and {ok ok' : σ → ε → Prop} {s : σ} {es : List ε} :
    Along step (fun s e => ok s e ∧ ok' s e) s es ↔ Along step ok s es ∧ Along step ok' s es := by
  induction es generalizing s with
  | nil => exact ⟨fun _ => ⟨trivial, trivial⟩, fun _ => trivial⟩
  | cons e es ih =>
    constructor
    · intro h
      exact ⟨fun s' hs' => ⟨(h s' hs').1.1, (ih.mp (h s' hs').2).1⟩, fun s' hs' => ⟨(h s' hs').1.2, (ih.mp (h s' hs').2).2⟩⟩
    · rintro ⟨h1, h2⟩ s' hs'
      exact ⟨⟨(h1 s' hs').1, (h2 s' hs').1⟩, ih.mpr ⟨(h1 s' hs').2, (h2 s' hs').2⟩⟩

/-- A property that holds throughout a run holds at its end. -/
theorem Throughout.last {P : σ → Prop} {s s' : σ} {es : List ε} (hp : Throughout step P s es)
    (h : exec step s es = some s') : P s' := by
  induction es generalizing s with
  | nil =>
    cases h
    exact hp
  | cons e es ih =>
    obtain ⟨s1, h1, h2⟩ := exec_cons_eq_some.mp h
    exact ih (hp.2 s1 h1) h2

end Runs
