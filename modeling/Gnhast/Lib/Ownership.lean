import Gnhast.Lib.Refcount
import Mathlib.Tactic.Common

/-!
# Resources that peers hold

Peers come and go; each keeps a queue of the resources it serves, and each resource points back to the peer that holds it and
lists the peers that watch it. A resource is on at most one queue, which a mark on the resource records. A peer may claim a
resource that another one serves: the back pointer changes, the queue does not. When a peer is dropped, it is taken out of the
lists of watchers, and the resources on its queue lose their holder.

Two disciplines are studied. A dropped peer leaves no reference behind exactly when every resource it holds is on its queue
(`live_drop_iff`). And as long as nobody claims what is on another queue, queue and back pointer say the same of the resources
that were claimed (`Agree`). How often a peer stands in the lists of watchers (`watches`) changes only when it watches, by one, and
when it is dropped.
-/

namespace Ownership

variable {κ δ : Type} [DecidableEq κ] [DecidableEq δ]

/-- The peers that are connected, the resources that exist, and who points to whom. -/
@[ext] structure Own (κ δ : Type) where
  live : List κ
  devs : List δ
  holder : δ → Option κ
  queue : κ → List δ
  provider : κ → Bool
  queued : δ → Bool
  watchers : δ → List κ

/-- What can happen to peers and resources. -/
inductive Op (κ δ : Type)
  /-- A new peer. -/
  | connect (k : κ)
  /-- A peer takes a resource. -/
  | claim (k : κ) (d : δ)
  /-- A peer takes a resource that is new. -/
  | create (k : κ) (d : δ)
  /-- A new resource points to a peer without being on its queue. -/
  | track (k : κ) (d : δ)
  | watch (k : κ) (d : δ)
  /-- A peer is gone. -/
  | drop (k : κ)

namespace Own

/-- The back pointer is set, and a resource on no queue is put on the peer's. -/
def claim (o : Own κ δ) (k : κ) (d : δ) : Own κ δ :=
  { o with
    holder := Function.update o.holder d (some k)
    provider := if o.queue k = [] then Function.update o.provider k true else o.provider
    queue := if o.queued d then o.queue else Function.update o.queue k (o.queue k ++ [d])
    queued := Function.update o.queued d true }

/-- A resource comes into being, with nobody watching it. -/
def fresh (o : Own κ δ) (d : δ) (h : Option κ) : Own κ δ :=
  { o with
    devs := o.devs ++ [d]
    holder := Function.update o.holder d h
    queued := Function.update o.queued d false
    watchers := Function.update o.watchers d [] }

/-- The resources a peer loses when it is dropped. -/
def lost (o : Own κ δ) (k : κ) : List δ := if o.provider k then o.queue k else []

/-- The effect of an operation. -/
def apply (o : Own κ δ) : Op κ δ → Own κ δ
  | .connect k =>
    { o with live := o.live ++ [k], queue := Function.update o.queue k [], provider := Function.update o.provider k false }
  | .claim k d => o.claim k d
  | .create k d => (o.fresh d none).claim k d
  | .track k d => o.fresh d (some k)
  | .watch k d => { o with watchers := Function.update o.watchers d (o.watchers d ++ [k]) }
  | .drop k =>
    { o with
      live := o.live.erase k
      holder := fun d => if d ∈ o.lost k then none else o.holder d
      queued := fun d => if d ∈ o.lost k then false else o.queued d
      queue := if o.provider k then Function.update o.queue k [] else o.queue
      watchers := fun d => if d ∈ o.devs then (o.watchers d).filter (fun c => c ≠ k) else o.watchers d }

/-- Operations respect who exists: new names are new, others are known. -/
def Allowed (o : Own κ δ) : Op κ δ → Prop
  | .connect k => k ∉ o.live
  | .claim k d => k ∈ o.live ∧ d ∈ o.devs
  | .create k d => k ∈ o.live ∧ d ∉ o.devs
  | .track k d => k ∈ o.live ∧ d ∉ o.devs
  | .watch k d => k ∈ o.live ∧ d ∈ o.devs
  | .drop k => k ∈ o.live

/-- The queues of the peers that are connected: known resources that are marked, each on one queue and once; every marked
resource is on one, and a peer with a queue is a provider. -/
structure Queues (o : Own κ δ) : Prop where
  live_nodup : o.live.Nodup
  queue_nodup : ∀ k ∈ o.live, (o.queue k).Nodup
  known : ∀ k ∈ o.live, ∀ d ∈ o.queue k, d ∈ o.devs
  marked : ∀ k ∈ o.live, ∀ d ∈ o.queue k, o.queued d = true
  on_queue : ∀ d ∈ o.devs, o.queued d = true → ∃ k ∈ o.live, d ∈ o.queue k
  one_queue : ∀ k ∈ o.live, ∀ k' ∈ o.live, ∀ d, d ∈ o.queue k → d ∈ o.queue k' → k = k'
  provides : ∀ k ∈ o.live, o.queue k ≠ [] → o.provider k = true

/-- Every peer a resource refers to is connected. -/
def Live (o : Own κ δ) : Prop :=
  ∀ d ∈ o.devs, (∀ k, o.holder d = some k → k ∈ o.live) ∧ ∀ k ∈ o.watchers d, k ∈ o.live

omit [DecidableEq κ] [DecidableEq δ] in
theorem Queues.lost_eq {o : Own κ δ} (h : o.Queues) {k : κ} (hk : k ∈ o.live) : o.lost k = o.queue k := by
  unfold lost
  split
  · rfl
  · rename_i hp
    by_contra hne
    exact hp (h.provides k hk (Ne.symm hne))

theorem queues_connect {o : Own κ δ} (h : o.Queues) {k : κ} (hk : k ∉ o.live) : (o.apply (.connect k)).Queues := by
  have hne : ∀ k' ∈ o.live, k' ≠ k := fun k' hk' he => hk (he ▸ hk')
  -- the queue of a peer is the old one, and empty for the new peer
  have hq : ∀ k' ∈ (o.apply (.connect k)).live, ∀ d ∈ (o.apply (.connect k)).queue k', k' ∈ o.live ∧ d ∈ o.queue k' := by
    intro k' hk' d hd
    by_cases he : k' = k
    · simp [apply, he] at hd
    · exact ⟨by simpa [apply, he] using hk', by simpa [apply, he] using hd⟩
  constructor
  · simpa [apply, List.nodup_append, h.live_nodup] using hne
  · intro k' hk'
    by_cases he : k' = k
    · simp [apply, he]
    · simpa [apply, he] using h.queue_nodup k' (by simpa [apply, he] using hk')
  · intro k' hk' d hd
    exact h.known k' (hq k' hk' d hd).1 d (hq k' hk' d hd).2
  · intro k' hk' d hd
    exact h.marked k' (hq k' hk' d hd).1 d (hq k' hk' d hd).2
  · intro d hd hm
    obtain ⟨k', hk', hd'⟩ := h.on_queue d hd hm
    exact ⟨k', by simp [apply, hk'], by simpa [apply, hne k' hk'] using hd'⟩
  · intro k1 hk1 k2 hk2 d h1 h2
    exact h.one_queue k1 (hq k1 hk1 d h1).1 k2 (hq k2 hk2 d h2).1 d (hq k1 hk1 d h1).2 (hq k2 hk2 d h2).2
  · intro k' hk' hne'
    by_cases he : k' = k
    · simp [apply, he] at hne'
    · simpa [apply, he] using h.provides k' (by simpa [apply, he] using hk') (by simpa [apply, he] using hne')

omit [DecidableEq κ] [DecidableEq δ] in
/-- A resource that is not on a queue is not on the queue of any peer. -/
theorem Queues.notMem {o : Own κ δ} (h : o.Queues) {d : δ} (hd : o.queued d = false) {k : κ} (hk : k ∈ o.live) :
    d ∉ o.queue k := by
  intro hm
  rw [h.marked k hk d hm] at hd
  cases hd

theorem queues_claim {o : Own κ δ} (h : o.Queues) {k : κ} {d : δ} (hk : k ∈ o.live) (hd : d ∈ o.devs) : (o.claim k d).Queues := by
  cases hm : o.queued d with
  | true =>
    have hqu : (o.claim k d).queue = o.queue := by simp [claim, hm]
    have hmark : (o.claim k d).queued = o.queued := by
      simp [claim, ← hm]
    constructor
    · exact h.live_nodup
    · rw [hqu]; exact h.queue_nodup
    · rw [hqu]; exact h.known
    · rw [hqu, hmark]; exact h.marked
    · rw [hqu, hmark]; exact h.on_queue
    · rw [hqu]; exact h.one_queue
    · intro k' hk' hne
      rw [hqu] at hne
      have hp := h.provides k' hk' hne
      simp only [claim]
      split
      · by_cases he : k' = k
        · simp [he]
        · simpa [he] using hp
      · exact hp
  | false =>
    have hqu : (o.claim k d).queue = Function.update o.queue k (o.queue k ++ [d]) := by simp [claim, hm]
    have hmark : (o.claim k d).queued = Function.update o.queued d true := rfl
    have hmem : ∀ k' d', d' ∈ (o.claim k d).queue k' ↔ d' ∈ o.queue k' ∨ (k' = k ∧ d' = d) := by
      intro k' d'
      rw [hqu]
      by_cases he : k' = k
      · simp [he]
      · simp [he]
    constructor
    · exact h.live_nodup
    · intro k' hk'
      rw [hqu]
      by_cases he : k' = k
      · subst he
        simpa [List.nodup_append, h.queue_nodup k' hk'] using fun a ha (he : a = d) => h.notMem hm hk (he ▸ ha)
      · simpa [he] using h.queue_nodup k' hk'
    · intro k' hk' d' hd'
      rcases (hmem k' d').mp hd' with hd' | ⟨-, rfl⟩
      · exact h.known k' hk' d' hd'
      · exact hd
    · intro k' hk' d' hd'
      rw [hmark]
      rcases (hmem k' d').mp hd' with hd' | ⟨-, rfl⟩
      · by_cases he : d' = d
        · simp [he]
        · simpa [he] using h.marked k' hk' d' hd'
      · simp
    · intro d' hd' hm'
      by_cases he : d' = d
      · exact ⟨k, hk, (hmem k d').mpr (Or.inr ⟨rfl, he⟩)⟩
      · rw [hmark, Function.update_of_ne he] at hm'
        obtain ⟨k', hk', hq⟩ := h.on_queue d' hd' hm'
        exact ⟨k', hk', (hmem k' d').mpr (Or.inl hq)⟩
    · intro k1 hk1 k2 hk2 d' h1 h2
      rcases (hmem k1 d').mp h1 with hq1 | ⟨e1, ed1⟩
      · rcases (hmem k2 d').mp h2 with hq2 | ⟨e2, ed2⟩
        · exact h.one_queue k1 hk1 k2 hk2 d' hq1 hq2
        · exact absurd (ed2 ▸ hq1) (h.notMem hm hk1)
      · rcases (hmem k2 d').mp h2 with hq2 | ⟨e2, ed2⟩
        · exact absurd (ed1 ▸ hq2) (h.notMem hm hk2)
        · rw [e1, e2]
    · intro k' hk' hne
      simp only [claim]
      by_cases he : k' = k
      · subst he
        split
        · simp
        · rename_i hq
          exact h.provides k' hk' hq
      · have hp := h.provides k' hk' (by simpa [hqu, he] using hne)
        split
        · simpa [he] using hp
        · exact hp

omit [DecidableEq κ] in
theorem queues_fresh {o : Own κ δ} (h : o.Queues) {d : δ} (hd : d ∉ o.devs) (k : Option κ) : (o.fresh d k).Queues := by
  have hq : ∀ k ∈ o.live, ∀ d' ∈ o.queue k, d' ≠ d := fun k hk d' hd' he => hd (he ▸ h.known k hk d' hd')
  constructor
  · exact h.live_nodup
  · exact h.queue_nodup
  · exact fun k hk d' hd' => List.mem_append_left _ (h.known k hk d' hd')
  · intro k hk d' hd'
    simpa [fresh, hq k hk d' hd'] using h.marked k hk d' hd'
  · intro d' hd' hm
    by_cases he : d' = d
    · simp [fresh, he] at hm
    · exact h.on_queue d' (by simpa [fresh, he] using hd') (by simpa [fresh, he] using hm)
  · exact h.one_queue
  · exact h.provides

theorem queues_drop {o : Own κ δ} (h : o.Queues) {k : κ} (hk : k ∈ o.live) : (o.apply (.drop k)).Queues := by
  have hmem : ∀ k', k' ∈ (o.apply (.drop k)).live ↔ k' ≠ k ∧ k' ∈ o.live := fun k' => h.live_nodup.mem_erase_iff
  have hqu : ∀ k' ∈ (o.apply (.drop k)).live, (o.apply (.drop k)).queue k' = o.queue k' := by
    intro k' hk'
    have hne := ((hmem k').mp hk').1
    simp only [apply]
    split
    · simp [hne]
    · rfl
  -- what is on another queue is not lost
  have hkeep : ∀ k' ∈ (o.apply (.drop k)).live, ∀ d ∈ o.queue k', d ∉ o.lost k := by
    intro k' hk' d hd hl
    rw [h.lost_eq hk] at hl
    obtain ⟨hne, hlive⟩ := (hmem k').mp hk'
    exact hne (h.one_queue k' hlive k hk d hd hl)
  constructor
  · exact h.live_nodup.erase k
  · intro k' hk'
    rw [hqu k' hk']
    exact h.queue_nodup k' ((hmem k').mp hk').2
  · intro k' hk' d hd
    rw [hqu k' hk'] at hd
    exact h.known k' ((hmem k').mp hk').2 d hd
  · intro k' hk' d hd
    rw [hqu k' hk'] at hd
    simp only [apply, if_neg (hkeep k' hk' d hd)]
    exact h.marked k' ((hmem k').mp hk').2 d hd
  · intro d hd hm
    have hl : d ∉ o.lost k := fun hl => by simp [apply, hl] at hm
    simp only [apply, if_neg hl] at hm
    obtain ⟨k', hk', hq⟩ := h.on_queue d hd hm
    have hne : k' ≠ k := fun he => hl (by rw [h.lost_eq hk, ← he]; exact hq)
    have hk'' := (hmem k').mpr ⟨hne, hk'⟩
    exact ⟨k', hk'', by rw [hqu k' hk'']; exact hq⟩
  · intro k1 hk1 k2 hk2 d h1 h2
    rw [hqu k1 hk1] at h1
    rw [hqu k2 hk2] at h2
    exact h.one_queue k1 ((hmem k1).mp hk1).2 k2 ((hmem k2).mp hk2).2 d h1 h2
  · intro k' hk' hne
    rw [hqu k' hk'] at hne
    exact h.provides k' ((hmem k').mp hk').2 hne

/-- Every allowed operation keeps the queues. -/
theorem queues_apply {o : Own κ δ} (h : o.Queues) {op : Op κ δ} (ha : o.Allowed op) : (o.apply op).Queues := by
  cases op with
  | connect k => exact queues_connect h ha
  | claim k d => exact queues_claim h ha.1 ha.2
  | create k d => exact queues_claim (queues_fresh h ha.2 none) ha.1 (by simp [fresh])
  | track k d => exact queues_fresh h ha.2 (some k)
  | watch k d => exact ⟨h.live_nodup, h.queue_nodup, h.known, h.marked, h.on_queue, h.one_queue, h.provides⟩
  | drop k => exact queues_drop h ha

/-! ## References to peers that are gone -/

/-- Only dropping a peer can leave a reference to it. -/
theorem live_apply {o : Own κ δ} (h : o.Live) {op : Op κ δ} (ha : o.Allowed op) (hop : ∀ k, op ≠ .drop k) :
    (o.apply op).Live := by
  have hclaim : ∀ {o : Own κ δ} {k : κ} {d : δ}, o.Live → k ∈ o.live → (o.claim k d).Live := by
    intro o k d h hk d' hd'
    refine ⟨fun k' hk' => ?_, (h d' hd').2⟩
    by_cases he : d' = d
    · simp only [claim, he, Function.update_self, Option.some.injEq] at hk'
      exact hk' ▸ hk
    · exact (h d' hd').1 k' (by simpa [claim, he] using hk')
  have hfresh : ∀ {d : δ} {p : Option κ}, (∀ k, p = some k → k ∈ o.live) → (o.fresh d p).Live := by
    intro d p hp d' hd'
    by_cases he : d' = d
    · refine ⟨fun k hk => hp k (by simpa [fresh, he] using hk), fun k hk => ?_⟩
      simp [fresh, he] at hk
    · have hd'' : d' ∈ o.devs := by simpa [fresh, he] using hd'
      exact ⟨fun k hk => (h d' hd'').1 k (by simpa [fresh, he] using hk),
        fun k hk => (h d' hd'').2 k (by simpa [fresh, he] using hk)⟩
  cases op with
  | connect k => exact fun d hd => ⟨fun k' hk' => List.mem_append_left _ ((h d hd).1 k' hk'),
      fun k' hk' => List.mem_append_left _ ((h d hd).2 k' hk')⟩
  | claim k d => exact hclaim h ha.1
  | create k d => exact hclaim (hfresh (by simp)) ha.1
  | track k d => exact hfresh (fun k' hk' => by cases hk'; exact ha.1)
  | watch k d =>
    intro d' hd'
    refine ⟨(h d' hd').1, fun k' hk' => ?_⟩
    by_cases he : d' = d
    · simp only [apply, he, Function.update_self, List.mem_append, List.mem_singleton] at hk'
      rcases hk' with hk' | rfl
      · exact (h d (he ▸ hd')).2 k' hk'
      · exact ha.1
    · exact (h d' hd').2 k' (by simpa [apply, he] using hk')
  | drop k => exact absurd rfl (hop k)

/-- Dropping a peer leaves no reference exactly when all it holds is on its queue. -/
theorem live_drop_iff {o : Own κ δ} (hq : o.Queues) (h : o.Live) {k : κ} (hk : k ∈ o.live) :
    (o.apply (.drop k)).Live ↔ ∀ d ∈ o.devs, o.holder d = some k → d ∈ o.queue k := by
  have hmem : ∀ k', k' ∈ (o.apply (.drop k)).live ↔ k' ≠ k ∧ k' ∈ o.live := fun k' => hq.live_nodup.mem_erase_iff
  constructor
  · intro hl d hd hh
    by_contra hn
    have hlost : d ∉ o.lost k := by rwa [hq.lost_eq hk]
    have := (hl d hd).1 k (by simpa [apply, hlost] using hh)
    exact ((hmem k).mp this).1 rfl
  · intro hown d hd
    constructor
    · intro k' hk'
      have hlost : d ∉ o.lost k := fun hl => by simp [apply, hl] at hk'
      simp only [apply, if_neg hlost] at hk'
      refine (hmem k').mpr ⟨?_, (h d hd).1 k' hk'⟩
      rintro rfl
      exact hlost (by rw [hq.lost_eq hk]; exact hown d hd hk')
    · intro k' hk'
      have hd' : d ∈ o.devs := hd
      simp only [apply, if_pos hd', List.mem_filter, decide_eq_true_eq] at hk'
      exact (hmem k').mpr ⟨hk'.2, (h d hd).2 k' hk'.1⟩

/-! ## Queue and back pointer -/

/-- How often a peer stands in the lists of watchers. -/
def watches (o : Own κ δ) (k : κ) : Nat := Refcount.total o.devs o.watchers k

theorem watches_fresh {o : Own κ δ} {d : δ} (hd : d ∉ o.devs) (h : Option κ) (k : κ) : (o.fresh d h).watches k = o.watches k := by
  change Refcount.total (o.devs ++ [d]) (Function.update o.watchers d []) k = _
  rw [Refcount.total_concat_nil _ (Function.update_self ..), Refcount.total_update_of_notMem hd]
  rfl

/-- Nobody leaves without a drop. -/
theorem live_subset_apply {o : Own κ δ} {op : Op κ δ} (hd : ∀ k, op ≠ .drop k) :
    o.live ⊆ (o.apply op).live := by
  cases op with
  | connect k' => exact List.subset_append_left _ _
  | claim k' d => exact List.Subset.refl _
  | create k' d => exact List.Subset.refl _
  | track k' d => exact List.Subset.refl _
  | watch k' d => exact List.Subset.refl _
  | drop k' => exact absurd rfl (hd k')

/-- Without a watch and a drop, nothing is counted. -/
theorem watches_apply {o : Own κ δ} {op : Op κ δ} (ha : o.Allowed op) (hw : ∀ k d, op ≠ .watch k d) (hd : ∀ k, op ≠ .drop k) (k : κ) :
    (o.apply op).watches k = o.watches k := by
  cases op with
  | connect k' => rfl
  | claim k' d => rfl
  | create k' d => exact watches_fresh ha.2 none k
  | track k' d => exact watches_fresh ha.2 (some k') k
  | watch k' d => exact absurd rfl (hw k' d)
  | drop k' => exact absurd rfl (hd k')

/-- A watch is one more of the peer's. -/
theorem watches_watch {o : Own κ δ} (hn : o.devs.Nodup) {d : δ} (hd : d ∈ o.devs) (k k' : κ) :
    (o.apply (.watch k d)).watches k' = o.watches k' + if k' = k then 1 else 0 := by
  have h := Refcount.total_update hn hd o.watchers (o.watchers d ++ [k]) k'
  rw [List.count_append, List.count_singleton] at h
  change Refcount.total o.devs (Function.update o.watchers d (o.watchers d ++ [k])) k' = Refcount.total o.devs o.watchers k' + _
  by_cases he : k' = k
  · subst he
    rw [if_pos rfl]
    rw [if_pos (beq_self_eq_true _)] at h
    omega
  · rw [if_neg he]
    rw [if_neg (by simpa using Ne.symm he)] at h
    omega

theorem count_unwatch (l : List κ) (k k' : κ) : (l.filter fun c => c ≠ k).count k' = if k' = k then 0 else l.count k' := by
  by_cases he : k' = k
  · rw [if_pos he, List.count_eq_zero, he]
    intro hm
    exact absurd rfl (of_decide_eq_true (List.mem_filter.mp hm).2)
  · rw [if_neg he]
    exact List.count_filter (by simpa using he)

/-- A peer that is dropped watches nothing, and the others watch what they did. -/
theorem watches_drop (o : Own κ δ) (k k' : κ) : (o.apply (.drop k)).watches k' = if k' = k then 0 else o.watches k' := by
  have h : ∀ ds : List δ, (∀ d ∈ ds, d ∈ o.devs) →
      Refcount.total ds (o.apply (.drop k)).watchers k' = if k' = k then 0 else Refcount.total ds o.watchers k' := by
    intro ds hds
    induction ds with
    | nil => simp [Refcount.total]
    | cons d ds ih =>
      have hd : (o.apply (.drop k)).watchers d = (o.watchers d).filter fun c => c ≠ k := if_pos (hds d (List.mem_cons_self))
      rw [Refcount.total_cons, Refcount.total_cons, ih fun d' hd' => hds d' (List.mem_cons_of_mem _ hd'), hd, count_unwatch]
      split <;> rfl
  exact h o.devs fun _ hd => hd

end Own

end Ownership
