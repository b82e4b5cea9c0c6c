import Gnhast.Lemmas.Feeds
import Mathlib.Algebra.GCDMonoid.Multiset
import Mathlib.Algebra.GCDMonoid.Nat

/-!
# The period of a feed timer

`cmd_feed` folds the rates of all feeds of a client into the period that the timer had, so that the period is the greatest common
divisor of all of them. This is an invariant of the server as long as the rates that the client asks for are positive; the events of
other clients, and the ticks of the timer, do not matter.
-/

namespace Gnhast

open CStr Runs

variable (F : Doubles)

/-! ## The greatest common divisor of a list -/

/-- Where nothing is negative, `gcd` does not trap. -/
theorem gcd_nonneg {a b : Int} (ha : 0 ≤ a) (hb : 0 ≤ b) : gcd a b = .ok (GCDMonoid.gcd a b) := by
  rw [← Int.coe_gcd]
  fun_induction gcd a b with
  | case1 b => rw [Int.gcd_zero_left, Int.natAbs_of_nonneg hb]
  | case2 a b h0 hc =>
    obtain ⟨rfl, -⟩ := hc
    exact absurd ha (by decide)
  | case3 a b h0 hc ih =>
    rw [ih (Int.tmod_nonneg a hb) ha, Int.gcd, Int.gcd, Int.natAbs_tmod, ← Nat.gcd_rec]

/-- The fold over the feeds gives the greatest common divisor of the number it starts from and all rates. -/
theorem gcdRates_nonneg {g : Int} {ws : List WrapFeed} (hg : 0 ≤ g) (hw : ∀ w ∈ ws, 0 ≤ w.rate.toInt) :
    gcdRates g ws = .ok (GCDMonoid.gcd g (Multiset.gcd (ws.map fun w => w.rate.toInt))) := by
  induction ws generalizing g with
  | nil =>
    have hn : normalize g = g := Int.normalize_of_nonneg hg
    simp only [gcdRates, List.map_nil, Multiset.coe_nil, Multiset.gcd_zero, gcd_zero_right, hn]
  | cons w ws ih =>
    obtain ⟨hw0, hws⟩ := List.forall_mem_cons.mp hw
    have hlc : 0 ≤ GCDMonoid.gcd w.rate.toInt g := by
      rw [← Int.coe_gcd]
      exact Int.natCast_nonneg _
    rw [gcdRates, gcd_nonneg hw0 hg]
    change gcdRates (GCDMonoid.gcd w.rate.toInt g) ws = _
    rw [ih hlc hws, List.map_cons, ← Multiset.cons_coe, Multiset.gcd_cons, gcd_comm w.rate.toInt g, gcd_assoc]

/-! ## What a timer should be -/

/-- The rates of a client's feeds. -/
def Client.feeds (cl : Client) : Multiset Int := cl.wdevices.map fun w => w.rate.toInt

/-- A client has no feeds and no timer, or has feeds with positive rates and the timer for them. -/
structure Client.Timed (cl : Client) : Prop where
  gcd : cl.timerGcd.toInt = cl.feeds.gcd
  pos : ∀ w ∈ cl.wdevices, 0 < w.rate.toInt
  tev : cl.tev = true ↔ cl.wdevices ≠ []
  armed : cl.tevSecs = cl.timerGcd

namespace Client.Timed

variable {cl cl' : Client}

end Client.Timed

/-! ## The command -/

/-- A client with one feed more, and a timer armed with a period. -/
def Client.fed (cl : Client) (w : WrapFeed) (period : BitVec 32) : Client :=
  { cl with wdevices := cl.wdevices ++ [w], tev := true, tevSecs := period, timerGcd := period }

theorem feeds_fed (cl : Client) (w : WrapFeed) (period : BitVec 32) :
    (cl.fed w period).feeds = cl.feeds + {w.rate.toInt} := by
  change ((List.map _ (cl.wdevices ++ [w]) : List Int) : Multiset Int) = _
  rw [List.map_append, ← Multiset.coe_add]
  rfl

/-- The feed joins those with positive rates, and the period is the new greatest common divisor. -/
theorem Client.Timed.fed {cl : Client} (h : cl.Timed) {w : WrapFeed} (hw : 0 < w.rate.toInt) {period : BitVec 32}
    (hp : period.toInt = (cl.feeds + {w.rate.toInt}).gcd) : (cl.fed w period).Timed := by
  refine ⟨?_, fun v hv => ?_, ?_, rfl⟩
  · rw [feeds_fed]
    exact hp
  · rcases List.mem_append.mp hv with hv | hv
    · exact h.pos v hv
    · rw [List.mem_singleton.mp hv]
      exact hw
  · exact iff_of_true rfl (List.append_ne_nil_of_right_ne_nil _ (List.cons_ne_nil _ _))

/-- The fold from the old period over all feeds gives the greatest common divisor of all feeds. -/
theorem Client.Timed.gcdRates {cl : Client} (h : cl.Timed) {w : WrapFeed} (hw : 0 < w.rate.toInt) :
    gcdRates cl.timerGcd.toInt (cl.wdevices ++ [w]) = .ok (cl.feeds + {w.rate.toInt}).gcd := by
  have hnonneg : 0 ≤ cl.timerGcd.toInt := by
    rw [h.gcd, ← Multiset.normalize_gcd, ← Int.abs_eq_normalize]
    exact abs_nonneg _
  have hpos : ∀ v ∈ cl.wdevices ++ [w], 0 ≤ v.rate.toInt := by
    intro v hv
    rcases List.mem_append.mp hv with hv | hv
    · exact (h.pos v hv).le
    · rw [List.mem_singleton.mp hv]
      exact hw.le
  have hfeeds : (((cl.wdevices ++ [w]).map fun v => v.rate.toInt : List Int) : Multiset Int) = cl.feeds + {w.rate.toInt} :=
    feeds_fed cl w 0
  -- the old period divides the old rates, which are folded into it again
  rw [gcdRates_nonneg hnonneg hpos, hfeeds, Multiset.gcd_add, h.gcd, ← gcd_assoc, gcd_same, Multiset.normalize_gcd]

end Gnhast
