import Mathlib.Analysis.Complex.ExponentialBounds
import Starfilm.Proofs.Arith.Reals
import Starfilm.Proofs.Random.Draws
import Starfilm.Random.Ziggurat

/-!
# Draws from layers

Whatever the layers of a density are, a draw from them fails in one way only: all the attempts that
it may take are rejected (`Densities.ensures_drawExponential`, `Densities.ensures_drawNormal`). With
more patience it draws the same where it did not fail. An attempt that hits below the edge of the
layer above is accepted at once (`Ziggurat.ensures_draw_of_below`), and so a source whose words all
are of the middle of the lowest layer has no attempt of the usual densities rejected.
-/

namespace Starfilm

open Draws

variable {F : Type} [Arith F] {S : Type} [Source S] {E : Failure → Prop} {I : S → Prop}

namespace Ziggurat

variable (z : Ziggurat F) (place : UInt64 → F) (reach : F → F) {tail tail' : F → Draws S F}

theorem ensures_attempt (hI : Source.Keeps I)
    (htail : ∀ u, (tail u).Ensures E I fun _ => True) :
    (z.attempt place reach tail).Ensures E I fun _ => True := by
  refine (Ensures.word hI).bind fun w _ => ?_
  dsimp only
  split_ifs
  · exact .pure trivial
  · exact (htail _).bind fun x _ => .pure trivial
  · refine (Ensures.word hI).bind fun w' _ => ?_
    split_ifs
    · exact .pure trivial
    · exact .pure trivial

theorem ensures_draw (hI : Source.Keeps I) (hE : E .unsettledDraw)
    (htail : ∀ u, (tail u).Ensures E I fun _ => True) (limit : ℕ) :
    (z.draw place reach tail limit).Ensures E I fun _ => True :=
  .untilAccepted hE ((z.ensures_attempt place reach hI htail).mono fun _ _ _ _ => trivial) limit

/-- A word that chooses a place below the edge of the layer above. -/
def Below (w : UInt64) : Prop :=
  Arith.lt (reach (place w * z.edge (w.toNat % 256))) (z.edge (w.toNat % 256 + 1)) = true

/-- Where all words choose such places, every first attempt is accepted. -/
theorem ensures_draw_of_below (hI : Source.Keeps I)
    (hbelow : ∀ s, I s → z.Below place reach (Source.next s).1) (tail : F → Draws S F) {limit : ℕ}
    (hlimit : 0 < limit) : (z.draw place reach tail limit).Ensures E I fun _ => True := by
  refine Ensures.untilAccepted_of_accepted hlimit ((Ensures.word hI).bind fun w hw => ?_)
  obtain ⟨s, hs, rfl⟩ := hw
  have haccepted := hbelow s hs
  unfold Below at haccepted
  dsimp only
  rw [if_pos haccepted]
  exact .pure ⟨_, rfl, trivial⟩

/-- The places of the lowest layer that lie below the edge of the layer above are those before the
tail. -/
theorem below_ofDensity_iff {base area : F} {density inverse : F → F} {place : UInt64 → F}
    {reach : F → F} {w : UInt64} (hw : w.toNat % 256 = 0) :
    (ofDensity base area density inverse).Below place reach w ↔
      Arith.lt (reach (place w * (area / density base))) base = true := by
  rw [Below, hw]
  rfl

theorem extends_draw (htail : ∀ u, (tail' u).Extends (tail u)) {m n : ℕ} (hmn : m ≤ n) :
    (z.draw place reach tail' n).Extends (z.draw place reach tail m) := by
  refine Extends.untilAccepted (Extends.bind (.refl _) fun w => ?_) hmn
  dsimp only
  split_ifs
  · exact .refl _
  · exact (htail _).bind fun x => .refl _
  · exact .refl _

end Ziggurat

namespace Densities

variable [Elementary F] (d : Densities F)

theorem ensures_drawExponential (hI : Source.Keeps I) (hE : E .unsettledDraw) :
    d.drawExponential.Ensures E I fun _ => True :=
  d.exponential.ensures_draw _ _ hI hE
    (fun _ => (Ensures.word hI).bind fun _ _ => .pure trivial) d.patience

theorem ensures_tailAttempt (hI : Source.Keeps I) (base : F) :
    (tailAttempt base).Ensures E I fun _ => True := by
  refine (Ensures.word hI).bind fun w _ => (Ensures.word hI).bind fun w' _ => ?_
  dsimp only
  split_ifs
  · exact .pure trivial
  · exact .pure trivial

theorem ensures_drawNormal (hI : Source.Keeps I) (hE : E .unsettledDraw) :
    d.drawNormal.Ensures E I fun _ => True := by
  refine d.normal.ensures_draw _ _ hI hE (fun u => ?_) d.patience
  have htail := ensures_tailAttempt (E := E) hI d.normal.base
  have hsettled := Ensures.untilAccepted hE (htail.mono fun _ _ _ _ => trivial) d.patience
  exact hsettled.bind fun x _ => .pure trivial

section Patience

/-- The densities with another limit of the attempts. -/
def within (n : ℕ) : Densities F := { d with patience := n }

variable {n : ℕ} (hn : d.patience ≤ n)

include hn

theorem extends_drawExponential :
    ((d.within n).drawExponential : Draws S F).Extends d.drawExponential :=
  d.exponential.extends_draw _ _ (fun _ => .refl _) hn

theorem extends_drawNormal : ((d.within n).drawNormal : Draws S F).Extends d.drawNormal :=
  d.normal.extends_draw _ _ (fun _ => (Extends.untilAccepted (.refl _) hn).bind fun _ => .refl _) hn

end Patience

/-! ## The middle of the lowest layer -/

section Middle

open Exact

/-- The word of the middle of the lowest layer. -/
def middle : UInt64 := 0x8000000000000000

theorem upper_middle : Fraction.upper middle = 2 ^ 51 := by decide

theorem div_exp_finite (a b : ℝ) :
    finite a / Elementary.exp (finite b) = finite (a / Real.exp b) :=
  finite_div _ _ (Real.exp_ne_zero b)

theorem below_exponential_middle :
    (standard : Densities (Exact ℝ)).exponential.Below Fraction.inner id middle := by
  -- the layer is a little wider than the base, so half of it is before the tail
  have hexp : Real.exp (769711747013104972 / 10 ^ 17) < 3000 := by
    calc Real.exp (769711747013104972 / 10 ^ 17) < Real.exp ((8 : ℕ) * 1) :=
          Real.exp_lt_exp.2 (by norm_num)
      _ = Real.exp 1 ^ 8 := Real.exp_nat_mul 1 8
      _ < 2.7182818286 ^ 8 := by
          gcongr
          exact Real.exp_one_lt_d9
      _ < 3000 := by norm_num
  have hplace : (Fraction.inner middle : Exact ℝ) = finite ((2 ^ 52 + 1) / 2 ^ 53) := by
    rw [Fraction.inner, upper_middle]
    norm_num [Arith.nat]
  refine (Ziggurat.below_ofDensity_iff (by decide)).2 ?_
  rw [decimal_eq, decimal_eq, finite_neg, div_exp_finite, hplace, finite_mul, Real.exp_neg,
    div_inv_eq_mul, id, lt_finite, decide_eq_true_iff]
  push_cast
  linarith

theorem below_normal_middle :
    (standard : Densities (Exact ℝ)).normal.Below Fraction.centred Arith.magnitude middle := by
  have hplace : (Fraction.centred middle : Exact ℝ) = finite 0 := by
    rw [Fraction.centred, upper_middle]
    norm_num [Arith.nat]
  have htwo (a : ℝ) : finite a / Arith.nat 2 = finite (a / 2) := finite_div _ _ two_ne_zero
  refine (Ziggurat.below_ofDensity_iff (by decide)).2 ?_
  rw [decimal_eq, decimal_eq, finite_neg, finite_mul, htwo, div_exp_finite, hplace, finite_mul,
    zero_mul, magnitude_finite, abs_zero, lt_finite, decide_eq_true_iff]
  norm_num

variable (hI : Source.Keeps I) (hmiddle : ∀ s, I s → (Source.next s).1 = middle)

include hI hmiddle

theorem ensures_drawExponential_of_middle :
    (standard : Densities (Exact ℝ)).drawExponential.Ensures E I fun _ => True := by
  refine Ziggurat.ensures_draw_of_below _ _ _ hI (fun s hs => ?_) _ (by decide)
  rw [hmiddle s hs]
  exact below_exponential_middle

theorem ensures_drawNormal_of_middle :
    (standard : Densities (Exact ℝ)).drawNormal.Ensures E I fun _ => True := by
  refine Ziggurat.ensures_draw_of_below _ _ _ hI (fun s hs => ?_) _ (by decide)
  rw [hmiddle s hs]
  exact below_normal_middle

end Middle

end Densities

end Starfilm
