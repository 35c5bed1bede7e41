import Mathlib.Algebra.Order.Archimedean.Real.Basic
import Mathlib.Analysis.SpecialFunctions.Log.Basic
import Mathlib.Analysis.SpecialFunctions.Trigonometric.Basic
import Starfilm.Arith.Elementary
import Starfilm.Proofs.Arith.Exact

/-!
# Elementary functions of exact real numbers

Exact arithmetic asks nothing of the elementary functions. Over the real numbers it has the usual
ones, and a statement that needs one of their laws can be made about these.
-/

namespace Starfilm

open Exact

/-- The elementary functions of the real numbers, with their limits at the infinities. -/
noncomputable instance : Elementary (Exact ℝ) where
  sin
    | finite a => finite (Real.sin a)
    | _ => nan
  cos
    | finite a => finite (Real.cos a)
    | _ => nan
  exp
    | finite a => finite (Real.exp a)
    | infinite s => if s then finite 0 else infinite false
    | nan => nan
  ln
    | finite a =>
      if a < 0 then nan else if a = 0 then infinite true else finite (Real.log a)
    | infinite s => if s then nan else infinite false
    | nan => nan
  sqrt
    | finite a => if a < 0 then nan else finite (Real.sqrt a)
    | infinite s => if s then nan else infinite false
    | nan => nan
  pi := finite Real.pi

end Starfilm
