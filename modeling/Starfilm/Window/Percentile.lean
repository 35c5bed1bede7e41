import Starfilm.Arith

/-!
# Percentiles

The percentile of sorted data lies at a rank between the first and the last value; between two
values it is interpolated on the line that joins them.
-/

namespace Starfilm

variable {F : Type} [Arith F]

/-- The rank of the `q`-th percentile among `n` values: `q` hundredths of the way from the first to
the last, and never beyond them. -/
def rank (n : Nat) (q : F) : F :=
  Arith.clamp (Arith.nat 0) (Arith.nat 1) (q / Arith.nat 100) * Arith.nat (n - 1)

/-- The index just below a rank among `n` values. One past the last value is cut to `n`, where there
is no value either. -/
def lowerIndex (n : Nat) (r : F) : Nat := (Arith.toInt .down 0 n r).toNat

/-- The index just above a rank among `n` values, cut in the same way. -/
def upperIndex (n : Nat) (r : F) : Nat := (Arith.toInt .up 0 n r).toNat

/-- The `q`-th percentile of sorted data. There is none of no data. -/
def percentile (sorted : List F) (q : F) : Option F := do
  let r := rank sorted.length q
  let lo ← sorted[lowerIndex sorted.length r]?
  let hi ← sorted[upperIndex sorted.length r]?
  some (lo + (r - Arith.nat (lowerIndex sorted.length r)) * (hi - lo))

end Starfilm
