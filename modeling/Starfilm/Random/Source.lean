import Starfilm.Arith
import Starfilm.Failure

/-!
# Sources of randomness

A source gives one word of sixty-four bits after another. `Draws` are computations that take words
from a source and may fail; the words taken until then stay taken. Some of them are attempts, which
are repeated until one is not rejected. Fractions are made of the upper bits of a word, so that
every one of them is a machine number.
-/

namespace Starfilm

/-- States that give random words. -/
class Source (S : Type) where
  next : S → UInt64 × S

/-- What is drawn from a source. -/
abbrev Draws (S A : Type) := ExceptT Failure (StateM S) A

/-- A counter whose values are mixed. -/
structure SplitMix where
  state : UInt64
  deriving DecidableEq, Repr

namespace SplitMix

/-- The word of a state: its bits mixed by two rounds of shifting and multiplying. -/
def mix (s : UInt64) : UInt64 :=
  let z := (s ^^^ (s >>> 30)) * 0xBF58476D1CE4E5B9
  let z := (z ^^^ (z >>> 27)) * 0x94D049BB133111EB
  z ^^^ (z >>> 31)

instance : Source SplitMix where
  next g :=
    let state := g.state + 0x9E3779B97F4A7C15
    (mix state, ⟨state⟩)

end SplitMix

namespace Draws

/-- The next word. -/
def word {S : Type} [Source S] : Draws S UInt64 := do
  let (w, s) := Source.next (← get)
  set s
  return w

/-- Attempts until one is not rejected, but no more than a limit. -/
def untilAccepted {S A : Type} (attempt : Draws S (Option A)) : Nat → Draws S A
  | 0 => throw .unsettledDraw
  | n + 1 => do
    match ← attempt with
    | some a => return a
    | none => untilAccepted attempt n

end Draws

namespace Fraction

variable {F : Type} [Arith F]

/-- The upper fifty-two bits of a word. -/
def upper (w : UInt64) : Int := (w >>> 12).toNat

/-- A fraction from `0`, of fifty-two bits. -/
def unit (w : UInt64) : F := Arith.ofInt (upper w) / Arith.nat 0x10000000000000

/-- The largest `unit`. -/
def maxUnit : F := Arith.ofInt 0xFFFFFFFFFFFFF / Arith.nat 0x10000000000000

/-- A fraction strictly between `0` and `1`: the middle of two neighbouring values of `unit`. -/
def inner (w : UInt64) : F := Arith.ofInt (2 * upper w + 1) / Arith.nat 0x20000000000000

/-- A fraction from `-1`, below `1`. -/
def centred (w : UInt64) : F :=
  Arith.ofInt (2 * upper w - 0x10000000000000) / Arith.nat 0x10000000000000

/-- A fraction from `0`, of fifty-three bits. -/
def fine (w : UInt64) : F := Arith.ofInt (w >>> 11).toNat / Arith.nat 0x20000000000000

end Fraction

end Starfilm
