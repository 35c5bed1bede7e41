import Starfilm.Arith.Elementary
import Starfilm.Random.Source

/-!
# Densities in layers

A falling density is covered by two hundred and fifty-six layers of equal area. To draw from it,
one word chooses a layer and a place in it. Most places lie under the density for certain, since
they are not beyond the edge of the layer above; of the others a second word decides, and what it
rejects is drawn again. The lowest layer has a tail without end, from which its own rule draws.
`Ziggurat.ofDensity` finds the edges of the layers from below: each layer's area, divided by its
width, is the height to its successor.

The two densities of use are the exponential one and, turned over to both sides, the normal one.
-/

namespace Starfilm

variable {F : Type} [Arith F]

/-- A density in layers. -/
structure Ziggurat (F : Type) where
  /-- Where the layers end, from below; the lowest layer as if it were a box. -/
  edges : Array F
  /-- The density at the edges. -/
  heights : Array F
  density : F → F
  /-- Where the tail begins. -/
  base : F

namespace Ziggurat

/-- The layers above the lowest one. -/
def upperLayers : Nat := 254

/-- The edges above `x`, and `0` at the top. -/
def edgesAbove (area : F) (density inverse : F → F) : Nat → F → List F
  | 0, _ => [Arith.nat 0]
  | n + 1, x =>
    let y := inverse (area / x + density x)
    y :: edgesAbove area density inverse n y

/-- A density in layers of a given area, the lowest of which reaches to `base`. -/
def ofDensity (base area : F) (density inverse : F → F) : Ziggurat F :=
  let edges :=
    area / density base :: base :: edgesAbove area density inverse upperLayers base
  { edges := edges.toArray
    heights := (edges.map density).toArray
    density, base }

/-- The edge of a layer. -/
def edge (z : Ziggurat F) (i : Nat) : F := z.edges.getD i (Arith.nat 0)

/-- The density at the edge of a layer. -/
def height (z : Ziggurat F) (i : Nat) : F := z.heights.getD i (Arith.nat 0)

variable {S : Type} [Source S]

/-- An attempt to draw a value from the layers. `place` makes a fraction of a word, `reach` is the
distance from the middle, and `tail` draws from the tail on the side of a fraction. -/
def attempt (z : Ziggurat F) (place : UInt64 → F) (reach : F → F) (tail : F → Draws S F) :
    Draws S (Option F) := do
  let w ← Draws.word
  let i := w.toNat % 256
  let u := place w
  let x := u * z.edge i
  if Arith.lt (reach x) (z.edge (i + 1)) then return some x
  else if i = 0 then return some (← tail u)
  else
    let r := Fraction.fine (← Draws.word)
    if Arith.lt (z.height (i + 1) + (z.height i - z.height (i + 1)) * r) (z.density x) then
      return some x
    else return none

/-- A value drawn from the layers, in no more than `limit` attempts. -/
def draw (z : Ziggurat F) (place : UInt64 → F) (reach : F → F) (tail : F → Draws S F)
    (limit : Nat) : Draws S F := Draws.untilAccepted (z.attempt place reach tail) limit

end Ziggurat

variable [Elementary F]

/-- The densities that synthetic snapshots draw from. -/
structure Densities (F : Type) where
  exponential : Ziggurat F
  normal : Ziggurat F
  /-- The attempts that a draw may take. -/
  patience : Nat

namespace Densities

/-- The exponential density in layers. -/
def exponentialLayers : Ziggurat F :=
  .ofDensity (Arith.decimal 769711747013104972 17) (Arith.decimal 39496598225815571993 22)
    (fun x => Elementary.exp (-x)) (fun y => -Elementary.ln y)

/-- The upper half of the normal density in layers, up to a factor. -/
def normalLayers : Ziggurat F :=
  .ofDensity (Arith.decimal 36541528853610088 16) (Arith.decimal 492867323399 14)
    (fun x => Elementary.exp (-x * x / Arith.nat 2))
    (fun y => Elementary.sqrt (Arith.ofInt (-2) * Elementary.ln y))

/-- More attempts than can ever be made. -/
def endless : Nat := 0x7FFFFFFFFFFFFFFF

/-- Both densities. -/
def standard : Densities F := ⟨exponentialLayers, normalLayers, endless⟩

variable {S : Type} [Source S]

/-- A value of the exponential distribution. The tail of an exponential is an exponential. -/
def drawExponential (d : Densities F) : Draws S F :=
  d.exponential.draw Fraction.inner id
    (fun _ => do
      let r : F := Fraction.fine (← Draws.word)
      return d.exponential.base - Elementary.ln r)
    d.patience

/-- An attempt at the distance into the tail of the normal distribution: an exponential distance
`x`, if a second exponential `y` lets it pass. Both are kept with their signs turned. -/
def tailAttempt (base : F) : Draws S (Option F) := do
  let x := Elementary.ln (Fraction.inner (← Draws.word)) / base
  let y : F := Elementary.ln (Fraction.inner (← Draws.word))
  if Arith.lt (Arith.ofInt (-2) * y) (x * x) then return none else return some x

/-- A value of the standard normal distribution. -/
def drawNormal (d : Densities F) : Draws S F :=
  d.normal.draw Fraction.centred Arith.magnitude
    (fun u => do
      let base := d.normal.base
      let x ← Draws.untilAccepted (tailAttempt base) d.patience
      return if Arith.lt u (Arith.nat 0) then x - base else base - x)
    d.patience

end Densities

end Starfilm
