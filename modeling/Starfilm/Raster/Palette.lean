import Starfilm.Raster.Image

/-!
# Palettes

Some formats allow a picture two hundred and fifty-six colours. A picture with no more keeps them
all. For any other picture a palette is learned: its colours are neurons on a line, and each pixel
in turn pulls the neuron that answers to it, and that one's neighbours, towards its own colour. Rare
colours are favoured by a bias, and both the pull and the neighbourhood shrink while the pixels are
seen. Every pixel is then shown in the colour of the palette that is nearest to it, as far as a
search from its green outwards finds that.
-/

namespace Starfilm

/-- The colours that a palette may have. -/
def paletteSize : Nat := 256

namespace Palette

/-- A colour with an opacity, each a number from `0` to `255`. -/
structure Neuron where
  red : Float
  green : Float
  blue : Float
  opacity : Float
  deriving Inhabited

/-- Neurons with the bias in their favour and the share of pixels that they have answered. -/
structure Network where
  neurons : Array Neuron
  bias : Array Float
  share : Array Float

/-- The neuron of an opaque pixel. -/
def ofPixel (c : Rgb) : Neuron :=
  ⟨c.red.toNat.toFloat, c.green.toNat.toFloat, c.blue.toNat.toFloat, 255⟩

/-- The network before it has seen anything: all shades of grey, the darkest of them transparent. -/
def initial : Network where
  neurons := Array.ofFn fun k : Fin paletteSize =>
    let shade := k.val.toFloat * 256 / paletteSize.toFloat
    ⟨shade, shade, shade, if k.val < 16 then k.val.toFloat * 16 else 255⟩
  bias := Array.replicate paletteSize 0
  share := Array.replicate paletteSize (1 / paletteSize.toFloat)

/-- How fast shares change. -/
def rate : Float := 1 / 1024

/-- The candidates of a contest: the nearest neuron, and the nearest with its bias. -/
structure Candidates where
  nearest : Nat
  distance : Float
  favoured : Nat
  biased : Float

/-- The candidates after neuron `k` has been looked at. It is measured in red and blue first, and in
full only if it may still win. -/
def Candidates.consider (c : Candidates) (pixel n : Neuron) (bias : Float) (k : Nat) : Candidates :=
  let d := (n.blue - pixel.blue).abs + (n.red - pixel.red).abs
  if d < c.distance || d < c.biased + bias then
    let d := d + (n.green - pixel.green).abs + (n.opacity - pixel.opacity).abs
    let c := if d < c.distance then { c with nearest := k, distance := d } else c
    if d - bias < c.biased then { c with favoured := k, biased := d - bias } else c
  else c

/-- The largest number. -/
def farthest : Float := Float.ofBits 0x7FEFFFFFFFFFFFFF

/-- The neuron that answers to a pixel, and the network with the shares and biases after that. -/
def contest (net : Network) (pixel : Neuron) : Nat × Network :=
  let (c, bias, share) := (List.range paletteSize).foldl
    (fun (c, bias, share) k =>
      let b := bias.getD k 0
      let c := Candidates.consider c pixel (net.neurons.getD k default) b k
      let s := share.getD k 0 - rate * share.getD k 0
      (c, bias.set! k (b + s), share.set! k s))
    ((⟨0, farthest, 0, farthest⟩ : Candidates), net.bias, net.share)
  (c.favoured,
    { net with
      bias := bias.modify c.nearest (· - 1)
      share := share.modify c.nearest (· + rate) })

/-- A neuron pulled towards a pixel. -/
def Neuron.pulled (n pixel : Neuron) (pull : Float) : Neuron :=
  ⟨n.red - pull * (n.red - pixel.red), n.green - pull * (n.green - pixel.green),
    n.blue - pull * (n.blue - pixel.blue), n.opacity - pull * (n.opacity - pixel.opacity)⟩

/-- The neurons within a radius of neuron `k` pulled, the less the further they are from it. The
lowest of them is left alone. -/
def pullNeighbours (neurons : Array Neuron) (pixel : Neuron) (pull : Float) (radius k : Nat) :
    Array Neuron :=
  let low := k - radius
  let high := Min.min (k + radius) paletteSize
  let square := radius.toFloat * radius.toFloat
  (List.range radius).foldl
    (fun ns q =>
      let p := pull * (square - q.toFloat * q.toFloat) / square
      let ns :=
        if k + 1 + q < high then ns.modify (k + 1 + q) (·.pulled pixel p) else ns
      if low + 1 + q < k then ns.modify (k - 1 - q) (·.pulled pixel p) else ns)
    neurons

/-- How a network learns: the strength of the pull in parts of `1024`, and sixty-four times the
radius of the neighbourhood. -/
structure Lesson where
  strength : Nat
  width : Nat

/-- The radius of a neighbourhood; a radius of one is none. -/
def Lesson.radius (l : Lesson) : Nat := if l.width / 64 ≤ 1 then 0 else l.width / 64

/-- The lesson that follows. -/
def Lesson.next (l : Lesson) : Lesson :=
  ⟨l.strength - l.strength / 30, l.width - l.width / 30⟩

/-- The distance between pixels that are seen one after another: the first of some primes that does
not divide their number. -/
def stride (n : Nat) : Nat := ([499, 491, 478].find? fun p => n % p ≠ 0).getD 503

/-- The pixels are seen in this many lessons. -/
def lessons : Nat := 128

/-- The network after it has seen each of some pixels once. -/
def learn (pixels : Array Rgb) : Network :=
  let n := pixels.size
  let every := Max.max (n / lessons) 1
  ((List.range n).foldl
    (fun ((net, l) : Network × Lesson) i =>
      let pixel := ofPixel (pixels.getD (i * stride n % n) .black)
      let (k, net) := contest net pixel
      let pull := l.strength.toFloat / 1024
      let neurons := net.neurons.modify k (·.pulled pixel pull)
      let neurons :=
        if l.radius = 0 then neurons else pullNeighbours neurons pixel pull l.radius k
      ({ net with neurons }, if (i + 1) % every = 0 then l.next else l))
    (initial, ⟨1024, 64 * (paletteSize / 8)⟩)).1

/-- A number rounded to a byte. -/
def toByte (x : Float) : Nat := if x < 0 then 0 else Min.min x.round.toUInt64.toNat 255

/-- A colour of a palette. -/
structure Entry where
  red : Nat
  green : Nat
  blue : Nat
  opacity : Nat
  deriving Inhabited

/-- The colours of a network. -/
def entries (net : Network) : Array Entry :=
  net.neurons.map fun n => ⟨toByte n.red, toByte n.green, toByte n.blue, toByte n.opacity⟩

/-- The first place from `k` on with the least green. -/
def leastGreen (es : Array Entry) (k : Nat) : Nat :=
  (List.range' k (es.size - k)).foldl
    (fun best j => if (es.getD j default).green < (es.getD best default).green then j else best) k

/-- The colours sorted by green, each time by exchanging the first with the least. -/
def sorted (es : Array Entry) : Array Entry :=
  (List.range es.size).foldl (fun es k => es.swapIfInBounds k (leastGreen es k)) es

/-- Where the search for a green begins: in the middle of the colours with that green, or before the
first that has more. -/
def starts (es : Array Entry) : Array Nat :=
  let (starts, previous, first) := (List.range es.size).foldl
    (fun ((starts, previous, first) : Array Nat × Nat × Nat) i =>
      let green := (es.getD i default).green
      if green = previous then (starts, previous, first)
      else
        let starts := starts.set! previous ((first + i) / 2)
        let starts := (List.range' (previous + 1) (green - (previous + 1))).foldl
          (fun s j => s.set! j i) starts
        (starts, green, i))
    (Array.replicate 256 0, 0, 0)
  let starts := starts.set! previous ((first + (es.size - 1)) / 2)
  (List.range' (previous + 1) (256 - (previous + 1))).foldl
    (fun s j => s.set! j (es.size - 1)) starts

/-- The square of a difference. -/
def square (a b : Nat) : Nat := (a - b) * (a - b) + (b - a) * (b - a)

/-- The better of the best place and the places of a list, which is given up at the first place
whose green alone is too far away. -/
def search (es : Array Entry) (c : Rgb) : List Nat → Nat × Nat → Nat × Nat
  | [], best => best
  | k :: ks, (place, distance) =>
    let e := es.getD k default
    let green := square e.green c.green.toNat
    if distance < green then (place, distance)
    else
      let d := green + square e.red c.red.toNat + square e.blue c.blue.toNat +
        square e.opacity 255
      search es c ks (if d < distance then (k, d) else (place, distance))

/-- The colour of a palette that a pixel is shown in. -/
def shownAs (es : Array Entry) (starts : Array Nat) (c : Rgb) : Rgb :=
  let first := starts.getD c.green.toNat 0
  let best := search es c (List.range' first (es.size - first)) (first, 0x7FFFFFFF)
  let (k, _) := search es c (List.range first).reverse best
  let e := es.getD k default
  ⟨e.red.toUInt8, e.green.toUInt8, e.blue.toUInt8⟩

/-- The different colours of some pixels, as long as there are no more than so many. -/
def colors (limit : Nat) (pixels : Array Rgb) : Option (List Rgb) :=
  pixels.foldl
    (fun found c =>
      match found with
      | none => none
      | some [] => some [c]
      | some (last :: cs) =>
        if last = c then found
        else if cs.contains c then some (c :: last :: cs.erase c)
        else if cs.length + 1 < limit then some (c :: last :: cs)
        else none)
    (some [])

end Palette

/-- The image with at most two hundred and fifty-six colours. -/
def Image.reduced (i : Image) : Image :=
  if (Palette.colors paletteSize i.pixels).isSome then i
  else
    let es := Palette.sorted (Palette.entries (Palette.learn i.pixels))
    let starts := Palette.starts es
    { i with
      pixels := i.pixels.map (Palette.shownAs es starts)
      size_eq := by simpa using i.size_eq }

end Starfilm
