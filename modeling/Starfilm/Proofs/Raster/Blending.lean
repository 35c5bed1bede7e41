import Mathlib.Data.List.Induction
import Mathlib.Data.Rat.Floor
import Starfilm.Arith.Double
import Starfilm.Proofs.Arith.Exact
import Starfilm.Proofs.Raster.Gather

/-!
# Blends of colours

A colour laid over another with an opacity between nothing and everything is a mixture of the two,
channel by channel. It lies between them, and rounding to an integer does not lead out again, since
both are integers themselves (`ClassStyle.blendChannel_mem`). One blend adds one colour to those
that a pixel is within (`Rgb.Within.blend`), and so it goes from point to point
(`Rgb.within_foldl_blend`).

**Main statement**: `Look.draw_within`. The window and its points may be of any numbers; the blends
are those of exact ones.
-/

namespace Starfilm

/-! ## Channels -/

/-- A channel of a colour. -/
inductive Channel where
  | red
  | green
  | blue

/-- The value of a channel. -/
def Rgb.channel (c : Rgb) : Channel → UInt8
  | .red => c.red
  | .green => c.green
  | .blue => c.blue

theorem Rgb.ext_channel {c c' : Rgb} (h : ∀ ch, c.channel ch = c'.channel ch) : c = c' := by
  cases c
  cases c'
  exact congr (congr (congrArg _ (h .red)) (h .green)) (h .blue)

/-- Each channel of a colour lies between two of those of some colours. -/
def Rgb.Within (cs : List Rgb) (c : Rgb) : Prop :=
  ∀ ch, ∃ lo ∈ cs, ∃ hi ∈ cs, lo.channel ch ≤ c.channel ch ∧ c.channel ch ≤ hi.channel ch

theorem ClassStyle.channel_blend {G : Type} [Arith G] (s : ClassStyle G) (under : Rgb)
    (ch : Channel) :
    (s.blend under).channel ch = blendChannel s.alpha (s.color.channel ch) (under.channel ch) := by
  cases ch <;> rfl

/-! ## One blend -/

section Blend

variable {K : Type} [Field K] [LinearOrder K] [IsStrictOrderedRing K] [FloorRing K]

open Exact

/-- No rounding to an integer passes over another integer. -/
theorem Rounding.integer_mem (r : Rounding) {a : K} {m n : ℤ} (hm : (m : K) ≤ a)
    (hn : a ≤ (n : K)) : m ≤ r.integer a ∧ r.integer a ≤ n := by
  have hfloor : m ≤ ⌊a⌋ ∧ ⌊a⌋ ≤ n :=
    ⟨Int.le_floor.2 hm, (Int.floor_le_floor hn).trans_eq (Int.floor_intCast n)⟩
  have hceil : m ≤ ⌈a⌉ ∧ ⌈a⌉ ≤ n :=
    ⟨(Int.ceil_intCast m).symm.trans_le (Int.ceil_le_ceil hm), Int.ceil_le.2 hn⟩
  cases r with
  | down => exact hfloor
  | up => exact hceil
  | towardZero =>
    rw [integer]
    split_ifs
    · exact hfloor
    · exact hceil
  | nearest =>
    rw [integer]
    split_ifs
    · exact ⟨Int.le_floor.2 (by linarith), Int.floor_le_iff.2 (by linarith)⟩
    · exact ⟨Int.le_ceil_iff.2 (by linarith), Int.ceil_le.2 (by linarith)⟩

theorem Rounding.integer_intCast (r : Rounding) (n : ℤ) : r.integer (n : K) = n :=
  le_antisymm (r.integer_mem le_rfl le_rfl).2 (r.integer_mem le_rfl le_rfl).1

namespace ClassStyle

/-- The exact mixture of which a blend is the rounding. -/
def mixture (a : K) (top under : UInt8) : K := under.toNat * (1 - a) + top.toNat * a

/-- The opacity of a style is finite, and not below nothing or above everything. -/
def HasOpacity (s : ClassStyle (Exact K)) : Prop := ∃ a : K, s.alpha = finite a ∧ 0 ≤ a ∧ a ≤ 1

variable {a : K}

theorem mixture_mem (h₀ : 0 ≤ a) (h₁ : a ≤ 1) {top under lo hi : UInt8}
    (htop : lo ≤ top ∧ top ≤ hi) (hunder : lo ≤ under ∧ under ≤ hi) :
    ((lo.toNat : ℤ) : K) ≤ mixture a top under ∧ mixture a top under ≤ ((hi.toNat : ℤ) : K) := by
  have hcast {x y : UInt8} (h : x ≤ y) : (x.toNat : K) ≤ y.toNat :=
    Nat.cast_le.2 (UInt8.le_iff_toNat_le.1 h)
  have hrest : 0 ≤ 1 - a := sub_nonneg.2 h₁
  rw [Int.cast_natCast, Int.cast_natCast]
  constructor
  · calc (lo.toNat : K) = lo.toNat * (1 - a) + lo.toNat * a := by ring
      _ ≤ under.toNat * (1 - a) + top.toNat * a :=
        add_le_add (mul_le_mul_of_nonneg_right (hcast hunder.1) hrest)
          (mul_le_mul_of_nonneg_right (hcast htop.1) h₀)
  · calc under.toNat * (1 - a) + top.toNat * a ≤ hi.toNat * (1 - a) + hi.toNat * a :=
        add_le_add (mul_le_mul_of_nonneg_right (hcast hunder.2) hrest)
          (mul_le_mul_of_nonneg_right (hcast htop.2) h₀)
      _ = hi.toNat := by ring

/-- **A blend is the rounding of its mixture**, which is a byte without being brought into the range
of bytes. -/
theorem blendChannel_finite (h₀ : 0 ≤ a) (h₁ : a ≤ 1) (top under : UInt8) :
    ((blendChannel (finite a) top under).toNat : ℤ) =
      Rounding.nearest.integer (mixture a top under) := by
  have hbyte (x : UInt8) : 0 ≤ x ∧ x ≤ 255 :=
    ⟨UInt8.le_iff_toNat_le.2 (Nat.zero_le _),
      UInt8.le_iff_toNat_le.2 (Nat.le_of_lt_succ x.toNat_lt)⟩
  obtain ⟨hzero, hmax⟩ := mixture_mem h₀ h₁ (hbyte top) (hbyte under)
  obtain ⟨hlow, hhigh⟩ : 0 ≤ Rounding.nearest.integer (mixture a top under) ∧
      Rounding.nearest.integer (mixture a top under) ≤ 255 :=
    Rounding.nearest.integer_mem hzero hmax
  have hvalue : (Arith.nat under.toNat * (Arith.nat 1 - finite a) +
      Arith.nat top.toNat * finite a : Exact K) = finite (mixture a top under) := by
    simp [mixture]
  have hinteger : Arith.toInt .nearest 0 255 (finite (mixture a top under)) =
      Rounding.nearest.integer (mixture a top under) := by
    rw [toInt_finite, min_eq_right hhigh, max_eq_right hlow]
  simp only [blendChannel, hvalue, hinteger]
  rw [UInt8.toNat_ofNat_of_lt' ((Int.toNat_lt hlow).2 (Int.lt_add_one_iff.2 hhigh)),
    Int.toNat_of_nonneg hlow]

/-- A blend stays between bounds of both of its colours. -/
theorem blendChannel_mem (h₀ : 0 ≤ a) (h₁ : a ≤ 1) {top under lo hi : UInt8}
    (htop : lo ≤ top ∧ top ≤ hi) (hunder : lo ≤ under ∧ under ≤ hi) :
    lo ≤ blendChannel (finite a) top under ∧ blendChannel (finite a) top under ≤ hi := by
  obtain ⟨hlow, hhigh⟩ := mixture_mem h₀ h₁ htop hunder
  obtain ⟨hlow, hhigh⟩ := Rounding.nearest.integer_mem hlow hhigh
  rw [← blendChannel_finite h₀ h₁] at hlow hhigh
  exact ⟨UInt8.le_iff_toNat_le.2 (Int.ofNat_le.1 hlow),
    UInt8.le_iff_toNat_le.2 (Int.ofNat_le.1 hhigh)⟩

/-- With everything for its opacity a colour covers what is under it. -/
theorem blend_of_alpha_eq_one {s : ClassStyle (Exact K)} (h : s.alpha = finite 1) (under : Rgb) :
    s.blend under = s.color := by
  refine Rgb.ext_channel fun ch => ?_
  have hmixture : mixture (1 : K) (s.color.channel ch) (under.channel ch) =
      (((s.color.channel ch).toNat : ℤ) : K) := by
    simp [mixture]
  have hblend := blendChannel_finite (zero_le_one' K) le_rfl (s.color.channel ch) (under.channel ch)
  rw [hmixture, Rounding.integer_intCast] at hblend
  rw [channel_blend, h]
  exact UInt8.toNat_inj.1 (Int.ofNat_inj.1 hblend)

end ClassStyle

/-- **What is blended stays within the colours that it is made of.** -/
theorem Rgb.Within.blend {cs : List Rgb} {under : Rgb} (h : under.Within cs)
    {s : ClassStyle (Exact K)} (hs : s.HasOpacity) :
    (s.blend under).Within (cs ++ [s.color]) := by
  intro ch
  obtain ⟨a, ha, h₀, h₁⟩ := hs
  obtain ⟨lo, hlo, hi, hhi, hunder⟩ := h ch
  have htop : s.color ∈ cs ++ [s.color] := List.mem_append_right _ List.mem_cons_self
  rw [ClassStyle.channel_blend, ha]
  rcases UInt8.le_total (s.color.channel ch) (under.channel ch) with h | h
  · obtain ⟨hlow, hhigh⟩ := ClassStyle.blendChannel_mem h₀ h₁ ⟨UInt8.le_refl _, h⟩
      ⟨h, UInt8.le_refl _⟩
    exact ⟨s.color, htop, hi, List.mem_append_left _ hhi, hlow, UInt8.le_trans hhigh hunder.2⟩
  · obtain ⟨hlow, hhigh⟩ := ClassStyle.blendChannel_mem h₀ h₁ ⟨h, UInt8.le_refl _⟩
      ⟨UInt8.le_refl _, h⟩
    exact ⟨lo, List.mem_append_left _ hlo, s.color, htop, UInt8.le_trans hunder.1 hlow, hhigh⟩

/-- However many colours are blended one after another, the result stays within them and the one
that was there. -/
theorem Rgb.within_foldl_blend {ss : List (ClassStyle (Exact K))} (hs : ∀ s ∈ ss, s.HasOpacity)
    (c : Rgb) : (ss.foldl (fun c s => s.blend c) c).Within (c :: ss.map (·.color)) := by
  induction ss using List.reverseRecOn with
  | nil =>
    exact fun ch =>
      ⟨c, List.mem_cons_self, c, List.mem_cons_self, UInt8.le_refl _, UInt8.le_refl _⟩
  | append_singleton ss s ih =>
    rw [List.foldl_append, List.map_append, ← List.cons_append]
    exact (ih fun s' hs' => hs s' (List.mem_append_left _ hs')).blend (hs s (by simp))

end Blend

/-! ## Points drawn so far -/

namespace Look

section Drawing

variable {F G : Type} [Arith F] [Arith G] (l : Look G) (w : Window F)

/-- The image after some points have been drawn. -/
def after (qs : List (ParticleClass × Point F)) : Image :=
  (qs.filterMap (l.mark? w)).foldl Image.lay
    (.blank (l.size.pixels w).1 (l.size.pixels w).2 .black)

/-- What is drawn is the image after all points. -/
theorem eq_after_of_draw {f : Frame F} {i : Image} (h : l.draw w f = .ok i) :
    i = l.after w f.tagged := by
  rw [draw_eq] at h
  split_ifs at h
  exact (Except.ok.inj h).symm

theorem draw_eq_after (f : Frame F) (hcolumns : 1 ≤ (l.size.pixels w).1) :
    l.draw w f = .ok (l.after w f.tagged) := by
  have hne : (l.size.pixels w).1 ≠ 0 := Nat.one_le_iff_ne_zero.1 hcolumns
  rw [draw_eq, decide_eq_false hne, Bool.false_and]
  rfl

variable {x y : ℕ} (hx : x < (l.size.pixels w).1) (hy : y < (l.size.pixels w).2)

include hx hy

/-- A pixel shows the blends of the points that have reached it. -/
theorem pixel_after (qs : List (ParticleClass × Point F)) :
    (l.after w qs).pixel x y =
      (qs.filter fun q => l.Reaches w q x y).foldl (fun c q => (l.style q.1).blend c) .black := by
  rw [after, Image.pixel_foldl_lay _ _ hx hy, Image.pixel_blank hx hy, foldl_blend_tagged]

/-- **One more point** is blended into the pixels that it reaches, and changes no others. -/
theorem pixel_after_concat (qs : List (ParticleClass × Point F)) (q : ParticleClass × Point F) :
    (l.after w (qs ++ [q])).pixel x y =
      if l.Reaches w q x y then (l.style q.1).blend ((l.after w qs).pixel x y)
      else (l.after w qs).pixel x y := by
  rw [l.pixel_after w hx hy, l.pixel_after w hx hy, List.filter_append, List.foldl_append,
    List.filter_singleton]
  split_ifs <;> simp_all

end Drawing

variable {F K : Type} [Arith F] [Field K] [LinearOrder K] [IsStrictOrderedRing K] [FloorRing K]
  {l : Look (Exact K)}

open Exact

/-- **A pixel stays within black and the colours of the classes that have reached it**, after any
number of points. It is black as long as none has, and it has the colour of the last class that has
if that class leaves nothing of what is under it. A further point that reaches the pixel changes it
to the rounded mixture as it is: no channel ever has to be brought into the range of bytes. -/
theorem draw_within (hs : ∀ c, (l.style c).HasOpacity) (w : Window F) (f : Frame F) :
    (1 ≤ (l.size.pixels w).1 → l.draw w f = .ok (l.after w f.tagged)) ∧
      (∀ i, l.draw w f = .ok i → i = l.after w f.tagged) ∧
      ∀ k, ∀ x < (l.size.pixels w).1, ∀ y < (l.size.pixels w).2,
        let reaching := (f.tagged.take k).filter fun q => l.Reaches w q x y
        let c := (l.after w (f.tagged.take k)).pixel x y
        let next := (l.after w (f.tagged.take (k + 1))).pixel x y
        c.Within (.black :: reaching.map fun q => (l.style q.1).color) ∧
        (reaching = [] → c = .black) ∧
        (∀ q ∈ reaching.getLast?, (l.style q.1).alpha = finite 1 → c = (l.style q.1).color) ∧
        ∀ q ∈ f.tagged[k]?,
          (¬l.Reaches w q x y → next = c) ∧
          (l.Reaches w q x y → ∀ a, (l.style q.1).alpha = finite a → ∀ ch,
            ((next.channel ch).toNat : ℤ) = Rounding.nearest.integer
              (ClassStyle.mixture a ((l.style q.1).color.channel ch) (c.channel ch))) := by
  refine ⟨l.draw_eq_after w f, fun i => l.eq_after_of_draw w, ?_⟩
  intro k x hx y hy reaching c next
  have hc : c = reaching.foldl (fun c q => (l.style q.1).blend c) .black :=
    l.pixel_after w hx hy (f.tagged.take k)
  refine ⟨?_, ?_, ?_, ?_⟩
  · have hstyles : ∀ s ∈ reaching.map fun q => l.style q.1, s.HasOpacity := by
      intro s hmem
      obtain ⟨q, -, rfl⟩ := List.mem_map.1 hmem
      exact hs q.1
    have hwithin := Rgb.within_foldl_blend hstyles .black
    rwa [List.foldl_map, List.map_map, ← hc] at hwithin
  · intro hnone
    rw [hc, hnone]
    rfl
  · intro q hq halpha
    obtain ⟨before, hbefore⟩ := List.getLast?_eq_some_iff.1 hq
    rw [hc, hbefore, List.foldl_append]
    exact ClassStyle.blend_of_alpha_eq_one halpha _
  · intro q hq
    have hnext : next = if l.Reaches w q x y then (l.style q.1).blend c else c := by
      have htake : f.tagged.take (k + 1) = f.tagged.take k ++ [q] := by
        rw [List.take_add_one, hq, Option.toList_some]
      exact (congrArg (fun qs => (l.after w qs).pixel x y) htake).trans
        (l.pixel_after_concat w hx hy _ q)
    refine ⟨fun hnot => hnext.trans (if_neg hnot), fun hreaches a ha ch => ?_⟩
    obtain ⟨a', ha', h₀, h₁⟩ := hs q.1
    obtain rfl : a = a' := Exact.finite.inj (ha.symm.trans ha')
    rw [hnext, if_pos hreaches, ClassStyle.channel_blend, ha]
    exact ClassStyle.blendChannel_finite h₀ h₁ _ _

/-- A new star that covers a faint star of the disk. -/
theorem draw_within_covered :
    let l : Look (Exact ℚ) := ⟨.fixed 3 2, fun
      | .newStars => ⟨⟨0, 255, 255⟩, finite 1, 1⟩
      | _ => ⟨⟨255, 255, 255⟩, finite (2 / 5), 0⟩⟩
    let at₁ (n : ℤ) : Double := Arith.decimal n 1
    let w : Window Double := ⟨at₁ 0, at₁ 30, at₁ 0, at₁ 20⟩
    let f : Frame Double := ⟨at₁ 0, [⟨at₁ 5, at₁ 15⟩], [], [⟨at₁ 15, at₁ 15⟩], at₁ 0⟩
    (∀ c, (l.style c).HasOpacity) ∧ l.draw w f = .ok (l.after w f.tagged) ∧
      (l.after w f.tagged).pixel 0 0 = ⟨0, 255, 255⟩ ∧
      (l.after w f.tagged).pixel 0 1 = .black ∧
      ((((l.after w (f.tagged.take 1)).pixel 0 0).channel .red).toNat : ℤ) = 102 := by
  intro l at₁ w f
  have hs : ∀ c, (l.style c).HasOpacity := by
    rintro (_ | _ | _)
    · exact ⟨2 / 5, rfl, by norm_num, by norm_num⟩
    · exact ⟨2 / 5, rfl, by norm_num, by norm_num⟩
    · exact ⟨1, rfl, zero_le_one, le_rfl⟩
  obtain ⟨hdraw, -, hpixel⟩ := draw_within hs w f
  obtain ⟨-, hnone, -, hnext⟩ := hpixel 0 0 (by decide) 0 (by decide)
  obtain ⟨-, -, hlast, -⟩ := hpixel 2 0 (by decide) 0 (by decide)
  obtain ⟨-, hblack, -, -⟩ := hpixel 2 0 (by decide) 1 (by decide)
  have hfirst := (hnext (.disk, ⟨at₁ 5, at₁ 15⟩) rfl).2 (by decide +kernel) (2 / 5) rfl .red
  rw [hnone rfl] at hfirst
  refine ⟨hs, hdraw (by decide), ?_, ?_, hfirst.trans (by decide +kernel)⟩
  · exact hlast (.newStars, ⟨at₁ 15, at₁ 15⟩) (by decide +kernel) rfl
  · exact hblack (by decide +kernel)

end Look

end Starfilm
