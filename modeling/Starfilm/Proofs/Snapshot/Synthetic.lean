import Starfilm.Proofs.Random.Uniform
import Starfilm.Proofs.Random.Ziggurat
import Starfilm.Proofs.Snapshot.Loading
import Starfilm.Snapshot.Synthetic

/-!
# Well-formed synthetic snapshots

A synthetic snapshot has the stars that were asked for, whatever is drawn: each of its loops draws
as many as it was told, and of the values drawn only the ages matter, which a distribution from
nothing to the present keeps between the two (`Collision.ensures_snapshot`). The words that this
takes differ from draw to draw, so a sequence is told as what successive snapshots give, each from
the state of the source that the one before left.

**Main statement**: `Collision.sequence_formed`.
-/

namespace Starfilm

open Draws

/-! ## Sorting by time -/

/-- Whether a snapshot is of a time. -/
def Snapshot.isAt {F : Type} [Arith F] (t : F) (shot : Snapshot F) : Bool :=
  Arith.totalLe shot.time t && Arith.totalLe t shot.time

/-- A sequence has some snapshots by rising time, and those of one time in the order in which they
are given. -/
structure Sequence.IsTimeSort {F : Type} [Arith F] (q : Sequence F) (shots : List (Snapshot F)) :
    Prop where
  perm : q.snapshots.Perm shots
  sorted : q.snapshots.Pairwise fun a b => Arith.totalLe a.time b.time = true
  stable : ∀ t, q.snapshots.filter (Snapshot.isAt t) = shots.filter (Snapshot.isAt t)

theorem Sequence.isTimeSort_ofSnapshots {F : Type} [Arith F] [PlaceOrder F]
    (shots : List (Snapshot F)) : (ofSnapshots shots).IsTimeSort shots := by
  obtain ⟨hperm, hsorted⟩ := ofSnapshots_spec shots
  refine ⟨hperm, hsorted, fun t => ?_⟩
  have hequal : (shots.filter (Snapshot.isAt t)).Pairwise fun a b => inOrder a b = true := by
    refine List.pairwise_of_forall_mem_list fun a ha b hb => ?_
    have ha' := Bool.and_eq_true_iff.1 (List.mem_filter.1 ha).2
    have hb' := Bool.and_eq_true_iff.1 (List.mem_filter.1 hb).2
    exact PlaceOrder.trans a.time t b.time ha'.1 hb'.2
  have hkept : (shots.filter (Snapshot.isAt t)).Sublist (ofSnapshots shots).snapshots :=
    List.sublist_mergeSort (fun a b c => PlaceOrder.trans a.time b.time c.time)
      (fun a b => PlaceOrder.total a.time b.time) hequal List.filter_sublist
  have hsublist := hkept.filter (Snapshot.isAt t)
  rw [List.filter_filter] at hsublist
  simp only [Bool.and_self] at hsublist
  exact (hsublist.eq_of_length (hperm.filter _).length_eq.symm).symm

namespace Collision

/-! ## More patience -/

theorem extends_drawStars {S A : Type} (n : ℕ) {f g : ℕ → Draws S A}
    (h : ∀ i, (g i).Extends (f i)) : (drawStars n g).Extends (drawStars n f) := by
  unfold drawStars
  split_ifs
  · exact .refl _
  · exact .mapM h _

section Patience

variable {F : Type} [Arith F] [Elementary F] {S : Type} [Source S] (c : Collision F)
  (d : Densities F) {n : ℕ} (hn : d.patience ≤ n)

include hn

theorem extends_diskParticle (centre : Position F) :
    (c.diskParticle (d.within n) centre : Draws S _).Extends (c.diskParticle d centre) := by
  have hexp := d.extends_drawExponential (S := S) hn
  have hnormal := d.extends_drawNormal (S := S) hn
  refine hexp.bind fun e₁ => hexp.bind fun e₂ => (Extends.refl _).bind fun angle => ?_
  exact (Extends.refl _).bind fun phi => hnormal.bind fun z => .refl _

theorem extends_bulgeParticle (centre : Position F) :
    (c.bulgeParticle (d.within n) centre : Draws S _).Extends (c.bulgeParticle d centre) := by
  have hnormal := d.extends_drawNormal (S := S) hn
  exact hnormal.bind fun x => hnormal.bind fun y => hnormal.bind fun z => .refl _

theorem extends_newStar (time : F) :
    (c.newStar (d.within n) time : Draws S _).Extends (c.newStar d time) :=
  (c.extends_diskParticle d hn _).bind fun _ => .refl _

theorem extends_snapshot (time : F) :
    (c.snapshot (d.within n) time : Draws S _).Extends (c.snapshot d time) := by
  refine (extends_drawStars _ fun i => c.extends_diskParticle d hn _).bind fun disk => ?_
  refine (extends_drawStars _ fun i => c.extends_bulgeParticle d hn _).bind fun bulge => ?_
  exact (extends_drawStars _ fun i => c.extends_newStar d hn time).bind fun rows => .refl _

/-- With more patience a sequence that has been drawn is drawn again. -/
theorem extends_sequence (times : List F) :
    (c.sequence (d.within n) times : Draws S _).Extends (c.sequence d times) :=
  (Extends.mapM (c.extends_snapshot d hn) times).bind fun _ => .refl _

end Patience

/-! ## One snapshot -/

section Snapshots

variable {K : Type} [Field K] [LinearOrder K] [IsStrictOrderedRing K] [FloorRing K]

open Exact

/-- The snapshot of a time `t`, with `r` new stars in a unit of time. -/
structure Formed (c : Collision (Exact K)) (r t : K) (shot : Snapshot (Exact K)) : Prop where
  time : shot.time = finite t
  disk : shot.disk.length = c.diskParticles
  bulge : shot.bulge.length = c.bulgeParticles
  positions : (shot.newStars.positions.length : ℤ) = ⌊r * t⌋
  masses : (shot.newStars.masses.length : ℤ) = ⌊r * t⌋
  formationTimes : (shot.newStars.formationTimes.length : ℤ) = ⌊r * t⌋
  formed : ∀ b ∈ shot.newStars.formationTimes, ∃ a : K, b = finite a ∧ 0 ≤ a ∧ a ≤ t

/-- There is room for the stars of a time. -/
structure HasRoom (c : Collision (Exact K)) (r t : K) : Prop where
  disk : c.diskParticles ≤ maxStars
  bulge : c.bulgeParticles ≤ maxStars
  newStars : ⌊r * t⌋ ≤ (maxStars : ℤ)

variable {c : Collision (Exact K)} {r t : K}

theorem newStarCount_finite (hrate : c.formationRate = finite r) (hnonneg : 0 ≤ r * t)
    (hroom : ⌊r * t⌋ ≤ (maxStars : ℤ)) : (c.newStarCount (finite t) : ℤ) = ⌊r * t⌋ := by
  have hfloor : 0 ≤ ⌊r * t⌋ := Int.floor_nonneg.2 hnonneg
  have hmax : Arith.max (finite (r * t)) (Arith.nat 0 : Exact K) = finite (r * t) := by
    rw [Arith.max, if_pos]
    simpa using hnonneg
  have hmost : (maxStars : ℤ) ≤ maxIndex := by decide
  rw [newStarCount, hrate, finite_mul, hmax, toInt_finite, Rounding.integer, if_pos hnonneg,
    min_eq_right (hroom.trans hmost), max_eq_right hfloor, Int.toNat_of_nonneg hfloor]

theorem ensures_drawStars {S A : Type} {E : Failure → Prop} {I : S → Prop} {n : ℕ}
    (hn : n ≤ maxStars) {star : ℕ → Draws S A} {P : A → Prop} (h : ∀ i, (star i).Ensures E I P) :
    (drawStars n star).Ensures E I fun xs => xs.length = n ∧ ∀ x ∈ xs, P x := by
  rw [drawStars, if_neg (not_lt.2 hn)]
  refine (Ensures.mapM fun i _ => h i).mono fun xs hxs => ⟨?_, fun x hx => ?_⟩
  · rw [← hxs.length_eq, List.length_range]
  · obtain ⟨i, hi⟩ := exists_of_mem_forall₂ hxs.flip hx
    exact hi

section Outcomes

variable [Elementary (Exact K)] {S : Type} [Source S] {E : Failure → Prop} {I : S → Prop}
  {d : Densities (Exact K)} (hI : Source.Keeps I)
  (hexp : d.drawExponential.Ensures E I fun _ => True)
  (hnormal : d.drawNormal.Ensures E I fun _ => True) {p : K} (hp : 0 < p)
  (hpi : Elementary.pi = finite p)

include hnormal in
theorem ensures_bulgeParticle (centre : Position (Exact K)) :
    (c.bulgeParticle d centre).Ensures E I fun _ => True :=
  hnormal.bind fun _ _ => hnormal.bind fun _ _ => hnormal.bind fun _ _ => .pure trivial

include hI hexp hnormal hp hpi

theorem ensures_diskParticle (centre : Position (Exact K)) :
    (c.diskParticle d centre).Ensures E I fun _ => True := by
  have hturn : (0 : K) < 2 * p - 0 := by linarith
  have hbelow : Uniform.below (Arith.nat 0) (Arith.nat 2 * Elementary.pi) =
      .ok ⟨finite (0 : K), finite (2 * p - 0)⟩ := by
    rw [hpi, Arith.nat, Arith.nat, ofInt_eq, ofInt_eq, finite_mul]
    simpa using Uniform.below_finite (sub_pos.1 hturn)
  refine hexp.bind fun e₁ _ => hexp.bind fun e₂ _ => (Ensures.lift hbelow).bind fun angle h => ?_
  subst h
  exact (Uniform.ensures_sample hI hturn.le).bind fun phi _ => hnormal.bind fun z _ => .pure trivial

theorem ensures_newStar (ht : 0 ≤ t) : (c.newStar d (finite t)).Ensures E I fun row =>
    ∃ a : K, row.2.2 = finite a ∧ 0 ≤ a ∧ a ≤ t := by
  have hages : Uniform.upTo (Arith.nat 0) (finite t) =
      .ok ⟨finite (0 : K), finite ((t - 0) / Fraction.largest K)⟩ := by
    rw [Arith.nat, ofInt_eq]
    simpa using Uniform.upTo_finite ht
  have hscale : 0 ≤ (t - 0) / Fraction.largest K :=
    div_nonneg (sub_nonneg.2 ht) Fraction.largest_pos.le
  refine (ensures_diskParticle hI hexp hnormal hp hpi _).bind fun position _ => ?_
  refine (Ensures.lift hages).bind fun ages h => ?_
  subst h
  refine (Uniform.ensures_sample hI hscale).bind fun age hage => .pure ?_
  obtain ⟨a, rfl, hnonneg, hle⟩ := hage
  rw [div_mul_cancel₀ _ Fraction.largest_pos.ne'] at hle
  exact ⟨t - a, finite_sub t a, by linarith, by linarith⟩

/-- **A snapshot is well formed**, whatever is drawn for it. -/
theorem ensures_snapshot (hrate : c.formationRate = finite r) (hr : 0 ≤ r) (ht : 0 ≤ t)
    (hroom : c.HasRoom r t) : (c.snapshot d (finite t)).Ensures E I (c.Formed r t) := by
  have hcount := newStarCount_finite hrate (mul_nonneg hr ht) hroom.newStars
  have hmany : c.newStarCount (finite t) ≤ maxStars :=
    Int.ofNat_le.1 (hcount.trans_le hroom.newStars)
  have hdisk := ensures_drawStars hroom.disk fun i =>
    ensures_diskParticle (c := c) hI hexp hnormal hp hpi (c.centre (finite t) i)
  have hbulge := ensures_drawStars hroom.bulge fun i =>
    ensures_bulgeParticle (c := c) hnormal (c.centre (finite t) i)
  have hrows := ensures_drawStars hmany fun _ =>
    ensures_newStar (c := c) hI hexp hnormal hp hpi ht
  refine hdisk.bind fun disk hdisk => hbulge.bind fun bulge hbulge => ?_
  refine hrows.bind fun rows hrows => .pure ?_
  have hlength : (rows.length : ℤ) = ⌊r * t⌋ := by rw [hrows.1, hcount]
  refine ⟨rfl, hdisk.1, hbulge.1, ?_, ?_, ?_, fun b hb => ?_⟩
  · simpa [NewStars.ofRows] using hlength
  · simpa [NewStars.ofRows] using hlength
  · simpa [NewStars.ofRows] using hlength
  · obtain ⟨row, hrow, rfl⟩ := List.mem_map.1 hb
    exact hrows.2 row hrow

theorem ensures_snapshots (hrate : c.formationRate = finite r) (hr : 0 ≤ r) {ts : List K}
    (hts : ∀ t ∈ ts, 0 ≤ t) (hroom : ∀ t ∈ ts, c.HasRoom r t) :
    ((ts.map finite).mapM (c.snapshot d)).Ensures E I (List.Forall₂ (c.Formed r) ts) := by
  rw [List.mapM_map]
  exact .mapM fun t ht =>
    ensures_snapshot hI hexp hnormal hp hpi hrate hr (hts t ht) (hroom t ht)

/-- A sequence ends where no draw that may be made for it fails. -/
theorem ensures_sequence (hrate : c.formationRate = finite r) (hr : 0 ≤ r) {ts : List K}
    (hts : ∀ t ∈ ts, 0 ≤ t) (hroom : ∀ t ∈ ts, c.HasRoom r t) :
    (c.sequence d (ts.map finite)).Ensures E I fun _ => True :=
  (ensures_snapshots hI hexp hnormal hp hpi hrate hr hts hroom).bind fun _ _ => .pure trivial

end Outcomes

/-! ## Sequences -/

omit [IsStrictOrderedRing K] in
/-- The times of well-formed snapshots. -/
theorem map_time_of_formed {ts : List K} {shots : List (Snapshot (Exact K))}
    (h : List.Forall₂ (c.Formed r) ts shots) : shots.map (·.time) = ts.map finite := by
  induction h with
  | nil => rfl
  | cons hshot _ ih => rw [List.map_cons, List.map_cons, hshot.time, ih]

variable [Elementary (Exact K)] {S : Type} [Source S]

/-- **Synthetic sequences are well formed.** If none of its draws is given up, a sequence is drawn,
with one snapshot for each time. They are what successive snapshots of the times in the given order
come to, sorted by time, with those of one time in that order; and each of them has the stars of its
time, none of which formed before the start or after that time. More patience changes nothing. -/
theorem sequence_formed (c : Collision (Exact K)) (d : Densities (Exact K)) {p r : K} (hp : 0 < p)
    (hpi : Elementary.pi = finite p) (hrate : c.formationRate = finite r) (hr : 0 ≤ r) {ts : List K}
    (hts : ∀ t ∈ ts, 0 ≤ t) (hroom : ∀ t ∈ ts, c.HasRoom r t) {s : S}
    (hends : (c.sequence d (ts.map finite)).Ends s) :
    ∃ (q : Sequence (Exact K)) (shots : List (Snapshot (Exact K))) (s' : S),
      (∀ n, d.patience ≤ n → c.sequence (d.within n) (ts.map finite) s = (.ok q, s')) ∧
      Successive (c.snapshot d) s (ts.map finite) shots s' ∧
      (q.length = ts.length ∧ q.IsTimeSort shots ∧
        q.snapshots.map (·.time) = (ts.mergeSort (· ≤ ·)).map finite) ∧
      List.Forall₂ (c.Formed r) ts shots := by
  have hI : Source.Keeps fun _ : S => True := fun _ => id
  have hensures := ensures_snapshots (c := c) (d := d) hI (d.ensures_drawExponential hI rfl)
    (d.ensures_drawNormal hI rfl) hp hpi hrate hr hts hroom
  -- all snapshots are drawn, or one of their draws is given up, and then one of the sequence is
  rcases hensures s trivial with ⟨shots, s', hrun, hformed, -⟩ | ⟨e, s', hrun, rfl⟩
  · have hsequence : c.sequence d (ts.map finite) s = (.ok (.ofSnapshots shots), s') :=
      bind_of_ok hrun
    have hsort := Sequence.isTimeSort_ofSnapshots shots
    have htimes := map_time_of_formed hformed
    refine ⟨.ofSnapshots shots, shots, s', fun n hn => ?_, mapM_eq_ok_iff.1 hrun,
      ⟨?_, hsort, ?_⟩, hformed⟩
    · rw [c.extends_sequence d hn _ s hends, hsequence]
    · exact hsort.perm.length_eq.trans hformed.length_eq.symm
    · have hperm := (hsort.perm.map (·.time)).symm
      rw [htimes] at hperm
      rw [← mergeSort_map_finite]
      exact (mergeSort_totalLe_eq hperm (List.pairwise_map.2 hsort.sorted)).symm
  · have hfail : c.sequence d (ts.map finite) s = (.error .unsettledDraw, s') := bind_of_error hrun
    exact absurd (congrArg Prod.fst hfail) hends

/-- Three snapshots, two of one time, are drawn where every word is the middle one. -/
theorem sequence_formed_three :
    let _source : Source (ℕ → UInt64) := ⟨fun s => (s 0, fun i => s (i + 1))⟩
    let c : Collision (Exact ℝ) := { ofCounts 2 1 with formationRate := finite 2 }
    let d : Densities (Exact ℝ) := .standard
    let s : ℕ → UInt64 := fun _ => Densities.middle
    let ts : List ℝ := [1, 0, 1]
    ((∀ t ∈ ts, 0 ≤ t) ∧ (∀ t ∈ ts, c.HasRoom 2 t) ∧ (c.sequence d (ts.map finite)).Ends s) ∧
      ∃ (q : Sequence (Exact ℝ)) (shots : List (Snapshot (Exact ℝ))) (s' : ℕ → UInt64),
        (∀ n, d.patience ≤ n → c.sequence (d.within n) (ts.map finite) s = (.ok q, s')) ∧
        Successive (c.snapshot d) s (ts.map finite) shots s' ∧
        (q.length = 3 ∧ q.IsTimeSort shots ∧
          q.snapshots.map (·.time) = (ts.mergeSort (· ≤ ·)).map finite) ∧
        List.Forall₂ (c.Formed 2) ts shots := by
  intro _source c d s ts
  have hts : ∀ t ∈ ts, 0 ≤ t := by simp [ts]
  have hroom : ∀ t ∈ ts, c.HasRoom 2 t := by
    have hfloor : ∀ t ∈ ts, ⌊2 * t⌋ ≤ (maxStars : ℤ) := by norm_num [ts, maxStars]
    exact fun t ht => ⟨by decide, by decide, hfloor t ht⟩
  have hI : Source.Keeps fun s' => s' = s := by
    rintro _ rfl
    rfl
  have hmiddle : ∀ s' : ℕ → UInt64, s' = s → (Source.next s').1 = Densities.middle := by
    rintro _ rfl
    rfl
  have hensures := ensures_sequence (c := c) (E := fun _ => False) hI
    (Densities.ensures_drawExponential_of_middle hI hmiddle)
    (Densities.ensures_drawNormal_of_middle hI hmiddle) Real.pi_pos rfl rfl zero_le_two hts hroom
  have hends : (c.sequence d (ts.map finite)).Ends s := hensures.ends rfl
  exact ⟨⟨hts, hroom, hends⟩,
    sequence_formed c d Real.pi_pos rfl rfl zero_le_two hts hroom hends⟩

end Snapshots

end Collision

end Starfilm
