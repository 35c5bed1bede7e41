import Starfilm.Proofs.View.Points
import Starfilm.Proofs.Window.Pooling
import Starfilm.Render

/-!
# What is seen

The window of a run is made from the finite points at which particles of its snapshots are seen
(`mem_pool_frames`). There is one exactly when there is such a point: `window_of_seesPoint`,
`window_of_not_seesPoint`.
-/

namespace Starfilm

variable {F : Type} [Arith F] [Elementary F] (s : Settings F)

/-- Some particle of these snapshots is seen at a point with two finite coordinates. -/
def Settings.SeesPoint (snapshots : List (Snapshot F)) : Prop :=
  ∃ t ∈ snapshots, ∃ c, ∃ p ∈ s.mode.transform.project (t.positions c), p.isFinite = true

/-- The points that are pooled for a window are the finite ones at which particles are seen. -/
theorem mem_pool_frames {snapshots : List (Snapshot F)} {p : Point F} :
    p ∈ pool ((s.frames (.ofSnapshots snapshots)).flatMap Frame.pointSets) ↔
      (∃ t ∈ snapshots, ∃ c, p ∈ s.mode.transform.project (t.positions c)) ∧
        p.isFinite = true := by
  have hpoints (t : Snapshot F) (c : ParticleClass) :
      (Frame.ofSnapshot s.mode.transform t).points c =
        s.mode.transform.project (t.positions c) := by
    cases c <;> rfl
  have hall (c : ParticleClass) : c ∈ ParticleClass.all := by cases c <;> decide
  rw [pool, List.mem_filter, List.mem_flatten]
  refine and_congr_left fun _ => ⟨?_, ?_⟩
  · rintro ⟨ps, hps, hp⟩
    obtain ⟨f, hf, hps⟩ := List.mem_flatMap.1 hps
    obtain ⟨c, -, rfl⟩ := List.mem_map.1 hps
    obtain ⟨t, ht, rfl⟩ := List.mem_map.1 hf
    exact ⟨t, List.mem_mergeSort.1 ht, c, by rwa [← hpoints]⟩
  · rintro ⟨t, ht, c, hp⟩
    refine ⟨_, List.mem_flatMap.2 ⟨_, List.mem_map.2 ⟨t, List.mem_mergeSort.2 ht, rfl⟩,
      List.mem_map.2 ⟨c, hall c, rfl⟩⟩, ?_⟩
    rwa [hpoints]

theorem pool_frames_eq_nil_iff (snapshots : List (Snapshot F)) :
    pool ((s.frames (.ofSnapshots snapshots)).flatMap Frame.pointSets) = [] ↔
      ¬s.SeesPoint snapshots := by
  rw [List.eq_nil_iff_forall_not_mem]
  simp only [mem_pool_frames, Settings.SeesPoint]
  constructor
  · rintro h ⟨t, ht, c, p, hp, hfinite⟩
    exact h p ⟨⟨t, ht, c, hp⟩, hfinite⟩
  · rintro h p ⟨⟨t, ht, c, hp⟩, hfinite⟩
    exact h ⟨t, ht, c, p, hp, hfinite⟩

variable {s} {snapshots : List (Snapshot F)}

/-- A view that keeps two coordinates sees every finite particle. -/
theorem Settings.seesPoint_of_keep {a b : Axis} (hs : s.mode.transform = .keep a b)
    (hp : ∃ t ∈ snapshots, ∃ c, ∃ p ∈ t.positions c, p.isFinite = true) :
    s.SeesPoint snapshots := by
  obtain ⟨t, ht, c, p, hmem, hfinite⟩ := hp
  refine ⟨t, ht, c, (Transform.keep a b).point p, ?_, Transform.isFinite_point_keep hfinite a b⟩
  rw [hs, Transform.project_eq_map]
  exact List.mem_map_of_mem hmem

theorem window_of_not_seesPoint (h : ¬s.SeesPoint snapshots) :
    s.window (s.frames (.ofSnapshots snapshots)) = .error .nothingToFrame :=
  estimate_of_pool_eq_nil _ _ ((pool_frames_eq_nil_iff s snapshots).2 h)

theorem window_of_seesPoint (h : s.SeesPoint snapshots) :
    ∃ w, s.window (s.frames (.ofSnapshots snapshots)) = .ok w :=
  ⟨_, estimate_of_pool_ne_nil _ _ fun hnil => (pool_frames_eq_nil_iff s snapshots).1 hnil h⟩

end Starfilm
