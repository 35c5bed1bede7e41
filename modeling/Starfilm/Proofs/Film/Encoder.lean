import Starfilm.Film.External
import Starfilm.Proofs.Disk.Components
import Starfilm.Proofs.Film.Pattern
import Starfilm.Proofs.Frame.Calls

/-!
# What the encoder is told

The external encoder is not given the frames. It is given a pattern in the directory of the first
one, and how many frames there are (`ExternalEncoder.assembler_of_framesDir?`).

**Main statement**: `ExternalEncoder.pattern_expands_iff`. For frames that a pass has rendered, the
pattern stands for the file of each of them exactly when there is no percent sign in the path of
their directory: the directory goes into the pattern as it is spelled, and there its percent signs
are read as fields. Up to that, the spelling of the directory does not matter, nor does the number
of digits.
-/

namespace Starfilm

namespace ExternalEncoder

/-- What comes of the end of the program. -/
def outcome (e : ExternalEncoder) (output : Path) :
    Except Disk.Fault ExitStatus → Except Failure Path
  | .error f => .error (.encoding name s!"could not run {e.program.text}: {f.message}")
  | .ok (.exited 0) => .ok output
  | .ok status => .error (.encoding name s!"exited with {status.message}")

/-- For frames in a directory the program is run once, and how it ends decides. -/
theorem assembler_of_framesDir? (e : ExternalEncoder) {frames : List Path} {dir : Path}
    (h : framesDir? frames = some dir) (output : Path) (fps : ℕ) (launch : Launcher) (d : Disk) :
    (e.assembler launch).assemble frames output fps d =
      Prod.map (e.outcome output) id
        (launch e.program (e.arguments dir frames.length output fps) d) := by
  rcases hlaunch : launch e.program (e.arguments dir frames.length output fps) d with ⟨r, d'⟩
  have hget : (get : OnDisk Disk) d = (.ok d, d) := rfl
  simp only [assembler, h]
  rw [bind_of_ok hget]
  simp only [hlaunch]
  rcases r with f | ⟨⟨⟩ | code⟩ | signal <;> rfl

/-- A frame has the percent signs of its directory. -/
theorem count_components_framePath (dir : Path) (i : ℕ) :
    (framePath dir i).components.flatten.count '%' = dir.chars.count '%' := by
  have hframe : (frameName i).count '%' = 0 :=
    List.count_eq_zero.2 (notMem_frameName rfl (by decide) i)
  rw [Path.count_components (by decide) (by decide), framePath,
    Path.chars_join_eq_front dir (isSegment_frameName i).slash_notMem, List.count_append, hframe,
    Path.count_front (by decide), Nat.add_zero]

variable {expand : ℕ → List Char → Option (List Char)}

/-- The pattern in a directory stands for the file of a frame there unless the path of the directory
has a percent sign. -/
theorem expand_join_iff (hexpand : ∀ i p t, expand i p = some t ↔ Expands i p t) (dir : Path)
    (i : ℕ) :
    (expand i (dir.join ⟨framePattern⟩).chars).map (fun t => Path.components ⟨t⟩) =
        some (framePath dir i).components ↔ '%' ∉ dir.chars := by
  have hfront : dir.front.count '%' = dir.chars.count '%' := Path.count_front (by decide) dir
  rw [Path.chars_join_eq_front dir (by decide), ← List.count_eq_zero, Option.map_eq_some_iff]
  constructor
  · rintro ⟨t, ht, hcomponents⟩
    have hcount : t.count '%' = dir.chars.count '%' := by
      rw [← count_components_framePath dir i, ← hcomponents,
        Path.count_components (by decide) (by decide)]
    have hle := ((hexpand _ _ _).1 ht).count_le_of_framePattern
    omega
  · intro hnone
    rw [← hfront, List.count_eq_zero] at hnone
    refine ⟨dir.front ++ frameName i,
      (hexpand _ _ _).2 (.append_of_notMem hnone (expands_framePattern i)), ?_⟩
    rw [← Path.chars_join_eq_front dir (isSegment_frameName i).slash_notMem]
    rfl

variable {F : Type} [DecimalText F] {render : Renderer F} {mode : ViewMode F} {w : Window F}
  {dir : Path} {frames : List (Frame F)} {d : Disk} {log : List (Event F)} {paths : List Path}
  {s : RunState F} {e : ExternalEncoder}

/-- **What the encoder is told stands for the rendered frames** exactly when the path of their
directory has no percent sign. Once a pass has rendered some frames, the program is run with a
pattern and with the number of frames. The pattern stands for the file of each frame at its number
or, when there is a percent sign, for that of none. `expand` is the encoder's own reading. -/
theorem pattern_expands_iff (hexpand : ∀ i p t, expand i p = some t ↔ Expands i p t)
    (he : e.pattern = default.pattern) (hframes : frames ≠ [])
    (h : renderFrames render mode dir w frames ⟨d, log⟩ = (.ok paths, s)) (output : Path)
    (fps : ℕ) :
    ∃ (pattern : Path) (arguments : List String),
      (∀ launch d', (e.assembler launch).assemble paths output fps d' =
        Prod.map (e.outcome output) id (launch e.program arguments d')) ∧
      ["-y", "-loglevel", "error", "-framerate", toString fps, "-i", pattern.text, "-frames:v",
        toString frames.length] <+: arguments ∧
      paths.length = frames.length ∧
      ∀ i path, paths[i]? = some path →
        ((expand i pattern.chars).map (fun t => Path.components ⟨t⟩) = some path.components ↔
          '%' ∉ dir.chars) := by
  obtain ⟨d₀, d₁, d₂, -, -, -, rfl, -⟩ := renderFrames_eq_ok_iff.1 h
  obtain ⟨q, hparent, hq⟩ := Path.exists_parent?_join dir (isSegment_frameName 0)
  have hdir : framesDir? ((frameCalls mode w dir 0 frames).map Prod.snd) = some q := by
    obtain ⟨f, fs, rfl⟩ := List.exists_cons_of_ne_nil hframes
    exact hparent
  have hlength : ((frameCalls mode w dir 0 frames).map Prod.snd).length = frames.length := by
    rw [List.length_map, length_frameCalls]
  refine ⟨q.join ⟨framePattern⟩, _, e.assembler_of_framesDir? hdir output fps, ?_, hlength,
    fun i path hpath => ?_⟩
  · rw [arguments, he, hlength]
    exact ⟨_, rfl⟩
  · rw [List.getElem?_map, getElem?_frameCalls, Option.map_map, Nat.zero_add] at hpath
    obtain ⟨f, -, rfl⟩ := Option.map_eq_some_iff.1 hpath
    have hcomponents : (framePath q i).components = (framePath dir i).components :=
      hq _ (isSegment_frameName i)
    have hcount : q.chars.count '%' = dir.chars.count '%' := by
      rw [← count_components_framePath q i, hcomponents, count_components_framePath]
    change _ = some (framePath dir i).components ↔ _
    rw [← hcomponents, expand_join_iff hexpand, ← List.count_eq_zero, hcount,
      List.count_eq_zero]

/-- Two frames in a directory whose path is spelled with idle slashes, and without percent signs:
the pattern stands for their files. -/
theorem pattern_expands_iff_spelled :
    let _text : DecimalText ℕ := ⟨fun n => toString n, fun _ n => toString n⟩
    let render : Renderer ℕ := fun _ path => OnDisk.change path fun d => d.write path (.text "")
    let frame (time : ℕ) : Frame ℕ := ⟨time, [], [], [], 0⟩
    let w : Window ℕ := ⟨0, 1, 0, 1⟩
    let dir : Path := .ofString "film//frames//"
    let d : Disk := ⟨[([], .directory)], []⟩
    let output : Path := .ofString "film.mp4"
    (∀ i p t, expand? i p = some t ↔ Expands i p t) ∧
      ∃ paths s,
        renderFrames render .faceOn dir w [frame 1, frame 2] ⟨d, []⟩ = (.ok paths, s) ∧
        ∃ (pattern : Path) (arguments : List String),
          (∀ launch d', (default.assembler launch).assemble paths output 2 d' =
            Prod.map (default.outcome output) id (launch default.program arguments d')) ∧
          ["-y", "-loglevel", "error", "-framerate", "2", "-i", pattern.text, "-frames:v",
            "2"] <+: arguments ∧
          paths.length = 2 ∧
          ∀ i path, paths[i]? = some path →
            (expand? i pattern.chars).map (fun t => Path.components ⟨t⟩) =
              some path.components := by
  intro _text render frame w dir d output
  have hok : (renderFrames render .faceOn dir w [frame 1, frame 2] ⟨d, []⟩).1.isOk = true := by
    decide +kernel
  rcases hrun : renderFrames render .faceOn dir w [frame 1, frame 2] ⟨d, []⟩ with ⟨f | paths, s⟩
  · rw [hrun] at hok
    cases hok
  · obtain ⟨pattern, arguments, hlaunch, harguments, hlength, hexpands⟩ :=
      pattern_expands_iff (e := default) (fun _ _ _ => expand?_eq_some_iff) rfl
        (List.cons_ne_nil _ _) hrun output 2
    have hdir : '%' ∉ dir.chars := by decide
    have htwo : toString 2 = "2" := rfl
    have hcount : [frame 1, frame 2].length = 2 := rfl
    rw [hcount, htwo] at harguments
    exact ⟨fun _ _ _ => expand?_eq_some_iff, paths, s, rfl, pattern, arguments, hlaunch,
      harguments, hlength, fun i path hpath => (hexpands i path hpath).2 hdir⟩

/-- A percent sign that is doubled in the name of the directory is a single one where the encoder
looks for the frames. -/
theorem pattern_not_expanding :
    let _text : DecimalText ℕ := ⟨fun n => toString n, fun _ n => toString n⟩
    let render : Renderer ℕ := fun _ path => OnDisk.change path fun d => d.write path (.text "")
    let path : Path := .ofString "50%%/frame_000.png"
    let pattern : Path := .ofString "50%%/frame_%03d.png"
    let output : Path := .ofString "film.mp4"
    (renderFrames render .faceOn (.ofString "50%%") ⟨0, 1, 0, 1⟩ [⟨1, [], [], [], 0⟩]
        ⟨⟨[([], .directory)], []⟩, []⟩).1.toOption = some [path] ∧
      (∀ launch d, (default.assembler launch).assemble [path] output 2 d =
        Prod.map (default.outcome output) id (launch default.program
          ["-y", "-loglevel", "error", "-framerate", "2", "-i", pattern.text, "-frames:v", "1",
            "-vf", "scale=trunc(iw/2)*2:trunc(ih/2)*2", "-vcodec", "libx264", "-pix_fmt",
            "yuv420p", "film.mp4"] d)) ∧
      expand? 0 pattern.chars = some "50%/frame_000.png".toList ∧
      (Path.ofString "50%/frame_000.png").components ≠ path.components := by
  intro _text render path pattern output
  have hdir : framesDir? [path] = some (.ofString "50%%") := by decide
  have harguments : default.arguments (.ofString "50%%") 1 output 2 =
      ["-y", "-loglevel", "error", "-framerate", "2", "-i", pattern.text, "-frames:v", "1", "-vf",
        "scale=trunc(iw/2)*2:trunc(ih/2)*2", "-vcodec", "libx264", "-pix_fmt", "yuv420p",
        "film.mp4"] := by decide
  have hlaunch := default.assembler_of_framesDir? hdir output 2
  rw [List.length_singleton, harguments] at hlaunch
  exact ⟨by decide +kernel, hlaunch, by decide, by decide⟩

end ExternalEncoder

end Starfilm
