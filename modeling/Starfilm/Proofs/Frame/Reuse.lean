import Starfilm.Proofs.Frame.Directory

/-!
# A directory that is used again

What a pass leaves in its directory does not depend on what earlier ones left there. Under the names
of frames there are its own pictures and no others, the index is its own, and beside these files
everything is as it was (`Shows`).

Renderers write the file that they are given (`WritesItsFile`). To compare two passes it is also
asked that the request decides what they draw (`Depicts`), as it does for the renderer of a look
(`Look.renderer_depicts`).

**Main statement**: `renderFrames_shows`.
-/

namespace Starfilm

open Disk

variable {F : Type}

/-! ## What renderers write -/

/-- When the renderer succeeds, it has written the file that it was given, and nothing else has
changed. -/
def WritesItsFile (render : Renderer F) : Prop :=
  ∀ request path d e, render request path d = (.ok (), e) → ∃ c, d.write path c = .ok e

/-- The request decides what the renderer draws, if anything. It succeeds exactly when there is such
a picture and it can be written. -/
def Depicts (render : Renderer F) (picture : FrameRequest F → Path → Option Content) : Prop :=
  ∀ request path d e, render request path d = (.ok (), e) ↔
    ∃ c, picture request path = some c ∧ d.write path c = .ok e

theorem Depicts.writesItsFile {render : Renderer F}
    {picture : FrameRequest F → Path → Option Content} (h : Depicts render picture) :
    WritesItsFile render := fun request path d e hok => by
  obtain ⟨c, -, hwrite⟩ := (h request path d e).1 hok
  exact ⟨c, hwrite⟩

theorem saveImage_eq_ok_iff {i : Image} {path : Path} {d e : Disk} :
    saveImage i path d = (.ok (), e) ↔
      (i.width ≠ 0 ∧ i.height ≠ 0) ∧ d.write path (.picture i) = .ok e := by
  have hget : (get : OnDisk Disk) d = (.ok d, d) := rfl
  rw [saveImage, bind_of_ok hget]
  cases hempty : d.write path (.text "") with
  | error f =>
    refine iff_of_false (fun h => by cases h) fun ⟨_, hwrite⟩ => ?_
    obtain ⟨e₀, h⟩ := exists_write_empty hwrite
    cases hempty.symm.trans h
  | ok emptied =>
    by_cases hpixels : i.width = 0 ∨ i.height = 0
    · have hnone : (i.width = 0 || i.height = 0) = true := by simpa using hpixels
      simp only [hnone, if_true]
      exact iff_of_false (fun h => by cases h) fun h => hpixels.elim h.1.1 h.1.2
    · have hsome : (i.width = 0 || i.height = 0) = false := by simpa using hpixels
      simp only [hsome, Bool.false_eq_true, if_false, write_write hempty]
      rw [and_iff_right (not_or.1 hpixels)]
      cases d.write path (.picture i) with
      | error f => exact iff_of_false (fun h => by cases h) fun h => by cases h
      | ok e' =>
        constructor
        · intro h
          cases h
          rfl
        · intro h
          cases h
          rfl

/-- The picture of a look, if it can be drawn and has pixels. -/
def Look.picture? {G : Type} [Arith F] [Arith G] (l : Look G) (request : FrameRequest F) :
    Option Content :=
  match l.draw request.window request.frame with
  | .ok i => if i.width = 0 || i.height = 0 then none else some (.picture i)
  | .error _ => none

/-- The renderer that draws frames as a look has them writes what the request decides. -/
theorem Look.renderer_depicts {G : Type} [Arith F] [Arith G] (l : Look G) :
    Depicts (l.renderer (F := F)) fun request _ => l.picture? request := by
  intro request path d e
  unfold Look.renderer Look.picture?
  cases hdraw : l.draw request.window request.frame with
  | error f =>
    rw [bind_of_error (lift_apply rfl d)]
    simp only [hdraw]
    exact iff_of_false (fun h => by cases h) fun ⟨c, hc, _⟩ => by cases hc
  | ok i =>
    rw [bind_of_ok (lift_apply rfl d), saveImage_eq_ok_iff]
    simp only [hdraw, Bool.or_eq_true, decide_eq_true_eq]
    split_ifs with hpixels
    · exact iff_of_false (fun h => hpixels.elim h.1.1 h.1.2) fun ⟨c, hc, _⟩ => by cases hc
    · rw [and_iff_right (not_or.1 hpixels)]
      exact ⟨fun h => ⟨_, rfl, h⟩, fun ⟨c, hc, h⟩ => Option.some.inj hc ▸ h⟩

/-- These calls succeed one after another, and these pictures are what they write. -/
inductive Painted (render : Renderer F) : List (FrameCall F) → List Content → Disk → Disk → Prop
  | nil (d : Disk) : Painted render [] [] d d
  | cons {c : FrameCall F} {cs : List (FrameCall F)} {picture : Content} {pictures : List Content}
      {d d₁ d₂ : Disk} (h : render c.1 c.2 d = (.ok (), d₁)) (hw : d.write c.2 picture = .ok d₁)
      (hs : Painted render cs pictures d₁ d₂) :
      Painted render (c :: cs) (picture :: pictures) d d₂

section Painting

variable {render : Renderer F} {cs : List (FrameCall F)} {d e : Disk}

theorem Rendered.painted (hw : WritesItsFile render) (h : Rendered render cs d e) :
    ∃ pictures, Painted render cs pictures d e := by
  induction h with
  | nil d => exact ⟨[], .nil d⟩
  | cons hc _ ih =>
    obtain ⟨picture, hwrite⟩ := hw _ _ _ _ hc
    obtain ⟨pictures, hs⟩ := ih
    exact ⟨picture :: pictures, .cons hc hwrite hs⟩

theorem Rendered.painted_of_depicts {picture : FrameRequest F → Path → Option Content}
    (hdepicts : Depicts render picture) (h : Rendered render cs d e) :
    ∃ pictures, Painted render cs pictures d e ∧
      pictures.map some = cs.map fun c => picture c.1 c.2 := by
  induction h with
  | nil d => exact ⟨[], .nil d, rfl⟩
  | cons hc _ ih =>
    obtain ⟨c, hpicture, hwrite⟩ := (hdepicts _ _ _ _).1 hc
    obtain ⟨pictures, hs, heq⟩ := ih
    exact ⟨c :: pictures, .cons hc hwrite hs, by rw [List.map_cons, List.map_cons, heq, hpicture]⟩

end Painting

/-! ## The files of the frames -/

section Frames

variable [DecimalText F] {render : Renderer F} {mode : ViewMode F} {w : Window F} {dir : Path}
  {place : Place} {d e : Disk}

theorem isShown_frameName (i : ℕ) : IsShown (frameName i) := .inl (frameNamed_frameName i)

/-- Call `k` leaves its picture under the name of its frame, and no other file is touched. -/
theorem Painted.spec (hr : Ready dir place d) {fs : List (Frame F)} {i : ℕ}
    {pictures : List Content} (h : Painted render (frameCalls mode w dir i fs) pictures d e) :
    pictures.length = fs.length ∧ Touched place d e ∧
      (∀ k c, pictures[k]? = some c → e.fileAt (frameName (i + k) :: place) = some c) ∧
      ∀ q, (∀ k < pictures.length, q ≠ frameName (i + k) :: place) → e.fileAt q = d.fileAt q := by
  induction fs generalizing i d pictures with
  | nil =>
    cases h
    exact ⟨rfl, .refl, fun k c hk => by simp at hk, fun _ _ => rfl⟩
  | cons f fs ih =>
    cases h with
    | @cons _ _ picture pictures _ d₁ _ hc hw hs =>
      have hstep := Touch.of_write hr (isShown_frameName i) (isSegment_frameName i) hw
      obtain ⟨-, -, rfl⟩ := (write_join_eq_ok_iff hr.find (isSegment_frameName i) hr.plain).1 hw
      obtain ⟨hlength, htouched, hframes, hother⟩ := ih (hstep.ready hr) hs
      refine ⟨by simp [hlength], .head hstep htouched, fun k c hk => ?_, fun q hq => ?_⟩
      · cases k with
        | zero =>
          rw [Nat.add_zero, hother, fileAt_put_file, if_pos rfl]
          · exact hk
          · intro k _ heq
            have := frameName_injective (List.cons.inj heq).1
            omega
        | succ k =>
          rw [← Nat.add_assoc, Nat.add_right_comm]
          exact hframes k c hk
      · rw [hother q fun k hk => ?_, fileAt_put_file, if_neg]
        · exact hq 0 (Nat.succ_pos _)
        · rw [Nat.add_right_comm]
          exact hq (k + 1) (Nat.succ_lt_succ hk)

/-- What can be drawn from one disk can be drawn from another that differs only in the files of the
pass. -/
theorem Rendered.transfer {picture : FrameRequest F → Path → Option Content}
    (hdepicts : Depicts render picture) {fs : List (Frame F)} {i : ℕ} {d' : Disk}
    (hr : Ready dir place d) (hr' : Ready dir place e) (hsame : SameBeside place d e)
    (h : Rendered render (frameCalls mode w dir i fs) d d') :
    ∃ e', Rendered render (frameCalls mode w dir i fs) e e' ∧ Ready dir place d' ∧
      Ready dir place e' ∧ SameBeside place d' e' := by
  induction fs generalizing i d e with
  | nil =>
    cases h
    exact ⟨e, .nil e, hr, hr', hsame⟩
  | cons f fs ih =>
    cases h with
    | @cons _ _ _ d₁ _ hc hs =>
      obtain ⟨c, hpicture, hwrite⟩ := (hdepicts _ _ _ _).1 hc
      obtain ⟨e₁, hwrite'⟩ :=
        exists_write hr hr' hsame.toSameDirectories (isSegment_frameName i) hwrite
      have hstep := Touch.of_write hr (isShown_frameName i) (isSegment_frameName i) hwrite
      have hstep' := Touch.of_write hr' (isShown_frameName i) (isSegment_frameName i) hwrite'
      have hsame' : SameBeside place d₁ e₁ :=
        (hstep.sameBeside.symm.trans hsame).trans hstep'.sameBeside
      obtain ⟨e', hs', hr₁, hr₂, hsame''⟩ := ih (hstep.ready hr) (hstep'.ready hr') hsame' hs
      exact ⟨e', .cons ((hdepicts _ _ _ _).2 ⟨c, hpicture, hwrite'⟩) hs', hr₁, hr₂, hsame''⟩

end Frames

/-! ## Passes -/

/-- A tree in which nothing but files and directories is where a path leads to. -/
structure Ordinary (dir : Path) (d : Disk) : Prop where
  tree : d.IsTree
  plain : d.Plain (d.destination dir)

/-- The disk `e` has these pictures as the frames of a directory, and no other frames, this text as
its index, and all else from the disk `d`. -/
structure Shows (place : Place) (pictures : List Content) (index : String) (d e : Disk) : Prop
    extends SameBeside place d e where
  frames (n : Name) (c : Content) : FrameNamed n →
    (e.fileAt (n :: place) = some c ↔ ∃ i, n = frameName i ∧ pictures[i]? = some c)
  index : e.fileAt (indexName :: place) = some (.text index)

section Passes

variable [DecimalText F] {render : Renderer F} {mode : ViewMode F} {w : Window F} {dir : Path}
  {frames : List (Frame F)} {d e : Disk}

variable (render mode w dir frames d e) in
/-- The way of a pass that ends well: the directory is made, cleared and filled, and then the index
is written. -/
structure Pass (base cleared painted : Disk) : Prop where
  made : createDirectories dir d = (.ok (), base)
  prepared : prepareFrames dir d = (.ok (), cleared)
  rendered : Rendered render (frameCalls mode w dir 0 frames) cleared painted
  indexed : painted.write (indexPath dir) (.text (FrameIndex.text
    ((frameCalls mode w dir 0 frames).map FrameCall.record))) = .ok e

namespace Pass

variable {place : Place} {base cleared painted : Disk}
  (h : Pass render mode w dir frames d e base cleared painted)

include h

/-- On an ordinary disk making the directory gets it ready, and adds directories only. -/
theorem ready (ho : Ordinary dir d) :
    Ready dir (d.destination dir) base ∧ Grows d base ∧ (d.isDirectory dir = true → base = d) := by
  obtain ⟨htree, hgrows⟩ := createDirectories_grows ho.tree dir
  rw [h.made] at htree hgrows
  obtain ⟨made, names, hmade, hlist, -⟩ := prepareFrames_eq_ok_iff.1 h.prepared
  obtain rfl : base = made := (Prod.mk.inj (h.made.symm.trans hmade)).2
  obtain ⟨q, hfind, -⟩ := list_eq_ok_iff.1 hlist
  have hq := eq_destination (find_eq_ok_iff.1 hfind).1
  rw [destination_of_here hgrows.here] at hq
  subst hq
  refine ⟨⟨htree, hfind, fun n x hx => ?_⟩, hgrows, fun hdir => ?_⟩
  · rcases hgrows.node? (n :: d.destination dir) with hsame | ⟨-, hnew⟩
    · exact ho.plain n x (hsame ▸ hx)
    · exact .inl (Option.some.inj (hx.symm.trans hnew))
  · exact (Prod.mk.inj (h.made.symm.trans (createDirectories_of_isDirectory hdir))).2

/-- The directory is cleared of the frames of earlier passes. -/
theorem clear (hr : Ready dir place base) :
    Touched place base cleared ∧
      ∀ n, isFrameName n = true → cleared.fileAt (n :: place) = none := by
  obtain ⟨c, hprepared, htouched, hgone⟩ := prepareFrames_of_ready h.made hr
  obtain rfl : cleared = c := (Prod.mk.inj (h.prepared.symm.trans hprepared)).2
  exact ⟨htouched, hgone⟩

/-- The index is the last file that is touched. -/
theorem touch_index (hr : Ready dir place painted) : Touch place painted e :=
  .of_write hr (.inr rfl) isProper_indexName.toIsSegment h.indexed

/-- **What a pass leaves** are its pictures and its index. -/
theorem shows (hr : Ready dir place base) {pictures : List Content}
    (hpainted : Painted render (frameCalls mode w dir 0 frames) pictures cleared painted) :
    pictures.length = frames.length ∧ Ready dir place e ∧
      Shows place pictures (FrameIndex.text
        ((frameCalls mode w dir 0 frames).map FrameCall.record)) base e := by
  obtain ⟨hcleared, hgone⟩ := h.clear hr
  have hr₀ := hcleared.ready hr
  obtain ⟨hlength, htouched, hframes, hother⟩ := hpainted.spec hr₀
  have hr₁ := htouched.ready hr₀
  have hstep := h.touch_index hr₁
  obtain ⟨-, -, he⟩ :=
    (write_join_eq_ok_iff hr₁.find isProper_indexName.toIsSegment hr₁.plain).1 h.indexed
  refine ⟨hlength, hstep.ready hr₁, ⟨?_, fun n c hn => ?_, ?_⟩⟩
  · exact (hcleared.sameBeside.trans htouched.sameBeside).trans hstep.sameBeside
  · have hframe := (isFrameName_iff n).2 hn
    have hne : n :: place ≠ indexName :: place := fun heq => by
      rw [(List.cons.inj heq).1, isFrameName_indexName] at hframe
      cases hframe
    rw [he, fileAt_put_file, if_neg hne]
    constructor
    · intro hc
      by_cases hk : ∃ k < pictures.length, n = frameName k
      · obtain ⟨k, hk, rfl⟩ := hk
        have hpicture := List.getElem?_eq_getElem hk
        have hthere := hframes k _ hpicture
        rw [Nat.zero_add, hc] at hthere
        exact ⟨k, rfl, hpicture.trans hthere.symm⟩
      · rw [hother _ fun k hlt heq => hk ⟨k, hlt, ?_⟩, hgone n hframe] at hc
        · cases hc
        · rw [(List.cons.inj heq).1, Nat.zero_add]
    · rintro ⟨k, rfl, hpicture⟩
      have hthere := hframes k c hpicture
      rwa [Nat.zero_add] at hthere
  · rw [he, fileAt_put_file, if_pos rfl]

/-- A pass whose pictures are decided by its requests ends well also from a disk that differs only
in the files of the pass. -/
theorem transfer {picture : FrameRequest F → Path → Option Content}
    (hdepicts : Depicts render picture) (hr : Ready dir place base) {d' base' : Disk}
    (hmade' : createDirectories dir d' = (.ok (), base')) (hr' : Ready dir place base')
    (hsame : SameBeside place base base') :
    ∃ e' cleared' painted', Pass render mode w dir frames d' e' base' cleared' painted' := by
  obtain ⟨hcleared, -⟩ := h.clear hr
  obtain ⟨cleared', hprepared', hcleared', -⟩ := prepareFrames_of_ready hmade' hr'
  have hsame' : SameBeside place cleared cleared' :=
    (hcleared.sameBeside.symm.trans hsame).trans hcleared'.sameBeside
  obtain ⟨painted', hrendered', hr₁, hr₁', hsame''⟩ :=
    h.rendered.transfer hdepicts (hcleared.ready hr) (hcleared'.ready hr') hsame'
  obtain ⟨e', hindexed'⟩ := exists_write hr₁ hr₁' hsame''.toSameDirectories
    isProper_indexName.toIsSegment h.indexed
  exact ⟨e', cleared', painted', hmade', hprepared', hrendered', hindexed'⟩

end Pass

/-- A pass over frames ends well, and this is the disk then. -/
def EndsOn (render : Renderer F) (mode : ViewMode F) (w : Window F) (dir : Path)
    (frames : List (Frame F)) (log : List (Event F)) (d e : Disk) : Prop :=
  ∃ paths log', renderFrames render mode dir w frames ⟨d, log⟩ = (.ok paths, ⟨e, log'⟩)

theorem endsOn_iff {log : List (Event F)} :
    EndsOn render mode w dir frames log d e ↔
      ∃ base cleared painted, Pass render mode w dir frames d e base cleared painted := by
  constructor
  · rintro ⟨paths, log', h⟩
    obtain ⟨cleared, painted, e', hprepared, hrendered, hindexed, -, hs⟩ :=
      renderFrames_eq_ok_iff.1 h
    obtain ⟨rfl, -⟩ := RunState.mk.inj hs
    obtain ⟨base, -, hmade, -, -⟩ := prepareFrames_eq_ok_iff.1 hprepared
    exact ⟨base, cleared, painted, hmade, hprepared, hrendered, hindexed⟩
  · rintro ⟨base, cleared, painted, h⟩
    exact ⟨_, _, renderFrames_eq_ok_iff.2
      ⟨cleared, painted, e, h.prepared, h.rendered, h.indexed, rfl, rfl⟩⟩

/-- What is ready is ordinary. -/
theorem Ready.ordinary {place : Place} (hr : Ready dir place d) : Ordinary dir d :=
  ⟨hr.tree, eq_destination (find_eq_ok_iff.1 hr.find).1 ▸ hr.plain⟩

/-- The frames that are shown are named by their pictures' indices. -/
theorem Shows.isSome_iff {place : Place} {pictures : List Content} {index : String}
    (h : Shows place pictures index d e) {n : Name} (hn : FrameNamed n) :
    (e.fileAt (n :: place)).isSome ↔ ∃ i < pictures.length, n = frameName i := by
  simp only [Option.isSome_iff_exists, h.frames n _ hn]
  constructor
  · rintro ⟨c, i, rfl, hpicture⟩
    exact ⟨i, (List.getElem?_eq_some_iff.1 hpicture).1, rfl⟩
  · rintro ⟨i, hi, rfl⟩
    exact ⟨_, i, rfl, List.getElem?_eq_getElem hi⟩

/-- Two disks that show the same hold the same under the names of frames and of the index. -/
theorem Shows.fileAt_eq {place place' : Place} {pictures : List Content} {index : String}
    {d' e' : Disk} (h : Shows place pictures index d e) (h' : Shows place' pictures index d' e')
    {n : Name} (hn : IsShown n) : e.fileAt (n :: place) = e'.fileAt (n :: place') := by
  rcases hn with hn | rfl
  · refine Option.ext fun c => ?_
    rw [h.frames n c hn, h'.frames n c hn]
  · rw [h.index, h'.index]

namespace EndsOn

variable {d' e' : Disk} {log log' : List (Event F)}

theorem shows (hends : EndsOn render mode w dir frames log d e) (hw : WritesItsFile render)
    (ho : Ordinary dir d) :
    ∃ base cleared painted pictures, Pass render mode w dir frames d e base cleared painted ∧
      Painted render (frameCalls mode w dir 0 frames) pictures cleared painted ∧
      pictures.length = frames.length ∧ Ready dir (d.destination dir) e ∧
      Shows (d.destination dir) pictures
        (FrameIndex.text ((frameCalls mode w dir 0 frames).map FrameCall.record)) base e := by
  obtain ⟨base, cleared, painted, h⟩ := endsOn_iff.1 hends
  obtain ⟨pictures, hpainted⟩ := h.rendered.painted hw
  exact ⟨base, cleared, painted, pictures, h, hpainted, h.shows (h.ready ho).1 hpainted⟩

/-- The same pass leaves the same frames and the same index. -/
theorem same_frames (hends : EndsOn render mode w dir frames log d e) (hw : WritesItsFile render)
    (ho : Ordinary dir d) (ho' : Ordinary dir d')
    (hends' : EndsOn render mode w dir frames log' d' e') :
    (∀ n, FrameNamed n → ((e.fileAt (n :: d.destination dir)).isSome ↔
      (e'.fileAt (n :: d'.destination dir)).isSome)) ∧
      e.fileAt (indexName :: d.destination dir) = e'.fileAt (indexName :: d'.destination dir) := by
  obtain ⟨_, _, _, pictures, -, -, hlength, -, hs⟩ := hends.shows hw ho
  obtain ⟨_, _, _, pictures', -, -, hlength', -, hs'⟩ := hends'.shows hw ho'
  refine ⟨fun n hn => ?_, by rw [hs.index, hs'.index]⟩
  rw [hs.isSome_iff hn, hs'.isSome_iff hn, hlength, hlength']

/-- The same pass leaves the same pictures when its requests decide them. -/
theorem same_pictures (hends : EndsOn render mode w dir frames log d e)
    {picture : FrameRequest F → Path → Option Content} (hdepicts : Depicts render picture)
    (ho : Ordinary dir d) (ho' : Ordinary dir d')
    (hends' : EndsOn render mode w dir frames log' d' e') {n : Name} (hn : IsShown n) :
    e.fileAt (n :: d.destination dir) = e'.fileAt (n :: d'.destination dir) := by
  obtain ⟨base, cleared, painted, h⟩ := endsOn_iff.1 hends
  obtain ⟨base', cleared', painted', h'⟩ := endsOn_iff.1 hends'
  obtain ⟨pictures, hpainted, heq⟩ := h.rendered.painted_of_depicts hdepicts
  obtain ⟨pictures', hpainted', heq'⟩ := h'.rendered.painted_of_depicts hdepicts
  obtain rfl : pictures = pictures' :=
    List.map_injective_iff.2 (fun _ _ => Option.some.inj) (heq.trans heq'.symm)
  exact (h.shows (h.ready ho).1 hpainted).2.2.fileAt_eq (h'.shows (h'.ready ho').1 hpainted').2.2 hn

/-- A pass whose requests decide its pictures ends well after another pass exactly when it ends well
without it. -/
theorem ends_after_iff {first : Renderer F} {mode' : ViewMode F} {w' : Window F}
    {frames' : List (Frame F)} (hends : EndsOn first mode' w' dir frames' log d e)
    (hfirst : WritesItsFile first) (ho : Ordinary dir d)
    {picture : FrameRequest F → Path → Option Content} (hdepicts : Depicts render picture) :
    (∃ e', EndsOn render mode w dir frames log' e e') ↔
      ∃ e', EndsOn render mode w dir frames log' d e' := by
  obtain ⟨base, cleared, painted, pictures, h, -, -, hr', hshows⟩ := hends.shows hfirst ho
  have hr := (h.ready ho).1
  have hmade : createDirectories dir e = (.ok (), e) :=
    createDirectories_of_isDirectory (isDirectory_iff.2 ⟨_, hr'.find⟩)
  constructor
  · rintro ⟨e', hends'⟩
    obtain ⟨base', cleared', painted', h'⟩ := endsOn_iff.1 hends'
    obtain rfl : e = base' := (Prod.mk.inj (hmade.symm.trans h'.made)).2
    obtain ⟨e'', cleared'', painted'', h''⟩ :=
      h'.transfer hdepicts hr' h.made hr hshows.toSameBeside.symm
    exact ⟨e'', endsOn_iff.2 ⟨base, cleared'', painted'', h''⟩⟩
  · rintro ⟨e', hends'⟩
    obtain ⟨base', cleared', painted', h'⟩ := endsOn_iff.1 hends'
    obtain rfl : base = base' := (Prod.mk.inj (h.made.symm.trans h'.made)).2
    obtain ⟨e'', cleared'', painted'', h''⟩ :=
      h'.transfer hdepicts hr hmade hr' hshows.toSameBeside
    exact ⟨e'', endsOn_iff.2 ⟨e, cleared'', painted'', h''⟩⟩

end EndsOn

variable (render mode w dir frames)

/-- **A directory that is used again shows the last pass only.** Frames have different names. When a
pass ends well, there are no other frames in the directory than its own, each with the picture that
the renderer wrote for it in this pass; the index is its own, and everything else is as it was when
the directory had been made, which changes nothing where there is one. So the same pass leaves the
same frames and the same index wherever it ends well, and the same pictures when the request decides
them. And whether such a pass ends well does not depend on a pass before it. -/
theorem renderFrames_shows :
    Function.Injective frameName ∧
      (WritesItsFile render →
        (∀ d e log, Ordinary dir d → EndsOn render mode w dir frames log d e →
          let calls := frameCalls mode w dir 0 frames
          ∃ base cleared painted pictures,
            (createDirectories dir d = (.ok (), base) ∧ Grows d base ∧
                (d.isDirectory dir = true → base = d)) ∧
              (prepareFrames dir d = (.ok (), cleared) ∧
                Painted render calls pictures cleared painted) ∧
              pictures.length = frames.length ∧
              Shows (d.destination dir) pictures (FrameIndex.text (calls.map FrameCall.record))
                base e ∧
              Ordinary dir e) ∧
        ∀ d d' e e' log log', Ordinary dir d → Ordinary dir d' →
          EndsOn render mode w dir frames log d e → EndsOn render mode w dir frames log' d' e' →
            (∀ n, FrameNamed n → ((e.fileAt (n :: d.destination dir)).isSome ↔
              (e'.fileAt (n :: d'.destination dir)).isSome)) ∧
              e.fileAt (indexName :: d.destination dir) =
                e'.fileAt (indexName :: d'.destination dir)) ∧
      ∀ picture, Depicts render picture →
        (∀ d d' e e' log log', Ordinary dir d → Ordinary dir d' →
          EndsOn render mode w dir frames log d e → EndsOn render mode w dir frames log' d' e' →
            ∀ n, IsShown n →
              e.fileAt (n :: d.destination dir) = e'.fileAt (n :: d'.destination dir)) ∧
        ∀ (first : Renderer F) mode' w' frames' d e log log', WritesItsFile first →
          Ordinary dir d → EndsOn first mode' w' dir frames' log d e →
            ((∃ e', EndsOn render mode w dir frames log' e e') ↔
              ∃ e', EndsOn render mode w dir frames log' d e') := by
  refine ⟨frameName_injective, fun hw => ⟨fun d e log ho hends => ?_, ?_⟩,
    fun picture hdepicts => ⟨?_, ?_⟩⟩
  · obtain ⟨base, cleared, painted, pictures, h, hpainted, hlength, hr, hs⟩ := hends.shows hw ho
    exact ⟨base, cleared, painted, pictures, ⟨h.made, (h.ready ho).2⟩, ⟨h.prepared, hpainted⟩,
      hlength, hs, hr.ordinary⟩
  · exact fun _ _ _ _ _ _ ho ho' hends hends' => hends.same_frames hw ho ho' hends'
  · exact fun _ _ _ _ _ _ ho ho' hends hends' _ hn => hends.same_pictures hdepicts ho ho' hends' hn
  · exact fun _ _ _ _ _ _ _ _ hfirst ho hends => hends.ends_after_iff hfirst ho hdepicts

end Passes

/-- Two passes, one after the other, in a directory with an old frame and a file of another kind.
The second has fewer frames. -/
theorem renderFrames_shows_twice :
    let _text : DecimalText ℕ := ⟨fun n => toString n, fun _ n => toString n⟩
    let render (word : String) : Renderer ℕ := fun _ path =>
      OnDisk.change path fun d => d.write path (.text word)
    let frame (time : ℕ) : Frame ℕ := ⟨time, [], [], [], 0⟩
    let w : Window ℕ := ⟨0, 1, 0, 1⟩
    let dir : Path := .ofString "frames"
    let place : Place := ["frames".toList]
    let d : Disk :=
      ⟨[([], .directory), (place, .directory), (frameName 7 :: place, .file (.text "old") false),
        ("notes".toList :: place, .file (.text "mine") false)], []⟩
    let e := (renderFrames (render "first") .faceOn dir w [frame 1, frame 2] ⟨d, []⟩).2.disk
    let e' := (renderFrames (render "second") .edgeOn dir w [frame 3] ⟨e, []⟩).2.disk
    let index := FrameIndex.text ((frameCalls .edgeOn w dir 0 [frame 3]).map FrameCall.record)
    ((WritesItsFile (render "first") ∧
        Depicts (render "second") fun _ _ => some (.text "second")) ∧
      (Ordinary dir d ∧ Ordinary dir e) ∧
      EndsOn (render "first") .faceOn w dir [frame 1, frame 2] [] d e ∧
      EndsOn (render "second") .edgeOn w dir [frame 3] [] e e') ∧
      (∃ pictures, pictures.length = 1 ∧ Shows place pictures index e e') ∧
      ∃ e'', EndsOn (render "second") .edgeOn w dir [frame 3] [] d e'' ∧
        ∀ n, IsShown n → e'.fileAt (n :: place) = e''.fileAt (n :: place) := by
  intro _text render frame w dir place d e e' index
  have hdepicts (word : String) : Depicts (render word) fun _ _ => some (.text word) := by
    intro request path d e
    change OnDisk.change path (fun d => d.write path (.text word)) d = _ ↔ _
    rw [OnDisk.change_eq_ok_iff]
    exact ⟨fun h => ⟨_, rfl, h⟩, fun ⟨c, hc, h⟩ => Option.some.inj hc ▸ h⟩
  have hends {render : Renderer ℕ} {mode : ViewMode ℕ} {frames : List (Frame ℕ)} {d : Disk}
      (h : (renderFrames render mode dir w frames ⟨d, []⟩).1.isOk = true) :
      EndsOn render mode w dir frames [] d
        (renderFrames render mode dir w frames ⟨d, []⟩).2.disk := by
    rcases hrun : renderFrames render mode dir w frames ⟨d, []⟩ with ⟨f | paths, s⟩
    · rw [hrun] at h
      cases h
    · exact ⟨paths, s.log, hrun⟩
  have hd : Ordinary dir d :=
    ⟨isTree_of_entries (by decide) (by decide), plain_of_entries (by decide) _⟩
  have hfirst : EndsOn (render "first") .faceOn w dir [frame 1, frame 2] [] d e :=
    hends (by decide +kernel)
  have hsecond : EndsOn (render "second") .edgeOn w dir [frame 3] [] e e' :=
    hends (by decide +kernel)
  obtain ⟨-, -, -, -, -, -, -, -, he⟩ :=
    ((renderFrames_shows (render "first") .faceOn w dir [frame 1, frame 2]).2.1
      (hdepicts "first").writesItsFile).1 d e [] hd hfirst
  obtain ⟨-, hleaves, halone⟩ := renderFrames_shows (render "second") .edgeOn w dir [frame 3]
  obtain ⟨base, -, -, pictures, ⟨-, -, hbase⟩, -, hlength, hshows, -⟩ :=
    (hleaves (hdepicts "second").writesItsFile).1 e e' [] he hsecond
  have hplace : d.destination dir = place := by decide
  have hplace' : e.destination dir = place := by decide +kernel
  have hdir : e.isDirectory dir = true := by decide +kernel
  rw [hbase hdir, hplace'] at hshows
  obtain ⟨hsame, hafter⟩ := halone _ (hdepicts "second")
  obtain ⟨e'', hthird⟩ := (hafter (render "first") .faceOn w [frame 1, frame 2] d e [] []
    (hdepicts "first").writesItsFile hd hfirst).1 ⟨e', hsecond⟩
  have hfiles (n : Name) (hn : IsShown n) : e'.fileAt (n :: place) = e''.fileAt (n :: place) := by
    have := hsame e d e' e'' [] [] he hd hsecond hthird n hn
    rwa [hplace, hplace'] at this
  exact ⟨⟨⟨(hdepicts "first").writesItsFile, hdepicts "second"⟩, ⟨hd, he⟩, hfirst, hsecond⟩,
    ⟨pictures, hlength, hshows⟩, e'', hthird, hfiles⟩

end Starfilm
