import Mathlib.Logic.Basic
import Starfilm.Proofs.CommandLine.Values
import Starfilm.Proofs.Results

/-!
# Settings from arguments

The settings of a run start from a file or from the defaults (`StartsFrom`), and the options that
have values replace some of them (`Applied`, and for the view `Asks`). What can be wrong is listed
by `Refused`. The conditions on one option say nothing about the others, nor about the order in
which they are looked at; they fix the settings nevertheless (`StartsFrom.unique`,
`Applied.unique`), so that nothing that is refused can have settings.

**Main statement**: `settings_decided`.
-/

namespace Starfilm

variable {F : Type} [Arith F] [DecimalText F] [DecimalReader F]

namespace CommandLine

/-- The settings of the file that the arguments name, or the defaults where they name none. A file
is read, understood and checked. -/
inductive StartsFrom (d : Disk) (args : List String) : Settings F → Prop where
  | file {path text : String} {s : Settings F} (h : Gives args "--config" path)
    (hread : d.readText (.ofString path) = .ok text) (hs : Settings.ofText text = .ok s)
    (hvalid : s.validate = .ok ()) : StartsFrom d args s
  | default (h : ∀ path, ¬Gives args "--config" path) : StartsFrom d args .default

/-- An angle is given. -/
def GivesAngle (args : List String) : Prop :=
  ∃ v, Gives args "--angle-x" v ∨ Gives args "--angle-z" v

/-- The angles that a tilt starts from: those of a view that is tilted already, and thirty and
twenty degrees for a view that is not. -/
inductive TiltsFrom : ViewMode F → F → F → Prop where
  | tilted (x z : F) : TiltsFrom (.tilted x z) x z
  | usual {base : ViewMode F} (h : base.kind ≠ .tilted) :
    TiltsFrom base (Arith.ofInt 30) (Arith.ofInt 20)

/-- The arguments ask for the view `m` in the stead of `base`. -/
structure Asks (args : List String) (base m : ViewMode F) : Prop where
  kind : Takes args "--mode" ViewKind.ofName? base.kind m.kind
  /-- An angle that is not given is that from which the tilt starts. -/
  angles (x z : F) : m = .tilted x z → ∃ x₀ z₀, TiltsFrom base x₀ z₀ ∧
    Takes args "--angle-x" DecimalReader.ofText? x₀ x ∧
      Takes args "--angle-z" DecimalReader.ofText? z₀ z
  tilted : GivesAngle args → m.kind = .tilted

/-- `s` is `base` with the options that have values applied to it. -/
structure Applied (args : List String) (base s : Settings F) : Prop where
  inputDir : Takes args "--input" (fun v => some (.ofString v)) base.inputDir s.inputDir
  framesDir : Takes args "--frames" (fun v => some (.ofString v)) base.framesDir s.framesDir
  saveFile : Takes args "--output" (fun v => some (.ofString v)) base.saveFile s.saveFile
  fps : Takes args "--fps" count? base.fps s.fps
  mode : Asks args base.mode s.mode
  nameStart : s.nameStart = base.nameStart
  nameExtension : s.nameExtension = base.nameExtension
  width : s.width = base.width
  height : s.height = base.height
  framing : s.framing = base.framing

variable (F) in
/-- What can be wrong with arguments. -/
inductive Refused (d : Disk) (args : List String) : ArgumentError → Prop where
  | unreadable {path : String} {f : Disk.Fault} (h : Gives args "--config" path)
    (hread : d.readText (.ofString path) = .error f) :
    Refused d args (.failure (.disk (.ofString path) f.message))
  | malformed {path text : String} {f : Json.Fault} (h : Gives args "--config" path)
    (hread : d.readText (.ofString path) = .ok text)
    (hs : (Settings.ofText text : Except Json.Fault (Settings F)) = .error f) :
    Refused d args (.failure (.malformedSettings (.ofString path) f))
  | invalidFile {path text : String} {s : Settings F} {f : Failure} (h : Gives args "--config" path)
    (hread : d.readText (.ofString path) = .ok text) (hs : Settings.ofText text = .ok s)
    (hvalid : s.validate = .error f) : Refused d args (.failure f)
  | badCount {v : String} (h : Gives args "--fps" v) (hread : count? v = none) :
    Refused d args (.badValue v "--fps")
  | badAngle {option v : String} (hoption : option = "--angle-x" ∨ option = "--angle-z")
    (h : Gives args option v) (hread : (DecimalReader.ofText? v : Option F) = none) :
    Refused d args (.badValue v option)
  | unknownMode {word : String} (h : Gives args "--mode" word)
    (hread : ViewKind.ofName? word = none) : Refused d args (.unknownMode word)
  | strayAngle {base : Settings F} {kind : ViewKind} (hbase : StartsFrom d args base)
    (hkind : Takes args "--mode" ViewKind.ofName? base.mode.kind kind) (hflat : kind ≠ .tilted)
    (hangle : GivesAngle args) : Refused d args (.strayAngle kind)
  | invalid {base s : Settings F} {f : Failure} (hbase : StartsFrom d args base)
    (hs : Applied args base s) (hvalid : s.validate = .error f) : Refused d args (.failure f)

end CommandLine

/-! ## The file -/

section File

omit [DecimalReader F]

variable {d : Disk} {path : Path}

theorem Settings.ofFile_eq_ok_iff {s : Settings F} : Settings.ofFile d path = .ok s ↔
    ∃ text, d.readText path = .ok text ∧ Settings.ofText text = .ok s ∧ s.validate = .ok () := by
  unfold ofFile
  cases d.readText path with
  | error f => simp
  | ok text =>
    cases hs : (ofText text : Except Json.Fault (Settings F)) with
    | error f => simp [hs]
    | ok t =>
      simp only [except_bind_eq_ok_iff, Except.ok.injEq, exists_eq_left', hs]
      constructor
      · rintro ⟨_, hvalid, rfl⟩
        exact ⟨rfl, hvalid⟩
      · rintro ⟨rfl, hvalid⟩
        exact ⟨(), hvalid, rfl⟩

theorem Settings.ofFile_eq_error_iff {e : Failure} :
    (Settings.ofFile d path : Except Failure (Settings F)) = .error e ↔
      (∃ f, d.readText path = .error f ∧ e = .disk path f.message) ∨
        ∃ text, d.readText path = .ok text ∧
          ((∃ f, (Settings.ofText text : Except Json.Fault (Settings F)) = .error f ∧
              e = .malformedSettings path f) ∨
            ∃ s : Settings F, Settings.ofText text = .ok s ∧ s.validate = .error e) := by
  unfold ofFile
  cases d.readText path with
  | error f => simp [eq_comm]
  | ok text =>
    cases hs : (ofText text : Except Json.Fault (Settings F)) with
    | error f => simp [hs, eq_comm]
    | ok t => simp [except_bind_eq_error_iff, hs]

end File

namespace CommandLine

section Start

variable {d : Disk} {args : List String}

omit [DecimalReader F] in
theorem base_eq_ok_iff {s : Settings F} : base d args = .ok s ↔ StartsFrom d args s := by
  unfold base
  constructor
  · intro h
    cases hpath : value? "--config" args with
    | none =>
      rw [hpath] at h
      obtain rfl := Except.ok.inj h
      exact .default (value?_eq_none_iff.1 hpath)
    | some path =>
      rw [hpath] at h
      cases hfile : (Settings.ofFile d (.ofString path) : Except Failure (Settings F)) with
      | error f => simp [hfile] at h
      | ok t =>
        simp only [hfile, Except.ok.injEq] at h
        subst h
        obtain ⟨text, hread, hs, hvalid⟩ := Settings.ofFile_eq_ok_iff.1 hfile
        exact .file (value?_eq_some_iff.1 hpath) hread hs hvalid
  · rintro (⟨h, hread, hs, hvalid⟩ | h)
    · simp only [value?_eq_some_iff.2 h, Settings.ofFile_eq_ok_iff.2 ⟨_, hread, hs, hvalid⟩]
    · rw [value?_eq_none_iff.2 h]

omit [DecimalReader F] in
theorem StartsFrom.unique {s t : Settings F} (h : StartsFrom d args s) (h' : StartsFrom d args t) :
    s = t := by
  rw [← base_eq_ok_iff] at h h'
  exact Except.ok.inj (h.symm.trans h')

theorem refused_of_base_eq_error {e : ArgumentError}
    (h : (base d args : Except ArgumentError (Settings F)) = .error e) : Refused F d args e := by
  unfold base at h
  cases hpath : value? "--config" args with
  | none => simp [hpath] at h
  | some path =>
    rw [hpath] at h
    have hgives := value?_eq_some_iff.1 hpath
    cases hfile : (Settings.ofFile d (.ofString path) : Except Failure (Settings F)) with
    | ok s => simp [hfile] at h
    | error f =>
      simp only [hfile, Except.error.injEq] at h
      subst h
      rcases Settings.ofFile_eq_error_iff.1 hfile with
        ⟨f, hread, rfl⟩ | ⟨text, hread, ⟨f, hs, rfl⟩ | ⟨s, hs, hvalid⟩⟩
      · exact .unreadable hgives hread
      · exact .malformed hgives hread hs
      · exact .invalidFile hgives hread hs hvalid

end Start

/-! ## The view -/

section View

variable {args : List String}

theorem kind_eq_ok_iff {base k : ViewKind} :
    kind base args = .ok k ↔ Takes args "--mode" ViewKind.ofName? base k := by
  rw [takes_iff, kind]
  cases value? "--mode" args with
  | none => simp [eq_comm]
  | some word => cases hread : ViewKind.ofName? word <;> simp [hread]

theorem kind_eq_error_iff {base : ViewKind} {e : ArgumentError} : kind base args = .error e ↔
    ∃ word, Gives args "--mode" word ∧ ViewKind.ofName? word = none ∧ e = .unknownMode word := by
  simp only [← value?_eq_some_iff, kind]
  cases value? "--mode" args with
  | none => simp
  | some word => cases hread : ViewKind.ofName? word <;> simp [hread, eq_comm]

theorem givesAngle_iff : ((value? "--angle-x" args).isSome || (value? "--angle-z" args).isSome) =
    true ↔ GivesAngle args := by
  rw [Bool.or_eq_true, isSome_value?_iff, isSome_value?_iff, GivesAngle, exists_or]

omit [Arith F] [DecimalText F] [DecimalReader F] in
theorem kind_modeOf (x z : F) (k : ViewKind) : (modeOf x z k).kind = k := by
  cases k <;> rfl

omit [DecimalText F] [DecimalReader F] in
/-- The angles that are looked up are those that a tilt starts from. -/
theorem tiltsFrom_iff {base : ViewMode F} {x z : F} :
    TiltsFrom base x z ↔ angles base = (x, z) := by
  constructor
  · rintro (⟨x, z⟩ | h)
    · rfl
    · cases base with
      | faceOn | edgeOn => rfl
      | tilted x z => exact absurd rfl h
  · intro h
    cases base with
    | faceOn | edgeOn =>
      cases h
      exact .usual fun h => by cases h
    | tilted x' z' =>
      cases h
      exact .tilted x z

omit [DecimalText F] in
/-- **The view that is found is the one that is asked for.** -/
theorem mode_eq_ok_iff {base m : ViewMode F} : mode base args = .ok m ↔ Asks args base m := by
  simp only [mode, except_bind_eq_ok_iff, readValue_eq_ok_iff, kind_eq_ok_iff]
  constructor
  · rintro ⟨x, hx, z, hz, k, hk, h⟩
    split_ifs at h with hflat
    obtain rfl := Except.ok.inj h
    rw [Bool.and_eq_true, givesAngle_iff, decide_eq_true_iff, not_and_not_right] at hflat
    refine ⟨by rwa [kind_modeOf], ?_, by rwa [kind_modeOf]⟩
    intro x' z' h
    cases k with
    | faceOn => cases h
    | edgeOn => cases h
    | tilted =>
      cases h
      exact ⟨_, _, tiltsFrom_iff.2 rfl, hx, hz⟩
  · intro h
    have hflat : ¬(((value? "--angle-x" args).isSome || (value? "--angle-z" args).isSome) &&
        decide (m.kind ≠ .tilted)) = true := by
      rw [Bool.and_eq_true, givesAngle_iff, decide_eq_true_iff, not_and_not_right]
      exact h.tilted
    cases m with
    | tilted x z =>
      obtain ⟨x₀, z₀, hfrom, hx, hz⟩ := h.angles x z rfl
      rw [tiltsFrom_iff.1 hfrom]
      exact ⟨x, hx, z, hz, .tilted, h.kind, if_neg hflat⟩
    | faceOn | edgeOn =>
      -- no angle is given, and those of the other view are not used
      have hnone (v : String) : ¬Gives args "--angle-x" v ∧ ¬Gives args "--angle-z" v := by
        rw [← not_or]
        intro hv
        cases h.tilted ⟨v, hv⟩
      exact ⟨_, .absent fun v => (hnone v).1, _, .absent fun v => (hnone v).2, _, h.kind,
        if_neg hflat⟩

theorem refused_of_mode_eq_error {d : Disk} {base : Settings F} (hbase : StartsFrom d args base)
    {e : ArgumentError} (h : mode base.mode args = .error e) : Refused F d args e := by
  simp only [mode, except_bind_eq_error_iff, readValue_eq_error_iff, kind_eq_error_iff,
    kind_eq_ok_iff] at h
  rcases h with ⟨v, hv, hread, rfl⟩ | ⟨x, -, ⟨v, hv, hread, rfl⟩ | ⟨z, -,
    ⟨word, hword, hread, rfl⟩ | ⟨k, hk, h⟩⟩⟩
  · exact .badAngle (.inl rfl) hv hread
  · exact .badAngle (.inr rfl) hv hread
  · exact .unknownMode hword hread
  · split_ifs at h with hflat
    obtain rfl := Except.error.inj h
    rw [Bool.and_eq_true, givesAngle_iff, decide_eq_true_iff] at hflat
    exact .strayAngle hbase hk hflat.2 hflat.1

end View

/-! ## The settings -/

section Settings

variable {d : Disk} {args : List String}

omit [DecimalText F] in
theorem Applied.unique {base s t : Settings F} (h : Applied args base s)
    (h' : Applied args base t) : s = t := by
  have hmode : s.mode = t.mode :=
    Except.ok.inj ((mode_eq_ok_iff.2 h.mode).symm.trans (mode_eq_ok_iff.2 h'.mode))
  cases s
  cases t
  simp only [Settings.mk.injEq]
  exact ⟨h.inputDir.unique h'.inputDir, h.nameStart.trans h'.nameStart.symm,
    h.nameExtension.trans h'.nameExtension.symm, h.framesDir.unique h'.framesDir,
    h.saveFile.unique h'.saveFile, h.fps.unique h'.fps, hmode, h.width.trans h'.width.symm,
    h.height.trans h'.height.symm, h.framing.trans h'.framing.symm⟩

omit [DecimalText F] in
/-- Options are applied one field at a time. -/
theorem applied_with {base : Settings F} {fps : UInt32} {m : ViewMode F}
    (hfps : Takes args "--fps" count? base.fps fps) (hm : Asks args base.mode m) :
    Applied args base { base with
      inputDir := pathOr "--input" base.inputDir args
      framesDir := pathOr "--frames" base.framesDir args
      saveFile := pathOr "--output" base.saveFile args
      fps, mode := m } :=
  ⟨pathOr_eq_iff.1 rfl, pathOr_eq_iff.1 rfl, pathOr_eq_iff.1 rfl, hfps, hm, rfl, rfl, rfl, rfl, rfl⟩

/-- **The settings that are found are those that are asked for.** -/
theorem settings_eq_ok_iff {s : Settings F} : settings d args = .ok s ↔
    s.validate = .ok () ∧ ∃ base, StartsFrom d args base ∧ Applied args base s := by
  simp only [settings, except_bind_eq_ok_iff, base_eq_ok_iff, readValue_eq_ok_iff, mode_eq_ok_iff]
  constructor
  · rintro ⟨base, hbase, fps, hfps, m, hm, h⟩
    split at h
    case h_1 hvalid =>
      obtain rfl := Except.ok.inj h
      exact ⟨hvalid, base, hbase, applied_with hfps hm⟩
    case h_2 => cases h
  · rintro ⟨hvalid, base, hbase, h⟩
    refine ⟨base, hbase, s.fps, h.fps, s.mode, h.mode, ?_⟩
    rw [pathOr_eq_iff.2 h.inputDir, pathOr_eq_iff.2 h.framesDir, pathOr_eq_iff.2 h.saveFile,
      ← h.nameStart, ← h.nameExtension, ← h.width, ← h.height, ← h.framing, hvalid]

theorem refused_of_settings_eq_error {e : ArgumentError}
    (h : (settings d args : Except ArgumentError (Settings F)) = .error e) :
    Refused F d args e := by
  simp only [settings, except_bind_eq_error_iff, base_eq_ok_iff, readValue_eq_error_iff,
    readValue_eq_ok_iff, mode_eq_ok_iff] at h
  rcases h with h | ⟨base, hbase, ⟨v, hv, hread, rfl⟩ | ⟨fps, hfps, h | ⟨m, hm, h⟩⟩⟩
  · exact refused_of_base_eq_error h
  · exact .badCount hv hread
  · exact refused_of_mode_eq_error hbase h
  · split at h
    case h_1 => cases h
    case h_2 f hvalid =>
      obtain rfl := Except.error.inj h
      exact .invalid hbase (applied_with hfps hm) hvalid

/-- Where something is wrong there are no settings, whatever else the arguments say. -/
theorem Refused.settings_ne_ok {e : ArgumentError} (h : Refused F d args e) (s : Settings F) :
    settings d args ≠ .ok s := by
  rw [Ne, settings_eq_ok_iff]
  rintro ⟨hs, base, hbase, happlied⟩
  cases h with
  | unreadable h hread =>
    cases hbase with
    | file h' hread' =>
      obtain rfl := h.unique h'
      cases hread.symm.trans hread'
    | default h' => exact h' _ h
  | malformed h hread hf =>
    cases hbase with
    | file h' hread' hs' =>
      obtain rfl := h.unique h'
      obtain rfl := Except.ok.inj (hread.symm.trans hread')
      cases hf.symm.trans hs'
    | default h' => exact h' _ h
  | invalidFile h hread hs hf =>
    cases hbase with
    | file h' hread' hs' hvalid =>
      obtain rfl := h.unique h'
      obtain rfl := Except.ok.inj (hread.symm.trans hread')
      obtain rfl := Except.ok.inj (hs.symm.trans hs')
      cases hf.symm.trans hvalid
    | default h' => exact h' _ h
  | badCount h hread => cases hread.symm.trans (happlied.fps.eq_some_of_gives h)
  | badAngle hoption h hread =>
    -- the view is tilted, so both angles have been read
    have hangle : GivesAngle args := by
      rcases hoption with rfl | rfl
      · exact ⟨_, .inl h⟩
      · exact ⟨_, .inr h⟩
    have htilted := happlied.mode.tilted hangle
    cases hmode : s.mode with
    | faceOn | edgeOn =>
      rw [hmode] at htilted
      cases htilted
    | tilted x z =>
      obtain ⟨x₀, z₀, -, hx, hz⟩ := happlied.mode.angles x z hmode
      rcases hoption with rfl | rfl
      · cases hread.symm.trans (hx.eq_some_of_gives h)
      · cases hread.symm.trans (hz.eq_some_of_gives h)
  | unknownMode h hread => cases hread.symm.trans (happlied.mode.kind.eq_some_of_gives h)
  | strayAngle hbase' hkind hflat hangle =>
    obtain rfl := hbase.unique hbase'
    obtain rfl := happlied.mode.kind.unique hkind
    exact hflat (happlied.mode.tilted hangle)
  | invalid hbase' happlied' hf =>
    obtain rfl := hbase.unique hbase'
    obtain rfl := happlied.unique happlied'
    cases hf.symm.trans hs

end Settings

end CommandLine

end Starfilm
