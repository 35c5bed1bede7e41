import Mathlib.Data.List.Perm.Basic
import Starfilm.Command
import Starfilm.Proofs.CommandLine.Values

/-!
# The order of options

A command line in parts: options with their values, and wishes for no film (`Part`). Every two
neighbouring arguments may be an option and its value, also where one part ends and the next begins.
But no value and no wish has the name of an option, so an option is found only in its own part
(`value?_line_eq_some_iff`), and the order of the parts is lost.

**Main statement**: `settings_shuffled`.
-/

namespace Starfilm

namespace CommandLine

/-- The options that have values. -/
def options : List String :=
  ["--config", "--mode", "--angle-x", "--angle-z", "--input", "--frames", "--output", "--fps"]

/-- A part of a command line. -/
inductive Part where
  /-- An option with its value. -/
  | option (name value : String)
  /-- The wish for no film. -/
  | stills
  deriving DecidableEq

namespace Part

/-- A part as arguments. -/
def words : Part → List String
  | option name value => [name, value]
  | stills => ["--no-video"]

/-- The option that a part is about. -/
def name? : Part → Option String
  | option name _ => some name
  | stills => none

/-- An option has its name from the list and its value from elsewhere. -/
def IsProper : Part → Prop
  | option name value => name ∈ options ∧ value ∉ options
  | stills => True

instance : DecidablePred IsProper
  | option name value => inferInstanceAs (Decidable (name ∈ options ∧ value ∉ options))
  | stills => inferInstanceAs (Decidable True)

end Part

/-- A command line: the name of the program and some parts. -/
def line (program : String) (parts : List Part) : List String :=
  program :: parts.flatMap Part.words

/-! ## What the settings look at -/

section Congruence

variable {F : Type} [Arith F] [DecimalText F] [DecimalReader F]

/-- **Settings depend on the values of the options only.** -/
theorem settings_congr {args args' : List String}
    (h : ∀ option ∈ options, value? option args = value? option args') (d : Disk) :
    (settings d args : Except ArgumentError (Settings F)) = settings d args' := by
  simp only [options, List.forall_mem_cons, List.not_mem_nil, false_imp_iff, implies_true] at h
  obtain ⟨hconfig, hmode, hx, hz, hinput, hframes, houtput, hfps, -⟩ := h
  simp only [settings, base, mode, kind, readValue, pathOr, hconfig, hmode, hx, hz, hinput, hframes,
    houtput, hfps]

end Congruence

/-! ## Values among parts -/

section Parts

variable {program : String} {parts parts' : List Part} {option : String}

/-- **An option is found in its own part.** -/
theorem value?_line_eq_some_iff (hprogram : program ∉ options) (hproper : ∀ p ∈ parts, p.IsProper)
    (honce : (parts.filterMap Part.name?).Nodup) (ho : option ∈ options) {v : String} :
    value? option (line program parts) = some v ↔ .option option v ∈ parts := by
  rw [line, value?_cons_of_ne (ne_of_mem_of_not_mem ho hprogram).symm]
  induction parts with
  | nil => simp [value?]
  | cons p parts ih =>
    rw [List.forall_mem_cons] at hproper
    rw [List.flatMap_cons]
    cases p with
    | stills =>
      have hne : "--no-video" ≠ option := (ne_of_mem_of_not_mem ho (by decide)).symm
      rw [Part.words, List.singleton_append, value?_cons_of_ne hne, ih hproper.2 honce]
      simp
    | option name w =>
      obtain ⟨⟨-, hw⟩, hproper⟩ := hproper
      have honce : (name :: parts.filterMap Part.name?).Nodup := honce
      rw [List.nodup_cons] at honce
      have hne : w ≠ option := (ne_of_mem_of_not_mem ho hw).symm
      change value? option (name :: w :: parts.flatMap Part.words) = some v ↔ _
      rw [value?_cons, List.mem_cons, Part.option.injEq]
      split_ifs with hname
      · -- no other part has the option
        subst hname
        have hnot : Part.option name v ∉ parts := fun h =>
          honce.1 (List.mem_filterMap.2 ⟨_, h, rfl⟩)
        simp [hnot, eq_comm]
      · rw [value?_cons_of_ne hne, ih hproper honce.2]
        simp [Ne.symm hname]

theorem line_perm (program : String) (h : parts.Perm parts') :
    (line program parts).Perm (line program parts') :=
  (h.flatMap_right Part.words).cons program

end Parts

/-- **The order of options does not matter.** Where every option is given at most once, and no value
is itself the name of an option, the parts of a command line may be in any order: the settings are
the same or the error is, and the same assemblers are asked. -/
theorem settings_shuffled {F : Type} [Arith F] [DecimalText F] [DecimalReader F] (d : Disk)
    (launch : Launcher) {program : String} (hprogram : program ∉ options) {parts parts' : List Part}
    (hproper : ∀ p ∈ parts, p.IsProper) (honce : (parts.filterMap Part.name?).Nodup)
    (h : parts.Perm parts') :
    (settings d (line program parts) : Except ArgumentError (Settings F)) =
        settings d (line program parts') ∧
      Command.assemblers launch (line program parts) =
        Command.assemblers launch (line program parts') := by
  have hproper' : ∀ p ∈ parts', p.IsProper := fun p hp => hproper p (h.mem_iff.2 hp)
  have honce' : (parts'.filterMap Part.name?).Nodup := (h.filterMap Part.name?).nodup_iff.1 honce
  constructor
  · apply settings_congr
    intro option ho
    ext v
    rw [value?_line_eq_some_iff hprogram hproper honce ho,
      value?_line_eq_some_iff hprogram hproper' honce' ho, h.mem_iff]
  · have hfilm : wantsFilm (line program parts) = wantsFilm (line program parts') := by
      rw [wantsFilm, wantsFilm, (line_perm program h).contains_eq]
    rw [Command.assemblers, Command.assemblers, hfilm]

/-- Two values that cannot be read, and one that looks like the wish for no film. In every order the
rate is the one that is told, and there is no film. -/
theorem settings_shuffled_two_faults :
    let parts : List Part := [.option "--mode" "above", .option "--input" "--no-video", .stills,
      .option "--fps" "many"]
    let d : Disk := ⟨[([], .directory)], []⟩
    let launch : Launcher := fun _ _ d => (.error .notFound, d)
    ("film" ∉ options ∧ (∀ p ∈ parts, p.IsProper) ∧ (parts.filterMap Part.name?).Nodup ∧
        parts.Perm parts.reverse) ∧
      (settings d (line "film" parts.reverse) : Except ArgumentError (Settings Double)) =
        .error (.badValue "many" "--fps") ∧
      Command.assemblers launch (line "film" parts.reverse) = [] := by
  intro parts d launch
  have hprogram : "film" ∉ options := by decide
  have hproper : ∀ p ∈ parts, p.IsProper := by decide
  have honce : (parts.filterMap Part.name?).Nodup := by decide
  have hperm : parts.Perm parts.reverse := (List.reverse_perm parts).symm
  obtain ⟨hsettings, hassemblers⟩ :=
    settings_shuffled (F := Double) d launch hprogram hproper honce hperm
  rw [← hsettings, ← hassemblers]
  exact ⟨⟨hprogram, hproper, honce, hperm⟩, rfl, rfl⟩

end CommandLine

end Starfilm
