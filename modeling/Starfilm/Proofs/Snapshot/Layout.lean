import Mathlib.Algebra.BigOperators.Group.List.Lemmas
import Mathlib.Algebra.BigOperators.Ring.List
import Mathlib.Algebra.Ring.Nat
import Mathlib.Tactic.Tauto
import Starfilm.Snapshot.Container

/-!
# The layout of snapshot files

What a container must hold to be a snapshot is said here part by part, without the order in which
the parts are read: `TellsTime`, `HoldsClass`, `HoldsStars`, and `Holds` for the whole. What can be
wrong with a part is said in the same way, one constructor for each check, and `Refused` puts the
parts in their order: it asks of every check that those before it have passed.

Positions are stored row by row in a data set of the right shape (`PositionShape`). Nothing is left
over when such values are cut into rows (`flatMap_row_rows`), provided that a data set has as many
values as its shape has entries (`Measured`).
-/

namespace Starfilm

namespace Container

variable {F : Type}

/-! ## Shapes -/

/-- The shapes of positions: rows of three, or no entries at all in some dimension. -/
def PositionShape (shape : List ℕ) : Prop := (∃ n, shape = [n, 3]) ∨ 0 ∈ shape

/-- The shapes that are refused. Entries are counted in machine words, so that a multiple of
`2 ^ 64` of them counts as none. -/
def Misshapen (shape : List ℕ) : Prop := ¬PositionShape shape ∧ ¬2 ^ 64 ∣ shape.prod

theorem toNat_entryCount (shape : List ℕ) :
    (entryCount shape).toNat = shape.prod % 2 ^ 64 := by
  suffices h : ∀ m : UInt64, (shape.foldl (fun n k => n * UInt64.ofNat k) m).toNat =
      m.toNat * shape.prod % 2 ^ 64 by
    simpa [entryCount] using h 1
  induction shape with
  | nil => simp
  | cons k shape ih =>
    intro m
    simp only [List.foldl_cons, ih, UInt64.toNat_mul, UInt64.toNat_ofNat', List.prod_cons]
    rw [Nat.mod_mul_mod, ← Nat.mul_assoc, Nat.mul_mod, Nat.mul_mod (m.toNat * k)]
    simp

theorem isPositionShape_iff (shape : List ℕ) :
    isPositionShape shape = true ↔ ¬Misshapen shape := by
  have hempty : entryCount shape = 0 ↔ 2 ^ 64 ∣ shape.prod := by
    rw [← UInt64.toNat_inj, toNat_entryCount, Nat.dvd_iff_mod_eq_zero]
    rfl
  have hrows : (shape.length = 2 ∧ shape[1]? = some 3) ↔ ∃ n, shape = [n, 3] := by
    constructor
    · rintro ⟨hlength, hthree⟩
      obtain ⟨n, k, rfl⟩ := List.length_eq_two.1 hlength
      obtain rfl : k = 3 := by simpa using hthree
      exact ⟨n, rfl⟩
    · rintro ⟨n, rfl⟩
      exact ⟨rfl, rfl⟩
  have hzero : 0 ∈ shape → 2 ^ 64 ∣ shape.prod := fun h => by
    rw [List.prod_eq_zero h]
    exact Nat.dvd_zero _
  simp only [isPositionShape, Bool.or_eq_true, beq_iff_eq, Bool.and_eq_true, hempty, hrows,
    Misshapen, PositionShape]
  tauto

/-- A shape whose entries are few enough to be counted is refused unless it is one of positions. -/
theorem positionShape_of_not_misshapen {shape : List ℕ} (h : ¬Misshapen shape)
    (hsmall : shape.prod < 2 ^ 64) : PositionShape shape := by
  by_contra hne
  have hdvd : 2 ^ 64 ∣ shape.prod := by
    by_contra hdvd
    exact h ⟨hne, hdvd⟩
  have hzero : shape.prod = 0 := Nat.eq_zero_of_dvd_of_lt hdvd hsmall
  exact hne (.inr (List.prod_eq_zero_iff.1 hzero))

theorem three_dvd_prod {shape : List ℕ} (h : PositionShape shape) : 3 ∣ shape.prod := by
  rcases h with ⟨n, rfl⟩ | hzero
  · simp
  · simp [List.prod_eq_zero hzero]

/-! ## Rows -/

/-- The values of a position, in their order. -/
def row (p : Position F) : List F := [p.x, p.y, p.z]

theorem rows_flatMap_row (ps : List (Position F)) : rows (ps.flatMap row) = ps := by
  induction ps with
  | nil => rfl
  | cons p ps ih => simp [row, rows, ih]

/-- Rows lose no value if the values come in threes. -/
theorem flatMap_row_rows {values : List F} (h : 3 ∣ values.length) :
    (rows values).flatMap row = values := by
  fun_induction rows values with
  | case1 x y z rest ih =>
    have hrest : 3 ∣ rest.length := by simpa using h
    simp [row, ih hrest]
  | case2 values hne =>
    have hlength : values.length < 3 := by
      rcases values with _ | ⟨x, _ | ⟨y, _ | ⟨z, rest⟩⟩⟩
      · simp
      · simp
      · simp
      · exact absurd rfl (hne x y z rest)
    have hnil : values = [] := List.length_eq_zero_iff.1 (Nat.eq_zero_of_dvd_of_lt h hlength)
    rw [hnil]
    rfl

/-! ## What a container holds -/

variable (path : Path) (c : ParticleClass) (links : List (String × Container F))

/-- The header tells a time. -/
def TellsTime (t : F) : Prop :=
  ∃ attributes inner, link? links headerName = some (.group (some attributes) inner) ∧
    attributes.find? (fun a => a.1 = timeName) = some (timeName, some t)

/-- The values of a data set of a group. -/
def HoldsColumn (name : String) (values : List F) : Prop :=
  ∃ shape, link? links name = some (.dataset shape (some values))

/-- The positions of a group: its coordinates have the shape of positions, and their values are the
positions row by row. -/
def HoldsPositions (ps : List (Position F)) : Prop :=
  ∃ shape, link? links coordinatesName = some (.dataset shape (some (ps.flatMap row))) ∧
    PositionShape shape

/-- The positions of a class. -/
inductive HoldsClass : List (Position F) → Prop
  | absent (h : link? links c.groupName = none) : HoldsClass []
  | present {attributes inner ps}
      (hgroup : link? links c.groupName = some (.group attributes inner))
      (hps : HoldsPositions inner ps) : HoldsClass ps

/-- The new stars: positions, and a mass and a time of formation for each of them. -/
inductive HoldsStars : NewStars F → Prop
  | absent (h : link? links ParticleClass.newStars.groupName = none) : HoldsStars .empty
  | present {attributes inner ps masses times}
      (hgroup : link? links ParticleClass.newStars.groupName = some (.group attributes inner))
      (hps : HoldsPositions inner ps) (hmasses : HoldsColumn inner massesName masses)
      (htimes : HoldsColumn inner formationTimesName times)
      (hmassesLength : masses.length = ps.length) (htimesLength : times.length = ps.length) :
      HoldsStars ⟨ps, masses, times, hmassesLength, htimesLength⟩

/-- What the container of a path holds as a snapshot. -/
structure Holds (s : Snapshot F) : Prop where
  source : s.source = some path
  time : TellsTime links s.time
  disk : HoldsClass .disk links s.disk
  bulge : HoldsClass .bulge links s.bulge
  newStars : HoldsStars links s.newStars

/-! ## What can be wrong with it -/

/-- There is no group of this name. -/
def NoGroup (name : String) : Prop :=
  ∀ attributes inner, link? links name ≠ some (.group attributes inner)

/-- There is no data set of this name. -/
def NoDataset (name : String) : Prop :=
  ∀ shape values, link? links name ≠ some (.dataset shape values)

/-- What can be wrong with the header. -/
inductive HeaderFault : Failure → Prop
  /-- Without a header there is no time. -/
  | missing (h : link? links headerName = none) :
      HeaderFault (.missingField path s!"{headerName}/{timeName}")
  /-- Something else has the header's name. -/
  | noGroup (hlink : link? links headerName ≠ none) (h : NoGroup links headerName) :
      HeaderFault (.container path s!"no group {headerName}")
  /-- The header's attributes cannot be listed, whether or not the time is one of them. -/
  | unlisted {inner} (h : link? links headerName = some (.group none inner)) :
      HeaderFault (.container path "the attributes cannot be listed")
  /-- No attribute of the header has the time's name. -/
  | untimed {attributes inner} (h : link? links headerName = some (.group (some attributes) inner))
      (htime : attributes.find? (fun a => a.1 = timeName) = none) :
      HeaderFault (.missingField path s!"{headerName}/{timeName}")
  /-- The time is an attribute, but not a single number. -/
  | noNumber {attributes inner} (h : link? links headerName = some (.group (some attributes) inner))
      (htime : attributes.find? (fun a => a.1 = timeName) = some (timeName, none)) :
      HeaderFault (.container path "the time is no number")

/-- What can be wrong with a data set of a group, whatever its shape. -/
inductive ColumnFault (name : String) : Failure → Prop
  /-- It is not there, or is none. -/
  | noDataset (h : NoDataset links name) : ColumnFault name (.container path s!"no data set {name}")
  /-- It is there, but its values cannot be read. -/
  | unread {shape} (h : link? links name = some (.dataset shape none)) :
      ColumnFault name (.container path s!"no values in {name}")

/-- What can be wrong with the positions of a class whose group is there. -/
inductive PositionsFault : Failure → Prop
  /-- There are no coordinates. -/
  | noDataset (h : NoDataset links coordinatesName) :
      PositionsFault (.container path s!"no data set {coordinatesName}")
  /-- The coordinates have a shape that is refused, whether or not they can be read. -/
  | misshapen {shape values} (h : link? links coordinatesName = some (.dataset shape values))
      (hshape : Misshapen shape) :
      PositionsFault (.malformedData path
        s!"/{c.groupName}/{coordinatesName} has shape {shapeText shape}, expected N x 3")
  /-- Their shape is right, but they cannot be read. -/
  | unread {shape} (h : link? links coordinatesName = some (.dataset shape none))
      (hshape : ¬Misshapen shape) :
      PositionsFault (.container path s!"no values in {coordinatesName}")

/-- What can be wrong with a class. Its group may be missing. -/
inductive ClassFault : Failure → Prop
  /-- Something else has the name of its group. -/
  | noGroup (hlink : link? links c.groupName ≠ none) (h : NoGroup links c.groupName) :
      ClassFault (.container path s!"no group {c.groupName}")
  /-- Its group is there, and something is wrong with its positions. -/
  | positions {attributes inner f}
      (hgroup : link? links c.groupName = some (.group attributes inner))
      (h : PositionsFault path c inner f) : ClassFault f

/-- A column has not as many entries as there are positions. -/
def unequalLength (name : String) (length expected : ℕ) : Failure :=
  .malformedData path s!"{name} has {length} entries for {expected} positions"

/-- What can be wrong with the new stars. The lengths are compared when all has been read. -/
inductive StarsFault : Failure → Prop
  /-- What can be wrong with any class. -/
  | coordinates {f} (h : ClassFault path .newStars links f) : StarsFault f
  /-- The masses, after the positions. -/
  | masses {attributes inner ps f}
      (hgroup : link? links ParticleClass.newStars.groupName = some (.group attributes inner))
      (hps : HoldsPositions inner ps) (h : ColumnFault path inner massesName f) : StarsFault f
  /-- The times of formation, after the masses. -/
  | times {attributes inner ps masses f}
      (hgroup : link? links ParticleClass.newStars.groupName = some (.group attributes inner))
      (hps : HoldsPositions inner ps) (hmasses : HoldsColumn inner massesName masses)
      (h : ColumnFault path inner formationTimesName f) : StarsFault f
  /-- All can be read, but not every star has a mass. -/
  | massesLength {attributes inner ps masses times}
      (hgroup : link? links ParticleClass.newStars.groupName = some (.group attributes inner))
      (hps : HoldsPositions inner ps) (hmasses : HoldsColumn inner massesName masses)
      (htimes : HoldsColumn inner formationTimesName times)
      (h : masses.length ≠ ps.length) :
      StarsFault (unequalLength path massesName masses.length ps.length)
  /-- The masses are enough, but not every star has a time of formation. -/
  | timesLength {attributes inner ps masses times}
      (hgroup : link? links ParticleClass.newStars.groupName = some (.group attributes inner))
      (hps : HoldsPositions inner ps) (hmasses : HoldsColumn inner massesName masses)
      (htimes : HoldsColumn inner formationTimesName times)
      (hmassesLength : masses.length = ps.length) (h : times.length ≠ ps.length) :
      StarsFault (unequalLength path formationTimesName times.length ps.length)

/-- The first check that a file fails, `opened` being what opening it gives. -/
inductive Refused (opened : Except Failure (List (String × Container F))) : Failure → Prop
  /-- The file is no container. -/
  | unopened {f} (h : opened = .error f) : Refused opened f
  | header {links f} (hopen : opened = .ok links) (h : HeaderFault path links f) : Refused opened f
  | disk {links t f} (hopen : opened = .ok links) (htime : TellsTime links t)
      (h : ClassFault path .disk links f) : Refused opened f
  | bulge {links t disk f} (hopen : opened = .ok links) (htime : TellsTime links t)
      (hdisk : HoldsClass .disk links disk) (h : ClassFault path .bulge links f) : Refused opened f
  | newStars {links t disk bulge f} (hopen : opened = .ok links) (htime : TellsTime links t)
      (hdisk : HoldsClass .disk links disk) (hbulge : HoldsClass .bulge links bulge)
      (h : StarsFault path links f) : Refused opened f

/-- The coordinates of a class have as many values as their shape has entries, if they can be read;
and these are few enough for a machine word. -/
def Measured : Prop :=
  ∀ (c : ParticleClass) attributes inner shape values,
    link? links c.groupName = some (.group attributes inner) →
    link? inner coordinatesName = some (.dataset shape (some values)) →
    values.length = shape.prod ∧ shape.prod < 2 ^ 64

variable {path c links}

/-! ## The kinds of faults -/

/-- A failure of the container, or one of a shape or a length. -/
def Damage (path : Path) (f : Failure) : Prop :=
  (∃ reason, f = .container path reason) ∨ ∃ reason, f = .malformedData path reason

theorem ColumnFault.damage {name : String} {f : Failure} (h : ColumnFault path links name f) :
    Damage path f := by
  cases h with
  | noDataset _ => exact .inl ⟨_, rfl⟩
  | unread _ => exact .inl ⟨_, rfl⟩

theorem ClassFault.damage {f : Failure} (h : ClassFault path c links f) : Damage path f := by
  cases h with
  | noGroup _ _ => exact .inl ⟨_, rfl⟩
  | positions _ hfault =>
    cases hfault with
    | noDataset _ => exact .inl ⟨_, rfl⟩
    | misshapen _ _ => exact .inr ⟨_, rfl⟩
    | unread _ _ => exact .inl ⟨_, rfl⟩

theorem StarsFault.damage {f : Failure} (h : StarsFault path links f) : Damage path f := by
  cases h with
  | coordinates hfault => exact hfault.damage
  | masses _ _ hfault => exact hfault.damage
  | times _ _ _ hfault => exact hfault.damage
  | massesLength _ _ _ _ _ => exact .inr ⟨_, rfl⟩
  | timesLength _ _ _ _ _ _ => exact .inr ⟨_, rfl⟩

/-- There is no header, or its attributes have no time among them. -/
def Untimed (links : List (String × Container F)) : Prop :=
  link? links headerName = none ∨ ∃ attributes inner,
    link? links headerName = some (.group (some attributes) inner) ∧
      ∀ a ∈ attributes, a.1 ≠ timeName

/-- A header of which a field is missing has no time; every other fault of it is the container's. -/
theorem HeaderFault.untimed_or_damage {f : Failure} (h : HeaderFault path links f) :
    f = .missingField path s!"{headerName}/{timeName}" ∧ Untimed links ∨ Damage path f := by
  cases h with
  | missing hlink => exact .inl ⟨rfl, .inl hlink⟩
  | noGroup _ _ => exact .inr (.inl ⟨_, rfl⟩)
  | unlisted _ => exact .inr (.inl ⟨_, rfl⟩)
  | untimed hlink htime =>
    refine .inl ⟨rfl, .inr ⟨_, _, hlink, ?_⟩⟩
    simpa using htime
  | noNumber _ _ => exact .inr (.inl ⟨_, rfl⟩)

end Container

end Starfilm
