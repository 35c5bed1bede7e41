import Starfilm.Proofs.Results
import Starfilm.Proofs.Snapshot.Layout

/-!
# Reading snapshot files

Each part of a container is read exactly when the container holds it, and fails with exactly what is
wrong with it: `time_eq_ok_iff` and `time_eq_error_iff` say so for the header,
`classPositions_eq_ok_iff` and `classPositions_eq_error_iff` for the positions of a class,
`newStars_eq_ok_iff` and `newStars_eq_error_iff` for the new stars. A reading is made of these parts
one after another, and the first that fails tells its failure (`except_bind_eq_error_iff`).

**Main statement**: `reader_decides`.
-/

namespace Starfilm

namespace Container

variable {F : Type} {path : Path} {c : ParticleClass} {links : List (String × Container F)}

/-! ## Reading the parts -/

theorem openGroup_eq_ok_iff {name : String}
    {g : Option (List (String × Option F)) × List (String × Container F)} :
    openGroup path links name = .ok g ↔ link? links name = some (.group g.1 g.2) := by
  rw [openGroup]
  split
  · rename_i attributes inner h
    rw [h]
    simp [Prod.ext_iff]
  · rename_i h
    simpa using fun hlink => h _ _ hlink

theorem openGroup_eq_error_iff {name : String} {f : Failure} :
    openGroup path links name = .error f ↔
      NoGroup links name ∧ f = .container path s!"no group {name}" := by
  rw [openGroup]
  split
  · rename_i attributes inner h
    simp [NoGroup, h]
  · rename_i h
    simp only [NoGroup, Except.error.injEq]
    exact ⟨fun hf => ⟨h, hf.symm⟩, fun hf => hf.2.symm⟩

theorem openDataset_eq_ok_iff {name : String} {ds : List ℕ × Option (List F)} :
    openDataset path links name = .ok ds ↔ link? links name = some (.dataset ds.1 ds.2) := by
  rw [openDataset]
  split
  · rename_i shape values h
    rw [h]
    simp [Prod.ext_iff]
  · rename_i h
    simpa using fun hlink => h _ _ hlink

theorem openDataset_eq_error_iff {name : String} {f : Failure} :
    openDataset path links name = .error f ↔
      NoDataset links name ∧ f = .container path s!"no data set {name}" := by
  rw [openDataset]
  split
  · rename_i shape values h
    simp [NoDataset, h]
  · rename_i h
    simp only [NoDataset, Except.error.injEq]
    exact ⟨fun hf => ⟨h, hf.symm⟩, fun hf => hf.2.symm⟩

theorem readValues_eq_ok_iff {name : String} {stored : Option (List F)} {values : List F} :
    readValues path name stored = .ok values ↔ stored = some values := by
  cases stored <;> simp [readValues]

theorem readValues_eq_error_iff {name : String} {stored : Option (List F)} {f : Failure} :
    readValues path name stored = .error f ↔
      stored = none ∧ f = .container path s!"no values in {name}" := by
  cases stored <;> simp [readValues, eq_comm]

theorem time_eq_ok_iff {t : F} : time path links = .ok t ↔ TellsTime links t := by
  by_cases hlinked : link? links headerName = none
  · simp [time, TellsTime, hlinked]
  · simp only [time, Option.isNone_iff_eq_none, hlinked, if_false, except_bind_eq_ok_iff,
      openGroup_eq_ok_iff, TellsTime]
    constructor
    · rintro ⟨⟨_ | attributes, inner⟩, hlink, hread⟩
      · cases hread
      · refine ⟨attributes, inner, hlink, ?_⟩
        cases hfind : attributes.find? fun a => a.1 = timeName with
        | none => simp [hfind] at hread
        | some a =>
          obtain ⟨name, _ | t'⟩ := a
          · simp [hfind] at hread
          · obtain rfl : name = timeName := by simpa using List.find?_some hfind
            obtain rfl : t' = t := by simpa [hfind] using hread
            rfl
    · rintro ⟨attributes, inner, hlink, htime⟩
      exact ⟨(some attributes, inner), hlink, by simp [htime]⟩

theorem time_eq_error_iff {f : Failure} :
    time path links = .error f ↔ HeaderFault path links f := by
  by_cases hlinked : link? links headerName = none
  · constructor
    · intro h
      obtain rfl : .missingField path s!"{headerName}/{timeName}" = f := by
        simpa [time, hlinked] using h
      exact .missing hlinked
    · intro h
      cases h with
      | missing _ => simp [time, hlinked]
      | noGroup hlink _ => exact absurd hlinked hlink
      | unlisted hlink => simp [hlinked] at hlink
      | untimed hlink _ => simp [hlinked] at hlink
      | noNumber hlink _ => simp [hlinked] at hlink
  · simp only [time, Option.isNone_iff_eq_none, hlinked, if_false, except_bind_eq_error_iff,
      openGroup_eq_ok_iff, openGroup_eq_error_iff]
    constructor
    · rintro (⟨hno, rfl⟩ | ⟨⟨_ | attributes, inner⟩, hlink, hread⟩)
      · exact .noGroup hlinked hno
      · obtain rfl := Except.error.inj hread
        exact .unlisted hlink
      · cases hfind : attributes.find? fun a => a.1 = timeName with
        | none =>
          obtain rfl : .missingField path s!"{headerName}/{timeName}" = f := by
            simpa [hfind] using hread
          exact .untimed hlink hfind
        | some a =>
          obtain ⟨name, _ | t⟩ := a
          · obtain rfl : name = timeName := by simpa using List.find?_some hfind
            obtain rfl : .container path "the time is no number" = f := by
              simpa [hfind] using hread
            exact .noNumber hlink hfind
          · simp [hfind] at hread
    · intro h
      cases h with
      | missing hlink => exact absurd hlink hlinked
      | noGroup _ hno => exact .inl ⟨hno, rfl⟩
      | unlisted hlink => exact .inr ⟨(none, _), hlink, rfl⟩
      | untimed hlink htime => exact .inr ⟨(some _, _), hlink, by simp [htime]⟩
      | noNumber hlink htime => exact .inr ⟨(some _, _), hlink, by simp [htime]⟩

theorem column_eq_ok_iff {name : String} {values : List F} :
    column path links name = .ok values ↔ HoldsColumn links name values := by
  simp only [column, except_bind_eq_ok_iff, openDataset_eq_ok_iff, readValues_eq_ok_iff,
    HoldsColumn]
  constructor
  · rintro ⟨⟨shape, stored⟩, hlink, rfl⟩
    exact ⟨shape, hlink⟩
  · rintro ⟨shape, hlink⟩
    exact ⟨(shape, some values), hlink, rfl⟩

theorem column_eq_error_iff {name : String} {f : Failure} :
    column path links name = .error f ↔ ColumnFault path links name f := by
  simp only [column, except_bind_eq_error_iff, openDataset_eq_ok_iff, openDataset_eq_error_iff,
    readValues_eq_error_iff]
  constructor
  · rintro (⟨hno, rfl⟩ | ⟨⟨shape, stored⟩, hlink, rfl, rfl⟩)
    · exact .noDataset hno
    · exact .unread hlink
  · rintro (hno | hlink)
    · exact .inl ⟨hno, rfl⟩
    · exact .inr ⟨(_, none), hlink, rfl, rfl⟩

theorem positions_eq_ok_iff {ps : List (Position F)}
    (hmeasured : ∀ shape values, link? links coordinatesName = some (.dataset shape (some values)) →
      values.length = shape.prod ∧ shape.prod < 2 ^ 64) :
    positions path c links = .ok ps ↔ HoldsPositions links ps := by
  simp only [positions, except_bind_eq_ok_iff, openDataset_eq_ok_iff]
  constructor
  · rintro ⟨⟨shape, stored⟩, hlink, hread⟩
    dsimp only at hread hlink
    split_ifs at hread with hshape
    · obtain ⟨values, hvalues, hps⟩ := except_bind_eq_ok_iff.1 hread
      obtain rfl := readValues_eq_ok_iff.1 hvalues
      obtain ⟨hlength, hsmall⟩ := hmeasured shape values hlink
      have hposition : PositionShape shape :=
        positionShape_of_not_misshapen ((isPositionShape_iff shape).1 hshape) hsmall
      have hthree : 3 ∣ values.length := hlength ▸ three_dvd_prod hposition
      obtain rfl : rows values = ps := Except.ok.inj hps
      refine ⟨shape, ?_, hposition⟩
      rw [flatMap_row_rows hthree]
      exact hlink
  · rintro ⟨shape, hlink, hposition⟩
    refine ⟨(shape, some (ps.flatMap row)), hlink, ?_⟩
    have hshape : isPositionShape shape = true :=
      (isPositionShape_iff shape).2 fun h => h.1 hposition
    simp only [hshape, if_true]
    rw [except_bind_eq_ok_iff]
    exact ⟨_, rfl, by rw [rows_flatMap_row]⟩

theorem positions_eq_error_iff {f : Failure} :
    positions path c links = .error f ↔ PositionsFault path c links f := by
  simp only [positions, except_bind_eq_error_iff, openDataset_eq_ok_iff, openDataset_eq_error_iff]
  constructor
  · rintro (⟨hno, rfl⟩ | ⟨⟨shape, stored⟩, hlink, hread⟩)
    · exact .noDataset hno
    · dsimp only at hread hlink
      split_ifs at hread with hshape
      · simp only [except_bind_eq_error_iff, readValues_eq_error_iff, reduceCtorEq, and_false,
          exists_false, or_false] at hread
        obtain ⟨rfl, rfl⟩ := hread
        exact .unread hlink ((isPositionShape_iff shape).1 hshape)
      · obtain rfl := Except.error.inj hread
        have hmisshapen : Misshapen shape := by
          rwa [isPositionShape_iff, not_not] at hshape
        exact .misshapen hlink hmisshapen
  · intro h
    cases h with
    | noDataset hno => exact .inl ⟨hno, rfl⟩
    | @misshapen shape values hlink hshape =>
      have hnot : ¬isPositionShape shape = true := by
        rwa [isPositionShape_iff, not_not]
      exact .inr ⟨(shape, values), hlink, if_neg hnot⟩
    | @unread shape hlink hshape =>
      refine .inr ⟨(shape, none), hlink, ?_⟩
      simp only [(isPositionShape_iff shape).2 hshape, if_true]
      rfl

theorem classGroup_eq_ok_none_iff :
    classGroup path c links = .ok none ↔ link? links c.groupName = none := by
  rw [classGroup]
  cases hlink : link? links c.groupName with
  | none => simp
  | some node => cases node <;> simp [openGroup, hlink, Except.map]

theorem classGroup_eq_ok_some_iff {inner : List (String × Container F)} :
    classGroup path c links = .ok (some inner) ↔
      ∃ attributes, link? links c.groupName = some (.group attributes inner) := by
  rw [classGroup]
  cases hlink : link? links c.groupName with
  | none => simp
  | some node => cases node <;> simp [openGroup, hlink, Except.map]

theorem classGroup_eq_error_iff {f : Failure} :
    classGroup path c links = .error f ↔ link? links c.groupName ≠ none ∧
      NoGroup links c.groupName ∧ f = .container path s!"no group {c.groupName}" := by
  rw [classGroup, NoGroup]
  cases hlink : link? links c.groupName with
  | none => simp
  | some node => cases node <;> simp [openGroup, hlink, Except.map, eq_comm]

theorem Measured.coordinates (hmeasured : Measured links) {attributes}
    {inner : List (String × Container F)}
    (hgroup : link? links c.groupName = some (.group attributes inner)) (shape values)
    (hlink : link? inner coordinatesName = some (.dataset shape (some values))) :
    values.length = shape.prod ∧ shape.prod < 2 ^ 64 :=
  hmeasured c attributes inner shape values hgroup hlink

theorem classPositions_eq_ok_iff (hmeasured : Measured links) {ps : List (Position F)} :
    classPositions path c links = .ok ps ↔ HoldsClass c links ps := by
  rw [classPositions, except_bind_eq_ok_iff]
  constructor
  · rintro ⟨group | inner, hgroup, hread⟩
    · obtain rfl : [] = ps := Except.ok.inj hread
      exact .absent (classGroup_eq_ok_none_iff.1 hgroup)
    · obtain ⟨attributes, hlink⟩ := classGroup_eq_ok_some_iff.1 hgroup
      exact .present hlink ((positions_eq_ok_iff (hmeasured.coordinates hlink)).1 hread)
  · intro h
    cases h with
    | absent hlink => exact ⟨none, classGroup_eq_ok_none_iff.2 hlink, rfl⟩
    | @present attributes inner ps hlink hps =>
      exact ⟨some inner, classGroup_eq_ok_some_iff.2 ⟨attributes, hlink⟩,
        (positions_eq_ok_iff (hmeasured.coordinates hlink)).2 hps⟩

theorem classPositions_eq_error_iff {f : Failure} :
    classPositions path c links = .error f ↔ ClassFault path c links f := by
  rw [classPositions, except_bind_eq_error_iff]
  constructor
  · rintro (hgroup | ⟨_ | inner, hgroup, hread⟩)
    · obtain ⟨hlinked, hno, rfl⟩ := classGroup_eq_error_iff.1 hgroup
      exact .noGroup hlinked hno
    · cases hread
    · obtain ⟨attributes, hlink⟩ := classGroup_eq_ok_some_iff.1 hgroup
      exact .positions hlink (positions_eq_error_iff.1 hread)
  · intro h
    cases h with
    | noGroup hlinked hno => exact .inl (classGroup_eq_error_iff.2 ⟨hlinked, hno, rfl⟩)
    | @positions attributes inner f hlink hfault =>
      exact .inr ⟨some inner, classGroup_eq_ok_some_iff.2 ⟨attributes, hlink⟩,
        positions_eq_error_iff.2 hfault⟩

theorem checkLength_eq_ok_iff {name : String} {length expected : ℕ} {u : Unit} :
    checkLength path name length expected = .ok u ↔ length = expected := by
  rw [checkLength]
  split_ifs with h <;> simp [h]

theorem checkLength_eq_error_iff {name : String} {length expected : ℕ} {f : Failure} :
    checkLength path name length expected = .error f ↔
      length ≠ expected ∧ f = unequalLength path name length expected := by
  rw [checkLength]
  split_ifs with h <;> simp [h, unequalLength, eq_comm]

theorem newStars_eq_ok_iff (hmeasured : Measured links) {stars : NewStars F} :
    newStars path links = .ok stars ↔ HoldsStars links stars := by
  rw [newStars, except_bind_eq_ok_iff]
  constructor
  · rintro ⟨_ | inner, hgroup, hread⟩
    · obtain rfl : .empty = stars := Except.ok.inj hread
      exact .absent (classGroup_eq_ok_none_iff.1 hgroup)
    · obtain ⟨attributes, hlink⟩ := classGroup_eq_ok_some_iff.1 hgroup
      simp only [except_bind_eq_ok_iff, positions_eq_ok_iff (hmeasured.coordinates hlink),
        column_eq_ok_iff, checkLength_eq_ok_iff] at hread
      obtain ⟨ps, hps, masses, hmasses, times, htimes, -, hlength, -, hlength', hstars⟩ := hread
      rw [NewStars.ofColumns, dif_pos ⟨hlength, hlength'⟩] at hstars
      obtain rfl := Except.ok.inj hstars
      exact .present hlink hps hmasses htimes hlength hlength'
  · intro h
    cases h with
    | absent hlink => exact ⟨none, classGroup_eq_ok_none_iff.2 hlink, rfl⟩
    | @present attributes inner ps masses times hlink hps hmasses htimes hlength hlength' =>
      refine ⟨some inner, classGroup_eq_ok_some_iff.2 ⟨attributes, hlink⟩, ?_⟩
      simp only [except_bind_eq_ok_iff, positions_eq_ok_iff (hmeasured.coordinates hlink),
        column_eq_ok_iff, checkLength_eq_ok_iff]
      exact ⟨ps, hps, masses, hmasses, times, htimes, (), hlength, (), hlength',
        dif_pos ⟨hlength, hlength'⟩⟩

/-- The checks of new stars that are there, in their order. The last step of reading them cannot
fail: when all checks have passed, the columns have one length. -/
theorem newStars_eq_error_iff_of_group (hmeasured : Measured links) {attributes}
    {inner : List (String × Container F)} {f : Failure}
    (hlink : link? links ParticleClass.newStars.groupName = some (.group attributes inner)) :
    newStars path links = .error f ↔
      PositionsFault path .newStars inner f ∨ ∃ ps, HoldsPositions inner ps ∧
        (ColumnFault path inner massesName f ∨ ∃ masses, HoldsColumn inner massesName masses ∧
          (ColumnFault path inner formationTimesName f ∨
            ∃ times, HoldsColumn inner formationTimesName times ∧
              (masses.length ≠ ps.length ∧
                  f = unequalLength path massesName masses.length ps.length ∨
                masses.length = ps.length ∧ times.length ≠ ps.length ∧
                  f = unequalLength path formationTimesName times.length ps.length))) := by
  have hgroup : classGroup path .newStars links = .ok (some inner) :=
    classGroup_eq_ok_some_iff.2 ⟨attributes, hlink⟩
  have hcolumns {ps : List (Position F)} {masses times : List F} (hm : masses.length = ps.length)
      (ht : times.length = ps.length) : NewStars.ofColumns ps masses times ≠ .error f := by
    rw [NewStars.ofColumns, dif_pos ⟨hm, ht⟩]
    exact fun h => by cases h
  rw [newStars, hgroup]
  change (positions path .newStars inner >>= _) = .error f ↔ _
  simp only [except_bind_eq_error_iff, positions_eq_ok_iff (hmeasured.coordinates hlink),
    positions_eq_error_iff, column_eq_ok_iff, column_eq_error_iff, checkLength_eq_ok_iff,
    checkLength_eq_error_iff, exists_const]
  refine or_congr_right (exists_congr fun ps => and_congr_right fun _ => or_congr_right
    (exists_congr fun masses => and_congr_right fun _ => or_congr_right (exists_congr fun times =>
      and_congr_right fun _ => or_congr_right (and_congr_right fun hm => ?_))))
  exact ⟨fun h => h.resolve_right fun ⟨ht, h⟩ => hcolumns hm ht h, .inl⟩

theorem newStars_eq_error_iff (hmeasured : Measured links) {f : Failure} :
    newStars path links = .error f ↔ StarsFault path links f := by
  constructor
  · intro h
    rcases except_bind_eq_error_iff.1 h with hgroup | ⟨_ | inner, hgroup, hread⟩
    · obtain ⟨hlinked, hno, rfl⟩ := classGroup_eq_error_iff.1 hgroup
      exact .coordinates (.noGroup hlinked hno)
    · cases hread
    · obtain ⟨attributes, hlink⟩ := classGroup_eq_ok_some_iff.1 hgroup
      rcases (newStars_eq_error_iff_of_group hmeasured hlink).1 h with hfault | ⟨ps, hps, hfault |
        ⟨masses, hmasses, hfault | ⟨times, htimes, ⟨hne, rfl⟩ | ⟨hlength, hne, rfl⟩⟩⟩⟩
      · exact .coordinates (.positions hlink hfault)
      · exact .masses hlink hps hfault
      · exact .times hlink hps hmasses hfault
      · exact .massesLength hlink hps hmasses htimes hne
      · exact .timesLength hlink hps hmasses htimes hlength hne
  · intro h
    cases h with
    | coordinates hfault =>
      cases hfault with
      | noGroup hlinked hno =>
        exact except_bind_eq_error_iff.2 (.inl (classGroup_eq_error_iff.2 ⟨hlinked, hno, rfl⟩))
      | positions hlink hfault =>
        exact (newStars_eq_error_iff_of_group hmeasured hlink).2 (.inl hfault)
    | masses hlink hps hfault =>
      exact (newStars_eq_error_iff_of_group hmeasured hlink).2 (.inr ⟨_, hps, .inl hfault⟩)
    | times hlink hps hmasses hfault =>
      exact (newStars_eq_error_iff_of_group hmeasured hlink).2
        (.inr ⟨_, hps, .inr ⟨_, hmasses, .inl hfault⟩⟩)
    | massesLength hlink hps hmasses htimes hne =>
      exact (newStars_eq_error_iff_of_group hmeasured hlink).2
        (.inr ⟨_, hps, .inr ⟨_, hmasses, .inr ⟨_, htimes, .inl ⟨hne, rfl⟩⟩⟩⟩)
    | timesLength hlink hps hmasses htimes hlength hne =>
      exact (newStars_eq_error_iff_of_group hmeasured hlink).2
        (.inr ⟨_, hps, .inr ⟨_, hmasses, .inr ⟨_, htimes, .inr ⟨hlength, hne, rfl⟩⟩⟩⟩)

/-! ## Reading the whole -/

theorem snapshot_eq_ok_iff (hmeasured : Measured links) {s : Snapshot F} :
    snapshot path links = .ok s ↔ Holds path links s := by
  simp only [snapshot, except_bind_eq_ok_iff, time_eq_ok_iff, classPositions_eq_ok_iff hmeasured,
    newStars_eq_ok_iff hmeasured, Except.ok.injEq]
  constructor
  · rintro ⟨t, ht, disk, hdisk, bulge, hbulge, stars, hstars, rfl⟩
    exact ⟨rfl, ht, hdisk, hbulge, hstars⟩
  · intro h
    obtain ⟨source, t, disk, bulge, stars⟩ := s
    obtain ⟨hsource, ht, hdisk, hbulge, hstars⟩ := h
    exact ⟨t, ht, disk, hdisk, bulge, hbulge, stars, hstars, by rw [← hsource]⟩

theorem snapshot_eq_error_iff (hmeasured : Measured links) {f : Failure} :
    snapshot path links = .error f ↔ Refused path (.ok links) f := by
  simp only [snapshot, except_bind_eq_error_iff, time_eq_ok_iff, time_eq_error_iff,
    classPositions_eq_ok_iff hmeasured, classPositions_eq_error_iff,
    newStars_eq_error_iff hmeasured, reduceCtorEq, and_false, exists_false, or_false]
  constructor
  · rintro (hfault | ⟨t, ht, hfault | ⟨disk, hdisk, hfault | ⟨bulge, hbulge, hfault⟩⟩⟩)
    · exact .header rfl hfault
    · exact .disk rfl ht hfault
    · exact .bulge rfl ht hdisk hfault
    · exact .newStars rfl ht hdisk hbulge hfault
  · intro h
    cases h with
    | unopened hopen => cases hopen
    | header hopen hfault =>
      cases hopen
      exact .inl hfault
    | disk hopen ht hfault =>
      cases hopen
      exact .inr ⟨_, ht, .inl hfault⟩
    | bulge hopen ht hdisk hfault =>
      cases hopen
      exact .inr ⟨_, ht, .inr ⟨_, hdisk, .inl hfault⟩⟩
    | newStars hopen ht hdisk hbulge hfault =>
      cases hopen
      exact .inr ⟨_, ht, .inr ⟨_, hdisk, .inr ⟨_, hbulge, hfault⟩⟩⟩

/-- **Reading a snapshot file succeeds with what the file holds, or fails as the first check that it
fails.** The file holds a snapshot when it opens, its header tells a time, each class is either not
there or has coordinates in rows of three (or none at all), and new stars that are there have a mass
and a time of formation each; the snapshot then has all positions row by row. Otherwise the checks
are made in the order opening, header, disk, bulge, coordinates of the new stars, their masses,
their times of formation, the number of the masses, the number of the times. A missing field is
reported only when the header or its time is not there, and columns of unequal length never reach
the snapshot: of a file that opens, all other failures are of the container or of malformed data. -/
theorem reader_decides [Arith F] [DecimalReader F] {path : Path}
    {opened : Except Failure (List (String × Container F))}
    (hmeasured : ∀ links, opened = .ok links → Measured links) :
    let result : Except Failure (Snapshot F) := opened >>= snapshot path
    (∀ d, openFile d path = opened → reader d path = result) ∧
      (∀ s, result = .ok s ↔ ∃ links, opened = .ok links ∧ Holds path links s) ∧
      (∀ f, result = .error f ↔ Refused path opened f) ∧
      ∀ links, opened = .ok links → ∀ f, result = .error f →
        f = .missingField path "Header/Time" ∧ Untimed links ∨
          (∃ reason, f = .container path reason) ∨ ∃ reason, f = .malformedData path reason := by
  intro result
  have hread : ∀ d, openFile d path = opened → reader d path = result := by
    intro d hopen
    simp only [reader, hopen]
    rfl
  cases opened with
  | error e =>
    have hresult : result = .error e := rfl
    rw [hresult]
    refine ⟨hread, fun s => ?_, fun f => ?_, fun links hopen => by cases hopen⟩
    · exact iff_of_false (fun h => by cases h) fun ⟨links, hopen, _⟩ => by cases hopen
    · constructor
      · intro h
        obtain rfl : e = f := Except.error.inj h
        exact .unopened rfl
      · intro h
        cases h with
        | unopened hopen =>
          cases hopen
          rfl
        | header hopen _ => cases hopen
        | disk hopen _ _ => cases hopen
        | bulge hopen _ _ _ => cases hopen
        | newStars hopen _ _ _ _ => cases hopen
  | ok links =>
    have hlinks : Measured links := hmeasured links rfl
    have hresult : result = snapshot path links := rfl
    rw [hresult]
    refine ⟨hread, fun s => ?_, fun f => snapshot_eq_error_iff hlinks, fun links' hopen f h => ?_⟩
    · rw [snapshot_eq_ok_iff hlinks]
      exact ⟨fun h => ⟨links, rfl, h⟩, fun ⟨links', hopen, h⟩ => by cases hopen; exact h⟩
    · cases hopen
      cases (snapshot_eq_error_iff hlinks).1 h with
      | unopened hopen => cases hopen
      | header hopen hfault =>
        cases hopen
        exact hfault.untimed_or_damage
      | disk _ _ hfault => exact .inr hfault.damage
      | bulge _ _ _ hfault => exact .inr hfault.damage
      | newStars _ _ _ _ hfault => exact .inr hfault.damage

/-- Both columns of the one new star have a wrong length. It is that of the masses that is
reported; the bulge, of which a dimension has no entries, is no fault. -/
theorem reader_decides_two_masses :
    let zero : Double := ⟨0⟩
    let stars : Container Double := .group (some [])
      [("Coordinates", .dataset [1, 3] (some [zero, zero, zero])),
        ("Masses", .dataset [2] (some [zero, zero])),
        ("StellarFormationTime", .dataset [0] (some []))]
    let bulge : Container Double := .group (some []) [("Coordinates", .dataset [0, 5] (some []))]
    let links : List (String × Container Double) :=
      [("Header", .group (some [("Time", some zero)]) []), ("PartType3", bulge),
        ("PartType4", stars)]
    let path : Path := .ofString "s.hdf5"
    Measured links ∧ (Except.ok links >>= snapshot path) =
      .error (.malformedData path "Masses has 2 entries for 1 positions") := by
  intro zero stars bulge links path
  have hmeasured : Measured links := by
    intro c attributes inner shape values hgroup hlink
    cases c with
    | disk => simp [links, link?, ParticleClass.groupName] at hgroup
    | bulge =>
      obtain ⟨-, rfl⟩ : some [] = attributes ∧ _ = inner := by
        simpa [links, bulge, link?, ParticleClass.groupName] using hgroup
      obtain ⟨rfl, rfl⟩ : [0, 5] = shape ∧ [] = values := by
        simpa [link?, coordinatesName] using hlink
      decide
    | newStars =>
      obtain ⟨-, rfl⟩ : some [] = attributes ∧ _ = inner := by
        simpa [links, stars, link?, ParticleClass.groupName] using hgroup
      obtain ⟨rfl, rfl⟩ : [1, 3] = shape ∧ [zero, zero, zero] = values := by
        simpa [link?, coordinatesName] using hlink
      decide
  refine ⟨hmeasured, ?_⟩
  have hopened : ∀ links', (.ok links : Except Failure _) = .ok links' → Measured links' := by
    intro links' h
    cases h
    exact hmeasured
  have hbulge : HoldsClass .bulge links [] :=
    .present rfl ⟨[0, 5], rfl, .inr List.mem_cons_self⟩
  let inner : List (String × Container Double) :=
    [("Coordinates", .dataset [1, 3] (some [zero, zero, zero])),
      ("Masses", .dataset [2] (some [zero, zero])),
      ("StellarFormationTime", .dataset [0] (some []))]
  let ps : List (Position Double) := [⟨zero, zero, zero⟩]
  have hps : HoldsPositions inner ps := ⟨[1, 3], rfl, .inl ⟨1, rfl⟩⟩
  have hmasses : HoldsColumn inner massesName [zero, zero] := ⟨[2], rfl⟩
  have htimes : HoldsColumn inner formationTimesName [] := ⟨[0], rfl⟩
  have hcounts : [zero, zero].length ≠ ps.length := by decide
  have hlength : StarsFault path links _ := .massesLength rfl hps hmasses htimes hcounts
  rw [show [zero, zero].length = 2 from rfl, show ps.length = 1 from rfl] at hlength
  obtain ⟨-, -, hrefused, -⟩ :=
    @reader_decides Double _ _ path (.ok links) hopened
  exact (hrefused _).2 (.newStars rfl ⟨_, _, rfl, rfl⟩ (.absent rfl) hbulge hlength)

end Container

end Starfilm
