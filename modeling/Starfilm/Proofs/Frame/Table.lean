import Mathlib.Data.List.Basic
import Starfilm.Frame.Index

/-!
# Reading the index back

A table is read one character after another. `Table.State` is what a reader knows between two
characters, and `Table.step` what the next character makes of it: commas end fields, line ends end
records, and between quotes both stand for themselves, as a doubled quote stands for one.

A text that is written with quotes where it needs them leads the reader to the same text and out of
the quotes (`Table.foldlM_quote`). So a line leads to the record that was written
(`Table.foldlM_line`) and a table to its records (`Table.read_written`). The numbers of a record
hold nothing that would need quotes, so that the index is such a table (`FrameIndex.text_eq`).

**Main statement**: `FrameIndex.read_text`.
-/

namespace Starfilm

namespace Table

/-- Where a reader is in a field. -/
inductive Mode where
  /-- Before its first character. -/
  | start
  /-- In a field without quotes. -/
  | plain
  /-- Between quotes. -/
  | quoted
  /-- After a quote between quotes, which ends the field or is the first half of a doubled one. -/
  | closing
  deriving DecidableEq, Repr

/-- What has been read of a table. -/
structure State where
  mode : Mode
  /-- The field so far. -/
  field : List Char
  /-- The fields before it in its record. -/
  record : List String
  /-- The records before. -/
  records : List (List String)
  deriving DecidableEq, Repr

namespace State

/-- The field goes on. -/
def put (s : State) (m : Mode) (c : Char) : State := { s with mode := m, field := s.field ++ [c] }

def endField (s : State) : State := ⟨.start, [], s.record ++ [String.ofList s.field], s.records⟩

def endRecord (s : State) : State :=
  ⟨.start, [], [], s.records ++ [s.record ++ [String.ofList s.field]]⟩

/-- The field ends, if it may do so with this character. -/
def ending (s : State) (c : Char) : Option State :=
  if c = ',' then some s.endField else if c = '\n' then some s.endRecord else none

end State

/-- One character further, unless the table cannot go on so. -/
def step (s : State) (c : Char) : Option State :=
  match s.mode with
  | .start => if c = '"' then some { s with mode := .quoted }
    else (s.ending c).or (some (s.put .plain c))
  | .plain => if c = '"' then none else (s.ending c).or (some (s.put .plain c))
  | .quoted => some (if c = '"' then { s with mode := .closing } else s.put .quoted c)
  | .closing => if c = '"' then some (s.put .quoted c) else s.ending c

/-- The records of a table, each of which has a line end. -/
def read (text : String) : Option (List (List String)) := do
  let s ← text.toList.foldlM step ⟨.start, [], [], []⟩
  if s.mode = .start ∧ s.record = [] then some s.records else none

/-! ## Fields -/

/-- A character that needs no quotes. -/
def IsPlain (c : Char) : Prop := c ≠ ',' ∧ c ≠ '"' ∧ c ≠ '\n'

instance (c : Char) : Decidable (IsPlain c) := inferInstanceAs (Decidable (_ ∧ _))

theorem step_plain {s : State} (hs : s.mode = .start ∨ s.mode = .plain) {c : Char}
    (hc : IsPlain c) : step s c = some (s.put .plain c) := by
  obtain ⟨hcomma, hquote, hend⟩ := hc
  have hending : s.ending c = none := by rw [State.ending, if_neg hcomma, if_neg hend]
  rcases hs with hs | hs
  · simp only [step, hs, if_neg hquote, hending, Option.none_or]
  · simp only [step, hs, if_neg hquote, hending, Option.none_or]

theorem step_ending {s : State} (hs : s.mode ≠ .quoted) {c : Char} (hc : c = ',' ∨ c = '\n') :
    step s c = s.ending c := by
  have hsome : ∃ t, s.ending c = some t := by
    rcases hc with rfl | rfl
    · exact ⟨_, rfl⟩
    · exact ⟨_, rfl⟩
  have hquote : c ≠ '"' := by
    rcases hc with rfl | rfl
    · decide
    · decide
  obtain ⟨t, ht⟩ := hsome
  cases hmode : s.mode with
  | start => simp only [step, hmode, if_neg hquote, ht, Option.some_or]
  | plain => simp only [step, hmode, if_neg hquote, ht, Option.some_or]
  | quoted => exact absurd hmode hs
  | closing => simp only [step, hmode, if_neg hquote]

/-- Plain characters become a field without quotes. -/
theorem foldlM_plain {cs : List Char} (h : ∀ c ∈ cs, IsPlain c) {s : State}
    (hs : s.mode = .start ∨ s.mode = .plain) :
    ∃ m, m ≠ .quoted ∧ cs.foldlM step s = some { s with mode := m, field := s.field ++ cs } := by
  induction cs generalizing s with
  | nil =>
    refine ⟨s.mode, ?_, ?_⟩
    · rcases hs with hs | hs <;> simp [hs]
    · rw [List.append_nil]
      rfl
  | cons c cs ih =>
    rw [List.forall_mem_cons] at h
    obtain ⟨m, hm, hrun⟩ := ih h.2 (s := s.put .plain c) (.inr rfl)
    refine ⟨m, hm, ?_⟩
    rw [List.foldlM_cons, step_plain hs h.1]
    exact hrun.trans (by simp [State.put])

/-- What is doubled between quotes becomes the field. -/
theorem foldlM_doubled (cs : List Char) {s : State} (hs : s.mode = .quoted) :
    (cs.flatMap fun c => if c = '"' then ['"', '"'] else [c]).foldlM step s =
      some { s with field := s.field ++ cs } := by
  induction cs generalizing s with
  | nil =>
    rw [List.append_nil]
    rfl
  | cons c cs ih =>
    have hchar : (if c = '"' then ['"', '"'] else [c]).foldlM step s = some (s.put .quoted c) := by
      split_ifs with hc
      · subst hc
        simp [step, hs, State.put]
      · simp [step, hs, hc]
    rw [List.flatMap_cons, List.foldlM_append, hchar]
    refine (ih (s := s.put .quoted c) rfl).trans ?_
    simp [State.put, hs]

/-- **A written text is read as it was**, and the reader is not between quotes after it. -/
theorem foldlM_quote (cs : List Char) (record : List String) (records : List (List String)) :
    ∃ m, m ≠ .quoted ∧
      (FrameIndex.quote cs).foldlM step ⟨.start, [], record, records⟩ =
        some ⟨m, cs, record, records⟩ := by
  rw [FrameIndex.quote]
  split_ifs with hcs
  · refine ⟨.closing, by decide, ?_⟩
    have hopen : step ⟨.start, [], record, records⟩ '"' = some ⟨.quoted, [], record, records⟩ := rfl
    have hclose : ['"'].foldlM step ⟨.quoted, cs, record, records⟩ =
        some ⟨.closing, cs, record, records⟩ := rfl
    rw [List.cons_append, List.foldlM_cons, hopen]
    change (List.foldlM step _ (_ ++ _)) = _
    rw [List.foldlM_append, foldlM_doubled cs rfl]
    exact hclose
  · have hplain : ∀ c ∈ cs, IsPlain c := by
      simpa [IsPlain, and_assoc] using hcs
    exact foldlM_plain hplain (.inl rfl)

/-! ## Records -/

/-- A field that is written and then ended. -/
theorem foldlM_quote_concat (cs : List Char) {c : Char} (hc : c = ',' ∨ c = '\n')
    (record : List String) (records : List (List String)) :
    (FrameIndex.quote cs ++ [c]).foldlM step ⟨.start, [], record, records⟩ =
      State.ending ⟨.start, cs, record, records⟩ c := by
  obtain ⟨m, hm, hrun⟩ := foldlM_quote cs record records
  have hstep := step_ending (s := ⟨m, cs, record, records⟩) hm hc
  rw [List.foldlM_append, hrun]
  change [c].foldlM step ⟨m, cs, record, records⟩ = _
  rw [List.foldlM_cons, hstep]
  exact bind_pure _

/-- **A line is read as its record.** -/
theorem foldlM_line {fields : List (List Char)} (hne : fields ≠ []) (record : List String)
    (records : List (List String)) :
    (FrameIndex.line (fields.map FrameIndex.quote)).foldlM step ⟨.start, [], record, records⟩ =
      some ⟨.start, [], [], records ++ [record ++ fields.map String.ofList]⟩ := by
  induction fields generalizing record with
  | nil => exact absurd rfl hne
  | cons cs fields ih =>
    cases fields with
    | nil =>
      have hlast : FrameIndex.line ([cs].map FrameIndex.quote) =
          FrameIndex.quote cs ++ ['\n'] := by
        simp [FrameIndex.line, List.intercalate]
      rw [hlast]
      exact foldlM_quote_concat cs (.inr rfl) record records
    | cons ds fields =>
      have hsplit : FrameIndex.line ((cs :: ds :: fields).map FrameIndex.quote) =
          FrameIndex.quote cs ++ [','] ++
            FrameIndex.line ((ds :: fields).map FrameIndex.quote) := by
        simp [FrameIndex.line, List.intercalate]
      rw [hsplit, List.foldlM_append, foldlM_quote_concat cs (.inl rfl)]
      refine (ih (List.cons_ne_nil _ _) (record ++ [String.ofList cs])).trans ?_
      rw [List.append_assoc]
      rfl

/-- The line of a record. -/
def written (row : List String) : List Char :=
  FrameIndex.line ((row.map String.toList).map FrameIndex.quote)

theorem foldlM_written {rows : List (List String)} (h : ∀ row ∈ rows, row ≠ [])
    (records : List (List String)) :
    (rows.flatMap written).foldlM step ⟨.start, [], [], records⟩ =
      some ⟨.start, [], [], records ++ rows⟩ := by
  induction rows generalizing records with
  | nil =>
    rw [List.append_nil]
    rfl
  | cons row rows ih =>
    rw [List.forall_mem_cons] at h
    have hrow : (row.map String.toList).map String.ofList = row := by
      simp only [List.map_map, Function.comp_def, String.ofList_toList, List.map_id']
    rw [List.flatMap_cons, List.foldlM_append, written,
      foldlM_line (mt List.map_eq_nil_iff.1 h.1), hrow, List.nil_append]
    refine (ih h.2 (records ++ [row])).trans ?_
    rw [List.append_assoc]
    rfl

/-- **A table is read as it was written**, whatever its texts hold. -/
theorem read_written {rows : List (List String)} (h : ∀ row ∈ rows, row ≠ []) :
    read (String.ofList (rows.flatMap written)) = some rows := by
  rw [read, String.toList_ofList, foldlM_written h]
  rfl

/-- A reader takes quotes where none are needed, but no quote within a field without them. -/
example : read "\"a\",\"b \"\"\n\"\n" = some [["a", "b \"\n"]] ∧ read "a\"b\n" = none := by
  decide

/-! ## Numbers -/

theorem quote_of_isPlain {cs : List Char} (h : ∀ c ∈ cs, IsPlain c) : FrameIndex.quote cs = cs := by
  refine if_neg ?_
  simpa [IsPlain, and_assoc] using h

theorem isPlain_of_isDigit {c : Char} (h : c.isDigit = true) : IsPlain c := by
  refine ⟨?_, ?_, ?_⟩ <;> rintro rfl <;> exact absurd h (by decide)

theorem isPlain_of_mem_digits {n : ℕ} {c : Char} (h : c ∈ Decimal.digits n) : IsPlain c :=
  isPlain_of_isDigit (Nat.isDigit_of_mem_toDigits (by decide) (Nat.le_refl 10) h)

theorem isPlain_of_mem_pointed {places : ℕ} {ds : List Char} (hds : ∀ c ∈ ds, IsPlain c) {c : Char}
    (h : c ∈ Decimal.pointed places ds) : IsPlain c := by
  unfold Decimal.pointed at h
  split_ifs at h with hplaces
  · exact hds c h
  · have hfilled : ∀ d ∈ List.replicate (places + 1 - ds.length) '0' ++ ds, IsPlain d := by
      intro d hd
      rcases List.mem_append.1 hd with hd | hd
      · rw [List.eq_of_mem_replicate hd]
        decide
      · exact hds d hd
    rcases List.mem_append.1 h with h | h
    · exact hfilled c (List.mem_of_mem_take h)
    · rcases List.mem_cons.1 h with rfl | h
      · decide
      · exact hfilled c (List.mem_of_mem_drop h)

theorem isPlain_of_mem_positional {n : ℕ} {k : Int} {c : Char} (h : c ∈ Decimal.positional n k) :
    IsPlain c := by
  unfold Decimal.positional at h
  split_ifs at h
  · rw [List.mem_singleton.1 h]
    decide
  · rcases List.mem_append.1 h with h | h
    · exact isPlain_of_mem_digits h
    · rw [List.eq_of_mem_replicate h]
      decide
  · exact isPlain_of_mem_pointed (fun _ => isPlain_of_mem_digits) h

theorem isPlain_of_mem_signed {negative : Bool} {text : List Char}
    (htext : ∀ c ∈ text, IsPlain c) {c : Char} (h : c ∈ (Decimal.signed negative text).toList) :
    IsPlain c := by
  rw [Decimal.signed, String.toList_ofList] at h
  cases negative with
  | false => exact htext c h
  | true =>
    rcases List.mem_cons.1 h with rfl | h
    · decide
    · exact htext c h

/-- A number in writing has nothing of a table's own signs. -/
theorem isPlain_of_mem_shortest {x : Double} {c : Char}
    (h : c ∈ (DecimalText.shortest x).toList) : IsPlain c := by
  cases hread : x.read with
  | nan =>
    have hnan : ∀ d ∈ "NaN".toList, IsPlain d := by simp [IsPlain]
    simp only [DecimalText.shortest, hread] at h
    exact hnan c h
  | infinite =>
    simp only [DecimalText.shortest, hread] at h
    exact isPlain_of_mem_signed (by simp [IsPlain]) h
  | finite m e =>
    simp only [DecimalText.shortest, hread] at h
    exact isPlain_of_mem_signed (fun _ => isPlain_of_mem_positional) h

end Table

/-! ## The index -/

namespace FrameIndex

/-- What a record tells, cell by cell. -/
def cells (i : ℕ) (r : FrameRecord Double) : List String :=
  [toString i, String.ofList (r.file.fileName?.getD []), DecimalText.shortest r.frame.time,
    toString r.frame.disk.length, toString r.frame.bulge.length, toString r.frame.newStarCount,
    DecimalText.shortest r.frame.newStarMass, r.caption.time, r.caption.newStars, r.caption.view]

/-- Numbers could be written with quotes where they need them, like texts: they never do. -/
theorem fields_eq_map_quote (i : ℕ) (r : FrameRecord Double) :
    fields i r = ((cells i r).map String.toList).map quote := by
  have hnat (n : ℕ) : quote (toString n).toList = (toString n).toList := by
    have hdigits : (toString n).toList = Decimal.digits n := Nat.toList_repr
    rw [hdigits]
    exact Table.quote_of_isPlain fun _ => Table.isPlain_of_mem_digits
  have hdouble (x : Double) :
      quote (DecimalText.shortest x).toList = (DecimalText.shortest x).toList :=
    Table.quote_of_isPlain fun _ => Table.isPlain_of_mem_shortest
  simp only [fields, cells, List.map_cons, List.map_nil, hnat, hdouble, String.toList_ofList]

theorem lines_eq_flatMap (i : ℕ) (records : List (FrameRecord Double)) :
    lines i records = (records.mapIdx fun j r => cells (i + j) r).flatMap Table.written := by
  induction records generalizing i with
  | nil => rfl
  | cons r records ih =>
    rw [lines, fields_eq_map_quote, ih, List.mapIdx_cons, List.flatMap_cons]
    congr 3
    funext j r
    rw [Nat.add_assoc, Nat.add_comm 1 j]

theorem text_eq (records : List (FrameRecord Double)) :
    text records =
      String.ofList ((columns :: records.mapIdx cells).flatMap Table.written) := by
  have hheader : columns.map String.toList = (columns.map String.toList).map quote := by decide
  rw [text, lines_eq_flatMap, List.flatMap_cons, hheader]
  simp only [Nat.zero_add]
  rfl

end FrameIndex

end Starfilm
