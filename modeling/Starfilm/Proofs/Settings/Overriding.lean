import Starfilm.Proofs.Disk.Paths
import Starfilm.Proofs.Settings.View

/-!
# Settings that override the default

**Main statement** (`Settings.ofJson_overrides`). An object that holds the values of some settings
at some of their keys makes of the default the settings that have these values there. The framing is
a record within the record, and it overrides the default framing in the same way, key by key.
Neither the order of members nor members with other keys matter, and nothing is lost when settings
are written and read again.

A number that is not finite has no JSON, and so it is asked of the settings that their numbers are
finite. What is read from a proper value has such numbers (`Settings.hasFiniteNumbers_of_proper`).
-/

namespace Starfilm

open Json (Document Field Offers Adds Keeps)

/-! ## Framings -/

namespace Framing

variable {F : Type} [Arith F]

/-- The default with the values of `s` at the keys in `S`. -/
def overriding (s : Framing F) (S : String → Bool) : Framing F where
  lowerPercentile := (if S "lower_percentile" then s else default).lowerPercentile
  upperPercentile := (if S "upper_percentile" then s else default).upperPercentile
  padding := (if S "padding" then s else default).padding
  thinAxisRatio := (if S "thin_axis_ratio" then s else default).thinAxisRatio
  tiltedThinAxis := (if S "tilted_thin_axis" then s else default).tiltedThinAxis

/-- The numbers of a framing are finite. -/
structure HasFiniteNumbers (s : Framing F) : Prop where
  lowerPercentile : Arith.isFinite s.lowerPercentile = true
  upperPercentile : Arith.isFinite s.upperPercentile = true
  padding : Arith.isFinite s.padding = true
  thinAxisRatio : Arith.isFinite s.thinAxisRatio = true

theorem overriding_congr (s : Framing F) {S T : String → Bool}
    (h : ∀ key, s.toJson.hasKey key → S key = T key) : s.overriding S = s.overriding T := by
  simp only [overriding, h "lower_percentile" rfl, h "upper_percentile" rfl, h "padding" rfl,
    h "thin_axis_ratio" rfl, h "tilted_thin_axis" rfl]

/-- The value of a field adds its key. -/
theorem adds_write {s : Framing F} (hs : s.HasFiniteNumbers) :
    ∀ f ∈ fields, Adds s.overriding f (f.write s) := by
  simp only [fields, List.forall_mem_cons]
  refine ⟨Json.adds_of_map (fun _ => rfl) (Document.number?_ofNumber hs.lowerPercentile) ?_,
    Json.adds_of_map (fun _ => rfl) (Document.number?_ofNumber hs.upperPercentile) ?_,
    Json.adds_of_map (fun _ => rfl) (Document.number?_ofNumber hs.padding) ?_,
    Json.adds_of_map (fun _ => rfl) (Document.number?_ofNumber hs.thinAxisRatio) ?_,
    Json.adds_of_map (fun _ => rfl) (Document.bool?_ofJson s.tiltedThinAxis) ?_,
    List.forall_mem_nil _⟩
  all_goals
    intro S
    simp [overriding, Json.insertKey]

/-- **The framing that an object makes of the default** has the values that the object offers. -/
theorem ofDocument_of_offers {s : Framing F} (hs : s.HasFiniteNumbers) {S : String → Bool}
    {ms : List (String × Json F)}
    (h : Offers s.toJson (s.toJson.members.filter fun m => S m.1) ms) :
    ofDocument (.ofJson (.object ms)) = .ok (s.overriding S) := by
  have hread := Json.readRecord_of_offers (by simp [fields]) (adds_write hs) (fun key => rfl)
    List.filter_sublist h
  refine hread.trans (congrArg Except.ok (s.overriding_congr fun key hkey => ?_))
  refine (Json.any_filter_members s.toJson S key).trans ?_
  rw [hkey, Bool.and_true]

/-- Proper values keep the numbers finite. -/
theorem keeps_hasFiniteNumbers :
    ∀ f ∈ (fields : List (Field Double (Framing Double))), Keeps HasFiniteNumbers f := by
  simp only [fields, List.forall_mem_cons]
  refine ⟨Json.keeps_of_map (fun _ => rfl) fun v hv x hx s hs => ?_,
    Json.keeps_of_map (fun _ => rfl) fun v hv x hx s hs => ?_,
    Json.keeps_of_map (fun _ => rfl) fun v hv x hx s hs => ?_,
    Json.keeps_of_map (fun _ => rfl) fun v hv x hx s hs => ?_,
    Json.keeps_of_map (fun _ => rfl) fun _ _ _ _ _ hs => { hs with }, List.forall_mem_nil _⟩
  · exact { hs with lowerPercentile := hv.isFinite_of_number?_ofJson hx }
  · exact { hs with upperPercentile := hv.isFinite_of_number?_ofJson hx }
  · exact { hs with padding := hv.isFinite_of_number?_ofJson hx }
  · exact { hs with thinAxisRatio := hv.isFinite_of_number?_ofJson hx }

theorem hasFiniteNumbers_default : (default : Framing Double).HasFiniteNumbers :=
  ⟨rfl, rfl, rfl, rfl⟩

/-- The framing that a proper value gives has finite numbers. -/
theorem hasFiniteNumbers_of_proper {v : Json Double} (hv : v.Proper) {s : Framing Double}
    (h : ofDocument (.ofJson v) = .ok s) : s.HasFiniteNumbers :=
  Json.readRecord_keeps keeps_hasFiniteNumbers hv hasFiniteNumbers_default h

end Framing

/-! ## Settings -/

namespace Settings

variable {F : Type}

theorem count?_ofJson_toNat (n : UInt32) :
    (Document.ofJson (.int n.toNat) : Document F).count? = .ok n := by
  have hn : (n.toNat : Int) ≤ (maxCount : Int) := by
    have h := n.toNat_lt
    rw [maxCount]
    omega
  change (if (decide ((0 : Int) ≤ n.toNat) && decide ((n.toNat : Int) ≤ maxCount)) = true then
    Except.ok (UInt32.ofNat (n.toNat : Int).toNat) else _) = _
  rw [if_pos (by simpa using hn), Int.toNat_natCast, UInt32.ofNat_toNat]

theorem optional_count?_ofJson (n : Option UInt32) :
    (Document.ofJson (countJson n) : Document F).optional Document.count? = .ok n := by
  cases n with
  | none => rfl
  | some n =>
    change (Document.count? (Document.ofJson (.int n.toNat) : Document F)).map some = _
    rw [count?_ofJson_toNat]
    rfl

variable [Arith F]

/-- The default with the values of `s` at the keys in `S`, in the framing at the keys in `B`. -/
def overriding (s : Settings F) (S B : String → Bool) : Settings F where
  inputDir := (if S "input_dir" then s else default).inputDir
  nameStart := (if S "snapshot_prefix" then s else default).nameStart
  nameExtension := (if S "snapshot_extension" then s else default).nameExtension
  framesDir := (if S "frames_dir" then s else default).framesDir
  saveFile := (if S "save_file" then s else default).saveFile
  fps := (if S "fps" then s else default).fps
  mode := (if S "mode" then s else default).mode
  width := (if S "width" then s else default).width
  height := (if S "height" then s else default).height
  framing := if S "bounds" then s.framing.overriding B else .default

/-- The angles and the numbers of the framing are finite. -/
structure HasFiniteNumbers (s : Settings F) : Prop where
  mode : s.mode.HasFiniteAngles
  framing : s.framing.HasFiniteNumbers

theorem overriding_congr (s : Settings F) {S T : String → Bool} (B : String → Bool)
    (h : ∀ key, s.toJson.hasKey key → S key = T key) : s.overriding S B = s.overriding T B := by
  simp only [overriding, h "input_dir" rfl, h "snapshot_prefix" rfl, h "snapshot_extension" rfl,
    h "frames_dir" rfl, h "save_file" rfl, h "fps" rfl, h "mode" rfl, h "width" rfl,
    h "height" rfl, h "bounds" rfl]

theorem members_toJson (s : Settings F) :
    s.toJson.members = fields.map fun f => (f.key, f.write s) := rfl

/-- The value of a member, with these members in the place of those of the view and of the
framing. -/
def given (mode bounds : List (String × Json F)) (m : String × Json F) : Json F :=
  if m.1 = "mode" then .object mode else if m.1 = "bounds" then .object bounds else m.2

/-- The values that settings are given add their keys. -/
theorem adds_given {s : Settings F} {B : String → Bool} {mode bounds : List (String × Json F)}
    (hs : s.HasFiniteNumbers) (hmode : Offers s.mode.toJson s.mode.toJson.members mode)
    (hbounds : Offers s.framing.toJson (s.framing.toJson.members.filter fun m => B m.1) bounds) :
    ∀ f ∈ fields,
      Adds (fun S => s.overriding S B) f (given mode bounds (f.key, f.write s)) := by
  have hview := ViewMode.ofDocument_of_offers hs.mode hmode
  have hframing := Framing.ofDocument_of_offers hs.framing hbounds
  simp only [fields, List.forall_mem_cons]
  refine ⟨Json.adds_of_map (fun _ => rfl) (Document.text?_ofJson s.inputDir.text) ?_,
    Json.adds_of_map (fun _ => rfl) (Document.text?_ofJson s.nameStart) ?_,
    Json.adds_of_map (fun _ => rfl) (Document.text?_ofJson s.nameExtension) ?_,
    Json.adds_of_map (fun _ => rfl) (Document.text?_ofJson s.framesDir.text) ?_,
    Json.adds_of_map (fun _ => rfl) (Document.text?_ofJson s.saveFile.text) ?_,
    Json.adds_of_map (fun _ => rfl) (count?_ofJson_toNat s.fps) ?_,
    Json.adds_of_map (fun _ => rfl) hview ?_,
    Json.adds_of_map (fun _ => rfl) (optional_count?_ofJson s.width) ?_,
    Json.adds_of_map (fun _ => rfl) (optional_count?_ofJson s.height) ?_,
    Json.adds_of_map (fun _ => rfl) hframing ?_, List.forall_mem_nil _⟩
  all_goals
    intro S
    simp [overriding, Json.insertKey]

/-- The members of settings at the keys in `S`, with these members in the place of those of the view
and of the framing. -/
def chosen (s : Settings F) (S : String → Bool) (mode bounds : List (String × Json F)) :
    List (String × Json F) :=
  (s.toJson.members.filter fun m => S m.1).map fun m => (m.1, given mode bounds m)

/-- **The settings that an object makes of the default** have the values that the object offers. -/
theorem ofJson_of_offers {s : Settings F} (hs : s.HasFiniteNumbers) {S B : String → Bool}
    {mode bounds ms : List (String × Json F)}
    (hmode : Offers s.mode.toJson s.mode.toJson.members mode)
    (hbounds : Offers s.framing.toJson (s.framing.toJson.members.filter fun m => B m.1) bounds)
    (hms : Offers s.toJson (s.chosen S mode bounds) ms) :
    ofJson (.object ms) = .ok (s.overriding S B) := by
  have hchosen : (s.chosen S mode bounds).Sublist
      (fields.map fun f => (f.key, given mode bounds (f.key, f.write s))) := by
    refine (List.filter_sublist.map _).trans ?_
    rw [members_toJson, List.map_map]
    exact List.Sublist.refl _
  have hread := Json.readRecord_of_offers (by simp [fields]) (adds_given hs hmode hbounds)
    (fun key => rfl) hchosen hms
  refine hread.trans (congrArg Except.ok (s.overriding_congr B fun key hkey => ?_))
  rw [chosen, List.any_map]
  refine (Json.any_filter_members s.toJson S key).trans ?_
  rw [hkey, Bool.and_true]

theorem chosen_self (s : Settings F) :
    s.chosen (fun _ => true) s.mode.toJson.members s.framing.toJson.members = s.toJson.members := by
  have hmode : Json.object s.mode.toJson.members = s.mode.toJson := by cases s.mode <;> rfl
  have hframing : Json.object s.framing.toJson.members = s.framing.toJson := rfl
  simp [chosen, members_toJson, given, fields, hmode, hframing]

/-- **Settings with finite numbers are read from their own value.** -/
theorem ofJson_toJson_of_finite {s : Settings F} (hs : s.HasFiniteNumbers) :
    ofJson s.toJson = .ok s := by
  have hbounds : Offers s.framing.toJson (s.framing.toJson.members.filter fun _ => true)
      s.framing.toJson.members := by
    rw [List.filter_true]
    exact Offers.refl _
  have hms : Offers s.toJson (s.chosen (fun _ => true) s.mode.toJson.members
      s.framing.toJson.members) s.toJson.members := by
    rw [chosen_self]
    exact Offers.refl _
  exact ofJson_of_offers (S := fun _ => true) (B := fun _ => true) hs (Offers.refl _) hbounds hms

/-! ## Double precision -/

theorem hasFiniteNumbers_default : (default : Settings Double).HasFiniteNumbers :=
  ⟨trivial, Framing.hasFiniteNumbers_default⟩

theorem hasFiniteNumbers_of_proper {v : Json Double} (hv : v.Proper) {s : Settings Double}
    (h : ofJson v = .ok s) : s.HasFiniteNumbers := by
  refine Json.readRecord_keeps ?_ hv hasFiniteNumbers_default h
  simp only [fields, List.forall_mem_cons]
  refine ⟨?_, ?_, ?_, ?_, ?_, ?_,
    Json.keeps_of_map (fun _ => rfl) fun v hv m hm s hs =>
      { hs with mode := ViewMode.hasFiniteAngles_of_proper hv hm }, ?_, ?_,
    Json.keeps_of_map (fun _ => rfl) fun v hv b hb s hs =>
      { hs with framing := Framing.hasFiniteNumbers_of_proper hv hb }, List.forall_mem_nil _⟩
  all_goals exact Json.keeps_of_map (fun _ => rfl) fun _ _ _ _ _ hs => { hs with }

/-- **Values override exactly the keys that they name**, in the settings and in their framing: in
any order, and whatever other members there are, in the object of the view as well. Settings are
read from their own value, and what was read once is written and read again without a change. An
array of the first values is read as the object of the first members is. -/
theorem ofJson_overrides :
    (∀ (s : Settings Double) (S B : String → Bool)
        (mode bounds members : List (String × Json Double)),
      s.HasFiniteNumbers →
      Offers s.mode.toJson s.mode.toJson.members mode →
      Offers s.framing.toJson (s.framing.toJson.members.filter fun m => B m.1) bounds →
      Offers s.toJson (s.chosen S mode bounds) members →
      ofJson (.object members) = .ok (s.overriding S B)) ∧
    (∀ s : Settings Double, s.HasFiniteNumbers → ofJson s.toJson = .ok s) ∧
    (∀ v : Json Double, v.Proper →
      ((ofJson v).map toJson >>= fun w => (ofJson w).map toJson) = (ofJson v).map toJson) ∧
    ∀ (s : Settings Double) (k : ℕ),
      ofJson (.array ((s.toJson.members.map fun m => m.2).take k)) =
        ofJson (.object (s.toJson.members.take k)) := by
  refine ⟨fun s S B mode bounds members hs hmode hbounds hms =>
    ofJson_of_offers hs hmode hbounds hms, fun s hs => ofJson_toJson_of_finite hs,
    fun v hv => ?_, fun s k => ?_⟩
  · cases hs : ofJson v with
    | error e => rfl
    | ok s =>
      change (ofJson s.toJson).map toJson = .ok s.toJson
      rw [ofJson_toJson_of_finite (hasFiniteNumbers_of_proper hv hs)]
      rfl
  · exact Json.readRecord_array_take (by simp [fields]) default s k

/-- A view and a padding of `30`. -/
theorem ofJson_overrides_tilted :
    let x : Double := ⟨0x403E000000000000⟩
    let s : Settings Double :=
      { (default : Settings Double) with
        mode := .tilted x x
        fps := 5
        framing := { (.default : Framing Double) with padding := x, tiltedThinAxis := false } }
    let mode : List (String × Json Double) := [("angle_z_deg", .real x), ("note", .null),
      ("kind", .text "tilted"), ("angle_x_deg", .real x)]
    let bounds : List (String × Json Double) := [("margin", .int 3), ("padding", .real x)]
    let members : List (String × Json Double) :=
      [("bounds", .object bounds), ("title", .text "film"), ("mode", .object mode)]
    ofJson (.object members) = .ok { (default : Settings Double) with
      mode := .tilted x x, framing := { (.default : Framing Double) with padding := x } } ∧
    ofJson s.toJson = .ok s ∧
    ((ofJson (.object members)).map toJson >>= fun w => (ofJson w).map toJson) =
      (ofJson (.object members)).map toJson ∧
    ofJson (.array ((s.toJson.members.map fun m => m.2).take 7)) =
      ofJson (.object (s.toJson.members.take 7)) := by
  intro x s mode bounds members
  have hx : Arith.isFinite (⟨0x403E000000000000⟩ : Double) = true := rfl
  have hs : s.HasFiniteNumbers :=
    ⟨⟨hx, hx⟩, { Framing.hasFiniteNumbers_default with padding := hx }⟩
  have hreal : Json.ofNumber x = .real x := if_pos hx
  have hmode : Offers s.mode.toJson s.mode.toJson.members mode := by
    change ([_, _, _] : List (String × Json Double)).Perm
      [_, ("angle_x_deg", .ofNumber x), ("angle_z_deg", .ofNumber x)]
    rw [hreal]
    exact (List.Perm.swap _ _ _).trans (.cons _ (.swap _ _ _))
  have hbounds : Offers s.framing.toJson
      (s.framing.toJson.members.filter fun m => m.1 = "padding") bounds := by
    change ([_] : List (String × Json Double)).Perm [("padding", .ofNumber x)]
    rw [hreal]
  have hms : Offers s.toJson
      (s.chosen (fun key => key = "mode" || key = "bounds") mode bounds) members := by
    exact List.Perm.swap _ _ _
  have hproper : (Json.object members).Proper := by
    have hview : (Json.object mode).Proper := .object <| by
      simp only [mode, List.forall_mem_cons]
      exact ⟨.real hx, .null, .text _, .real hx, List.forall_mem_nil _⟩
    have hframing : (Json.object bounds).Proper := .object <| by
      simp only [bounds, List.forall_mem_cons]
      exact ⟨.int (by decide) (by decide), .real hx, List.forall_mem_nil _⟩
    refine .object ?_
    simp only [members, List.forall_mem_cons]
    exact ⟨hframing, .text _, hview, List.forall_mem_nil _⟩
  exact ⟨ofJson_overrides.1 s _ (fun key => key = "padding") mode bounds members hs hmode hbounds
      hms,
    ofJson_overrides.2.1 s hs, ofJson_overrides.2.2.1 _ hproper, ofJson_overrides.2.2.2 s 7⟩

end Settings

end Starfilm
