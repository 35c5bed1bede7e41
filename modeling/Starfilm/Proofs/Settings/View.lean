import Starfilm.Proofs.Json.Record
import Starfilm.Proofs.View.Points
import Starfilm.Settings.Json

/-!
# Reading views from values

The tag of a view is found wherever it stands among the members (`ViewMode.untag_ofMembers_of_eq`),
and once it is taken away, the angles that are left are a record of two fields
(`ViewMode.angles_eq_changeByMembers`). So a view can be read from an object that offers its members
in any order, among others (`ViewMode.ofDocument_of_offers`). In the other direction no view that is
read from a proper value has an angle that is not finite (`ViewMode.hasFiniteAngles_of_proper`).
-/

namespace Starfilm

namespace ViewMode

open Json (Document Field Offers Adds)

variable {F : Type}

/-! ## The tag -/

theorem kind?_text_name (k : ViewKind) : kind? (.text k.name : Document F) = .ok k := by
  cases k <;> rfl

theorem untag_ofMembers_kind (tag : Option ViewKind) (v : Json F) (ms : List (String × Json F)) :
    untag tag (Document.ofMembers (("kind", v) :: ms)) =
      if tag.isSome then .error .mismatched
      else kind? (.ofJson v) >>= fun k => untag (some k) (Document.ofMembers ms) := by
  rw [Document.ofMembers, untag]
  rfl

theorem untag_ofMembers_of_ne {key : String} (hkey : ¬ key = "kind") (tag : Option ViewKind)
    (v : Json F) (ms : List (String × Json F)) :
    untag tag (Document.ofMembers ((key, v) :: ms)) =
      (untag tag (Document.ofMembers ms)).map fun found => (found.1, (key, v) :: found.2) := by
  rw [Document.ofMembers, untag, Document.value_ofJson]
  change (if key = "kind" then _ else _) = _
  rw [if_neg hkey]
  cases untag tag (Document.ofMembers ms) <;> rfl

theorem untag_ofMembers_of_eq_nil {ms : List (String × Json F)}
    (h : (ms.filter fun m => m.1 = "kind") = []) (tag : Option ViewKind) :
    untag tag (Document.ofMembers ms) = .ok (tag, ms) := by
  induction ms with
  | nil => rfl
  | cons m ms ih =>
    obtain ⟨key, v⟩ := m
    by_cases hkey : key = "kind"
    · rw [List.filter_cons_of_pos (by simpa using hkey)] at h
      cases h
    · rw [List.filter_cons_of_neg (by simpa using hkey)] at h
      rw [untag_ofMembers_of_ne hkey, ih h]
      rfl

/-- **The tag is found among the members**, wherever it stands. -/
theorem untag_ofMembers_of_eq {k : ViewKind} {ms : List (String × Json F)}
    (h : (ms.filter fun m => m.1 = "kind") = [("kind", .text k.name)]) :
    untag none (Document.ofMembers ms) = .ok (some k, ms.filter fun m => m.1 ≠ "kind") := by
  induction ms with
  | nil => cases h
  | cons m ms ih =>
    obtain ⟨key, v⟩ := m
    by_cases hkey : key = "kind"
    · subst hkey
      rw [List.filter_cons_of_pos (by simp)] at h
      obtain ⟨hfirst, hrest⟩ := List.cons.inj h
      obtain rfl : v = .text k.name := (Prod.mk.inj hfirst).2
      have hothers : (ms.filter fun m => m.1 ≠ "kind") = ms := by
        rw [List.filter_eq_nil_iff] at hrest
        refine List.filter_eq_self.2 fun m hm => ?_
        simpa using hrest m hm
      rw [List.filter_cons_of_neg (by simp), hothers, untag_ofMembers_kind, Document.ofJson,
        kind?_text_name]
      exact untag_ofMembers_of_eq_nil hrest _
    · rw [List.filter_cons_of_neg (by simpa using hkey)] at h
      rw [List.filter_cons_of_pos (by simpa using hkey), untag_ofMembers_of_ne hkey, ih h]
      rfl

/-- What is left beside the tag were members before. -/
theorem subset_of_untag {ms others : List (String × Json F)} {tag found : Option ViewKind}
    (h : untag tag (Document.ofMembers ms) = .ok (found, others)) : others ⊆ ms := by
  induction ms generalizing tag others with
  | nil =>
    obtain ⟨-, rfl⟩ := Prod.mk.inj (Except.ok.inj h)
    exact List.Subset.refl _
  | cons m ms ih =>
    obtain ⟨key, v⟩ := m
    by_cases hkey : key = "kind"
    · subst hkey
      rw [untag_ofMembers_kind] at h
      split at h
      · cases h
      · obtain ⟨k, -, h⟩ := except_bind_eq_ok_iff.1 h
        exact List.subset_cons_of_subset _ (ih h)
    · rw [untag_ofMembers_of_ne hkey] at h
      obtain ⟨rest, hrest, heq⟩ := except_map_eq_ok_iff.1 h
      obtain ⟨rfl, rfl⟩ := Prod.mk.inj heq
      exact List.cons_subset_cons _ (ih hrest)

/-! ## The angles -/

variable [Arith F]

/-- The angles of a tilt as the fields of a record. -/
def angleFields : List (Field F (Angles F)) := [
  { key := "angle_x_deg"
    write := fun a => (a.x.map .ofNumber).getD .null
    read := fun d => d.number?.map fun x a => { a with x := some x } },
  { key := "angle_z_deg"
    write := fun a => (a.z.map .ofNumber).getD .null
    read := fun d => d.number?.map fun z a => { a with z := some z } }]

theorem angle_eq (known : Option F) (v : Json F) :
    angle known v =
      if known.isSome then .error .mismatched else (Document.ofJson v).number?.map some := by
  cases known <;> cases v <;> rfl

/-- **The angles are read as a record is.** -/
theorem angles_eq_changeByMembers (ms : List (String × Json F)) (a : Angles F) {seen : List String}
    (hx : seen.contains "angle_x_deg" = a.x.isSome)
    (hz : seen.contains "angle_z_deg" = a.z.isSome) :
    angles a ms = Json.changeByMembers angleFields none seen a (Document.ofMembers ms) := by
  induction ms generalizing a seen with
  | nil => rfl
  | cons m ms ih =>
    obtain ⟨key, v⟩ := m
    rw [angles]
    split_ifs with hkeyx hkeyz
    · subst hkeyx
      rw [Json.changeByMembers_of_find?_eq_some rfl, angle_eq, hx]
      split_ifs
      · rfl
      · dsimp only
        cases (Document.ofJson v).number? with
        | error e => rfl
        | ok x => exact ih ⟨some x, a.z⟩ (by simp) (by simpa using hz)
    · subst hkeyz
      rw [Json.changeByMembers_of_find?_eq_some rfl, angle_eq, hz]
      split_ifs
      · rfl
      · dsimp only
        cases (Document.ofJson v).number? with
        | error e => rfl
        | ok z => exact ih ⟨a.x, some z⟩ (by simpa using hx) (by simp)
    · rw [Json.changeByMembers_of_find?_eq_none]
      · exact ih a hx hz
      · simp [angleFields, eq_comm, hkeyx, hkeyz]

/-- Those of two angles whose keys are in `S`. -/
def anglesAt (x z : F) (S : String → Bool) : Angles F where
  x := if S "angle_x_deg" then some x else none
  z := if S "angle_z_deg" then some z else none

theorem angles_of_offers {x z : F} (hx : Arith.isFinite x = true) (hz : Arith.isFinite z = true)
    {ms : List (String × Json F)}
    (h : Offers (Field.writeAll angleFields ⟨some x, some z⟩)
      [("angle_x_deg", .ofNumber x), ("angle_z_deg", .ofNumber z)] ms) :
    angles ⟨none, none⟩ ms = .ok ⟨some x, some z⟩ := by
  have hadds : ∀ f ∈ angleFields, Adds (anglesAt x z) f (f.write ⟨some x, some z⟩) := by
    simp only [angleFields, List.forall_mem_cons]
    exact ⟨Json.adds_of_map (fun _ => rfl) (Document.number?_ofNumber hx) fun S => by
        simp [anglesAt, Json.insertKey],
      Json.adds_of_map (fun _ => rfl) (Document.number?_ofNumber hz) fun S => by
        simp [anglesAt, Json.insertKey],
      List.forall_mem_nil _⟩
  have hseen (key : String) : ([] : List String).contains key = false := rfl
  rw [angles_eq_changeByMembers ms ⟨none, none⟩ (hseen _) (hseen _)]
  exact Json.readRecord_of_offers (by simp [angleFields]) hadds (fun key => rfl)
    (List.Sublist.refl _) h

/-! ## Views -/

theorem untag_of_offers {m : ViewMode F} {ms : List (String × Json F)}
    (h : Offers m.toJson m.toJson.members ms) :
    untag none (Document.ofMembers ms) = .ok (some m.kind, ms.filter fun m => m.1 ≠ "kind") := by
  refine untag_ofMembers_of_eq (List.perm_singleton.1 ?_)
  have hperm := h.filter_perm (p := fun key => key = "kind") ?_
  · cases m <;> exact hperm
  · cases m <;> simp [Json.hasKey, Json.members, toJson]

/-- **A view is read from an object that offers its members**. -/
theorem ofDocument_of_offers {m : ViewMode F} (hm : m.HasFiniteAngles)
    {ms : List (String × Json F)} (h : Offers m.toJson m.toJson.members ms) :
    ofDocument (.ofJson (.object ms)) = .ok m := by
  have hmembers : ofDocument (.ofJson (.object ms)) =
      ofMembers (ms.filter fun m => m.1 ≠ "kind") m.kind := by
    rw [Document.ofJson, ofDocument, untag_of_offers h]
    rfl
  rw [hmembers]
  cases m with
  | faceOn => rfl
  | edgeOn => rfl
  | tilted x z =>
    have hangles : Offers (Field.writeAll angleFields ⟨some x, some z⟩)
        [("angle_x_deg", .ofNumber x), ("angle_z_deg", .ofNumber z)]
        (ms.filter fun m => m.1 ≠ "kind") := by
      rw [Offers, List.filter_filter]
      let whole : Json F := Field.writeAll angleFields ⟨some x, some z⟩
      refine h.filter_perm (p := fun key => whole.hasKey key && key ≠ "kind") fun key hp => ?_
      exact Bool.or_eq_true_iff.2 (.inr (Bool.and_eq_true_iff.1 hp).1)
    change ofMembers _ .tilted = _
    rw [ofMembers, angles_of_offers hm.1 hm.2 hangles]
    rfl

/-! ## Finiteness -/

/-- The angles that are known are finite. -/
def Angles.Finite (a : Angles F) : Prop :=
  (∀ x, a.x = some x → Arith.isFinite x = true) ∧ ∀ z, a.z = some z → Arith.isFinite z = true

theorem angles_finite {ms : List (String × Json Double)} (hms : ∀ m ∈ ms, m.2.Proper)
    {a : Angles Double} (h : angles ⟨none, none⟩ ms = .ok a) : a.Finite := by
  have hseen (key : String) : ([] : List String).contains key = false := rfl
  rw [angles_eq_changeByMembers ms ⟨none, none⟩ (hseen _) (hseen _)] at h
  have hnone : (⟨none, none⟩ : Angles Double).Finite := by simp [Angles.Finite]
  refine Json.changeByMembers_keeps (P := Angles.Finite) ?_ hms hnone h
  simp only [angleFields, List.forall_mem_cons]
  refine ⟨Json.keeps_of_map (fun _ => rfl) fun v hv x hx a ha => ⟨?_, ha.2⟩,
    Json.keeps_of_map (fun _ => rfl) fun v hv z hz a ha => ⟨ha.1, ?_⟩, List.forall_mem_nil _⟩
  · rintro _ ⟨⟩
    exact hv.isFinite_of_number?_ofJson hx
  · rintro _ ⟨⟩
    exact hv.isFinite_of_number?_ofJson hz

theorem hasFiniteAngles_of_ofMembers {ms : List (String × Json Double)}
    (hms : ∀ m ∈ ms, m.2.Proper) {k : ViewKind} {m : ViewMode Double}
    (h : ofMembers ms k = .ok m) : m.HasFiniteAngles := by
  cases k with
  | faceOn =>
    obtain rfl := Except.ok.inj h
    trivial
  | edgeOn =>
    obtain rfl := Except.ok.inj h
    trivial
  | tilted =>
    obtain ⟨a, ha, h⟩ := except_bind_eq_ok_iff.1 h
    have hfinite := angles_finite hms ha
    obtain ⟨_ | x, _ | z⟩ := a
    · cases h
    · cases h
    · cases h
    · obtain rfl := Except.ok.inj h
      exact ⟨hfinite.1 x rfl, hfinite.2 z rfl⟩

theorem hasFiniteAngles_of_ofItems {items : List (Json Double)} (hitems : ∀ v ∈ items, v.Proper)
    {k : ViewKind} {m : ViewMode Double} (h : ofItems items k = .ok m) : m.HasFiniteAngles := by
  rw [ofItems.eq_def] at h
  split at h
  · obtain rfl := Except.ok.inj h
    trivial
  · obtain rfl := Except.ok.inj h
    trivial
  · rename_i x z
    split at h
    · rename_i x' z' hx hz
      obtain rfl := Except.ok.inj h
      exact ⟨(hitems x (by simp)).isFinite_number? hx, (hitems z (by simp)).isFinite_number? hz⟩
    · cases h
  · cases h

/-- **No view that is read from a proper value has an angle that is not finite.** -/
theorem hasFiniteAngles_of_proper {v : Json Double} (hv : v.Proper) {m : ViewMode Double}
    (h : ofDocument (.ofJson v) = .ok m) : m.HasFiniteAngles := by
  cases hv with
  | object hmembers =>
    rename_i members
    rw [Document.ofJson, ofDocument] at h
    obtain ⟨⟨_ | k, others⟩, hfound, h⟩ := except_bind_eq_ok_iff.1 h
    · cases h
    · exact hasFiniteAngles_of_ofMembers (fun m hm => hmembers m (subset_of_untag hfound hm)) h
  | array hitems =>
    rename_i items
    cases items with
    | nil => cases h
    | cons v items =>
      rw [Document.ofJson, Document.ofItems, ofDocument, Document.valueItems_ofItems] at h
      obtain ⟨k, -, h⟩ := except_bind_eq_ok_iff.1 h
      exact hasFiniteAngles_of_ofItems (fun v hv => hitems v (List.mem_cons_of_mem _ hv)) h
  | _ => cases h

end ViewMode

end Starfilm
