import Mathlib.Data.List.Nodup
import Starfilm.Json.Record
import Starfilm.Proofs.Arith.Integers
import Starfilm.Proofs.Results

/-!
# Reading records from values

Nothing stops the reading of a value (`Document.value_ofJson`, `Document.skip_ofJson`). What a
record becomes when some of its fields are given is told by a function of the set of their keys, the
`state` of this module: each field that is read adds its key to the set. Such a function knows no
order, and so the members of an object may come in any (`readRecord_of_offers`). The first fields as
the items of an array make the same changes as they do as members of an object
(`readRecord_array_take`). Whatever is read, a record keeps the properties of its default that every
field keeps (`readRecord_keeps`).
-/

namespace Starfilm

namespace Json

variable {F C : Type}

/-! ## Values as documents -/

namespace Document

mutual

theorem skip_ofJson : (v : Json F) → skip (ofJson v) = .ok ()
  | .null => rfl
  | .bool _ => rfl
  | .int _ => rfl
  | .real _ => rfl
  | .text _ => rfl
  | .array items => by
    rw [ofJson, skip, skipItems_ofItems items]
    rfl
  | .object members => by
    rw [ofJson, skip, skipMembers_ofMembers members]
    rfl

theorem skipItems_ofItems : (vs : List (Json F)) → skipItems (ofItems vs) = .ok ()
  | [] => rfl
  | v :: vs => by
    rw [ofItems, skipItems, skip_ofJson v]
    exact skipItems_ofItems vs

theorem skipMembers_ofMembers :
    (vs : List (String × Json F)) → skipMembers (ofMembers vs) = .ok ()
  | [] => rfl
  | (_, v) :: vs => by
    rw [ofMembers, skipMembers, skip_ofJson v]
    exact skipMembers_ofMembers vs

end

mutual

theorem value_ofJson : (v : Json F) → value (ofJson v) = .ok v
  | .null => rfl
  | .bool _ => rfl
  | .int _ => rfl
  | .real _ => rfl
  | .text _ => rfl
  | .array items => by
    rw [ofJson, value, valueItems_ofItems items]
    rfl
  | .object members => by
    rw [ofJson, value, valueMembers_ofMembers members]
    rfl

theorem valueItems_ofItems : (vs : List (Json F)) → valueItems (ofItems vs) = .ok vs
  | [] => rfl
  | v :: vs => by
    rw [ofItems, valueItems, value_ofJson v, valueItems_ofItems vs]
    rfl

theorem valueMembers_ofMembers :
    (vs : List (String × Json F)) → valueMembers (ofMembers vs) = .ok vs
  | [] => rfl
  | (_, v) :: vs => by
    rw [ofMembers, valueMembers, value_ofJson v, valueMembers_ofMembers vs]
    rfl

end

theorem text?_ofJson (s : String) : (ofJson (.text s) : Document F).text? = .ok s := rfl

theorem bool?_ofJson (b : Bool) : (ofJson (.bool b) : Document F).bool? = .ok b := rfl

theorem number?_ofNumber [Arith F] {x : F} (hx : Arith.isFinite x = true) :
    (ofJson (.ofNumber x)).number? = .ok x := by
  rw [ofNumber, if_pos hx]
  rfl

theorem number?_ofJson [Arith F] (v : Json F) :
    (ofJson v).number? = match v.number? with
      | some x => .ok x
      | none => .error .mismatched := by
  cases v <;> rfl

end Document

/-! ## Members in any order -/

/-- The members of an object. -/
def members : Json F → List (String × Json F)
  | object ms => ms
  | _ => []

/-- The value has a member with this key. -/
def hasKey (v : Json F) (key : String) : Bool := v.members.any fun m => m.1 = key

/-- Of the keys of `whole`, these members have just the `chosen` ones, in some order; they may have
any other keys. -/
def Offers (whole : Json F) (chosen ms : List (String × Json F)) : Prop :=
  (ms.filter fun m => whole.hasKey m.1).Perm chosen

theorem Offers.refl (v : Json F) : Offers v v.members v.members := by
  rw [Offers, List.filter_eq_self.2]
  intro m hm
  exact List.any_eq_true.2 ⟨m, hm, decide_eq_true rfl⟩

/-- Members that offer keys of a value have those of its members that are chosen. -/
theorem Offers.filter_perm {whole : Json F} {chosen ms : List (String × Json F)}
    (h : Offers whole chosen ms) {p : String → Bool} (hp : ∀ key, p key → whole.hasKey key) :
    (ms.filter fun m => p m.1).Perm (chosen.filter fun m => p m.1) := by
  have hfilter := List.Perm.filter (fun m => p m.1) h
  rw [List.filter_filter] at hfilter
  convert hfilter using 3 with m
  rw [Bool.eq_iff_iff, Bool.and_eq_true]
  exact (and_iff_left_of_imp (hp m.1)).symm

/-! ## Members that name fields -/

/-- A member that names no field is skipped. -/
theorem changeByMembers_of_find?_eq_none {fields : List (Field F C)} {key : String}
    (h : (fields.find? fun f => f.key = key) = none) (v : Json F) (ms : List (String × Json F))
    (seen : List String) (c : C) :
    changeByMembers fields none seen c (Document.ofMembers ((key, v) :: ms)) =
      changeByMembers fields none seen c (Document.ofMembers ms) := by
  rw [Document.ofMembers, changeByMembers]
  simp only [bind, Except.bind, h, Document.skip_ofJson]

/-- A member that names a field changes the record, unless the field was named before. -/
theorem changeByMembers_of_find?_eq_some {fields : List (Field F C)} {f : Field F C} {key : String}
    (h : (fields.find? fun f => f.key = key) = some f) (v : Json F) (ms : List (String × Json F))
    (seen : List String) (c : C) :
    changeByMembers fields none seen c (Document.ofMembers ((key, v) :: ms)) =
      if seen.contains key then .error .mismatched
      else f.read (.ofJson v) >>= fun change =>
        changeByMembers fields none (key :: seen) (change c) (Document.ofMembers ms) := by
  rw [Document.ofMembers, changeByMembers]
  simp only [bind, Except.bind, h]

/-- The set of keys `S` and one more. -/
def insertKey (key : String) (S : String → Bool) : String → Bool := fun k => k = key || S k

section Members

variable {fields : List (Field F C)} {state : (String → Bool) → C}

/-- A value that adds the key of a field to the state of a record. -/
def Adds (state : (String → Bool) → C) (f : Field F C) (v : Json F) : Prop :=
  ∃ g, f.read (.ofJson v) = .ok g ∧ ∀ S, g (state S) = state (insertKey f.key S)

theorem adds_of_map {A : Type} {f : Field F C} {v : Json F} {read : Document F → Except Fault A}
    {set : A → C → C} {a : A} (hf : ∀ d, f.read d = (read d).map set)
    (hread : read (.ofJson v) = .ok a) (hset : ∀ S, set a (state S) = state (insertKey f.key S)) :
    Adds state f v :=
  ⟨set a, by rw [hf, hread]; rfl, hset⟩

/-- The members that name a field. -/
def named (fields : List (Field F C)) (ms : List (String × Json F)) : List (String × Json F) :=
  ms.filter fun m => fields.any fun f => f.key = m.1

theorem named_cons_of_find?_eq_none {key : String} (v : Json F) (ms : List (String × Json F))
    (h : (fields.find? fun f => f.key = key) = none) :
    named fields ((key, v) :: ms) = named fields ms := by
  refine List.filter_cons_of_neg fun hany => ?_
  obtain ⟨f, hf, hkey⟩ := List.any_eq_true.1 hany
  exact List.find?_eq_none.1 h f hf hkey

theorem named_cons_of_mem {f : Field F C} (h : f ∈ fields) (v : Json F)
    (ms : List (String × Json F)) :
    named fields ((f.key, v) :: ms) = (f.key, v) :: named fields ms :=
  List.filter_cons_of_pos (List.any_eq_true.2 ⟨f, h, decide_eq_true rfl⟩)

/-- **Members make a state of the keys that they name**, whatever their order is. The keys that were
seen are not named again, and so the induction is on the members with any such keys. -/
theorem changeByMembers_ofMembers {ms : List (String × Json F)}
    (hread : ∀ f ∈ fields, ∀ v, (f.key, v) ∈ named fields ms → Adds state f v)
    (hnodup : ((named fields ms).map (·.1)).Nodup) {seen : List String}
    (hseen : ∀ m ∈ named fields ms, m.1 ∉ seen) (S : String → Bool) :
    changeByMembers fields none seen (state S) (Document.ofMembers ms) =
      .ok (state fun k => (named fields ms).any (fun m => m.1 = k) || S k) := by
  induction ms generalizing seen S with
  | nil => rfl
  | cons m ms ih =>
    obtain ⟨key, v⟩ := m
    cases hfind : fields.find? fun f => f.key = key with
    | none =>
      rw [changeByMembers_of_find?_eq_none hfind]
      rw [named_cons_of_find?_eq_none v ms hfind] at *
      exact ih hread hnodup hseen S
    | some f =>
      obtain rfl : f.key = key := by simpa using List.find?_some hfind
      have hmem := List.mem_of_find?_eq_some hfind
      rw [named_cons_of_mem hmem] at *
      rw [List.map_cons, List.nodup_cons] at hnodup
      obtain ⟨hfirst, hnodup⟩ := hnodup
      rw [List.forall_mem_cons] at hseen
      obtain ⟨g, hg, hstate⟩ := hread f hmem v List.mem_cons_self
      have hnew : ¬ seen.contains f.key = true := by simpa using hseen.1
      rw [changeByMembers_of_find?_eq_some hfind, if_neg hnew, hg]
      change changeByMembers fields none (f.key :: seen) (g (state S)) _ = _
      rw [hstate, ih (fun f hf v hv => hread f hf v (List.mem_cons_of_mem _ hv)) hnodup]
      · have hkey (k : String) : decide (f.key = k) = decide (k = f.key) :=
          decide_eq_decide.2 eq_comm
        simp only [insertKey, List.any_cons, hkey, Bool.or_assoc, Bool.or_left_comm]
      · intro m hm
        rw [List.mem_cons, not_or]
        exact ⟨fun heq => hfirst (List.mem_map.2 ⟨m, hm, heq⟩), hseen.2 m hm⟩

/-- **An object makes a state of the keys that it offers**, if the values that are given to the
fields add their keys. -/
theorem readRecord_of_offers {whole : Json F} {chosen ms : List (String × Json F)}
    {given : Field F C → Json F} (hkeys : (fields.map (·.key)).Nodup)
    (hadds : ∀ f ∈ fields, Adds state f (given f))
    (hwhole : ∀ key, whole.hasKey key = fields.any fun f => f.key = key)
    (hchosen : chosen.Sublist (fields.map fun f => (f.key, given f)))
    (hms : Offers whole chosen ms) :
    readRecord fields (state fun _ => false) (.ofJson (.object ms)) =
      .ok (state fun k => chosen.any fun m => m.1 = k) := by
  have hnamed : (named fields ms).Perm chosen := by
    rw [Offers] at hms
    simpa only [named, hwhole] using hms
  have hmem {m : String × Json F} : m ∈ named fields ms ↔ m ∈ chosen := hnamed.mem_iff
  have hnodup : (chosen.map (·.1)).Nodup := by
    refine List.Nodup.sublist (hchosen.map _) ?_
    rwa [List.map_map]
  have hread : ∀ f ∈ fields, ∀ v, (f.key, v) ∈ named fields ms → Adds state f v := by
    intro f hf v hv
    obtain ⟨g, hg, heq⟩ := List.mem_map.1 (hchosen.mem (hmem.1 hv))
    obtain ⟨hkey, rfl⟩ := Prod.mk.inj heq
    obtain rfl := List.inj_on_of_nodup_map hkeys hg hf hkey
    exact hadds g hg
  rw [Document.ofJson, readRecord,
    changeByMembers_ofMembers hread ((hnamed.map _).nodup_iff.2 hnodup) fun _ _ => List.not_mem_nil]
  congr 2
  funext k
  rw [Bool.or_false, Bool.eq_iff_iff, List.any_eq_true, List.any_eq_true]
  exact exists_congr fun m => and_congr_left fun _ => hmem

theorem any_filter_members (whole : Json F) (S : String → Bool) (key : String) :
    ((whole.members.filter fun m => S m.1).any fun m => m.1 = key) =
      (S key && whole.hasKey key) := by
  rw [List.any_filter, hasKey, Bool.eq_iff_iff, Bool.and_eq_true, List.any_eq_true,
    List.any_eq_true]
  constructor
  · rintro ⟨m, hm, h⟩
    obtain ⟨hS, hkey⟩ := Bool.and_eq_true_iff.1 h
    exact ⟨of_decide_eq_true hkey ▸ hS, m, hm, hkey⟩
  · rintro ⟨hS, m, hm, hkey⟩
    exact ⟨m, hm, Bool.and_eq_true_iff.2 ⟨of_decide_eq_true hkey ▸ hS, hkey⟩⟩

end Members

/-! ## Items -/

/-- A field is found by its key. -/
theorem find?_key_eq {fields : List (Field F C)} (hnodup : (fields.map (·.key)).Nodup)
    {f : Field F C} (hf : f ∈ fields) : (fields.find? fun g => g.key = f.key) = some f := by
  induction fields with
  | nil => cases hf
  | cons g fields ih =>
    rw [List.map_cons, List.nodup_cons] at hnodup
    obtain rfl | hf := List.mem_cons.1 hf
    · exact List.find?_cons_of_pos (decide_eq_true rfl)
    · have hne : g.key ≠ f.key := fun heq => hnodup.1 (List.mem_map.2 ⟨f, hf, heq.symm⟩)
      rw [List.find?_cons_of_neg (by simpa using hne)]
      exact ih hnodup.2 hf

/-- The first fields make the same changes as items and as members. -/
theorem changeByMembers_map_eq {all fields rest : List (Field F C)} (c : C)
    (hall : ∀ f ∈ fields, all.find? (fun g => g.key = f.key) = some f)
    (hnodup : (fields.map (·.key)).Nodup) {seen : List String}
    (hseen : ∀ f ∈ fields, f.key ∉ seen) (start : C) :
    changeByMembers all none seen start
        (Document.ofMembers (fields.map fun f => (f.key, f.write c))) =
      changeByItems none (fields ++ rest) start (Document.ofItems (fields.map (·.write c))) := by
  induction fields generalizing seen start with
  | nil => cases rest <;> rfl
  | cons f fields ih =>
    rw [List.forall_mem_cons] at hall hseen
    rw [List.map_cons, List.nodup_cons] at hnodup
    have hnew : ¬ seen.contains f.key = true := by simpa using hseen.1
    rw [List.map_cons, List.map_cons, changeByMembers_of_find?_eq_some hall.1, if_neg hnew,
      Document.ofItems, List.cons_append, changeByItems]
    cases f.read (.ofJson (f.write c)) with
    | error e => rfl
    | ok g =>
      refine ih hall.2 hnodup.2 (fun f' hf' => ?_) (g start)
      rw [List.mem_cons, not_or]
      exact ⟨fun heq => hnodup.1 (List.mem_map.2 ⟨f', hf', heq⟩), hseen.2 f' hf'⟩

/-- **The first fields are read alike from an array and from an object.** -/
theorem readRecord_array_take {fields : List (Field F C)} (hnodup : (fields.map (·.key)).Nodup)
    (default c : C) (k : ℕ) :
    readRecord fields default
        (.ofJson (.array (((Field.writeAll fields c).members.map (·.2)).take k))) =
      readRecord fields default (.ofJson (.object ((Field.writeAll fields c).members.take k))) := by
  have hkeys : ((fields.take k).map (·.key)).Nodup := by
    rw [List.map_take]
    exact hnodup.sublist (List.take_sublist ..)
  have hsame : changeByMembers fields none [] default
        (Document.ofMembers ((fields.take k).map fun f => (f.key, f.write c))) =
      changeByItems none (fields.take k ++ fields.drop k) default
        (Document.ofItems ((fields.take k).map (·.write c))) :=
    changeByMembers_map_eq c (fun f hf => find?_key_eq hnodup (List.mem_of_mem_take hf)) hkeys
      (fun _ _ => List.not_mem_nil) default
  rw [List.take_append_drop, List.map_take, List.map_take] at hsame
  rw [Field.writeAll, members, List.map_map]
  exact hsame.symm

/-! ## What reading keeps -/

/-- A value whose numbers a text can hold: integers of sixty-four bits, with a sign or without one,
and finite numbers. -/
inductive Proper [Arith F] : Json F → Prop
  | null : Proper null
  | bool (b : Bool) : Proper (bool b)
  | int {i : Int} (hlow : minWord ≤ i) (hhigh : i < 2 ^ 64) : Proper (int i)
  | real {x : F} (h : Arith.isFinite x = true) : Proper (real x)
  | text (s : String) : Proper (text s)
  | array {items : List (Json F)} (h : ∀ v ∈ items, Proper v) : Proper (array items)
  | object {members : List (String × Json F)} (h : ∀ m ∈ members, Proper m.2) :
    Proper (object members)

theorem Proper.isFinite_number? {v : Json Double} (hv : v.Proper) {x : Double}
    (h : v.number? = some x) : Arith.isFinite x = true := by
  cases hv with
  | int hlow hhigh =>
    obtain rfl := Option.some.inj h
    rw [minWord] at hlow
    exact Double.isFinite_ofInt (by omega)
  | real hx =>
    obtain rfl := Option.some.inj h
    exact hx
  | _ => cases h

theorem Proper.isFinite_of_number?_ofJson {v : Json Double} (hv : v.Proper) {x : Double}
    (h : (Document.ofJson v).number? = .ok x) : Arith.isFinite x = true := by
  rw [Document.number?_ofJson] at h
  cases hx : v.number? with
  | none =>
    rw [hx] at h
    cases h
  | some y =>
    rw [hx] at h
    obtain rfl := Except.ok.inj h
    exact hv.isFinite_number? hx

section Keeps

variable [Arith F] {P : C → Prop} {fields : List (Field F C)}

/-- Proper values of the field make changes that keep a property of the record. -/
def Keeps (P : C → Prop) (f : Field F C) : Prop :=
  ∀ v : Json F, v.Proper → ∀ g, f.read (.ofJson v) = .ok g → ∀ c, P c → P (g c)

theorem keeps_of_map {A : Type} {f : Field F C} {read : Document F → Except Fault A}
    {set : A → C → C} (hf : ∀ d, f.read d = (read d).map set)
    (hset : ∀ v : Json F, v.Proper → ∀ a, read (.ofJson v) = .ok a → ∀ c, P c → P (set a c)) :
    Keeps P f := by
  intro v hv g hg c hc
  rw [hf] at hg
  obtain ⟨a, ha, rfl⟩ := except_map_eq_ok_iff.1 hg
  exact hset v hv a ha c hc

theorem changeByItems_keeps (hkeeps : ∀ f ∈ fields, Keeps P f) {items : List (Json F)}
    (hitems : ∀ v ∈ items, v.Proper) {start c : C} (hstart : P start)
    (h : changeByItems none fields start (Document.ofItems items) = .ok c) : P c := by
  induction items generalizing fields start with
  | nil =>
    obtain rfl : start = c := by cases fields <;> exact Except.ok.inj h
    exact hstart
  | cons v items ih =>
    cases fields with
    | nil => cases h
    | cons f fields =>
      rw [List.forall_mem_cons] at hkeeps hitems
      rw [Document.ofItems, changeByItems] at h
      obtain ⟨g, hg, h⟩ := except_bind_eq_ok_iff.1 h
      exact ih hkeeps.2 hitems.2 (hkeeps.1 v hitems.1 g hg start hstart) h

theorem changeByMembers_keeps (hkeeps : ∀ f ∈ fields, Keeps P f)
    {members : List (String × Json F)} (hmembers : ∀ m ∈ members, m.2.Proper) {seen : List String}
    {start c : C} (hstart : P start)
    (h : changeByMembers fields none seen start (Document.ofMembers members) = .ok c) : P c := by
  induction members generalizing seen start with
  | nil =>
    obtain rfl : start = c := Except.ok.inj h
    exact hstart
  | cons m members ih =>
    obtain ⟨key, v⟩ := m
    rw [List.forall_mem_cons] at hmembers
    cases hfind : fields.find? fun f => f.key = key with
    | none =>
      rw [changeByMembers_of_find?_eq_none hfind] at h
      exact ih hmembers.2 hstart h
    | some f =>
      rw [changeByMembers_of_find?_eq_some hfind] at h
      split at h
      · cases h
      · obtain ⟨g, hg, h⟩ := except_bind_eq_ok_iff.1 h
        have hf := hkeeps f (List.mem_of_find?_eq_some hfind)
        exact ih hmembers.2 (hf v hmembers.1 g hg start hstart) h

/-- **A record has what its default has and its fields keep**, when its value is proper. -/
theorem readRecord_keeps (hkeeps : ∀ f ∈ fields, Keeps P f) {v : Json F} (hv : v.Proper)
    {start c : C} (hstart : P start) (h : readRecord fields start (.ofJson v) = .ok c) : P c := by
  cases hv with
  | array hitems => exact changeByItems_keeps hkeeps hitems hstart h
  | object hmembers => exact changeByMembers_keeps hkeeps hmembers hstart h
  | _ => cases h

end Keeps

end Json

end Starfilm
