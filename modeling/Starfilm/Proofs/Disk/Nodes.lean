import Starfilm.Proofs.Disk.Paths

/-!
# What is in a place

`node?_put` and `node?_erase` say what a change of one place does to all of them, and `mem_children`
what a directory lists; no other proof looks at the list of entries. A disk is a tree
(`Disk.IsTree`) when everything but the root is in a directory under a proper name. Two disks with
the same directories lead every path to the same place, so writing and removing files change no way
(`Disk.SameDirectories`).
-/

namespace Starfilm

namespace Disk

/-! ## Changes of one place -/

section Nodes

variable (d : Disk) (p : Place)

/-- Replacing what is in `p` by `n` changes nothing elsewhere. -/
theorem find?_map_replace (n : Node) (q : Place) (es : List (Place × Node)) :
    ((es.map fun e => if e.1 = p then (p, n) else e).find? fun e => e.1 = q) =
      if q = p then (es.find? fun e => e.1 = p).map fun _ => (p, n)
      else es.find? fun e => e.1 = q := by
  induction es with
  | nil => simp
  | cons e es ih =>
    rw [List.map_cons, List.find?_cons, List.find?_cons, List.find?_cons, ih]
    by_cases hep : e.1 = p <;> by_cases hqp : q = p
    · simp [hep, hqp]
    · simp [hep, Ne.symm hqp, hqp]
    · simp [hep, hqp]
    · simp [hep, hqp]

theorem node?_put (n : Node) (q : Place) :
    (d.put p n).node? q = if q = p then some n else d.node? q := by
  unfold put
  split_ifs with hsome hqp hqp
  · subst hqp
    simp only [node?, Option.isSome_map] at hsome ⊢
    rw [find?_map_replace, if_pos rfl]
    obtain ⟨e, he⟩ := Option.isSome_iff_exists.1 hsome
    simp [he]
  · rw [node?, find?_map_replace, if_neg hqp, node?]
  · subst hqp
    simp only [node?, Option.isSome_map, Option.not_isSome_iff_eq_none] at hsome ⊢
    simp [List.find?_append, hsome]
  · simp [node?, List.find?_append, Ne.symm hqp]

@[simp] theorem node?_put_self (n : Node) : (d.put p n).node? p = some n := by
  rw [node?_put, if_pos rfl]

variable {p} in
theorem node?_put_of_ne (n : Node) {q : Place} (h : q ≠ p) : (d.put p n).node? q = d.node? q := by
  rw [node?_put, if_neg h]

@[simp] theorem put_here (n : Node) : (d.put p n).here = d.here := by
  unfold put
  split_ifs <;> rfl

/-- Of two changes of one place the second stays. -/
theorem put_put (n m : Node) : (d.put p n).put p m = d.put p m := by
  have hself : ((d.put p n).node? p).isSome = true := by simp
  rw [put, if_pos hself]
  unfold put
  split_ifs with hsome
  · simp only [List.map_map, mk.injEq, and_true]
    refine List.map_congr_left fun e _ => ?_
    by_cases he : e.1 = p <;> simp [he]
  · have hnone : ∀ e ∈ d.entries, e.1 ≠ p := fun e he heq => hsome (by
      simp only [node?, Option.isSome_map, List.find?_isSome, decide_eq_true_eq]
      exact ⟨e, he, heq⟩)
    simp only [List.map_append, List.map_cons, List.map_nil, if_true, mk.injEq, and_true,
      List.append_cancel_right_eq]
    exact (List.map_congr_left fun e he => if_neg (hnone e he)).trans (List.map_id _)

theorem node?_erase (q : Place) : (d.erase p).node? q = if q = p then none else d.node? q := by
  simp only [node?, erase, List.find?_filter]
  split_ifs with hqp
  · subst hqp
    simp
  · congr 2
    funext e
    by_cases he : e.1 = q
    · simp [he, hqp]
    · simp [he]

@[simp] theorem erase_here : (d.erase p).here = d.here := rfl

/-- A directory lists the names under which something is in it. -/
theorem mem_children (n : Name) : n ∈ d.children p ↔ (d.node? (n :: p)).isSome = true := by
  simp only [children, List.mem_filterMap, node?, Option.isSome_map, List.find?_isSome,
    decide_eq_true_eq]
  refine exists_congr fun e => and_congr_right fun _ => ?_
  obtain ⟨_ | ⟨m, q⟩, x⟩ := e
  · simp
  · simp only [Option.ite_none_right_eq_some, Option.some.injEq, List.cons.injEq]
    exact and_comm

end Nodes

/-! ## Trees -/

/-- The root, or a proper name in a directory. -/
def Attached (d : Disk) : Place → Prop
  | [] => True
  | n :: p => n.IsProper ∧ d.node? p = some .directory

instance (d : Disk) : (p : Place) → Decidable (d.Attached p)
  | [] => .isTrue trivial
  | n :: p => inferInstanceAs (Decidable (n.IsProper ∧ d.node? p = some .directory))

/-- The root is a directory, and everything else is in a directory under a proper name. -/
structure IsTree (d : Disk) : Prop where
  root : d.node? [] = some .directory
  attached {p : Place} {x : Node} : d.node? p = some x → d.Attached p

theorem isTree_of_entries {d : Disk} (hroot : d.node? [] = some .directory)
    (h : ∀ e ∈ d.entries, d.Attached e.1) : d.IsTree := by
  refine ⟨hroot, fun {p x} hp => ?_⟩
  obtain ⟨e, he, -⟩ := Option.map_eq_some_iff.1 hp
  have heq : e.1 = p := by simpa using List.find?_some he
  exact heq ▸ h e (List.mem_of_find?_eq_some he)

/-- The same directories, seen from the same one. -/
structure SameDirectories (d e : Disk) : Prop where
  here : e.here = d.here
  node? (q : Place) : e.node? q = some .directory ↔ d.node? q = some .directory

namespace SameDirectories

theorem refl (d : Disk) : SameDirectories d d := ⟨rfl, fun _ => Iff.rfl⟩

theorem symm {d e : Disk} (h : SameDirectories d e) : SameDirectories e d :=
  ⟨h.here.symm, fun q => (h.node? q).symm⟩

theorem trans {d e f : Disk} (h : SameDirectories d e) (h' : SameDirectories e f) :
    SameDirectories d f :=
  ⟨h'.here.trans h.here, fun q => (h'.node? q).trans (h.node? q)⟩

/-- A file in the stead of what is no directory. -/
theorem put_file {d : Disk} {p : Place} (h : d.node? p ≠ some .directory) (c : Content) (x : Bool) :
    SameDirectories d (d.put p (.file c x)) := by
  refine ⟨put_here d p _, fun q => ?_⟩
  rw [node?_put]
  split_ifs with hq
  · subst hq
    exact iff_of_false (by simp) h
  · rfl

theorem erase {d : Disk} {p : Place} (h : d.node? p ≠ some .directory) :
    SameDirectories d (d.erase p) := by
  refine ⟨rfl, fun q => ?_⟩
  rw [node?_erase]
  split_ifs with hq
  · subst hq
    exact iff_of_false (by simp) h
  · rfl

end SameDirectories

namespace IsTree

variable {d : Disk} (ht : d.IsTree)

include ht

/-- With other files in the same directories a tree stays one, if they have proper names. -/
theorem of_sameDirectories {e : Disk} (hsame : SameDirectories d e)
    (h : ∀ n p x, e.node? (n :: p) = some x →
      d.node? (n :: p) = some x ∨ n.IsProper ∧ d.node? p = some .directory) : e.IsTree := by
  refine ⟨(hsame.node? []).2 ht.root, fun {p x} hp => ?_⟩
  cases p with
  | nil => exact trivial
  | cons n p =>
    rcases h n p x hp with hold | ⟨hn, hdir⟩
    · obtain ⟨hn, hdir⟩ := ht.attached hold
      exact ⟨hn, (hsame.node? p).2 hdir⟩
    · exact ⟨hn, (hsame.node? p).2 hdir⟩

theorem put_file {p : Place} (hp : d.Attached p) (h : d.node? p ≠ some .directory) (c : Content)
    (x : Bool) : (d.put p (.file c x)).IsTree := by
  refine ht.of_sameDirectories (.put_file h c x) fun n q y hy => ?_
  rw [node?_put] at hy
  split_ifs at hy with heq
  · subst heq
    exact .inr hp
  · exact .inl hy

theorem erase {p : Place} (h : d.node? p ≠ some .directory) : (d.erase p).IsTree := by
  refine ht.of_sameDirectories (.erase h) fun n q y hy => ?_
  rw [node?_erase] at hy
  split_ifs at hy
  exact .inl hy

theorem put_directory {p : Place} (hp : d.Attached p) : (d.put p .directory).IsTree := by
  have hmore {q : Place} (hq : d.node? q = some .directory) :
      (d.put p .directory).node? q = some .directory := by
    rw [node?_put, hq, ite_self]
  refine ⟨hmore ht.root, fun {q y} hy => ?_⟩
  rw [node?_put] at hy
  have hold : d.Attached q := by
    split_ifs at hy with heq
    · rwa [heq]
    · exact ht.attached hy
  cases q with
  | nil => exact trivial
  | cons n q => exact ⟨hold.1, hmore hold.2⟩

end IsTree

end Disk

end Starfilm
