import Mathlib.Data.List.Nodup
import Starfilm.Proofs.Disk.Ways

/-!
# The order of names and of entries

Names are compared by their characters, which comes to comparing their bytes: a greater character
has a greater encoding, and never one that begins with that of a smaller character
(`Name.le_iff_bytes_le`). So the names have a linear order.

The order in which a disk tells its entries is no more than the order in which directories list
them. Two disks that differ in it (`Disk.Rearranged`) find the same under every path, and a
directory lists the same names in some other order (`Disk.Rearranged.list`).
-/

namespace Starfilm

/-! ## Names by their bytes -/

namespace Name

/-- The bytes of a name. -/
def bytes (n : Name) : List UInt8 := n.flatMap String.utf8EncodeChar

theorem cons_ofNat_lt_cons_ofNat {m n : ℕ} (hm : m < 256) (hn : n < 256) (x y : List UInt8) :
    UInt8.ofNat m :: x < UInt8.ofNat n :: y ↔ m < n ∨ m = n ∧ x < y := by
  rw [List.cons_lt_cons_iff, UInt8.lt_iff_toNat_lt, ← UInt8.toNat_inj, UInt8.toNat_ofNat_of_lt' hm,
    UInt8.toNat_ofNat_of_lt' hn]

/-- The encoding of a greater character is greater, whatever follows. -/
theorem utf8EncodeChar_append_lt {a b : Char} (h : a.toNat < b.toNat) (x y : List UInt8) :
    String.utf8EncodeChar a ++ x < String.utf8EncodeChar b ++ y := by
  have hb : b.val.toNat < 0x110000 := by
    rcases b.valid with h | ⟨-, h⟩
    · exact h.trans (by decide)
    · exact h
  change a.val.toNat < b.val.toNat at h
  simp only [String.utf8EncodeChar]
  generalize a.val.toNat = v at *
  generalize b.val.toNat = w at *
  -- each number is made of digits to the base 64, and the first that differ tell the order
  have hdigits (n : ℕ) : n / 4096 = n / 64 / 64 ∧ n / 262144 = n / 64 / 64 / 64 := by omega
  have hfirst (m n : ℕ) : m < n ↔ m / 64 < n / 64 ∨ m / 64 = n / 64 ∧ m % 64 < n % 64 := by omega
  have h0 := (hfirst v w).1 h
  have h1 := hfirst (v / 64) (w / 64)
  have h2 := hfirst (v / 64 / 64) (w / 64 / 64)
  simp only [hdigits]
  split_ifs <;>
    simp (disch := omega) only [List.cons_append, List.nil_append, cons_ofNat_lt_cons_ofNat] <;>
    omega

theorem append_lt_append_left (x : List UInt8) {y z : List UInt8} : x ++ y < x ++ z ↔ y < z := by
  induction x with
  | nil => rfl
  | cons b x ih => rw [List.cons_append, List.cons_append, List.cons_lt_cons_self, ih]

/-- **The order of names is that of their bytes.** -/
theorem le_iff_bytes_le (m n : Name) : le m n = true ↔ bytes m ≤ bytes n := by
  induction m generalizing n with
  | nil => exact iff_of_true rfl (List.nil_le _)
  | cons a m ih =>
    cases n with
    | nil =>
      have hne : bytes (a :: m) ≠ [] := by
        rw [bytes, List.flatMap_cons, Ne, List.append_eq_nil_iff]
        exact fun h => String.utf8EncodeChar_ne_nil h.1
      exact iff_of_false Bool.false_ne_true (mt List.le_nil.1 hne)
    | cons b n =>
      rw [le, bytes, bytes, List.flatMap_cons, List.flatMap_cons, ← List.not_lt]
      split_ifs with hab
      · subst hab
        rw [append_lt_append_left, List.not_lt]
        exact ih n
      · rw [decide_eq_true_iff]
        rcases lt_or_gt_of_ne (mt Char.toNat_inj.1 hab) with h | h
        · exact iff_of_true h (List.lt_asymm (utf8EncodeChar_append_lt h _ _))
        · exact iff_of_false h.asymm (not_not_intro (utf8EncodeChar_append_lt h _ _))

theorem le_total (m n : Name) : (le m n || le n m) = true := by
  rw [Bool.or_eq_true, le_iff_bytes_le, le_iff_bytes_le]
  exact Std.le_total

theorem le_trans (m n k : Name) (hmn : le m n = true) (hnk : le n k = true) : le m k = true := by
  rw [le_iff_bytes_le] at *
  exact Std.le_trans hmn hnk

theorem le_antisymm (m n : Name) (hmn : le m n = true) (hnm : le n m = true) : m = n := by
  induction m generalizing n with
  | nil =>
    cases n with
    | nil => rfl
    | cons b n => cases hnm
  | cons a m ih =>
    cases n with
    | nil => cases hmn
    | cons b n =>
      rw [le] at hmn hnm
      by_cases hab : a = b
      · subst hab
        rw [if_pos rfl] at hmn hnm
        rw [ih n hmn hnm]
      · rw [if_neg hab, decide_eq_true_iff] at hmn
        rw [if_neg (Ne.symm hab), decide_eq_true_iff] at hnm
        omega

theorem bytes_lt_of_le_of_ne {m n : Name} (h : le m n = true) (hne : m ≠ n) :
    bytes m < bytes n := by
  rw [← List.not_le, ← le_iff_bytes_le]
  exact fun h' => hne (le_antisymm m n h h')

end Name

/-! ## Entries in another order -/

namespace Disk

/-- Every place has at most one entry. -/
def Unique (d : Disk) : Prop := (d.entries.map (·.1)).Nodup

instance (d : Disk) : Decidable d.Unique := inferInstanceAs (Decidable (List.Nodup _))

theorem node?_eq_some_iff {d : Disk} (h : d.Unique) {p : Place} {x : Node} :
    d.node? p = some x ↔ (p, x) ∈ d.entries := by
  rw [node?, Option.map_eq_some_iff]
  constructor
  · rintro ⟨e, he, rfl⟩
    have hp : e.1 = p := by simpa using List.find?_some he
    exact hp ▸ List.mem_of_find?_eq_some he
  · intro hmem
    have hsome : (d.entries.find? fun e => e.1 = p).isSome = true := by
      rw [List.find?_isSome]
      exact ⟨_, hmem, decide_eq_true rfl⟩
    obtain ⟨e, he⟩ := Option.isSome_iff_exists.1 hsome
    have hp : e.1 = p := by simpa using List.find?_some he
    refine ⟨e, he, ?_⟩
    rw [List.inj_on_of_nodup_map h (List.mem_of_find?_eq_some he) hmem hp]

/-- The name that a place has in the directory at `p`, if it is there. -/
def nameIn? (p : Place) : Place → Option Name
  | n :: q => if q = p then some n else none
  | [] => none

theorem eq_of_nameIn? {p q : Place} {n : Name} (h : nameIn? p q = some n) : q = n :: p := by
  cases q with
  | nil => cases h
  | cons m q =>
    rw [nameIn?] at h
    split at h
    · rename_i hq
      rw [hq, Option.some.inj h]
    · cases h

theorem Unique.nodup_children {d : Disk} (h : d.Unique) (p : Place) : (d.children p).Nodup := by
  have hplaces : d.children p = (d.entries.map (·.1)).filterMap (nameIn? p) := by
    rw [children, List.filterMap_map]
    rfl
  rw [hplaces]
  refine List.Nodup.filterMap (fun q r n hq hr => ?_) h
  rw [eq_of_nameIn? hq, eq_of_nameIn? hr]

theorem Unique.nodup_list {d : Disk} (h : d.Unique) {p : Path} {names : List Name}
    (hlist : d.list p = .ok names) : names.Nodup := by
  obtain ⟨q, -, rfl⟩ := list_eq_ok_iff.1 hlist
  exact h.nodup_children q

/-- The same disk with its entries told in another order. -/
structure Rearranged (d e : Disk) : Prop where
  unique : d.Unique
  entries : e.entries.Perm d.entries
  here : e.here = d.here

namespace Rearranged

theorem refl {d : Disk} (h : d.Unique) : Rearranged d d := ⟨h, .refl _, rfl⟩

variable {d e : Disk} (h : Rearranged d e)

include h

theorem unique_right : e.Unique := (h.entries.map _).nodup_iff.2 h.unique

theorem node? (p : Place) : e.node? p = d.node? p := by
  refine Option.ext fun x => ?_
  rw [node?_eq_some_iff h.unique_right, node?_eq_some_iff h.unique]
  exact h.entries.mem_iff

theorem walk (p : Place) (ss : List Name) : e.walk p ss = d.walk p ss := by
  induction ss generalizing p with
  | nil => rfl
  | cons s ss ih => rw [Disk.walk, Disk.walk, h.node?, ih]

theorem find (p : Path) : e.find p = d.find p := by
  simp only [Disk.find, resolve, h.walk, h.node?, h.here]

theorem isFile (p : Path) : e.isFile p = d.isFile p := by
  rw [Disk.isFile, Disk.isFile, h.find]

theorem children (p : Place) : (e.children p).Perm (d.children p) := h.entries.filterMap _

/-- **A directory lists the same names**, each once, or fails in the same way. -/
theorem list (p : Path) :
    (∃ f, d.list p = .error f ∧ e.list p = .error f) ∨
      ∃ names names', d.list p = .ok names ∧ e.list p = .ok names' ∧ names'.Perm names := by
  rw [Disk.list, Disk.list, h.find]
  cases hfind : d.find p with
  | error f => exact .inl ⟨f, rfl, rfl⟩
  | ok found =>
    obtain ⟨place, x⟩ := found
    cases x with
    | directory => exact .inr ⟨_, _, rfl, rfl, h.children place⟩
    | file c x => exact .inl ⟨_, rfl, rfl⟩
    | fullDevice => exact .inl ⟨_, rfl, rfl⟩
    | nullDevice => exact .inl ⟨_, rfl, rfl⟩

end Rearranged

end Disk

end Starfilm
