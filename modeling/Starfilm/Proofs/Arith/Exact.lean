import Mathlib.Algebra.Order.Field.Basic
import Mathlib.Algebra.Order.Floor.Ring
import Mathlib.Data.Prod.Lex
import Mathlib.Tactic.FieldSimp
import Starfilm.Proofs.Arith.PlaceOrder

/-!
# Exact numbers

The elements of an ordered field, with two infinities and a value that is no number: what machine
numbers would be if no finite operation rounded or overflowed. Finite operations are those of the
field. The others follow the rules of machine numbers, as far as these can be told without a sign of
zero.

Statements about exact geometry are made over `Exact K`; on finite values the lemmas of this module
turn every operation of `Arith` into one of `K`.
-/

namespace Starfilm

/-- A number of an ordered field, an infinity, or no number. -/
inductive Exact (K : Type) where
  | finite (a : K)
  | infinite (negative : Bool)
  | nan
  deriving DecidableEq, Repr

/-- The integer next to `a` in a direction. -/
def Rounding.integer {K : Type} [Field K] [LinearOrder K] [IsStrictOrderedRing K] [FloorRing K]
    (r : Rounding) (a : K) : ℤ :=
  match r with
  | .down => ⌊a⌋
  | .up => ⌈a⌉
  | .towardZero => if 0 ≤ a then ⌊a⌋ else ⌈a⌉
  | .nearest => if 0 ≤ a then ⌊a + 1 / 2⌋ else ⌈a - 1 / 2⌉

namespace Exact

/-- The number that a finite value is; `0` for the others. -/
def val {K : Type} [Zero K] : Exact K → K
  | finite a => a
  | infinite _ => 0
  | nan => 0

@[simp] theorem val_finite {K : Type} [Zero K] (a : K) : (finite a).val = a := rfl

variable {K : Type} [Field K] [LinearOrder K] [IsStrictOrderedRing K] [FloorRing K]

def add : Exact K → Exact K → Exact K
  | finite a, finite b => finite (a + b)
  | infinite s, infinite t => if s = t then infinite s else nan
  | infinite s, finite _ => infinite s
  | finite _, infinite t => infinite t
  | nan, _ => nan
  | _, nan => nan

def neg : Exact K → Exact K
  | finite a => finite (-a)
  | infinite s => infinite !s
  | nan => nan

/-- An infinity with the sign of a product or quotient of which one side has the sign `s` and the
other is `a`; no number when that is `0`. -/
def scaleInfinity (s : Bool) (a : K) : Exact K :=
  if a = 0 then nan else infinite (s ^^ decide (a < 0))

def mul : Exact K → Exact K → Exact K
  | finite a, finite b => finite (a * b)
  | infinite s, infinite t => infinite (s ^^ t)
  | infinite s, finite b => scaleInfinity s b
  | finite a, infinite t => scaleInfinity t a
  | nan, _ => nan
  | _, nan => nan

def div : Exact K → Exact K → Exact K
  | finite a, finite b => if b = 0 then scaleInfinity false a else finite (a / b)
  | infinite _, infinite _ => nan
  | infinite s, finite b => infinite (s ^^ decide (b < 0))
  | finite _, infinite _ => finite 0
  | nan, _ => nan
  | _, nan => nan

def le : Exact K → Exact K → Bool
  | finite a, finite b => decide (a ≤ b)
  | infinite s, infinite t => s || !t
  | infinite s, finite _ => s
  | finite _, infinite t => !t
  | nan, _ => false
  | _, nan => false

/-- The place of what is no number is behind all others. -/
def totalLe : Exact K → Exact K → Bool
  | _, nan => true
  | nan, _ => false
  | a, b => le a b

def toInt (r : Rounding) (lo hi : ℤ) : Exact K → ℤ
  | finite a => Max.max lo (Min.min hi (r.integer a))
  | infinite s => if s then lo else hi
  | nan => 0

instance : Arith (Exact K) where
  add := add
  sub a b := add a (neg b)
  mul := mul
  div := div
  neg := neg
  ofInt i := finite i
  decimal m k := finite (m / 10 ^ k)
  magnitude
    | finite a => finite |a|
    | infinite _ => infinite false
    | nan => nan
  le := le
  totalLe := totalLe
  isFinite
    | finite _ => true
    | _ => false
  toInt := toInt
  below a := a

/-! ## Finite values -/

section Finite

variable (a b : K)

@[simp] theorem finite_add : (finite a + finite b : Exact K) = finite (a + b) := rfl

@[simp] theorem finite_sub : (finite a - finite b : Exact K) = finite (a - b) :=
  congrArg finite (sub_eq_add_neg a b).symm

@[simp] theorem finite_mul : (finite a * finite b : Exact K) = finite (a * b) := rfl

@[simp] theorem finite_neg : (-finite a : Exact K) = finite (-a) := rfl

@[simp] theorem finite_div (hb : b ≠ 0) : (finite a / finite b : Exact K) = finite (a / b) :=
  if_neg hb

@[simp] theorem ofInt_eq (i : ℤ) : (Arith.ofInt i : Exact K) = finite (i : K) := rfl

@[simp] theorem decimal_eq (m : ℤ) (k : ℕ) :
    (Arith.decimal m k : Exact K) = finite ((m : K) / 10 ^ k) :=
  rfl

@[simp] theorem magnitude_finite : Arith.magnitude (finite a) = finite |a| := rfl

@[simp] theorem le_finite : Arith.le (finite a) (finite b) = decide (a ≤ b) := rfl

@[simp] theorem totalLe_finite : Arith.totalLe (finite a) (finite b) = decide (a ≤ b) := rfl

@[simp] theorem lt_finite : Arith.lt (finite a) (finite b) = decide (a < b) := by
  rw [Arith.lt, le_finite, le_finite, ← decide_not, ← Bool.decide_and]
  exact decide_eq_decide.2 lt_iff_le_not_ge.symm

@[simp] theorem eqv_finite : Arith.eqv (finite a) (finite b) = decide (a = b) := by
  rw [Arith.eqv, le_finite, le_finite, ← Bool.decide_and]
  exact decide_eq_decide.2 le_antisymm_iff.symm

@[simp] theorem isFinite_finite : Arith.isFinite (finite a) = true := rfl

@[simp] theorem toInt_finite (r : Rounding) (lo hi : ℤ) :
    Arith.toInt r lo hi (finite a) = Max.max lo (Min.min hi (r.integer a)) := rfl

theorem clamp_finite {lo hi : K} (h : lo ≤ hi) :
    Arith.clamp (finite lo) (finite hi) (finite a) = finite (Max.max lo (Min.min hi a)) := by
  simp only [Arith.clamp, lt_finite, decide_eq_true_eq]
  split_ifs with hlo hhi
  · rw [min_eq_right (hlo.le.trans h), max_eq_left hlo.le]
  · rw [min_eq_left hhi.le, max_eq_right h]
  · rw [min_eq_right (not_lt.1 hhi), max_eq_right (not_lt.1 hlo)]

end Finite

/-- A finite value is a number of the field. -/
theorem finite_val {a : Exact K} (h : Arith.isFinite a = true) : finite a.val = a := by
  cases a with
  | finite a => rfl
  | infinite s => exact absurd h Bool.false_ne_true
  | nan => exact absurd h Bool.false_ne_true

/-- What lies between two finite values is finite. -/
theorem isFinite_of_le_of_le {a b : K} {x : Exact K} (ha : Arith.le (finite a) x = true)
    (hb : Arith.le x (finite b) = true) : Arith.isFinite x = true := by
  cases x with
  | finite x => rfl
  | infinite s => cases s <;> contradiction
  | nan => contradiction

/-! ## What is not finite

A sum, a difference or a product is finite exactly when both of its sides are: what is infinite or
no number stays so. -/

section Finiteness

variable (a b : Exact K)

@[simp] theorem isFinite_infinite (s : Bool) : Arith.isFinite (infinite s : Exact K) = false := rfl

@[simp] theorem isFinite_nan : Arith.isFinite (nan : Exact K) = false := rfl

theorem isFinite_scaleInfinity (s : Bool) (c : K) :
    Arith.isFinite (scaleInfinity s c) = false := by
  unfold scaleInfinity
  split_ifs <;> rfl

@[simp] theorem isFinite_neg : Arith.isFinite (-a) = Arith.isFinite a := by
  cases a <;> rfl

@[simp] theorem isFinite_add : Arith.isFinite (a + b) = (Arith.isFinite a && Arith.isFinite b) := by
  obtain (a | s | _) := a <;> obtain (b | t | _) := b <;> try rfl
  change Arith.isFinite (if s = t then infinite s else nan) = false
  split_ifs <;> rfl

@[simp] theorem isFinite_sub : Arith.isFinite (a - b) = (Arith.isFinite a && Arith.isFinite b) := by
  change Arith.isFinite (a + -b) = _
  rw [isFinite_add, isFinite_neg]

@[simp] theorem isFinite_mul : Arith.isFinite (a * b) = (Arith.isFinite a && Arith.isFinite b) := by
  obtain (a | s | _) := a <;> obtain (b | t | _) := b <;> try rfl
  · exact isFinite_scaleInfinity t a
  · exact isFinite_scaleInfinity s b

end Finiteness

/-! ## The order of places -/

/-- The place of a value: first its kind, then the number. -/
def place : Exact K → ℤ ×ₗ K
  | finite a => toLex (0, a)
  | infinite s => toLex (if s then -1 else 1, 0)
  | nan => toLex (2, 0)

omit [LinearOrder K] [IsStrictOrderedRing K] [FloorRing K] in
theorem place_injective : Function.Injective (place : Exact K → ℤ ×ₗ K) := by
  rintro (a | s | _) (b | t | _) h <;> simp only [place, toLex_inj, Prod.mk.injEq] at h
  all_goals grind

theorem totalLe_iff (a b : Exact K) : Arith.totalLe a b = true ↔ place a ≤ place b := by
  obtain (a | s | _) := a <;> obtain (b | t | _) := b <;>
    simp only [Arith.totalLe, totalLe, le, place, Prod.Lex.toLex_le_toLex]
  all_goals grind

instance : PlaceOrder (Exact K) := .ofKey place_injective totalLe_iff

/-- Sorting finite values by places is sorting numbers. -/
theorem mergeSort_map_finite (xs : List K) :
    (xs.map finite).mergeSort Arith.totalLe = (xs.mergeSort (· ≤ ·)).map finite :=
  (List.map_mergeSort (f := finite) fun _ _ _ _ => rfl).symm

end Exact

end Starfilm
