import Starfilm.Proofs.Arith.Operations

/-!
# Rounding keeps the order

Doubles that are not negative are ordered as their magnitudes (`Double.le_iff_magnitude_le`), and so
a quotient by a positive number and a product with one that is not negative grow with their first
operand, whatever is rounded (`Double.div_le_div`, `Double.mul_le_mul`). The integers below
and above a double grow with it too (`Double.toInt_le_toInt`).
-/

namespace Starfilm

namespace Double

open Float.Model (Format UnpackedFloat)
open Float.Model.UnpackedFloat

/-! ## The order of numbers -/

theorem nat_zero : (Arith.nat 0 : Double) = ⟨0⟩ := by decide +kernel

theorem le_iff {x y : Double} : Arith.le x y = true ↔
    x.isNumber = true ∧ y.isNumber = true ∧ x.valueKey ≤ y.valueKey := by
  change (x.isNumber && y.isNumber && decide (x.valueKey ≤ y.valueKey)) = true ↔ _
  rw [Bool.and_eq_true, Bool.and_eq_true, decide_eq_true_iff, and_assoc]

/-- What is not negative, or is a zero. -/
theorem zero_le_iff {x : Double} : Arith.le (Arith.nat 0) x = true ↔
    x.isNumber = true ∧ (x.negative = true → x.magnitude = 0) := by
  have hzero : (⟨0⟩ : Double).isNumber = true ∧ (⟨0⟩ : Double).valueKey = 0 := by decide
  rw [nat_zero, le_iff, hzero.2, and_iff_right hzero.1, valueKey]
  refine and_congr_right fun _ => ?_
  split_ifs with h
  · rw [imp_iff_right h]
    omega
  · simp [h]

theorem valueKey_of_zero_le {x : Double} (hx : Arith.le (Arith.nat 0) x = true) :
    x.valueKey = x.magnitude := by
  have hneg := (zero_le_iff.1 hx).2
  rw [valueKey]
  split_ifs with h
  · rw [hneg h]
    rfl
  · rfl

theorem le_iff_magnitude_le {x y : Double} (hx : Arith.le (Arith.nat 0) x = true)
    (hy : Arith.le (Arith.nat 0) y = true) :
    Arith.le x y = true ↔ x.magnitude ≤ y.magnitude := by
  rw [le_iff, valueKey_of_zero_le hx, valueKey_of_zero_le hy, and_iff_right (zero_le_iff.1 hx).1,
    and_iff_right (zero_le_iff.1 hy).1, Nat.cast_le]

theorem le_trans_of_le {x y z : Double} (h : Arith.le x y = true) (h' : Arith.le y z = true) :
    Arith.le x z = true := by
  rw [le_iff] at *
  exact ⟨h.1, h'.2.1, h.2.2.trans h'.2.2⟩

theorem le_refl_of_le {x y : Double} (h : Arith.le x y = true) : Arith.le y y = true := by
  rw [le_iff] at *
  exact ⟨h.2.1, h.2.1, le_rfl⟩

theorem lt_trans_of_le {x y z : Double} (hxy : Arith.le x y = true) (hyz : Arith.lt y z = true) :
    Arith.lt x z = true := by
  rw [Arith.lt, Bool.and_eq_true, Bool.not_eq_true', ← Bool.not_eq_true] at *
  exact ⟨le_trans_of_le hxy hyz.1, fun h => hyz.2 (le_trans_of_le h hxy)⟩

theorem lt_trans_of_lt {x y z : Double} (hxy : Arith.lt x y = true) (hyz : Arith.le y z = true) :
    Arith.lt x z = true := by
  rw [Arith.lt, Bool.and_eq_true, Bool.not_eq_true', ← Bool.not_eq_true] at *
  exact ⟨le_trans_of_le hxy.1 hyz, fun h => hxy.2 (le_trans_of_le hyz h)⟩

theorem isFinite_iff_magnitude_lt {x : Double} :
    Arith.isFinite x = true ↔ x.magnitude < 0x7FF0000000000000 :=
  decide_eq_true_iff

theorem isNumber_iff_magnitude_le {x : Double} :
    x.isNumber = true ↔ x.magnitude ≤ 0x7FF0000000000000 :=
  decide_eq_true_iff

theorem isFinite_of_le {x y : Double} (hx : Arith.le (Arith.nat 0) x = true)
    (hxy : Arith.le x y = true) (hy : Arith.isFinite y = true) : Arith.isFinite x = true := by
  have h := (le_iff_magnitude_le hx (le_trans_of_le hx hxy)).1 hxy
  rw [isFinite_iff_magnitude_lt] at *
  omega

/-! ## Results that are not negative -/

section Operands

variable {x y c : Double} (hx : Arith.le (Arith.nat 0) x = true)

include hx

theorem sign_eq_or_size_eq_zero : x.sign = .positive ∨ x.size = 0 := by
  by_cases h : x.negative = true
  · exact .inr (size_of_magnitude_eq_zero ((zero_le_iff.1 hx).2 h))
  · exact .inl (if_neg h)

variable (hxy : Arith.le x y = true) (hy : Arith.isFinite y = true)

include hxy hy

theorem size_le_size : x.size ≤ y.size :=
  (size_le_size_iff (isFinite_of_le hx hxy hy) hy).2
    ((le_iff_magnitude_le hx (le_trans_of_le hx hxy)).1 hxy)

end Operands

/-- A rounded number that is not negative: its sign says so, or it was zero. -/
theorem zero_le_of_nearest {x : Double} {q : ℚ}
    (h : x.magnitude = min 0x7FF0000000000000 (nearest q)) (hs : x.sign = .positive ∨ q = 0) :
    Arith.le (Arith.nat 0) x = true := by
  rw [zero_le_iff, isNumber_iff_magnitude_le, negative_iff_sign, h]
  refine ⟨min_le_left _ _, fun hneg => ?_⟩
  rcases hs with hs | rfl
  · rw [hs] at hneg
    cases hneg
  · rw [nearest_zero, Nat.min_zero]

theorem le_of_nearest {x y : Double} {p q : ℚ}
    (hx : x.magnitude = min 0x7FF0000000000000 (nearest p))
    (hy : y.magnitude = min 0x7FF0000000000000 (nearest q))
    (hx₀ : Arith.le (Arith.nat 0) x = true) (hy₀ : Arith.le (Arith.nat 0) y = true) (hp : 0 ≤ p)
    (h : p ≤ q) : Arith.le x y = true := by
  rw [le_iff_magnitude_le hx₀ hy₀, hx, hy]
  exact min_le_min_left _ (nearest_le_nearest hp h)

section Finite

variable {x y c : Double} (hx : Arith.le (Arith.nat 0) x = true)
  (hc : Arith.le (Arith.nat 0) c = true) (hcf : Arith.isFinite c = true)

include hx hc hcf

theorem zero_le_mul (hxf : Arith.isFinite x = true) : Arith.le (Arith.nat 0) (x * c) = true := by
  apply zero_le_of_nearest (magnitude_mul hxf hcf)
  rw [sign_mul hxf hcf]
  rcases sign_eq_or_size_eq_zero hx with hsx | hsx <;>
    rcases sign_eq_or_size_eq_zero hc with hsc | hsc
  · rw [hsx, hsc]
    exact .inl rfl
  all_goals simp [*]

theorem zero_le_div (hxf : Arith.isFinite x = true) (hne : c.size ≠ 0) :
    Arith.le (Arith.nat 0) (x / c) = true := by
  apply zero_le_of_nearest (magnitude_div hxf hcf hne)
  rw [sign_div hxf hcf hne, (sign_eq_or_size_eq_zero hc).resolve_right hne]
  rcases sign_eq_or_size_eq_zero hx with hsx | hsx
  · rw [hsx]
    exact .inl rfl
  · rw [hsx, zero_div]
    exact .inr rfl

variable (hxy : Arith.le x y = true) (hy : Arith.isFinite y = true)

include hxy hy

/-- **A product grows with its first operand.** -/
theorem mul_le_mul : Arith.le (x * c) (y * c) = true := by
  have hxf := isFinite_of_le hx hxy hy
  exact le_of_nearest (magnitude_mul hxf hcf) (magnitude_mul hy hcf) (zero_le_mul hx hc hcf hxf)
    (zero_le_mul (le_trans_of_le hx hxy) hc hcf hy) (mul_nonneg x.size_nonneg c.size_nonneg)
    (mul_le_mul_of_nonneg_right (size_le_size hx hxy hy) c.size_nonneg)

/-- **A quotient grows with its first operand.** -/
theorem div_le_div (hne : c.size ≠ 0) : Arith.le (x / c) (y / c) = true := by
  have hxf := isFinite_of_le hx hxy hy
  exact le_of_nearest (magnitude_div hxf hcf hne) (magnitude_div hy hcf hne)
    (zero_le_div hx hc hcf hxf hne) (zero_le_div (le_trans_of_le hx hxy) hc hcf hy hne)
    (div_nonneg x.size_nonneg c.size_nonneg)
    (div_le_div_of_nonneg_right (size_le_size hx hxy hy) c.size_nonneg)

end Finite

/-! ## Infinity -/

section Infinite

variable {x : Double}

theorem magnitude_eq_infinity (hx : x.isNumber = true) (hxf : ¬ Arith.isFinite x = true) :
    x.magnitude = 0x7FF0000000000000 := by
  rw [isNumber_iff_magnitude_le] at hx
  rw [isFinite_iff_magnitude_lt] at hxf
  omega

theorem read_eq_infinite (hx : x.isNumber = true) (hxf : ¬ Arith.isFinite x = true) :
    x.read = .infinite := by
  rw [read, magnitude_eq_infinity hx hxf]
  rfl

variable (hx : Arith.le (Arith.nat 0) x = true) (hxf : ¬ Arith.isFinite x = true)

include hx hxf

theorem negative_eq_false : x.negative = false := by
  obtain ⟨hnumber, hzero⟩ := zero_le_iff.1 hx
  by_contra hneg
  have hmag := hzero (Bool.eq_true_of_not_eq_false hneg)
  rw [magnitude_eq_infinity hnumber hxf] at hmag
  cases hmag

theorem unpacked_of_not_isFinite : x.unpacked = .infinity .positive := by
  rw [unpacked_eq, read_eq_infinite (zero_le_iff.1 hx).1 hxf, sign, negative_eq_false hx hxf]
  rfl

theorem toInt_infinity (hi : ℕ) (r : Rounding) : Arith.toInt r 0 hi x = hi := by
  change toInt r 0 hi x = hi
  rw [toInt, read_eq_infinite (zero_le_iff.1 hx).1 hxf, negative_eq_false hx hxf]
  rfl

end Infinite

theorem mul_eq_infinity {x c : Double} (hx : Arith.le (Arith.nat 0) x = true)
    (hxf : Arith.isFinite x = true) (hne : x.magnitude ≠ 0)
    (hc : c.unpacked = .infinity .positive) : x * c = infinity := by
  obtain ⟨m, e, hm, -, -, hread⟩ := exists_read_pos hxf hne
  have hsign : x.sign = .positive :=
    (sign_eq_or_size_eq_zero hx).resolve_right (mt (size_eq_zero_iff hxf).1 hne)
  rw [mul_eq, unpacked_eq x, hread, hc, unpacked_finite _ hm, hsign]
  rfl

theorem isNumber_mul_infinity {x c : Double} (hx : x.magnitude = 0)
    (hc : c.unpacked = .infinity .positive) : (x * c).isNumber = false := by
  rw [mul_eq, unpacked_eq x, read_of_magnitude_eq_zero hx, hc, unpacked_finite_zero,
    UnpackedFloat.mul]
  decide +kernel

/-- What is no number, or grows from `0`. -/
def Rises (x y : Double) : Prop :=
  x.isNumber = false ∨ Arith.le (Arith.nat 0) x = true ∧ Arith.le x y = true

/-- A product with a factor that may be infinite: zero times infinity is no number. -/
theorem rises_mul {x y c : Double} (hx : Arith.le (Arith.nat 0) x = true)
    (hc : Arith.le (Arith.nat 0) c = true) (hxy : Arith.le x y = true)
    (hy : Arith.isFinite y = true) : Rises (x * c) (y * c) := by
  have hxf := isFinite_of_le hx hxy hy
  by_cases hcf : Arith.isFinite c = true
  · exact .inr ⟨zero_le_mul hx hc hcf hxf, mul_le_mul hx hc hcf hxy hy⟩
  have hunpacked := unpacked_of_not_isFinite hc hcf
  by_cases hzero : x.magnitude = 0
  · exact .inl (isNumber_mul_infinity hzero hunpacked)
  · have hy₀ := le_trans_of_le hx hxy
    have hle := (le_iff_magnitude_le hx hy₀).1 hxy
    rw [mul_eq_infinity hx hxf hzero hunpacked, mul_eq_infinity hy₀ hy (by omega) hunpacked]
    exact .inr (by decide +kernel)

/-! ## Integers -/

theorem shiftLeft_div_shiftLeft (m : ℕ) (e : ℤ) :
    ((m <<< e.toNat : ℕ) : ℚ) / (1 <<< (-e).toNat : ℕ) = m * 2 ^ e := by
  have hpow : (2 : ℚ) ^ e.toNat / 2 ^ (-e).toNat = 2 ^ e := by
    rw [← zpow_natCast, ← zpow_natCast, ← zpow_sub₀ two_ne_zero]
    congr 1
    omega
  rw [Nat.shiftLeft_eq, Nat.shiftLeft_eq]
  push_cast
  rw [one_mul, mul_div_assoc, hpow]

theorem scaled_down (m : ℕ) (e : ℤ) :
    Rounding.down.scaled false m e = (⌊(m : ℚ) * 2 ^ e⌋₊ : ℤ) := by
  rw [← shiftLeft_div_shiftLeft, Nat.floor_div_eq_div]
  rfl

theorem ceil_div_eq {a b : ℕ} (hb : 0 < b) :
    ⌈(a : ℚ) / b⌉₊ = if a % b = 0 then a / b else a / b + 1 := by
  have hpos : (0 : ℚ) < b := by exact_mod_cast hb
  have hsplit : (a : ℚ) = b * (a / b : ℕ) + (a % b : ℕ) := by
    exact_mod_cast (Nat.div_add_mod a b).symm
  have hrest : ((a % b : ℕ) : ℚ) < b := by exact_mod_cast Nat.mod_lt a hb
  split_ifs with h
  · rw [hsplit, h, Nat.cast_zero, add_zero, mul_div_cancel_left₀ _ hpos.ne', Nat.ceil_natCast]
  · have hleft : (0 : ℚ) < (a % b : ℕ) := by exact_mod_cast Nat.pos_of_ne_zero h
    rw [Nat.ceil_eq_iff (Nat.succ_ne_zero _), lt_div_iff₀ hpos, div_le_iff₀ hpos, hsplit]
    push_cast
    constructor <;> nlinarith

theorem scaled_up (m : ℕ) (e : ℤ) :
    Rounding.up.scaled false m e = (⌈(m : ℚ) * 2 ^ e⌉₊ : ℤ) := by
  have hunit : 0 < 1 <<< (-e).toNat := by
    rw [Nat.shiftLeft_eq]
    positivity
  rw [← shiftLeft_div_shiftLeft, ceil_div_eq hunit, Rounding.scaled]
  generalize m <<< e.toNat % 1 <<< (-e).toNat = rest
  cases rest <;> rfl

theorem scaled_zero (r : Rounding) (negative : Bool) (e : ℤ) : r.scaled negative 0 e = 0 := by
  have hunit : 0 < 1 <<< (-e).toNat := by
    rw [Nat.shiftLeft_eq]
    positivity
  cases r with
  | nearest =>
    have hhalf {u : ℤ} (hu : 0 < u) : (2 * 0 + u) / (2 * u) = 0 := by
      rw [mul_zero, zero_add]
      exact Int.ediv_eq_zero_of_lt hu.le (by omega)
    rw [Rounding.scaled, Nat.zero_shiftLeft, Nat.cast_zero, hhalf (by exact_mod_cast hunit)]
    cases negative <;> rfl
  | _ => cases negative <;> simp [Rounding.scaled]

section Integer

variable {x y : Double} (hi : ℕ)

theorem read_eq_nan (hx : x.isNumber = false) : x.read = .nan := by
  have hinfinity : format.infinity = 0x7FF0000000000000 := rfl
  have hlarge : ¬ x.magnitude ≤ 0x7FF0000000000000 := of_decide_eq_false hx
  rw [read, Binary.Format.read, hinfinity, if_neg (by omega), if_neg (by omega)]

theorem toInt_eq_zero (hx : x.isNumber = false) (r : Rounding) (lo hi : ℤ) :
    Arith.toInt r lo hi x = 0 := by
  change toInt r lo hi x = 0
  rw [toInt, read_eq_nan hx]

variable (hx : Arith.le (Arith.nat 0) x = true)

include hx

theorem toInt_eq_scaled {m : ℕ} {e : ℤ} (hread : x.read = .finite m e) (r : Rounding) :
    Arith.toInt r 0 hi x = max 0 (min (hi : ℤ) (r.scaled false m e)) := by
  have hscaled : r.scaled x.negative m e = r.scaled false m e := by
    by_cases hneg : x.negative = true
    · have hzero := read_of_magnitude_eq_zero ((zero_le_iff.1 hx).2 hneg)
      rw [hread] at hzero
      cases hzero
      rw [scaled_zero, scaled_zero]
    · rw [Bool.eq_false_of_not_eq_true hneg]
  change toInt r 0 hi x = _
  rw [toInt, hread]
  dsimp only
  rw [hscaled]

theorem toInt_down (hxf : Arith.isFinite x = true) :
    Arith.toInt .down 0 hi x = (min hi ⌊x.size⌋₊ : ℕ) := by
  obtain ⟨m, e, -, -, -, hread⟩ := exists_read hxf
  rw [toInt_eq_scaled hi hx hread, scaled_down, size, hread, Binary.Reading.size]
  omega

theorem toInt_up (hxf : Arith.isFinite x = true) :
    Arith.toInt .up 0 hi x = (min hi ⌈x.size⌉₊ : ℕ) := by
  obtain ⟨m, e, -, -, -, hread⟩ := exists_read hxf
  rw [toInt_eq_scaled hi hx hread, scaled_up, size, hread, Binary.Reading.size]
  omega

theorem toInt_down_le_toInt_up : Arith.toInt .down 0 hi x ≤ Arith.toInt .up 0 hi x := by
  by_cases hxf : Arith.isFinite x = true
  · have hle := Nat.floor_le_ceil x.size
    rw [toInt_down hi hx hxf, toInt_up hi hx hxf]
    omega
  · rw [toInt_infinity hx hxf, toInt_infinity hx hxf]

/-- **The integers beside a double grow with it.** -/
theorem toInt_le_toInt (hxy : Arith.le x y = true) :
    Arith.toInt .down 0 hi x ≤ Arith.toInt .down 0 hi y ∧
      Arith.toInt .up 0 hi x ≤ Arith.toInt .up 0 hi y := by
  have hy := le_trans_of_le hx hxy
  by_cases hyf : Arith.isFinite y = true
  · have hxf := isFinite_of_le hx hxy hyf
    have hsize := size_le_size hx hxy hyf
    have hfloor := Nat.floor_mono hsize
    have hceil := Nat.ceil_mono hsize
    rw [toInt_down hi hx hxf, toInt_down hi hy hyf, toInt_up hi hx hxf, toInt_up hi hy hyf]
    omega
  · have hmem (r : Rounding) := (toInt_mem r (Int.natCast_nonneg hi) (zero_le_iff.1 hx).1).2
    rw [toInt_infinity hy hyf, toInt_infinity hy hyf]
    exact ⟨hmem .down, hmem .up⟩

end Integer

/-! ## Whole numbers -/

/-- What the machine takes for a number with a positive sign. -/
def IsPositive : UnpackedFloat → Prop
  | .notANumber => False
  | .infinity s => s = .positive
  | .zero s => s = .positive
  | .finite s _ _ _ => s = .positive

theorem zero_le_ofUnpacked {u : UnpackedFloat} (hu : IsPositive u) :
    Arith.le (Arith.nat 0) (ofUnpacked u) = true := by
  have hnumber : (ofUnpacked u).isNumber = true := by
    refine (isNumber_iff _).2 (unpackMantissa_pack (u := u) fun h => ?_)
    rw [h] at hu
    exact hu
  have hsign : (ofUnpacked u).sign = .positive := by
    cases u with
    | notANumber => exact hu.elim
    | infinity s => rw [sign_ofUnpacked_infinity, hu]
    | zero s => rw [sign_ofUnpacked_zero, hu]
    | finite s m e hm => rw [sign_ofUnpacked_finite, hu]
  rw [zero_le_iff, negative_iff_sign, hsign]
  exact ⟨hnumber, fun h => by cases h⟩

theorem isPositive_roundWithAccuracy (m : ℕ) (e : ℤ) (a : Accuracy) :
    IsPositive (roundWithAccuracy Format.binary64 .positive m e a) := by
  rw [roundWithAccuracy]
  dsimp only
  split_ifs <;> rfl

theorem isPositive_ofNat (n : ℕ) : IsPositive (UnpackedFloat.ofNat Format.binary64 n) := by
  rw [UnpackedFloat.ofNat, UnpackedFloat.ofInt, UnpackedFloat.normalize]
  cases hcompare : compare (n : Int) 0 with
  | lt => exact absurd (Int.compare_eq_lt.1 hcompare) (by omega)
  | eq => rfl
  | gt => exact isPositive_roundWithAccuracy _ _ _

theorem isPositive_ofScientific {n : ℕ} (hn : n ≠ 0) :
    IsPositive (UnpackedFloat.ofScientific Format.binary64 n 0) := by
  have hlarge : (2 : ℤ) ^ Format.binary64.exponentBits = 2048 := rfl
  rw [UnpackedFloat.ofScientific, dif_neg hn, hlarge, if_neg (by omega), if_neg (by omega),
    if_pos le_rfl, UnpackedFloat.mul]
  exact isPositive_roundWithAccuracy _ _ _

/-- **No whole number is negative**, also where it is too large to be finite. -/
theorem zero_le_nat (n : ℕ) : Arith.le (Arith.nat 0) (Arith.nat n : Double) = true := by
  have hneg : ¬ ((n : ℕ) : ℤ) < 0 := by omega
  change Arith.le (Arith.nat 0) (ofInt n) = true
  rw [ofInt]
  split_ifs with hn
  · exact zero_le_ofUnpacked (isPositive_ofNat _)
  · have hslow : ¬ (n < 2 ^ 53 ∧ 0 ≤ 22) := by
      rw [Int.natAbs_natCast] at hn
      omega
    have hfloat : ofFloat (Float.ofInt n) =
        ofUnpacked (UnpackedFloat.ofScientific Format.binary64 n 0) := by
      change ofFloat (Float.ofScientific n false 0) = _
      rw [Float.ofScientific, dif_neg hslow]
      rfl
    rw [hfloat]
    exact zero_le_ofUnpacked (isPositive_ofScientific (by omega))

end Double

end Starfilm
