import Mathlib.Data.Int.Log
import Mathlib.Data.Rat.Floor
import Mathlib.Tactic.Positivity

/-!
# Rounding to binary64

The number of the binary64 format that is nearest to a rational number, where of two nearest
ones the even one is taken.  Numbers beyond the largest finite one are rounded as if the
exponent had no bound.
-/

namespace Zabbix.Library.Binary64

/-- The nearest integer, and the even one of two. -/
def roundEven (x : ℚ) : ℤ :=
  if x - ⌊x⌋ < 1 / 2 then ⌊x⌋
  else if 1 / 2 < x - ⌊x⌋ then ⌊x⌋ + 1
  else if ⌊x⌋ % 2 = 0 then ⌊x⌋ else ⌊x⌋ + 1

/-- The distance between neighbours of the size of a number. -/
def quantum (x : ℚ) : ℚ :=
  2 ^ (max (Int.log 2 |x|) (-1022) - 52)

/-- The nearest number with a significand of 53 bits. -/
def nearest (x : ℚ) : ℚ :=
  roundEven (x / quantum x) * quantum x

/-- The largest finite number. -/
def maxFinite : ℚ :=
  (2 ^ 53 - 1) * 2 ^ 971

variable {x : ℚ} {value : ℤ} {count : ℕ}

/-! ## Integers -/

theorem roundEven_eq (x : ℚ) : roundEven x = ⌊x⌋ ∨ roundEven x = ⌊x⌋ + 1 := by
  unfold roundEven
  split_ifs <;> simp

theorem roundEven_intCast (value : ℤ) : roundEven value = value := by
  rw [roundEven, Int.floor_intCast, sub_self, if_pos (by norm_num)]

theorem le_roundEven (atLeast : (value : ℚ) ≤ x) : value ≤ roundEven x := by
  have isFloor := Int.le_floor.mpr atLeast
  obtain same | same := roundEven_eq x
  · exact same ▸ isFloor
  · rw [same]
    exact isFloor.trans (Int.le_add_one le_rfl)

theorem roundEven_le (atMost : x ≤ value) : roundEven x ≤ value := by
  obtain isBelow | rfl := atMost.lt_or_eq
  · have isFloor := Int.floor_lt.mpr isBelow
    obtain same | same := roundEven_eq x
    · exact same ▸ isFloor.le
    · rw [same]
      exact Int.add_one_le_of_lt isFloor
  · exact (roundEven_intCast value).le

/-! ## Numbers -/

theorem quantum_pos (x : ℚ) : 0 < quantum x :=
  zpow_pos (by norm_num) _

theorem nearest_zero : nearest 0 = 0 := by
  have isZero : roundEven 0 = 0 := by exact_mod_cast roundEven_intCast 0
  rw [nearest, zero_div, isZero, Int.cast_zero, zero_mul]

theorem nearest_nonneg (notNegative : 0 ≤ x) : 0 ≤ nearest x := by
  have isRounded : 0 ≤ roundEven (x / quantum x) :=
    le_roundEven (by exact_mod_cast div_nonneg notNegative (quantum_pos x).le)
  exact mul_nonneg (by exact_mod_cast isRounded) (quantum_pos x).le

theorem nearest_of_multiple (isMultiple : x = value * quantum x) : nearest x = x := by
  have isQuotient : x / quantum x = value := by
    rw [div_eq_iff (quantum_pos x).ne']
    exact isMultiple
  rw [nearest, isQuotient, roundEven_intCast, ← isMultiple]

theorem quantum_of_one_le (isLarge : 1 ≤ |x|) : quantum x = 2 ^ (Int.log 2 |x| - 52) := by
  have notNegative : 0 ≤ Int.log 2 |x| := Int.log_of_one_le_right 2 isLarge ▸ Int.natCast_nonneg _
  rw [quantum, max_eq_left (by omega)]

/-- A number that is not below one is not rounded below one. -/
theorem one_le_abs_nearest (isLarge : 1 ≤ |x|) : 1 ≤ |nearest x| := by
  have isPos := quantum_pos x
  have notZero : 0 < |x| := one_pos.trans_le isLarge
  have notNegative : 0 ≤ Int.log 2 |x| := Int.log_of_one_le_right 2 isLarge ▸ Int.natCast_nonneg _
  have isPower : 2 ^ 52 * quantum x = 2 ^ Int.log 2 |x| := by
    rw [quantum_of_one_le isLarge, ← zpow_natCast, ← zpow_add₀ (by norm_num)]
    congr 1
    norm_num
  have isQuotient : 2 ^ 52 ≤ |x / quantum x| := by
    rw [abs_div, abs_of_pos isPos, le_div_iff₀ isPos, isPower]
    exact_mod_cast Int.zpow_log_le_self (b := 2) (by norm_num) notZero
  have isRounded : 2 ^ 52 ≤ |roundEven (x / quantum x)| := by
    obtain isAbove | isBelow := le_abs.mp isQuotient
    · exact (le_roundEven (by exact_mod_cast isAbove)).trans (le_abs_self _)
    · have isNegative : roundEven (x / quantum x) ≤ -2 ^ 52 :=
        roundEven_le (by push_cast; linarith)
      exact (le_neg_of_le_neg isNegative).trans (neg_le_abs _)
  calc (1 : ℚ) ≤ 2 ^ Int.log 2 |x| := one_le_zpow₀ (by norm_num) notNegative
    _ = 2 ^ 52 * quantum x := isPower.symm
    _ ≤ |(roundEven (x / quantum x) : ℚ)| * quantum x :=
        mul_le_mul_of_nonneg_right (by exact_mod_cast isRounded) isPos.le
    _ = |nearest x| := by rw [nearest, abs_mul, abs_of_pos isPos]

theorem nearest_le_add_quantum (x : ℚ) : nearest x ≤ x + quantum x := by
  have isPos := quantum_pos x
  have isRounded : (roundEven (x / quantum x) : ℚ) ≤ x / quantum x + 1 := by
    have isFloor := Int.floor_le (x / quantum x)
    obtain same | same := roundEven_eq (x / quantum x)
    · rw [same]
      linarith
    · rw [same]
      push_cast
      linarith
  calc nearest x ≤ (x / quantum x + 1) * quantum x :=
        mul_le_mul_of_nonneg_right isRounded isPos.le
    _ = x + quantum x := by rw [add_mul, div_mul_cancel₀ _ isPos.ne', one_mul]

theorem nearest_le_double (isLarge : 1 ≤ x) : nearest x ≤ 2 * x := by
  have notZero : 0 < x := one_pos.trans_le isLarge
  have isFine : quantum x ≤ x := by
    rw [quantum_of_one_le (isLarge.trans (le_abs_self x)), abs_of_pos notZero]
    calc (2 : ℚ) ^ (Int.log 2 x - 52) ≤ 2 ^ Int.log 2 x :=
          zpow_le_zpow_right₀ (by norm_num) (by omega)
      _ ≤ x := by exact_mod_cast Int.zpow_log_le_self (b := 2) (by norm_num) notZero
  calc nearest x ≤ x + quantum x := nearest_le_add_quantum x
    _ ≤ 2 * x := by linarith

/-- What is below a half is rounded below one. -/
theorem nearest_lt_one (notNegative : 0 ≤ x) (isSmall : x < 1 / 2) : nearest x < 1 := by
  have isFine : quantum x ≤ 1 / 2 := by
    have isLog : Int.log 2 |x| ≤ 0 := by
      rw [abs_of_nonneg notNegative]
      obtain isZero | isPositive := notNegative.eq_or_lt
      · rw [← isZero, Int.log_zero_right]
      · have isBelow := Int.log_mono_right (b := 2) isPositive (show x ≤ 1 by linarith)
        rwa [Int.log_one_right] at isBelow
    calc quantum x ≤ 2 ^ (-1 : ℤ) := zpow_le_zpow_right₀ (by norm_num) (by omega)
      _ = 1 / 2 := by norm_num
  calc nearest x ≤ x + quantum x := nearest_le_add_quantum x
    _ < 1 := by linarith

/-- The nearest number of an integer is an integer. -/
theorem exists_nearest_intCast (value : ℤ) : ∃ rounded : ℤ, nearest value = rounded := by
  by_cases isZero : value = 0
  · exact ⟨0, by rw [isZero, Int.cast_zero, nearest_zero]⟩
  have isLarge : 1 ≤ |(value : ℚ)| := by exact_mod_cast Int.one_le_abs isZero
  have isQuantum := quantum_of_one_le isLarge
  by_cases isFine : Int.log 2 |(value : ℚ)| ≤ 52
  · obtain ⟨bits, isBits⟩ := Int.le.dest isFine
    have isOne : (2 : ℚ) ^ bits * quantum value = 1 := by
      rw [isQuantum, ← zpow_natCast, ← zpow_add₀ (by norm_num),
        show (bits : ℤ) + (Int.log 2 |(value : ℚ)| - 52) = 0 by omega, zpow_zero]
    have isMultiple : (value : ℚ) = ((value * 2 ^ bits : ℤ) : ℚ) * quantum value := by
      rw [Int.cast_mul, Int.cast_pow, Int.cast_ofNat, mul_assoc, isOne, mul_one]
    exact ⟨value, nearest_of_multiple isMultiple⟩
  · obtain ⟨bits, isBits⟩ := Int.le.dest (not_le.mp isFine).le
    refine ⟨roundEven (value / quantum value) * 2 ^ bits, ?_⟩
    rw [nearest, Int.cast_mul, Int.cast_pow, Int.cast_ofNat]
    congr 1
    rw [isQuantum, ← zpow_natCast, show (bits : ℤ) = Int.log 2 |(value : ℚ)| - 52 by omega]

end Zabbix.Library.Binary64
