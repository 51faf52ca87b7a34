import Mathlib.Algebra.Order.Field.Rat
import Mathlib.Data.Int.Log
import Mathlib.Data.Rat.Floor
import Mathlib.Tactic.Linarith
import Mathlib.Tactic.Positivity
import Mathlib.Tactic.Ring

/-! Binary floating-point formats, and rounding of exact magnitudes to them: to the nearest value
with an unbounded exponent, and to an even mantissa between two. -/
namespace Numbers

/-- The nearest integer, of two the even one. -/
def roundEven (q : ℚ) : ℤ :=
  if q - ⌊q⌋ < 1 / 2 ∨ (q - ⌊q⌋ = 1 / 2 ∧ Even ⌊q⌋) then ⌊q⌋ else ⌊q⌋ + 1

variable {q : ℚ}

theorem le_roundEven {k : ℤ} (h : (k : ℚ) ≤ q) : k ≤ roundEven q := by
  have hFloor : k ≤ ⌊q⌋ := Int.le_floor.mpr h
  rw [roundEven]
  split <;> omega

theorem roundEven_le {k : ℤ} (h : q ≤ k) : roundEven q ≤ k := by
  rw [roundEven]
  split
  · exact Int.floor_le_iff.mpr (lt_of_le_of_lt h (lt_add_one _))
  · rename_i hUp
    by_contra hAbove
    -- A floor that is not below the bound is the number itself, which stays as it is.
    have hFloor : (k : ℚ) ≤ ⌊q⌋ := Int.cast_le.mpr (by omega)
    have hSelf : q - ⌊q⌋ < 1 / 2 := by linarith
    exact hUp (.inl hSelf)

/-- Half way above an odd number is rounded up. -/
theorem lt_roundEven_iff {k : ℤ} (hOdd : Odd k) : k < roundEven q ↔ k + 1 / 2 ≤ q := by
  have hBelow := Int.floor_le q
  have hAbove := Int.lt_floor_add_one q
  rw [roundEven]
  constructor
  · intro h
    split at h
    · have hNext : ((k + 1 : ℤ) : ℚ) ≤ ⌊q⌋ := Int.cast_le.mpr h
      push_cast at hNext
      linarith
    · rename_i hUp
      have hFar : 1 / 2 ≤ q - ⌊q⌋ := not_lt.mp fun hNear => hUp (.inl hNear)
      have hFloor : (k : ℚ) ≤ ⌊q⌋ := Int.cast_le.mpr (by omega)
      linarith
  · intro h
    have hFloor : k ≤ ⌊q⌋ := Int.le_floor.mpr (by linarith)
    rcases eq_or_lt_of_le hFloor with hSame | hLess
    · have hUp : ¬(q - ⌊q⌋ < 1 / 2 ∨ (q - ⌊q⌋ = 1 / 2 ∧ Even ⌊q⌋)) := by
        rintro (hNear | ⟨_, hEven⟩)
        · rw [← hSame] at hNear
          linarith
        · rw [← hSame] at hEven
          exact Int.not_even_iff_odd.mpr hOdd hEven
      rw [if_neg hUp]
      omega
    · split <;> omega

/-- The least exponent of normal values mirrors the greatest one. -/
structure FloatFormat where
  precision : ℕ
  maxExponent : ℤ
  someDigits : 1 ≤ precision
  someExponents : 1 ≤ maxExponent

namespace FloatFormat

def single : FloatFormat := ⟨24, 127, by decide, by decide⟩

variable (f : FloatFormat)

def minNormal : ℚ := 2 ^ (1 - f.maxExponent)

/-- The exponent at which a magnitude is written. -/
def exponent (q : ℚ) : ℤ := max (Int.log 2 q) (1 - f.maxExponent)

/-- The weight of the last digit. -/
def quantum (q : ℚ) : ℚ := 2 ^ (f.exponent q + 1 - f.precision)

def round (q : ℚ) : ℚ := roundEven (q / f.quantum q) * f.quantum q

/-- What is rounded lies beyond the finite values. -/
def overflows (q : ℚ) : Bool := 2 ^ (f.maxExponent + 1) ≤ f.round q

/-- Half way from the greatest finite value to the next power of two. -/
def limit : ℚ := (2 ^ f.precision - 1 / 2) * 2 ^ (f.maxExponent + 1 - f.precision)

theorem quantum_pos (q : ℚ) : 0 < f.quantum q := zpow_pos (by norm_num) _

/-- As many digits as the format has reach the power of two above the exponent. -/
theorem digits_mul_quantum (q : ℚ) : 2 ^ f.precision * f.quantum q = 2 ^ (f.exponent q + 1) := by
  rw [quantum, ← zpow_natCast, ← zpow_add₀ (by norm_num)]
  congr 1
  omega

theorem limit_le : f.limit ≤ 2 ^ (f.maxExponent + 1) := by
  have hPower : (2 : ℚ) ^ (f.maxExponent + 1) = 2 ^ f.precision * 2 ^ (f.maxExponent + 1 - f.precision) := by
    rw [← zpow_natCast, ← zpow_add₀ (by norm_num)]
    congr 1
    omega
  rw [limit, hPower]
  exact mul_le_mul_of_nonneg_right (by linarith) (zpow_pos (by norm_num) _).le

theorem le_limit : 2 ^ f.maxExponent ≤ f.limit := by
  have hDigits := f.someDigits
  have hPower : (2 : ℚ) ^ f.maxExponent =
      2 ^ (f.precision - 1) * 2 ^ (f.maxExponent + 1 - f.precision) := by
    rw [← zpow_natCast, ← zpow_add₀ (by norm_num)]
    congr 1
    omega
  have hTwice : (2 : ℚ) ^ f.precision = 2 ^ (f.precision - 1) * 2 := by
    rw [← pow_succ, Nat.sub_add_cancel hDigits]
  have hOne : (1 : ℚ) ≤ 2 ^ (f.precision - 1) := one_le_pow₀ (by norm_num)
  rw [limit, hPower]
  exact mul_le_mul_of_nonneg_right (by linarith) (zpow_pos (by norm_num) _).le

/-- Below the greatest exponent nothing is rounded as far as the end of the range. -/
theorem round_lt (hLess : q < 2 ^ f.maxExponent) : f.round q < 2 ^ (f.maxExponent + 1) := by
  have hSome := f.someExponents
  have hLog : Int.log 2 q + 1 ≤ f.maxExponent := by
    rcases le_or_gt q 0 with hq | hq
    · rw [Int.log_of_right_le_zero 2 hq]
      omega
    · have hBelow := (Int.lt_zpow_iff_log_lt (b := 2) (by norm_num) hq).mp (by exact_mod_cast hLess)
      omega
  have hExponent : f.exponent q + 1 ≤ f.maxExponent := by
    rw [exponent]
    omega
  have hUnder : q ≤ 2 ^ (f.exponent q + 1) := by
    have hSelf : q < 2 ^ (Int.log 2 q + 1) := by
      exact_mod_cast Int.lt_zpow_succ_log_self (b := 2) (by norm_num) q
    exact hSelf.le.trans (zpow_le_zpow_right₀ (by norm_num) (by rw [exponent]; omega))
  have hMantissa : q / f.quantum q ≤ ((2 ^ f.precision : ℤ) : ℚ) := by
    rw [div_le_iff₀ (f.quantum_pos q)]
    push_cast
    rw [f.digits_mul_quantum]
    exact hUnder
  have hRounded : (roundEven (q / f.quantum q) : ℚ) ≤ 2 ^ f.precision := by
    exact_mod_cast roundEven_le hMantissa
  calc f.round q ≤ 2 ^ f.precision * f.quantum q :=
        mul_le_mul_of_nonneg_right hRounded (f.quantum_pos q).le
    _ = 2 ^ (f.exponent q + 1) := f.digits_mul_quantum q
    _ ≤ 2 ^ f.maxExponent := zpow_le_zpow_right₀ (by norm_num) hExponent
    _ < 2 ^ (f.maxExponent + 1) := zpow_lt_zpow_right₀ (by norm_num) (lt_add_one _)

/-- Above the range nothing is rounded back into it. -/
theorem le_round (hMore : 2 ^ (f.maxExponent + 1) ≤ q) : 2 ^ (f.maxExponent + 1) ≤ f.round q := by
  have hDigits := f.someDigits
  have hq : 0 < q := lt_of_lt_of_le (zpow_pos (by norm_num) _) hMore
  have hLog : f.maxExponent + 1 ≤ Int.log 2 q :=
    (Int.zpow_le_iff_le_log (b := 2) (by norm_num) hq).mp (by exact_mod_cast hMore)
  have hHalf : 2 ^ (f.precision - 1) * f.quantum q = 2 ^ f.exponent q := by
    rw [quantum, ← zpow_natCast, ← zpow_add₀ (by norm_num)]
    congr 1
    omega
  have hExponent : f.exponent q = Int.log 2 q := by
    have hSome := f.someExponents
    rw [exponent]
    omega
  have hOver : 2 ^ f.exponent q ≤ q := by
    rw [hExponent]
    exact_mod_cast Int.zpow_log_le_self (b := 2) (by norm_num) hq
  have hMantissa : ((2 ^ (f.precision - 1) : ℤ) : ℚ) ≤ q / f.quantum q := by
    rw [le_div_iff₀ (f.quantum_pos q)]
    push_cast
    rw [hHalf]
    exact hOver
  have hRounded : (2 : ℚ) ^ (f.precision - 1) ≤ roundEven (q / f.quantum q) := by
    exact_mod_cast le_roundEven hMantissa
  calc (2 : ℚ) ^ (f.maxExponent + 1) ≤ 2 ^ f.exponent q :=
        zpow_le_zpow_right₀ (by norm_num) (hExponent ▸ hLog)
    _ = 2 ^ (f.precision - 1) * f.quantum q := hHalf.symm
    _ ≤ f.round q := mul_le_mul_of_nonneg_right hRounded (f.quantum_pos q).le

/-- The greatest mantissa is odd, so that the limit itself is rounded out of the range. -/
theorem overflows_iff : f.overflows q ↔ f.limit ≤ q := by
  rw [overflows, decide_eq_true_iff]
  rcases lt_or_ge q (2 ^ f.maxExponent) with hLess | hLeast
  · exact iff_of_false (not_le.mpr (f.round_lt hLess)) (not_le.mpr (hLess.trans_le f.le_limit))
  rcases le_or_gt (2 ^ (f.maxExponent + 1)) q with hMore | hWithin
  · exact iff_of_true (f.le_round hMore) (f.limit_le.trans hMore)
  have hq : 0 < q := lt_of_lt_of_le (zpow_pos (by norm_num) _) hLeast
  have hLog : Int.log 2 q = f.maxExponent := by
    have hAbove := (Int.zpow_le_iff_le_log (b := 2) (by norm_num) hq).mp (by exact_mod_cast hLeast)
    have hBelow := (Int.lt_zpow_iff_log_lt (b := 2) (by norm_num) hq).mp (by exact_mod_cast hWithin)
    omega
  have hExponent : f.exponent q = f.maxExponent := by
    have hSome := f.someExponents
    rw [exponent]
    omega
  have hPower := f.digits_mul_quantum q
  rw [hExponent] at hPower
  have hOdd : Odd ((2 : ℤ) ^ f.precision - 1) := by
    have hEven : Even ((2 : ℤ) ^ f.precision) := (even_two).pow_of_ne_zero (by have := f.someDigits; omega)
    exact hEven.sub_odd odd_one
  have hQuantum : f.quantum q = 2 ^ (f.maxExponent + 1 - f.precision) := by rw [quantum, hExponent]
  calc 2 ^ (f.maxExponent + 1) ≤ f.round q
      ↔ (2 : ℚ) ^ f.precision ≤ roundEven (q / f.quantum q) := by
        rw [← hPower, round, mul_le_mul_iff_left₀ (f.quantum_pos q)]
    _ ↔ (2 : ℤ) ^ f.precision - 1 < roundEven (q / f.quantum q) := by
        rw [Int.sub_one_lt_iff]
        exact_mod_cast Iff.rfl
    _ ↔ ((2 : ℤ) ^ f.precision - 1 : ℤ) + 1 / 2 ≤ q / f.quantum q := lt_roundEven_iff hOdd
    _ ↔ f.limit ≤ q := by
        rw [le_div_iff₀ (f.quantum_pos q), hQuantum, limit]
        push_cast
        rw [show (2 : ℚ) ^ f.precision - 1 + 1 / 2 = 2 ^ f.precision - 1 / 2 by ring]

example : single.limit = 2 ^ 128 - 2 ^ 103 := by norm_num [limit, single]

end FloatFormat

end Numbers
