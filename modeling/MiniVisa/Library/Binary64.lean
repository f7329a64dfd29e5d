import Mathlib.Data.Int.Log
import Mathlib.Data.Rat.Floor
import Mathlib.Algebra.Order.Field.Power
import Mathlib.Tactic.Linarith
import Mathlib.Tactic.NormNum

/-! # Rounding to binary64

The double nearest to a rational number, ties going to the even mantissa. The grid around a
number of magnitude `2 ^ k` has the width `2 ^ (k - 52)`, and `2 ^ (-1074)` for the smallest
numbers. A double that is compared with a rounded number is on one of these grids.
-/

namespace Binary64

set_option autoImplicit false

def nearestEven (q : ℚ) : ℤ :=
  if q - ⌊q⌋ < 1 / 2 then ⌊q⌋
  else if 1 / 2 < q - ⌊q⌋ then ⌊q⌋ + 1
  else if ⌊q⌋ % 2 = 0 then ⌊q⌋
  else ⌊q⌋ + 1

def gridExponent (v : ℚ) : ℤ := max (Int.log 2 v) (-1022) - 52

def onGrid (v : ℚ) : ℚ := nearestEven (v / 2 ^ gridExponent v) * 2 ^ gridExponent v

/-- The double nearest to a number that is not negative; none where it is out of range. -/
def round (v : ℚ) : Option ℚ := if 2 ^ (1024 : ℤ) ≤ onGrid v then none else some (onGrid v)

section Integers

variable {q : ℚ} {m : ℤ}

theorem nearestEven_le (h : q ≤ m) : nearestEven q ≤ m := by
  have hFloor : (⌊q⌋ : ℚ) ≤ q := Int.floor_le q
  have hLe : ⌊q⌋ ≤ m := Int.floor_le_iff.mpr (by linarith)
  unfold nearestEven
  rcases Int.lt_or_eq_of_le hLe with hLt | hEq
  · split_ifs <;> omega
  · have hZero : q - ⌊q⌋ < 1 / 2 := by
      rw [hEq] at hFloor ⊢
      linarith
    rw [if_pos hZero]
    exact hLe

theorem le_nearestEven (h : (m : ℚ) ≤ q) : m ≤ nearestEven q := by
  have hLe : m ≤ ⌊q⌋ := Int.le_floor.mpr h
  unfold nearestEven
  split_ifs <;> omega

theorem lt_nearestEven_iff (hEven : m % 2 = 0) : m < nearestEven q ↔ (m : ℚ) + 1 / 2 < q := by
  constructor
  · intro h
    by_contra hNot
    have hLt : q < ((m + 1 : ℤ) : ℚ) := by
      push_cast
      linarith
    have hFloor : ⌊q⌋ ≤ m := Int.lt_add_one_iff.mp (Int.floor_lt.mpr hLt)
    rcases Int.lt_or_eq_of_le hFloor with hBelow | hAt
    · unfold nearestEven at h
      split_ifs at h <;> omega
    · unfold nearestEven at h
      rw [hAt] at h
      have hHalf : ¬1 / 2 < q - (m : ℚ) := by linarith
      rw [if_neg hHalf, if_pos hEven] at h
      split_ifs at h <;> omega
  · intro h
    have hFloor : m ≤ ⌊q⌋ := Int.le_floor.mpr (by linarith)
    rcases Int.lt_or_eq_of_le hFloor with hAbove | hAt
    · unfold nearestEven
      split_ifs <;> omega
    · unfold nearestEven
      rw [← hAt, if_neg (by linarith), if_pos (by linarith)]
      omega

end Integers

section Grid

variable {v : ℚ} {m e : ℤ}

theorem zpow_pos' (e : ℤ) : (0 : ℚ) < 2 ^ e := zpow_pos (by norm_num) e

/-- A number stays below the next power of two, and so does what it is rounded to. -/
theorem lt_zpow_gridExponent (v : ℚ) : v < 2 ^ (gridExponent v + 53) := by
  have hLog : v < ((2 : ℕ) : ℚ) ^ (Int.log 2 v + 1) := Int.lt_zpow_succ_log_self (by norm_num) v
  have hMono : (2 : ℚ) ^ (Int.log 2 v + 1) ≤ 2 ^ (gridExponent v + 53) := by
    apply zpow_le_zpow_right₀ (by norm_num)
    unfold gridExponent
    omega
  push_cast at hLog
  exact lt_of_lt_of_le hLog hMono

theorem zpow_gridExponent_le (hPos : 0 < v) (h : -1074 < gridExponent v) :
    2 ^ (gridExponent v + 52) ≤ v := by
  have hLog : ((2 : ℕ) : ℚ) ^ Int.log 2 v ≤ v := Int.zpow_log_le_self (by norm_num) hPos
  have hEq : gridExponent v + 52 = Int.log 2 v := by
    unfold gridExponent at h ⊢
    omega
  rw [hEq]
  exact_mod_cast hLog

theorem onGrid_le_mul (h : v ≤ m * 2 ^ gridExponent v) : onGrid v ≤ m * 2 ^ gridExponent v := by
  have hStep := zpow_pos' (gridExponent v)
  have hQuot : v / 2 ^ gridExponent v ≤ m := (div_le_iff₀ hStep).mpr h
  exact mul_le_mul_of_nonneg_right (Int.cast_le.mpr (nearestEven_le hQuot)) hStep.le

theorem mul_le_onGrid (h : m * 2 ^ gridExponent v ≤ v) : m * 2 ^ gridExponent v ≤ onGrid v := by
  have hStep := zpow_pos' (gridExponent v)
  have hQuot : (m : ℚ) ≤ v / 2 ^ gridExponent v := (le_div_iff₀ hStep).mpr h
  exact mul_le_mul_of_nonneg_right (Int.cast_le.mpr (le_nearestEven hQuot)) hStep.le

theorem zpow_add_bits (e : ℤ) (bits : ℕ) :
    (2 : ℚ) ^ (e + bits) = ((2 ^ bits : ℤ) : ℚ) * 2 ^ e := by
  rw [zpow_add₀ (by norm_num), mul_comm, zpow_natCast]
  push_cast
  rfl

theorem onGrid_le (hLe : v ≤ 2 ^ (gridExponent v + 53)) : onGrid v ≤ 2 ^ (gridExponent v + 53) := by
  have hBits := zpow_add_bits (gridExponent v) 53
  rw [Nat.cast_ofNat] at hBits
  rw [hBits] at hLe ⊢
  exact onGrid_le_mul hLe

theorem le_onGrid (hLe : 2 ^ (gridExponent v + 52) ≤ v) : 2 ^ (gridExponent v + 52) ≤ onGrid v := by
  have hBits := zpow_add_bits (gridExponent v) 52
  rw [Nat.cast_ofNat] at hBits
  rw [hBits] at hLe ⊢
  exact mul_le_onGrid hLe

theorem zpow_le_of_le {k : ℤ} (h : e ≤ k) : (2 : ℚ) ^ e ≤ 2 ^ k :=
  zpow_le_zpow_right₀ (by norm_num) h

theorem lt_onGrid_of_eq (hEven : m % 2 = 0) (hGrid : gridExponent v = e) :
    m * 2 ^ e < onGrid v ↔ (m + 1 / 2) * 2 ^ e < v := by
  have hStep := zpow_pos' e
  rw [onGrid, hGrid, mul_lt_mul_iff_left₀ hStep, Int.cast_lt, lt_nearestEven_iff hEven,
    lt_div_iff₀ hStep]

/-- What a rounded number is compared with: a double with an even mantissa, which has all its bits
unless its grid is the smallest. The rounded number is greater where the number is by more than
half a step of the grid. -/
theorem lt_onGrid_iff (hPos : 0 < v) (hEven : m % 2 = 0) (hLt : m < 2 ^ 53) (hLow : -1074 ≤ e)
    (hFull : 2 ^ 52 ≤ m ∨ e = -1074) :
    m * 2 ^ e < onGrid v ↔ (m + 1 / 2) * 2 ^ e < v := by
  have hStep := zpow_pos' e
  rcases lt_trichotomy (gridExponent v) e with hFiner | hSame | hCoarser
  · -- the number is below the binade of the bound
    have hBits : ((2 ^ 52 : ℤ) : ℚ) ≤ m := by
      apply Int.cast_le.mpr
      rcases hFull with hFull | hSmallest
      · exact hFull
      · unfold gridExponent at hFiner
        omega
    have hBound : (2 : ℚ) ^ (gridExponent v + 53) ≤ m * 2 ^ e := by
      calc (2 : ℚ) ^ (gridExponent v + 53) ≤ 2 ^ (52 + e) := zpow_le_of_le (by omega)
        _ = ((2 ^ 52 : ℤ) : ℚ) * 2 ^ e := by
          rw [zpow_add₀ (by norm_num)]
          norm_num
        _ ≤ m * 2 ^ e := mul_le_mul_of_nonneg_right hBits hStep.le
    have hSelf := lt_zpow_gridExponent v
    have hGrid := onGrid_le hSelf.le
    apply iff_of_false
    · linarith
    · rw [add_mul]
      linarith
  · exact lt_onGrid_of_eq hEven hSame
  · -- the number is above it
    have hBits : (m : ℚ) + 1 / 2 < 2 ^ 53 := by
      have hSucc : ((m + 1 : ℤ) : ℚ) ≤ ((2 ^ 53 : ℤ) : ℚ) := Int.cast_le.mpr hLt
      push_cast at hSucc
      linarith
    have hBound : (m + 1 / 2) * 2 ^ e < (2 : ℚ) ^ (gridExponent v + 52) := by
      calc (m + 1 / 2) * 2 ^ e < (2 : ℚ) ^ 53 * 2 ^ e := mul_lt_mul_of_pos_right hBits hStep
        _ = (2 : ℚ) ^ (53 + e) := by
          rw [zpow_add₀ (by norm_num)]
          norm_num
        _ ≤ 2 ^ (gridExponent v + 52) := zpow_le_of_le (by omega)
    have hSelf := zpow_gridExponent_le hPos (by omega)
    have hGrid := le_onGrid hSelf
    have hHalf : (0 : ℚ) < 1 / 2 * 2 ^ e := by positivity
    rw [add_mul] at hBound ⊢
    exact iff_of_true (by linarith) (by linarith)

end Grid

end Binary64
