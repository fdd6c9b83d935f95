/-
# Rounding to double precision

A nonnegative rational rounded to the nearest number with 53 significant bits, ties to the even one, with
gradual underflow below 2^-1022.  There is no largest number: what would overflow is rounded all the same.

* `roundEven_mono`: rounding to integers keeps the order;
* `roundBinary64_mono`: so does rounding to 53 bits, also from one power of two to the next.
-/
import Mathlib

namespace Tpso.Lib

/-! ## 1. The nearest integer -/

/-- The nearest integer, and between two the even one. -/
def roundEven (x : ℚ) : ℤ :=
  let n := ⌊x⌋
  if x - n < 1 / 2 then n
  else if 1 / 2 < x - n then n + 1
  else n + n % 2

@[simp] theorem roundEven_intCast (n : ℤ) : roundEven n = n := by
  simp [roundEven]

/-- The result is one of the two neighbours. -/
theorem roundEven_mem (x : ℚ) : ⌊x⌋ ≤ roundEven x ∧ roundEven x ≤ ⌊x⌋ + 1 := by
  unfold roundEven
  dsimp only
  split_ifs <;> omega

theorem roundEven_mono : Monotone roundEven := by
  intro x y hxy
  rcases (Int.floor_mono hxy).lt_or_eq with hlt | heq
  · -- another integer lies between the two
    exact ((roundEven_mem x).2.trans hlt).trans (roundEven_mem y).1
  · have hfrac : x - ⌊y⌋ ≤ y - ⌊y⌋ := by linarith
    unfold roundEven
    dsimp only
    rw [heq]
    split_ifs <;> first | omega | linarith

/-! ## 2. The nearest number with 53 bits -/

/-- The exponent of the last of the 53 bits. -/
def lastBit (x : ℚ) : ℤ := max (Int.log 2 x - 52) (-1074)

/-- Rounding to double precision. -/
def roundBinary64 (x : ℚ) : ℚ := roundEven (x / 2 ^ lastBit x) * 2 ^ lastBit x

theorem lastBit_pos (x : ℚ) : (0 : ℚ) < 2 ^ lastBit x := zpow_pos (by norm_num) _

/-- What fits keeps its value. -/
theorem roundBinary64_of_eq {x : ℚ} {m : ℤ} (h : x = m * 2 ^ lastBit x) : roundBinary64 x = x := by
  have hdiv : x / 2 ^ lastBit x = m := by
    rw [div_eq_iff (lastBit_pos x).ne']
    exact h
  rw [roundBinary64, hdiv, roundEven_intCast]
  exact h.symm

@[simp] theorem roundBinary64_zero : roundBinary64 0 = 0 := roundBinary64_of_eq (m := 0) (by simp)

@[simp] theorem roundBinary64_one : roundBinary64 1 = 1 := by
  have hbit : lastBit 1 = -52 := by simp [lastBit]
  refine roundBinary64_of_eq (m := 2 ^ 52) ?_
  rw [hbit]
  norm_num

theorem roundBinary64_nonneg {x : ℚ} (hx : 0 ≤ x) : 0 ≤ roundBinary64 x := by
  have hfloor : 0 ≤ ⌊x / 2 ^ lastBit x⌋ := Int.floor_nonneg.mpr (div_nonneg hx (lastBit_pos x).le)
  have hround : (0 : ℚ) ≤ roundEven (x / 2 ^ lastBit x) := by
    exact_mod_cast hfloor.trans (roundEven_mem _).1
  exact mul_nonneg hround (lastBit_pos x).le

/-- A power of two is a number of steps of a size that divides it. -/
theorem zpow_div_eq_intCast {a b : ℤ} (h : b ≤ a) : (2 : ℚ) ^ a / 2 ^ b = ((2 ^ (a - b).toNat : ℤ) : ℚ) := by
  rw [← zpow_sub₀ (by norm_num : (2 : ℚ) ≠ 0)]
  push_cast
  rw [← zpow_natCast, Int.toNat_of_nonneg (by omega)]

/-- **Rounding keeps the order.**  Two numbers with the same last bit are rounded to multiples of the
same power of two; between two others lies a power of two that is a multiple of both. -/
theorem roundBinary64_mono {x y : ℚ} (hx : 0 ≤ x) (hxy : x ≤ y) : roundBinary64 x ≤ roundBinary64 y := by
  rcases hx.eq_or_lt with rfl | hpos
  · rw [roundBinary64_zero]
    exact roundBinary64_nonneg hxy
  have hlog : Int.log 2 x ≤ Int.log 2 y := Int.log_mono_right hpos hxy
  have hbits : lastBit x ≤ lastBit y := max_le_max (by omega) (le_refl _)
  rcases hbits.lt_or_eq with hlt | heq
  · have hy : lastBit y = Int.log 2 y - 52 ∧ Int.log 2 x < Int.log 2 y := by
      unfold lastBit at hlt ⊢
      omega
    have hxlt : x ≤ 2 ^ Int.log 2 y := by
      refine (Int.lt_zpow_succ_log_self (b := 2) (by norm_num) x).le.trans ?_
      exact_mod_cast zpow_le_zpow_right₀ (by norm_num : (1 : ℚ) ≤ 2) (by omega)
    have hyge : (2 : ℚ) ^ Int.log 2 y ≤ y := by
      exact_mod_cast Int.zpow_log_le_self (b := 2) (by norm_num) (hpos.trans_le hxy)
    have hup : roundBinary64 x ≤ 2 ^ Int.log 2 y := by
      have hround := roundEven_mono ((div_le_div_iff_of_pos_right (lastBit_pos x)).mpr hxlt :
        x / 2 ^ lastBit x ≤ 2 ^ Int.log 2 y / 2 ^ lastBit x)
      rw [zpow_div_eq_intCast (by omega), roundEven_intCast] at hround
      rw [roundBinary64, ← le_div_iff₀ (lastBit_pos x), zpow_div_eq_intCast (by omega)]
      exact_mod_cast hround
    have hdown : (2 : ℚ) ^ Int.log 2 y ≤ roundBinary64 y := by
      have hround := roundEven_mono ((div_le_div_iff_of_pos_right (lastBit_pos y)).mpr hyge :
        2 ^ Int.log 2 y / 2 ^ lastBit y ≤ y / 2 ^ lastBit y)
      rw [zpow_div_eq_intCast (by omega), roundEven_intCast] at hround
      rw [roundBinary64, ← div_le_iff₀ (lastBit_pos y), zpow_div_eq_intCast (by omega)]
      exact_mod_cast hround
    exact hup.trans hdown
  · have hround := roundEven_mono ((div_le_div_iff_of_pos_right (lastBit_pos y)).mpr hxy :
      x / (2 : ℚ) ^ lastBit y ≤ y / 2 ^ lastBit y)
    unfold roundBinary64
    rw [heq]
    exact mul_le_mul_of_nonneg_right (by exact_mod_cast hround) (lastBit_pos y).le

end Tpso.Lib
