import Mathlib.Algebra.Order.Round
import Mathlib.Algebra.Order.Field.Rat
import Mathlib.Data.Rat.Floor
import Mathlib.Tactic.Linarith

/-!
# Rounding

Rounding to some decimal digits, a tie going to the even digit.
-/

namespace Cerid

/-- The nearest integer, and of two the even one. -/
def roundEven (q : ℚ) : ℤ :=
  if q - ⌊q⌋ < 1 / 2 then ⌊q⌋
  else if 1 / 2 < q - ⌊q⌋ then ⌊q⌋ + 1
  else if ⌊q⌋ % 2 = 0 then ⌊q⌋ else ⌊q⌋ + 1

/-- `round(q, digits)`. -/
def roundTo (digits : Nat) (q : ℚ) : ℚ := roundEven (q * 10 ^ digits) / 10 ^ digits

theorem floor_le_roundEven (q : ℚ) : ⌊q⌋ ≤ roundEven q := by
  unfold roundEven
  split_ifs <;> omega

theorem roundEven_le (q : ℚ) : roundEven q ≤ ⌊q⌋ + 1 := by
  unfold roundEven
  split_ifs <;> omega

theorem roundEven_mono {a b : ℚ} (h : a ≤ b) : roundEven a ≤ roundEven b := by
  have hfloor : ⌊a⌋ ≤ ⌊b⌋ := Int.floor_le_floor h
  by_cases heq : ⌊a⌋ = ⌊b⌋
  · unfold roundEven
    rw [heq]
    split_ifs <;> first | omega | linarith
  · have hlt : ⌊a⌋ + 1 ≤ ⌊b⌋ := by omega
    exact (roundEven_le a).trans (hlt.trans (floor_le_roundEven b))

theorem roundTo_mono (digits : Nat) {a b : ℚ} (h : a ≤ b) : roundTo digits a ≤ roundTo digits b := by
  have hpow : (0 : ℚ) < 10 ^ digits := by positivity
  have hround : roundEven (a * 10 ^ digits) ≤ roundEven (b * 10 ^ digits) :=
    roundEven_mono (mul_le_mul_of_nonneg_right h hpow.le)
  exact div_le_div_of_nonneg_right (Int.cast_le.mpr hround) hpow.le

end Cerid
