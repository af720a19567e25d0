import Mathlib.Data.Int.Log
import Mathlib.Data.Rat.Floor
import Mathlib.Tactic.Ring

/-!
# Rounding to significant bits

Round half to even, first to an integer, then to a number of significant bits
with no bound on the exponent. What fits in the bits is not changed.
-/

set_option autoImplicit false

namespace PortsBox.Rounding

def roundEven (x : ℚ) : ℤ :=
  let fraction := x - ⌊x⌋
  if fraction < 1 / 2 then ⌊x⌋
  else if 1 / 2 < fraction then ⌊x⌋ + 1
  else if Even ⌊x⌋ then ⌊x⌋
  else ⌊x⌋ + 1

theorem roundEven_intCast (n : ℤ) : roundEven n = n := by
  rw [roundEven, Int.floor_intCast, sub_self, if_pos (by norm_num)]

/-- The unit in the last of `bits` places. -/
def ulp (bits : ℕ) (x : ℚ) : ℚ := 2 ^ (Int.log 2 x - (bits - 1))

def roundBits (bits : ℕ) (x : ℚ) : ℚ := roundEven (x / ulp bits x) * ulp bits x

theorem ulp_pos (bits : ℕ) (x : ℚ) : 0 < ulp bits x := zpow_pos two_pos _

theorem roundBits_zero (bits : ℕ) : roundBits bits 0 = 0 := by
  have h := roundEven_intCast 0
  rw [Int.cast_zero] at h
  rw [roundBits, zero_div, h, Int.cast_zero, zero_mul]

/-- The numbers of `bits` significant bits. -/
theorem roundBits_of_lt {bits m : ℕ} (hm : m < 2 ^ bits) (e : ℤ) :
    roundBits bits (m * 2 ^ e) = m * 2 ^ e := by
  rcases Nat.eq_zero_or_pos m with rfl | hpos
  · rw [Nat.cast_zero, zero_mul, roundBits_zero]
  have hx : (0 : ℚ) < m * 2 ^ e := mul_pos (Nat.cast_pos.mpr hpos) (zpow_pos two_pos e)
  have hlog : Int.log 2 ((m : ℚ) * 2 ^ e) < bits + e := by
    rw [← Int.lt_zpow_iff_log_lt one_lt_two hx, Nat.cast_ofNat, zpow_add₀ two_ne_zero,
      zpow_natCast]
    exact mul_lt_mul_of_pos_right (by exact_mod_cast hm) (zpow_pos two_pos e)
  obtain ⟨k, hk⟩ : ∃ k : ℕ, e = Int.log 2 ((m : ℚ) * 2 ^ e) - (bits - 1) + k :=
    ⟨(e - (Int.log 2 ((m : ℚ) * 2 ^ e) - (bits - 1))).toNat, by omega⟩
  -- the last place is at or below that of the number
  have hquotient : (m : ℚ) * 2 ^ e / ulp bits (m * 2 ^ e) = ((m * 2 ^ k : ℕ) : ℤ) := by
    rw [div_eq_iff (ulp_pos _ _).ne', ulp]
    conv_lhs => rw [hk, zpow_add₀ two_ne_zero, zpow_natCast]
    push_cast
    ring
  rw [roundBits, hquotient, roundEven_intCast, ← hquotient,
    div_mul_cancel₀ _ (ulp_pos bits ((m : ℚ) * 2 ^ e)).ne']

theorem roundBits_natCast {bits m : ℕ} (hm : m < 2 ^ bits) : roundBits bits m = m := by
  have h := roundBits_of_lt hm 0
  rwa [zpow_zero, mul_one] at h

end PortsBox.Rounding
