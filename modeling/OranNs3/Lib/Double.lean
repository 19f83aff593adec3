import Mathlib.Data.Int.Log
import Mathlib.Data.Rat.Floor
import Mathlib.Tactic.Positivity

/-!
# Numbers in double precision

A `double` is the rational number that it stands for. An operation gives the exact result, rounded
to 53 bits (`round`), to the even number of two that are as near. Overflow and subnormal numbers are
left out: the numbers are such that they are within the range. A rounded number has a relative error
of at most `2 ^ (-53)` (`abs_round_sub_le`), and integers below `2 ^ 53` are kept (`round_natCast`).
-/

namespace Double

variable {x y : ℚ}

/-- The nearest integer, the even one of two. -/
def roundEven (y : ℚ) : ℤ :=
  if y - ⌊y⌋ < 1 / 2 then ⌊y⌋
  else if 1 / 2 < y - ⌊y⌋ then ⌊y⌋ + 1
  else if Even ⌊y⌋ then ⌊y⌋ else ⌊y⌋ + 1

/-- The distance of the numbers of 53 bits around a number. -/
def ulp (x : ℚ) : ℚ := 2 ^ (Int.log 2 |x| - 52)

/-- The nearest number of 53 bits. -/
def round (x : ℚ) : ℚ := roundEven (x / ulp x) * ulp x

theorem abs_roundEven_sub_le (y : ℚ) : |(roundEven y : ℚ) - y| ≤ 1 / 2 := by
  have hle := Int.floor_le y
  have hlt := Int.lt_floor_add_one y
  unfold roundEven
  rw [abs_le]
  split
  · constructor <;> linarith
  · split
    · push_cast
      constructor <;> linarith
    · split
      · constructor <;> linarith
      · push_cast
        constructor <;> linarith

theorem roundEven_intCast (n : ℤ) : roundEven n = n := by
  rw [roundEven, Int.floor_intCast, sub_self, if_pos (by norm_num)]

theorem ulp_pos (x : ℚ) : 0 < ulp x := zpow_pos (by norm_num) _

theorem ulp_le (hx : x ≠ 0) : ulp x ≤ |x| / 2 ^ 52 := by
  have hlog : (2 : ℚ) ^ Int.log 2 |x| ≤ |x| := by
    exact_mod_cast Int.zpow_log_le_self (by decide : 1 < 2) (abs_pos.2 hx)
  rw [ulp, zpow_sub₀ (by norm_num)]
  exact div_le_div_of_nonneg_right hlog (by positivity)

theorem abs_round_sub_le (x : ℚ) : |round x - x| ≤ |x| / 2 ^ 53 := by
  rcases eq_or_ne x 0 with rfl | hx
  · simp [round, roundEven]
  · have hulp := ulp_pos x
    have heq : round x - x = (roundEven (x / ulp x) - x / ulp x) * ulp x := by
      rw [round, sub_mul, div_mul_cancel₀ x hulp.ne']
    calc |round x - x| = |(roundEven (x / ulp x) : ℚ) - x / ulp x| * ulp x := by
          rw [heq, abs_mul, abs_of_pos hulp]
      _ ≤ 1 / 2 * (|x| / 2 ^ 52) :=
        mul_le_mul (abs_roundEven_sub_le _) (ulp_le hx) hulp.le (by norm_num)
      _ = |x| / 2 ^ 53 := by ring

theorem round_le (hx : 0 ≤ x) : round x ≤ x * (1 + 1 / 2 ^ 53) := by
  have h := (abs_le.1 (abs_round_sub_le x)).2
  rw [abs_of_nonneg hx] at h
  linarith

theorem round_nonneg (hx : 0 ≤ x) : 0 ≤ round x := by
  have h := (abs_le.1 (abs_round_sub_le x)).1
  rw [abs_of_nonneg hx] at h
  linarith

theorem round_natCast {n : ℕ} (hn : n < 2 ^ 53) : round n = n := by
  have hlog : Nat.log 2 n ≤ 52 := Nat.le_of_lt_succ (Nat.log_lt_of_lt_pow' (by decide) hn)
  have hulp : ulp n = ((2 : ℚ) ^ (52 - Nat.log 2 n))⁻¹ := by
    have hexp : (Nat.log 2 n : ℤ) - 52 = -((52 - Nat.log 2 n : ℕ) : ℤ) := by omega
    rw [ulp, Nat.abs_cast, Int.log_natCast, hexp, zpow_neg, zpow_natCast]
  have hquotient : (n : ℚ) / ulp n = ((n * 2 ^ (52 - Nat.log 2 n) : ℕ) : ℤ) := by
    rw [hulp, div_inv_eq_mul]
    push_cast
    rfl
  rw [round, hquotient, roundEven_intCast, hulp]
  push_cast
  field_simp

end Double
