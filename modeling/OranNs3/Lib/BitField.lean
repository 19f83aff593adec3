import Mathlib.Data.Nat.Bitwise

/-!
# Bit fields of natural numbers

Shifts, masks and disjunctions of bit fields as arithmetic: a mask of `m` ones at bit `k` takes the
field at `k` of width `m` (`and_mask`), and fields that do not overlap are joined by addition
(`or_eq_add`). With these, the equations between the bytes of a header and its fields are linear
arithmetic. Numbers of two digits compare by the upper digit first (`lt_digits`).
-/

namespace BitField

variable {a b x k m : Nat}

theorem shl : x <<< k = x * 2 ^ k := Nat.shiftLeft_eq x k

theorem shr : x >>> k = x / 2 ^ k := Nat.shiftRight_eq_div_pow x k

theorem and_mask (x k m : Nat) : x &&& ((2 ^ m - 1) <<< k) = x / 2 ^ k % 2 ^ m * 2 ^ k := by
  have hand : x &&& ((2 ^ m - 1) <<< k) = (x >>> k &&& (2 ^ m - 1)) <<< k := by
    apply Nat.eq_of_testBit_eq
    intro i
    simp only [Nat.testBit_and, Nat.testBit_shiftLeft, Nat.testBit_shiftRight]
    rcases Nat.lt_or_ge i k with hlt | hge
    · simp [Nat.not_le.2 hlt]
    · simp [hge, Nat.add_sub_cancel' hge]
  rw [hand, Nat.and_two_pow_sub_one_eq_mod, shl, shr]

theorem or_eq_add (k : Nat) (ha : a % 2 ^ k = 0) (hb : b < 2 ^ k) : a ||| b = a + b := by
  obtain ⟨c, rfl⟩ := Nat.dvd_of_mod_eq_zero ha
  exact (Nat.two_pow_add_eq_or_of_lt hb c).symm

/-- Numbers of two digits are in the order of their upper digits, and of the lower ones where these
are equal. -/
theorem lt_digits {c lo lo' : Nat} (hi hi' : Nat) (hlo : lo < c) (hlo' : lo' < c) :
    lo + hi * c < lo' + hi' * c ↔ hi < hi' ∨ hi = hi' ∧ lo < lo' := by
  rcases Nat.lt_trichotomy hi hi' with hlt | rfl | hgt
  · have := Nat.mul_le_mul_right c hlt
    rw [Nat.succ_mul] at this
    omega
  · omega
  · have := Nat.mul_le_mul_right c hgt
    rw [Nat.succ_mul] at this
    omega

end BitField
