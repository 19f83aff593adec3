import OranNs3.Tcp.SequenceNumber

/-!
# Serial arithmetic

`SequenceNumber<NUMERIC_TYPE, SIGNED_TYPE>` (`sequence-number.h`) at its widths of 8, 16 and 32
bits. The difference is computed in the type the operands are promoted to: `int` for the two shorter
widths, `uint32_t` for the longest, and `int` in all of them once it is signed, where a value out of
range is an overflow. Comparison and difference agree on every pair of numbers that are not half of
the number space apart, and on no other (`serial_iff`).
-/

namespace OranNs3

/-- The instances of `SequenceNumber`: `SequenceNumber8`, `SequenceNumber16` and `SequenceNumber32`.
-/
inductive SequenceNumber.Width
  | w8
  | w16
  | w32
deriving DecidableEq

/-- The bits of `NUMERIC_TYPE` and `SIGNED_TYPE`. -/
def SequenceNumber.Width.bits : Width → Nat
  | .w8 => 8
  | .w16 => 16
  | .w32 => 32

/-- `SequenceNumber`. -/
structure SequenceNumber (w : SequenceNumber.Width) where
  value : BitVec w.bits
deriving DecidableEq

namespace SequenceNumber

variable {w : Width} {a b : SequenceNumber w} {d : Int}

/-- `std::numeric_limits<NUMERIC_TYPE>::max()`. -/
def maxValue (w : Width) : Nat := 2 ^ w.bits - 1

def halfMaxValue (w : Width) : Nat := maxValue w / 2

/-- The conversion to `SIGNED_TYPE`. -/
def toSigned (w : Width) (n : Int) : Int := n.bmod (2 ^ w.bits)

/-- The negation of a value of `SIGNED_TYPE`, which is promoted to `int`, and its conversion back:
none when it overflows. -/
def negate (w : Width) (n : Int) : Option Int :=
  if -n < 2 ^ 31 then some (toSigned w (-n)) else none

/-- `operator+` of a `SIGNED_TYPE`. -/
def add (a : SequenceNumber w) (delta : Int) : SequenceNumber w :=
  ⟨BitVec.ofInt _ (a.value.toNat + delta)⟩

/-- `operator-` of two sequence numbers, none when it overflows. -/
def sub (a b : SequenceNumber w) : Option Int :=
  let x := a.value.toNat
  let y := b.value.toNat
  if y < x then
    if x - y < halfMaxValue w then some (toSigned w ↑(x - y))
    else negate w (toSigned w ↑(maxValue w - x + 1 + y))
  else
    if y - x < halfMaxValue w then negate w (toSigned w ↑(y - x))
    else some (toSigned w ↑(maxValue w - y + 1 + x))

/-- `operator>`. -/
def Gt (a b : SequenceNumber w) : Prop :=
  let x := a.value.toNat
  let y := b.value.toNat
  y < x ∧ x - y ≤ halfMaxValue w ∨ x < y ∧ halfMaxValue w < y - x

/-- `operator==`. -/
def Eq (a b : SequenceNumber w) : Prop := a.value = b.value

/-- `operator<`. -/
def Lt (a b : SequenceNumber w) : Prop := ¬ Gt a b ∧ a.value ≠ b.value

/-- Half of the number space. -/
def half (w : Width) : Nat := 2 ^ (w.bits - 1)

/-- The numbers are half of the number space apart. -/
def HalfApart (a b : SequenceNumber w) : Prop :=
  a.value.toNat + half w = b.value.toNat ∨ b.value.toNat + half w = a.value.toNat

/-- The laws of serial arithmetic for a pair of numbers. -/
structure Serial (a b : SequenceNumber w) : Prop where
  /-- The order is that of the difference. -/
  gt_iff : ∃ d, a.sub b = some d ∧ (a.Gt b ↔ 0 < d)
  /-- The difference leads from one number to the other. -/
  add_sub : ∃ d, a.sub b = some d ∧ b.add d = a
  /-- The difference is antisymmetric. -/
  antisymm : ∃ d d', a.sub b = some d ∧ b.sub a = some d' ∧ d = -d'
  /-- Exactly one of the three comparisons holds. -/
  trichotomy : (a.Lt b ∧ ¬ a.Eq b ∧ ¬ a.Gt b) ∨ (¬ a.Lt b ∧ a.Eq b ∧ ¬ a.Gt b) ∨
    (¬ a.Lt b ∧ ¬ a.Eq b ∧ a.Gt b)

/-! ## The bounds of the types -/

theorem two_half (w : Width) : 2 ^ w.bits = 2 * half w := by cases w <;> rfl

theorem half_pos (w : Width) : 1 < half w := by cases w <;> decide

theorem half_le (w : Width) : half w ≤ 2 ^ 31 := by cases w <;> decide

theorem maxValue_eq (w : Width) : maxValue w = 2 * half w - 1 := by rw [maxValue, two_half]

theorem halfMaxValue_eq (w : Width) : halfMaxValue w = half w - 1 := by
  rw [halfMaxValue, maxValue_eq]
  omega

theorem value_lt (a : SequenceNumber w) : a.value.toNat < 2 * half w := by
  rw [← two_half]
  exact a.value.isLt

theorem toSigned_of_lt (h : -(half w : Int) ≤ d) (h' : d < half w) : toSigned w d = d := by
  rw [toSigned, two_half]
  exact Int.bmod_eq_of_le (by omega) (by omega)

theorem toSigned_of_le (h : (half w : Int) ≤ d) (h' : d < 3 * half w) :
    toSigned w d = d - 2 * half w := by
  have hwrap : toSigned w d = toSigned w (d - 2 * half w) := by
    rw [toSigned, toSigned, two_half, ← Int.sub_bmod_right]
    push_cast
    rfl
  rw [hwrap]
  exact toSigned_of_lt (by omega) (by omega)

theorem negate_of_lt (h : -d < half w) (h' : d ≤ half w) : negate w d = some (-d) := by
  have := half_le w
  rw [negate, if_pos (by omega), toSigned_of_lt (by omega) h]

/-! ## The laws -/

theorem lt_or_eq_or_gt (a b : SequenceNumber w) : (a.Lt b ∧ ¬ a.Eq b ∧ ¬ a.Gt b) ∨
    (¬ a.Lt b ∧ a.Eq b ∧ ¬ a.Gt b) ∨ (¬ a.Lt b ∧ ¬ a.Eq b ∧ a.Gt b) := by
  have hne : a.Gt b → ¬ a.Eq b := by
    rintro h heq
    have : a.value.toNat = b.value.toNat := congrArg _ heq
    unfold Gt at h
    omega
  by_cases hgt : a.Gt b
  · exact .inr (.inr ⟨fun h => h.1 hgt, hne hgt, hgt⟩)
  · by_cases heq : a.Eq b
    · exact .inr (.inl ⟨fun h => h.2 heq, heq, hgt⟩)
    · exact .inl ⟨⟨hgt, heq⟩, heq, hgt⟩

/-- The difference of numbers that are not half of the space apart goes the shorter way around. -/
theorem sub_eq (h : ¬ HalfApart a b) : a.sub b = some (
    if a.value.toNat + half w < b.value.toNat then
      (a.value.toNat : Int) - b.value.toNat + 2 * half w
    else if b.value.toNat + half w < a.value.toNat then
      (a.value.toNat : Int) - b.value.toNat - 2 * half w
    else (a.value.toNat : Int) - b.value.toNat) := by
  have ha := value_lt a
  have hb := value_lt b
  have hpos := half_pos w
  unfold HalfApart at h
  unfold sub
  rw [maxValue_eq, halfMaxValue_eq]
  dsimp only
  generalize a.value.toNat = x at *
  generalize b.value.toNat = y at *
  by_cases hyx : y < x
  · rw [if_pos hyx]
    by_cases hnear : x - y < half w - 1
    · rw [if_pos hnear, toSigned_of_lt (by omega) (by omega)]
      congr 1
      omega
    · rw [if_neg hnear]
      -- just below half of the space, the conversion of the complement turns negative
      by_cases hedge : x - y = half w - 1
      · rw [toSigned_of_le (by omega) (by omega), negate_of_lt (by omega) (by omega)]
        congr 1
        omega
      · rw [toSigned_of_lt (by omega) (by omega), negate_of_lt (by omega) (by omega)]
        congr 1
        omega
  · rw [if_neg hyx]
    by_cases hnear : y - x < half w - 1
    · rw [if_pos hnear, toSigned_of_lt (by omega) (by omega), negate_of_lt (by omega) (by omega)]
      congr 1
      omega
    · rw [if_neg hnear]
      by_cases hedge : y - x = half w - 1
      · rw [toSigned_of_le (by omega) (by omega)]
        congr 1
        omega
      · rw [toSigned_of_lt (by omega) (by omega)]
        congr 1
        omega

theorem add_eq (k : Int) (h : b.value.toNat + d = a.value.toNat + 2 * half w * k) :
    b.add d = a := by
  have ha := a.value.isLt
  cases a with
  | mk v =>
    rw [add, mk.injEq, h]
    refine BitVec.eq_of_toNat_eq ?_
    have hmod : ((v.toNat : Int) + 2 * half w * k) % ((2 ^ w.bits : Nat) : Int) = v.toNat := by
      have h2 : ((2 ^ w.bits : Nat) : Int) = 2 * half w := by exact_mod_cast two_half w
      rw [h2, Int.add_mul_emod_self_left, ← h2]
      exact Int.emod_eq_of_lt (by omega) (by exact_mod_cast ha)
    rw [BitVec.toNat_ofInt, hmod, Int.toNat_natCast]

theorem halfApart_comm : HalfApart a b ↔ HalfApart b a := or_comm

theorem serial_of_not_halfApart (h : ¬ HalfApart a b) : Serial a b := by
  have hab := sub_eq h
  have hba := sub_eq (mt halfApart_comm.2 h)
  have ha := value_lt a
  have hb := value_lt b
  refine ⟨⟨_, hab, ?_⟩, ⟨_, hab, ?_⟩, ⟨_, _, hab, hba, ?_⟩, lt_or_eq_or_gt a b⟩
  · rw [Gt, halfMaxValue_eq]
    unfold HalfApart at h
    omega
  · split_ifs
    · exact add_eq 1 (by omega)
    · exact add_eq (-1) (by omega)
    · exact add_eq 0 (by omega)
  · unfold HalfApart at h
    omega

/-- The smaller of two numbers half of the space apart is the greater one for `operator>`, and the
difference says the contrary. -/
theorem sub_of_half (h : a.value.toNat + half w = b.value.toNat) :
    a.sub b = some (-(half w : Int)) ∧ a.Gt b := by
  have hpos := half_pos w
  have hb := value_lt b
  constructor
  · rw [sub, maxValue_eq, halfMaxValue_eq]
    rw [if_neg (by omega), if_neg (by omega), toSigned_of_le (by omega) (by omega)]
    congr 1
    omega
  · rw [Gt, halfMaxValue_eq]
    omega

/-- The laws of serial arithmetic hold of a pair of numbers exactly when these are not half of the
number space apart. -/
theorem serial_iff (a b : SequenceNumber w) : Serial a b ↔ ¬ HalfApart a b := by
  refine ⟨fun hs hh => ?_, serial_of_not_halfApart⟩
  have hpos := half_pos w
  rcases hh with h | h
  · obtain ⟨d, hd, hgt⟩ := hs.gt_iff
    obtain ⟨hsub, hgt'⟩ := sub_of_half h
    cases hsub.symm.trans hd
    have := hgt.1 hgt'
    omega
  · obtain ⟨d, d', hd, hd', hdd⟩ := hs.antisymm
    obtain ⟨hsub, -⟩ := sub_of_half h
    cases hsub.symm.trans hd'
    have ha := value_lt a
    rw [sub, maxValue_eq, halfMaxValue_eq] at hd
    rw [if_pos (by omega), if_neg (by omega), toSigned_of_le (by omega) (by omega), negate] at hd
    split at hd
    · rw [toSigned_of_le (by omega) (by omega)] at hd
      have := Option.some.inj hd
      omega
    · cases hd

/-- The difference of `2 ^ 31` and `0` overflows. -/
theorem sub_overflows : ¬ ∀ (w : Width) (a b : SequenceNumber w), Serial a b := by
  intro h
  obtain ⟨d, hd, -⟩ := (h .w32 ⟨0x80000000#32⟩ ⟨0#32⟩).gt_iff
  have hnone : sub (w := .w32) ⟨0x80000000#32⟩ ⟨0#32⟩ = none := by decide +kernel
  rw [hnone] at hd
  cases hd

/-! ## The numbers of TCP -/

theorem gt_iff_tcp (a b : SequenceNumber .w32) :
    a.Gt b ↔ Tcp.SequenceNumber32.Gt a.value.toNat b.value.toNat := by
  rw [Gt, halfMaxValue_eq]
  rfl

theorem sub_tcp {a b : SequenceNumber .w32} (h : ¬ HalfApart a b) :
    a.sub b = some (Tcp.SequenceNumber32.sub a.value.toNat b.value.toNat) := by
  have ha := value_lt a
  have hb := value_lt b
  have hhalf : half .w32 = 2147483648 := rfl
  rw [sub_eq h]
  unfold HalfApart at h
  rw [hhalf] at ha hb h ⊢
  simp only [Tcp.SequenceNumber32.sub, Tcp.SequenceNumber32.halfMaxValue,
    Tcp.SequenceNumber32.toInt32, Nat.reducePow, Nat.reduceSub, Int.reducePow]
  generalize a.value.toNat = x at *
  generalize b.value.toNat = y at *
  congr 1
  split_ifs <;> omega

end SequenceNumber

end OranNs3
