import Mathlib.Algebra.Ring.Int.Defs
import Mathlib.Algebra.Ring.Nat
import Mathlib.Tactic.Common

/-!
# Sequence numbers and packets

`SequenceNumber32` of `src/src/network/utils/sequence-number.h`, as its `m_value`: values modulo `2
^ 32`, compared by the shorter way around. A position `k` of a byte stream has the number `seq isn
k`, where `isn` is the number of its first byte. Positions less than `2 ^ 31` apart are compared by
their numbers as by themselves (`gt_seq` and its companions); farther apart the comparisons tell
nothing.

A packet is the list of its bytes; the packet of a stretch `(a, b)` of a stream is `slice stream (a,
b)`.
-/

namespace OranNs3.Tcp

open List

namespace SequenceNumber32

def halfMaxValue : Nat := 2 ^ 31 - 1

/-- `operator+`. -/
def add (a b : Nat) : Nat := (a + b) % 2 ^ 32

/-- The conversion to `int32_t`. -/
def toInt32 (n : Nat) : Int := if n < 2 ^ 31 then n else n - 2 ^ 32

/-- `operator-` of two sequence numbers. -/
def sub (a b : Nat) : Int :=
  if b < a then
    if a - b < halfMaxValue then toInt32 (a - b) else - toInt32 ((2 ^ 32 - 1 - a + 1 + b) % 2 ^ 32)
  else
    if b - a < halfMaxValue then - toInt32 (b - a) else toInt32 ((2 ^ 32 - 1 - b + 1 + a) % 2 ^ 32)

/-- The conversion of a difference to `uint32_t`. -/
def toUint32 (n : Int) : Nat := (n % 2 ^ 32).toNat

/-- `operator>`. -/
def Gt (a b : Nat) : Prop :=
  b < a ∧ a - b ≤ halfMaxValue ∨ a < b ∧ halfMaxValue < b - a
deriving Decidable

/-- `operator<=`. -/
def Le (a b : Nat) : Prop := ¬ Gt a b
deriving Decidable

/-- `operator>=`. -/
def Ge (a b : Nat) : Prop := Gt a b ∨ a = b
deriving Decidable

/-- `operator<`. -/
def Lt (a b : Nat) : Prop := ¬ Gt a b ∧ a ≠ b
deriving Decidable

end SequenceNumber32

open SequenceNumber32

/-- The number of a position of a stream whose first byte has the number `isn`. -/
def seq (isn k : Nat) : Nat := (isn + k) % 2 ^ 32

variable {isn a b : Nat}

theorem seq_lt (isn k : Nat) : seq isn k < 2 ^ 32 := Nat.mod_lt _ (by decide)

theorem add_seq (isn a n : Nat) : add (seq isn a) n = seq isn (a + n) := by
  simp only [add, seq]
  omega

section
variable (hab : a < b + 2 ^ 31)
include hab

section
variable (hba : b < a + 2 ^ 31)
include hba

theorem gt_seq : Gt (seq isn a) (seq isn b) ↔ b < a := by
  simp only [Gt, seq, halfMaxValue]
  omega

theorem le_seq : Le (seq isn a) (seq isn b) ↔ a ≤ b := by
  rw [Le, gt_seq hab hba, Nat.not_lt]

theorem seq_inj : seq isn a = seq isn b ↔ a = b := by
  simp only [seq]
  omega

theorem ge_seq : Ge (seq isn a) (seq isn b) ↔ b ≤ a := by
  rw [Ge, gt_seq hab hba, seq_inj hab hba]
  omega

theorem lt_seq : Lt (seq isn a) (seq isn b) ↔ a < b := by
  rw [Lt, gt_seq hab hba, Ne, seq_inj hab hba]
  omega

end

end

theorem toUint32_sub {x y : Nat} (hx : x < 2 ^ 32) (hy : y < 2 ^ 32) :
    toUint32 (sub x y) = (x + 2 ^ 32 - y) % 2 ^ 32 := by
  simp only [toUint32, sub, toInt32, halfMaxValue]
  split_ifs <;> omega

theorem toUint32_sub_seq (hab : a < b + 2 ^ 31) (hba : b ≤ a) :
    toUint32 (sub (seq isn a) (seq isn b)) = a - b := by
  rw [toUint32_sub (seq_lt isn a) (seq_lt isn b)]
  simp only [seq]
  omega

/-! ## Packets -/

/-- `Packet::CreateFragment`, with its assertion. -/
def createFragment (p : List UInt8) (start length : Nat) : Option (List UInt8) :=
  if start + length ≤ p.length then some ((p.drop start).take length) else none

/-- The bytes of a stream from `i.1` up to `i.2`. -/
def slice (stream : List UInt8) (i : Nat × Nat) : List UInt8 := (stream.drop i.1).take (i.2 - i.1)

variable {stream : List UInt8} {c d : Nat}

@[simp]
theorem length_slice (h : b ≤ stream.length) : (slice stream (a, b)).length = b - a := by
  simp only [slice, length_take, length_drop]
  omega

theorem createFragment_slice (h : b ≤ stream.length) (hac : a ≤ c) (hcd : c ≤ d) (hdb : d ≤ b) :
    createFragment (slice stream (a, b)) (c - a) (d - c) = some (slice stream (c, d)) := by
  have hlen : c - a + (d - c) ≤ (slice stream (a, b)).length := by
    rw [length_slice h]
    omega
  rw [createFragment, if_pos hlen, slice, slice, drop_take, take_take, drop_drop]
  congr 3 <;> omega

theorem slice_append (hab : a ≤ b) (hbc : b ≤ c) :
    slice stream (a, b) ++ slice stream (b, c) = slice stream (a, c) := by
  have hdrop : stream.drop b = (stream.drop a).drop (b - a) := by
    rw [drop_drop]
    congr 1
    omega
  rw [slice, slice, slice, hdrop, ← take_add]
  congr 1
  omega

theorem eq_slice {p q t : List UInt8} (h : p ++ (q ++ t) = stream) :
    q = slice stream (p.length, p.length + q.length) := by
  subst h
  rw [slice, drop_left, Nat.add_sub_cancel_left, take_left]

theorem slice_slice {n : Nat} (h : c + d ≤ n) :
    slice (slice stream (a, a + n)) (c, c + d) = slice stream (a + c, a + c + d) := by
  simp only [slice, drop_take, take_take, drop_drop]
  congr 1
  omega

end OranNs3.Tcp
