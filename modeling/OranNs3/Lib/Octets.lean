import Mathlib.Data.List.Basic
import Mathlib.Tactic.IntervalCases

/-!
# Bits of octets

The bits of a vector from a place down to its last bit (`bitsFrom`), and the octet that starts with
given bits, from its first bit on (`octetOf`). Octets are seen through their bits, so that a shift
drops bits, and a mask takes one.
-/

namespace Octets

open List

section
variable {n k i : Nat} {l l' : List Bool} {b : Bool}

/-- The bits below `k`, the highest first. -/
def bitsFrom (v : BitVec n) : Nat → List Bool
  | 0 => []
  | k + 1 => v.getLsbD k :: bitsFrom v k

/-- An octet from its first bits; the others are 0. -/
def octetOf : List Bool → BitVec 8
  | [] => 0
  | b :: l => (if b then 0x80#8 else 0#8) ||| octetOf l >>> 1

/-- A bit is set or reset. -/
def setBit (v : BitVec n) (k : Nat) (b : Bool) : BitVec n :=
  (v &&& ~~~(1#n <<< k)) ||| if b then 1#n <<< k else 0#n

@[simp]
theorem length_bitsFrom (v : BitVec n) : ∀ k, (bitsFrom v k).length = k
  | 0 => rfl
  | k + 1 => by rw [bitsFrom, length_cons, length_bitsFrom v k]

theorem getElem_bitsFrom (v : BitVec n) : ∀ {k i : Nat} (h : i < (bitsFrom v k).length),
    (bitsFrom v k)[i] = v.getLsbD (k - 1 - i)
  | 0, _, h => absurd h (Nat.not_lt_zero _)
  | k + 1, 0, _ => rfl
  | k + 1, i + 1, h => by
    have hi : i < (bitsFrom v k).length := Nat.lt_of_succ_lt_succ h
    have hindex : k + 1 - 1 - (i + 1) = k - 1 - i := by omega
    rw [hindex, ← getElem_bitsFrom v hi]
    rfl

theorem bitsFrom_add (v : BitVec n) (k : Nat) :
    ∀ m, bitsFrom v (k + m) = (bitsFrom v (k + m)).take m ++ bitsFrom v k
  | 0 => rfl
  | m + 1 => by
    have hrest := bitsFrom_add v k m
    rw [← Nat.add_assoc, bitsFrom, take_succ_cons, cons_append, ← hrest]

theorem getLsbD_mask {i j : Nat} (hi : i < 8) (hj : j < 8) :
    (0x80#8 >>> i).getLsbD (7 - j) = decide (j = i) := by
  have hall : ∀ i < 8, ∀ j < 8, (0x80#8 >>> i).getLsbD (7 - j) = decide (j = i) := by decide
  exact hall i hi j hj

theorem getLsbD_octetOf : ∀ {l : List Bool} {i : Nat}, i < 8 →
    (octetOf l).getLsbD (7 - i) = l.getD i false
  | [], i, _ => by rw [octetOf, getD_nil]; exact BitVec.getLsbD_zero
  | b :: l, 0, _ => by
    rw [octetOf, BitVec.getLsbD_or, BitVec.getLsbD_ushiftRight,
      BitVec.getLsbD_of_ge _ (1 + (7 - 0)) (by decide)]
    cases b <;> rfl
  | b :: l, i + 1, hi => by
    have hrest := @getLsbD_octetOf l i (by omega)
    have hindex : 1 + (7 - (i + 1)) = 7 - i := by omega
    have htop : (if b then 0x80#8 else 0#8).getLsbD (7 - (i + 1)) = false := by
      cases b with
      | false => exact BitVec.getLsbD_zero
      | true => exact getLsbD_mask (i := 0) (by decide) hi |>.trans (decide_eq_false (by omega))
    rw [octetOf, BitVec.getLsbD_or, BitVec.getLsbD_ushiftRight, hindex, hrest, htop, Bool.false_or,
      getD_cons_succ]

theorem octet_ext {o o' : BitVec 8} (h : ∀ i < 8, o.getLsbD (7 - i) = o'.getLsbD (7 - i)) :
    o = o' := by
  refine BitVec.eq_of_getLsbD_eq fun i hi => ?_
  have heq := h (7 - i) (by omega)
  rwa [Nat.sub_sub_self (by omega)] at heq

theorem octetOf_append (b : Bool) : ∀ l : List Bool,
    octetOf (l ++ [b]) = octetOf l ||| if b then 0x80#8 >>> l.length else 0#8
  | [] => by
    rw [nil_append, octetOf, octetOf, length_nil]
    cases b <;> rfl
  | c :: l => by
    rw [cons_append, octetOf, octetOf_append b l, BitVec.ushiftRight_or_distrib, octetOf,
      ← BitVec.or_assoc]
    congr 1
    cases b with
    | false => exact BitVec.zero_ushiftRight
    | true => rw [if_pos rfl, if_pos rfl, length_cons, BitVec.shiftRight_add]

theorem octetOf_replicate : ∀ n, octetOf (replicate n false) = 0
  | 0 => rfl
  | n + 1 => by
    rw [replicate_succ, octetOf, octetOf_replicate n]
    rfl

theorem octetOf_shiftLeft (hl : l.length ≤ 8) (k : Nat) : octetOf l <<< k = octetOf (l.drop k) := by
  refine octet_ext fun i hi => ?_
  rw [getLsbD_octetOf hi, getD_eq_getElem?_getD, getElem?_drop, BitVec.getLsbD_shiftLeft]
  by_cases hk : 7 - i < k
  · rw [decide_eq_true hk, getElem?_eq_none (by omega), Bool.not_true, Bool.and_false,
      Bool.false_and]
    rfl
  · have hindex : 7 - i - k = 7 - (k + i) := by omega
    rw [decide_eq_false hk, hindex, getLsbD_octetOf (by omega), getD_eq_getElem?_getD,
      Bool.not_false, Bool.and_true,
      decide_eq_true (by omega : 7 - i < 8), Bool.true_and]

theorem bits_octetOf (hl : l.length ≤ 8) :
    bitsFrom (octetOf l) 8 = l ++ replicate (8 - l.length) false := by
  refine ext_getElem ?_ fun i hi _ => ?_
  · rw [length_bitsFrom, length_append, length_replicate, Nat.add_sub_cancel' hl]
  · rw [length_bitsFrom] at hi
    rw [getElem_bitsFrom, getLsbD_octetOf hi, getElem_append]
    split_ifs with hlt
    · rw [getD_eq_getElem?_getD, getElem?_eq_getElem hlt, Option.getD_some]
    · rw [getD_eq_getElem?_getD, getElem?_eq_none (by omega), getElem_replicate, Option.getD_none]

theorem octetOf_bits (o : BitVec 8) : octetOf (bitsFrom o 8) = o := by
  refine octet_ext fun i hi => ?_
  have hlength : i < (bitsFrom o 8).length := by rwa [length_bitsFrom]
  rw [getLsbD_octetOf hi, getD_eq_getElem?_getD, getElem?_eq_getElem hlength, getElem_bitsFrom,
    Option.getD_some]

theorem and_mask (o : BitVec 8) {i : Nat} (hi : i < 8) :
    decide (o &&& 0x80#8 >>> i ≠ 0) = o.getLsbD (7 - i) := by
  cases hbit : o.getLsbD (7 - i) with
  | true =>
    refine decide_eq_true fun hzero => ?_
    have hone := congrArg (BitVec.getLsbD · (7 - i)) hzero
    rw [BitVec.getLsbD_and, hbit, getLsbD_mask hi hi] at hone
    simp at hone
  | false =>
    refine decide_eq_false (not_not.mpr (octet_ext fun j hj => ?_))
    rw [BitVec.getLsbD_and, getLsbD_mask hi hj]
    by_cases hji : j = i
    · rw [hji, hbit]
      exact (Bool.false_and _).trans BitVec.getLsbD_zero.symm
    · rw [decide_eq_false hji, Bool.and_false]
      exact BitVec.getLsbD_zero.symm

theorem getLsbD_setBit (v : BitVec n) (hk : k < n) :
    (setBit v k b).getLsbD i = if i = k then b else v.getLsbD i := by
  have hone : (1#n <<< k).getLsbD i = decide (k = i) := by
    have htwoPow : (BitVec.twoPow n k).getLsbD i = _ := BitVec.getLsbD_twoPow k i
    rw [decide_eq_true hk, Bool.true_and] at htwoPow
    exact htwoPow
  rw [setBit, BitVec.getLsbD_or, BitVec.getLsbD_and, BitVec.getLsbD_not, hone]
  by_cases hi : i = k
  · rw [if_pos hi, decide_eq_true hi.symm, Bool.not_true, Bool.and_false, Bool.and_false,
      Bool.false_or]
    cases b with
    | false => exact BitVec.getLsbD_zero
    | true => exact hone.trans (decide_eq_true hi.symm)
  · have hset : (if b then 1#n <<< k else 0#n).getLsbD i = false := by
      cases b with
      | false => exact BitVec.getLsbD_zero
      | true => exact hone.trans (decide_eq_false (Ne.symm hi))
    rw [if_neg hi, decide_eq_false (Ne.symm hi), hset, Bool.or_false, Bool.not_false, Bool.and_true]
    by_cases hlt : i < n
    · rw [decide_eq_true hlt, Bool.and_true]
    · rw [BitVec.getLsbD_of_ge v i (Nat.not_lt.mp hlt), Bool.false_and]

end

end Octets
