import OranNs3.Lib.Fallible
import Mathlib.Data.Nat.ModEq

/-!
# Sequence numbers of 10 bits

`nr::SequenceNumber10` (`nr-rlc-sequence-number.h`): a value modulo 1024 and a modulus base,
relative to which two numbers with the same base are compared. The differences are computed in `int`
and stored in an `uint16_t`, so one that is negative becomes a number near `2 ^ 16`; the order is
that of the distances from the base all the same (`gt_eq`).

The proofs about the entities count without wrapping: `a.Rep b n` says that `a` stands for the
`n`-th number, and its base for the `b`-th. Numbers that stand less than 1024 above their common
base are compared as the numbers they stand for (`Rep.gt`).
-/

namespace OranNs3.Rlc

/-- An assertion fails on two modulus bases that are compared, on a sequence number outside of the
transmitting window, on a transmission opportunity that is too small, on a retransmission without a
PDU, on a loop that came round, or on another condition; or a pointer without a packet is used, or
an empty range of bytes tagged. -/
inductive RlcError
  | modulusBase
  | window
  | txOpportunity
  | noPduForRetx
  | infiniteLoop
  | assertion
  | nullPointer
  | invalidByteRange
deriving DecidableEq

/-- The conversion to `uint16_t`. -/
def toUint16 (n : Int) : Nat := (n % 65536).toNat

/-- `nr::SequenceNumber10`. -/
structure SequenceNumber10 where
  value : Nat := 0
  modulusBase : Nat := 0
deriving DecidableEq

namespace SequenceNumber10

/-- The constructor from a value. -/
def ofValue (value : Nat) : SequenceNumber10 := ⟨value % 1024, 0⟩

variable (n : SequenceNumber10)

/-- `operator=` of a value, which keeps the base. -/
def assign (value : Nat) : SequenceNumber10 :=
  { n with value := value % 1024 }

/-- `SetModulusBase` of a sequence number. -/
def setModulusBase (n base : SequenceNumber10) : SequenceNumber10 :=
  { n with modulusBase := base.value }

/-- `operator++`, the number after it. -/
def incr : SequenceNumber10 := { n with value := (n.value + 1) % 1024 }

/-- `operator+`. -/
def add (delta : Nat) : SequenceNumber10 :=
  { ofValue ((n.value + delta) % 1024) with modulusBase := n.modulusBase }

/-- `operator-` of a number. -/
def sub (delta : Nat) : SequenceNumber10 :=
  { ofValue (toUint16 (((n.value : Int) - delta).tmod 1024)) with modulusBase := n.modulusBase }

/-- What `operator>` compares. -/
def fromBase : Nat := toUint16 (((n.value : Int) - n.modulusBase).tmod 1024)

/-- `operator>`. -/
def gt (n other : SequenceNumber10) : Except RlcError Bool :=
  if n.modulusBase = other.modulusBase then .ok (n.fromBase > other.fromBase)
  else .error .modulusBase

/-- `operator==`. -/
def eq (n other : SequenceNumber10) : Bool := n.value = other.value

/-- `operator<=`. -/
def le (n other : SequenceNumber10) : Except RlcError Bool := (n.gt other).map (!·)

/-- `operator>=`. -/
def ge (n other : SequenceNumber10) : Except RlcError Bool := (n.gt other).map (· || n.eq other)

/-- `operator<`. -/
def lt (n other : SequenceNumber10) : Except RlcError Bool :=
  (n.gt other).map (!· && !n.eq other)

/-! ## Numbers without wrapping -/

/-- The number stands for the `n`-th, and its base for the `b`-th. -/
structure Rep (a : SequenceNumber10) (b n : Nat) : Prop where
  value : a.value = n % 1024
  base : a.modulusBase = b % 1024

section rep
variable {a a' : SequenceNumber10} {b b' n n' d : Nat}

section
variable (h : a.Rep b n)
include h

theorem Rep.fromBase_eq (hb : b ≤ n) (hn : n < b + 1024) :
    (n % 1024 ≥ b % 1024 ∧ a.fromBase = n - b) ∨
      (n % 1024 < b % 1024 ∧ a.fromBase = 65536 - 1024 + (n - b)) := by
  have hv := h.value
  have hm := h.base
  have htmod : ((a.value : Int) - a.modulusBase).tmod 1024 = (a.value : Int) - a.modulusBase := by
    rw [hv, hm]
    rcases Nat.lt_or_ge (n % 1024) (b % 1024) with hlt | hge
    · rw [← neg_neg ((n % 1024 : Nat) - (b % 1024 : Nat) : Int), Int.neg_tmod,
        Int.tmod_eq_of_lt (by omega) (by omega)]
    · rw [Int.tmod_eq_of_lt (by omega) (by omega)]
  rw [fromBase, htmod, toUint16, hv, hm]
  rcases Nat.lt_or_ge (n % 1024) (b % 1024) with hlt | hge
  · exact .inr ⟨hlt, by omega⟩
  · exact .inl ⟨hge, by omega⟩

theorem Rep.gt (h' : a'.Rep b n') (hb : b ≤ n) (hn : n < b + 1024) (hb' : b ≤ n')
    (hn' : n' < b + 1024) : a.gt a' = .ok (decide (n > n')) := by
  rw [SequenceNumber10.gt, if_pos (h.base.trans h'.base.symm)]
  refine congrArg Except.ok (decide_eq_decide.2 ?_)
  have h1 := h.fromBase_eq hb hn
  have h2 := h'.fromBase_eq hb' hn'
  omega

theorem Rep.eq (h' : a'.Rep b' n') (hn : n < n' + 1024) (hn' : n' < n + 1024) :
    a.eq a' = decide (n = n') := by
  refine decide_eq_decide.2 ?_
  rw [h.value, h'.value]
  omega

theorem Rep.le (h' : a'.Rep b n') (hb : b ≤ n) (hn : n < b + 1024) (hb' : b ≤ n')
    (hn' : n' < b + 1024) : a.le a' = .ok (decide (n ≤ n')) := by
  rw [SequenceNumber10.le, h.gt h' hb hn hb' hn', Except.map]
  by_cases hle : n ≤ n' <;> simp [hle]
  omega

theorem Rep.ge (h' : a'.Rep b n') (hb : b ≤ n) (hn : n < b + 1024) (hb' : b ≤ n')
    (hn' : n' < b + 1024) : a.ge a' = .ok (decide (n' ≤ n)) := by
  rw [SequenceNumber10.ge, h.gt h' hb hn hb' hn', Except.map, h.eq h' (by omega) (by omega)]
  refine congrArg Except.ok ?_
  rw [Bool.eq_iff_iff]
  simp only [Bool.or_eq_true, decide_eq_true_eq]
  omega

theorem Rep.lt (h' : a'.Rep b n') (hb : b ≤ n) (hn : n < b + 1024) (hb' : b ≤ n')
    (hn' : n' < b + 1024) : a.lt a' = .ok (decide (n < n')) := by
  rw [SequenceNumber10.lt, h.gt h' hb hn hb' hn', Except.map, h.eq h' (by omega) (by omega)]
  refine congrArg Except.ok ?_
  rw [Bool.eq_iff_iff]
  simp only [Bool.and_eq_true, Bool.not_eq_true', decide_eq_false_iff_not, decide_eq_true_eq]
  omega

theorem Rep.incr : a.incr.Rep b (n + 1) := by
  refine ⟨?_, h.base⟩
  rw [SequenceNumber10.incr]
  simp only [h.value]
  omega

theorem Rep.add : (a.add d).Rep b (n + d) := by
  refine ⟨?_, h.base⟩
  rw [SequenceNumber10.add, ofValue]
  simp only [h.value]
  omega

theorem Rep.sub (hd : d ≤ n) : (a.sub d).Rep b (n - d) := by
  refine ⟨?_, h.base⟩
  have hmod : ∀ i : Int, (toUint16 (i.tmod 1024) % 1024 : Int) = i % 1024 := by
    intro i
    rw [toUint16, Int.toNat_of_nonneg (by omega)]
    have h1 := Int.tmod_eq_emod (a := i) (b := 1024)
    rw [h1]
    split <;> omega
  have hval := hmod ((a.value : Int) - d)
  rw [h.value] at hval
  simp only [SequenceNumber10.sub, ofValue, h.value]
  omega

theorem Rep.setModulusBase {c : SequenceNumber10} (hc : c.Rep b' n') :
    (a.setModulusBase c).Rep n' n := ⟨h.value, hc.value⟩

end

theorem Rep.assign (h : a.Rep b n') {v : Nat} (hv : v % 1024 = n % 1024) : (a.assign v).Rep b n :=
  ⟨hv, h.base⟩

end rep

end SequenceNumber10

end OranNs3.Rlc
