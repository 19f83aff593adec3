import Mathlib.Algebra.Ring.Nat
import Mathlib.Tactic.Common

/-!
# Word arithmetic that keeps its bits

Computations with words of a fixed width. They may fail, and they remember whether an operation has
lost bits: a sum or a product that wrapped, a shift that dropped a one. `Keeps Q x` says that the
computation `x` ends with a value of which `Q` holds and that no operation on the way lost a bit.
Its rules follow the operations, and speak of the words as numbers.
-/

namespace Words

/-- A computation that fails with an `ε`, or gives its value and whether bits were lost so far. -/
abbrev Calc (ε : Type) := StateT Bool (Except ε)

variable {ε α β : Type} {w : Nat}

/-! ## Operations -/

/-- The value `a`, of which bits are lost unless `p`. -/
def keeping (p : Prop) [Decidable p] (a : α) : Calc ε α := fun lost => .ok (a, lost || !decide p)

/-- An assertion. -/
def check (p : Prop) [Decidable p] (e : ε) : Calc ε Unit := if p then pure () else throw e

theorem check_congr {p q : Prop} [Decidable p] [Decidable q] (h : p ↔ q) (e : ε) :
    check p e = check q e := by
  rw [check, check, if_congr h rfl rfl]

def add (a b : BitVec w) : Calc ε (BitVec w) := keeping (a.toNat + b.toNat < 2 ^ w) (a + b)

def mul (a b : BitVec w) : Calc ε (BitVec w) := keeping (a.toNat * b.toNat < 2 ^ w) (a * b)

/-- The shift to the left. -/
def shl (a : BitVec w) (n : Nat) : Calc ε (BitVec w) := keeping (a.toNat * 2 ^ n < 2 ^ w) (a <<< n)

/-- The shift to the right, where it should drop zeros only. -/
def shr (a : BitVec w) (n : Nat) : Calc ε (BitVec w) := keeping (2 ^ n ∣ a.toNat) (a >>> n)

/-! ## Computations that keep every bit -/

/-- The computation ends with a `Q`, and loses no bit. -/
def Keeps (Q : α → Prop) (x : Calc ε α) : Prop := ∃ a, x = pure a ∧ Q a

section Rules

variable {Q Q' : α → Prop} {R : β → Prop} {x : Calc ε α} {f : α → Calc ε β} {a b : BitVec w}
  {m n : Nat}

theorem Keeps.pure {a : α} (h : Q a) : Keeps Q (pure a : Calc ε α) := ⟨a, rfl, h⟩

theorem Keeps.imp (h : Keeps Q x) (hQ : ∀ a, Q a → Q' a) : Keeps Q' x := by
  obtain ⟨a, hx, ha⟩ := h
  exact ⟨a, hx, hQ a ha⟩

theorem Keeps.bind (h : Keeps Q x) (hf : ∀ a, Q a → Keeps R (f a)) : Keeps R (x >>= f) := by
  obtain ⟨a, rfl, ha⟩ := h
  rw [pure_bind]
  exact hf a ha

theorem Keeps.map (h : Keeps Q x) {g : α → β} (hg : ∀ a, Q a → R (g a)) : Keeps R (g <$> x) := by
  obtain ⟨a, rfl, ha⟩ := h
  rw [map_pure]
  exact .pure (hg a ha)

theorem Keeps.run (h : Keeps Q x) : ∃ a, x false = .ok (a, false) ∧ Q a := by
  obtain ⟨a, rfl, ha⟩ := h
  exact ⟨a, rfl, ha⟩

theorem Keeps.keeping {a : α} {p : Prop} [Decidable p] (hp : p) (h : Q a) :
    Keeps Q (keeping p a : Calc ε α) := by
  refine ⟨a, ?_, h⟩
  funext lost
  rw [Words.keeping, decide_eq_true hp, Bool.not_true, Bool.or_false]
  rfl

theorem Keeps.check {p : Prop} [Decidable p] {e : ε} (hp : p) :
    Keeps (fun _ => True) (check p e) := by
  rw [Words.check, if_pos hp]
  exact .pure trivial

theorem Keeps.add (ha : a.toNat = m) (hb : b.toNat = n) (h : m + n < 2 ^ w) :
    Keeps (fun c => c.toNat = m + n) (add a b : Calc ε (BitVec w)) := by
  subst ha hb
  exact .keeping h (BitVec.toNat_add_of_lt h)

theorem Keeps.mul (ha : a.toNat = m) (hb : b.toNat = n) (h : m * n < 2 ^ w) :
    Keeps (fun c => c.toNat = m * n) (mul a b : Calc ε (BitVec w)) := by
  subst ha hb
  exact .keeping h (BitVec.toNat_mul_of_lt h)

theorem Keeps.shl (ha : a.toNat = m) (h : m * 2 ^ n < 2 ^ w) :
    Keeps (fun c => c.toNat = m * 2 ^ n) (shl a n : Calc ε (BitVec w)) := by
  subst ha
  refine .keeping h ?_
  rw [BitVec.toNat_shiftLeft, Nat.shiftLeft_eq, Nat.mod_eq_of_lt h]

theorem Keeps.shr (ha : a.toNat = m) (h : 2 ^ n ∣ m) :
    Keeps (fun c => c.toNat = m / 2 ^ n) (shr a n : Calc ε (BitVec w)) := by
  subst ha
  refine .keeping h ?_
  rw [BitVec.toNat_ushiftRight, Nat.shiftRight_eq_div_pow]

end Rules

/-! ## Computations that fail -/

/-- The computation ends with the error `e`. -/
def Fails (e : ε) (x : Calc ε α) : Prop := ∀ lost, x lost = .error e

section Rules

variable {Q : α → Prop} {x : Calc ε α} {f : α → Calc ε β} {e : ε}

theorem Fails.check {p : Prop} [Decidable p] (hp : ¬ p) : Fails e (check p e) := by
  intro lost
  rw [Words.check, if_neg hp]
  rfl

theorem Fails.bind (h : Fails e x) : Fails e (x >>= f) := by
  intro lost
  simp only [Bind.bind, StateT.bind, h lost]
  rfl

theorem Keeps.bind_fails (h : Keeps Q x) (hf : ∀ a, Q a → Fails e (f a)) : Fails e (x >>= f) := by
  obtain ⟨a, rfl, ha⟩ := h
  rw [pure_bind]
  exact hf a ha

end Rules

end Words
