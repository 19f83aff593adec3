import Mathlib.Tactic.Linarith
import Mathlib.Tactic.Ring
import OranNs3.Lib.Run

/-!
# The control law of CoDel

`CoDelQueueDisc` (`codel-queue-disc.cc`) spaces its drops by the interval over the square root of
their number. The reciprocal of the root is a fraction of 16 bits that takes one step of Newton's
method for each drop (`NewtonStep`). A step leaves the product of the number and the square of the
fraction at most one, whatever it was before up to three (`mul_newtonValue_sq_le`); the next drop
raises it to two at most. So the subtraction of the step does not wrap, its result fits, and the
fraction does not become zero (`law_safe`).
-/

namespace OranNs3.CoDel

/-- The fields of `CoDelQueueDisc` that the control law reads, and `m_dropping`. -/
structure Law where
  count : Nat
  lastCount : Nat
  recInvSqrt : Nat
  dropping : Bool
deriving DecidableEq

/-- `~0U >> REC_INV_SQRT_SHIFT`. -/
def one : Nat := 65535

/-- The law of a queue disc as it is constructed. -/
def Law.init : Law := ⟨0, 0, one, false⟩

def invsqrt (recInvSqrt : Nat) : Nat := recInvSqrt * 2 ^ 16 % 2 ^ 32

def invsqrt2 (recInvSqrt : Nat) : Nat := invsqrt recInvSqrt * invsqrt recInvSqrt / 2 ^ 32

/-- The subtrahend of `NewtonStep`. -/
def newtonProduct (recInvSqrt count : Nat) : Nat := count * invsqrt2 recInvSqrt % 2 ^ 64

/-- The result of `NewtonStep` before it is cut to 16 bits. The difference is that of `uint64_t`. -/
def newtonValue (recInvSqrt count : Nat) : Nat :=
  let val := (3 * 2 ^ 32 + 2 ^ 64 - newtonProduct recInvSqrt count) % 2 ^ 64
  let val := val / 4
  let val := val * invsqrt recInvSqrt % 2 ^ 64 / 2 ^ 31
  val / 2 ^ 16

def newtonStep (recInvSqrt count : Nat) : Nat := newtonValue recInvSqrt count % 2 ^ 16

def reciprocalDivide (a r : Nat) : Nat := a * r % 2 ^ 64 / 2 ^ 32 % 2 ^ 32

/-- The time that `ControlLaw` adds. -/
def nextDrop (interval recInvSqrt : Nat) : Nat :=
  reciprocalDivide interval (recInvSqrt * 2 ^ 16 % 2 ^ 32)

namespace Law

/-- The conversion of a `uint32_t` to `int`. -/
def toInt32 (n : Nat) : Int := if n < 2 ^ 31 then n else n - 2 ^ 32

/-- `int delta = m_count - m_lastCount`. -/
def delta (l : Law) : Int := toInt32 ((l.count + 2 ^ 32 - l.lastCount) % 2 ^ 32)

/-- A drop in the dropping state. -/
def drop (l : Law) : Law :=
  let count := (l.count + 1) % 2 ^ 32
  { l with count, recInvSqrt := newtonStep l.recInvSqrt count }

/-- The entry into the dropping state; `recent` is what the comparison of the
time since the last drop says. -/
def enter (l : Law) (recent : Bool) : Law :=
  let l := if 1 < l.delta ∧ recent then
      { l with count := l.delta.toNat, recInvSqrt := newtonStep l.recInvSqrt l.delta.toNat }
    else { l with count := 1, recInvSqrt := one }
  { l with lastCount := l.count, dropping := true }

/-- `m_dropping = false`. -/
def leave (l : Law) : Law := { l with dropping := false }

/-- What `DoDequeue` does to the law. -/
inductive Update
  | drop
  | enter (recent : Bool)
  | leave
deriving DecidableEq

/-- An update: drops in the dropping state, entries outside of it. -/
def step? (l : Law) : Update → Option Law
  | .drop => if l.dropping then some l.drop else none
  | .enter recent => if l.dropping then none else some (l.enter recent)
  | .leave => some l.leave

/-- The number of drops stays below `2 ^ 32`. -/
def Below (l : Law) (a : Update) : Prop := a = .drop → l.count + 1 < 2 ^ 32
deriving Decidable

/-- The arguments of the step of Newton's method that an update takes. -/
def newtonArgs (l : Law) : Update → Option (Nat × Nat)
  | .drop => some (l.recInvSqrt, (l.count + 1) % 2 ^ 32)
  | .enter recent => if 1 < l.delta ∧ recent then some (l.recInvSqrt, l.delta.toNat) else none
  | .leave => none

/-- An update from `l` to `l'` computes what the law means. -/
structure Safe (l : Law) (a : Update) (l' : Law) : Prop where
  /-- The subtraction does not wrap, and the result is not cut. -/
  exact : ∀ p ∈ l.newtonArgs a, newtonProduct p.1 p.2 ≤ 3 * 2 ^ 32 ∧ newtonValue p.1 p.2 < 2 ^ 16
  /-- After a step, the fraction is at most the reciprocal of the root. -/
  product : (l.newtonArgs a).isSome → l'.count * l'.recInvSqrt ^ 2 ≤ 2 ^ 32
  pos : l'.recInvSqrt ≠ 0
  /-- The next drop is at most an interval after its base. -/
  next : ∀ interval, nextDrop interval l'.recInvSqrt ≤ interval

/-! ## One step of Newton's method -/

section newton
variable {r c : Nat}

theorem invsqrt_eq (hr : r < 2 ^ 16) : invsqrt r = r * 2 ^ 16 := Nat.mod_eq_of_lt (by omega)

theorem invsqrt2_eq (hr : r < 2 ^ 16) : invsqrt2 r = r ^ 2 := by
  rw [invsqrt2, invsqrt_eq hr, show r * 2 ^ 16 * (r * 2 ^ 16) = r ^ 2 * 2 ^ 32 by ring]
  exact Nat.mul_div_cancel _ (by norm_num)

theorem newtonProduct_eq (hr : r < 2 ^ 16) (hp : c * r ^ 2 ≤ 3 * 2 ^ 32) :
    newtonProduct r c = c * r ^ 2 := by
  rw [newtonProduct, invsqrt2_eq hr]
  exact Nat.mod_eq_of_lt (by omega)

theorem newtonValue_eq (hr : r < 2 ^ 16) (hp : c * r ^ 2 ≤ 3 * 2 ^ 32) :
    newtonValue r c = (3 * 2 ^ 32 - c * r ^ 2) / 4 * r / 2 ^ 31 := by
  rw [newtonValue, newtonProduct_eq hr hp, invsqrt_eq hr]
  generalize c * r ^ 2 = x at hp
  have hval : (3 * 2 ^ 32 + 2 ^ 64 - x) % 2 ^ 64 = 3 * 2 ^ 32 - x := by omega
  rw [hval]
  have hle : (3 * 2 ^ 32 - x) / 4 ≤ 3 * 2 ^ 30 := by omega
  have hlt : (3 * 2 ^ 32 - x) / 4 * (r * 2 ^ 16) < 2 ^ 64 := by
    calc (3 * 2 ^ 32 - x) / 4 * (r * 2 ^ 16) ≤ 3 * 2 ^ 30 * (r * 2 ^ 16) := Nat.mul_le_mul_right _
          hle
      _ < 2 ^ 64 := by omega
  rw [Nat.mod_eq_of_lt hlt, Nat.div_div_eq_div_mul, ← Nat.mul_assoc]
  exact Nat.mul_div_mul_right _ _ (by norm_num)

theorem mul_sub_sq_le {n x : Nat} (h : x ≤ 3 * n) : x * (3 * n - x) ^ 2 ≤ 4 * n ^ 3 := by
  obtain ⟨y, hy⟩ := Nat.exists_eq_add_of_le h
  have hsub : 3 * n - x = y := by omega
  rw [hsub]
  zify
  have hy' : (y : ℤ) = 3 * n - x := by omega
  rw [hy']
  have hx : (x : ℤ) ≤ 4 * n := by omega
  have hid : (4 * n ^ 3 : ℤ) - x * (3 * n - x) ^ 2 = (n - x) ^ 2 * (4 * n - x) := by ring
  have hpos : (0 : ℤ) ≤ (n - x) ^ 2 * (4 * n - x) := mul_nonneg (sq_nonneg _) (by omega)
  omega

theorem mul_newtonValue_sq_le (hr : r < 2 ^ 16) (hp : c * r ^ 2 ≤ 3 * 2 ^ 32) :
    c * newtonValue r c ^ 2 ≤ 2 ^ 32 := by
  have hv : newtonValue r c * (2 * 2 ^ 32) ≤ (3 * 2 ^ 32 - c * r ^ 2) * r := by
    rw [newtonValue_eq hr hp]
    generalize 3 * 2 ^ 32 - c * r ^ 2 = y
    have hdiv := Nat.div_mul_le_self (y / 4 * r) (2 ^ 31)
    calc y / 4 * r / 2 ^ 31 * (2 * 2 ^ 32) = y / 4 * r / 2 ^ 31 * 2 ^ 31 * 4 := by ring
      _ ≤ y / 4 * r * 4 := Nat.mul_le_mul_right _ hdiv
      _ = y / 4 * 4 * r := by ring
      _ ≤ y * r := Nat.mul_le_mul_right _ (Nat.div_mul_le_self y 4)
  have hcube := mul_sub_sq_le hp
  have hsq : c * newtonValue r c ^ 2 * (2 * 2 ^ 32) ^ 2 ≤ 2 ^ 32 * (2 * 2 ^ 32) ^ 2 := by
    calc c * newtonValue r c ^ 2 * (2 * 2 ^ 32) ^ 2
        = c * (newtonValue r c * (2 * 2 ^ 32)) ^ 2 := by ring
      _ ≤ c * ((3 * 2 ^ 32 - c * r ^ 2) * r) ^ 2 := Nat.mul_le_mul_left _ (Nat.pow_le_pow_left hv 2)
      _ = c * r ^ 2 * (3 * 2 ^ 32 - c * r ^ 2) ^ 2 := by ring
      _ ≤ 4 * (2 ^ 32) ^ 3 := hcube
      _ = 2 ^ 32 * (2 * 2 ^ 32) ^ 2 := by norm_num
  exact Nat.le_of_mul_le_mul_right hsq (by norm_num)

theorem newtonValue_pos (hr : r < 2 ^ 16) (hr0 : 0 < r) (hc : c < 2 ^ 32)
    (hp : c * r ^ 2 ≤ 2 ^ 32 + r ^ 2) : 0 < newtonValue r c := by
  have hsq : r ^ 2 ≤ 2 ^ 32 := by
    calc r ^ 2 ≤ (2 ^ 16) ^ 2 := Nat.pow_le_pow_left hr.le 2
      _ = 2 ^ 32 := by norm_num
  rw [newtonValue_eq hr (by omega)]
  refine Nat.div_pos ?_ (by norm_num)
  by_cases h1 : r = 1
  · subst h1
    omega
  · -- a fraction of at least two needs half of the difference only
    have hval : 2 ^ 30 ≤ (3 * 2 ^ 32 - c * r ^ 2) / 4 := by omega
    calc 2 ^ 31 = 2 ^ 30 * 2 := by norm_num
      _ ≤ (3 * 2 ^ 32 - c * r ^ 2) / 4 * r := Nat.mul_le_mul hval (by omega)

theorem newtonValue_lt (hr : r < 2 ^ 16) (hp : c * r ^ 2 ≤ 3 * 2 ^ 32) (hc : 2 ≤ c) :
    newtonValue r c < 2 ^ 16 := by
  have h := mul_newtonValue_sq_le hr hp
  by_contra hge
  have hsq : (2 ^ 16) ^ 2 ≤ newtonValue r c ^ 2 := Nat.pow_le_pow_left (not_lt.1 hge) 2
  have := Nat.mul_le_mul hc hsq
  omega

end newton

theorem nextDrop_le (interval r : Nat) : nextDrop interval r ≤ interval := by
  have hr' : r * 2 ^ 16 % 2 ^ 32 ≤ 2 ^ 32 := (Nat.mod_lt _ (by norm_num)).le
  have hle : interval * (r * 2 ^ 16 % 2 ^ 32) ≤ interval * 2 ^ 32 := Nat.mul_le_mul_left _ hr'
  calc nextDrop interval r ≤ interval * (r * 2 ^ 16 % 2 ^ 32) % 2 ^ 64 / 2 ^ 32 := Nat.mod_le _ _
    _ ≤ interval * (r * 2 ^ 16 % 2 ^ 32) / 2 ^ 32 := Nat.div_le_div_right (Nat.mod_le _ _)
    _ ≤ interval * 2 ^ 32 / 2 ^ 32 := Nat.div_le_div_right hle
    _ = interval := Nat.mul_div_cancel _ (by norm_num)

/-! ## Runs -/

/-- The invariant: before the first entry the law is the initial one, and later the product is at
most one. -/
inductive Inv (l : Law) : Prop
  | initial (hcount : l.count = 0) (hlast : l.lastCount = 0) (hr : l.recInvSqrt = one)
      (hd : l.dropping = false)
  | entered (hcount : 0 < l.count) (hlt : l.count < 2 ^ 32) (hlast : l.lastCount ≤ l.count)
      (hr : l.recInvSqrt < 2 ^ 16) (hr0 : 0 < l.recInvSqrt)
      (hp : l.count * l.recInvSqrt ^ 2 ≤ 2 ^ 32)

theorem newton_spec {r c : Nat} (hr : r < 2 ^ 16) (hr0 : 0 < r) (hc : 2 ≤ c) (hlt : c < 2 ^ 32)
    (hp : c * r ^ 2 ≤ 2 ^ 32 + r ^ 2) :
    (newtonProduct r c ≤ 3 * 2 ^ 32 ∧ newtonValue r c < 2 ^ 16) ∧ c * newtonStep r c ^ 2 ≤ 2 ^ 32 ∧
      newtonStep r c < 2 ^ 16 ∧ 0 < newtonStep r c := by
  have hsq : r ^ 2 ≤ 2 ^ 32 := by
    calc r ^ 2 ≤ (2 ^ 16) ^ 2 := Nat.pow_le_pow_left hr.le 2
      _ = 2 ^ 32 := by norm_num
  have h3 : c * r ^ 2 ≤ 3 * 2 ^ 32 := by omega
  have hv := newtonValue_lt hr h3 hc
  rw [newtonStep, Nat.mod_eq_of_lt hv, newtonProduct_eq hr h3]
  exact ⟨⟨h3, hv⟩, mul_newtonValue_sq_le hr h3, hv, newtonValue_pos hr hr0 hlt hp⟩

variable {l : Law}

theorem Inv.recInvSqrt_pos (hl : l.Inv) : 0 < l.recInvSqrt := by
  cases hl with
  | initial _ _ hr => rw [hr]; decide
  | entered _ _ _ _ hr0 => exact hr0

theorem Inv.delta_eq (hl : l.Inv) (hd : 1 < l.delta) :
    l.delta.toNat = l.count - l.lastCount ∧ 2 ≤ l.count - l.lastCount := by
  unfold delta toInt32 at *
  cases hl with
  | initial hcount hlast =>
    rw [hcount, hlast] at hd
    simp at hd
  | entered _ hlt hlast =>
    have hmod : (l.count + 2 ^ 32 - l.lastCount) % 2 ^ 32 = l.count - l.lastCount := by omega
    rw [hmod] at hd ⊢
    split at hd <;> split <;> omega

theorem Inv.drop (hl : l.Inv) (hd : l.dropping = true) (hlt' : l.count + 1 < 2 ^ 32) :
    l.drop.Inv ∧ Safe l .drop l.drop := by
  cases hl with
  | initial _ _ _ hnot =>
    rw [hd] at hnot
    cases hnot
  | entered hcount hlt hlast hr hr0 hp =>
    have hmod : (l.count + 1) % 2 ^ 32 = l.count + 1 := Nat.mod_eq_of_lt hlt'
    have hp' : (l.count + 1) * l.recInvSqrt ^ 2 ≤ 2 ^ 32 + l.recInvSqrt ^ 2 := by
      rw [Nat.add_mul, Nat.one_mul]
      omega
    obtain ⟨hexact, hprod, hr', hr0'⟩ := newton_spec hr hr0 (by omega) hlt' hp'
    have heq : l.drop = { l with
      count := l.count + 1, recInvSqrt := newtonStep l.recInvSqrt (l.count + 1) } := by
      rw [Law.drop, hmod]
    rw [heq]
    refine ⟨.entered (Nat.succ_pos _) hlt' (hlast.trans (Nat.le_succ _)) hr' hr0' hprod,
      ⟨?_, fun _ => hprod, hr0'.ne', fun _ => nextDrop_le _ _⟩⟩
    rintro p hmem
    rw [newtonArgs, hmod] at hmem
    cases hmem
    exact hexact

theorem Inv.enter (hl : l.Inv) (recent : Bool) :
    (l.enter recent).Inv ∧ Safe l (.enter recent) (l.enter recent) := by
  by_cases hcond : 1 < l.delta ∧ recent
  · obtain ⟨hdelta, h2⟩ := hl.delta_eq hcond.1
    have heq : l.enter recent = ⟨l.count - l.lastCount, l.count - l.lastCount,
        newtonStep l.recInvSqrt (l.count - l.lastCount), true⟩ := by
      rw [Law.enter, if_pos hcond, hdelta]
    cases hl with
    | initial hcount =>
      rw [hcount] at h2
      omega
    | entered _ hlt _ hr hr0 hp =>
      have hp' : (l.count - l.lastCount) * l.recInvSqrt ^ 2 ≤ 2 ^ 32 + l.recInvSqrt ^ 2 := by
        have := Nat.mul_le_mul_right (l.recInvSqrt ^ 2) (Nat.sub_le l.count l.lastCount)
        omega
      obtain ⟨hexact, hprod, hr', hr0'⟩ := newton_spec hr hr0 h2 (by omega) hp'
      rw [heq]
      refine ⟨.entered (by dsimp only; omega) (by dsimp only; omega) le_rfl hr' hr0' hprod,
        ⟨?_, fun _ => hprod, hr0'.ne', fun _ => nextDrop_le _ _⟩⟩
      rintro p hmem
      rw [newtonArgs, if_pos hcond, hdelta] at hmem
      cases hmem
      exact hexact
  · have heq : l.enter recent = ⟨1, 1, one, true⟩ := by
      rw [Law.enter, if_neg hcond]
    rw [heq]
    refine ⟨.entered (by decide) (by decide) le_rfl (by decide) (by decide) (by decide),
      ⟨?_, fun hsome => ?_, by decide, fun _ => nextDrop_le _ _⟩⟩
    · rintro p hmem
      rw [newtonArgs, if_neg hcond] at hmem
      cases hmem
    · rw [newtonArgs, if_neg hcond] at hsome
      cases hsome

theorem Inv.step {l l' : Law} {a : Update} (hl : l.Inv) (hb : Below l a) (h : l.step? a = some l') :
    l'.Inv ∧ Safe l a l' := by
  cases a with
  | leave =>
    cases h
    refine ⟨?_, ⟨nofun, nofun, hl.recInvSqrt_pos.ne', fun _ => nextDrop_le _ _⟩⟩
    cases hl with
    | initial hcount hlast hr => exact .initial hcount hlast hr rfl
    | entered hcount hlt hlast hr hr0 hp => exact .entered hcount hlt hlast hr hr0 hp
  | drop =>
    rw [step?] at h
    split at h
    · next hd =>
      cases h
      exact hl.drop hd (hb rfl)
    · cases h
  | enter recent =>
    rw [step?] at h
    split at h
    · cases h
    · cases h
      exact hl.enter recent

/-- The step relation. -/
def Step (l : Law) (a : Update) (l' : Law) : Prop := l.step? a = some l'

/-- Every update of every run in which the number of drops stays below `2 ^ 32` computes what the
law means. -/
theorem law_safe {l l' : Law} {a : Update} (h : Lts.Run Step Below .init l) (hb : Below l a)
    (hs : l.step? a = some l') : Safe l a l' := by
  have hinv : l.Inv := Lts.Run.invariant (I := Inv) (fun hi hok hst => (hi.step hok hst).1)
    (.initial rfl rfl rfl rfl) h
  exact (hinv.step hb hs).2

/-- The second drop. -/
theorem law_safe_second : Safe ⟨1, 1, one, true⟩ .drop ⟨2, 1, 32769, true⟩ := by
  have hrun : Lts.Run Step Below .init ⟨1, 1, one, true⟩ :=
    (Lts.Run.refl _).snoc (a := .enter true) nofun (by rw [Step]; decide +kernel)
  exact law_safe hrun (fun _ => by decide) (by decide +kernel)

end Law

end OranNs3.CoDel
