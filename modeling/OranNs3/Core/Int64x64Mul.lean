import Mathlib.Tactic.Ring
import OranNs3.Core.Int64x64

/-!
# Products of fixed-point numbers

`Mul` of both builds computes the exact product, truncated toward zero to a multiple of `2 ^ -64`,
wherever that is a 128-bit integer; otherwise an assertion of the native build fails. The product of
the magnitudes `m` and `n` is put together from the four products of their halves (`mul_halves`),
and the bounds of the halves are what the comments of the source say: every partial sum stays below
`2 ^ 128`, up to the shift of the high product, which is tested before.
-/

namespace OranNs3.Core

open Words

variable {m n : Nat}

/-! ## Signs and magnitudes -/

/-- The number of a sign and a magnitude. -/
def signed (negative : Bool) (m : Nat) : Int := if negative then -m else m

theorem signed_natAbs (x : Int) : signed (decide (x < 0)) x.natAbs = x := by
  simp only [signed, decide_eq_true_eq]
  split <;> omega

theorem signed_mul (s t : Bool) (m n : Nat) :
    signed s m * signed t n = signed (s != t) (m * n) := by
  cases s <;> cases t <;> simp [signed]

theorem signed_tdiv (s t : Bool) (m n : Nat) :
    (signed s m).tdiv (signed t n) = signed (s != t) (m / n) := by
  cases s <;> cases t <;> simp [signed]

/-- `m` is a magnitude of a 128-bit integer of the sign. -/
def Fits (negative : Bool) (m : Nat) : Prop := if negative then m ≤ 2 ^ 127 else m < 2 ^ 127

theorem Fits.le {negative : Bool} (h : Fits negative m) : m ≤ 2 ^ 127 := by
  cases negative
  · exact Nat.le_of_lt h
  · exact h

theorem fits_iff (negative : Bool) (m : Nat) :
    Fits negative m ↔ -2 ^ 127 ≤ signed negative m ∧ signed negative m < 2 ^ 127 := by
  cases negative
  · simp only [Fits, signed, Bool.false_eq_true, ↓reduceIte]
    omega
  · simp only [Fits, signed, ↓reduceIte]
    omega

theorem toInt_signed {negative : Bool} {r : BitVec 128} (h : Fits negative r.toNat) :
    (if negative then -r else r).toInt = signed negative r.toNat := by
  have hlt := r.isLt
  cases negative
  · simp only [Fits, Bool.false_eq_true, ↓reduceIte] at h
    simp only [signed, Bool.false_eq_true, ↓reduceIte, BitVec.toInt_eq_toNat_cond]
    omega
  · simp only [Fits, ↓reduceIte] at h
    simp only [signed, ↓reduceIte, BitVec.toInt_eq_toNat_cond, BitVec.toNat_neg]
    omega

/-- The magnitude of a 128-bit integer. -/
def magnitude (v : BitVec 128) : BitVec 128 := if decide (v.toInt < 0) then -v else v

theorem toNat_magnitude (v : BitVec 128) : (magnitude v).toNat = v.toInt.natAbs := by
  have hlt := v.isLt
  have hv := BitVec.toInt_eq_toNat_cond v
  simp only [magnitude, decide_eq_true_eq]
  split
  · rw [BitVec.toNat_neg]
    omega
  · omega

theorem magnitude_le (v : BitVec 128) : (magnitude v).toNat ≤ 2 ^ 127 := by
  have hlt := v.isLt
  have hv := BitVec.toInt_eq_toNat_cond v
  rw [toNat_magnitude]
  omega

/-- Whether a product or a quotient of the two integers is negative. -/
def negative (v o : BitVec 128) : Bool := decide (v.toInt < 0) != decide (o.toInt < 0)

theorem Int128.outputSign_eq (v o : BitVec 128) :
    Int128.outputSign v o = (negative v o, magnitude v, magnitude o) := rfl

/-- The exact product of two numbers, truncated toward zero to a multiple of `2 ^ -64`. -/
def product (v o : BitVec 128) : Int := (v.toInt * o.toInt).tdiv (2 ^ 64)

/-- The product of the magnitudes. -/
def uproduct (v o : BitVec 128) : Nat := (magnitude v).toNat * (magnitude o).toNat / 2 ^ 64

theorem product_eq (v o : BitVec 128) : product v o = signed (negative v o) (uproduct v o) := by
  have hv := signed_natAbs v.toInt
  have ho := signed_natAbs o.toInt
  rw [product, uproduct, negative, toNat_magnitude, toNat_magnitude]
  calc (v.toInt * o.toInt).tdiv (2 ^ 64)
      = (signed (decide (v.toInt < 0)) v.toInt.natAbs * signed (decide (o.toInt < 0))
          o.toInt.natAbs).tdiv (signed false (2 ^ 64)) := by
        rw [hv, ho]
        rfl
    _ = _ := by rw [signed_mul, signed_tdiv, Bool.bne_false]

/-! ## Halves -/

theorem Int128.toNat_low (a : BitVec 128) : (a &&& Int128.HP_MASK_LO).toNat = a.toNat % 2 ^ 64 := by
  rw [BitVec.toNat_and]
  exact Nat.and_two_pow_sub_one_eq_mod a.toNat 64

theorem toNat_high (a : BitVec 128) : (a >>> 64).toNat = a.toNat / 2 ^ 64 := by
  rw [BitVec.toNat_ushiftRight, Nat.shiftRight_eq_div_pow]

theorem mul_halves (m n : Nat) :
    m * n / 2 ^ 64 = m / 2 ^ 64 * (n / 2 ^ 64) * 2 ^ 64 +
      (m / 2 ^ 64 * (n % 2 ^ 64) + m % 2 ^ 64 * (n / 2 ^ 64)) + m % 2 ^ 64 * (n % 2 ^ 64) / 2 ^
        64 := by
  have hmn : m * n = 2 ^ 64 * (m / 2 ^ 64 * (n / 2 ^ 64) * 2 ^ 64 +
      (m / 2 ^ 64 * (n % 2 ^ 64) + m % 2 ^ 64 * (n / 2 ^ 64))) + m % 2 ^ 64 * (n % 2 ^ 64) := by
    have hm := Nat.div_add_mod m (2 ^ 64)
    have hn := Nat.div_add_mod n (2 ^ 64)
    generalize m / 2 ^ 64 = mh at hm ⊢
    generalize m % 2 ^ 64 = ml at hm ⊢
    generalize n / 2 ^ 64 = nh at hn ⊢
    generalize n % 2 ^ 64 = nl at hn ⊢
    subst hm hn
    ring
  rw [hmn, Nat.mul_add_div (by decide)]

theorem high_mul_le (m n : Nat) : m / 2 ^ 64 * (n / 2 ^ 64) * 2 ^ 64 ≤ m * n / 2 ^ 64 := by
  rw [mul_halves]
  omega

theorem halves_le (hm : m ≤ 2 ^ 127) (hn : n ≤ 2 ^ 127) :
    m % 2 ^ 64 * (n % 2 ^ 64) ≤ (2 ^ 64 - 1) * (2 ^ 64 - 1) ∧
      m / 2 ^ 64 * (n % 2 ^ 64) ≤ 2 ^ 63 * (2 ^ 64 - 1) ∧
        m % 2 ^ 64 * (n / 2 ^ 64) ≤ 2 ^ 63 * (2 ^ 64 - 1) ∧
          m / 2 ^ 64 * (n / 2 ^ 64) ≤ 2 ^ 63 * 2 ^ 63 := by
  have hml : m % 2 ^ 64 ≤ 2 ^ 64 - 1 := by omega
  have hnl : n % 2 ^ 64 ≤ 2 ^ 64 - 1 := by omega
  have hmh : m / 2 ^ 64 ≤ 2 ^ 63 := by omega
  have hnh : n / 2 ^ 64 ≤ 2 ^ 63 := by omega
  refine ⟨Nat.mul_le_mul hml hnl, Nat.mul_le_mul hmh hnl, ?_, Nat.mul_le_mul hmh hnh⟩
  rw [Nat.mul_comm]
  exact Nat.mul_le_mul hnh hml

/-! ## Native integers -/

namespace Int128

variable {a b : BitVec 128}

theorem umul_tests (ha : a.toNat = m) (hb : b.toNat = n) (hm : m ≤ 2 ^ 127) (hn : n ≤ 2 ^ 127) :
    ∃ res high : BitVec 128, res.toNat + high.toNat * 2 ^ 64 = m * n / 2 ^ 64 ∧
      high.toNat = m / 2 ^ 64 * (n / 2 ^ 64) ∧ umul a b = (do
        check (high ≤ 1 <<< 63) (.assertion "overflow detected")
        let high ← shl high 64
        check (res ≤ res + high) (.assertion "overflow detected")
        add res high) := by
  subst ha hb
  obtain ⟨hll, hhl, hlh, hhh⟩ := halves_le hm hn
  obtain ⟨low, hlow, hlow'⟩ := Keeps.mul (ε := Fault) (toNat_low a) (toNat_low b) (by omega)
  obtain ⟨ahbl, hahbl, hahbl'⟩ := Keeps.mul (ε := Fault) (toNat_high a) (toNat_low b) (by omega)
  obtain ⟨albh, halbh, halbh'⟩ := Keeps.mul (ε := Fault) (toNat_low a) (toNat_high b) (by omega)
  obtain ⟨mid, hmid, hmid'⟩ := Keeps.add (ε := Fault) hahbl' halbh' (by omega)
  obtain ⟨res, hres, hres'⟩ :=
    Keeps.add (ε := Fault) ((toNat_high low).trans (congrArg (· / 2 ^ 64) hlow')) hmid' (by omega)
  obtain ⟨high, hhigh, hhigh'⟩ := Keeps.mul (ε := Fault) (toNat_high a) (toNat_high b) (by omega)
  refine ⟨res, high, ?_, hhigh', ?_⟩
  · rw [mul_halves, hres', hhigh']
    omega
  · simp only [umul, hlow, hahbl, halbh, hmid, hres, hhigh, pure_bind]

theorem umul_keeps (ha : a.toNat = m) (hb : b.toNat = n) (hm : m ≤ 2 ^ 127) (hn : n ≤ 2 ^ 127)
    (hhigh : m / 2 ^ 64 * (n / 2 ^ 64) ≤ 2 ^ 63) (hlt : m * n / 2 ^ 64 < 2 ^ 128) :
    Keeps (fun c => c.toNat = m * n / 2 ^ 64) (umul a b) := by
  obtain ⟨res, high, hsum, hh, heq⟩ := umul_tests ha hb hm hn
  rw [heq]
  refine (Keeps.check ?_).bind fun _ _ => (Keeps.shl rfl (by omega)).bind fun high' hhigh' =>
    (Keeps.check ?_).bind fun _ _ =>
    (Keeps.add rfl hhigh' (by omega)).imp fun c hc => hc.trans hsum
  · rw [BitVec.le_def, hh]
    exact hhigh
  · rw [BitVec.le_def, BitVec.toNat_add, hhigh', Nat.mod_eq_of_lt (by omega)]
    omega

theorem umul_fails (ha : a.toNat = m) (hb : b.toNat = n) (hm : m ≤ 2 ^ 127) (hn : n ≤ 2 ^ 127)
    (h : ¬ (m / 2 ^ 64 * (n / 2 ^ 64) ≤ 2 ^ 63 ∧ m * n / 2 ^ 64 < 2 ^ 128)) :
    Fails (.assertion "overflow detected") (umul a b) := by
  obtain ⟨res, high, hsum, hh, heq⟩ := umul_tests ha hb hm hn
  rw [heq]
  rcases Nat.lt_or_ge (2 ^ 63) high.toNat with hlt | hle
  · refine (Fails.check ?_).bind
    rw [BitVec.le_def]
    exact Nat.not_le.2 hlt
  · have hres := res.isLt
    refine (Keeps.check hle).bind_fails fun _ _ =>
      (Keeps.shl rfl (by omega)).bind_fails fun high' hhigh' => (Fails.check ?_).bind
    rw [BitVec.le_def, BitVec.toNat_add, hhigh']
    omega

variable {v o : BitVec 128}

theorem mul_keeps (h : Fits (negative v o) (uproduct v o)) :
    Keeps (fun r => r.toInt = product v o) (mul v o) := by
  have hlt : uproduct v o ≤ 2 ^ 127 := h.le
  have hlt' : uproduct v o < 2 ^ 128 := by omega
  have hhigh := high_mul_le (magnitude v).toNat (magnitude o).toNat
  rw [← uproduct] at hhigh
  have humul := umul_keeps rfl rfl (magnitude_le v) (magnitude_le o) (by omega) hlt'
  rw [mul, outputSign_eq, product_eq]
  refine humul.bind fun r hr => ?_
  change r.toNat = uproduct v o at hr
  rw [← hr] at h ⊢
  have hr' := toInt_signed h
  cases hn : negative v o <;> rw [hn] at h hr'
  · refine (Keeps.check ?_).bind fun _ _ => .pure hr'
    exact h
  · refine (Keeps.check ?_).bind fun _ _ => .pure hr'
    exact h

theorem mul_fails (h : ¬ Fits (negative v o) (uproduct v o)) :
    Fails (.assertion "overflow detected") (mul v o) := by
  rw [mul, outputSign_eq]
  by_cases htests : (magnitude v).toNat / 2 ^ 64 * ((magnitude o).toNat / 2 ^ 64) ≤ 2 ^ 63 ∧
    uproduct v o < 2 ^ 128
  · refine (umul_keeps rfl rfl (magnitude_le v) (magnitude_le o) htests.1 htests.2).bind_fails
      fun r hr => ?_
    change r.toNat = uproduct v o at hr
    rw [← hr] at h
    cases hn : negative v o <;> rw [hn] at h
    · refine (Fails.check ?_).bind
      exact h
    · refine (Fails.check ?_).bind
      exact h
  · exact (umul_fails rfl rfl (magnitude_le v) (magnitude_le o) htests).bind

end Int128

/-! ## Pairs of words -/

namespace Cairo

namespace Uint128

@[simp]
theorem bits_ofBits (v : BitVec 128) : (ofBits v).bits = v := by
  apply BitVec.eq_of_toNat_eq
  have hv := v.isLt
  simp only [bits, ofBits, BitVec.toNat_append, BitVec.toNat_setWidth, toNat_high]
  rw [← Nat.shiftLeft_add_eq_or_of_lt (Nat.mod_lt _ (by decide)), Nat.shiftLeft_eq]
  omega

theorem toNat_bits (a : Uint128) : a.bits.toNat = a.hi.toNat * 2 ^ 64 + a.lo.toNat := by
  rw [bits, BitVec.toNat_append, ← Nat.shiftLeft_add_eq_or_of_lt a.lo.isLt, Nat.shiftLeft_eq]

@[simp]
theorem ofBits_bits (a : Uint128) : ofBits a.bits = a := by
  have hhi := a.hi.isLt
  have hlo := a.lo.isLt
  have ha := toNat_bits a
  rw [ofBits, mk.injEq]
  constructor
  · apply BitVec.eq_of_toNat_eq
    rw [BitVec.toNat_setWidth]
    omega
  · apply BitVec.eq_of_toNat_eq
    rw [BitVec.toNat_setWidth, toNat_high]
    omega

variable {a : Uint128}

theorem toNat_lo (ha : a.bits.toNat = m) : a.lo.toNat = m % 2 ^ 64 := by
  have hlo := a.lo.isLt
  rw [toNat_bits] at ha
  omega

theorem toNat_hi (ha : a.bits.toNat = m) : a.hi.toNat = m / 2 ^ 64 := by
  have hlo := a.lo.isLt
  rw [toNat_bits] at ha
  omega

end Uint128

open Uint128

theorem toNat_uint64x64Mul {a b : BitVec 64} (ha : a.toNat = m) (hb : b.toNat = n) :
    (uint64x64Mul a b).bits.toNat = m * n := by
  subst ha hb
  have hlt : a.toNat * b.toNat < 2 ^ 64 * 2 ^ 64 := Nat.mul_lt_mul'' a.isLt b.isLt
  rw [uint64x64Mul, bits_ofBits, BitVec.toNat_mul, BitVec.toNat_setWidth_of_le (by decide),
    BitVec.toNat_setWidth_of_le (by decide)]
  exact Nat.mod_eq_of_lt hlt

theorem toNat_uint64ToUint128 {a : BitVec 64} (ha : a.toNat = m) :
    (uint64ToUint128 a).bits.toNat = m := by
  rw [toNat_bits]
  simpa [uint64ToUint128] using ha

theorem uint128Add_keeps {a b : Uint128} (ha : a.bits.toNat = m) (hb : b.bits.toNat = n)
    (h : m + n < 2 ^ 128) : Keeps (fun c => c.bits.toNat = m + n) (uint128Add a b) := by
  refine (Keeps.add ha hb h).map fun c hc => ?_
  rw [bits_ofBits]
  exact hc

theorem uint128Lsl_keeps (ha : a.bits.toNat = m) (h : m * 2 ^ n < 2 ^ 128) :
    Keeps (fun c => c.bits.toNat = m * 2 ^ n) (uint128Lsl a n) := by
  refine (Keeps.shl ha h).map fun c hc => ?_
  rw [bits_ofBits]
  exact hc

theorem umul_keeps {a b : Uint128} (ha : a.bits.toNat = m) (hb : b.bits.toNat = n)
    (hm : m ≤ 2 ^ 127) (hn : n ≤ 2 ^ 127) (hlt : m * n / 2 ^ 64 < 2 ^ 128) :
    Keeps (fun c => c.bits.toNat = m * n / 2 ^ 64) (umul a b) := by
  obtain ⟨hll, hhl, hlh, hhh⟩ := halves_le hm hn
  have hsum := mul_halves m n
  have hlo := toNat_uint64x64Mul (toNat_lo ha) (toNat_lo hb)
  have hhi := toNat_uint64x64Mul (toNat_hi ha) (toNat_hi hb)
  refine (uint128Add_keeps (toNat_uint64x64Mul (toNat_lo ha) (toNat_hi hb))
    (toNat_uint64x64Mul (toNat_hi ha) (toNat_lo hb)) (by omega)).bind fun midPart hmid => ?_
  refine (Keeps.check ?_).bind fun _ _ => ?_
  · apply BitVec.eq_of_toNat_eq
    rw [toNat_hi hhi]
    exact Nat.div_eq_of_lt (by omega)
  refine (uint128Add_keeps (toNat_uint64ToUint128 (toNat_hi hlo))
    (toNat_uint64ToUint128 (toNat_lo hmid)) (by omega)).bind fun result hresult => ?_
  refine (uint128Add_keeps (toNat_uint64ToUint128 (toNat_hi hmid))
    (toNat_uint64ToUint128 (toNat_lo hhi)) (by omega)).bind fun res1 hres1 => ?_
  refine (uint128Lsl_keeps hres1 (by omega)).bind fun res1 hres1 => ?_
  exact (uint128Add_keeps hresult hres1 (by omega)).imp fun c hc => hc.trans (by omega)

theorem outputSign_eq (v o : BitVec 128) :
    outputSign (ofBits v) (ofBits o) =
      (negative v o, ofBits (magnitude v), ofBits (magnitude o)) := by
  simp only [outputSign, int128Negative, uint128Negate, bits_ofBits, negative, magnitude]
  cases decide (v.toInt < 0) <;> cases decide (o.toInt < 0) <;> rfl

theorem mul_keeps (h : Fits (negative v o) (uproduct v o)) :
    Keeps (fun r => r.bits.toInt = product v o) (mul (ofBits v) (ofBits o)) := by
  have hlt : uproduct v o < 2 ^ 128 := Nat.lt_of_le_of_lt h.le (by decide)
  have humul := umul_keeps (congrArg BitVec.toNat (bits_ofBits (magnitude v)))
    (congrArg BitVec.toNat (bits_ofBits (magnitude o))) (magnitude_le v) (magnitude_le o) hlt
  rw [mul, outputSign_eq, product_eq]
  refine humul.bind fun r hr => .pure ?_
  change r.bits.toNat = uproduct v o at hr
  rw [← hr] at h ⊢
  rw [← toInt_signed h]
  cases negative v o
  · rfl
  · exact congrArg BitVec.toInt (bits_ofBits _)

end Cairo

open Cairo.Uint128

/-- The product is a number. -/
def ProductFits (v o : BitVec 128) : Prop := -2 ^ 127 ≤ product v o ∧ product v o < 2 ^ 127

theorem productFits_iff (v o : BitVec 128) : ProductFits v o ↔
    Fits (negative v o) (uproduct v o) := by
  rw [ProductFits, product_eq, fits_iff]

/-- `Mul` of both builds computes the exact product, truncated toward zero to a multiple of `2 ^
-64`, where that is a number, and no operation loses a bit. Where it is none, an assertion of the
native build fails. -/
theorem mul_exact (v o : BitVec 128) :
    (ProductFits v o → ∃ r : BitVec 128, r.toInt = product v o ∧
      Int128.mul v o false = .ok (r, false) ∧
        Cairo.mul (ofBits v) (ofBits o) false = .ok (ofBits r, false)) ∧
    (¬ ProductFits v o → Int128.mul v o false = .error (.assertion "overflow detected")) := by
  rw [productFits_iff]
  constructor
  · intro h
    obtain ⟨r, hrun, hr⟩ := (Int128.mul_keeps h).run
    obtain ⟨c, hrun', hc⟩ := (Cairo.mul_keeps h).run
    have hbits : c.bits = r := BitVec.eq_of_toInt_eq (hc.trans hr.symm)
    refine ⟨r, hr, hrun, ?_⟩
    rw [← hbits, ofBits_bits]
    exact hrun'
  · intro h
    exact Int128.mul_fails h false

end OranNs3.Core
