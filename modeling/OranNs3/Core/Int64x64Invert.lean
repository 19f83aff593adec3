import OranNs3.Core.Int64x64Div

/-!
# Division by an integer

`Time` divides by an integer `v` with its reciprocal, a fraction of 128 bits that `Invert` computes
once. `Udiv` rounds the reciprocal down; `Invert` adds one unless the product of `v` and the
reciprocal is exactly one, so that the stored reciprocal `e` satisfies `2 ^ 128 ≤ v * e ≤ 2 ^ 128 +
v` (`Int128.invert_keeps`). A magnitude of up to `2 ^ 63` times the error `v` stays below `2 ^ 128`,
so that the integer part of the product with `e` is the quotient (`mul_reciprocal_div`).
-/

namespace OranNs3.Core

open Words

variable {v e x fuel : Nat}

theorem mul_reciprocal_div (hv : 0 < v) (hv' : v < 2 ^ 64) (hx : x ≤ 2 ^ 63) (hle : 2 ^ 128 ≤ v * e)
    (hge : v * e ≤ 2 ^ 128 + v) : x * e / 2 ^ 128 = x / v := by
  have hsplit := Nat.div_add_mod x v
  have hmod := Nat.mod_lt x hv
  have hxv : x * v < 2 ^ 128 :=
    Nat.lt_of_le_of_lt (Nat.mul_le_mul hx (Nat.le_of_lt hv')) (by decide)
  generalize x / v = q at hsplit ⊢
  generalize x % v = s at hsplit hmod
  apply Nat.div_eq_of_lt_le
  · apply Nat.le_of_mul_le_mul_left _ hv
    calc v * (q * 2 ^ 128) = v * q * 2 ^ 128 := by ring
      _ ≤ x * 2 ^ 128 := Nat.mul_le_mul_right _ (by omega)
      _ ≤ x * (v * e) := Nat.mul_le_mul_left x hle
      _ = v * (x * e) := by ring
  · apply Nat.lt_of_mul_lt_mul_left (a := v)
    calc v * (x * e) = x * (v * e) := by ring
      _ ≤ x * (2 ^ 128 + v) := Nat.mul_le_mul_left x hge
      _ = x * 2 ^ 128 + x * v := by ring
      _ < (x + 1) * 2 ^ 128 := by omega
      _ ≤ v * (q + 1) * 2 ^ 128 := Nat.mul_le_mul_right _ (by rw [Nat.mul_add]; omega)
      _ = v * ((q + 1) * 2 ^ 128) := by ring

theorem signed_div (s : Bool) (m n : Nat) :
    signed (decide (signed s m < 0)) (m / n) = signed s (m / n) := by
  cases s
  · have hge : ¬ signed false m < 0 := by simp [signed]
    rw [decide_eq_false hge]
  · rcases Nat.eq_zero_or_pos m with rfl | hpos
    · simp [signed]
    · have hlt : signed true m < 0 := by simpa [signed] using hpos
      rw [decide_eq_true hlt]

theorem natAbs_signed (s : Bool) (m : Nat) : (signed s m).natAbs = m := by
  cases s <;> simp [signed]

namespace Int128

theorem toInt_ofInt64 (x : BitVec 64) : (ofInt64 x).toInt = x.toInt * 2 ^ 64 := by
  have hx := BitVec.toInt_eq_toNat_cond x
  have hlt := x.isLt
  have hsign : (x.signExtend 128).toInt = x.toInt := BitVec.toInt_signExtend_of_le (by decide)
  rw [BitVec.toInt_eq_toNat_cond] at hsign
  rw [ofInt64, BitVec.toInt_eq_toNat_cond, BitVec.toNat_shiftLeft, Nat.shiftLeft_eq]
  omega

theorem ofHighLow_zero (x : BitVec 64) : ofHighLow x 0 = ofInt64 x := by
  rw [ofHighLow, ofInt64]
  simp

theorem magnitude_ofInt64 (x : BitVec 64) :
    (magnitude (ofInt64 x)).toNat = x.toInt.natAbs * 2 ^ 64 := by
  rw [toNat_magnitude, toInt_ofInt64]
  omega

theorem natAbs_toInt_le (x : BitVec 64) : x.toInt.natAbs ≤ 2 ^ 63 := by
  have hx := BitVec.toInt_eq_toNat_cond x
  have hlt := x.isLt
  omega

theorem ofInt64_neg (x : BitVec 64) : decide ((ofInt64 x).toInt < 0) = decide (x.toInt < 0) := by
  rw [toInt_ofInt64]
  exact decide_eq_decide.2 (by omega)

theorem umulByInvert_keeps {a b : BitVec 128} (ha : a.toNat = x * 2 ^ 64) (hb : b.toNat = e)
    (hx : x ≤ 2 ^ 63) (he : e ≤ 2 ^ 127) :
    Keeps (fun r => r.toNat = x * e / 2 ^ 64) (umulByInvert a b) := by
  have hm : x * 2 ^ 64 ≤ 2 ^ 127 := by omega
  obtain ⟨hll, hhl, hlh, hhh⟩ := halves_le hm he
  have hhigh : x * 2 ^ 64 / 2 ^ 64 = x := by omega
  have hlow : x * 2 ^ 64 % 2 ^ 64 = 0 := by omega
  have hah := (toNat_high a).trans (by rw [ha, hhigh])
  have hal := (toNat_low a).trans (by rw [ha, hlow])
  have hbh := (toNat_high b).trans (by rw [hb])
  have hbl := (toNat_low b).trans (by rw [hb])
  rw [hhigh] at hhl hhh
  refine (Keeps.check ?_).bind fun _ _ => (Keeps.mul hah hbh (by omega)).bind fun high hhigh => ?_
  · rw [BitVec.le_def, hb]
    exact he
  refine (Keeps.mul hah hbl (by omega)).bind fun ahbl hahbl =>
    (Keeps.mul hal hbh (by omega)).bind fun albh halbh => ?_
  refine (Keeps.add hahbl halbh (by omega)).bind fun mid hmid => ?_
  refine (Keeps.add hhigh ((toNat_high mid).trans (congrArg (· / 2 ^ 64) hmid)) (by omega)).imp
    fun r hr => ?_
  have hsplit : x * e = x * (e / 2 ^ 64) * 2 ^ 64 + x * (e % 2 ^ 64) := by
    rw [Nat.mul_assoc, ← Nat.mul_add, Nat.div_add_mod']
  rw [hr, hsplit]
  omega

theorem mulByInvert_keeps {x : BitVec 64} {b : BitVec 128} (hb : b.toNat = e) (he : e ≤ 2 ^ 127) :
    Keeps (fun r => r.toInt = signed (decide (x.toInt < 0)) (x.toInt.natAbs * e / 2 ^ 64))
      (mulByInvert (ofInt64 x) b) := by
  have hx := natAbs_toInt_le x
  refine (umulByInvert_keeps (magnitude_ofInt64 x) hb hx he).bind fun r hr => .pure ?_
  have hle : x.toInt.natAbs * e / 2 ^ 64 ≤ 2 ^ 126 := by
    have := Nat.mul_le_mul hx he
    omega
  have hfits : Fits (decide (x.toInt < 0)) r.toNat := by
    rw [hr]
    cases decide (x.toInt < 0)
    · exact Nat.lt_of_le_of_lt hle (by decide)
    · exact hle.trans (by decide)
  rw [ofInt64_neg, toInt_signed hfits, hr]

theorem toInt_getInt {r : BitVec 128} {s : Bool} {m : Nat} (hr : r.toInt = signed s m)
    (hm : m < 2 ^ 127) : (getInt r).toInt = signed s (m / 2 ^ 64) := by
  have hmag := toNat_magnitude r
  rw [hr, natAbs_signed] at hmag
  have hlow : ((magnitude r >>> 64).setWidth 64).toNat = m / 2 ^ 64 := by
    rw [BitVec.toNat_setWidth, toNat_high, hmag]
    omega
  change (if decide (r.toInt < 0) then -(magnitude r >>> 64).setWidth 64
    else (magnitude r >>> 64).setWidth 64).toInt = _
  rw [hr, ← signed_div]
  generalize (magnitude r >>> 64).setWidth 64 = w at hlow ⊢
  cases decide (signed s m < 0)
  · simp only [signed, Bool.false_eq_true, ↓reduceIte, BitVec.toInt_eq_toNat_cond]
    omega
  · simp only [signed, ↓reduceIte, BitVec.toInt_eq_toNat_cond, BitVec.toNat_neg]
    omega

/-! ## The reciprocal -/

theorem toInt_getHigh (r : BitVec 128) : (getHigh r).toInt = r.toInt / 2 ^ 64 := by
  have hr := BitVec.toInt_eq_toNat_cond r
  have hlt := r.isLt
  have hshift : (r.sshiftRight 64).toInt = r.toInt / 2 ^ 64 := by
    rw [BitVec.toInt_sshiftRight, Int.shiftRight_eq_div_pow]
    rfl
  have hs := BitVec.toInt_eq_toNat_cond (r.sshiftRight 64)
  have hslt := (r.sshiftRight 64).isLt
  rw [getHigh, BitVec.toInt_eq_toNat_cond, BitVec.toNat_setWidth]
  omega

theorem getHigh_eq_one_iff {v : BitVec 64} {r : BitVec 128} (hv : 1 < v.toNat)
    (hr : r.toInt = signed (decide (v.toInt < 0)) (v.toInt.natAbs * (2 ^ 128 / v.toNat) / 2 ^ 64)) :
    getHigh r = 1 ↔ v.toNat < 2 ^ 63 ∧ v.toNat * (2 ^ 128 / v.toNat) = 2 ^ 128 := by
  have hvi := BitVec.toInt_eq_toNat_cond v
  have hvlt := v.isLt
  have hle := Nat.mul_div_le (2 ^ 128) v.toNat
  rw [← BitVec.toInt_inj, toInt_getHigh, hr]
  rcases Nat.lt_or_ge v.toNat (2 ^ 63) with hlt | hge
  · have hvi' : v.toInt = v.toNat := by omega
    have hnonneg : ¬ v.toInt < 0 := by omega
    rw [decide_eq_false hnonneg, hvi', Int.natAbs_natCast]
    simp only [signed, Bool.false_eq_true, ↓reduceIte]
    generalize v.toNat * (2 ^ 128 / v.toNat) = p at hle ⊢
    change (_ : Int) = 1 ↔ _
    omega
  · have hneg : v.toInt < 0 := by omega
    rw [decide_eq_true hneg]
    simp only [signed, ↓reduceIte]
    generalize v.toInt.natAbs * (2 ^ 128 / v.toNat) / 2 ^ 64 = p
    change (_ : Int) = 1 ↔ _
    omega

theorem invert_keeps {v : BitVec 64} (hv : 1 < v.toNat) (hfuel : DIGITS < fuel) :
    Keeps (fun r => 2 ^ 128 ≤ v.toNat * r.toNat ∧ v.toNat * r.toNat ≤ 2 ^ 128 + v.toNat ∧
      r.toNat ≤ 2 ^ 127) (invert fuel v) := by
  have hvlt := v.isLt
  have hset : (v.setWidth 128).toNat = v.toNat := BitVec.toNat_setWidth_of_le (by decide)
  have hone : (1 <<< 64 : BitVec 128).toNat * 2 ^ 64 / (v.setWidth 128).toNat =
    2 ^ 128 / v.toNat := by
    rw [hset]
    rfl
  have hhalf : 2 ^ 128 / v.toNat ≤ 2 ^ 127 := Nat.div_le_of_le_mul (by omega)
  refine (Keeps.check hv).bind fun _ _ => ?_
  refine (udiv_keeps (by omega) (by omega) (by omega) hfuel).bind fun r hr => ?_
  rw [hone] at hr
  rw [ofHighLow_zero]
  refine (mulByInvert_keeps hr hhalf).bind fun tmp htmp => ?_
  have hsplit := Nat.div_add_mod (2 ^ 128) v.toNat
  have hmod := Nat.mod_lt (2 ^ 128) (show 0 < v.toNat by omega)
  have hiff := getHigh_eq_one_iff hv htmp
  split
  next hne =>
    -- the reciprocal of two is exact
    have htwo : v.toNat ≠ 2 := by
      intro htwo
      exact hne (hiff.2 ⟨by omega, by rw [htwo]; decide⟩)
    have hthird : 2 ^ 128 / v.toNat < 2 ^ 127 := Nat.div_lt_of_lt_mul (by omega)
    refine (Keeps.add hr (show (1 : BitVec 128).toNat = 1 from rfl) (by omega)).imp fun e he => ?_
    rw [he, Nat.mul_add]
    omega
  next heq =>
    have hexact := (hiff.1 (by simpa using heq)).2
    refine .pure ?_
    rw [hr, hexact]
    omega

end Int128

/-- The integer part, truncated toward zero, of a 64-bit integer times the reciprocal of `v` is the
quotient of the two, truncated toward zero. -/
theorem getInt_mulByInvert_invert (v x : BitVec 64) (fuel : Nat) (hv : 1 < v.toNat)
    (hfuel : DIGITS < fuel) : ∃ e r : BitVec 128, Int128.invert fuel v false = .ok (e, false) ∧
      Int128.mulByInvert (Int128.ofInt64 x) e false = .ok (r, false) ∧
        (Int128.getInt r).toInt = x.toInt.tdiv v.toNat := by
  obtain ⟨e, hinvert, hle, hge, he⟩ := (Int128.invert_keeps hv hfuel).run
  obtain ⟨r, hmul, hr⟩ := (Int128.mulByInvert_keeps (x := x) rfl he).run
  refine ⟨e, r, hinvert, hmul, ?_⟩
  have hx := Int128.natAbs_toInt_le x
  have hlt : x.toInt.natAbs * e.toNat / 2 ^ 64 < 2 ^ 127 := by
    have := Nat.mul_le_mul hx he
    omega
  calc (Int128.getInt r).toInt
      = signed (decide (x.toInt < 0)) (x.toInt.natAbs * e.toNat / 2 ^ 64 / 2 ^ 64) :=
        Int128.toInt_getInt hr hlt
    _ = signed (decide (x.toInt < 0)) (x.toInt.natAbs / v.toNat) := by
        rw [Nat.div_div_eq_div_mul, ← Nat.pow_add, mul_reciprocal_div (by omega) v.isLt hx hle hge]
    _ = (signed (decide (x.toInt < 0)) x.toInt.natAbs).tdiv (signed false v.toNat) := by
        rw [signed_tdiv, Bool.bne_false]
    _ = x.toInt.tdiv v.toNat := by
        rw [signed_natAbs]
        rfl

/-- A half of the least integer. -/
theorem getInt_mulByInvert_invert_least : ∃ e r : BitVec 128,
    Int128.invert 65 2 false = .ok (e, false) ∧
      Int128.mulByInvert (Int128.ofInt64 (BitVec.ofInt 64 (-2 ^ 63))) e false = .ok (r, false) ∧
        (Int128.getInt r).toInt = -2 ^ 62 := by
  obtain ⟨e, r, he, hr, hint⟩ :=
    getInt_mulByInvert_invert 2 (BitVec.ofInt 64 (-2 ^ 63)) 65 (by decide) (by decide)
  exact ⟨e, r, he, hr, hint.trans (by decide)⟩

end OranNs3.Core
