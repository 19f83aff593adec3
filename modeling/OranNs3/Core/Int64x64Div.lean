import OranNs3.Core.Int64x64Mul

/-!
# Quotients of fixed-point numbers

`Udiv` divides by hand: each round of its main loop shifts the remainder to the left as far as it
goes, divides, and appends the quotient to the result. `DivInv` is what holds at its head, of a
dividend `a` and a divisor `b` of which `t` trailing zeros are cast off. As `b` is at most `2 ^
127`, a remainder that cannot be shifted further is not smaller than the divisor, so that the loop
that casts off more bits of the divisor is never entered, and each round yields a digit. Cairo's
build runs the same loops on pairs of words, step by step (`Cairo.udiv_ofBits`).
-/

namespace OranNs3.Core

open Words

variable {a b t fuel digis shift : Nat}

/-! ## Bits -/

theorem and_one_eq_zero (v : BitVec 128) : v &&& 1 = 0 ↔ v.toNat % 2 = 0 := by
  rw [← BitVec.toNat_inj, BitVec.toNat_and]
  simp [Nat.and_one_is_mod]

theorem and_high_eq_zero (v : BitVec 128) : v &&& Int128.HP128_MASK_HI_BIT = 0 ↔
    v.toNat < 2 ^ 127 := by
  have hbit : v.getLsbD 127 = decide (2 ^ 127 ≤ v.toNat) := BitVec.msb_eq_decide v
  rw [show Int128.HP128_MASK_HI_BIT = BitVec.twoPow 128 127 from rfl, BitVec.and_twoPow, hbit]
  split
  · simp_all
  · simp_all

/-! ## Native integers -/

namespace Int128

theorem skipTrailingZeros_keeps (den : BitVec 128) (shift : Nat) (h : shift ≤ DIGITS) :
    Keeps (fun r => den.toNat = r.1.toNat * 2 ^ (r.2 - shift) ∧ shift ≤ r.2 ∧ r.2 ≤ DIGITS ∧
      (r.1.toNat % 2 = 1 ∨ r.2 = DIGITS)) (skipTrailingZeros den shift) := by
  induction den, shift using skipTrailingZeros.induct with
  | case1 den shift hcond ih =>
    rw [skipTrailingZeros, if_pos hcond]
    have heven := (and_one_eq_zero den).1 hcond.2
    refine (Keeps.shr rfl (by omega)).bind fun den' hden' => (ih den' (by omega)).imp fun r hr => ?_
    obtain ⟨hval, hle, hr⟩ := hr
    refine ⟨?_, by omega, hr⟩
    rw [show r.2 - shift = r.2 - (shift + 1) + 1 from by omega, Nat.pow_succ, ← mul_assoc, ← hval]
    omega
  | case2 den shift hcond =>
    rw [skipTrailingZeros, if_neg hcond, and_one_eq_zero] at *
    refine .pure ⟨?_, le_refl _, h, ?_⟩
    · simp
    · simp only
      omega

theorem skipLeadingZeros_keeps (rem : BitVec 128) (shift : Nat) (h : digis + shift ≤ DIGITS) :
    Keeps (fun r => r.1.toNat = rem.toNat * 2 ^ (r.2 - shift) ∧ shift ≤ r.2 ∧ digis + r.2 ≤ DIGITS ∧
        (digis + r.2 = DIGITS ∨ 2 ^ 127 ≤ r.1.toNat)) (skipLeadingZeros digis rem shift) := by
  induction rem, shift using skipLeadingZeros.induct digis with
  | case1 rem shift hcond ih =>
    rw [skipLeadingZeros, if_pos hcond]
    have hlt := (and_high_eq_zero rem).1 hcond.2
    refine (Keeps.shl rfl (by omega)).bind fun rem' hrem' => (ih rem' (by omega)).imp fun r hr => ?_
    obtain ⟨hval, hle, hr⟩ := hr
    refine ⟨?_, by omega, hr⟩
    rw [hval, hrem', show r.2 - shift = 1 + (r.2 - (shift + 1)) from by omega, pow_add, mul_assoc]
  | case2 rem shift hcond =>
    rw [skipLeadingZeros, if_neg hcond]
    rw [and_high_eq_zero] at hcond
    refine .pure ⟨?_, le_refl _, h, ?_⟩
    · simp
    · simp only
      omega

theorem castOff_eq {rem den : BitVec 128}
    (h : digis + shift < DIGITS → den.toNat % 2 = 1 ∧ den.toNat ≤ rem.toNat) :
    castOff digis rem den shift = pure (den, shift) := by
  rw [castOff, if_neg]
  rintro ⟨hlt, hcond⟩
  obtain ⟨hodd, hle⟩ := h hlt
  rcases hcond with heven | hrem
  · rw [and_one_eq_zero] at heven
    omega
  · exact absurd hle (Nat.not_le.2 hrem)

theorem divrem_keeps {rem den : BitVec 128} (h : 0 < den.toNat) :
    Keeps (fun r => r.1.toNat = rem.toNat / den.toNat ∧ r.2.toNat = rem.toNat % den.toNat)
      (divrem rem den) := by
  have hne : den ≠ 0 := by
    rintro rfl
    exact absurd h (by decide)
  rw [divrem, if_neg hne]
  exact .pure ⟨BitVec.toNat_udiv, BitVec.toNat_umod⟩

/-- What holds at the head of the main loop of `Udiv`, of the dividend `a` and the divisor `b` of
which `t` zeros are cast off. -/
structure DivInv (a b t : Nat) (s : DivState) : Prop where
  divisor : b = s.den.toNat * 2 ^ t
  odd : s.den.toNat % 2 = 1 ∨ t = DIGITS
  cast_le : t ≤ s.digis + s.shift
  digits_le : s.digis + s.shift ≤ DIGITS
  rem_lt : s.rem.toNat < s.den.toNat * 2 ^ s.shift
  value : a * 2 ^ (s.digis + s.shift) = s.result.toNat * 2 ^ s.shift * b + s.rem.toNat * 2 ^ t

variable {s : DivState}

theorem DivInv.den_pos (h : DivInv a b t s) : 0 < s.den.toNat := by
  have hrem := h.rem_lt
  exact Nat.pos_of_mul_pos_right (lt_of_le_of_lt (Nat.zero_le _) hrem)

theorem DivInv.den_le (h : DivInv a b t s) : s.den.toNat ≤ b := by
  rw [h.divisor]
  exact Nat.le_mul_of_pos_right _ (Nat.two_pow_pos t)

theorem lt_of_mul_le {q k : Nat} (hq : q * b ≤ a * 2 ^ k) (hk : k ≤ DIGITS) (hb : 0 < b)
    (hlt : a * 2 ^ 64 / b < 2 ^ 128) : q < 2 ^ 128 := by
  refine lt_of_le_of_lt ((Nat.le_div_iff_mul_le hb).2 (hq.trans ?_)) hlt
  exact Nat.mul_le_mul_left a (Nat.pow_le_pow_right (by decide) hk)

/-- One round of the main loop yields at least one digit, and loses no bit. -/
theorem udivRound_keeps (h : DivInv a b t s) (hb : b ≤ 2 ^ 127) (hlt : a * 2 ^ 64 / b < 2 ^ 128)
    (hdigis : s.digis < DIGITS) :
    Keeps (fun s' => DivInv a b t s' ∧ s.digis < s'.digis) (udivRound s) := by
  have hden := h.den_pos
  have hdenb := h.den_le
  rw [udivRound]
  refine (skipLeadingZeros_keeps s.rem s.shift h.digits_le).bind fun r hr => ?_
  obtain ⟨rem, shift⟩ := r
  obtain ⟨hrem, hle, hdigits, hfull⟩ := hr
  dsimp only at hrem hle hdigits hfull
  -- the remainder is not smaller than the divisor, unless there are enough digits
  have hcast : s.digis + shift < DIGITS → s.den.toNat % 2 = 1 ∧ s.den.toNat ≤ rem.toNat := by
    intro hmore
    have hcast := h.cast_le
    constructor
    · exact h.odd.resolve_right (by omega)
    · rcases hfull with hfull | hfull <;> omega
  -- a remainder that is not shifted at all is smaller than the divisor
  have hpos : 0 < shift := by
    by_contra hzero
    obtain rfl : shift = 0 := by omega
    have hrem_lt := h.rem_lt
    obtain hs : s.shift = 0 := by omega
    have := (hcast hdigis).2
    simp only [hs, pow_zero, mul_one, Nat.sub_zero] at hrem hrem_lt
    omega
  simp only [castOff_eq hcast, pure_bind]
  refine (divrem_keeps hden).bind fun qr hqr => ?_
  obtain ⟨quo, rem'⟩ := qr
  obtain ⟨hquo, hrem'⟩ := hqr
  dsimp only at hquo hrem'
  have hvalue : a * 2 ^ (s.digis + shift) =
      (s.result.toNat * 2 ^ shift + rem.toNat / s.den.toNat) * b + rem.toNat % s.den.toNat *
      2 ^ t := by
    have hsplit := Nat.div_add_mod rem.toNat s.den.toNat
    calc a * 2 ^ (s.digis + shift)
        = a * 2 ^ (s.digis + s.shift) * 2 ^ (shift - s.shift) := by
          rw [mul_assoc, ← pow_add,
            show s.digis + s.shift + (shift - s.shift) = s.digis + shift from by omega]
      _ = s.result.toNat * (2 ^ s.shift * 2 ^ (shift - s.shift)) * b + s.rem.toNat * 2 ^
        (shift - s.shift) * 2 ^ t := by
          rw [h.value]
          ring
      _ = s.result.toNat * 2 ^ shift * b + (s.den.toNat * (rem.toNat / s.den.toNat) + rem.toNat %
        s.den.toNat) * 2 ^ t := by
          rw [← pow_add, show s.shift + (shift - s.shift) = shift from by omega, ← hrem, hsplit]
      _ = s.result.toNat * 2 ^ shift * b + rem.toNat / s.den.toNat * (s.den.toNat * 2 ^ t) +
        rem.toNat % s.den.toNat * 2 ^ t := by
          ring
      _ = _ := by
          rw [← h.divisor]
          ring
  have hq : s.result.toNat * 2 ^ shift + rem.toNat / s.den.toNat < 2 ^ 128 :=
    lt_of_mul_le (Nat.le.intro hvalue.symm) hdigits (Nat.lt_of_lt_of_le hden hdenb) hlt
  refine (Keeps.shl rfl (by omega)).bind fun result hresult =>
    (Keeps.add hresult hquo (by omega)).bind fun result hresult => ?_
  have hcast_le : t ≤ s.digis + shift := h.cast_le.trans (Nat.add_le_add_left hle s.digis)
  refine .pure ⟨⟨h.divisor, h.odd, hcast_le, hdigits, ?_, ?_⟩, Nat.lt_add_of_pos_right hpos⟩
  · rw [pow_zero, mul_one, hrem']
    exact Nat.mod_lt _ hden
  · simp only [pow_zero, mul_one, add_zero]
    rw [hvalue, hresult, hrem']

theorem udivLoop_keeps (h : DivInv a b t s) (hb : b ≤ 2 ^ 127) (hlt : a * 2 ^ 64 / b < 2 ^ 128)
    (hfuel : DIGITS < s.digis + fuel) :
    Keeps (fun s' => DivInv a b t s' ∧ ¬ (s'.digis < DIGITS ∧ s'.rem ≠ 0)) (udivLoop fuel s) := by
  induction fuel generalizing s with
  | zero =>
    have := h.digits_le
    omega
  | succ fuel ih =>
    rw [udivLoop]
    split
    next hcond =>
      refine (udivRound_keeps h hb hlt hcond.1).bind fun s' hs' => ih hs'.1 ?_
      have := hs'.2
      omega
    next hcond => exact .pure ⟨h, hcond⟩

/-- The result of the main loop, with a zero for each digit that is missing, is the quotient. -/
theorem DivInv.quotient (h : DivInv a b t s) (hend : ¬ (s.digis < DIGITS ∧ s.rem ≠ 0)) :
    s.result.toNat * 2 ^ (DIGITS - s.digis) = a * 2 ^ 64 / b := by
  have hpos : 0 < b := Nat.lt_of_lt_of_le h.den_pos h.den_le
  have hvalue := h.value
  have hdigits := h.digits_le
  symm
  rcases Nat.lt_or_ge s.digis DIGITS with hlt | hge
  · -- the remainder is zero
    have hrem : s.rem.toNat = 0 := by
      by_contra hne
      exact hend ⟨hlt, fun hzero => hne (by rw [hzero]; rfl)⟩
    have hshift : s.result.toNat * 2 ^ s.shift * b + s.rem.toNat * 2 ^ t =
      s.result.toNat * b * 2 ^ s.shift := by
      rw [hrem]
      ring
    have hexact : a * 2 ^ s.digis = s.result.toNat * b := by
      rw [hshift, pow_add, ← mul_assoc] at hvalue
      exact Nat.eq_of_mul_eq_mul_right (Nat.two_pow_pos s.shift) hvalue
    apply Nat.div_eq_of_eq_mul_left hpos
    calc a * 2 ^ 64 = a * 2 ^ s.digis * 2 ^ (DIGITS - s.digis) := by
          rw [mul_assoc, ← pow_add, Nat.add_sub_of_le (Nat.le_of_lt hlt), DIGITS]
      _ = s.result.toNat * 2 ^ (DIGITS - s.digis) * b := by
          rw [hexact]
          ring
  · -- all digits are there, and the remainder is smaller than the divisor
    have hzero : s.shift = 0 := by omega
    have hall : s.digis = DIGITS := by omega
    have hrem := h.rem_lt
    rw [hzero, pow_zero, mul_one] at hrem
    rw [hzero, hall, pow_zero, mul_one, add_zero] at hvalue
    rw [hall, Nat.sub_self, pow_zero, mul_one]
    have hlt : s.rem.toNat * 2 ^ t < b := by
      rw [h.divisor]
      exact Nat.mul_lt_mul_of_pos_right hrem (Nat.two_pow_pos t)
    change a * 2 ^ 64 = _ at hvalue
    rw [hvalue, Nat.mul_comm, Nat.mul_add_div hpos, Nat.div_eq_of_lt hlt, add_zero]

theorem udiv_keeps {u v : BitVec 128} (hpos : 0 < v.toNat) (hle : v.toNat ≤ 2 ^ 127)
    (hlt : u.toNat * 2 ^ 64 / v.toNat < 2 ^ 128) (hfuel : DIGITS < fuel) :
    Keeps (fun r => r.toNat = u.toNat * 2 ^ 64 / v.toNat) (udiv fuel u v) := by
  rw [udiv]
  refine (divrem_keeps hpos).bind fun qr hqr => ?_
  obtain ⟨quo, rem⟩ := qr
  obtain ⟨hquo, hrem⟩ := hqr
  refine (Keeps.check ?_).bind fun _ _ =>
    (skipTrailingZeros_keeps v 0 (Nat.zero_le _)).bind fun r hr => ?_
  · rw [BitVec.lt_def, hrem]
    exact Nat.mod_lt _ hpos
  obtain ⟨den, shift⟩ := r
  obtain ⟨hden, -, hshift, hodd⟩ := hr
  simp only [Nat.sub_zero] at hden hshift hodd
  have hinit : DivInv u.toNat v.toNat shift ⟨rem, den, quo, 0, shift⟩ := by
    refine ⟨hden, hodd, by simp, by simpa using hshift, ?_, ?_⟩
    · simp only [hrem, ← hden]
      exact Nat.mod_lt _ hpos
    · simp only [hrem, hquo, Nat.zero_add]
      calc u.toNat * 2 ^ shift = (v.toNat * (u.toNat / v.toNat) + u.toNat % v.toNat) *
      2 ^ shift := by
            rw [Nat.div_add_mod]
        _ = _ := by ring
  refine (udivLoop_keeps hinit hle hlt (by simpa using hfuel)).bind fun s hs => ?_
  obtain ⟨hinv, hend⟩ := hs
  have hquotient := hinv.quotient hend
  split
  · refine (Keeps.shl rfl (by rw [hquotient]; exact hlt)).imp fun r hr => hr.trans hquotient
  · refine .pure ?_
    rw [← hquotient, show DIGITS - s.digis = 0 from by omega, pow_zero, mul_one]

end Int128

/-! ## Pairs of words -/

namespace Cairo

open Uint128

section Operations

variable (u v : BitVec 128)

theorem uint128Add_ofBits : uint128Add (ofBits u) (ofBits v) = ofBits <$> add u v := by
  rw [uint128Add, bits_ofBits, bits_ofBits]

theorem uint128Lsl_ofBits (n : Nat) : uint128Lsl (ofBits u) n = ofBits <$> shl u n := by
  rw [uint128Lsl, bits_ofBits]

theorem uint128Rsl_ofBits (n : Nat) : uint128Rsl (ofBits u) n = ofBits <$> shr u n := by
  rw [uint128Rsl, bits_ofBits]

theorem uint128Lt_ofBits : uint128Lt (ofBits u) (ofBits v) ↔ u < v := by
  rw [uint128Lt, bits_ofBits, bits_ofBits]

theorem uint128Divrem_ofBits :
    uint128Divrem (ofBits u) (ofBits v) = (fun r => (ofBits r.1, ofBits r.2)) <$> Int128.divrem u
      v := by
  simp only [uint128Divrem, Int128.divrem, bits_ofBits]
  split
  · rfl
  · rfl

theorem toNat_lo_ofBits : (ofBits u).lo.toNat = u.toNat % 2 ^ 64 := toNat_lo (by rw [bits_ofBits])

theorem toNat_hi_ofBits : (ofBits u).hi.toNat = u.toNat / 2 ^ 64 := toNat_hi (by rw [bits_ofBits])

theorem lo_and_one_eq_zero : (ofBits u).lo &&& 1 = 0 ↔ u &&& 1 = 0 := by
  rw [and_one_eq_zero, ← BitVec.toNat_inj, BitVec.toNat_and, toNat_lo_ofBits]
  simp [Nat.and_one_is_mod]

theorem hi_and_high_eq_zero : (ofBits u).hi &&& HPCAIRO_MASK_HI_BIT = 0 ↔
    u &&& Int128.HP128_MASK_HI_BIT = 0 := by
  have hu := toNat_hi_ofBits u
  have hbit : (ofBits u).hi.getLsbD 63 = decide (2 ^ 63 ≤ (ofBits u).hi.toNat) :=
    BitVec.msb_eq_decide (ofBits u).hi
  rw [and_high_eq_zero, show HPCAIRO_MASK_HI_BIT = BitVec.twoPow 64 63 from rfl, BitVec.and_twoPow,
    hbit, hu]
  split
  next h =>
    have h' := of_decide_eq_true h
    refine iff_of_false (by decide) ?_
    omega
  next h =>
    have h' := of_decide_eq_false (Bool.eq_false_of_not_eq_true h)
    refine iff_of_true rfl ?_
    omega

theorem ofBits_eq_zero : ofBits u = ⟨0, 0⟩ ↔ u = 0 := by
  constructor
  · intro h
    rw [← bits_ofBits u, h]
    rfl
  · rintro rfl
    rfl

end Operations

/-! Each loop runs as the native one. -/

theorem skipTrailingZeros_ofBits (den : BitVec 128) (shift : Nat) :
    skipTrailingZeros (ofBits den) shift = (fun r => (ofBits r.1, r.2)) <$> Int128.skipTrailingZeros
      den shift := by
  induction den, shift using Int128.skipTrailingZeros.induct with
  | case1 den shift hcond ih =>
    have hiff := and_congr_right fun (_ : shift < DIGITS) => lo_and_one_eq_zero den
    rw [skipTrailingZeros, Int128.skipTrailingZeros, if_pos (hiff.2 hcond), if_pos hcond,
      uint128Rsl_ofBits]
    simp only [map_bind, bind_map_left, ih]
  | case2 den shift hcond =>
    have hiff := and_congr_right fun (_ : shift < DIGITS) => lo_and_one_eq_zero den
    rw [skipTrailingZeros, Int128.skipTrailingZeros, if_neg (mt hiff.1 hcond), if_neg hcond,
      map_pure]

theorem skipLeadingZeros_ofBits (rem : BitVec 128) (shift : Nat) :
    skipLeadingZeros digis (ofBits rem) shift = (fun r => (ofBits r.1, r.2)) <$>
      Int128.skipLeadingZeros digis rem shift := by
  induction rem, shift using Int128.skipLeadingZeros.induct digis with
  | case1 rem shift hcond ih =>
    have hiff := and_congr_right fun (_ : digis + shift < DIGITS) => hi_and_high_eq_zero rem
    rw [skipLeadingZeros, Int128.skipLeadingZeros, if_pos (hiff.2 hcond), if_pos hcond,
      uint128Lsl_ofBits]
    simp only [map_bind, bind_map_left, ih]
  | case2 rem shift hcond =>
    have hiff := and_congr_right fun (_ : digis + shift < DIGITS) => hi_and_high_eq_zero rem
    rw [skipLeadingZeros, Int128.skipLeadingZeros, if_neg (mt hiff.1 hcond), if_neg hcond, map_pure]

theorem castOff_ofBits (rem den : BitVec 128) (shift : Nat) :
    castOff digis (ofBits rem) (ofBits den) shift = (fun r => (ofBits r.1, r.2)) <$> Int128.castOff
      digis rem den shift := by
  induction den, shift using Int128.castOff.induct digis rem with
  | case1 den shift hcond ih =>
    have hiff := and_congr_right fun (_ : digis + shift < DIGITS) =>
      or_congr (lo_and_one_eq_zero den) (uint128Lt_ofBits rem den)
    rw [castOff, Int128.castOff, if_pos (hiff.2 hcond), if_pos hcond, uint128Rsl_ofBits]
    simp only [map_bind, bind_map_left, ih]
  | case2 den shift hcond =>
    have hiff := and_congr_right fun (_ : digis + shift < DIGITS) =>
      or_congr (lo_and_one_eq_zero den) (uint128Lt_ofBits rem den)
    rw [castOff, Int128.castOff, if_neg (mt hiff.1 hcond), if_neg hcond, map_pure]

variable (s : Int128.DivState)

/-- The variables of the native `Udiv`, as pairs of words. -/
def DivState.ofInt128 : DivState :=
  ⟨ofBits s.rem, ofBits s.den, ofBits s.result, s.digis, s.shift⟩

theorem udivRound_ofBits : udivRound (.ofInt128 s) = DivState.ofInt128 <$> Int128.udivRound s := by
  simp only [udivRound, Int128.udivRound, DivState.ofInt128, skipLeadingZeros_ofBits,
    castOff_ofBits, uint128Divrem_ofBits, uint128Lsl_ofBits, uint128Add_ofBits, map_bind,
    bind_map_left, map_pure]

theorem udivLoop_ofBits :
    udivLoop fuel (.ofInt128 s) = DivState.ofInt128 <$> Int128.udivLoop fuel s := by
  induction fuel generalizing s with
  | zero => rfl
  | succ fuel ih =>
    rw [udivLoop, Int128.udivLoop]
    have hrem : (DivState.ofInt128 s).rem ≠ ⟨0, 0⟩ ↔ s.rem ≠ 0 := not_congr (ofBits_eq_zero s.rem)
    by_cases hcond : s.digis < DIGITS ∧ s.rem ≠ 0
    · rw [if_pos hcond, if_pos ⟨hcond.1, hrem.2 hcond.2⟩, udivRound_ofBits]
      simp only [map_bind, bind_map_left, ih]
    · rw [if_neg hcond, if_neg fun h => hcond ⟨h.1, hrem.1 h.2⟩, map_pure]

theorem udiv_ofBits (u v : BitVec 128) :
    udiv fuel (ofBits u) (ofBits v) = ofBits <$> Int128.udiv fuel u v := by
  simp only [udiv, Int128.udiv, uint128Divrem_ofBits, skipTrailingZeros_ofBits, map_bind,
    bind_map_left]
  refine bind_congr fun qr => ?_
  rw [check_congr (uint128Lt_ofBits qr.2 v)]
  refine bind_congr fun _ => bind_congr fun r => ?_
  change udivLoop fuel (.ofInt128 ⟨qr.2, r.1, qr.1, 0, r.2⟩) >>= _ = _
  rw [udivLoop_ofBits, bind_map_left]
  refine bind_congr fun s => ?_
  simp only [DivState.ofInt128, uint128Lsl_ofBits]
  split
  · rfl
  · rfl

theorem div_ofBits (v o : BitVec 128) :
    div fuel (ofBits v) (ofBits o) = ofBits <$> Int128.div fuel v o := by
  rw [div, Int128.div, outputSign_eq, Int128.outputSign_eq]
  simp only [udiv_ofBits, map_bind, bind_map_left, map_pure, uint128Negate, bits_ofBits]
  refine bind_congr fun r => ?_
  split
  · rfl
  · rfl

end Cairo

open Cairo.Uint128

/-- The quotient of the magnitudes, rounded down to a multiple of `2 ^ -64`. -/
def uquotient (v o : BitVec 128) : Nat := (magnitude v).toNat * 2 ^ 64 / (magnitude o).toNat

/-- `Udiv` of both builds returns the quotient of `u` and `v` of at most `2 ^ 127`, rounded down to
a multiple of `2 ^ -64`, where that has 128 bits: its main loop tests its condition at most once
more than there are digits, and no shift loses a bit. So does `Div`. -/
theorem udiv_exact (fuel : Nat) (hfuel : DIGITS < fuel) :
    (∀ u v : BitVec 128, 0 < v.toNat → v.toNat ≤ 2 ^ 127 → u.toNat * 2 ^ 64 / v.toNat < 2 ^ 128 →
      ∃ r : BitVec 128, r.toNat = u.toNat * 2 ^ 64 / v.toNat ∧
        Int128.udiv fuel u v false = .ok (r, false) ∧ Cairo.udiv fuel (ofBits u) (ofBits v) false =
          .ok (ofBits r, false)) ∧
    ∀ v o : BitVec 128, o ≠ 0 → uquotient v o < 2 ^ 128 →
      ∃ r : BitVec 128, Int128.div fuel v o false = .ok (r, false) ∧
        Cairo.div fuel (ofBits v) (ofBits o) false = .ok (ofBits r, false) := by
  constructor
  · intro u v hpos hle hlt
    obtain ⟨r, hudiv, hr⟩ := Int128.udiv_keeps hpos hle hlt hfuel
    refine ⟨r, hr, ?_, ?_⟩
    · rw [hudiv]
      rfl
    · rw [Cairo.udiv_ofBits, hudiv]
      rfl
  · intro v o ho hlt
    have hpos : 0 < (magnitude o).toNat := by
      rw [toNat_magnitude, Int.natAbs_pos]
      exact fun hzero => ho (BitVec.eq_of_toInt_eq hzero)
    obtain ⟨r, hudiv, hr⟩ := Int128.udiv_keeps hpos (magnitude_le o) hlt hfuel
    have hdiv : Int128.div fuel v o = pure (if negative v o then -r else r) := by
      rw [Int128.div, Int128.outputSign_eq]
      simp only [hudiv, pure_bind]
    refine ⟨if negative v o then -r else r, ?_, ?_⟩
    · rw [hdiv]
      rfl
    · rw [Cairo.div_ofBits, hdiv]
      rfl

/-- Two thirds. -/
theorem udiv_exact_two_thirds : ∃ r : BitVec 128, r.toNat = 2 ^ 65 * 2 ^ 64 / (3 * 2 ^ 64) ∧
    Int128.udiv 65 (BitVec.ofNat 128 (2 ^ 65)) (BitVec.ofNat 128 (3 * 2 ^ 64)) false =
      .ok (r, false) := by
  obtain ⟨r, hr, hudiv, -⟩ := (udiv_exact 65 (by decide)).1 (BitVec.ofNat 128 (2 ^ 65))
    (BitVec.ofNat 128 (3 * 2 ^ 64)) (by decide) (by decide) (by decide)
  exact ⟨r, hr, hudiv⟩

end OranNs3.Core
