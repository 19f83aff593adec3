import OranNs3.Fh.Capacity
import Mathlib.Tactic.IntervalCases
import Mathlib.Tactic.Positivity
import Mathlib.Algebra.BigOperators.Ring.List

/-!
# The resources that a UE may get

`DoGetMaxRegAssignable` inverts `GetFhThr`: of the share of a bandwidth part it takes away the
overheads of the UEs and divides what remains among them. It takes away `Kp` times a difference of
overheads that is negative and of an unsigned type, so what it takes away is close to `2 ^ 32`, and
the remainder is converted from a negative floating point number, which the language does not
define. The sum of the throughputs keeps to the share whatever the conversion gives exactly where
the share is so large that nothing is converted out of its range (`shareKept_of_fits`,
`fits_of_shareKept`).
-/

namespace OranNs3.Fh

open List Lts Option

/-! ## The function -/

/-- The loop that counts the UEs whose overheads the share can bear; `Kp` is an `uint16_t`. -/
def countUes (available overhead : Nat) : Nat → Nat → Option Nat
  | 0, _ => none
  | fuel + 1, kp =>
    if available ≤ kp * overhead % 2 ^ 32 then countUes available overhead fuel
      ((kp + 2 ^ 16 - 1) % 2 ^ 16)
    else some kp

/-- The overheads of a UE, in bits. -/
def ueOverhead (cfg : FhConfig) (numerology : Nat) : Nat :=
  cfg.dyn + overheadMac numerology + 12 * 2 * 10

/-- What is taken away for `kp` UEs: the difference is of type `uint32_t`, and so is the product. -/
def takenAway (cfg : FhConfig) (numerology kp : Nat) : Nat :=
  ((kp : Int) * ((cfg.dyn : Int) - overheadMac numerology - 12 * 2 * 10) % 2 ^ 32).toNat

variable (conv : Int → Option Nat)

/-- The conversion of a floating point number to `uint32_t`: defined for values in its range. -/
def IsConversion : Prop := ∀ n : Nat, n < 2 ^ 32 → conv n = some n

/-- The REGs of each of `kp` UEs. -/
def maxRegs (cfg : FhConfig)
    (numerology available kp order numRbPerRbg dlRank : Nat) : Option Nat := do
  let num ← conv ((available : Int) - takenAway cfg numerology kp)
  if kp = 0 then return 0
  let w := if cfg.enableModComp then order else 32
  let divisor := 12 * kp * w * dlRank % 2 ^ 32
  guard (divisor ≠ 0 ∧ numRbPerRbg % 2 ^ 32 ≠ 0)
  return num / divisor / (numRbPerRbg % 2 ^ 32)

/-- `DoGetMaxRegAssignable`, unless a lookup, an assertion or a conversion fails or it does not end:
the UEs it counts and the REGs of each. Rates in `1e6` bits per second are bits per microsecond. -/
def doGetMaxRegAssignable (cfg : FhConfig) (fuel : Nat) (s : FhControl)
    (bwpId mcs dlRank : Nat) : Option (Nat × Nat) := do
  let order ← modulationOrder cfg mcs
  guard (0 < getNumberActiveBwps s)
  let ues ← (lookupAt s.activeUesPerBwp bwpId).toOption
  let numerology ← (lookupAt s.numerologyPerBwp bwpId).toOption
  let available := cfg.fhCapacity / getNumberActiveBwps s * slotLength numerology
  let kp ← countUes available (ueOverhead cfg numerology) fuel (ues.length % 2 ^ 16)
  let numRbPerRbg ← (lookupAt s.fhSchedSapUser bwpId).toOption
  let regs ← maxRegs conv cfg numerology available kp order numRbPerRbg dlRank
  return (kp, regs)

/-! ## The UEs that are counted -/

/-- The most of `ues` UEs whose overheads are below what is available. -/
def bearable (available overhead ues : Nat) : Nat := min ues ((available - 1) / overhead)

section countUes
variable {available overhead fuel ues kp : Nat}

theorem le_mul_iff (ha : 0 < available) (ho : 0 < overhead) :
    available ≤ ues * overhead ↔ (available - 1) / overhead < ues := by
  rw [Nat.div_lt_iff_lt_mul ho]
  omega

theorem countUes_zero : ∀ {fuel kp : Nat}, countUes 0 overhead fuel kp = none
  | 0, _ => rfl
  | fuel + 1, kp => by rw [countUes, if_pos (Nat.zero_le _), countUes_zero]

theorem decrement (hpos : 0 < ues) (hlt : ues < 2 ^ 16) :
    (ues + 2 ^ 16 - 1) % 2 ^ 16 = ues - 1 := by omega

theorem countUes_eq_some (ha : 0 < available) (ho : 0 < overhead) (hlt : overhead < 2 ^ 16) :
    ∀ {fuel ues : Nat}, ues < 2 ^ 16 → countUes available overhead fuel ues = some kp →
      kp = bearable available overhead ues
  | 0, _, _, h => nomatch h
  | fuel + 1, ues, hues, h => by
    have hmul : ues * overhead < 2 ^ 16 * 2 ^ 16 := Nat.mul_lt_mul'' hues hlt
    rw [countUes, Nat.mod_eq_of_lt (hmul.trans_eq (by decide))] at h
    have hiff : available ≤ ues * overhead ↔ _ := le_mul_iff ha ho
    rw [bearable]
    split at h
    · next hle =>
      have hq := hiff.1 hle
      rw [decrement (Nat.zero_lt_of_lt hq) hues] at h
      rw [countUes_eq_some ha ho hlt (Nat.lt_of_le_of_lt (Nat.sub_le _ _) hues) h, bearable,
        Nat.min_eq_right (Nat.le_sub_one_of_lt hq), Nat.min_eq_right hq.le]
    · next hle =>
      have hq := Nat.not_lt.1 fun hlt => hle (hiff.2 hlt)
      cases h
      exact (Nat.min_eq_left hq).symm

theorem countUes_returns (ha : 0 < available) (ho : 0 < overhead) (hlt : overhead < 2 ^ 16) :
    ∀ {ues : Nat}, ues < 2 ^ 16 → ∃ kp, countUes available overhead (ues + 1) ues = some kp
  | 0, _ => ⟨0, by rw [countUes, if_neg (by omega)]⟩
  | ues + 1, hues => by
    rw [countUes]
    split
    · rw [decrement (Nat.succ_pos _) hues]
      exact countUes_returns ha ho hlt (by omega)
    · exact ⟨_, rfl⟩

end countUes

/-! ## The share -/

/-- What a query finds: the lookups succeed. -/
structure Found (cfg : FhConfig) (s : FhControl) (bwpId mcs order numerology numRbPerRbg : Nat)
    (ues : List Nat) : Prop where
  hasOrder : modulationOrder cfg mcs = some order
  active : 0 < getNumberActiveBwps s
  hasUes : lookupAt s.activeUesPerBwp bwpId = .ok ues
  hasNumerology : lookupAt s.numerologyPerBwp bwpId = .ok numerology
  hasRbs : lookupAt s.fhSchedSapUser bwpId = .ok numRbPerRbg
  numerology_le : numerology ≤ 5
  dyn : cfg.overheadDyn < 2 ^ 8

/-- Each of the UEs that are counted gets at most the REGs that are returned, and then their
throughputs add up to the share of the bandwidth part at most. -/
def ShareKept (cfg : FhConfig) (s : FhControl)
    (bwpId mcs numerology numRbPerRbg dlRank : Nat) : Prop :=
  ∃ fuel kp regs, doGetMaxRegAssignable conv cfg fuel s bwpId mcs dlRank = some (kp, regs) ∧
    ∀ thrs : List Nat, thrs.length = kp →
      (∀ t ∈ thrs, ∃ r ≤ regs, fhThrOf cfg numerology mcs (r * numRbPerRbg % 2 ^ 32) dlRank =
      some t) →
      thrs.sum ≤ cfg.fhCapacity / getNumberActiveBwps s * 10 ^ 6

/-- The overhead of the MAC and of the DCIs without the one of dynamic adaptation, which has the
other sign. -/
def overheadLeft (cfg : FhConfig) (numerology : Nat) : Nat :=
  overheadMac numerology + 12 * 2 * 10 - cfg.dyn

/-- The share of a bandwidth part in a slot, in bits. -/
def slotShare (cfg : FhConfig) (s : FhControl) (numerology : Nat) : Nat :=
  cfg.fhCapacity / getNumberActiveBwps s * slotLength numerology

/-- The UEs whose overheads the share bears. -/
def bornUes (cfg : FhConfig) (s : FhControl) (numerology ues : Nat) : Nat :=
  bearable (slotShare cfg s numerology) (ueOverhead cfg numerology) (ues % 2 ^ 16)

/-- The share is not empty; with UEs whose overheads it bears, what remains after taking away nearly
`2 ^ 32` bits has 32 bits. -/
structure LargeShare (cfg : FhConfig) (s : FhControl) (numerology numRbPerRbg ues dlRank : Nat) :
    Prop where
  pos : 0 < slotShare cfg s numerology
  no_ues : bornUes cfg s numerology ues = 0 → slotShare cfg s numerology < 2 ^ 32
  ues : bornUes cfg s numerology ues ≠ 0 →
    2 ^ 32 ≤ slotShare cfg s numerology + bornUes cfg s numerology ues * overheadLeft cfg
    numerology ∧
    slotShare cfg s numerology + bornUes cfg s numerology ues * overheadLeft cfg numerology <
      2 ^ 33 ∧
    0 < dlRank ∧ 0 < numRbPerRbg % 2 ^ 32

section share
variable {cfg : FhConfig} {s : FhControl} {bwpId mcs order numerology numRbPerRbg dlRank : Nat}
  {ues : List Nat} {conv : Int → Option Nat} {fuel kp regs : Nat}

theorem slotLength_pos (h : numerology ≤ 5) : 0 < slotLength numerology := by
  interval_cases numerology <;> decide

theorem overheadMac_bounds (h : numerology ≤ 5) : 312 ≤ overheadMac numerology ∧
    overheadMac numerology ≤ 10000 := by
  interval_cases numerology <;> decide

theorem FhConfig.dyn_le (h : cfg.overheadDyn < 2 ^ 8) : cfg.dyn < 2 ^ 8 := by
  rw [FhConfig.dyn]
  split
  · exact h
  · decide

theorem takenAway_eq (hnum : numerology ≤ 5) (hdyn : cfg.overheadDyn < 2 ^ 8) (hkp : kp < 2 ^ 16) :
    (takenAway cfg numerology kp : Int) =
      if kp = 0 then 0 else (2 : Int) ^ 32 - ((kp * overheadLeft cfg numerology : Nat) : Int) := by
  have hmac := overheadMac_bounds hnum
  have hd := FhConfig.dyn_le hdyn
  have hleft : ((cfg.dyn : Int) - overheadMac numerology - 12 * 2 * 10) =
    -(overheadLeft cfg numerology : Int) := by
    rw [overheadLeft]
    omega
  have hpos : 0 < overheadLeft cfg numerology := by
    rw [overheadLeft]
    omega
  have hle : overheadLeft cfg numerology < 2 ^ 14 := by
    rw [overheadLeft]
    omega
  rw [takenAway, hleft]
  split
  · next hzero => simp [hzero]
  · next hne =>
    have hmul : kp * overheadLeft cfg numerology < 2 ^ 16 * 2 ^ 14 := Nat.mul_lt_mul'' hkp hle
    have hmulpos : 0 < kp * overheadLeft cfg numerology := Nat.mul_pos (Nat.pos_of_ne_zero hne) hpos
    have hprod : (kp : Int) * -(overheadLeft cfg numerology : Int) =
        -((kp * overheadLeft cfg numerology : Nat) : Int) := by
      push_cast
      ring
    rw [hprod]
    generalize kp * overheadLeft cfg numerology = y at *
    omega

theorem Found.query (h : Found cfg s bwpId mcs order numerology numRbPerRbg ues) :
    doGetMaxRegAssignable conv cfg fuel s bwpId mcs dlRank =
      (countUes (slotShare cfg s numerology) (ueOverhead cfg numerology) fuel
        (ues.length % 2 ^ 16)).bind fun kp =>
          (maxRegs conv cfg numerology (slotShare cfg s numerology) kp order numRbPerRbg dlRank).map
          fun regs => (kp, regs) := by
  have hactive : (guard (0 < getNumberActiveBwps s) : Option Unit) = some () := if_pos h.active
  rw [doGetMaxRegAssignable, h.hasOrder, h.hasUes, h.hasNumerology, h.hasRbs]
  simp only [bind_eq_bind, bind_some, hactive, Except.toOption, slotShare, map_eq_bind]
  rfl

theorem ueOverhead_bounds (h : Found cfg s bwpId mcs order numerology numRbPerRbg ues) :
    0 < ueOverhead cfg numerology ∧ ueOverhead cfg numerology < 2 ^ 16 := by
  have hmac := overheadMac_bounds h.numerology_le
  have hd := FhConfig.dyn_le h.dyn
  rw [ueOverhead]
  omega

/-- The bits per IQ sample. -/
def bitwidth (cfg : FhConfig) (order : Nat) : Nat := if cfg.enableModComp then order else 32

theorem bitwidth_pos (h : modulationOrder cfg mcs = some order) : 0 < bitwidth cfg order := by
  have hall : ∀ w ∈ mcsMTable1 ++ mcsMTable2, 0 < w := by decide
  have horder : 0 < order := by
    rw [modulationOrder] at h
    split at h
    · exact hall _ (mem_append_left _ (mem_of_getElem? h))
    · exact hall _ (mem_append_right _ (mem_of_getElem? h))
  rw [bitwidth]
  split
  · exact horder
  · decide

theorem fhThrOf_le (h : modulationOrder cfg mcs = some order) {r thr : Nat} (hr : r ≤ regs)
    (hthr : fhThrOf cfg numerology mcs (r * numRbPerRbg % 2 ^ 32) dlRank = some thr) :
    thr * slotLength numerology ≤
      (12 * bitwidth cfg order * (regs * (numRbPerRbg % 2 ^ 32)) * dlRank + ueOverhead cfg
        numerology) * 10 ^ 6 := by
  obtain ⟨w, hw, rfl⟩ := map_eq_some_iff.1 hthr
  have hwidth : w = bitwidth cfg order := by
    rw [bitwidth]
    split at hw
    · next hmod => rw [if_pos hmod, some.inj (hw.symm.trans h)]
    · next hmod => rw [if_neg hmod, some.inj hw]
  have hregs : r * numRbPerRbg % 2 ^ 32 ≤ regs * (numRbPerRbg % 2 ^ 32) := by
    rw [Nat.mul_mod]
    calc r % 2 ^ 32 * (numRbPerRbg % 2 ^ 32) % 2 ^ 32 ≤ r % 2 ^ 32 * (numRbPerRbg % 2 ^ 32) :=
      Nat.mod_le _ _
      _ ≤ regs * (numRbPerRbg % 2 ^ 32) := Nat.mul_le_mul_right _ ((Nat.mod_le _ _).trans hr)
  have hbits : allocBits cfg numerology w (r * numRbPerRbg % 2 ^ 32) dlRank ≤
      12 * bitwidth cfg order * (regs * (numRbPerRbg % 2 ^ 32)) * dlRank + ueOverhead cfg
      numerology := by
    have hmul := Nat.mul_le_mul_right dlRank (Nat.mul_le_mul_left (12 * w) hregs)
    have hmod := Nat.mod_le (12 * w * (r * numRbPerRbg % 2 ^ 32) * dlRank + cfg.dyn + overheadMac
      numerology + 12 * 2 * 10) (2 ^ 32)
    rw [allocBits, ueOverhead, ← hwidth]
    omega
  exact (Nat.div_mul_le_self _ _).trans (Nat.mul_le_mul_right _ hbits)

section
variable (h : Found cfg s bwpId mcs order numerology numRbPerRbg ues)
include h

theorem sum_thr_le
    (hbits : kp * (12 * bitwidth cfg order * (regs * (numRbPerRbg % 2 ^ 32)) * dlRank +
      ueOverhead cfg numerology) ≤ slotShare cfg s numerology)
    (thrs : List Nat) (hlen : thrs.length = kp)
    (hthrs : ∀ t ∈ thrs, ∃ r ≤ regs, fhThrOf cfg numerology mcs (r * numRbPerRbg % 2 ^ 32) dlRank =
      some t) : thrs.sum ≤ cfg.fhCapacity / getNumberActiveBwps s * 10 ^ 6 := by
  have hT := slotLength_pos h.numerology_le
  have hsum : (thrs.map (· * slotLength numerology)).sum ≤
      (thrs.map (· * slotLength numerology)).length *
      ((12 * bitwidth cfg order * (regs * (numRbPerRbg % 2 ^ 32)) * dlRank + ueOverhead cfg
        numerology) * 10 ^ 6) := List.sum_le_card_nsmul _ _ fun v hv => by
    obtain ⟨t, ht, rfl⟩ := List.mem_map.1 hv
    obtain ⟨r, hr, hthr⟩ := hthrs t ht
    exact fhThrOf_le h.hasOrder hr hthr
  rw [List.sum_map_mul_right, List.map_id', List.length_map, hlen, ← Nat.mul_assoc] at hsum
  refine Nat.le_of_mul_le_mul_right ?_ hT
  calc thrs.sum * slotLength numerology
      ≤ slotShare cfg s numerology * 10 ^ 6 := hsum.trans (Nat.mul_le_mul_right _ hbits)
    _ = cfg.fhCapacity / getNumberActiveBwps s * 10 ^ 6 * slotLength numerology := by
      rw [slotShare, Nat.mul_right_comm]

/-- Whatever the conversion gives outside its range, the throughputs keep to a share that is large
enough. -/
theorem shareKept_of_large (hlarge : LargeShare cfg s numerology numRbPerRbg ues.length dlRank)
    (hexact : 12 * bornUes cfg s numerology ues.length * bitwidth cfg order * dlRank < 2 ^ 32)
    (hconv : IsConversion conv) : ShareKept conv cfg s bwpId mcs numerology numRbPerRbg dlRank := by
  obtain ⟨hov, hovlt⟩ := ueOverhead_bounds h
  have hues : ues.length % 2 ^ 16 < 2 ^ 16 := Nat.mod_lt _ (by decide)
  obtain ⟨kp, hcount⟩ := countUes_returns hlarge.pos hov hovlt hues
  have hkp : bornUes cfg s numerology ues.length = kp :=
    (countUes_eq_some hlarge.pos hov hovlt hues hcount).symm
  have hkplt : kp < 2 ^ 16 := by
    rw [← hkp, bornUes, bearable]
    exact (Nat.min_le_left _ _).trans_lt hues
  have htaken := takenAway_eq h.numerology_le h.dyn hkplt
  obtain ⟨-, hnone, hsome⟩ := hlarge
  rw [hkp] at hexact hnone hsome
  have hquery : ∀ regs,
      maxRegs conv cfg numerology (slotShare cfg s numerology) kp order numRbPerRbg dlRank =
        some regs → doGetMaxRegAssignable conv cfg (ues.length % 2 ^ 16 + 1) s bwpId mcs dlRank =
        some (kp, regs) := fun regs hregs => by
    rw [h.query, hcount, bind_some, hregs, map_some]
  by_cases hzero : kp = 0
  · have hregs : maxRegs conv cfg numerology (slotShare cfg s numerology) kp order numRbPerRbg
        dlRank = some 0 := by
      rw [if_pos hzero] at htaken
      rw [maxRegs, htaken, Int.sub_zero, hconv _ (hnone hzero)]
      simp [hzero]
    exact ⟨_, kp, 0, hquery 0 hregs, sum_thr_le h (by simp [hzero])⟩
  · obtain ⟨hlow, hhigh, hrank, hrb⟩ := hsome hzero
    have hw := bitwidth_pos h.hasOrder
    have hD : 0 < 12 * kp * bitwidth cfg order * dlRank := by
      have hkppos := Nat.pos_of_ne_zero hzero
      positivity
    generalize hnum : slotShare cfg s numerology + kp * overheadLeft cfg numerology - 2 ^ 32 = num
    have hconvert : conv ((slotShare cfg s numerology : Int) - takenAway cfg numerology kp) =
      some num := by
      rw [if_neg hzero] at htaken
      have heq : (slotShare cfg s numerology : Int) - takenAway cfg numerology kp = num := by
        rw [htaken]
        omega
      rw [heq]
      exact hconv num (by omega)
    have hregs : maxRegs conv cfg numerology (slotShare cfg s numerology) kp order numRbPerRbg
        dlRank = some (num / (12 * kp * bitwidth cfg order * dlRank) / (numRbPerRbg % 2 ^ 32)) := by
      have hguard : (guard (12 * kp * bitwidth cfg order * dlRank ≠ 0 ∧ numRbPerRbg % 2 ^ 32 ≠ 0) :
        Option Unit) = some () := if_pos ⟨hD.ne', hrb.ne'⟩
      rw [maxRegs, hconvert]
      simp only [bind_eq_bind, bind_some, if_neg hzero]
      rw [← bitwidth, Nat.mod_eq_of_lt hexact, hguard]
      rfl
    refine ⟨_, kp, _, hquery _ hregs, sum_thr_le h ?_⟩
    generalize hr : num / (12 * kp * bitwidth cfg order * dlRank) / (numRbPerRbg % 2 ^ 32) = regs
    -- the REGs of all UEs are what remains of the share, less than what the overheads leave
    have hdata : 12 * kp * bitwidth cfg order * dlRank * (regs * (numRbPerRbg % 2 ^ 32)) ≤ num := by
      rw [← hr]
      exact (Nat.mul_le_mul_left _ (Nat.div_mul_le_self _ _)).trans (Nat.mul_div_le _ _)
    have hmac := overheadMac_bounds h.numerology_le
    have hd := FhConfig.dyn_le h.dyn
    have hboth : ueOverhead cfg numerology + overheadLeft cfg numerology ≤ 20480 := by
      rw [ueOverhead, overheadLeft]
      omega
    have hover := Nat.mul_le_mul_left kp hboth
    rw [Nat.mul_add] at hover
    calc kp * (12 * bitwidth cfg order * (regs * (numRbPerRbg % 2 ^ 32)) * dlRank + ueOverhead cfg
        numerology) = 12 * kp * bitwidth cfg order * dlRank * (regs * (numRbPerRbg % 2 ^ 32)) +
            kp * ueOverhead cfg numerology := by ring
      _ ≤ num + kp * ueOverhead cfg numerology := Nat.add_le_add_right hdata _
      _ ≤ slotShare cfg s numerology := by omega

/-- Where the throughputs keep to the share whatever the conversion gives outside its range, the
share is large enough. -/
theorem large_of_shareKept (hkept : ∀ conv, IsConversion conv →
      ShareKept conv cfg s bwpId mcs numerology numRbPerRbg dlRank) :
    LargeShare cfg s numerology numRbPerRbg ues.length dlRank := by
  obtain ⟨hov, hovlt⟩ := ueOverhead_bounds h
  have hues : ues.length % 2 ^ 16 < 2 ^ 16 := Nat.mod_lt _ (by decide)
  -- a conversion that is defined in its range only
  let conv : Int → Option Nat := fun x => if 0 ≤ x ∧ x < 2 ^ 32 then some x.toNat else none
  have hconv : IsConversion conv := fun n hn => by
    have hin : (0 : Int) ≤ n ∧ (n : Int) < 2 ^ 32 := by omega
    show (if _ then _ else _) = _
    rw [if_pos hin, Int.toNat_natCast]
  obtain ⟨fuel, kp, regs, hquery, -⟩ := hkept conv hconv
  rw [h.query] at hquery
  obtain ⟨kp', hcount, hquery⟩ := bind_eq_some_iff.1 hquery
  obtain ⟨regs', hregs, hpair⟩ := map_eq_some_iff.1 hquery
  obtain ⟨rfl, rfl⟩ := Prod.mk.inj hpair
  have hpos : 0 < slotShare cfg s numerology := by
    refine Nat.pos_of_ne_zero fun hzero => ?_
    rw [hzero, countUes_zero] at hcount
    cases hcount
  have hkp : bornUes cfg s numerology ues.length = kp' :=
    (countUes_eq_some hpos hov hovlt hues hcount).symm
  have hkplt : kp' < 2 ^ 16 := by
    rw [← hkp, bornUes, bearable]
    exact (Nat.min_le_left _ _).trans_lt hues
  have htaken := takenAway_eq h.numerology_le h.dyn hkplt
  rw [maxRegs] at hregs
  obtain ⟨num, hnum, hregs⟩ := bind_eq_some_iff.1 hregs
  have hin : 0 ≤ (slotShare cfg s numerology : Int) - takenAway cfg numerology kp' ∧
      (slotShare cfg s numerology : Int) - takenAway cfg numerology kp' < 2 ^ 32 := by
    by_contra hout
    rw [show conv _ = none from if_neg hout] at hnum
    cases hnum
  rw [htaken] at hin
  refine ⟨hpos, ?_, ?_⟩
  · rw [hkp]
    intro hzero
    rw [if_pos hzero] at hin
    omega
  · rw [hkp]
    intro hne
    rw [if_neg hne] at hin hregs
    obtain ⟨_, hguard, -⟩ := bind_eq_some_iff.1 hregs
    have hdiv : 12 * kp' * (if cfg.enableModComp then order else 32) * dlRank % 2 ^ 32 ≠ 0 ∧
        numRbPerRbg % 2 ^ 32 ≠ 0 := by
      by_contra hnot
      have hfail :
        (guard (12 * kp' * (if cfg.enableModComp then order else 32) * dlRank % 2 ^ 32 ≠ 0 ∧
        numRbPerRbg % 2 ^ 32 ≠ 0) : Option Unit) = none := if_neg hnot
      cases hfail.symm.trans hguard
    refine ⟨by omega, by omega, Nat.pos_of_ne_zero ?_, Nat.pos_of_ne_zero hdiv.2⟩
    rintro rfl
    exact hdiv.1 (by simp)

end

end share

/-! ## Both limits -/

/-- Where every query finds at least as many active bandwidth parts as ask, what is granted at a
numerology is at most the capacity; and the throughputs of the UEs that are counted keep to the
share, whatever a conversion out of range gives, exactly where the share is large enough. -/
theorem fronthaul_limits (cfg : FhConfig) (hcap : cfg.fhCapacity < 2 ^ 32) :
    (∀ bwps numerology B c₀ c, Lts.Run (CellStep cfg) Lts.anyStep ⟨FhControl.init bwps, [], []⟩ c₀ →
      (∀ e ∈ c₀.allocThrPerBwp, ¬ ofNumerology bwps numerology e.1) →
      Lts.Run (CellStep cfg) (ShareGuard bwps numerology B) c₀ c →
      total (ofNumerology bwps numerology) c.granted ≤ cfg.fhCapacity * 10 ^ 6) ∧
    ∀ s bwpId mcs order numerology numRbPerRbg dlRank ues,
      Found cfg s bwpId mcs order numerology numRbPerRbg ues →
      (LargeShare cfg s numerology numRbPerRbg ues.length dlRank →
        12 * bornUes cfg s numerology ues.length * bitwidth cfg order * dlRank < 2 ^ 32 →
        ∀ conv, IsConversion conv → ShareKept conv cfg s bwpId mcs numerology numRbPerRbg dlRank) ∧
      ((∀ conv, IsConversion conv → ShareKept conv cfg s bwpId mcs numerology numRbPerRbg dlRank) →
        LargeShare cfg s numerology numRbPerRbg ues.length dlRank) :=
  ⟨fun _ _ _ _ _ hreach hstart hrun => granted_le_of_run hcap hreach hstart hrun,
    fun _ _ _ _ _ _ _ _ h => ⟨fun hlarge hexact _ hconv => shareKept_of_large h hlarge hexact hconv,
      large_of_shareKept h⟩⟩

theorem run_of_acts {cfg : FhConfig} {c c' : FhCell} (as : List CellAction)
    (h : execs anyStep (cellAct cfg) c as = some c') : Run (CellStep cfg) anyStep c c' :=
  run_of_execs id h

/-- A cell with two bandwidth parts of numerology 0. -/
def twoBwps : List Bwp := [⟨0, 0, 1⟩, ⟨1, 0, 1⟩]

/-- Both bandwidth parts have a UE with data. -/
def bothActive : FhCell :=
  ⟨doSetActiveUe (doSetActiveUe (FhControl.init twoBwps) 0 1 100) 1 1 100, [], []⟩

/-- A capacity that is large enough. -/
def tenTerabit : FhConfig := ⟨10000000, 32, 2, true⟩

/-- Both bandwidth parts are active before they ask, and the share of each is large enough. -/
theorem fronthaul_limits_two :
    (∃ c, Lts.Run (CellStep tenTerabit) (ShareGuard twoBwps 0 [0, 1]) bothActive c ∧
      c.granted = [(0, 15072000), (1, 15072000)] ∧
      total (ofNumerology twoBwps 0) c.granted ≤ 10000000 * 10 ^ 6) ∧
    ∀ conv, IsConversion conv → ShareKept conv tenTerabit bothActive.control 0 5 0 1 1 := by
  obtain ⟨hslot, hshare⟩ := fronthaul_limits tenTerabit (by decide)
  constructor
  · have hactive : Run (CellStep tenTerabit) anyStep ⟨FhControl.init twoBwps, [], []⟩ bothActive :=
      run_of_acts [.control (.setActiveUe 0 1 100), .control (.setActiveUe 1 1 100)] rfl
    have hasks : ∃ c, execs (ShareGuard twoBwps 0 [0, 1]) (cellAct tenTerabit) bothActive
        [.doesAllocationFit 0 5 100 1, .doesAllocationFit 1 5 100 1] = some c ∧
          c.granted = [(0, 15072000), (1, 15072000)] := ⟨_, rfl, rfl⟩
    obtain ⟨c, hc, hgranted⟩ := hasks
    have hrun : Run (CellStep tenTerabit) (ShareGuard twoBwps 0 [0, 1]) bothActive c :=
      run_of_execs id hc
    exact ⟨c, hrun, hgranted,
      hslot twoBwps 0 [0, 1] bothActive c hactive (fun e he => nomatch he) hrun⟩
  · exact (hshare bothActive.control 0 5 4 0 1 1 [1] ⟨rfl, by decide, rfl, rfl,
      rfl, by decide, by decide⟩).1 ⟨by decide +kernel, by decide +kernel, by decide +kernel⟩
      (by decide +kernel)

/-- The conversion by remainder, which processors make of it. -/
def byRemainder (x : Int) : Option Nat := some (x % 2 ^ 32).toNat

/-- One bandwidth part is active alone and gets all of the capacity, then the other gets half of it.
One UE gets more than the share where the overheads are added to it. -/
theorem fronthaul_exceeded :
    (¬ ∀ cfg bwps numerology c₀ c, cfg.fhCapacity < 2 ^ 32 →
      Lts.Run (CellStep cfg) Lts.anyStep ⟨FhControl.init bwps, [], []⟩ c₀ →
      (∀ e ∈ c₀.allocThrPerBwp, ¬ ofNumerology bwps numerology e.1) →
      Lts.Run (CellStep cfg) Lts.anyStep c₀ c →
      total (ofNumerology bwps numerology) c.granted ≤ cfg.fhCapacity * 10 ^ 6) ∧
    ¬ ∀ cfg s bwpId mcs order numerology numRbPerRbg dlRank ues,
      Found cfg s bwpId mcs order numerology numRbPerRbg ues → ∀ conv, IsConversion conv →
        ShareKept conv cfg s bwpId mcs numerology numRbPerRbg dlRank := by
  constructor
  · intro h
    have hrun : Run (CellStep ⟨100, 32, 2, false⟩) anyStep ⟨FhControl.init twoBwps, [], []⟩ _ :=
      run_of_acts [.control (.setActiveUe 0 1 100), .doesAllocationFit 0 5 100 1,
        .doesAllocationFit 0 5 100 1,
        .control (.setActiveUe 1 1 100), .doesAllocationFit 1 5 100 1] rfl
    have hle := h ⟨100, 32, 2, false⟩ twoBwps 0 _ _ (by decide) (Run.refl _)
      (fun e he => nomatch he) hrun
    exact absurd hle (by decide +kernel)
  · intro h
    have hfound : Found ⟨1000, 32, 2, true⟩ (doSetActiveUe (FhControl.init [⟨0, 0, 1⟩]) 0 1 100) 0 5
      4 0 1 [1] :=
      ⟨rfl, by decide, rfl, rfl, rfl, by decide, by decide⟩
    have hconv : IsConversion byRemainder := fun n hn => by
      rw [byRemainder]
      congr 1
      omega
    obtain ⟨fuel, kp, regs, hquery, hsum⟩ := h _ _ _ _ _ _ _ 1 _ hfound byRemainder hconv
    rw [hfound.query] at hquery
    obtain ⟨kp', hcount, hquery⟩ := bind_eq_some_iff.1 hquery
    obtain rfl :
      kp' = 1 := (countUes_eq_some (by decide) (by decide) (by decide) (by decide) hcount).trans
      (by decide +kernel)
    have hregs : maxRegs byRemainder ⟨1000, 32, 2, true⟩ 0 1000000 1 4 1 1 = some 21046 := by
      decide +kernel
    have hshare : slotShare ⟨1000, 32, 2, true⟩ (doSetActiveUe (FhControl.init [⟨0, 0, 1⟩]) 0 1 100)
      0 =
      1000000 := by decide +kernel
    rw [hshare, hregs] at hquery
    obtain ⟨rfl, rfl⟩ := Prod.mk.inj (some.inj hquery)
    have hle := hsum [1020480000] rfl fun t ht => ⟨21046, Nat.le_refl _, by
      rw [mem_singleton.1 ht]
      decide +kernel⟩
    exact absurd hle (by decide +kernel)

end OranNs3.Fh
