import OranNs3.Lib.Pool
import OranNs3.Sched.Model

/-!
# OFDMA schedulers

What `NrMacSchedulerOfdma` (`nr-mac-scheduler-ofdma.cc`) uses in both directions. A `UePtr` is the
RNTI of the UE, which `m_ueMap` has once. The number of symbols that the policy gives to a beam uses
floating point, and is a parameter.
-/

namespace OranNs3.Ofdma

open List

/-- `FTResources`. -/
structure FTResources where
  rbg : Nat
  sym : Nat
deriving DecidableEq

/-- The mask of the RBGs that may be used. It has a bit for each RBG of the bandwidth, a `uint16_t`.
-/
structure RbgMask where
  bits : List Bool
  size : bits.length < 2 ^ 16

variable (m : RbgMask)

/-- `remainingRbgSet` at first, in the order of the set. -/
def RbgMask.rbgs : List Nat := (List.range m.bits.length).filter fun i =>
    m.bits.getD i false

/-- `ActiveUeMap`: the UEs of each beam, with the bytes that they have to send. A UE is active in
its own beam only (`ComputeActiveUe`). -/
structure ActiveUeMap where
  beams : BeamMap (Nat × Nat)
  keys : (beams.map Prod.fst).Nodup
  nodup : (beams.flatMap fun b => b.2.map Prod.fst).Nodup

abbrev BeamSymbolMap := List (BeamId × Nat)

/-- The symbols of a beam. -/
def symOf (m : BeamSymbolMap) (b : BeamId) : Nat := ((Keyed.find? Prod.fst b m).map Prod.snd).getD 0

/-- `GetSymPerBeam`: what the policy returns, with an entry for each beam. -/
def getSymPerBeam (ret : BeamSymbolMap) (active : ActiveUeMap) : BeamSymbolMap :=
  active.beams.foldl (fun ret b => if b.1 ∈ ret.map Prod.fst then ret else ret ++ [(b.1, 0)]) ret

/-! ## The mask -/

variable {rbg : Nat}

theorem RbgMask.nodup_rbgs : m.rbgs.Nodup := List.nodup_range.filter _

theorem RbgMask.mem_rbgs (m : RbgMask) : rbg ∈ m.rbgs ↔ m.bits[rbg]? = some true := by
  rw [RbgMask.rbgs, mem_filter, mem_range, getD_eq_getElem?_getD]
  cases h : m.bits[rbg]? with
  | none => simp
  | some v =>
    obtain ⟨hlt, _⟩ := List.getElem?_eq_some_iff.1 h
    simp [hlt]

theorem RbgMask.length_rbgs : m.rbgs.length < 2 ^ 16 := by
  have := length_filter_le (fun i => m.bits.getD i false) (List.range m.bits.length)
  rw [length_range] at this
  exact Nat.lt_of_le_of_lt this m.size

end OranNs3.Ofdma
