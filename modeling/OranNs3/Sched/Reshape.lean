import Mathlib.Data.Rat.Cast.Order
import OranNs3.Sched.Model

/-!
# Reshaping of a retransmission

`NrMacSchedulerTdma::DoReshapeAllocation` (`nr-mac-scheduler-tdma.cc`) for the DL and one DCI, as
`ScheduleDlHarq` calls it. The DCI gets the free RBGs of the best sub-bands, and then fewer of them
or more symbols, until it has as many resources as before. A mean MCS is a quotient of small
numbers, for which the comparisons of `double` are exact.
-/

namespace OranNs3

/-- What is read of a UE: `m_dlMcs`, and the MCS of the sub-band of an RBG, unless `m_rbgToSb` is
empty. -/
structure UeMcs where
  dlMcs : Nat
  sbMcs : Option (Nat → Nat)

/-- The lambda function `computeMcs`, where the UE has sub-bands. -/
def computeMcs (dlMcs : Nat) (sbMcs : Nat → Nat) (rbgs : List Nat) : Rat :=
  if rbgs.isEmpty then dlMcs else ((rbgs.map sbMcs).sum : Rat) / rbgs.length

/-- The loop that removes RBGs from the back of `allocatedRbgs`, which is the front here. -/
def removeWorstRbgs (dlMcs dciMcs : Nat) (sbMcs : Nat → Nat) (numResources availableSymbols : Nat)
    (prevMcs : Rat) : List Nat → List Nat
  | [] => []
  | rbg :: rbgs =>
    if numResources ≤ rbgs.length * availableSymbols then
      if min dciMcs dlMcs ≤ sbMcs rbg then rbg :: rbgs
      else if computeMcs dlMcs sbMcs rbgs ≤ prevMcs then rbg :: rbgs
      else removeWorstRbgs dlMcs dciMcs sbMcs numResources availableSymbols prevMcs rbgs
    else rbg :: rbgs

/-- The loop that removes RBGs or adds symbols until the resources match, for at most `fuel`
iterations. The symbols have eight bits, so it does not end where the resources are too many for
them. -/
def matchResources (numResources : Nat) : Nat → Nat → List Nat → Option (Nat × List Nat)
  | 0, _, _ => none
  | fuel + 1, minSymbols, rbgs =>
    if numResources ≠ minSymbols * rbgs.length ∧ rbgs ≠ [] then
      if minSymbols * rbgs.length < numResources then matchResources numResources fuel
        ((minSymbols + 1) % 256) rbgs
      else matchResources numResources fuel minSymbols rbgs.tail
    else some (minSymbols, rbgs)

/-- The RBGs that are free, the last one first, or the one of the worst sub-band. -/
def sortedRbgs (ue : UeMcs) (dci : Dci) (numResources availableSymbols : Nat)
    (bitmask : List Bool) : List Nat :=
  let rbgs := (List.range bitmask.length).filter fun i => bitmask.getD i false
  match ue.sbMcs with
  | none => rbgs.reverse
  | some sbMcs =>
    removeWorstRbgs ue.dlMcs dci.mcs sbMcs numResources availableSymbols
      (computeMcs ue.dlMcs sbMcs rbgs) (rbgs.insertionSort fun a b => sbMcs b ≤ sbMcs a).reverse

/-- `DoReshapeAllocation` for one DCI. The first number of symbols is a quotient that is rounded up,
and 0 where no RBG is free. -/
def doReshapeAllocation (ues : Nat → UeMcs) (fuel : Nat) (dci : Dci)
    (startingSymbol numSymbols : Nat) (bitmask : List Bool) : Option Reshaped :=
  let numResources := dci.numSym * dci.rbgBitmask.count true
  let rbgs := sortedRbgs (ues dci.rnti) dci numResources numSymbols bitmask
  match matchResources numResources fuel ((numResources + rbgs.length - 1) / rbgs.length % 256)
    rbgs with
  | none => none
  | some (minSymbols, rbgs) =>
    if minSymbols ≤ numSymbols ∧ minSymbols * rbgs.length = numResources then
      some ⟨startingSymbol, minSymbols, (List.range bitmask.length).map fun i => decide (i ∈ rbgs),
        (startingSymbol + minSymbols) % 256, numSymbols - minSymbols, bitmask⟩
    else none

theorem doReshapeAllocation_some {ues : Nat → UeMcs} {fuel startingSymbol numSymbols : Nat}
    {dci : Dci} {bitmask : List Bool} {r : Reshaped}
    (h : doReshapeAllocation ues fuel dci startingSymbol numSymbols bitmask = some r) :
    r.symStart = startingSymbol ∧ r.numSym ≤ numSymbols ∧
      r.startingSymbol = (startingSymbol + r.numSym) % 256 ∧ r.symAvail = numSymbols - r.numSym ∧
        r.bitmask = bitmask := by
  unfold doReshapeAllocation at h
  dsimp only at h
  split at h
  · cases h
  · split at h
    next hfits =>
      cases h
      exact ⟨rfl, hfits.1, rfl, rfl, rfl⟩
    · cases h

end OranNs3
