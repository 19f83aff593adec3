import OranNs3.Lib.SetMap
import OranNs3.Lib.Fallible
import OranNs3.Phy.Pattern
import OranNs3.Sched.HarqVector

/-!
# The fronthaul control of a cell

`NrFhControl` (`nr-fh-control.cc`): which UEs have data waiting, by bandwidth part
(`m_activeUesPerBwp`) and with the size of their queue under a key paired from bandwidth part and
RNTI (`m_rntiQueueSize`), and which UEs have a retransmission waiting (`m_activeHarqUesPerBwp`). The
schedulers of the bandwidth parts add to them and report their allocations a nanosecond after they
are made; the PHYs report the end of their slots. The throughput that an allocation needs is
floating point: here it is a parameter. What only the traces of dropped data and the fitting of
allocations use is left out.
-/

namespace OranNs3.Fh

open Phy (SfnSf)

/-- Where the fronthaul control stops: a lookup by `at()` finds no entry, or an assertion or
`NS_ABORT_MSG` is reached. -/
inductive FhError
  | outOfRange
  | abort
deriving DecidableEq

/-- `Cantor`: the products are of type `int`, so they wrap at `2 ^ 32` into its
range, and the result is an `uint32_t`. -/
def cantor (x1 x2 : Nat) : Nat :=
  (((((x1 + x2) * (x1 + x2 + 1) : Nat) : Int).bmod (2 ^ 32)).tdiv 2 + x2).emod (2 ^ 32) |>.toNat

/-- The state of `NrFhControl`. The SAP users are what is asked of them: the
numerology of a PHY, the RBs per RBG of a scheduler. -/
structure FhControl where
  fhPhySapUser : List (Nat × Nat)
  fhSchedSapUser : List (Nat × Nat)
  numerologyPerBwp : List (Nat × Nat)
  waitingSlotPerBwp : List (Nat × SfnSf)
  rntiQueueSize : List (Nat × Nat) := []
  activeUesPerBwp : SetMap Nat Nat := []
  activeHarqUesPerBwp : SetMap Nat Nat := []
  reqFhDlThrTracedValuePerBwp : List (Nat × Nat) := []
  rbsAirTracedValue : List (Nat × Nat) := []
deriving DecidableEq

/-- A bandwidth part as it is configured: its number, numerology and RBs per RBG. -/
structure Bwp where
  id : Nat
  numerology : Nat
  numRbPerRbg : Nat
deriving DecidableEq

/-- The control of a cell with its bandwidth parts (`SetFhNumerology`, `SetNrFhSchedSapUser`,
`SetNrFhPhySapUser`), whose numbers are pairwise distinct. The SAP users are inserted as pairs with
a key of type `uint8_t`; of two with one key `insert` keeps the first, which a lookup finds. -/
def FhControl.init (bwps : List Bwp) : FhControl where
  fhPhySapUser := bwps.map fun b => (b.id % 2 ^ 8, b.numerology)
  fhSchedSapUser := bwps.map fun b => (b.id % 2 ^ 8, b.numRbPerRbg)
  numerologyPerBwp := bwps.map fun b => (b.id, b.numerology)
  waitingSlotPerBwp := bwps.map fun b => (b.id, ⟨0, 0, 0, b.numerology⟩)

/-! ## Maps -/

section maps
variable {β : Type}

/-- A lookup by `at()`. -/
def lookupAt (m : List (Nat × β)) (k : Nat) : Except FhError β :=
  match Keyed.find? Prod.fst k m with
  | some e => .ok e.2
  | none => .error .outOfRange

/-- An assignment to the entry of a key, which is made if there is none. -/
def assign (m : List (Nat × β)) (k : Nat) (v : β) : List (Nat × β) :=
  if k ∈ m.map (·.1) then Keyed.modify Prod.fst k (fun e => (e.1, v)) m else m ++ [(k, v)]

/-- `m[k] += v` in `w` bits. -/
def addTo (w : Nat) (m : List (Nat × Nat)) (k v : Nat) : List (Nat × Nat) :=
  assign m k ((((Keyed.find? Prod.fst k m).map (·.2)).getD 0 + v) % 2 ^ w)

end maps

/-! ## The operations -/

section operations
variable (fhThr : Nat → Nat → Nat → Nat → Nat) (s : FhControl) (bwpId : Nat)

def doSetActiveUe (rnti bytes : Nat) : FhControl :=
  { s with
    activeUesPerBwp := s.activeUesPerBwp.emplace bwpId rnti
    rntiQueueSize := assign s.rntiQueueSize (cantor bwpId rnti) bytes }

def doSetActiveHarqUes (rnti : Nat) : FhControl :=
  { s with activeHarqUesPerBwp := s.activeHarqUesPerBwp.emplace bwpId rnti }

/-- `GetFhThr`, by the throughput `fhThr` of a numerology, an MCS, a number of
REGs and a rank. -/
def getFhThr (mcs nRegs dlRank : Nat) : Except FhError Nat := do
  let numerology ← lookupAt s.fhPhySapUser bwpId
  let configured ← lookupAt s.numerologyPerBwp bwpId
  if numerology ≠ configured then throw .abort
  return fhThr numerology mcs nRegs dlRank

/-- The traces of an allocation. -/
def updateTraces (dci : Dci) : Except FhError FhControl := do
  let numRbPerRbg ← lookupAt s.fhSchedSapUser bwpId
  let numRbs := dci.rbgBitmask.count true * numRbPerRbg
  let fhDlThr ← getFhThr fhThr s bwpId dci.mcs (dci.numSym * numRbs) dci.rank
  return { s with
    reqFhDlThrTracedValuePerBwp := addTo 64 s.reqFhDlThrTracedValuePerBwp bwpId fhDlThr
    rbsAirTracedValue := addTo 32 s.rbsAirTracedValue bwpId numRbs }

/-- A retransmission: whether there is an entry is asked of the RNTI, the entry
is that of the bandwidth part. -/
def updateRetx (rnti : Nat) : Except FhError FhControl :=
  if rnti ∈ s.activeHarqUesPerBwp.keys then do
    let _ ← lookupAt s.activeHarqUesPerBwp bwpId
    return { s with activeHarqUesPerBwp := s.activeHarqUesPerBwp.remove bwpId rnti }
  else return s

/-- New data, with the buffers of the UEs of the scheduler. -/
def updateNewData (ueMap : List (Nat × Nat)) (rnti : Nat) : Except FhError FhControl :=
  let c1 := cantor bwpId rnti
  if s.rntiQueueSize.isEmpty then do
    let ues ← lookupAt s.activeUesPerBwp bwpId
    if ues.isEmpty then return s else throw .abort
  else
    match Keyed.find? Prod.fst rnti ueMap with
    | none => throw .abort
    | some (_, totBuffer) =>
      if totBuffer > 0 then do
        let _ ← lookupAt s.rntiQueueSize c1
        return { s with rntiQueueSize := assign s.rntiQueueSize c1 totBuffer }
      else do
        let _ ← lookupAt s.activeUesPerBwp bwpId
        return { s with
          rntiQueueSize := Keyed.erase Prod.fst c1 s.rntiQueueSize
          activeUesPerBwp := s.activeUesPerBwp.remove bwpId rnti }

/-- The allocations that `DoUpdateActiveUesMap` looks at. -/
def isDlData (dci : Dci) : Bool := dci.type = .data && dci.format ≠ .ul

/-- One allocation of `DoUpdateActiveUesMap`. -/
def updateAlloc (ueMap : List (Nat × Nat)) (dci : Dci) : Except FhError FhControl :=
  if isDlData dci then do
    let s ← updateTraces fhThr s bwpId dci
    if dci.ndi = 0 then updateRetx s bwpId dci.rnti
    else updateNewData s bwpId ueMap dci.rnti
  else return s

def doUpdateActiveUesMap (allocation : List Dci) (ueMap : List (Nat × Nat)) :
    Except FhError FhControl :=
  allocation.foldlM (fun s => updateAlloc fhThr s bwpId ueMap) s

def getNumberActiveBwps : Nat :=
  (s.activeUesPerBwp.length +
    s.activeHarqUesPerBwp.countP fun e => e.1 ∉ s.activeUesPerBwp.keys) % 2 ^ 16

/-- `DoNotifyEndSlot`, without the values it traces. Slots of two numerologies
are not compared (`SfnSf::operator==`). -/
def doNotifyEndSlot (currentSlot : SfnSf) : Except FhError FhControl := do
  let waitingSlot ← lookupAt s.waitingSlotPerBwp bwpId
  if currentSlot.numerology ≠ waitingSlot.numerology then throw .abort
  if currentSlot = waitingSlot then
    match waitingSlot.addUint 1 with
    | none => throw .abort
    | some nextSlot => return { s with
        reqFhDlThrTracedValuePerBwp := Keyed.erase Prod.fst bwpId s.reqFhDlThrTracedValuePerBwp
        rbsAirTracedValue := Keyed.erase Prod.fst bwpId s.rbsAirTracedValue
        waitingSlotPerBwp := assign s.waitingSlotPerBwp bwpId nextSlot }
  else return s

end operations

/-- A call of the fronthaul control. -/
inductive Action
  | setActiveUe (bwpId rnti bytes : Nat)
  | setActiveHarqUes (bwpId rnti : Nat)
  | updateActiveUesMap (bwpId : Nat) (allocation : List Dci) (ueMap : List (Nat × Nat))
  | notifyEndSlot (bwpId : Nat) (currentSlot : SfnSf)
deriving DecidableEq

/-- What a call does. -/
def act (fhThr : Nat → Nat → Nat → Nat → Nat) (s : FhControl) : Action → Except FhError FhControl
  | .setActiveUe bwpId rnti bytes => .ok (doSetActiveUe s bwpId rnti bytes)
  | .setActiveHarqUes bwpId rnti => .ok (doSetActiveHarqUes s bwpId rnti)
  | .updateActiveUesMap bwpId allocation ueMap =>
    doUpdateActiveUesMap fhThr s bwpId allocation ueMap
  | .notifyEndSlot bwpId currentSlot => doNotifyEndSlot s bwpId currentSlot

/-- The bandwidth part of a call. -/
def Action.bwpId : Action → Nat
  | .setActiveUe bwpId _ _ | .setActiveHarqUes bwpId _ | .updateActiveUesMap bwpId _ _
  | .notifyEndSlot bwpId _ => bwpId

end OranNs3.Fh
