import OranNs3.Sched.Ofdma

/-!
# OFDMA allocation in the DL

`AssignDLRBG` of `NrMacSchedulerOfdma` (`nr-mac-scheduler-ofdma.cc`), as steps: `Control` says which
loop is entered next, and a step is one attempt to allocate, one RBG that is taken away, or one
decision between them.

A subclass overrides the hooks and the order of the UEs. What it has of its own, with its random
numbers and the state of the fronthaul control, is `μ`; a hook may change that and the transport
block size of its UE. What is computed in floating point is a parameter.
-/

namespace OranNs3.Ofdma

open Function (update)

/-! ## Data -/

/-- What is known of the sub-bands of a UE: `m_rbgToSb`, and the CQIs of `m_dlSbMcsInfo`. -/
structure Subbands where
  rbgToSb : List Nat
  cqi : List Nat
deriving DecidableEq

/-- The fields of a UE (`NrMacSchedulerUeInfo`) that are used in the DL. -/
structure DlUe where
  dlRBG : List Nat
  dlSym : List Nat
  dlTbSize : Nat
  dlMcs : Nat
  dlRank : Nat
  subbands : Subbands
  fhMaxMcsAssignable : Option Nat
deriving DecidableEq

/-- The UEs by their RNTI. -/
abbrev DlTable := Nat → DlUe

/-- `NrFhControl::FhControlMethod`. -/
inductive FhControlMethod
  | dropping
  | postponing
  | optimizeMcs
  | optimizeRBs
deriving DecidableEq

variable (μ : Type)

/-- `m_nrFhSchedSapProvider`, with the order in which `std::shuffle` leaves the UEs. -/
structure Fronthaul where
  method : FhControlMethod
  getMaxRegAssignable : Nat → Nat → Nat → μ → Nat
  getMaxMcsAssignable : Nat → Nat → Nat → μ → Nat
  doesAllocationFit : Nat → Nat → Nat → μ → Bool × μ
  shuffle : Shuffle

/-- A hook: from a UE, what it has got and what is assigned in all, its new transport block size. -/
abbrev DlHook := DlTable → Nat → FTResources → FTResources → μ → Nat × μ

/-- The scheduler. `sortByTbSize` is the order of UEs of equal size, which `std::sort` leaves open.
-/
structure DlConfig where
  dlBitmask : RbgMask
  wideband : Bool
  activeDlAi : Bool
  symPerBeam : Nat → ActiveUeMap → DlTable → μ → BeamSymbolMap
  getDlMcs : DlUe → Nat
  /-- `currentTbSize < previousTbSize * 0.99`. -/
  lowered : Nat → Nat → Bool
  callNotifyDlFn : DlTable → List (Nat × Nat) → μ → μ
  sortUeVector : DlTable → List (Nat × Nat) → μ → List (Nat × Nat) × μ
  sort_perm : ∀ ues ueVector m, (sortUeVector ues ueVector m).1.Perm ueVector
  beforeDlSched : DlTable → Nat → FTResources → μ → μ
  assignedDlResources : DlHook μ
  notAssignedDlResources : DlHook μ
  sortByTbSize : Shuffle
  fronthaul : Option (Fronthaul μ)

/-- Before a beam, before the loop over `remainingRbgSet`, at a UE of the vector in it (with the
size that the set had), after it, in the loop that reaps the RBGs of a UE, before the fronthaul
control, in its loop over the UEs, in the loop that takes the RBGs of a UE away there, or at the
end. -/
inductive Control
  | nextBeam
  | schedule
  | attempt (prevRemaining : Nat) (schedInfoIt : List (Nat × Nat))
  | check
  | reap (rnti : Nat)
  | fronthaul
  | release (fhUeVector : List (Nat × Nat))
  | drop (rnti : Nat) (fhUeVector : List (Nat × Nat))
  | finished
deriving DecidableEq

/-- The variables: `todo` are the beams that follow, and `beam` is the present one. -/
structure DlState where
  ues : DlTable
  metrics : μ
  todo : BeamMap (Nat × Nat)
  beam : List (Nat × Nat)
  beamSym : Nat
  ueVector : List (Nat × Nat)
  remaining : List Nat
  available : List Bool
  assigned : FTResources
  control : Control

section Model

variable {μ : Type} (cfg : DlConfig μ)

/-! ## One RBG more or less -/

/-- The CQI of the sub-band of an RBG; `at` throws where there is none. -/
def Subbands.cqiAt (sb : Subbands) (rbg : Nat) : Except SchedError Nat :=
  match sb.rbgToSb[rbg]? with
  | none => .error .outOfRange
  | some i =>
    match sb.cqi[i]? with
    | none => .error .outOfRange
    | some c => .ok c

variable (s : DlState μ)

/-- `AllocateCurrentResourceToUe`. The elements of `m_dlSym` have 8 bits. -/
def DlState.allocate (rnti rbg : Nat) : DlState μ :=
  { s with
    ues := update s.ues rnti
      { s.ues rnti with
        dlRBG := (s.ues rnti).dlRBG ++ List.replicate s.beamSym rbg
        dlSym := (s.ues rnti).dlSym ++ (List.range s.beamSym).map (· % 256) }
    assigned := ⟨s.assigned.rbg + 1, s.beamSym⟩
    available := s.available.set rbg false }

/-- `DeallocateCurrentResourceFromUe`. A size cannot become negative, and it is asserted that
something is assigned. -/
def DlState.deallocate (rnti rbg : Nat) : Except SchedError (DlState μ) :=
  let ue := s.ues rnti
  if ue.dlRBG.length < s.beamSym ∨ ue.dlSym.length < s.beamSym then .error .outOfRange
  else if s.assigned.rbg = 0 then .error .assertion
  else .ok
    { s with
      ues := update s.ues rnti
        { ue with
          dlRBG := ue.dlRBG.take (ue.dlRBG.length - s.beamSym)
          dlSym := ue.dlSym.take (ue.dlSym.length - s.beamSym) }
      assigned := ⟨s.assigned.rbg - 1, if s.assigned.rbg - 1 = 0 then 0 else s.assigned.sym⟩
      available := s.available.set rbg true }

/-- A hook is called for a UE. -/
def DlState.hook (h : DlHook μ) (s : DlState μ) (rnti : Nat) : DlState μ :=
  let r := h s.ues rnti ⟨s.beamSym, s.beamSym⟩ s.assigned s.metrics
  { s with ues := update s.ues rnti { s.ues rnti with dlTbSize := r.1 }, metrics := r.2 }

def emplace (rbg : Nat) (remaining : List Nat) : List Nat :=
  if rbg ∈ remaining then remaining else remaining.orderedInsert (· ≤ ·) rbg

/-! ## One attempt -/

variable (fh : Fronthaul μ) (s : DlState μ)

/-- `ShouldScheduleUeBasedOnFronthaul`. -/
def shouldScheduleUe (rnti : Nat) : Bool :=
  let maxAssignable := fh.getMaxRegAssignable (s.ues rnti).dlMcs rnti (s.ues rnti).dlRank s.metrics
  (s.ues rnti).dlRBG.length + s.beamSym ≤ max maxAssignable (5 * s.beamSym % 2 ^ 32)

/-- Whether `AdvanceToNextUeToSchedule` stops at a UE. -/
def isToSchedule (ue : Nat × Nat) : Bool :=
  if max ue.2 10 ≤ (s.ues ue.1).dlTbSize then false
  else match cfg.fronthaul with
    | none => true
    | some fh => if fh.method = .optimizeRBs then shouldScheduleUe fh s ue.1 else true

/-- `AdvanceToNextUeToSchedule`, from where `schedInfoIt` is. -/
def advanceToNextUe (schedInfoIt : List (Nat × Nat)) : List (Nat × Nat) :=
  schedInfoIt.dropWhile fun ue => !isToSchedule cfg s ue

/-- The RBG with the best CQI, and the first of these. -/
def bestRbg (sb : Subbands) (remaining : List Nat) : Except SchedError (Option Nat × Nat) :=
  remaining.foldlM (fun best rbg => (sb.cqiAt rbg).map fun c =>
    if best.2 < c then (some rbg, c) else best) (none, 0)

/-- The RBG that is tried for a UE, if any. -/
def selectRbg (rnti : Nat) : Except SchedError (Option Nat) :=
  let ue := s.ues rnti
  if ue.subbands.cqi = [] ∨ cfg.wideband then
    match s.remaining with
    | [] => .error .outOfRange
    | rbg :: _ => .ok (some rbg)
  else do
    let best ← bestRbg ue.subbands s.remaining
    match ue.dlRBG with
    | [] => return best.1
    | first :: _ =>
      let bestCqi ← ue.subbands.cqiAt first
      return if best.2 + 4 < bestCqi then none else best.1

/-- `AttemptAllocationOfCurrentResourceToUe`: whether it succeeds. -/
def attempt (rnti : Nat) : Except SchedError (DlState μ × Bool) := do
  match ← selectRbg cfg s rnti with
  | none => return (s, false)
  | some rbg =>
    let allocated := (s.allocate rnti rbg).hook cfg.assignedDlResources rnti
    if cfg.lowered (allocated.ues rnti).dlTbSize (s.ues rnti).dlTbSize ∧
      0 < cfg.getDlMcs (allocated.ues rnti) then do
      let undone ← allocated.deallocate rnti rbg
      return (undone.hook cfg.assignedDlResources rnti, false)
    else return ({ allocated with remaining := allocated.remaining.erase rbg }, true)

/-! ## Steps -/

/-- The variables of a beam at its beginning. -/
def DlState.enter (symPerBeam : BeamSymbolMap) (beam : BeamId × List (Nat × Nat)) : DlState μ :=
  let beamSym := symOf symPerBeam beam.1
  { s with
    beam := beam.2
    beamSym
    ueVector := beam.2
    remaining := cfg.dlBitmask.rbgs
    available := cfg.dlBitmask.bits
    assigned := ⟨0, 0⟩
    metrics := beam.2.foldl (fun m ue => cfg.beforeDlSched s.ues ue.1 ⟨beamSym, beamSym⟩ m)
      s.metrics }

/-- `NotAssignedDlResources` for some UEs. -/
def DlState.notAssigned (ueVector : List (Nat × Nat)) : DlState μ :=
  ueVector.foldl (fun s ue => s.hook cfg.notAssignedDlResources ue.1) s

/-- The limit of the MCS that the fronthaul control sets for a UE. -/
def limitMcs (ue : Nat × Nat) : DlState μ :=
  let u := s.ues ue.1
  if u.dlRBG = [] then s
  else
    let maxMcsAssignable := fh.getMaxMcsAssignable u.dlRBG.length ue.1 u.dlRank s.metrics
    { s with ues := update s.ues ue.1 { u with
      fhMaxMcsAssignable := some (min (cfg.getDlMcs u) maxMcsAssignable) } }

/-- What the fronthaul control does before RBGs are taken away for it. -/
def enterFronthaul : DlState μ :=
  let s := if fh.method = .optimizeMcs then s.beam.foldl (limitMcs cfg fh) s else s
  if fh.method = .dropping then { s with control := .nextBeam }
  else { s with control := .release (fh.shuffle.app s.ueVector) }

/-- One step. -/
def DlState.step (symPerBeam : BeamSymbolMap) (s : DlState μ) : Except SchedError (DlState μ) :=
  match s.control with
  | .nextBeam =>
    match s.todo with
    | [] => .ok { s with control := .finished }
    | beam :: todo =>
      if cfg.dlBitmask.rbgs = [] then .error .assertion
      else .ok { s.enter cfg symPerBeam beam with todo, control := .schedule }
  | .schedule =>
    if s.remaining = [] then .ok { s with control := .check }
    else
      let metrics := if cfg.activeDlAi then cfg.callNotifyDlFn s.ues s.ueVector s.metrics
        else s.metrics
      let r := cfg.sortUeVector s.ues s.ueVector metrics
      .ok { s with ueVector := r.1, metrics := r.2, control := .attempt s.remaining.length r.1 }
  | .attempt prevRemaining schedInfoIt =>
    match advanceToNextUe cfg s schedInfoIt with
    | [] => .ok { s with
        control := if prevRemaining = s.remaining.length then .check else .schedule }
    | (rnti, _) :: rest => do
      let r ← attempt cfg s rnti
      if r.2 then
        let s := r.1.notAssigned cfg (r.1.ueVector.filter fun ue => ue.1 ≠ rnti)
        return { s with
          control := if prevRemaining = s.remaining.length then .check else .schedule }
      else return { r.1 with control := .attempt prevRemaining rest }
  | .check =>
    let ueVector := (cfg.sortByTbSize.app s.ueVector).insertionSort fun a b =>
      (s.ues b.1).dlTbSize ≤ (s.ues a.1).dlTbSize
    match ueVector.getLast? with
    | none => .ok { s with ueVector, control := .fronthaul }
    | some ue =>
      if (s.ues ue.1).dlTbSize < 10 then .ok { s with ueVector, control := .reap ue.1 }
      else .ok { s with ueVector, control := .fronthaul }
  | .reap rnti =>
    match (s.ues rnti).dlRBG.getLast? with
    | some rbg => (s.deallocate rnti rbg).map fun s =>
      { s with remaining := emplace rbg s.remaining }
    | none =>
      let s := (s.hook cfg.assignedDlResources rnti).notAssigned cfg s.ueVector
      .ok { s with ueVector := s.ueVector.dropLast, control := .schedule }
  | .fronthaul =>
    match cfg.fronthaul with
    | none => .ok { s with control := .nextBeam }
    | some fh => .ok (enterFronthaul cfg fh s)
  | .release [] => .ok { s with control := .nextBeam }
  | .release (ue :: fhUeVector) =>
    match cfg.fronthaul with
    | none => .ok { s with control := .nextBeam }
    | some fh =>
      let u := s.ues ue.1
      if u.dlRBG = [] then .ok { s with control := .release fhUeVector }
      else
        let r := fh.doesAllocationFit (cfg.getDlMcs u) u.dlRBG.length u.dlRank s.metrics
        .ok { s with
          metrics := r.2, control := if r.1 then .release fhUeVector else .drop ue.1 fhUeVector }
  | .drop rnti fhUeVector =>
    match (s.ues rnti).dlRBG.getLast? with
    | some rbg => s.deallocate rnti rbg
    | none => .ok { s with control := .release fhUeVector }
  | .finished => .ok s

/-- The variables where `AssignDLRBG` is called. -/
def DlState.initial (active : ActiveUeMap) (ues : DlTable) (metrics : μ) : DlState μ :=
  { ues, metrics, todo := active.beams, beam := [], beamSym := 0, ueVector := [],
    remaining := [], available := [], assigned := ⟨0, 0⟩, control := .nextBeam }

/-- So many steps, or as many as it takes to the end. -/
def runSteps (symPerBeam : BeamSymbolMap) : Nat → DlState μ → Except SchedError (DlState μ)
  | 0, s => .ok s
  | n + 1, s => s.step cfg symPerBeam >>= runSteps symPerBeam n

/-- What is returned, where the steps have come to the end. -/
def outcome {α : Type} (f : DlState μ → α) : Except SchedError (DlState μ) →
    Option (Except SchedError α)
  | .error e => some (.error e)
  | .ok s => if s.control = .finished then some (.ok (f s)) else none

/-- `AssignDLRBG`, with a number of steps that it may take. -/
def assignDLRBG (symAvail : Nat) (active : ActiveUeMap) (ues : DlTable) (metrics : μ) (fuel : Nat) :
    Option (Except SchedError (DlTable × BeamSymbolMap)) :=
  let symPerBeam := getSymPerBeam (cfg.symPerBeam symAvail active ues metrics) active
  outcome (fun s => (s.ues, symPerBeam))
    (runSteps cfg symPerBeam fuel (.initial active ues metrics))

end Model

end OranNs3.Ofdma
