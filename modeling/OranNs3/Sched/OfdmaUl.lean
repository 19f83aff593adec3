import OranNs3.Sched.Ofdma

/-!
# OFDMA allocation in the UL

`AssignULRBG` of `NrMacSchedulerOfdma` (`nr-mac-scheduler-ofdma.cc`), and the one that
`NrMacSchedulerOfdmaUlTarget` has in its place (`nr-mac-scheduler-ofdma-ul-target.cc`).

As in the DL, a subclass overrides the hooks and the order of the UEs, and has `μ` of its own.
`RoundRobin` is `NrMacSchedulerOfdmaRR`, of which the latter is a subclass. `CalculateTbSize` uses
floating point, and is a parameter.
-/

namespace OranNs3.Ofdma

open Function (update)

/-! ## Data -/

/-- The fields of a UE (`NrMacSchedulerUeInfo`) that are used in the UL. -/
structure UlUe where
  ulRBG : List Nat
  ulSym : List Nat
  ulTbSize : Nat
  ulMcs : Nat
  ulRank : Nat
deriving DecidableEq

/-- The UEs by their RNTI. -/
abbrev UlTable := Nat → UlUe

/-- A hook: from a UE, what it has got and what is assigned in all, its new transport block size. -/
abbrev UlHook (μ : Type) := UlTable → Nat → FTResources → FTResources → μ → Nat × μ

/-- The scheduler. -/
structure UlConfig (μ : Type) where
  ulBitmask : RbgMask
  activeUlAi : Bool
  symPerBeam : Nat → ActiveUeMap → UlTable → μ → BeamSymbolMap
  callNotifyUlFn : UlTable → List (Nat × Nat) → μ → μ
  sortUeVector : UlTable → List (Nat × Nat) → μ → List (Nat × Nat) × μ
  sort_perm : ∀ ues ueVector m, (sortUeVector ues ueVector m).1.Perm ueVector
  beforeUlSched : UlTable → Nat → FTResources → μ → μ
  assignedUlResources : UlHook μ
  notAssignedUlResources : UlHook μ

/-! ## The round robin -/

/-- What `NrMacSchedulerOfdmaRR` is configured with. -/
structure RoundRobin where
  ulBitmask : RbgMask
  numRbPerRbg : Nat
  calculateTbSize : Nat → Nat → Nat → Nat
  symPerBeam : Nat → ActiveUeMap → UlTable → BeamSymbolMap

/-- `SortUeVector`, which is a stable sort, with `CompareUeWeightsUl`. -/
def sortUeVector (ues : UlTable) (ueVector : List (Nat × Nat)) : List (Nat × Nat) :=
  ueVector.insertionSort fun a b => (ues a.1).ulRBG.length ≤ (ues b.1).ulRBG.length

/-- `UpdateUlMetric`: the new `m_ulTbSize`. -/
def UlUe.updateUlMetric (cfg : RoundRobin) (ue : UlUe) : Nat :=
  if ue.ulRBG = [] then 0 else cfg.calculateTbSize ue.ulMcs ue.ulRank
    (ue.ulRBG.length * cfg.numRbPerRbg)

/-- Its hooks and its order. `BeforeUlSched` and `NotAssignedUlResources` do nothing. -/
def RoundRobin.config (cfg : RoundRobin) : UlConfig Unit where
  ulBitmask := cfg.ulBitmask
  activeUlAi := false
  symPerBeam := fun symAvail active ues _ => cfg.symPerBeam symAvail active ues
  callNotifyUlFn := fun _ _ m => m
  sortUeVector := fun ues ueVector m => (sortUeVector ues ueVector, m)
  sort_perm := fun _ ueVector _ => ueVector.perm_insertionSort _
  beforeUlSched := fun _ _ _ m => m
  assignedUlResources := fun ues rnti _ _ m => ((ues rnti).updateUlMetric cfg, m)
  notAssignedUlResources := fun ues rnti _ _ m => ((ues rnti).ulTbSize, m)

section Model

variable {μ : Type} (cfg : UlConfig μ)

/-! ## What both have in common -/

/-- One RBG for each of the symbols of the beam. The elements of `m_ulSym` have 8 bits. -/
def UlUe.assign (ue : UlUe) (rbg beamSym : Nat) : UlUe :=
  { ue with
    ulRBG := ue.ulRBG ++ List.replicate beamSym rbg
    ulSym := ue.ulSym ++ (List.range beamSym).map (· % 256) }

/-- The state of the loop over the RBGs, without `remainingRbgSet`. -/
structure UlBeam (μ : Type) where
  ues : UlTable
  metrics : μ
  ueVector : List (Nat × Nat)
  assigned : FTResources

/-- The variables of a beam before the loop, with `BeforeUlSched` called for each UE. -/
def UlBeam.enter (ues : UlTable) (metrics : μ) (ueVector : List (Nat × Nat)) (beamSym : Nat) :
    UlBeam μ where
  ues := ues
  metrics := ueVector.foldl (fun m ue => cfg.beforeUlSched ues ue.1 ⟨beamSym * beamSym % 2 ^ 32,
    beamSym⟩ m) metrics
  ueVector := ueVector
  assigned := ⟨0, 0⟩

/-- A hook is called for a UE. -/
def UlBeam.hook (h : UlHook μ) (beamSym : Nat) (s : UlBeam μ) (rnti : Nat) : UlBeam μ :=
  let r := h s.ues rnti ⟨beamSym, beamSym⟩ s.assigned s.metrics
  { s with ues := update s.ues rnti { s.ues rnti with ulTbSize := r.1 }, metrics := r.2 }

variable (s : UlBeam μ)

/-- `SortUeVector`, after `CallNotifyUlFn`. -/
def UlBeam.sort : UlBeam μ :=
  let metrics := if cfg.activeUlAi then cfg.callNotifyUlFn s.ues s.ueVector s.metrics else s.metrics
  let r := cfg.sortUeVector s.ues s.ueVector metrics
  { s with ueVector := r.1, metrics := r.2 }

/-- An RBG is noted for a UE. -/
def UlBeam.note (rnti rbg beamSym : Nat) : UlBeam μ :=
  { s with
    ues := update s.ues rnti ((s.ues rnti).assign rbg beamSym)
    assigned := ⟨s.assigned.rbg + 1, beamSym⟩ }

/-- An RBG is given to a UE, and the hooks are called for it and for the others. -/
def UlBeam.assign (rnti rbg beamSym : Nat) : UlBeam μ :=
  (s.ueVector.filter fun ue => ue.1 ≠ rnti).foldl (fun s ue =>
    s.hook cfg.notAssignedUlResources beamSym ue.1)
    ((s.note rnti rbg beamSym).hook cfg.assignedUlResources beamSym rnti)

/-! ## `NrMacSchedulerOfdma` -/

/-- The first UE that has not yet enough to transmit. -/
def nextUe (ues : UlTable) : List (Nat × Nat) → Option Nat
  | [] => none
  | (rnti, bufQueueSize) :: rest =>
    if max bufQueueSize 12 ≤ (ues rnti).ulTbSize then nextUe ues rest else some rnti

/-- The loop over `remainingRbgSet`. -/
def assignRbgs (beamSym : Nat) : List Nat → UlBeam μ → UlBeam μ
  | [], s => s
  | rbg :: remaining, s =>
    match nextUe s.ues (s.sort cfg).ueVector with
    | none => s.sort cfg
    | some rnti => assignRbgs beamSym remaining ((s.sort cfg).assign cfg rnti rbg beamSym)

/-- One beam. It is asserted that there is an RBG. -/
def assignBeam (beamSym : Nat) (ues : UlTable × μ) (ueVector : List (Nat × Nat)) :
    Except SchedError (UlTable × μ) :=
  if cfg.ulBitmask.rbgs = [] then .error .assertion
  else
    let s := assignRbgs cfg beamSym cfg.ulBitmask.rbgs (.enter cfg ues.1 ues.2 ueVector beamSym)
    .ok (s.ues, s.metrics)

def assignULRBG (symAvail : Nat) (active : ActiveUeMap) (ues : UlTable) (metrics : μ) :
    Except SchedError (UlTable × BeamSymbolMap) :=
  let symPerBeam := getSymPerBeam (cfg.symPerBeam symAvail active ues metrics) active
  (active.beams.foldlM (fun ues b => assignBeam cfg (symOf symPerBeam b.1) ues b.2)
    (ues, metrics)).map fun ues => (ues.1, symPerBeam)

/-! ## `NrMacSchedulerOfdmaUlTarget` -/

namespace UlTarget

variable (ulTargets : List (Nat × Nat))

/-- `HasReachedUlTarget`. The number of RBGs is converted to 32 bits. -/
def hasReachedUlTarget (ues : UlTable) (rnti beamSym : Nat) : Bool :=
  if beamSym = 0 then true
  else match Keyed.find? Prod.fst rnti ulTargets with
    | none => false
    | some target => target.2 ≤ (ues rnti).ulRBG.length / beamSym % 2 ^ 32

/-- The first UE that has neither enough to transmit nor reached its target. -/
def nextUe (ues : UlTable) (beamSym : Nat) : List (Nat × Nat) → Option Nat
  | [] => none
  | (rnti, bufQueueSize) :: rest =>
    if max bufQueueSize 12 ≤ (ues rnti).ulTbSize then nextUe ues beamSym rest
    else if hasReachedUlTarget ulTargets ues rnti beamSym then nextUe ues beamSym rest
    else some rnti

/-- The loop over `remainingRbgSet`. -/
def assignRbgs (beamSym : Nat) : List Nat → UlBeam μ → UlBeam μ
  | [], s => s
  | rbg :: remaining, s =>
    match nextUe ulTargets s.ues beamSym (s.sort cfg).ueVector with
    | none => s.sort cfg
    | some rnti => assignRbgs beamSym remaining ((s.sort cfg).assign cfg rnti rbg beamSym)

/-- One beam. -/
def assignBeam (beamSym : Nat) (ues : UlTable × μ) (ueVector : List (Nat × Nat)) :
    Except SchedError (UlTable × μ) :=
  if cfg.ulBitmask.rbgs = [] then .error .assertion
  else
    let s := assignRbgs cfg ulTargets beamSym cfg.ulBitmask.rbgs
      (.enter cfg ues.1 ues.2 ueVector beamSym)
    .ok (s.ues, s.metrics)

def assignULRBG (symAvail : Nat) (active : ActiveUeMap) (ues : UlTable) (metrics : μ) :
    Except SchedError (UlTable × BeamSymbolMap) :=
  let symPerBeam := getSymPerBeam (cfg.symPerBeam symAvail active ues metrics) active
  (active.beams.foldlM (fun ues b => assignBeam cfg ulTargets (symOf symPerBeam b.1) ues b.2)
    (ues, metrics)).map fun ues => (ues.1, symPerBeam)

end UlTarget

end Model

end OranNs3.Ofdma
