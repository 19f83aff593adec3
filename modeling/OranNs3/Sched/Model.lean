import Mathlib.Algebra.Ring.Nat
import OranNs3.Sched.HarqVector

/-!
# The MAC scheduler

`NrMacSchedulerNs3` (`nr-mac-scheduler-ns3.cc`) with its HARQ scheduler `NrMacSchedulerHarqRr`
(`nr-mac-scheduler-harq-rr.cc`): the calls of the SAP that configure and release a UE, report
scheduling requests and RACH preambles, and trigger a DL or a UL slot with its HARQ feedback. A call
that stops the program is an error.

A UE is reached by its RNTI, its key in `m_ueMap`. The maps of beams and UEs are hash tables: the
order in which they are visited is an input (`Shuffle`). Inputs of a trigger are also what
subclasses and other objects decide: the bytes that the logical channel groups of a UE hold, the
symbols of each beam, the DCI of a UE (none, or one with its RNTI) and the bytes of each logical
channel in it, what `DoReshapeAllocation` returns, whether the fronthaul has room, and the UL
symbols allocated earlier in a slot. Left out are MCS and CQI, the map of UL allocations for the
CQI, and the checks of debug builds.
-/

namespace OranNs3

/-! ## Data -/

/-- `BeamId` (`beam-id.h`). The scheduler only tests it for equality. -/
structure BeamId where
  sector : Nat
  elevation : Nat
deriving DecidableEq, Inhabited

/-- `NrMacSchedulerUeInfo` (`nr-mac-scheduler-ue-info.h`). -/
structure UeInfo where
  rnti : Nat
  beamId : BeamId
  dlHarq : HarqVector
  ulHarq : HarqVector
deriving DecidableEq

/-- `GetDlHarqVector` and `GetUlHarqVector`. -/
def UeInfo.harq (u : UeInfo) : DciFormat → HarqVector
  | .dl => u.dlHarq
  | .ul => u.ulHarq

/-- The UE with one of its vectors replaced. -/
def UeInfo.setHarq (u : UeInfo) (v : HarqVector) : DciFormat → UeInfo
  | .dl => { u with dlHarq := v }
  | .ul => { u with ulHarq := v }

/-- `DlHarqInfo` and `UlHarqInfo`, of whose status the scheduler
only calls `IsReceivedOk`. -/
structure HarqInfo where
  rnti : Nat
  harqProcessId : Nat
  isReceivedOk : Bool
deriving DecidableEq

/-- `VarTtiAllocInfo`. -/
structure VarTtiAllocInfo where
  dci : Dci
  rlcPduInfo : List RlcPduInfo
deriving DecidableEq

/-- An element of `m_rachList`. -/
structure RachReq where
  rnti : Nat
  estimatedSize : Nat
deriving DecidableEq

/-- The map from beams to lists, `ActiveHarqMap` and `ActiveUeMap`. -/
abbrev BeamMap (γ : Type) := List (BeamId × List γ)

/-- The attributes of the scheduler and what it asks the MAC for. -/
structure SchedConfig where
  numHarqProcess : Nat
  enableHarqReTx : Bool
  symbolsPerSlot : Nat
  dlCtrlSymbols : Nat
  ulCtrlSymbols : Nat
  bandwidth : Nat
  dlBitmask : List Bool
  ulBitmask : List Bool
  consolidateHarqRetx : Bool
  fhControl : Bool
  enableSrsInFSlots : Bool
  enableSrsInUlSlots : Bool
  srsCtrlSymbols : Nat
  rachUlGrantMcs : Nat
  /-- `CalculateTbSize` for the MCS of a RACH grant, by the symbols of the grant. -/
  msg3TbSize : Nat → Nat
  /-- `NumHarqProcess` is a `uint8_t`. -/
  num_lt : numHarqProcess < 256

/-- A scheduler with two HARQ processes for each UE and one RBG. -/
def SchedConfig.small : SchedConfig where
  numHarqProcess := 2
  enableHarqReTx := true
  symbolsPerSlot := 14
  dlCtrlSymbols := 1
  ulCtrlSymbols := 1
  bandwidth := 1
  dlBitmask := [true]
  ulBitmask := [true]
  consolidateHarqRetx := false
  fhControl := false
  enableSrsInFSlots := false
  enableSrsInUlSlots := false
  srsCtrlSymbols := 4
  rachUlGrantMcs := 0
  msg3TbSize := fun n => 10 * n
  num_lt := by decide

/-- The state of the scheduler. `m_rrBeams` and `m_rrBeamsSet` hold the same beams. -/
structure Sched where
  ueMap : List UeInfo
  srList : List Nat
  rachList : List RachReq
  dlHarqToRetransmit : List HarqInfo
  ulHarqToRetransmit : List HarqInfo
  rrBeams : List BeamId
deriving DecidableEq

/-- A DCI that `CreateDlDci` or `CreateUlDci` makes for a UE, with the bytes that
`AssignBytesToDlLC` gives to its logical channels. -/
structure NewDci where
  symStart : Nat
  numSym : Nat
  mcs : Nat
  rank : Nat
  tbSize : Nat
  rbgBitmask : List Bool
  bytes : List RlcPduInfo
deriving DecidableEq

/-- What `DoReshapeAllocation` returns for one DCI: its new place, and the variables that are passed
by reference. -/
structure Reshaped where
  symStart : Nat
  numSym : Nat
  rbgBitmask : List Bool
  startingSymbol : Nat
  symAvail : Nat
  bitmask : List Bool
deriving DecidableEq

/-- `LteNrTddSlotType`. -/
inductive SlotType
  | dl
  | ul
  | s
  | f
deriving DecidableEq

/-- The parameters of a DL trigger, with what the subclasses decide in it. -/
structure DlTrigger where
  harqInfoList : List HarqInfo
  slotType : SlotType
  totUlSym : Nat
  buffered : Nat → Nat
  symPerBeam : BeamId → Nat
  newDci : Nat → Option NewDci
  fits : Dci → Bool
  reshape : Dci → Nat → Nat → List Bool → Option Reshaped
  order : Shuffle

/-- The parameters of a UL trigger, with what the subclasses decide in it. `srsRnti` is the UE whose
SRS offset the slot has, or 0. -/
structure UlTrigger where
  harqInfoList : List HarqInfo
  slotType : SlotType
  srsRnti : Nat
  buffered : Nat → Nat
  symPerBeam : BeamId → Nat
  newDci : Nat → Option NewDci
  order : Shuffle

/-! ## Lookups -/

/-- `m_ueMap.find(rnti)->second` and `m_ueMap.at(rnti)`. -/
def findUe (ues : List UeInfo) (rnti : Nat) : Except SchedError UeInfo :=
  match Keyed.find? UeInfo.rnti rnti ues with
  | some u => .ok u
  | none => .error .missingUe

/-- A process by its RNTI and id, of the vector of one direction. -/
def findProcess (d : DciFormat) (ues : List UeInfo) (rnti id : Nat) :
    Except SchedError HarqProcess := do
  let u ← findUe ues rnti
  (u.harq d).get id

/-- The UEs after a change of a HARQ vector. -/
def setVector (d : DciFormat) (ues : List UeInfo) (rnti : Nat) (v : HarqVector) : List UeInfo :=
  Keyed.modify UeInfo.rnti rnti (fun u => u.setHarq v d) ues

/-- The UEs after a change of a process. -/
def setProcess (d : DciFormat) (ues : List UeInfo) (rnti id : Nat) (p : ActiveHarq) : List UeInfo :=
  Keyed.modify UeInfo.rnti rnti (fun u => u.setHarq ((u.harq d).set id (some p)) d) ues

/-! ## Expiry and feedback -/

/-- The body of the loop of `ResetExpiredHARQ`. -/
def resetExpiredProcess (numHarqProcess : Nat) (v : HarqVector) (id : Nat) :
    Except SchedError HarqVector := do
  match ← v.get id with
  | none => .ok v
  | some p =>
    if p.timer < numHarqProcess then .ok (v.set id (some { p with timer := p.timer + 1 }))
    else v.erase id

def resetExpiredHARQ (numHarqProcess : Nat) (v : HarqVector) : Except SchedError HarqVector :=
  (v.procs.map Prod.fst).foldlM (resetExpiredProcess numHarqProcess) v

variable (cfg : SchedConfig)

/-- The loop over `m_ueMap` at the start of a trigger. -/
def resetExpired (d : DciFormat) (ues : List UeInfo) : Except SchedError (List UeInfo) :=
  ues.mapM fun u => do
    let v ← resetExpiredHARQ cfg.numHarqProcess (u.harq d)
    .ok (u.setHarq v d)

/-- The loop of `DoSchedDlTriggerReq` that drops feedback for inactive
processes and duplicates; `feedbacksDup` are the processes seen. -/
def filterDlFeedback (ues : List UeInfo) :
    List (Nat × Nat) → List HarqInfo → Except SchedError (List HarqInfo)
  | _, [] => .ok []
  | dup, f :: fs => do
    match ← findProcess .dl ues f.rnti f.harqProcessId with
    | none => filterDlFeedback ues dup fs
    | some _ =>
      if (f.rnti, f.harqProcessId) ∈ dup then filterDlFeedback ues dup fs
      else do
        let rest ← filterDlFeedback ues ((f.rnti, f.harqProcessId) :: dup) fs
        .ok (f :: rest)

/-- The loop of `DoSchedUlTriggerReq` that drops feedback for inactive
processes. -/
def filterUlFeedback (ues : List UeInfo) : List HarqInfo → Except SchedError (List HarqInfo)
  | [] => .ok []
  | f :: fs => do
    match ← findProcess .ul ues f.rnti f.harqProcessId with
    | none => filterUlFeedback ues fs
    | some _ => do
      let rest ← filterUlFeedback ues fs
      .ok (f :: rest)

/-- The largest redundancy version that is retransmitted. -/
def maxHarqReTx : Nat := if cfg.enableHarqReTx then 3 else 0

/-- `ProcessHARQFeedbacks`: the UEs, and the feedback that is left. -/
def processHARQFeedbacks (cfg : SchedConfig) (d : DciFormat) :
    List UeInfo → List HarqInfo → Except SchedError (List UeInfo × List HarqInfo)
  | ues, [] => .ok (ues, [])
  | ues, f :: fs => do
    let u ← findUe ues f.rnti
    match ← (u.harq d).get f.harqProcessId with
    | none => .error .inactiveProcess
    | some p =>
      if 4 ≤ p.dci.rv then .error .assertion
      else if f.isReceivedOk || p.dci.rv == maxHarqReTx cfg then do
        let v ← (u.harq d).erase f.harqProcessId
        processHARQFeedbacks cfg d (setVector d ues f.rnti v) fs
      else do
        let ues := setProcess d ues f.rnti f.harqProcessId { p with status := .receivedFeedback }
        let (ues, rest) ← processHARQFeedbacks cfg d ues fs
        .ok (ues, f :: rest)

/-! ## Active processes and UEs -/

/-- An element is added to the list of its beam. -/
def BeamMap.add {γ : Type} : BeamMap γ → BeamId → γ → BeamMap γ
  | [], b, x => [(b, [x])]
  | (b', xs) :: m, b, x => if b' = b then (b', xs ++ [x]) :: m else (b', xs) :: BeamMap.add m b x

/-- The body of the loop of `ComputeActiveHarq` for the DL. An
iterator of a HARQ vector is the RNTI and the id. -/
def addActiveDlHarq (ues : List UeInfo) (m : BeamMap (Nat × Nat)) (f : HarqInfo) :
    Except SchedError (BeamMap (Nat × Nat)) := do
  let u ← findUe ues f.rnti
  match ← u.dlHarq.get f.harqProcessId with
  | none => .error .assertion
  | some p =>
    if p.status = .receivedFeedback then .ok (BeamMap.add m u.beamId (f.rnti, f.harqProcessId))
    else .error .assertion

/-- The body of the loop of `ComputeActiveHarq` for the UL. -/
def addActiveUlHarq (ues : List UeInfo) (m : BeamMap (Nat × Nat)) (f : HarqInfo) :
    Except SchedError (BeamMap (Nat × Nat)) := do
  let u ← findUe ues f.rnti
  match ← u.ulHarq.get f.harqProcessId with
  | none => .error .assertion
  | some _ => .ok (BeamMap.add m u.beamId (f.rnti, f.harqProcessId))

/-- The symbols of the DCI of a process. -/
def numSymOf (ues : List UeInfo) (i : Nat × Nat) : Nat :=
  match findProcess .dl ues i.1 i.2 with
  | .ok (some p) => p.dci.numSym
  | _ => 0

/-- `SortDlHarq`, a stable sort. -/
def sortDlHarq (ues : List UeInfo) (m : BeamMap (Nat × Nat)) : BeamMap (Nat × Nat) :=
  m.map fun q => (q.1, q.2.insertionSort fun a b => numSymOf ues b ≤ numSymOf ues a)

/-- `ComputeActiveHarq` for the DL. -/
def computeActiveDlHarq (ues : List UeInfo) (fs : List HarqInfo) :
    Except SchedError (BeamMap (Nat × Nat)) := do
  let m ← fs.foldlM (addActiveDlHarq ues) []
  .ok (sortDlHarq ues m)

/-- `ComputeActiveHarq` for the UL; `SortUlHarq` does nothing. -/
def computeActiveUlHarq (ues : List UeInfo) (fs : List HarqInfo) :
    Except SchedError (BeamMap (Nat × Nat)) :=
  fs.foldlM (addActiveUlHarq ues) []

/-- The body of the loop of `ComputeActiveUe`. -/
def addActiveUe (d : DciFormat) (buffered : Nat → Nat) (m : BeamMap (Nat × Nat)) (u : UeInfo) :
    BeamMap (Nat × Nat) :=
  if 0 < buffered u.rnti && (u.harq d).canInsert then
    BeamMap.add m u.beamId (u.rnti, buffered u.rnti)
  else m

/-- `ComputeActiveUe`: for each beam the UEs with bytes to send and
room in their HARQ vector, with the number of bytes. -/
def computeActiveUe (d : DciFormat) (buffered : Nat → Nat) (order : Shuffle) (ues : List UeInfo) :
    BeamMap (Nat × Nat) :=
  (order.app ues).foldl (addActiveUe d buffered) []

/-- The loop of `DoScheduleDl` and `DoScheduleUl` over the
beams: the UE of an allocation is removed from the list of its beam, and the loop ends where a list
becomes empty. -/
def excludeRnti (rnti : Nat) : BeamMap (Nat × Nat) → BeamMap (Nat × Nat)
  | [] => []
  | (b, us) :: m =>
    let us := us.eraseP fun u => u.1 == rnti
    if us.isEmpty then m else (b, us) :: excludeRnti rnti m

/-- The same loop over the allocations. -/
def excludeAllocated (allocs : List VarTtiAllocInfo) (m : BeamMap (Nat × Nat)) :
    BeamMap (Nat × Nat) :=
  allocs.foldl (fun m alloc => excludeRnti alloc.dci.rnti m) m

/-! ## New data -/

/-- The DCI that a subclass creates for a UE. -/
def NewDci.dci (n : NewDci) (d : DciFormat) (rnti id : Nat) : Dci where
  rnti := rnti
  format := d
  symStart := n.symStart
  numSym := n.numSym
  mcs := n.mcs
  rank := n.rank
  tbSize := n.tbSize
  ndi := 1
  rv := 0
  type := .data
  harqProcess := id
  rbgBitmask := n.rbgBitmask

/-- The process of a new DCI is inserted in the vector of its UE: the UEs, and the DCI with the id
of the process. -/
def insertNew (d : DciFormat) (ues : List UeInfo) (rnti : Nat) (n : NewDci)
    (pdus : List RlcPduInfo) : Except SchedError (List UeInfo × Dci) := do
  let u ← findUe ues rnti
  if (u.harq d).canInsert then do
    let inserted ← (u.harq d).insert ⟨.waitingFeedback, 0, n.dci d rnti 0, []⟩
    match inserted with
    | none => .error .missingProcess
    | some (id, v) =>
      .ok (setVector d ues rnti (v.set id (some ⟨.waitingFeedback, 0, n.dci d rnti id, pdus⟩)),
        n.dci d rnti id)
  else .error .noHarqSpace

/-- The variables of the loops over the UEs of a beam: the UEs, the allocations, the first symbols
of the DCIs of the beam and the symbols that they use. -/
structure DataState where
  ues : List UeInfo
  allocs : List VarTtiAllocInfo
  symStarts : List Nat
  allocSym : Nat

/-- The symbols of a beam after a DCI. -/
def DataState.count (st : DataState) (dci : Dci) : List Nat × Nat :=
  if dci.symStart ∈ st.symStarts then (st.symStarts, st.allocSym)
  else (dci.symStart :: st.symStarts, st.allocSym + dci.numSym)

/-- The body of the loop of `DoScheduleDlData` over the UEs. -/
def scheduleDlUe (inp : DlTrigger) (st : DataState) (ue : Nat × Nat) :
    Except SchedError DataState :=
  match inp.newDci ue.1 with
  | none => .ok st
  | some n =>
    if n.symStart + n.numSym ≤ cfg.symbolsPerSlot then do
      let pdus := n.bytes.map fun b => { b with size := b.size - 3 }
      let (ues, dci) ← insertNew .dl st.ues ue.1 n pdus
      if (n.bytes.any fun b => b.size < 3) || n.bytes.isEmpty then .error .assertion
      else .ok ⟨ues, st.allocs ++ [⟨dci, pdus⟩], (st.count dci).1, (st.count dci).2⟩
    else .error .assertion

/-- The body of the loop of `DoScheduleUlData` over the UEs. -/
def scheduleUlUe (inp : UlTrigger) (st : DataState) (ue : Nat × Nat) :
    Except SchedError DataState :=
  match inp.newDci ue.1 with
  | none => .ok st
  | some n => do
    let (ues, dci) ← insertNew .ul st.ues ue.1 n []
    if n.bytes.isEmpty then .error .assertion
    else .ok ⟨ues, ⟨dci, []⟩ :: st.allocs, (st.count dci).1, (st.count dci).2⟩

/-- A loop over beams, whose body is a loop over the UEs of a beam: the UEs, the allocations and the
symbols used. -/
def scheduleBeams (body : DataState → Nat × Nat → Except SchedError DataState)
    (symPerBeam : BeamId → Nat) (st : DataState × Nat) (beam : BeamId × List (Nat × Nat)) :
    Except SchedError (DataState × Nat) :=
  if symPerBeam beam.1 = 0 then .ok st
  else do
    let r ← beam.2.foldlM body { st.1 with symStarts := [], allocSym := 0 }
    .ok (r, st.2 + r.allocSym)

def doScheduleDlData (inp : DlTrigger) (active : BeamMap (Nat × Nat))
    (ues : List UeInfo) (allocs : List VarTtiAllocInfo) : Except SchedError (DataState × Nat) :=
  (inp.order.app active).foldlM (scheduleBeams (scheduleDlUe cfg inp) inp.symPerBeam)
    (⟨ues, allocs, [], 0⟩, 0)

def doScheduleUlData (inp : UlTrigger) (active : BeamMap (Nat × Nat)) (ues : List UeInfo)
    (allocs : List VarTtiAllocInfo) : Except SchedError (DataState × Nat) :=
  (inp.order.app active).foldlM (scheduleBeams (scheduleUlUe inp) inp.symPerBeam)
    (⟨ues, allocs, [], 0⟩, 0)

/-! ## Retransmissions -/

/-- The body of the second loop of `GetBeamOrderRR`, at the index `i`: the queue and the result. -/
def orderBeam (active : List BeamId) (st : List BeamId × List BeamId) (i : Nat) :
    Except SchedError (List BeamId × List BeamId) :=
  match st.1 with
  | [] => .ok st
  | front :: rest =>
    if front ∈ active then
      if i < st.2.length then .ok (rest ++ [front], st.2.set i front) else .error .outOfRange
    else .ok (rest ++ [front], st.2)

/-- The beams that are active for the first time enter the queue. -/
def enqueueBeams (rrBeams active : List BeamId) : List BeamId :=
  active.foldl (fun rr b => if b ∈ rr then rr else rr ++ [b]) rrBeams

/-- `GetBeamOrderRR`: the queue and the order. -/
def getBeamOrderRR (rrBeams active : List BeamId) : Except SchedError (List BeamId × List BeamId) :=
  let rr := enqueueBeams rrBeams active
  (List.range rr.length).foldlM (orderBeam active) (rr, List.replicate active.length default)

def bufferHARQFeedback (fs toRetransmit : List HarqInfo) (rnti id : Nat) :
    Except SchedError (List HarqInfo) :=
  match fs.find? fun f => f.rnti == rnti && f.harqProcessId == id with
  | some f => .ok (toRetransmit ++ [f])
  | none => .error .assertion

/-- The RBGs of a DCI are taken from those that are free; `none` is a collision. -/
def takeRbgs : List Bool → List Bool → Except SchedError (Option (List Bool))
  | _, [] => .ok (some [])
  | [], _ :: _ => .error .outOfRange
  | m :: ms, free :: bitmask =>
    if m && !free then .ok none
    else do
      let rest ← takeRbgs ms bitmask
      .ok (rest.map fun bitmask => (free && !m) :: bitmask)

/-- The variables of `ScheduleDlHarq`. -/
structure DlHarqState where
  ues : List UeInfo
  toRetransmit : List HarqInfo
  allocs : List VarTtiAllocInfo
  symAvail : Nat
  startingSymbol : Nat
  bitmask : List Bool
  allocatedUe : List Nat

/-- The place of a retransmission, by `m_getReshapeAllocation` or, without consolidation, at the
current symbol with its own RBGs. The symbols have eight bits. -/
def reshapeDci (inp : DlTrigger) (st : DlHarqState) (dci : Dci) :
    Except SchedError (Option Reshaped) :=
  if cfg.consolidateHarqRetx then
    .ok (inp.reshape dci st.startingSymbol st.symAvail st.bitmask)
  else do
    let bitmask ← takeRbgs dci.rbgBitmask st.bitmask
    .ok (bitmask.map fun bitmask => ⟨st.startingSymbol, dci.numSym, dci.rbgBitmask,
      st.startingSymbol, (st.symAvail + 256 - dci.numSym) % 256, bitmask⟩)

/-- The DCI at its new place. -/
def Reshaped.dci (r : Reshaped) (dci : Dci) : Dci :=
  { dci with symStart := r.symStart, numSym := r.numSym, rbgBitmask := r.rbgBitmask }

/-- The feedback of a process is buffered; the process keeps the given state. -/
def bufferDlHarq (fs : List HarqInfo) (st : DlHarqState) (i : Nat × Nat) (p : ActiveHarq) :
    Except SchedError DlHarqState := do
  let buffered ← bufferHARQFeedback fs st.toRetransmit p.dci.rnti p.dci.harqProcess
  .ok { st with ues := setProcess .dl st.ues i.1 i.2 p, toRetransmit := buffered }

/-- The process and its DCI after a retransmission. -/
def retransmitted (p : ActiveHarq) (dci : Dci) : ActiveHarq :=
  { p with dci := { dci with ndi := 0, rv := dci.rv + 1, type := .data } }

/-- A retransmission that has its place: the variables are committed and the DCI is allocated. -/
def allocateDlHarq (st : DlHarqState) (i : Nat × Nat) (p : ActiveHarq) (r : Reshaped) :
    Except SchedError DlHarqState := do
  let p := retransmitted p (r.dci p.dci)
  let _ ← findUe st.ues p.dci.rnti
  .ok { ues := setProcess .dl st.ues i.1 i.2 p
        toRetransmit := st.toRetransmit
        allocs := st.allocs ++ [⟨p.dci, p.rlcPduInfo⟩]
        symAvail := r.symAvail
        startingSymbol := r.startingSymbol
        bitmask := r.bitmask
        allocatedUe := st.allocatedUe ++ [p.dci.rnti] }

/-- The body of the loop of `ScheduleDlHarq` over the processes of
a beam. -/
def scheduleDlProcess (inp : DlTrigger) (fs : List HarqInfo)
    (st : DlHarqState) (i : Nat × Nat) : Except SchedError DlHarqState := do
  match ← findProcess .dl st.ues i.1 i.2 with
  | none => .error .assertion
  | some p =>
    if p.status ≠ .receivedFeedback then .error .assertion
    else
      let p := { p with status := .waitingFeedback, timer := 0 }
      let rbgAssigned := p.dci.rbgBitmask.count true * p.dci.numSym
      if p.dci.rnti ∈ st.allocatedUe then bufferDlHarq fs st i p
      else if cfg.bandwidth * st.symAvail < rbgAssigned then bufferDlHarq fs st i p
      else if cfg.fhControl && !inp.fits p.dci then bufferDlHarq fs st i p
      else do
        let reshaped ← reshapeDci cfg inp st p.dci
        match reshaped with
        | none => bufferDlHarq fs st i p
        | some r =>
          if st.symAvail < r.numSym then bufferDlHarq fs st i { p with dci := r.dci p.dci }
          else allocateDlHarq st i p r

/-- `CountUsedSymbolsFromVarAllocTtiRange`. -/
def countUsedSymbols (startSym : Nat) (allocs : List VarTtiAllocInfo) : Except SchedError Nat :=
  if allocs.isEmpty then .ok 0
  else
    let smallest := allocs.foldl (fun s a => if a.dci.symStart < s then a.dci.symStart else s) 255
    let largest := allocs.foldl
      (fun l a => if l < a.dci.symStart + a.dci.numSym then (a.dci.symStart + a.dci.numSym) % 256
        else l) startSym
    if smallest = 255 then .error .assertion else .ok ((largest + 256 - smallest) % 256)

/-- The body of the loop of `ScheduleDlHarq` over the beams; `startSym` is `startingPoint->m_sym`.
-/
def scheduleDlBeam (inp : DlTrigger) (fs : List HarqInfo)
    (active : BeamMap (Nat × Nat)) (startSym : Nat) (st : DlHarqState) (beam : BeamId) :
    Except SchedError DlHarqState :=
  match Keyed.find? Prod.fst beam active with
  | none => .error .outOfRange
  | some (_, procs) => do
    let r ← procs.foldlM (scheduleDlProcess cfg inp fs) { st with allocatedUe := [] }
    if 0 < r.symAvail then
      if st.startingSymbol = r.startingSymbol then do
        let used ← countUsedSymbols startSym (r.allocs.drop st.allocs.length)
        .ok { r with
          bitmask := cfg.dlBitmask
          startingSymbol := (r.startingSymbol + used) % 256
          symAvail := (r.symAvail + 256 - used) % 256 }
      else .ok { r with bitmask := cfg.dlBitmask }
    else .ok r

/-- `ScheduleDlHarq`: the variables, the queue of beams and the
symbols used. -/
def scheduleDlHarq (inp : DlTrigger) (rrBeams : List BeamId) (symAvail : Nat)
    (active : BeamMap (Nat × Nat)) (ues : List UeInfo) (toRetransmit fs : List HarqInfo)
    (allocs : List VarTtiAllocInfo) : Except SchedError (DlHarqState × List BeamId × Nat) := do
  let (rrBeams, beams) ← getBeamOrderRR rrBeams ((inp.order.app active).map Prod.fst)
  let st ← beams.foldlM (scheduleDlBeam cfg inp fs active cfg.dlCtrlSymbols)
    ⟨ues, toRetransmit, allocs, symAvail, cfg.dlCtrlSymbols, cfg.dlBitmask, []⟩
  let used ← countUsedSymbols cfg.dlCtrlSymbols (st.allocs.drop allocs.length)
  .ok (st, rrBeams, used)

/-- The variables of `ScheduleUlHarq`. -/
structure UlHarqState where
  ues : List UeInfo
  toRetransmit : List HarqInfo
  allocs : List VarTtiAllocInfo
  symAvail : Nat
  sym : Nat
  symUsed : Nat

/-- The loop of `ScheduleUlHarq`, which ends when no symbol is
left. -/
def scheduleUlHarq : UlHarqState → List HarqInfo → Except SchedError UlHarqState
  | st, [] => .ok st
  | st, f :: fs =>
    if st.symAvail = 0 then .ok st
    else if f.isReceivedOk then .error .assertion
    else do
      match ← findProcess .ul st.ues f.rnti f.harqProcessId with
      | none => .error .assertion
      | some p =>
        if p.status ≠ .receivedFeedback then .error .assertion
        else
          let p := { p with status := .waitingFeedback, timer := 0 }
          if p.dci.numSym ≤ st.symAvail then
            let dci := { p.dci with
              symStart := (st.sym + 256 - p.dci.numSym) % 256
              ndi := 0
              rv := p.dci.rv + 1
              type := .data
              harqProcess := f.harqProcessId }
            scheduleUlHarq
              { ues := setProcess .ul st.ues f.rnti f.harqProcessId { p with dci }
                toRetransmit := st.toRetransmit
                allocs := ⟨dci, []⟩ :: st.allocs
                symAvail := st.symAvail - dci.numSym
                sym := (st.sym + 256 - dci.numSym) % 256
                symUsed := st.symUsed + dci.numSym } fs
          else
            scheduleUlHarq
              { st with
                ues := setProcess .ul st.ues f.rnti f.harqProcessId p
                toRetransmit := st.toRetransmit ++ [f] } fs

/-! ## The DL trigger -/

/-- A DCI for control symbols, as `PrependCtrlSym` and `AppendCtrlSym` make it. -/
def ctrlDci (d : DciFormat) (sym : Nat) : VarTtiAllocInfo :=
  ⟨⟨0, d, sym, 1, 0, 1, 0, 0, 0, .ctrl, 0, List.replicate cfg.bandwidth true⟩, []⟩

/-- `PrependCtrlSym` for the DL, which starts with no allocation. -/
def prependCtrlSym : List VarTtiAllocInfo :=
  ((List.range cfg.dlCtrlSymbols).map (ctrlDci cfg .dl)).reverse

/-- `AppendCtrlSym` for the UL. -/
def appendCtrlSym (allocs : List VarTtiAllocInfo) : List VarTtiAllocInfo :=
  allocs ++ (List.range cfg.ulCtrlSymbols).map fun i => ctrlDci cfg .ul (cfg.symbolsPerSlot - 1 + i)

variable (s : Sched)

/-- The retransmissions of `DoScheduleDl`: the UEs, the state, the
allocations and the symbols left. -/
def doScheduleDlHarq (inp : DlTrigger) (fs : List HarqInfo)
    (active : BeamMap (Nat × Nat)) (allocs : List VarTtiAllocInfo) (symAvail : Nat) :
    Except SchedError (Sched × List VarTtiAllocInfo × Nat) :=
  if active.isEmpty then .ok (s, allocs, symAvail)
  else do
    let (st, rrBeams, used) ← scheduleDlHarq cfg inp s.rrBeams symAvail active s.ueMap
      s.dlHarqToRetransmit fs allocs
    if used ≤ symAvail then
      .ok ({ s with ueMap := st.ues, dlHarqToRetransmit := st.toRetransmit, rrBeams },
        st.allocs, symAvail - used)
    else .error .assertion

/-- The new data of `DoScheduleDl`. -/
def doScheduleDlNew (inp : DlTrigger) (active : BeamMap (Nat × Nat))
    (allocs : List VarTtiAllocInfo) (symAvail : Nat) :
    Except SchedError (Sched × List VarTtiAllocInfo) :=
  if 0 < symAvail && !active.isEmpty then do
    let (st, used) ← doScheduleDlData cfg inp active s.ueMap allocs
    if used % 256 ≤ symAvail then .ok ({ s with ueMap := st.ues }, st.allocs) else .error .assertion
  else .ok (s, allocs)

def doScheduleDl (inp : DlTrigger) (fs : List HarqInfo)
    (activeHarq activeUe : BeamMap (Nat × Nat)) (allocs : List VarTtiAllocInfo) :
    Except SchedError (Sched × List VarTtiAllocInfo) := do
  let symAvail := (cfg.symbolsPerSlot - cfg.dlCtrlSymbols + 256 - inp.totUlSym) % 256
  let (s, allocs, symAvail) ← doScheduleDlHarq cfg s inp fs activeHarq allocs symAvail
  doScheduleDlNew cfg s inp (excludeAllocated allocs activeUe) allocs symAvail

/-- `ScheduleDl`: the allocation is passed to the MAC. -/
def scheduleDl (inp : DlTrigger) (fs : List HarqInfo) :
    Except SchedError (Sched × List VarTtiAllocInfo) := do
  let allocs := prependCtrlSym cfg
  let allocs := if inp.slotType = .s then appendCtrlSym cfg allocs else allocs
  let activeHarq ← computeActiveDlHarq s.ueMap fs
  let activeUe := computeActiveUe .dl inp.buffered inp.order s.ueMap
  doScheduleDl cfg s inp fs activeHarq activeUe allocs

def doSchedDlTriggerReq (inp : DlTrigger) : Except SchedError (Sched × List VarTtiAllocInfo) := do
  let ues ← resetExpired cfg .dl s.ueMap
  let merged := s.dlHarqToRetransmit ++ inp.harqInfoList
  let kept ← filterDlFeedback ues [] merged
  let (ues, fs) ← processHARQFeedbacks cfg .dl ues kept
  scheduleDl cfg { s with ueMap := ues, dlHarqToRetransmit := [] } inp fs

/-! ## The UL trigger -/

/-- The DCI of an SRS symbol. -/
def srsDci (rnti sym : Nat) : VarTtiAllocInfo :=
  ⟨⟨rnti, .ul, sym, 1, 0, 1, 0, 1, 0, .srs, 0, cfg.ulBitmask⟩, []⟩

/-- `DoScheduleSrs`: the allocations, the symbol that is reached and
the symbols used. -/
def doScheduleSrs (ues : List UeInfo) (rnti sym : Nat)
    (allocs : List VarTtiAllocInfo) : List VarTtiAllocInfo × Nat × Nat :=
  if ues.isEmpty || rnti == 0 then (allocs, sym, 0)
  else
    (((List.range cfg.srsCtrlSymbols).map fun i => srsDci cfg rnti (sym - 1 - i)).reverse ++ allocs,
      sym - cfg.srsCtrlSymbols, cfg.srsCtrlSymbols)

/-- The loop of `DoScheduleUlMsg3` that looks for the number of symbols of a grant, with at most
`fuel` symbols more: the symbols and the size in bits. -/
def msg3Symbols (cfg : SchedConfig) (estimatedSize : Nat) : Nat → Nat → Nat → Nat × Nat
  | 0, allocSymbols, tbSizeBits => (allocSymbols, tbSizeBits)
  | fuel + 1, allocSymbols, tbSizeBits =>
    if tbSizeBits < estimatedSize then
      msg3Symbols cfg estimatedSize fuel (allocSymbols + 1)
        (cfg.msg3TbSize (allocSymbols + 1) * 8 % 2 ^ 16)
    else (allocSymbols, tbSizeBits)

/-- The loop of `DoScheduleUlMsg3` over `m_rachList`: the
allocations, the symbol that is reached and the symbols left. -/
def doScheduleUlMsg3 (cfg : SchedConfig) :
    List RachReq → Nat → Nat → List VarTtiAllocInfo → List VarTtiAllocInfo × Nat × Nat
  | [], sym, symAvail, allocs => (allocs, sym, symAvail)
  | req :: reqs, sym, symAvail, allocs =>
    let (allocSymbols, tbSizeBits) := msg3Symbols cfg req.estimatedSize symAvail 0 0
    if tbSizeBits < req.estimatedSize then (allocs, sym, symAvail)
    else
      let sym := (sym + 256 - allocSymbols) % 256
      let dci : Dci := ⟨req.rnti, .ul, sym, allocSymbols, cfg.rachUlGrantMcs, 1, tbSizeBits / 8, 1,
        0, .msg3, 0, cfg.ulBitmask⟩
      doScheduleUlMsg3 cfg reqs sym (symAvail - allocSymbols) (⟨dci, []⟩ :: allocs)

/-- `DoScheduleUlSr`: each RNTI is looked up, and 12 bytes are given to
the logical channel groups of its UE. -/
def doScheduleUlSr (ues : List UeInfo) (rntis : List Nat) : Except SchedError Unit :=
  rntis.forM fun rnti => do
    let _ ← findUe ues rnti
    .ok ()

/-- The variables of `DoScheduleUl` that its parts share. -/
structure UlState where
  sched : Sched
  allocs : List VarTtiAllocInfo
  sym : Nat
  symAvail : Nat

/-- The SRS of `DoScheduleUl`. -/
def scheduleSrsSlot (inp : UlTrigger) (st : UlState) : Except SchedError UlState :=
  if (cfg.enableSrsInFSlots && inp.slotType == .f) ||
      (cfg.enableSrsInUlSlots && inp.slotType == .ul) then
    if cfg.srsCtrlSymbols ≤ st.symAvail then
      let (allocs, sym, used) := doScheduleSrs cfg st.sched.ueMap inp.srsRnti st.sym st.allocs
      .ok ⟨st.sched, allocs, sym, st.symAvail - used⟩
    else .error .assertion
  else .ok st

/-- The MSG3 of `DoScheduleUl`. -/
def scheduleRachList (inp : UlTrigger) (st : UlState) : UlState :=
  if !st.sched.rachList.isEmpty && (inp.slotType == .f || inp.slotType == .ul) then
    let (allocs, sym, symAvail) :=
      doScheduleUlMsg3 cfg st.sched.rachList st.sym st.symAvail st.allocs
    ⟨{ st.sched with rachList := [] }, allocs, sym, symAvail⟩
  else st

/-- The retransmissions of `DoScheduleUl`. -/
def doScheduleUlHarq (st : UlState) (fs : List HarqInfo) (active : BeamMap (Nat × Nat)) :
    Except SchedError UlState :=
  if active.isEmpty then .ok st
  else do
    let r ← scheduleUlHarq ⟨st.sched.ueMap, st.sched.ulHarqToRetransmit, st.allocs, st.symAvail,
      st.sym, 0⟩ fs
    if r.symUsed ≤ st.symAvail then
      .ok ⟨{ st.sched with ueMap := r.ues, ulHarqToRetransmit := r.toRetransmit }, r.allocs, r.sym,
        st.symAvail - r.symUsed⟩
    else .error .assertion

/-- The scheduling requests of `DoScheduleUl`. -/
def scheduleSrList (st : UlState) : Except SchedError UlState :=
  if 0 < st.symAvail && !st.sched.srList.isEmpty then do
    doScheduleUlSr st.sched.ueMap st.sched.srList
    .ok { st with sched := { st.sched with srList := [] } }
  else .ok st

/-- The new data of `DoScheduleUl`. -/
def doScheduleUlNew (inp : UlTrigger) (st : UlState) :
    Except SchedError (Sched × List VarTtiAllocInfo) :=
  let active := excludeAllocated st.allocs
    (computeActiveUe .ul inp.buffered inp.order st.sched.ueMap)
  if 0 < st.symAvail && !active.isEmpty then do
    let (r, _) ← doScheduleUlData inp active st.sched.ueMap st.allocs
    .ok ({ st.sched with ueMap := r.ues }, r.allocs)
  else .ok (st.sched, st.allocs)

/-- The symbols for data of a UL slot. -/
def ulDataSymbols (inp : UlTrigger) : Nat :=
  if inp.slotType = .f then (cfg.symbolsPerSlot + 512 - cfg.ulCtrlSymbols - cfg.dlCtrlSymbols) % 256
  else (cfg.symbolsPerSlot + 256 - cfg.ulCtrlSymbols) % 256

/-- `DoScheduleUl`, with the UL control symbols allocated. -/
def doScheduleUl (inp : UlTrigger) (fs : List HarqInfo)
    (allocs : List VarTtiAllocInfo) : Except SchedError (Sched × List VarTtiAllocInfo) := do
  let active ← computeActiveUlHarq s.ueMap fs
  let lastSym := (cfg.symbolsPerSlot + 256 - cfg.ulCtrlSymbols) % 256
  let st ← scheduleSrsSlot cfg inp ⟨s, allocs, lastSym, ulDataSymbols cfg inp⟩
  let st ← doScheduleUlHarq (scheduleRachList cfg inp st) fs active
  let st ← scheduleSrList st
  doScheduleUlNew inp st

/-- `ScheduleUl`: the allocation is passed to the MAC. `DoScheduleUl`
asserts that it starts with one control symbol. -/
def scheduleUl (inp : UlTrigger) (fs : List HarqInfo) :
    Except SchedError (Sched × List VarTtiAllocInfo) :=
  if (appendCtrlSym cfg []).length = 1 then doScheduleUl cfg s inp fs (appendCtrlSym cfg [])
  else .error .assertion

def doSchedUlTriggerReq (inp : UlTrigger) : Except SchedError (Sched × List VarTtiAllocInfo) := do
  let ues ← resetExpired cfg .ul s.ueMap
  let merged := s.ulHarqToRetransmit ++ inp.harqInfoList
  let kept ← filterUlFeedback ues merged
  let (ues, fs) ← processHARQFeedbacks cfg .ul ues kept
  scheduleUl cfg { s with ueMap := ues, ulHarqToRetransmit := [] } inp fs

/-! ## The other calls -/

/-- `DoCschedUeConfigReq`: a UE is created, or its beam is updated. -/
def doCschedUeConfigReq (rnti : Nat) (beam : BeamId) (order : Shuffle) : Sched :=
  match Keyed.find? UeInfo.rnti rnti s.ueMap with
  | none =>
    let v := HarqVector.setMaxSize order cfg.numHarqProcess
    { s with ueMap := order.app (⟨rnti, beam, v, v⟩ :: s.ueMap) }
  | some _ =>
    { s with ueMap := Keyed.modify UeInfo.rnti rnti (fun u => { u with beamId := beam }) s.ueMap }

def doCschedUeReleaseReq (rnti : Nat) : Except SchedError Sched := do
  let _ ← findUe s.ueMap rnti
  .ok { s with ueMap := Keyed.erase UeInfo.rnti rnti s.ueMap }

/-- The loop of `DoSchedUlSrInfoReq`. -/
def mergeSr (srList rntis : List Nat) : List Nat :=
  rntis.foldl (fun l rnti => if rnti ∈ l then l else l ++ [rnti]) srList

def doSchedUlSrInfoReq (rntis : List Nat) : Except SchedError Sched :=
  if rntis.length ≤ (mergeSr s.srList rntis).length then
    .ok { s with srList := mergeSr s.srList rntis }
  else .error .assertion

/-- The calls of the SAP. -/
inductive SchedCall
  | ueConfig (rnti : Nat) (beam : BeamId) (order : Shuffle)
  | ueRelease (rnti : Nat)
  | srInfo (rntis : List Nat)
  | rachInfo (reqs : List RachReq)
  | dlTrigger (inp : DlTrigger)
  | ulTrigger (inp : UlTrigger)

namespace Sched

/-- One call: the state after it and the allocation it passes to the MAC. -/
def call :
    SchedCall → Except SchedError (Sched × List VarTtiAllocInfo)
  | .ueConfig rnti beam order => .ok (doCschedUeConfigReq cfg s rnti beam order, [])
  | .ueRelease rnti => do
    let s ← doCschedUeReleaseReq s rnti
    .ok (s, [])
  | .srInfo rntis => do
    let s ← doSchedUlSrInfoReq s rntis
    .ok (s, [])
  | .rachInfo reqs => .ok ({ s with rachList := reqs }, [])
  | .dlTrigger inp => doSchedDlTriggerReq cfg s inp
  | .ulTrigger inp => doSchedUlTriggerReq cfg s inp

/-- The step relation: a call that returns. -/
def Step (c : SchedCall) (t : Sched) : Prop :=
  ∃ allocs, s.call cfg c = .ok (t, allocs)

/-- A new scheduler. -/
def init : Sched := ⟨[], [], [], [], [], []⟩

/-- The states that are reached by calls that return. -/
def Reachable : Prop := Lts.Run (Step cfg) Lts.anyStep init s

/-- The step function, for runs that are evaluated. -/
def step? (c : SchedCall) : Option Sched :=
  (s.call cfg c).toOption.map Prod.fst

theorem step_of_step? {cfg : SchedConfig} {s t : Sched} {c : SchedCall}
    (h : step? cfg s c = some t) : Step cfg s c t := by
  obtain ⟨r, hr, rfl⟩ := Option.map_eq_some_iff.1 h
  refine ⟨r.2, ?_⟩
  cases hc : s.call cfg c with
  | error e =>
    rw [hc] at hr
    cases hr
  | ok r' =>
    rw [hc] at hr
    cases hr
    rfl

end Sched

end OranNs3
