import OranNs3.Lib.EventQueue
import OranNs3.Lib.Keyed
import OranNs3.Lib.Run

/-!
# The RRC of a gNB

`NrGnbRrc` and its UE contexts `NrUeManager` (`nr-gnb-rrc.cc`), from the time its cells are
configured: the eleven states of a context with their five timeouts, the data radio bearers, the
handover over X2 and the indices of the sounding reference signal. A call that stops the program is
an error.

A `NrUeManager` is reached by its RNTI, its key in `m_ueMap`. The queue of the simulator holds the
timeouts of this RRC. What is sent is appended to `out`: messages to a UE, to another gNB over X2
and to the core network over S1. Inputs of a call are what other objects answer: whether the MAC has
no SRS offset left (`IsMaxSrsReached`), the preamble it allocates, whether the neighbour relations
forbid a handover. Left out are traces, transaction identifiers, the configuration of MAC, PHY and
logical channels, and measurements.
-/

namespace OranNs3

/-! ## Data -/

/-- `NrUeManager::State`. -/
inductive UeState
  | initialRandomAccess
  | connectionSetup
  | connectionRejected
  | attachRequest
  | connectedNormally
  | connectionReconfiguration
  | connectionReestablishment
  | handoverPreparation
  | handoverJoining
  | handoverPathSwitch
  | handoverLeaving
deriving DecidableEq

/-- The timeouts of a context (`m_connectionRequestTimeout`, …). -/
inductive TimeoutKind
  | connectionRequest
  | connectionSetup
  | connectionRejected
  | handoverJoining
  | handoverLeaving
deriving DecidableEq

/-- A scheduled timeout: the member function of the RRC and its argument. -/
structure Timeout where
  kind : TimeoutKind
  rnti : Nat
deriving DecidableEq

/-- `NrPdcp::Status`. -/
structure PdcpStatus where
  txSn : Nat
  rxSn : Nat
deriving DecidableEq

/-- The RLC entity of a data radio bearer with its PDCP entity, which RLC SM has not. -/
inductive Rlc
  | sm
  | um (pdcp : PdcpStatus)
  | am (pdcp : PdcpStatus)
deriving DecidableEq

/-- `m_pdcp`. -/
def Rlc.pdcp? : Rlc → Option PdcpStatus
  | .sm => none
  | .um pdcp | .am pdcp => some pdcp

/-- `SetStatus` of the PDCP entity, if there is one. -/
def Rlc.setPdcp (pdcp : PdcpStatus) : Rlc → Rlc
  | .sm => .sm
  | .um _ => .um pdcp
  | .am _ => .am pdcp

/-- Whether the entity is `NrRlcAm`. -/
def Rlc.isAm : Rlc → Bool
  | .am _ => true
  | _ => false

/-- `NrEpsBearer`, of which the RRC asks whether `GetPacketErrorLossRate() > 1.0e-5`. -/
structure EpsBearer where
  qci : Nat
  lossy : Bool
deriving DecidableEq

/-- `NrDataRadioBearerInfo` (`nr-radio-bearer-info.h`). -/
structure Drb where
  drbIdentity : Nat
  epsBearerIdentity : Nat
  epsBearer : EpsBearer
  gtpTeid : Nat
  rlc : Rlc
deriving DecidableEq

/-- The content of a packet; the RRC only passes it on. -/
abbrev Packet := Nat

/-- `NrUeManager`. -/
structure UeManager where
  rnti : Nat
  imsi : Nat
  componentCarrierId : Nat
  state : UeState
  lastAllocatedDrbid : Nat
  drbMap : List Drb
  drbsToBeStarted : List Nat
  pendingRrcConnectionReconfiguration : Bool
  sourceX2apId : Nat
  sourceCellId : Nat
  targetX2apId : Nat
  targetCellId : Nat
  srsConfigurationIndex : Nat
  needPhyMacConfiguration : Bool
  caSupportConfigured : Bool
  pendingStartDataRadioBearers : Bool
  packetBuffer : List (Nat × Packet)
  timeouts : TimeoutKind → EventId

/-- `NrEpcX2Sap::ErabToBeSetupItem`. -/
structure ErabToBeSetupItem where
  erabId : Nat
  erabLevelQosParameters : EpsBearer
  gtpTeid : Nat
deriving DecidableEq

/-- `NrEpcX2Sap::ErabsSubjectToStatusTransferItem`. -/
structure StatusTransferItem where
  erabId : Nat
  ulPdcpSn : Nat
  dlPdcpSn : Nat
deriving DecidableEq

/-- The handover command: an RRC connection reconfiguration with mobility control information. The
extension for carrier aggregation is the number of its secondary cells. -/
structure HandoverCommand where
  targetPhysCellId : Nat
  newUeIdentity : Nat
  raPreambleIndex : Nat
  sCellToAddModList : Option Nat
deriving DecidableEq

/-- The messages of the X2 interface, with what their headers carry. -/
inductive X2Message
  | handoverRequest (oldGnbUeX2apId targetCellId mmeUeS1apId : Nat)
      (bearers : List ErabToBeSetupItem)
  | handoverRequestAck (oldGnbUeX2apId newGnbUeX2apId : Nat) (admittedBearers : List Nat)
      (command : HandoverCommand)
  | handoverPreparationFailure (oldGnbUeX2apId : Nat)
  | snStatusTransfer (oldGnbUeX2apId newGnbUeX2apId : Nat) (items : List StatusTransferItem)
  | ueContextRelease (oldGnbUeX2apId newGnbUeX2apId : Nat)
  | handoverCancel (oldGnbUeX2apId newGnbUeX2apId : Nat)
  | ueData (gtpTeid : Nat) (ueData : Packet)
deriving DecidableEq

/-- The RRC messages to a UE. -/
inductive UeMessage
  | connectionSetup
  | connectionReject
  | connectionReconfiguration
  | handover (command : HandoverCommand)
  | connectionReestablishment
  | connectionRelease
deriving DecidableEq

/-- The messages to the core network, `NrEpcGnbS1SapProvider`. -/
inductive S1Message
  | initialUeMessage (imsi rnti : Nat)
  | releaseIndication (imsi rnti bearerId : Nat)
  | pathSwitchRequest (rnti cellId mmeUeS1Id : Nat) (bearersToBeSwitched : List (Nat × Nat))
  | ueContextRelease (rnti : Nat)
deriving DecidableEq

/-- What an RRC sends; an X2 message goes to the gNB of a cell. -/
inductive RrcOut
  | ue (rnti : Nat) (m : UeMessage)
  | x2 (cellId : Nat) (m : X2Message)
  | s1 (m : S1Message)
deriving DecidableEq

/-- What stops the program. -/
inductive RrcError
  | unexpectedState (s : UeState)
  | unexpectedTimeout (s : UeState)
  | unknownRnti
  | noRnti
  | noSrsIndex
  | unknownSrsIndex
  | noDrbid
  | unknownDrbid
  | bearerIdMismatch
  | knownTeid
  | unknownTeid
  | noPdcp
  | unknownCell
  | ownCell
  | noX2Interface
  | noS1
  | bearersNotAdmitted
  | unequalComponentCarriers
  | targetCellMismatch
deriving DecidableEq

/-- `NrGnbRrc::NrEpsBearerToRlcMapping_t`. -/
inductive EpsBearerToRlcMapping
  | rlcSmAlways
  | rlcUmAlways
  | rlcAmAlways
  | perBased
deriving DecidableEq

/-- The attributes of an RRC, its component carriers (the cell of each) and its X2 interfaces (the
cells at the other end of each). -/
structure RrcConfig where
  cellIds : List Nat
  x2Interfaces : List (List Nat)
  epc : Bool
  epsBearerToRlcMapping : EpsBearerToRlcMapping
  admitHandoverRequest : Bool
  admitRrcConnectionRequest : Bool
  timeoutDuration : TimeoutKind → Nat

/-- A gNB with one cell and an X2 interface to a gNB with another one; every bearer is mapped to RLC
UM, and every timeout lasts 100 units of time. -/
def RrcConfig.single (cellId remoteCellId : Nat) : RrcConfig where
  cellIds := [cellId]
  x2Interfaces := [[remoteCellId]]
  epc := true
  epsBearerToRlcMapping := .rlcUmAlways
  admitHandoverRequest := true
  admitRrcConnectionRequest := true
  timeoutDuration := fun _ => 100

variable (cfg : RrcConfig)

/-- The lookup in `m_x2InterfaceSockets`: there is an X2 interface to the gNB of the cell. -/
def RrcConfig.hasX2Interface (cellId : Nat) : Bool :=
  cfg.x2Interfaces.any (·.contains cellId)

/-- `X2uTeidInfo` with its key. -/
structure X2uTeidInfo where
  gtpTeid : Nat
  rnti : Nat
  drbid : Nat
deriving DecidableEq

/-- `m_ueSrsConfigurationIndexSet`, the ordered set `m_unusedUeSrsConfigurationIndexSet` and
`m_lastAllocatedConfigurationIndex`. -/
structure SrsIndices where
  used : List Nat
  unused : List Nat
  last : Nat
deriving DecidableEq

/-- `NrGnbRrc`. -/
structure Rrc where
  cfg : RrcConfig
  ueMap : List UeManager
  lastAllocatedRnti : Nat
  x2uTeidInfoMap : List X2uTeidInfo
  srs : SrsIndices
  queue : EventQueue Timeout
  out : List RrcOut

/-- An RRC before any UE. -/
def Rrc.init : Rrc where
  cfg := cfg
  ueMap := []
  lastAllocatedRnti := 0
  x2uTeidInfoMap := []
  srs := ⟨[], [], 0⟩
  queue := .empty
  out := []

/-! ## UE contexts -/

namespace UeManager

/-- The timeout that a context waits for in a state. -/
def timeoutOf : UeState → Option TimeoutKind
  | .initialRandomAccess => some .connectionRequest
  | .connectionSetup => some .connectionSetup
  | .connectionRejected => some .connectionRejected
  | .handoverJoining => some .handoverJoining
  | .handoverLeaving => some .handoverLeaving
  | _ => none

/-- The constructor. -/
def new (rnti : Nat) (s : UeState) (componentCarrierId : Nat) : UeManager where
  rnti := rnti
  imsi := 0
  componentCarrierId := componentCarrierId
  state := s
  lastAllocatedDrbid := 0
  drbMap := []
  drbsToBeStarted := []
  pendingRrcConnectionReconfiguration := false
  sourceX2apId := 0
  sourceCellId := 0
  targetX2apId := 0
  targetCellId := 0
  srsConfigurationIndex := 0
  needPhyMacConfiguration := false
  caSupportConfigured := false
  pendingStartDataRadioBearers := false
  packetBuffer := []
  timeouts := fun _ => none

variable (u : UeManager)

/-- `SetSource` and `SetImsi`. -/
def setSource (sourceCellId sourceX2apId imsi : Nat) : UeManager :=
  { u with sourceCellId, sourceX2apId, imsi }

/-- `m_targetX2apId` and `m_targetCellId`, as a handover sets them. -/
def setTarget (targetX2apId targetCellId : Nat) : UeManager :=
  { u with targetX2apId, targetCellId }

/-- Lookup in `m_drbMap`. -/
def findDrb (drbid : Nat) : Option Drb := Keyed.find? Drb.drbIdentity drbid u.drbMap

/-- `m_drbMap` with the status of the PDCP entity of one bearer set. -/
def setPdcp (drbid : Nat) (pdcp : PdcpStatus) : UeManager :=
  { u with
    drbMap := Keyed.modify Drb.drbIdentity drbid (fun d => { d with rlc := d.rlc.setPdcp pdcp })
      u.drbMap }

def recordDataRadioBearersToBeStarted : UeManager :=
  { u with drbsToBeStarted := u.drbsToBeStarted ++ u.drbMap.map Drb.drbIdentity }

def startDataRadioBearers : Except RrcError UeManager :=
  if u.drbsToBeStarted.all fun drbid => (u.findDrb drbid).isSome then
    .ok { u with drbsToBeStarted := [] }
  else .error .unknownDrbid

/-- `BuildRrcConnectionReconfiguration`: the extension for carrier aggregation
is built once. -/
def buildRrcConnectionReconfiguration : UeManager × Option Nat :=
  if !u.caSupportConfigured && decide (1 < cfg.cellIds.length) then
    ({ u with caSupportConfigured := true }, some (cfg.cellIds.length - 1))
  else (u, none)

/-- `GetRrcConnectionReconfigurationForHandover`, the extension. -/
def getRrcConnectionReconfigurationForHandover : UeManager × Option Nat :=
  let (u', sCells) := u.buildRrcConnectionReconfiguration cfg
  (u', if u'.caSupportConfigured && decide (1 < cfg.cellIds.length) then some (sCells.getD 0)
    else none)

/-- `SwitchToState` to a state that is neither initial nor `CONNECTED_NORMALLY`. -/
def switchToState (s : UeState) : UeManager := { u with state := s }

def scheduleRrcConnectionReconfiguration : Except RrcError (UeManager × List RrcOut) :=
  match u.state with
  | .initialRandomAccess | .connectionSetup | .attachRequest | .connectionReconfiguration
  | .connectionReestablishment | .handoverPreparation | .handoverJoining | .handoverLeaving =>
    .ok ({ u with pendingRrcConnectionReconfiguration := true }, [])
  | .connectedNormally =>
    let u' := (buildRrcConnectionReconfiguration cfg
      { u with pendingRrcConnectionReconfiguration := false }).1.recordDataRadioBearersToBeStarted
    .ok (u'.switchToState .connectionReconfiguration, [.ue u.rnti .connectionReconfiguration])
  | s => .error (.unexpectedState s)

/-- The reconfiguration that had to wait until the context is connected. -/
def pendingReconfiguration : Except RrcError (UeManager × List RrcOut) :=
  if u.pendingRrcConnectionReconfiguration then u.scheduleRrcConnectionReconfiguration cfg
  else .ok (u, [])

/-- The start of the bearers that had to wait for carrier aggregation. -/
def pendingStart : Except RrcError UeManager :=
  if u.pendingStartDataRadioBearers && u.caSupportConfigured then u.startDataRadioBearers else .ok u

/-- `SwitchToState(CONNECTED_NORMALLY)`. -/
def switchToConnectedNormally : Except RrcError (UeManager × List RrcOut) := do
  let (u, out) ← (u.switchToState .connectedNormally).pendingReconfiguration cfg
  let u ← u.pendingStart
  .ok (u, out)

/-- `RecvRrcConnectionSetupCompleted`: with several component carriers a
reconfiguration is forced. -/
def forceReconfiguration : UeManager :=
  if !u.caSupportConfigured && decide (1 < cfg.cellIds.length) then
    { u with pendingRrcConnectionReconfiguration := true, pendingStartDataRadioBearers := true }
  else u

/-- The loop of `AddDataRadioBearerInfo`: the first free identity after the
last one allocated, which is not tried. -/
def findDrbid (u : UeManager) : Nat → Nat → Option Nat
  | 0, _ => none
  | n + 1, drbid =>
    if drbid = u.lastAllocatedDrbid then none
    else if drbid ≠ 0 ∧ u.findDrb drbid = none then some drbid
    else u.findDrbid n ((drbid + 1) % 32)

/-- `AddDataRadioBearerInfo`; the map is ordered by the identity. -/
def addDataRadioBearerInfo (drbid : Nat) (d : Drb) : UeManager :=
  { u with
    drbMap := u.drbMap.orderedInsert (fun d d' => d.drbIdentity ≤ d'.drbIdentity) d
    lastAllocatedDrbid := drbid }

def getErabList : List ErabToBeSetupItem :=
  u.drbMap.map fun d => ⟨d.epsBearerIdentity, d.epsBearer, d.gtpTeid⟩

/-- `TransmitPdcpSdu` as it changes the sequence number. -/
def transmitPdcpSdu (pdcp : PdcpStatus) : PdcpStatus :=
  { pdcp with txSn := if 4095 < pdcp.txSn + 1 then 0 else pdcp.txSn + 1 }

/-- `SendPacket`: a packet of an unknown bearer is dropped. -/
def sendPacket (bid : Nat) : Except RrcError UeManager :=
  match u.findDrb bid with
  | none => .ok u
  | some d =>
    match d.rlc.pdcp? with
    | none => .error .noPdcp
    | some pdcp => .ok (u.setPdcp bid (transmitPdcpSdu pdcp))

/-- The packets that a context buffered while it joined, sent over the air. -/
def sendPacketBuffer : Except RrcError UeManager := do
  let u ← u.packetBuffer.foldlM (fun u p => u.sendPacket p.1) u
  .ok { u with packetBuffer := [] }

/-- The list of `RecvHandoverRequestAck`: an item for each RLC AM bearer. The
member `erabId` of an item is never assigned, so its value is an input, `erabIds i` for item `i`. -/
def statusTransferItems (erabIds : Nat → Nat) (u : UeManager) : List StatusTransferItem :=
  (u.drbMap.filterMap fun d => if d.rlc.isAm then d.rlc.pdcp? else none).mapIdx fun i pdcp =>
    ⟨erabIds i % 65536, pdcp.rxSn, pdcp.txSn⟩

/-- One iteration of `RecvSnStatusTransfer`; `Bid2Drbid` takes an 8-bit integer. -/
def recvStatusTransferItem (item : StatusTransferItem) : Except RrcError UeManager :=
  match u.findDrb (item.erabId % 256) with
  | none => .error .unknownDrbid
  | some d =>
    if d.rlc.pdcp?.isNone then .error .noPdcp
    else .ok (u.setPdcp (item.erabId % 256) ⟨item.dlPdcpSn, item.ulPdcpSn⟩)

def recvSnStatusTransfer (items : List StatusTransferItem) : Except RrcError UeManager :=
  items.foldlM recvStatusTransferItem u

end UeManager

/-! ## Indices of the sounding reference signal -/

namespace SrsIndices

def getNewSrsConfigurationIndex (p : SrsIndices) (maxSrsReached : Bool) :
    Except RrcError (SrsIndices × Nat) :=
  match p.unused with
  | [] =>
    if maxSrsReached then .error .noSrsIndex
    else
      let last := (p.last + 1) % 65536
      .ok ({ p with used := p.used.insert last, last }, p.last)
  | i :: unused => .ok ({ p with used := p.used.insert i, unused }, i)

def removeSrsConfigurationIndex (p : SrsIndices) (i : Nat) : Except RrcError SrsIndices :=
  if i ∈ p.used then
    .ok { p with
      used := p.used.filter (· != i)
      unused := if i ∈ p.unused then p.unused else p.unused.orderedInsert (· ≤ ·) i }
  else .error .unknownSrsIndex

end SrsIndices

/-! ## The RRC -/

namespace Rrc

variable (r : Rrc) (rnti : Nat)

/-- `HasUeManager` with what `m_ueMap` holds. -/
def findUe : Option UeManager := Keyed.find? UeManager.rnti rnti r.ueMap

def getUeManager : Except RrcError UeManager :=
  if rnti = 0 then .error .unknownRnti
  else
    match r.findUe rnti with
    | none => .error .unknownRnti
    | some u => .ok u

variable (u : UeManager)

/-- A context written back to the map. -/
def setUe : Rrc :=
  { r with ueMap := Keyed.modify UeManager.rnti u.rnti (fun _ => u) r.ueMap }

/-- Messages sent. -/
def send (out : List RrcOut) : Rrc := { r with out := r.out ++ out }

/-- A message to the X2 entity, which asserts that there is an interface to the cell
(`DoSend…` of `nr-epc-x2.cc`). -/
def sendX2 (cellId : Nat) (m : X2Message) : Except RrcError Rrc :=
  if r.cfg.hasX2Interface cellId then .ok (r.send [.x2 cellId m]) else .error .noX2Interface

/-- `Simulator::Schedule` of a timeout of the context, and the context with its handle. -/
def schedule (kind : TimeoutKind) (u : UeManager) : Rrc × UeManager :=
  ({ r with queue := r.queue.schedule (r.cfg.timeoutDuration kind) ⟨kind, u.rnti⟩ },
    { u with timeouts := Function.update u.timeouts kind r.queue.handle })

/-- `Cancel` of a timeout of the context. -/
def cancel (kind : TimeoutKind) (u : UeManager) : Rrc :=
  { r with queue := r.queue.cancel (u.timeouts kind) }

def cancelPendingEvents : Rrc :=
  ((((r.cancel .connectionRequest u).cancel .connectionRejected u).cancel .connectionSetup u).cancel
    .handoverJoining u).cancel .handoverLeaving u

def componentCarrierToCellId (componentCarrierId : Nat) : Except RrcError Nat :=
  match r.cfg.cellIds[componentCarrierId]? with
  | none => .error .unknownCell
  | some cellId => .ok cellId

/-- The loop of `AddUe` from an RNTI on, with the number of iterations left. -/
def findRnti (r : Rrc) : Nat → Nat → Option Nat
  | 0, _ => none
  | n + 1, rnti =>
    if rnti ≠ 0 ∧ r.findUe rnti = none then some rnti else r.findRnti n ((rnti + 1) % 65536)

/-- The number of iterations of that loop: up to the last but one RNTI before the last one
allocated. While none is allocated its bound `m_lastAllocatedRnti - 1` is negative, and no 16-bit
integer. -/
def rntiCandidates : Nat := if r.lastAllocatedRnti = 0 then 65536 else 65534

/-- `AddUe` in one of the two initial states, with the timeout that
`ConfigureMacPhy` schedules. -/
def addUe (s : UeState) (componentCarrierId : Nat) (maxSrsReached : Bool) :
    Except RrcError (Rrc × UeManager) := do
  let rnti ← match r.findRnti r.rntiCandidates ((r.lastAllocatedRnti + 1) % 65536) with
    | none => .error .noRnti
    | some rnti => .ok rnti
  let (srs, index) ← r.srs.getNewSrsConfigurationIndex maxSrsReached
  let u := { UeManager.new rnti s componentCarrierId with srsConfigurationIndex := index }
  let (r, u) ← match UeManager.timeoutOf s with
    | none => .error (.unexpectedState s)
    | some kind => .ok (schedule { r with lastAllocatedRnti := rnti, srs } kind u)
  let _ ← r.componentCarrierToCellId componentCarrierId
  .ok ({ r with ueMap := u :: r.ueMap }, u)

/-- The indices after those of a context that is removed are given back. -/
def releaseSrs : Except RrcError SrsIndices :=
  if u.srsConfigurationIndex = 0 then .ok r.srs
  else r.srs.removeSrsConfigurationIndex u.srsConfigurationIndex

/-- `RemoveUe`, with `NrUeManager::DoDispose`, which
erases the X2-U TEIDs of the bearers. -/
def removeUe : Except RrcError Rrc :=
  match r.findUe rnti with
  | none => .error .unknownRnti
  | some u => do
    let srs ← r.releaseSrs u
    .ok { r.cancelPendingEvents u with
      ueMap := Keyed.erase UeManager.rnti rnti r.ueMap
      x2uTeidInfoMap := r.x2uTeidInfoMap.filter fun i =>
        !(u.drbMap.map Drb.gtpTeid).contains i.gtpTeid
      srs
      out := if r.cfg.epc then r.out ++ [.s1 (.ueContextRelease rnti)] else r.out }

variable (bearer : EpsBearer)

/-- `GetRlcType`, an entity of that type with a new PDCP entity. -/
def newRlc : Rlc :=
  match r.cfg.epsBearerToRlcMapping with
  | .rlcSmAlways => .sm
  | .rlcUmAlways => .um ⟨0, 0⟩
  | .rlcAmAlways => .am ⟨0, 0⟩
  | .perBased => if bearer.lossy then .um ⟨0, 0⟩ else .am ⟨0, 0⟩

/-- `SetupDataRadioBearer`. A context that joins records the TEID for data
forwarded over X2-U. -/
def setupDataRadioBearer (bearerId gtpTeid : Nat) : Except RrcError (Rrc × UeManager) := do
  let drbid ← match u.findDrbid 32 ((u.lastAllocatedDrbid + 1) % 32) with
    | none => .error .noDrbid
    | some drbid => .ok drbid
  if bearerId ≠ 0 ∧ drbid ≠ bearerId then .error .bearerIdMismatch
  else if u.state = .handoverJoining ∧ gtpTeid ∈ r.x2uTeidInfoMap.map X2uTeidInfo.gtpTeid then
    .error .knownTeid
  else
    let teids := if u.state = .handoverJoining then
        ⟨gtpTeid, u.rnti, drbid⟩ :: r.x2uTeidInfoMap
      else r.x2uTeidInfoMap
    let u := u.addDataRadioBearerInfo drbid ⟨drbid, drbid, bearer, gtpTeid, r.newRlc bearer⟩
    let (u, out) ← u.scheduleRrcConnectionReconfiguration r.cfg
    .ok (({ r with x2uTeidInfoMap := teids }).send out, u)

/-- A context after a method that changes only it, written back with what the method sent. -/
def commit (x : Except RrcError (UeManager × List RrcOut)) : Except RrcError Rrc :=
  x.map fun (u, out) => (r.setUe u).send out

/-! ### Leaving the cell -/

/-- `NrUeManager::RecvIdealUeContextRemoveRequest`. -/
def releaseIndications : Rrc :=
  if r.cfg.epc then
    r.send (u.drbMap.map fun d => .s1 (.releaseIndication u.imsi u.rnti d.drbIdentity))
  else r

/-- `HANDOVER PREPARATION FAILURE` of a context that joins, to its source (`BuildHoPrepFailMsg`). -/
def sendHoPrepFail : Except RrcError Rrc :=
  r.sendX2 u.sourceCellId (.handoverPreparationFailure u.sourceX2apId)

/-- A context that is removed while it joins notifies its source. -/
def notifySource : Except RrcError Rrc :=
  if u.state = .handoverJoining then r.sendHoPrepFail u else .ok r

/-- `DoRecvIdealUeContextRemoveRequest`. -/
def recvIdealUeContextRemoveRequest : Except RrcError Rrc :=
  match r.findUe rnti with
  | none => .ok r
  | some u => do
    let r ← r.notifySource u
    (r.releaseIndications u).removeUe rnti

def sendRrcConnectionRelease : Except RrcError Rrc :=
  (r.send [.ue u.rnti .connectionRelease]).recvIdealUeContextRemoveRequest u.rnti

/-! ### Timeouts -/

/-- The timeout handlers: each asserts the state in which its timer
runs and removes the context. The handover timeouts also notify the other gNB. -/
def timeout (t : Timeout) : Except RrcError Rrc := do
  let u ← r.getUeManager t.rnti
  if UeManager.timeoutOf u.state ≠ some t.kind then .error (.unexpectedTimeout u.state)
  else
    match t.kind with
    | .connectionRequest | .connectionSetup | .connectionRejected => r.removeUe t.rnti
    | .handoverJoining => do
      let r ← r.sendHoPrepFail u
      r.removeUe t.rnti
    | .handoverLeaving => do
      let r ← r.sendX2 u.targetCellId (.handoverCancel u.rnti u.targetX2apId)
      r.sendRrcConnectionRelease u

/-! ### Messages of the UE and of the core network -/

/-- `DoAllocateTemporaryCellRnti`. -/
def allocateTemporaryCellRnti (componentCarrierId : Nat) (maxSrsReached : Bool) :
    Except RrcError Rrc :=
  if maxSrsReached then .ok r
  else do
    let (r, _) ← r.addUe .initialRandomAccess componentCarrierId maxSrsReached
    .ok r

def recvRrcConnectionRequest (rnti ueIdentity : Nat) : Except RrcError Rrc := do
  let u ← r.getUeManager rnti
  match u.state with
  | .initialRandomAccess =>
    let r := r.cancel .connectionRequest u
    if r.cfg.admitRrcConnectionRequest then
      let u := { u with imsi := ueIdentity }.recordDataRadioBearersToBeStarted
      let (r, u) := (r.send [.ue rnti .connectionSetup]).schedule .connectionSetup u
      .ok (r.setUe (u.switchToState .connectionSetup))
    else
      let (r, u) := (r.send [.ue rnti .connectionReject]).schedule .connectionRejected u
      .ok (r.setUe (u.switchToState .connectionRejected))
  | s => .error (.unexpectedState s)

def recvRrcConnectionSetupCompleted : Except RrcError Rrc := do
  let u ← r.getUeManager rnti
  match u.state with
  | .connectionSetup =>
    let r := r.cancel .connectionSetup u
    let u := u.forceReconfiguration r.cfg
    if r.cfg.epc then
      .ok ((r.send [.s1 (.initialUeMessage u.imsi rnti)]).setUe (u.switchToState .attachRequest))
    else r.commit (u.switchToConnectedNormally r.cfg)
  | s => .error (.unexpectedState s)

def initialContextSetupRequest : Except RrcError Rrc := do
  let u ← r.getUeManager rnti
  match u.state with
  | .attachRequest => r.commit (u.switchToConnectedNormally r.cfg)
  | s => .error (.unexpectedState s)

def recvRrcConnectionReconfigurationCompleted : Except RrcError Rrc := do
  let u ← r.getUeManager rnti
  match u.state with
  | .connectionReconfiguration => do
    let u ← u.startDataRadioBearers
    r.commit ({ u with needPhyMacConfiguration := false }.switchToConnectedNormally r.cfg)
  | .connectedNormally | .handoverLeaving => .ok r
  | .handoverJoining => do
    let r := r.cancel .handoverJoining u
    let u ← u.sendPacketBuffer
    let cellId ← r.componentCarrierToCellId u.componentCarrierId
    if r.cfg.epc then
      .ok ((r.send [.s1 (.pathSwitchRequest rnti cellId u.imsi
        (u.drbMap.map fun d => (d.epsBearerIdentity, d.gtpTeid)))]).setUe
          (u.switchToState .handoverPathSwitch))
    else .error .noS1
  | s => .error (.unexpectedState s)

/-- The answer to a request to re-establish the connection. -/
def reestablish : Rrc :=
  (r.send [.ue u.rnti .connectionReestablishment]).setUe
    (u.switchToState .connectionReestablishment)

def recvRrcConnectionReestablishmentRequest : Except RrcError Rrc := do
  let u ← r.getUeManager rnti
  match u.state with
  | .connectedNormally => .ok (r.reestablish u)
  | .handoverLeaving => .ok ((r.cancel .handoverLeaving u).reestablish u)
  | s => .error (.unexpectedState s)

/-- `RecvRrcConnectionReestablishmentComplete`, in any state. -/
def recvRrcConnectionReestablishmentComplete : Except RrcError Rrc := do
  let u ← r.getUeManager rnti
  r.commit (u.switchToConnectedNormally r.cfg)

/-- `DoDataRadioBearerSetupRequest`. -/
def dataRadioBearerSetupRequest (bearerId gtpTeid : Nat) : Except RrcError Rrc := do
  let u ← r.getUeManager rnti
  let (r, u) ← r.setupDataRadioBearer u bearer bearerId gtpTeid
  .ok (r.setUe u)

/-- `DoSendReleaseDataRadioBearer` with `ReleaseDataRadioBearer`. -/
def sendReleaseDataRadioBearer (imsi rnti bearerId : Nat) : Except RrcError Rrc :=
  match r.findUe rnti with
  | none => .ok r
  | some u =>
    match u.findDrb bearerId with
    | none => .error .unknownDrbid
    | some d =>
      if r.cfg.epc then
        let r := { r with
          x2uTeidInfoMap := Keyed.erase X2uTeidInfo.gtpTeid d.gtpTeid r.x2uTeidInfoMap }
        .ok ((r.setUe { u with drbMap := Keyed.erase Drb.drbIdentity bearerId u.drbMap }).send
          [.ue rnti .connectionReconfiguration, .s1 (.releaseIndication imsi rnti bearerId)])
      else .error .noS1

/-- `CmacUeConfigUpdateInd` and `SetPdschConfigDedicated`. -/
def updateConfig : Except RrcError Rrc := do
  let u ← r.getUeManager rnti
  r.commit ({ u with needPhyMacConfiguration := true }.scheduleRrcConnectionReconfiguration r.cfg)

/-- `NrUeManager::SendData` with `NrGnbRrc::SendData`. -/
def sendData (rnti bid : Nat) (p : Packet) : Except RrcError Rrc := do
  let u ← r.getUeManager rnti
  match u.state with
  | .initialRandomAccess | .connectionSetup => .ok r
  | .connectedNormally | .connectionReconfiguration | .connectionReestablishment
  | .handoverPreparation | .handoverPathSwitch => do
    let u ← u.sendPacket bid
    .ok (r.setUe u)
  | .handoverJoining => .ok (r.setUe { u with packetBuffer := u.packetBuffer ++ [(bid, p)] })
  | .handoverLeaving =>
    match u.findDrb bid with
    | none => .error .unknownDrbid
    | some d => r.sendX2 u.targetCellId (.ueData d.gtpTeid p)
  | s => .error (.unexpectedState s)

/-! ### Handover -/

def prepareHandover (cellId : Nat) : Except RrcError Rrc :=
  match u.state with
  | .connectedNormally => do
    let own ← r.componentCarrierToCellId u.componentCarrierId
    if cellId = own then .error .ownCell
    else
      let r ← r.sendX2 cellId (.handoverRequest u.rnti cellId u.imsi u.getErabList)
      .ok (r.setUe ((u.setTarget u.targetX2apId cellId).switchToState .handoverPreparation))
  | s => .error (.unexpectedState s)

/-- `SendHandoverRequest`, which the E2 terminator of the gNB calls. -/
def sendHandoverRequest (rnti cellId : Nat) : Except RrcError Rrc := do
  let u ← r.getUeManager rnti
  r.prepareHandover u cellId

/-- `DoTriggerHandover`, which the handover algorithm of the gNB calls; the
neighbour relations may forbid the handover. -/
def triggerHandover (rnti cellId : Nat) (forbidden : Bool) : Except RrcError Rrc := do
  let u ← r.getUeManager rnti
  if forbidden ∨ u.state ≠ .connectedNormally then .ok r else r.prepareHandover u cellId

def cellToComponentCarrierId (cellId : Nat) : Except RrcError Nat :=
  if cellId ∈ r.cfg.cellIds then .ok (r.cfg.cellIds.idxOf cellId) else .error .unknownCell

/-- The bearers of a `HANDOVER REQUEST`, set up one by one. -/
def setupBearers (bearers : List ErabToBeSetupItem) : Except RrcError (Rrc × UeManager) :=
  bearers.foldlM (fun (r, u) b =>
    r.setupDataRadioBearer u b.erabLevelQosParameters (b.erabId % 256) b.gtpTeid) (r, u)

/-- `DoRecvHandoverRequest`; `sourceCellId` is the first cell at the other end
of the X2 interface, and `raPreambleId` the answer of `AllocateNcRaPreamble`. -/
def recvHandoverRequest (sourceCellId oldGnbUeX2apId targetCellId mmeUeS1apId : Nat)
    (bearers : List ErabToBeSetupItem) (maxSrsReached : Bool) (raPreambleId : Option Nat) :
    Except RrcError Rrc :=
  if !r.cfg.admitHandoverRequest || maxSrsReached then
    r.sendX2 sourceCellId (.handoverPreparationFailure oldGnbUeX2apId)
  else do
    let componentCarrierId ← r.cellToComponentCarrierId targetCellId
    let (r, u) ← r.addUe .handoverJoining componentCarrierId maxSrsReached
    let u := u.setSource sourceCellId oldGnbUeX2apId mmeUeS1apId
    match raPreambleId with
    | none => do
      let r ← (r.setUe u).sendHoPrepFail u
      r.removeUe u.rnti
    | some raPreambleId => do
      let (r, u) ← r.setupBearers u bearers
      let (u, sCells) := u.getRrcConnectionReconfigurationForHandover r.cfg
      let cellId ← r.componentCarrierToCellId componentCarrierId
      (r.setUe u).sendX2 sourceCellId (.handoverRequestAck oldGnbUeX2apId u.rnti
        (bearers.map ErabToBeSetupItem.erabId) ⟨cellId, u.rnti, raPreambleId, sCells⟩)

/-- `RecvHandoverRequestAck`, in any state; `targetCellId` is the first cell at
the other end of the X2 interface. -/
def recvHandoverRequestAck (targetCellId oldGnbUeX2apId newGnbUeX2apId : Nat)
    (admittedBearers : List Nat) (command : HandoverCommand) (erabIds : Nat → Nat) :
    Except RrcError Rrc := do
  let u ← r.getUeManager oldGnbUeX2apId
  if admittedBearers.length ≠ u.drbMap.length then .error .bearersNotAdmitted
  else if command.sCellToAddModList.any (· + 1 != r.cfg.cellIds.length) then
    .error .unequalComponentCarriers
  else
    let (r, u) := (r.send [.ue u.rnti (.handover command)]).schedule .handoverLeaving
      (u.switchToState .handoverLeaving)
    let u := u.setTarget newGnbUeX2apId targetCellId
    (r.setUe u).sendX2 targetCellId
      (.snStatusTransfer oldGnbUeX2apId newGnbUeX2apId (u.statusTransferItems erabIds))

def recvHandoverPreparationFailure (targetCellId oldGnbUeX2apId : Nat) : Except RrcError Rrc :=
  match r.findUe oldGnbUeX2apId with
  | none => .ok r
  | some u =>
    match u.state with
    | .handoverPreparation =>
      if targetCellId = u.targetCellId then r.commit (u.switchToConnectedNormally r.cfg)
      else .error .targetCellMismatch
    | .handoverLeaving =>
      if targetCellId = u.targetCellId then (r.cancel .handoverLeaving u).sendRrcConnectionRelease u
      else .error .targetCellMismatch
    | s => .error (.unexpectedState s)

/-- `DoRecvSnStatusTransfer`. -/
def recvSnStatusTransfer (newGnbUeX2apId : Nat) (items : List StatusTransferItem) :
    Except RrcError Rrc :=
  match r.findUe newGnbUeX2apId with
  | none => .ok r
  | some u => (u.recvSnStatusTransfer items).map r.setUe

/-- `DoRecvUeContextRelease`. -/
def recvUeContextRelease (oldGnbUeX2apId : Nat) : Except RrcError Rrc :=
  match r.findUe oldGnbUeX2apId with
  | none => .ok r
  | some u =>
    if u.state = .handoverLeaving then (r.cancel .handoverLeaving u).removeUe oldGnbUeX2apId
    else .error (.unexpectedState u.state)

/-- `DoRecvHandoverCancel`: the context stays. -/
def recvHandoverCancel (newGnbUeX2apId : Nat) : Except RrcError Rrc :=
  match r.findUe newGnbUeX2apId with
  | none => .ok r
  | some u =>
    if u.state = .handoverJoining then .ok ((r.cancel .handoverJoining u).releaseIndications u)
    else .error (.unexpectedState u.state)

/-- `DoRecvUeData`. -/
def recvUeData (gtpTeid : Nat) (p : Packet) : Except RrcError Rrc :=
  match Keyed.find? X2uTeidInfo.gtpTeid gtpTeid r.x2uTeidInfoMap with
  | none => .error .unknownTeid
  | some i => r.sendData i.rnti i.drbid p

/-- `SendUeContextRelease`: the source may be a cell of the same gNB. -/
def sendUeContextRelease : Except RrcError Rrc :=
  if u.sourceCellId ∈ r.cfg.cellIds then r.recvUeContextRelease u.sourceX2apId
  else r.sendX2 u.sourceCellId (.ueContextRelease u.sourceX2apId u.rnti)

/-- `DoPathSwitchRequestAcknowledge`. -/
def pathSwitchRequestAcknowledge : Except RrcError Rrc := do
  let u ← r.getUeManager rnti
  match u.state with
  | .handoverPathSwitch =>
    let r ← r.sendUeContextRelease u
    r.commit (u.switchToConnectedNormally r.cfg)
  | s => .error (.unexpectedState s)

/-! ## Runs -/

/-- What other objects answer while an X2 message is handled. -/
structure X2Input where
  maxSrsReached : Bool
  raPreambleId : Option Nat
  erabIds : Nat → Nat

/-- The MAC has SRS offsets and preambles left. -/
def X2Input.plenty : X2Input where
  maxSrsReached := false
  raPreambleId := some 60
  erabIds := fun _ => 0

/-- `RecvFromX2cSocket` and `RecvFromX2uSocket` of the interface to the gNB
whose first cell is `remoteCellId`. -/
def recvX2 (remoteCellId : Nat) (inp : X2Input) : X2Message → Except RrcError Rrc
  | .handoverRequest old targetCellId imsi bearers =>
    r.recvHandoverRequest remoteCellId old targetCellId imsi bearers inp.maxSrsReached
      inp.raPreambleId
  | .handoverRequestAck old new admitted command =>
    r.recvHandoverRequestAck remoteCellId old new admitted command inp.erabIds
  | .handoverPreparationFailure old => r.recvHandoverPreparationFailure remoteCellId old
  | .snStatusTransfer _ new items => r.recvSnStatusTransfer new items
  | .ueContextRelease old _ => r.recvUeContextRelease old
  | .handoverCancel _ new => r.recvHandoverCancel new
  | .ueData gtpTeid p => r.recvUeData gtpTeid p

end Rrc

/-- The calls that other objects make. -/
inductive RrcCall
  | allocateTemporaryCellRnti (componentCarrierId : Nat) (maxSrsReached : Bool)
  | recvRrcConnectionRequest (rnti ueIdentity : Nat)
  | recvRrcConnectionSetupCompleted (rnti : Nat)
  | recvRrcConnectionReconfigurationCompleted (rnti : Nat)
  | recvRrcConnectionReestablishmentRequest (rnti : Nat)
  | recvRrcConnectionReestablishmentComplete (rnti : Nat)
  | recvIdealUeContextRemoveRequest (rnti : Nat)
  | initialContextSetupRequest (rnti : Nat)
  | dataRadioBearerSetupRequest (rnti : Nat) (bearer : EpsBearer) (bearerId gtpTeid : Nat)
  | sendReleaseDataRadioBearer (imsi rnti bearerId : Nat)
  | pathSwitchRequestAcknowledge (rnti : Nat)
  | updateConfig (rnti : Nat)
  | sendData (rnti bid : Nat) (p : Packet)
  | sendHandoverRequest (rnti cellId : Nat)
  | triggerHandover (rnti cellId : Nat) (forbidden : Bool)
  | recvX2 (remoteCellId : Nat) (inp : Rrc.X2Input) (m : X2Message)

/-- What happens at an RRC: a call at a time that no pending timeout precedes, or the timeout that
is next. -/
inductive RrcAction
  | call (t : Nat) (c : RrcCall)
  | timer

namespace Rrc

variable (r : Rrc)

/-- The effect of a call. -/
def call : RrcCall → Except RrcError Rrc
  | .allocateTemporaryCellRnti cc maxSrs => r.allocateTemporaryCellRnti cc maxSrs
  | .recvRrcConnectionRequest rnti imsi => r.recvRrcConnectionRequest rnti imsi
  | .recvRrcConnectionSetupCompleted rnti => r.recvRrcConnectionSetupCompleted rnti
  | .recvRrcConnectionReconfigurationCompleted rnti =>
    r.recvRrcConnectionReconfigurationCompleted rnti
  | .recvRrcConnectionReestablishmentRequest rnti => r.recvRrcConnectionReestablishmentRequest rnti
  | .recvRrcConnectionReestablishmentComplete rnti =>
    r.recvRrcConnectionReestablishmentComplete rnti
  | .recvIdealUeContextRemoveRequest rnti => r.recvIdealUeContextRemoveRequest rnti
  | .initialContextSetupRequest rnti => r.initialContextSetupRequest rnti
  | .dataRadioBearerSetupRequest rnti bearer bearerId teid =>
    r.dataRadioBearerSetupRequest rnti bearer bearerId teid
  | .sendReleaseDataRadioBearer imsi rnti bearerId =>
    r.sendReleaseDataRadioBearer imsi rnti bearerId
  | .pathSwitchRequestAcknowledge rnti => r.pathSwitchRequestAcknowledge rnti
  | .updateConfig rnti => r.updateConfig rnti
  | .sendData rnti bid p => r.sendData rnti bid p
  | .sendHandoverRequest rnti cellId => r.sendHandoverRequest rnti cellId
  | .triggerHandover rnti cellId forbidden => r.triggerHandover rnti cellId forbidden
  | .recvX2 remoteCellId inp m => r.recvX2 remoteCellId inp m

/-- The RRC with the queue at another time. -/
def setQueue (q : EventQueue Timeout) : Rrc := { r with queue := q }

/-- The effect of an action; `none` where it cannot happen. -/
def act : RrcAction → Option (Except RrcError Rrc)
  | .call t c => (r.queue.advance? t).map fun q => (r.setQueue q).call c
  | .timer => r.queue.next?.map fun (e, q) => (r.setQueue q).timeout e.ev

/-- One step of a run; an error ends it. -/
def Step (a : RrcAction) (r' : Rrc) : Prop := r.act a = some (.ok r')

/-- The step as a partial function. -/
def step? (a : RrcAction) : Option Rrc :=
  match r.act a with
  | some (.ok r') => some r'
  | _ => none

theorem step_of_step? {r r' : Rrc} {a : RrcAction} (h : r.step? a = some r') : Step r a r' := by
  unfold step? at h
  split at h
  · next hact => rw [Step, hact, Option.some.inj h]
  · cases h

/-- The states that an RRC reaches from its configuration. -/
def Reachable : Rrc → Prop := Lts.Run Step Lts.anyStep (init cfg)

end Rrc

end OranNs3
