import Mathlib.Data.List.Dedup
import OranNs3.Rrc.Model

/-!
# Random access in a cell

The random access of `n` UEs in one cell: the MAC of the UEs (`nr-ue-mac.cc`) with the filter of
their PHY (`nr-ue-phy.cc`), the MAC of the gNB (`nr-gnb-mac.cc`) with the accesses that its
scheduler keeps, and the RRC of the gNB, which allocates the RNTIs. The identity of a
contention-based preamble comes from a counter that all UEs of the simulation share.

Preambles and responses are on the air for an arbitrary time. A preamble reaches the gNB at most
once and is then counted; a response may be received by any UE of the cell. The MAC of the gNB sees
only the identity of a preamble; the model also records who sent it. Events of the UEs and timeouts
of the RRC run in the order of their times, by two queues with the same clock.
-/

namespace OranNs3

/-! ## Data -/

/-- `NcRaPreambleInfo` with its key (`nr-gnb-mac.h`). -/
structure NcRaPreambleInfo where
  preambleId : Nat
  rnti : Nat
  expiryTime : Nat
deriving DecidableEq

/-- A preamble that a UE sent, by a contention-based access or not. -/
structure RachPreamble where
  preambleId : Nat
  ue : Nat
  contention : Bool
deriving DecidableEq

/-- `NrBuildRarListElement_s`: a response, with the RNTI of the grant for message 3. -/
structure Rar where
  raPreambleId : Nat
  rnti : Nat
deriving DecidableEq

/-- The attributes of the MAC, the component carrier of the cell, and the times of a slot and of a
millisecond. -/
structure RaConfig where
  numberOfRaPreambles : Nat
  preambleTransMax : Nat
  raResponseWindowSize : Nat
  componentCarrierId : Nat
  slotPeriod : Nat
  millisecond : Nat

/-- The default values of the attributes, with slots of a millisecond. -/
def RaConfig.default : RaConfig where
  numberOfRaPreambles := 52
  preambleTransMax := 50
  raResponseWindowSize := 3
  componentCarrierId := 0
  slotPeriod := 1
  millisecond := 1

/-- `NrGnbMac`: `m_allocatedNcRaPreambleMap`, the preambles that `m_receivedRachPreambleCount`
counts, `m_rapIdRntiMap`, whose keys are RNTIs in an 8-bit integer; and `m_rachList` of the
scheduler. -/
structure GnbMac where
  allocatedNcRaPreambleMap : List NcRaPreambleInfo
  receivedRachPreambles : List RachPreamble
  rapIdRntiMap : List (Nat × Nat)
  rachList : List Nat

/-- `NrUeMac` and, of `NrUePhy`, the identity of the preamble that it expects a response to. -/
structure UeMac where
  raPreambleId : Nat
  phyRaPreambleId : Nat
  rnti : Nat
  preambleTransmissionCounter : Nat
  waitingForRaResponse : Bool
  noRaResponseReceivedEvent : EventId

/-- A UE before its first access. -/
def UeMac.init : UeMac where
  raPreambleId := 0
  phyRaPreambleId := 0
  rnti := 0
  preambleTransmissionCounter := 0
  waitingForRaResponse := true
  noRaResponseReceivedEvent := none

variable (n : Nat)

/-- The events of a UE: `StartWaitingForRaResponse` and `RaResponseTimeout`. -/
inductive RaEvent
  | startWaitingForRaResponse (i : Fin n)
  | raResponseTimeout (i : Fin n) (contention : Bool)

/-- A cell with `n` UEs. The handover commands on their way are the RNTIs and preambles that they
carry. -/
structure Cell where
  cfg : RaConfig
  raPreambleCounter : Nat
  ue : Fin n → UeMac
  queue : EventQueue (RaEvent n)
  rrc : Rrc
  mac : GnbMac
  commands : List (Nat × Nat)
  uplink : List RachPreamble
  downlink : List (List Rar)

/-- A cell before any access. -/
def Cell.init (cfg : RaConfig) (rrc : RrcConfig) : Cell n where
  cfg := cfg
  raPreambleCounter := 0
  ue := fun _ => .init
  queue := .empty
  rrc := .init rrc
  mac := ⟨[], [], [], []⟩
  commands := []
  uplink := []
  downlink := []

/-! ## The MAC of a UE -/

/-- `SendRaPreamble(true)`: the identity of the preamble, and the counter `g_raPreambleId` after it.
-/
def nextRaPreambleId (counter : Nat) : Nat × Nat :=
  if counter = 255 then (0, 1) else (counter, (counter + 1) % 256)

namespace Cell

variable {n : Nat} (s : Cell n) (i : Fin n)

/-- `SendRaPreamble` after the preamble is chosen, with `SendRachPreamble` of the
PHY. -/
def sendRaPreamble (preambleId : Nat) (contention : Bool) : Cell n :=
  let q := s.queue.schedule s.cfg.slotPeriod (.startWaitingForRaResponse i)
  { s with
    queue := q.schedule (s.cfg.slotPeriod * (6 + s.cfg.raResponseWindowSize))
      (.raResponseTimeout i contention)
    ue := Function.update s.ue i { s.ue i with
      raPreambleId := preambleId
      phyRaPreambleId := preambleId
      noRaResponseReceivedEvent := q.handle }
    uplink := s.uplink ++ [⟨preambleId, i, contention⟩] }

/-- `RandomlySelectAndSendRaPreamble`: the identity that it draws is overwritten. -/
def randomlySelectAndSendRaPreamble : Cell n :=
  sendRaPreamble { s with raPreambleCounter := (nextRaPreambleId s.raPreambleCounter).2 } i
    (nextRaPreambleId s.raPreambleCounter).1 true

/-- `DoStartNonContentionBasedRandomAccessProcedure`. -/
def startNonContentionBasedRandomAccessProcedure (rnti preambleId : Nat) : Cell n :=
  sendRaPreamble { s with
    ue := Function.update s.ue i { s.ue i with rnti, preambleTransmissionCounter := 0 } }
    i preambleId false

def raResponseTimeout (contention : Bool) : Cell n :=
  let counter := ((s.ue i).preambleTransmissionCounter + 1) % 256
  let s := { s with
    ue := Function.update s.ue i { s.ue i with
      waitingForRaResponse := false
      preambleTransmissionCounter := counter } }
  if counter = s.cfg.preambleTransMax + 1 then s
  else if contention then s.randomlySelectAndSendRaPreamble i
  else s.sendRaPreamble i (s.ue i).raPreambleId false

def startWaitingForRaResponse : Cell n :=
  { s with ue := Function.update s.ue i { s.ue i with waitingForRaResponse := true } }

def recvRaResponse (rar : Rar) : Cell n :=
  { s with
    queue := s.queue.cancel (s.ue i).noRaResponseReceivedEvent
    ue := Function.update s.ue i { s.ue i with waitingForRaResponse := false, rnti := rar.rnti } }

/-- The case of a RAR in `DoReceiveControlMessage`. -/
def receiveRar (m : List Rar) : Cell n :=
  if (s.ue i).waitingForRaResponse then
    (m.filter fun x => x.raPreambleId == (s.ue i).raPreambleId).foldl
      (fun s x => s.recvRaResponse i x) s
  else s

/-- `ProcessRar`: the PHY passes on one message, then expects none (255). -/
def processRar (m : List Rar) : Cell n :=
  if m.any fun x => x.raPreambleId == (s.ue i).phyRaPreambleId then
    let s := s.receiveRar i m
    { s with ue := Function.update s.ue i { s.ue i with phyRaPreambleId := 255 } }
  else s

/-- `DoReset` of the MAC. -/
def resetMac : Cell n :=
  { s with
    queue := s.queue.cancel (s.ue i).noRaResponseReceivedEvent
    ue := Function.update s.ue i { s.ue i with rnti := 0 } }

/-- `DoReset` of the PHY. -/
def resetPhy : Cell n :=
  { s with ue := Function.update s.ue i { s.ue i with phyRaPreambleId := 255 } }

end Cell

/-! ## The MAC of the gNB -/

namespace GnbMac

variable (m : GnbMac)

/-- The RNTI for which a preamble was allocated. -/
def reserved (preambleId : Nat) : Option Nat :=
  (Keyed.find? NcRaPreambleInfo.preambleId preambleId m.allocatedNcRaPreambleMap).map
    NcRaPreambleInfo.rnti

/-- The identities that were received, in the order of the map. -/
def receivedIds : List Nat :=
  (m.receivedRachPreambles.map RachPreamble.preambleId).dedup.insertionSort (· ≤ ·)

/-- `m_receivedRachPreambleCount[preambleId]`. -/
def receivedCount (preambleId : Nat) : Nat :=
  (m.receivedRachPreambles.map RachPreamble.preambleId).count preambleId

/-- The RNTI of an answer, from the map of allocated preambles or from the RRC, which gives 0 where
no SRS index is left. -/
def answerRnti (r : Rrc) (componentCarrierId : Nat) (maxSrsReached : Bool)
    (preambleId : Nat) : Except RrcError (Rrc × Nat) :=
  match m.reserved preambleId with
  | some rnti => .ok (r, rnti)
  | none => do
    let r ← r.allocateTemporaryCellRnti componentCarrierId maxSrsReached
    .ok (r, if maxSrsReached then 0 else r.lastAllocatedRnti)

/-- The loop of `ProcessRaPreambles`: the answers, none to a collision. The map
`m_rapIdRntiMap`, which the loop does not read, is filled afterwards. -/
def answers (m : GnbMac) (componentCarrierId : Nat) (maxSrsReached : Nat → Bool) :
    List Nat → Rrc → Except RrcError (Rrc × List Rar)
  | [], r => .ok (r, [])
  | id :: ids, r =>
    if 1 < m.receivedCount id then m.answers componentCarrierId maxSrsReached ids r
    else do
      let (r, rnti) ← m.answerRnti r componentCarrierId (maxSrsReached id) id
      let (r, rars) ← m.answers componentCarrierId maxSrsReached ids r
      .ok (r, ⟨id, rnti⟩ :: rars)

/-- `m_rapIdRntiMap.insert`: a key that is there already keeps its value. -/
def insertRapId (map : List (Nat × Nat)) (rar : Rar) : List (Nat × Nat) :=
  if (map.lookup (rar.rnti % 256)).isSome then map else (rar.rnti % 256, rar.raPreambleId) :: map

theorem lookup_foldl_insertRapId (k : Nat) : ∀ (rars : List Rar) (map : List (Nat × Nat)),
    (rars.foldl insertRapId map).lookup k =
      (map.lookup k).or ((rars.find? fun x => x.rnti % 256 == k).map Rar.raPreambleId)
  | [], map => by simp
  | x :: rars, map => by
    rw [List.foldl_cons, lookup_foldl_insertRapId k rars, List.find?_cons, insertRapId]
    by_cases hk : x.rnti % 256 = k
    · subst hk
      cases h : map.lookup (x.rnti % 256) <;> simp [h]
    · have hlookup : List.lookup k (if (map.lookup (x.rnti % 256)).isSome then map
          else (x.rnti % 256, x.raPreambleId) :: map) = map.lookup k := by
        split
        · rfl
        · have hne : (k == x.rnti % 256) = false := beq_false_of_ne (Ne.symm hk)
          rw [List.lookup_cons, hne]
      rw [hlookup, beq_false_of_ne hk]

/-- `ProcessRaPreambles`, with the scheduler's `SchedDlRachInfoReq`. -/
def processRaPreambles (componentCarrierId : Nat) (maxSrsReached : Nat → Bool)
    (r : Rrc) : Except RrcError (Rrc × GnbMac) := do
  let (r, rars) ← m.answers componentCarrierId maxSrsReached m.receivedIds r
  .ok (r, { m with
    receivedRachPreambles := []
    rapIdRntiMap := rars.foldl insertRapId m.rapIdRntiMap
    rachList := rars.map Rar.rnti })

/-- The response to an access that was granted. -/
def rarOf (rnti : Nat) : Option Rar :=
  (m.rapIdRntiMap.lookup (rnti % 256)).map fun id => ⟨id, rnti⟩

/-- `DoScheduleUlMsg3` of the scheduler, which grants the first
accesses of its list and forgets the others, and `DoBuildRarList`, which aborts
where the RNTI is not in the map. -/
def buildRarList (granted : Nat) : Option (GnbMac × List Rar) :=
  match (m.rachList.take granted).reverse with
  | [] => some ({ m with rachList := [] }, [])
  | rnti :: rntis =>
    ((rnti :: rntis).mapM m.rarOf).map fun rars =>
      ({ m with rachList := [], rapIdRntiMap := [] }, rars)

/-- The loop of `DoAllocateNcRaPreamble`: a preamble that is free, or whose
allocation expired and whose UE has completed its access (`IsRandomAccessCompleted`). -/
def findNcRaPreamble (m : GnbMac) (r : Rrc) (now : Nat) : List Nat → Except RrcError (Option Nat)
  | [] => .ok none
  | id :: ids =>
    match Keyed.find? NcRaPreambleInfo.preambleId id m.allocatedNcRaPreambleMap with
    | none => .ok (some id)
    | some i =>
      if i.expiryTime < now then
        match r.getUeManager i.rnti with
        | .error e => .error e
        | .ok u =>
          if u.state = .connectedNormally ∨ u.state = .connectionReconfiguration then .ok (some id)
          else m.findNcRaPreamble r now ids
      else m.findNcRaPreamble r now ids

/-- The allocation of a preamble that was found. -/
def allocateNcRaPreamble (preambleId rnti expiryTime : Nat) : GnbMac :=
  { m with
    allocatedNcRaPreambleMap := ⟨preambleId, rnti, expiryTime⟩ ::
      Keyed.erase NcRaPreambleInfo.preambleId preambleId m.allocatedNcRaPreambleMap }

/-- `DoRemoveUe`. -/
def removeUe (rnti : Nat) : GnbMac :=
  { m with
    allocatedNcRaPreambleMap := m.allocatedNcRaPreambleMap.filter fun i => i.rnti != rnti
    receivedRachPreambles := m.receivedRachPreambles.filter fun x =>
      m.reserved x.preambleId != some rnti }

end GnbMac

/-! ## The cell -/

namespace Cell

variable {n : Nat} (s : Cell n)

/-- The cell after a call of the RRC: the MAC removes the UEs that the RRC removed. -/
def setRrc (r : Rrc) : Cell n :=
  { s with
    rrc := r
    mac := ((s.rrc.ueMap.map UeManager.rnti).filter fun rnti =>
      !(r.ueMap.map UeManager.rnti).contains rnti).foldl GnbMac.removeUe s.mac }

/-- How long an allocation lasts. -/
def expiryInterval : Nat :=
  s.cfg.preambleTransMax * (s.cfg.raResponseWindowSize + 5) * s.cfg.millisecond

/-- `DoRecvHandoverRequest` of the RRC, which asks the MAC for a preamble if it admits the UE. The
preamble is allocated for the RNTI of the new context, and the command goes to a UE. -/
def recvHandoverRequest (sourceCellId old targetCellId imsi : Nat)
    (bearers : List ErabToBeSetupItem) (maxSrsReached : Bool) : Except RrcError (Cell n) :=
  if !s.rrc.cfg.admitHandoverRequest || maxSrsReached then do
    let r ← s.rrc.recvHandoverRequest sourceCellId old targetCellId imsi bearers maxSrsReached none
    .ok (s.setRrc r)
  else do
    let preambleId ← s.mac.findNcRaPreamble s.rrc s.queue.now
      (List.range' s.cfg.numberOfRaPreambles (64 - s.cfg.numberOfRaPreambles))
    let r ← s.rrc.recvHandoverRequest sourceCellId old targetCellId imsi bearers maxSrsReached
      preambleId
    match preambleId with
    | none => .ok (s.setRrc r)
    | some id => .ok { s with
        rrc := r
        mac := s.mac.allocateNcRaPreamble id r.lastAllocatedRnti (s.queue.now + s.expiryInterval)
        commands := s.commands ++ [(r.lastAllocatedRnti, id)] }

end Cell

/-- What happens in a cell. -/
inductive RaAction
  /-- Time passes in which nothing happens. -/
  | advance (t : Nat)
  /-- A contention-based access in another cell. -/
  | elsewhere
  /-- `StartContentionBasedRandomAccessProcedure` of a UE. -/
  | connect (i : Fin n)
  /-- A UE receives one of the handover commands. -/
  | handover (i : Fin n) (k : Nat)
  /-- The next event of a UE. -/
  | event
  | resetMac (i : Fin n)
  | resetPhy (i : Fin n)
  /-- A preamble reaches the gNB. -/
  | receiveRachPreamble (k : Nat)
  /-- A preamble is lost. -/
  | losePreamble (k : Nat)
  /-- The slot in which the gNB processes the preambles it received. -/
  | processRaPreambles (maxSrsReached : Nat → Bool)
  /-- The scheduler grants the first accesses of its list. -/
  | grant (granted : Nat)
  /-- A UE receives a response that is on the air. -/
  | receiveRar (i : Fin n) (k : Nat)
  /-- A response is over. -/
  | endRar (k : Nat)
  | handoverRequest (sourceCellId old targetCellId imsi : Nat) (bearers : List ErabToBeSetupItem)
      (maxSrsReached : Bool)
  /-- A call of the RRC that does not involve the MAC of the cell. -/
  | call (c : RrcCall)
  /-- The next timeout of the RRC. -/
  | timer

/-- The calls that the MAC of a component carrier makes, or that ask it for a preamble. -/
def RrcCall.viaMac (cfg : RrcConfig) (componentCarrierId : Nat) : RrcCall → Bool
  | .allocateTemporaryCellRnti cc _ => cc == componentCarrierId
  | .recvX2 _ _ (.handoverRequest _ targetCellId _ _) =>
    cfg.cellIds[componentCarrierId]? == some targetCellId
  | _ => false

namespace Cell

variable {n : Nat} (s : Cell n)

/-- The effect of an event of a UE. -/
def runEvent : RaEvent n → Cell n
  | .startWaitingForRaResponse i => s.startWaitingForRaResponse i
  | .raResponseTimeout i contention => s.raResponseTimeout i contention

/-- Both queues at another time. -/
def setQueues (q : EventQueue (RaEvent n)) (q' : EventQueue Timeout) : Cell n :=
  { s with queue := q, rrc := s.rrc.setQueue q' }

/-- One step of a run; `none` where it cannot happen, or stops the program. -/
def step? : RaAction n → Option (Cell n)
  | .advance t => do
    let q ← s.queue.advance? t
    let q' ← s.rrc.queue.advance? t
    some (s.setQueues q q')
  | .elsewhere => some { s with raPreambleCounter := (nextRaPreambleId s.raPreambleCounter).2 }
  | .connect i => some (s.randomlySelectAndSendRaPreamble i)
  | .handover i k => s.commands[k]?.map fun c =>
    { s with commands := s.commands.eraseIdx k }.startNonContentionBasedRandomAccessProcedure i c.1
      c.2
  | .event => do
    let (e, q) ← s.queue.next?
    let q' ← s.rrc.queue.advance? q.now
    some ((s.setQueues q q').runEvent e.ev)
  | .resetMac i => some (s.resetMac i)
  | .resetPhy i => some (s.resetPhy i)
  | .receiveRachPreamble k => s.uplink[k]?.map fun x =>
    { s with
      uplink := s.uplink.eraseIdx k
      mac := { s.mac with receivedRachPreambles := s.mac.receivedRachPreambles ++ [x] } }
  | .losePreamble k => some { s with uplink := s.uplink.eraseIdx k }
  | .processRaPreambles maxSrs =>
    match s.mac.processRaPreambles s.cfg.componentCarrierId maxSrs s.rrc with
    | .error _ => none
    | .ok (r, m) => some { s with rrc := r, mac := m }
  | .grant granted => (s.mac.buildRarList granted).map fun (m, rars) =>
    { s with mac := m, downlink := if rars.isEmpty then s.downlink else s.downlink ++ [rars] }
  | .receiveRar i k => s.downlink[k]?.map fun m => s.processRar i m
  | .endRar k => some { s with downlink := s.downlink.eraseIdx k }
  | .handoverRequest sourceCellId old targetCellId imsi bearers maxSrs =>
    (s.recvHandoverRequest sourceCellId old targetCellId imsi bearers maxSrs).toOption
  | .call c =>
    if c.viaMac s.rrc.cfg s.cfg.componentCarrierId then none
    else ((s.rrc.call c).toOption).map s.setRrc
  | .timer => do
    let (e, q') ← s.rrc.queue.next?
    let q ← s.queue.advance? q'.now
    let s := s.setQueues q q'
    ((s.rrc.timeout e.ev).toOption).map s.setRrc

/-- The steps as a relation. -/
def Step (a : RaAction n) (t : Cell n) : Prop := s.step? a = some t

end Cell

end OranNs3
