import OranNs3.Repository.Model

/-!
# The E2 interface

The messages between the terminators of the nodes (`OranNrE2NodeTerminator`,
`oran-e2-node-terminator.cc`) and that of the RIC (`OranNrNearRtRicE2Terminator`,
`oran-nr-near-rt-ric-e2terminator.cc`), over the simulator's event queue: a message in flight is a
scheduled event. Terminators are objects of a heap, and a `Ptr` to one is an index of it, an
`Option` where it can be null. What is drawn from random variables is an input of the step.

Of the reporters those of transmitted and dropped bytes are modelled. A trigger may call
`PerformReport` at any time. Left out are other reports, the log of commands, and what a command
does to the devices of a node. The RIC turns its terminator and its repository on and off together;
the repository is a file that keeps its rows.

Ghost fields: the reporter a report comes from, the bytes recorded and the reports generated by a
reporter, which terminators have sent a registration request, the ids assigned to each, the ids by
which `m_nodeTerminators` was indexed, and the reports that arrived.
-/

namespace OranNs3

/-- A pointer to a terminator of a node (`Ptr<OranNrE2NodeTerminator>`). -/
abbrev TermId := Nat

/-! ## Reports and reporters -/

/-- The classes of reports, and of the reporters that generate them. -/
inductive ReportKind
  | txPdu
  | txDrop
deriving DecidableEq

/-- `OranReporterNrUeTxPdu::Sample` and `OranReporterNrUeTxDrop::Sample`. -/
structure Reporter.Sample where
  time : Time
  rnti : Nat
  lcid : Nat
  bytes : Nat
deriving DecidableEq

/-- A report (`OranReportNrUeTxPdu`, `OranReportNrUeTxDrop`). The field `origin` is ghost: the
terminator of the reporter and its place among the reporters of the terminator. -/
structure Report where
  kind : ReportKind
  reporterE2NodeId : Nat
  sample : Reporter.Sample
  origin : TermId × Nat
deriving DecidableEq

/-- `OranReportTrigger`, linked to its reporter while it is active. -/
structure ReportTrigger where
  active : Bool
  initialReport : Bool
deriving DecidableEq

/-- `OranReporter`, with the samples in the order of their keys (`m_samples`); `recorded` and
`generated` are ghost. -/
structure Reporter where
  kind : ReportKind
  active : Bool
  trigger : Option ReportTrigger
  samples : List Reporter.Sample
  recorded : Nat
  generated : List Report
deriving DecidableEq

/-- Where the program stops: a reporter without a trigger is notified or deactivated, a message is
delivered to a null terminator, or an attribute is set to a null pointer, which
`PointerValue::GetAccessor` (`pointer.h`) refuses: a fatal error of `ObjectBase::SetAttribute`. -/
inductive E2Abort
  | nullTrigger
  | nullTerminator
  | nullPointerValue
deriving DecidableEq

namespace Reporter

/-- A reporter with its trigger, as they are constructed. -/
def fresh (kind : ReportKind) (initialReport : Bool) : Reporter :=
  ⟨kind, false, some ⟨false, initialReport⟩, [], 0, []⟩

/-- The order of the keys of `m_samples`. -/
def keyLt (k k' : Nat × Nat) : Bool := decide (k.1 < k'.1) || (k.1 == k'.1 && decide (k.2 < k'.2))

/-- Add bytes to the sample of a key, which is inserted when there is none. The counter has 64
bits. -/
def addSample (key : Sample → Nat × Nat) (new : Sample) : List Sample → List Sample
  | [] => [{ new with bytes := new.bytes % 2 ^ 64 }]
  | s :: ss =>
    if key s = key new then { new with bytes := (s.bytes + new.bytes) % 2 ^ 64 } :: ss
    else if keyLt (key new) (key s) then { new with bytes := new.bytes % 2 ^ 64 } :: s :: ss
    else s :: addSample key new ss

/-- `AddTxPdu`: the samples are kept by LCID. -/
def addTxPdu (new : Sample) (samples : List Sample) : List Sample :=
  addSample (fun s => (s.lcid, 0)) new samples

/-- `AddTxDrop`: the samples are kept by RNTI and LCID. -/
def addTxDrop (new : Sample) (samples : List Sample) : List Sample :=
  addSample (fun s => (s.rnti, s.lcid)) new samples

variable (r : Reporter)

/-- A call of `AddTxPdu` or `AddTxDrop`, whichever the reporter has. -/
def addTx (new : Sample) : Reporter :=
  { r with
    samples := match r.kind with
      | .txPdu => addTxPdu new r.samples
      | .txDrop => addTxDrop new r.samples
    recorded := r.recorded + new.bytes }

/-- `GenerateReports` of an
active reporter: one report for each sample, with the id the terminator has now. -/
def reportsOf (origin : TermId × Nat) (e2NodeId : Nat) : List Report :=
  r.samples.map fun s => ⟨r.kind, e2NodeId, s, origin⟩

/-- The reporter after `GenerateReports`. -/
def flush (origin : TermId × Nat) (e2NodeId : Nat) : Reporter :=
  { r with samples := [], generated := r.generated ++ r.reportsOf origin e2NodeId }

/-- `Deactivate`. To unlink itself, a trigger that is active sets the attribute `Trigger` of the
reporter to a null pointer. -/
def deactivate : Except E2Abort Reporter :=
  if r.active then
    match r.trigger with
    | none => .error .nullTrigger
    | some t => if t.active then .error .nullPointerValue else .ok { r with active := false }
  else .ok r

def activate : Except E2Abort Reporter :=
  match r.active, r.trigger with
  | false, some t => .ok { r with active := true, trigger := some { t with active := true } }
  | _, _ => r.deactivate

end Reporter

/-! ## The terminator of a node -/

/-- `OranNrE2NodeTerminator` apart from its timers, with the type of its node and the IMSI or cell
id of its device. -/
structure E2Node where
  type : NodeType
  deviceId : Nat
  active : Bool
  e2NodeId : Nat
  reports : List Report
  reporters : List Reporter

/-- `OranNrE2NodeTerminator`. -/
structure Terminator extends E2Node where
  registrationEvent : EventId
  sendEvent : EventId

namespace E2Node

variable (self : TermId) (ν : E2Node)

/-- `StoreReport` of each report. -/
def storeReports (reports : List Report) : E2Node :=
  if ν.active then { ν with reports := ν.reports ++ reports } else ν

/-- `OranReporter::PerformReport` of the `i`-th reporter. -/
def performReport (i : Nat) : E2Node :=
  match ν.reporters[i]? with
  | some r =>
    if r.active then
      { ν with reporters := ν.reporters.set i (r.flush (self, i) ν.e2NodeId) }.storeReports
        (r.reportsOf (self, i) ν.e2NodeId)
    else ν
  | none => ν

/-- `OranReporter::NotifyRegistrationComplete` of the `i`-th reporter, with
that of its trigger. -/
def notifyRegistrationComplete (i : Nat) : Except E2Abort E2Node :=
  match ν.reporters[i]? with
  | some r =>
    match r.trigger with
    | none => .error .nullTrigger
    | some t => .ok (if t.active && t.initialReport then ν.performReport self i else ν)
  | none => .ok ν

/-- What `ReceiveRegistrationResponse` does to an active
terminator before it sets the timer. -/
def learnId (e2NodeId : Nat) : Except E2Abort E2Node :=
  if ν.e2NodeId ≠ e2NodeId then
    if 0 < e2NodeId then
      (List.range ν.reporters.length).foldlM (notifyRegistrationComplete self) { ν with e2NodeId }
    else .ok { ν with e2NodeId }
  else .ok ν

/-- A call of `AddTxPdu` or `AddTxDrop` of the `i`-th reporter. -/
def addTx (i : Nat) (new : Reporter.Sample) : E2Node :=
  { ν with reporters := ν.reporters.modify i fun r => r.addTx new }

/-- The node becomes active, without the reports it may have kept. -/
def powerOn : E2Node := { ν with active := true, reports := [] }

/-- The reporters are activated. -/
def activateReporters : Except E2Abort E2Node := do
  let reporters ← ν.reporters.mapM Reporter.activate
  return { ν with reporters }

/-- The reporters are deactivated. -/
def deactivateReporters : Except E2Abort E2Node := do
  let reporters ← ν.reporters.mapM Reporter.deactivate
  return { ν with reporters }

end E2Node

/-! ## The system -/

/-- The events the terminators schedule: timers of a node, messages to the RIC, and messages to a
node, which the RIC looks up in `m_nodeTerminators` for the last two. -/
inductive E2Event
  | register (T : TermId)
  | doSendReports (T : TermId)
  | receiveRegistrationRequest (type : NodeType) (id : Nat) (T : TermId)
  | receiveDeregistrationRequest (e2NodeId : Nat)
  | receiveReport (report : Report)
  | receiveRegistrationResponse (T : TermId) (e2NodeId : Nat)
  | receiveDeregistrationResponse (T : Option TermId) (e2NodeId : Nat)
  | receiveCommand (T : Option TermId) (command : Command)
deriving DecidableEq

/-- A report that arrived, whether the terminator of the RIC was active and whether the id it
carries was registered. -/
structure Arrival where
  report : Report
  active : Bool
  registered : Bool
deriving DecidableEq

/-- The RIC's side, the terminators of the nodes and the simulator, with the ghost fields. -/
structure E2World where
  sim : EventQueue E2Event
  ricActive : Bool
  e2Active : Bool
  e2NodeInactivityThreshold : Time
  nodeTerminators : Nat → Option (Option TermId)
  repo : Repository
  terminators : TermId → Terminator
  requested : List TermId
  assigned : List (TermId × Nat)
  indexed : List Nat
  arrivals : List Arrival

/-- The draws of one step: the transmission delays in their order, and the interval of the timer
that is set. -/
structure E2Input where
  delays : Nat → Time
  interval : Time

namespace E2World

variable (inp : E2Input) (w : E2World) (delay : Time)

/-- Schedule an event. -/
def send (ev : E2Event) : E2World :=
  { w with sim := w.sim.schedule delay ev }

variable (T : TermId)

/-- Change a terminator. -/
def setTerm (τ : Terminator) : E2World :=
  { w with terminators := Function.update w.terminators T τ }

/-- Change a terminator, but for its timers. -/
def setNode (ν : E2Node) : E2World :=
  w.setTerm T { w.terminators T with toE2Node := ν }

/-- A terminator, but for its timers. -/
def node : E2Node := (w.terminators T).toE2Node

/-! ### Terminators of nodes -/

def cancelNextRegistration : E2World :=
  { w with sim := w.sim.cancel (w.terminators T).registrationEvent }

def cancelNextSend : E2World :=
  { w with sim := w.sim.cancel (w.terminators T).sendEvent }

/-- The registration request that `Register` sends. -/
def sendRequest : E2World :=
  { w.send (inp.delays 0)
      (.receiveRegistrationRequest (w.node T).type (w.node T).e2NodeId T) with
    requested := T :: w.requested }

/-- The timer that `Register` sets. -/
def scheduleRegister : E2World :=
  (w.send inp.interval (.register T)).setTerm T
    { w.terminators T with registrationEvent := w.sim.handle }

def register : E2World :=
  if (w.node T).active then
    ((w.cancelNextRegistration T).sendRequest inp T).scheduleRegister inp T
  else w

def deregister : E2World :=
  (w.cancelNextRegistration T).send (inp.delays 0)
    (.receiveDeregistrationRequest (w.node T).e2NodeId)

/-- `ScheduleNextSend`: the handle of the last timer is
overwritten. -/
def scheduleNextSend : E2World :=
  if (w.node T).active then
    (w.send inp.interval (.doSendReports T)).setTerm T
      { w.terminators T with sendEvent := w.sim.handle }
  else w

/-- The reports that `DoSendReports` sends, each with a delay of its own. -/
def sendReports (delays : Nat → Time) (w : E2World) (reports : List Report) : E2World :=
  Lts.foldDraws (fun d (w : E2World) r => w.send d (.receiveReport r)) delays w reports

def doSendReports : E2World :=
  if (w.node T).active then
    ((w.sendReports inp.delays (w.node T).reports).setNode T
      { w.node T with reports := [] }).scheduleNextSend inp T
  else w

def receiveRegistrationResponse (e2NodeId : Nat) : Except E2Abort E2World :=
  if (w.node T).active then do
    let ν ← (w.node T).learnId T e2NodeId
    return (w.setNode T ν).scheduleNextSend inp T
  else .ok w

/-- `ReceiveDeregistrationResponse`, also of an active
terminator. -/
def receiveDeregistrationResponse : Option TermId → Except E2Abort E2World
  | some T => .ok (w.setNode T { w.node T with e2NodeId := 0 })
  | none => .error .nullTerminator

/-- `ReceiveCommand` of a terminator; what it does to the devices is left out. -/
def receiveCommand : Option TermId → Except E2Abort E2World
  | some _ => .ok w
  | none => .error .nullTerminator

/-- `Activate` of a terminator that has a RIC. -/
def activate : Except E2Abort E2World :=
  if (w.node T).active then .ok w
  else do
    let w₁ := (w.setNode T (w.node T).powerOn).register inp T
    let ν ← (w₁.node T).activateReporters
    return w₁.setNode T ν

def deactivate : Except E2Abort E2World :=
  if (w.node T).active then do
    let ν ← (w.node T).deactivateReporters
    let w₁ := ((w.setNode T ν).cancelNextSend T).deregister inp T
    return w₁.setNode T { ν with active := false }
  else .ok w

/-- `PerformReport` of the `i`-th reporter of a terminator. -/
def performReport (i : Nat) : E2World :=
  w.setNode T ((w.node T).performReport T i)

/-- A call of `AddTxPdu` or `AddTxDrop` of the `i`-th reporter of a terminator. -/
def addTx (i rnti lcid bytes : Nat) : E2World :=
  w.setNode T ((w.node T).addTx i ⟨w.sim.now, rnti, lcid, bytes⟩)

/-! ### The terminator of the RIC -/

/-- The call on the repository that registers a node, by its type. -/
def registration (type : NodeType) (id deviceId : Nat) : Repository.Call :=
  match type with
  | .nrUe => .registerNodeNrUe id deviceId
  | .nrGnb => .registerNodeNrGnb id deviceId
  | .wired => .registerNode type id

def receiveRegistrationRequest (type : NodeType) (id : Nat) (T : TermId) : E2World :=
  if w.e2Active then
    let (repo, e2NodeId) :=
      w.repo.call w.sim.now (registration type id (w.node T).deviceId)
    { w.send (inp.delays 0) (.receiveRegistrationResponse T e2NodeId) with
      repo
      nodeTerminators := Function.update w.nodeTerminators e2NodeId (some (some T))
      assigned := (T, e2NodeId) :: w.assigned }
  else w

/-- `m_nodeTerminators[e2NodeId]`, which inserts a null pointer for an id it does not have. -/
def index (e2NodeId : Nat) : E2World :=
  { w with
    nodeTerminators := Function.update w.nodeTerminators e2NodeId
      (some (w.nodeTerminators e2NodeId).join)
    indexed := e2NodeId :: w.indexed }

def receiveDeregistrationRequest (w : E2World) (e2NodeId : Nat) : E2World :=
  if w.e2Active then
    let (repo, deregisteredE2NodeId) := w.repo.deregisterNode w.sim.now e2NodeId
    { (w.index e2NodeId).send delay (.receiveDeregistrationResponse
        (w.nodeTerminators e2NodeId).join deregisteredE2NodeId) with
      repo }
  else w

/-- What `ReceiveReport` saves. -/
def saveReport (repo : Repository) (r : Report) : Repository :=
  match r.kind with
  | .txPdu => repo.saveNrUeTxPdu r.reporterE2NodeId
      ⟨r.sample.time, r.sample.rnti, r.sample.lcid, r.sample.bytes⟩
  | .txDrop => repo.saveNrUeTxDrop r.reporterE2NodeId
      ⟨r.sample.time, r.sample.rnti, r.sample.lcid, r.sample.bytes⟩

/-- `ReceiveReport`. The RIC is notified by a call of its
own. -/
def receiveReport (r : Report) : E2World :=
  { w with
    repo := if w.e2Active then saveReport w.repo r else w.repo
    arrivals := w.arrivals ++
      [⟨r, w.e2Active, w.repo.isNodeRegistered r.reporterE2NodeId⟩] }

def sendCommand (w : E2World) (command : Command) : E2World :=
  if w.e2Active then
    (w.index command.targetE2NodeId).send delay
      (.receiveCommand (w.nodeTerminators command.targetE2NodeId).join command)
  else w

def processCommands (commands : List Command) : E2World :=
  if w.e2Active then Lts.foldDraws sendCommand inp.delays w commands else w

/-! ### The RIC -/

/-- The nodes that `CheckForInactivity` finds inactive at a time. -/
def inactiveNodes (b : Repository.Pick) (w : E2World) (now : Time) : List Nat :=
  ((w.repo.getLastRegistrationRequests b).filter fun x =>
    decide (w.e2NodeInactivityThreshold < now - x.2)).map (·.1)

/-- `OranNrNearRtRic::CheckForInactivity`, without its timer. -/
def checkForInactivity (b : Repository.Pick) (w : E2World) : E2World :=
  if w.ricActive then
    Lts.foldDraws receiveDeregistrationRequest inp.delays w (w.inactiveNodes b w.sim.now)
  else w

/-- `OranNrNearRtRic::Activate` and `Deactivate`, which turn
the terminator and the repository on and off. -/
def setActive (active : Bool) : E2World :=
  if w.ricActive = active then w
  else { w with ricActive := active, e2Active := active, repo := { w.repo with active } }

end E2World

/-- What can happen next: the simulator runs the next event, or something outside calls one of the
functions, at a time no pending event precedes. -/
inductive E2Action
  | fire (inp : E2Input)
  | activate (t : Time) (inp : E2Input) (T : TermId)
  | deactivate (t : Time) (inp : E2Input) (T : TermId)
  | performReport (t : Time) (T : TermId) (i : Nat)
  | addTx (t : Time) (T : TermId) (i rnti lcid bytes : Nat)
  | processCommands (t : Time) (inp : E2Input) (commands : List Command)
  | checkForInactivity (t : Time) (inp : E2Input) (b : Repository.Pick)
  | setActive (t : Time) (active : Bool)

/-- The time of a call from outside. -/
def E2Action.time : E2Action → Time
  | .fire _ => 0
  | .activate t _ _ | .deactivate t _ _ | .performReport t _ _ | .addTx t _ _ _ _ _
  | .processCommands t _ _ | .checkForInactivity t _ _ | .setActive t _ => t

namespace E2World

/-- The handler of an event. -/
def handle (inp : E2Input) (w : E2World) : E2Event → Except E2Abort E2World
  | .register T => .ok (w.register inp T)
  | .doSendReports T => .ok (w.doSendReports inp T)
  | .receiveRegistrationRequest type id T => .ok (w.receiveRegistrationRequest inp type id T)
  | .receiveDeregistrationRequest x => .ok (w.receiveDeregistrationRequest (inp.delays 0) x)
  | .receiveReport r => .ok (w.receiveReport r)
  | .receiveRegistrationResponse T x => w.receiveRegistrationResponse inp T x
  | .receiveDeregistrationResponse T _ => w.receiveDeregistrationResponse T
  | .receiveCommand T _ => w.receiveCommand T

variable (w : E2World)

/-- The effect of a call from outside. -/
def call : E2Action → Except E2Abort E2World
  | .fire _ => .ok w
  | .activate _ inp T => w.activate inp T
  | .deactivate _ inp T => w.deactivate inp T
  | .performReport _ T i => .ok (w.performReport T i)
  | .addTx _ T i rnti lcid bytes => .ok (w.addTx T i rnti lcid bytes)
  | .processCommands _ inp commands => .ok (w.processCommands inp commands)
  | .checkForInactivity _ inp b => .ok (w.checkForInactivity inp b)
  | .setActive _ active => .ok (w.setActive active)

/-- One step: `none` when the action cannot happen now, an error when the program stops. -/
def act : E2Action → Option (Except E2Abort E2World)
  | .fire inp => w.sim.next?.map fun (e, q) => { w with sim := q }.handle inp e.ev
  | a => (w.sim.advance? a.time).map fun q => { w with sim := q }.call a

/-- The step relation of the E2 interface. -/
def Step (a : E2Action) (w' : E2World) : Prop := w.act a = some (.ok w')

/-- The partial step function, for evaluation. -/
def step? (a : E2Action) : Option E2World :=
  match w.act a with
  | some (.ok w') => some w'
  | _ => none

theorem step_of_step? {w w' : E2World} {a : E2Action} (h : w.step? a = some w') : Step w a w' := by
  unfold step? at h
  split at h
  · next heq => cases h; exact heq
  · cases h

end E2World

/-- A terminator before it is activated: its type, device, `E2NodeId` attribute and reporters. -/
structure TerminatorConfig where
  type : NodeType
  deviceId : Nat
  e2NodeId : Nat
  reporters : List (ReportKind × Bool)

/-- The terminator of a configuration. -/
def TerminatorConfig.terminator (c : TerminatorConfig) : Terminator :=
  ⟨⟨c.type, c.deviceId, false, c.e2NodeId, [], c.reporters.map fun r => .fresh r.1 r.2⟩, none, none⟩

/-- The system before the RIC and any terminator is activated, with a new database. -/
def E2World.init (threshold : Time) (cfg : TermId → TerminatorConfig) : E2World :=
  ⟨.empty, false, false, threshold, fun _ => none, ⟨false, .empty⟩, fun T => (cfg T).terminator,
    [], [], [], []⟩

end OranNs3
