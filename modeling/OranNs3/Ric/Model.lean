import Std.Data.TreeMap
import OranNs3.Lib.EventQueue
import OranNs3.Lib.Run

/-!
# The query cycle of the Near-RT RIC

`OranNrNearRtRic` (`oran-nr-near-rt-ric.cc`) with the logic modules it queries (`OranLm`,
`oran-lm.cc`) over the simulator's event queue. Logic modules are objects of a heap `lms`, and a
`Ptr<OranLm>` is an index of it; a `std::map` is a `Std.TreeMap`. What the code draws from random
variables or computes elsewhere (the processing delay and the commands of a run, the answers of the
query triggers) is an input of the step. The E2 terminator and the repository are the subject of
`OranNs3.E2`; here the commands handed over are recorded in `forwarded`.

Ghost fields: the run and the cycle a command was made for, the number of query cycles and of runs,
the cycle in which a processing event was scheduled, the batches handed to the E2 terminator, and
the command sets saved after they had come late.
-/

namespace OranNs3

/-- Simulation times and delays in time steps of one nanosecond (`Time::GetTimeStep`). -/
abbrev Time := Nat

/-- A pointer to a logic module (`Ptr<OranLm>`). -/
abbrev LmId := Nat

/-- A command (`OranCommand`). The fields `run` and `cycle` are ghost: the run of the logic module
that made it, and the cycle this run was started for. -/
structure Command where
  targetE2NodeId : Nat
  run : Nat
  cycle : Time
deriving DecidableEq

/-- `OranNrNearRtRic::LateCommandPolicy`. -/
inductive LateCommandPolicy
  | drop
  | save
deriving DecidableEq

/-- A logic module (`OranLm`), with the number of its last run as a ghost field. -/
structure Lm where
  name : String
  active : Bool
  cycle : Time
  commands : List Command
  finishRunEvent : EventId
  run : Nat

/-- A logic module as it is constructed. -/
def Lm.fresh (name : String) : Lm := ⟨name, false, 0, [], none, 0⟩

/-- The events the RIC and its logic modules schedule. A processing event carries the number of the
query cycle in which it was scheduled, as a ghost argument. -/
inductive RicEvent
  | queryLms
  | checkForInactivity
  | processLmQueryCommands (cycleNo : Nat)
  | finishRun (lm : LmId)
deriving DecidableEq

/-- The attributes of the RIC that its query cycle reads. The checker of `LmQueryInterval` admits no
interval below a millisecond; that of `LmQueryMaxWaitTime` admits every time. -/
structure RicConfig where
  lmQueryInterval : Time
  interval_ge : 1000000 ≤ lmQueryInterval
  lmQueryMaxWaitTime : Int
  lmQueryLateCommandPolicy : LateCommandPolicy

/-- The commands collected in a query cycle, by the name of the logic module and whether it is the
default one (`m_lmQueryCommands`). -/
abbrev CommandMap := Std.TreeMap (String × Bool) (List Command) lexOrd.compare

/-- The state of `OranNrNearRtRic`. -/
structure Ric where
  cfg : RicConfig
  active : Bool
  defaultLm : LmId
  additionalLms : Std.TreeMap String LmId
  lmQueryEvent : EventId
  e2NodeInactivityEvent : EventId
  lmQueryCycle : Time
  processLmQueryCommandsEvent : EventId
  lmQueryCommands : CommandMap

/-- The commands of one call of `ProcessLmQueryCommands`, with the cycle of the call. -/
structure Batch where
  cycleNo : Nat
  cycle : Time
  commands : List Command
deriving DecidableEq

/-- The commands a run delivered late, with the cycle of the delivery. -/
structure LateSet where
  cycleNo : Nat
  run : Nat
  commands : List Command
deriving DecidableEq

/-- The RIC, its logic modules and the simulator, with the ghost fields. -/
structure RicWorld where
  sim : EventQueue RicEvent
  ric : Ric
  lms : LmId → Lm
  cycleNo : Nat
  runs : Nat
  forwarded : List Batch
  late : List LateSet

/-- The `NS_ABORT_MSG`s of the query cycle that the types do not exclude. -/
inductive RicAbort
  | lmAlreadyRunning
  | unexpectedCycle
  | alreadyStarted
deriving DecidableEq

/-- What a run of a logic module yields: its processing delay, negative draws counting as zero, and
the targets of the commands its `Run()` returns. -/
structure LmOutcome where
  delay : Time
  targets : List Nat

/-- The inputs of one step: the outcome of each run it starts and the draw of
`m_e2NodeInactivityIntervalRv`. -/
structure RicInput where
  outcome : LmId → LmOutcome
  inactivityInterval : Time

namespace RicWorld

/-! ## Logic modules -/

variable (inp : RicInput) (w : RicWorld)

def isRunning (i : LmId) : Bool := w.sim.isPending (w.lms i).finishRunEvent

/-- `OranLm::Activate`. -/
def activateLm (i : LmId) : RicWorld :=
  { w with lms := Function.update w.lms i { w.lms i with active := true } }

/-- `OranLm::CancelRun`, without its log message. -/
def cancelRun (i : LmId) : RicWorld :=
  if (w.lms i).active && w.isRunning i then
    { w with
      sim := w.sim.cancel (w.lms i).finishRunEvent
      lms := Function.update w.lms i { w.lms i with commands := [] } }
  else w

/-- `OranLm::Deactivate`: the flag is cleared before `CancelRun` reads it. -/
def deactivateLm (i : LmId) : RicWorld :=
  let w := { w with lms := Function.update w.lms i { w.lms i with active := false } }
  if w.isRunning i then w.cancelRun i else w

/-- `OranLm::Run(Time)`: the commands are computed at once and delivered after
the processing delay. -/
def runLm (i : LmId) (cycle : Time) : Except RicAbort RicWorld :=
  if (w.lms i).active then
    if w.isRunning i then .error .lmAlreadyRunning
    else .ok { w with
      sim := w.sim.schedule (inp.outcome i).delay (.finishRun i)
      lms := Function.update w.lms i { w.lms i with
        cycle
        commands := (inp.outcome i).targets.map fun target => ⟨target, w.runs, cycle⟩
        finishRunEvent := w.sim.handle
        run := w.runs }
      runs := w.runs + 1 }
  else .ok w

/-! ## The RIC -/

variable (m : CommandMap)

/-- `OranCmmNoop::Filter`, the conflict mitigation module of the repository:
all commands, in the order of their keys. -/
def filterNoop : List Command := m.toList.flatMap (·.2)

def processLmQueryCommands : RicWorld :=
  if w.ric.active then
    { w with
      sim := if w.sim.isPending w.ric.processLmQueryCommandsEvent then
          w.sim.cancel w.ric.processLmQueryCommandsEvent else w.sim
      ric := { w.ric with lmQueryCommands := ∅ }
      forwarded := w.forwarded ++
        [⟨w.cycleNo, w.ric.lmQueryCycle, filterNoop w.ric.lmQueryCommands⟩] }
  else w

/-- The commands are in time: their processing is pending, or there is no maximum waiting time. -/
def inTime : Bool :=
  w.sim.isPending w.ric.processLmQueryCommandsEvent || w.ric.cfg.lmQueryMaxWaitTime == 0

/-- The key of a logic module in `m_lmQueryCommands`. -/
def lmKey (i : LmId) : String × Bool := ((w.lms i).name, i == w.ric.defaultLm)

/-- The first assignment of `NotifyLmFinished`: a slot that exists is emptied. -/
def clearSlot (key : String × Bool) : CommandMap :=
  if m.contains key then m.insert key [] else m

/-- Commands inserted at the end of a slot, which `operator[]` creates when it is missing. -/
def appendSlot (key : String × Bool) (commands : List Command) : CommandMap :=
  m.insert key (m.getD key [] ++ commands)

/-- The first half of `OranNrNearRtRic::NotifyLmFinished`, for
commands of the current cycle: they are collected, or treated by the late command policy. -/
def collectCommands (commands : List Command) (i : LmId) : RicWorld :=
  let m := clearSlot w.ric.lmQueryCommands (w.lmKey i)
  if w.inTime then
    { w with ric := { w.ric with lmQueryCommands := appendSlot m (w.lmKey i) commands } }
  else match w.ric.cfg.lmQueryLateCommandPolicy with
    | .drop => { w with ric := { w.ric with lmQueryCommands := m } }
    | .save => { w with
        ric := { w.ric with lmQueryCommands := appendSlot m (w.lmKey i) commands }
        late := w.late ++ [⟨w.cycleNo, (w.lms i).run, commands⟩] }

def notifyLmFinished (cycle : Time) (commands : List Command) (i : LmId) :
    Except RicAbort RicWorld :=
  if cycle = w.ric.lmQueryCycle then
    let w := w.collectCommands commands i
    if w.ric.lmQueryCommands.size = w.ric.additionalLms.size + 1 ∧ w.inTime then
      .ok w.processLmQueryCommands
    else .ok w
  else .error .unexpectedCycle

/-- `m_commands.clear()`. -/
def clearCommands (i : LmId) : RicWorld :=
  { w with lms := Function.update w.lms i { w.lms i with commands := [] } }

def finishRun (i : LmId) : Except RicAbort RicWorld :=
  if (w.lms i).active then do
    let w ← w.notifyLmFinished (w.lms i).cycle (w.lms i).commands i
    return w.clearCommands i
  else .ok w

/-- `OranNrNearRtRic::CheckForInactivity`, as far as the RIC's own
events are concerned. -/
def checkForInactivity : RicWorld :=
  if w.ric.active then
    let sim := if w.sim.isPending w.ric.e2NodeInactivityEvent then
      w.sim.cancel w.ric.e2NodeInactivityEvent else w.sim
    { w with
      sim := sim.schedule inp.inactivityInterval .checkForInactivity
      ric := { w.ric with e2NodeInactivityEvent := sim.handle } }
  else w

/-- The body of the two queries of `QueryLms`: a run that has not finished is cancelled, and the
logic module is signalled to run for the current cycle. -/
def rerunLm (i : LmId) : Except RicAbort RicWorld :=
  let w := if w.isRunning i then w.cancelRun i else w
  w.runLm inp i w.ric.lmQueryCycle

/-- The start of a query cycle in `QueryLms`: the cycle moves to the current time. -/
def beginCycle : RicWorld :=
  { w with ric := { w.ric with lmQueryCycle := w.sim.now }, cycleNo := w.cycleNo + 1 }

/-- The timer of `QueryLms`: processing is scheduled after the maximum waiting time, if there is
one. The handle of an earlier timer is overwritten. -/
def scheduleProcessing : RicWorld :=
  if 0 < w.ric.cfg.lmQueryMaxWaitTime then
    { w with
      sim := w.sim.schedule w.ric.cfg.lmQueryMaxWaitTime.toNat (.processLmQueryCommands w.cycleNo)
      ric := { w.ric with processLmQueryCommandsEvent := w.sim.handle } }
  else w

/-- The end of `QueryLms`: the next periodic query. -/
def scheduleQuery : RicWorld :=
  { w with
    sim := w.sim.schedule w.ric.cfg.lmQueryInterval .queryLms
    ric := { w.ric with lmQueryEvent := w.sim.handle } }

/-- The logic modules `QueryLms` signals, in its order: the default one, then the additional ones by
name. -/
def modules : List LmId := w.ric.defaultLm :: w.ric.additionalLms.toList.map (·.2)

def queryLms : Except RicAbort RicWorld :=
  if w.ric.active then do
    let w := (w.beginCycle.checkForInactivity inp).scheduleProcessing
    let w ← w.modules.foldlM (rerunLm inp) w
    return w.scheduleQuery
  else .ok w

/-- `OranNrNearRtRic::NotifyReportReceived`, given the answers of the
query triggers to the report. -/
def notifyReportReceived (answers : List Bool) : Except RicAbort RicWorld :=
  if answers.any id then
    { w with
      sim := if w.sim.isPending w.ric.lmQueryEvent then w.sim.cancel w.ric.lmQueryEvent
        else w.sim }.queryLms inp
  else .ok w

/-- `OranNrNearRtRic::SetDefaultLogicModule`, for a non-null
module. -/
def setDefaultLogicModule (i : LmId) : RicWorld :=
  { w with ric := { w.ric with defaultLm := i } }

/-- `OranNrNearRtRic::AddLogicModule`, the map it leaves. -/
def addLogicModule (names : LmId → String) (m : Std.TreeMap String LmId) (i : LmId) :
    Std.TreeMap String LmId :=
  if m.contains (names i) then m else m.insert (names i) i

/-- `OranNrNearRtRic::RemoveLogicModule`, the map it leaves. -/
def removeLogicModule (m : Std.TreeMap String LmId) (name : String) : Std.TreeMap String LmId :=
  if m.contains name then m.erase name else m

/-- `OranNrNearRtRic::Activate`: the logic modules are activated with
the RIC. -/
def activate : RicWorld :=
  if w.ric.active then w
  else w.modules.foldl activateLm { w with ric := { w.ric with active := true } }

def deactivate : RicWorld :=
  let w := if w.ric.active then w.modules.foldl deactivateLm w else w
  { w with ric := { w.ric with active := false } }

def start : Except RicAbort RicWorld :=
  let w := w.activate
  if w.sim.isPending w.ric.lmQueryEvent ∨ w.sim.isPending w.ric.e2NodeInactivityEvent then
    .error .alreadyStarted
  else
    let w := w.scheduleQuery
    .ok { w with
      sim := w.sim.schedule inp.inactivityInterval .checkForInactivity
      ric := { w.ric with e2NodeInactivityEvent := w.sim.handle } }

def stop : RicWorld :=
  let w := w.deactivate
  let sim := (w.sim.cancel w.ric.lmQueryEvent).cancel w.ric.e2NodeInactivityEvent
  { w with sim := sim.cancel w.ric.processLmQueryCommandsEvent }

end RicWorld

/-- What can happen next: the simulator runs the next event, or something outside of the RIC calls
one of its functions, or one of a logic module, at a time no pending event precedes. -/
inductive RicAction
  | fire (inp : RicInput)
  | notifyReportReceived (t : Time) (inp : RicInput) (answers : List Bool)
  | setDefaultLogicModule (t : Time) (lm : LmId)
  | addLogicModule (t : Time) (lm : LmId)
  | removeLogicModule (t : Time) (name : String)
  | activateLm (t : Time) (lm : LmId)
  | deactivateLm (t : Time) (lm : LmId)
  | start (t : Time) (inp : RicInput)
  | stop (t : Time)

/-- The time of a call from outside. -/
def RicAction.time : RicAction → Time
  | .fire _ => 0
  | .notifyReportReceived t _ _ | .setDefaultLogicModule t _ | .addLogicModule t _
  | .removeLogicModule t _ | .activateLm t _ | .deactivateLm t _ | .start t _ | .stop t => t

/-- The call changes neither the default module nor the additional ones. -/
def RicAction.KeepsModules : RicAction → Prop
  | .setDefaultLogicModule _ _ | .addLogicModule _ _ | .removeLogicModule _ _ => False
  | _ => True

instance : ∀ a : RicAction, Decidable a.KeepsModules
  | .setDefaultLogicModule _ _ | .addLogicModule _ _ | .removeLogicModule _ _ => .isFalse id
  | .fire _ | .notifyReportReceived _ _ _ | .activateLm _ _ | .deactivateLm _ _ | .start _ _
  | .stop _ => .isTrue trivial

namespace RicWorld

/-- The handler of an event. -/
def handle (inp : RicInput) (w : RicWorld) : RicEvent → Except RicAbort RicWorld
  | .queryLms => w.queryLms inp
  | .checkForInactivity => .ok (w.checkForInactivity inp)
  | .processLmQueryCommands _ => .ok w.processLmQueryCommands
  | .finishRun i => w.finishRun i

variable (w : RicWorld)

/-- The effect of a call from outside. -/
def call : RicAction → Except RicAbort RicWorld
  | .fire _ => .ok w
  | .notifyReportReceived _ inp answers => w.notifyReportReceived inp answers
  | .setDefaultLogicModule _ i => .ok (w.setDefaultLogicModule i)
  | .addLogicModule _ i => .ok { w with ric := { w.ric with
      additionalLms := addLogicModule (fun j => (w.lms j).name) w.ric.additionalLms i } }
  | .removeLogicModule _ name => .ok { w with ric := { w.ric with
      additionalLms := removeLogicModule w.ric.additionalLms name } }
  | .activateLm _ i => .ok (w.activateLm i)
  | .deactivateLm _ i => .ok (w.deactivateLm i)
  | .start _ inp => w.start inp
  | .stop _ => .ok w.stop

/-- One step: `none` when the action cannot happen now, an error when the program aborts. -/
def act : RicAction → Option (Except RicAbort RicWorld)
  | .fire inp => w.sim.next?.map fun (e, q) => { w with sim := q }.handle inp e.ev
  | a => (w.sim.advance? a.time).map fun q => { w with sim := q }.call a

/-- The step relation of the RIC. -/
def Step (a : RicAction) (w' : RicWorld) : Prop := w.act a = some (.ok w')

/-- The time of the query that the action starts, if it makes an active RIC run `QueryLms`. -/
def queryTime? : RicAction → Option Time
  | .fire _ => w.sim.next?.bind fun (e, _) =>
      if e.ev = .queryLms ∧ w.ric.active then some e.ts else none
  | .notifyReportReceived t _ answers => if answers.any id ∧ w.ric.active then some t else none
  | _ => none

/-- The logic module whose run the action completes, if it makes an active one run `FinishRun`. -/
def completes? : RicAction → Option LmId
  | .fire _ => w.sim.next?.bind fun (e, _) => match e.ev with
      | .finishRun i => if (w.lms i).active then some i else none
      | _ => none
  | _ => none

/-- The partial step function of the RIC, for evaluation. -/
def step? (a : RicAction) : Option RicWorld :=
  match w.act a with
  | some (.ok w') => some w'
  | _ => none

theorem step_of_step? {w w' : RicWorld} {a : RicAction} (h : w.step? a = some w') :
    Step w a w' := by
  unfold step? at h
  split at h
  · next heq => cases h; exact heq
  · cases h

/-- The RIC before it is started, with the default logic module `d` and the additional ones `adds`
added in that order. -/
def init (cfg : RicConfig) (names : LmId → String) (d : LmId) (adds : List LmId) : RicWorld where
  sim := .empty
  ric := {
    cfg
    active := false
    defaultLm := d
    additionalLms := adds.foldl (addLogicModule names) ∅
    lmQueryEvent := none
    e2NodeInactivityEvent := none
    lmQueryCycle := 0
    processLmQueryCommandsEvent := none
    lmQueryCommands := ∅ }
  lms := fun i => .fresh (names i)
  cycleNo := 0
  runs := 0
  forwarded := []
  late := []

end RicWorld

end OranNs3
