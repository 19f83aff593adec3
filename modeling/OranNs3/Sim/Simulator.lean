import Mathlib.Algebra.Ring.Int.Defs
import Mathlib.Data.Finset.Max
import OranNs3.Lib.Run
import OranNs3.Sim.Scheduler

/-!
# The run of the simulator

`DefaultSimulatorImpl` gives every event a time stamp and a uid, keeps it in a scheduler, and
executes the events one after the other (`src/src/core/model/default-simulator-impl.cc`). The
scheduler is the multiset of its events (`OranNs3.Sim.Scheduler`). `EventImpl` objects are numbered
in the order in which they are made, and only their cancel flag matters.

A run is any sequence of the calls of the interface, of `ProcessOneEvent` up to the point where the
event is invoked, and of `ProcessEventsWithContext`; the calls an event makes follow its
`ProcessOneEvent`. An event of another thread waits in `m_eventsWithContext` and counts as scheduled
when `ProcessEventsWithContext` gives it a time and a uid. What a run has done is kept in a
`History`, which no function reads.

`Right` is what a user relies on. It holds in every run below three bounds (`right_of_run`): uids do
not come back after the 32-bit counter has gone round, no event is sent to the past, and time stays
a 64-bit number of ticks. `wrapped_out_of_order` is the run that goes round.
-/

namespace OranNs3.Sim

/-- `EventId::UID::DESTROY` and `EventId::UID::VALID`. -/
def destroyUid : Nat := 2

@[inherit_doc destroyUid]
def validUid : Nat := 4

/-- `EventId`. -/
structure EventId where
  impl : Option Nat
  ts : Nat
  context : Nat
  uid : Nat
deriving DecidableEq

/-- The `EventId` of an event in the scheduler. -/
def Event.id (ev : Event) : EventId := ⟨some ev.impl, ev.key.ts, ev.key.context, ev.key.uid⟩

/-- The event that `Remove` builds from an `EventId`. -/
def EventId.event (id : EventId) : Option Event :=
  id.impl.map fun impl => ⟨impl, id.ts, id.uid, id.context⟩

/-- `DefaultSimulatorImpl::EventWithContext`. -/
structure EventWithContext where
  context : Nat
  timestamp : Nat
  event : Nat
deriving DecidableEq

/-- The events in the order in which they were scheduled and executed, the ids that
`ScheduleDestroy` gave out, and the ids cancelled and removed while their event was pending. -/
structure History where
  scheduled : List Event
  executed : List Event
  destroyIds : List EventId
  cancelled : List EventId
  removed : List EventId

/-- `DefaultSimulatorImpl`, with the cancel flags of the `EventImpl` objects and the number of those
made. -/
structure DefaultSimulatorImpl where
  events : Multiset Event
  uid : Nat
  currentUid : Nat
  currentTs : Nat
  currentContext : Nat
  unscheduledEvents : Int
  eventsWithContext : List EventWithContext
  destroyEvents : List EventId
  isCancelled : Nat → Bool
  impls : Nat
  history : History

namespace DefaultSimulatorImpl

/-- The constructor; the context is `Simulator::NO_CONTEXT`. -/
def new : DefaultSimulatorImpl :=
  ⟨0, validUid, 0, 0, 0xffffffff, 0, [], [], fun _ => false, 0, ⟨[], [], [], [], []⟩⟩

variable (s : DefaultSimulatorImpl)

/-- `m_uid++`. -/
def nextUid : Nat := (s.uid + 1) % 2 ^ 32

/-- A new `EventImpl`, at the address `s.impls`. -/
def makeEvent : DefaultSimulatorImpl :=
  { s with impls := s.impls + 1, isCancelled := Function.update s.isCancelled s.impls false }

/-- The event that the next uid is given to. -/
def event (impl ts context : Nat) : Event := ⟨impl, ts, s.uid, context⟩

/-- What `Schedule`, `ScheduleWithContext` and `ProcessEventsWithContext` do with a new event. -/
def insert (ev : Event) : DefaultSimulatorImpl :=
  { s with
    uid := s.nextUid
    unscheduledEvents := (s.unscheduledEvents + 1).bmod (2 ^ 32)
    events := ev ::ₘ s.events
    history := { s.history with scheduled := s.history.scheduled ++ [ev] } }

/-- `tAbsolute`, as a 64-bit time stamp. -/
def absolute (delay : Int) : Nat := ((delay + s.currentTs) % 2 ^ 64).toNat

/-- `Schedule`; a negative delay fails the assertion. -/
def schedule (delay : Int) : Option DefaultSimulatorImpl :=
  if 0 ≤ delay then some (s.makeEvent.insert (s.event s.impls (s.absolute delay) s.currentContext))
  else none

def scheduleNow : Option DefaultSimulatorImpl := s.schedule 0

/-- `ScheduleWithContext` on the main thread. -/
def scheduleWithContext (context : Nat) (delay : Int) : DefaultSimulatorImpl :=
  s.makeEvent.insert (s.event s.impls (s.absolute delay) context)

/-- `ScheduleWithContext` on another thread. -/
def postWithContext (context : Nat) (delay : Int) : DefaultSimulatorImpl :=
  { s.makeEvent with
    eventsWithContext := s.eventsWithContext ++ [⟨context, (delay % 2 ^ 64).toNat, s.impls⟩] }

/-- One round of the loop of `ProcessEventsWithContext`. -/
def takeOver (ev : EventWithContext) : DefaultSimulatorImpl :=
  s.insert (s.event ev.event ((s.currentTs + ev.timestamp) % 2 ^ 64) ev.context)

def processEventsWithContext : DefaultSimulatorImpl :=
  s.eventsWithContext.foldl takeOver { s with eventsWithContext := [] }

/-- The id that `ScheduleDestroy` gives out. -/
def destroyId : EventId := ⟨some s.impls, s.currentTs, 0xffffffff, destroyUid⟩

def scheduleDestroy : DefaultSimulatorImpl :=
  { s.makeEvent with
    destroyEvents := s.destroyEvents ++ [s.destroyId]
    uid := s.nextUid
    history := { s.history with destroyIds := s.history.destroyIds ++ [s.destroyId] } }

variable (id : EventId)

def isExpired : Bool :=
  match id.impl with
  | none => true
  | some impl =>
    if id.uid = destroyUid then s.isCancelled impl || !decide (id ∈ s.destroyEvents)
    else decide (id.ts < s.currentTs) || (id.ts = s.currentTs && decide (id.uid ≤ s.currentUid)) ||
      s.isCancelled impl

/-- The event of an id is pending: it is in the scheduler, or it waits for the end of the
simulation. -/
def Pending : Prop := (∃ ev ∈ s.events, ev.id = id) ∨ id ∈ s.destroyEvents

instance : Decidable (s.Pending id) :=
  haveI : Decidable (∃ ev ∈ s.events, ev.id = id) := Multiset.decidableExistsMultiset
  inferInstanceAs (Decidable (_ ∨ _))

/-- `EventImpl::Cancel` on the object of an id. -/
def cancelImpl : DefaultSimulatorImpl :=
  { s with isCancelled := id.impl.elim s.isCancelled fun impl =>
    Function.update s.isCancelled impl true }

/-- What the history keeps of a cancellation. -/
def History.cancel (h : History) (pending : Prop) [Decidable pending] (id : EventId) : History :=
  { h with cancelled := if pending then id :: h.cancelled else h.cancelled }

/-- What the history keeps of a removal. -/
def History.remove (h : History) (pending : Prop) [Decidable pending] (id : EventId) : History :=
  { h with removed := if pending then id :: h.removed else h.removed }

def cancel : DefaultSimulatorImpl :=
  let s' := if s.isExpired id then s else s.cancelImpl id
  { s' with history := History.cancel s.history (s.Pending id) id }

/-- The part of `Remove` past its two guards; the scheduler fails on an event that is not in it. -/
def removeEvent : Option DefaultSimulatorImpl :=
  id.event.bind fun ev =>
    if ev ∈ s.events then
      some { s.cancelImpl id with
        events := s.events.erase ev
        unscheduledEvents := (s.unscheduledEvents - 1).bmod (2 ^ 32) }
    else none

def remove : Option DefaultSimulatorImpl :=
  let s' := if id.uid = destroyUid then some { s with destroyEvents := s.destroyEvents.erase id }
    else if s.isExpired id then some s else s.removeEvent id
  s'.map fun s' => { s' with history := History.remove s.history (s.Pending id) id }

/-- `ProcessOneEvent` up to and including `Invoke`, with the event that `RemoveNext` returns. An
event that lies in the past fails the assertion. -/
def processOneEvent (next : Event) : Option DefaultSimulatorImpl :=
  if IsNext s.events next ∧ s.currentTs ≤ next.key.ts then
    some { s with
      events := s.events.erase next
      unscheduledEvents := (s.unscheduledEvents - 1).bmod (2 ^ 32)
      currentTs := next.key.ts
      currentContext := next.key.context
      currentUid := next.key.uid
      history := { s.history with
        executed := if s.isCancelled next.impl then s.history.executed else s.history.executed ++
          [next] } }
  else none

end DefaultSimulatorImpl

/-- The calls of a run. -/
inductive SimCall
  | schedule (delay : Int)
  | scheduleNow
  | scheduleWithContext (context : Nat) (delay : Int)
  | postWithContext (context : Nat) (delay : Int)
  | scheduleDestroy
  | cancel (id : EventId)
  | remove (id : EventId)
  | processOneEvent (next : Event)
  | processEventsWithContext
deriving DecidableEq

namespace DefaultSimulatorImpl

variable (s : DefaultSimulatorImpl)

/-- A call; it fails where the code does. -/
def call? : SimCall → Option DefaultSimulatorImpl
  | .schedule delay => s.schedule delay
  | .scheduleNow => s.scheduleNow
  | .scheduleWithContext context delay => some (s.scheduleWithContext context delay)
  | .postWithContext context delay => some (s.postWithContext context delay)
  | .scheduleDestroy => some s.scheduleDestroy
  | .cancel id => some (s.cancel id)
  | .remove id => s.remove id
  | .processOneEvent next => s.processOneEvent next
  | .processEventsWithContext => some s.processEventsWithContext

/-- The steps of the simulator. -/
def Step (s : DefaultSimulatorImpl) (c : SimCall) (s' : DefaultSimulatorImpl) : Prop :=
  s.call? c = some s'

/-- The ids that programs have: the invalid one, and those that were given out. -/
def Known (id : EventId) : Prop :=
  id.impl = none ∨ id ∈ s.history.destroyIds ∨ ∃ ev ∈ s.history.scheduled, ev.id = id
deriving Decidable

/-- The counter of uids has `n` values left before it goes round. -/
def UidsLeft (n : Nat) : Prop := n = 0 ∨ validUid ≤ s.uid ∧ s.uid + n ≤ 2 ^ 32
deriving Decidable

/-- `n` more events have uids and can be counted. -/
def Room (n : Nat) : Prop := s.UidsLeft n ∧ s.events.card + n < 2 ^ 31
deriving Decidable

/-- A call on known ids that neither makes the counters go round nor leaves the range of time. -/
def Fits : SimCall → Prop
  | .schedule delay => s.Room 1 ∧ delay + s.currentTs < 2 ^ 63
  | .scheduleNow => s.Room 1
  | .scheduleWithContext _ delay => s.Room 1 ∧ 0 ≤ delay ∧ delay + s.currentTs < 2 ^ 63
  | .postWithContext _ _ => True
  | .scheduleDestroy => s.UidsLeft 1
  | .cancel id => s.Known id
  | .remove id => s.Known id
  | .processOneEvent _ => True
  | .processEventsWithContext => s.Room s.eventsWithContext.length ∧
      ∀ ev ∈ s.eventsWithContext, s.currentTs + ev.timestamp < 2 ^ 63

instance : DecidablePred s.Fits
  | .schedule _ => inferInstanceAs (Decidable (_ ∧ _))
  | .scheduleNow => inferInstanceAs (Decidable (s.Room 1))
  | .scheduleWithContext _ _ => inferInstanceAs (Decidable (_ ∧ _))
  | .postWithContext _ _ => inferInstanceAs (Decidable True)
  | .scheduleDestroy => inferInstanceAs (Decidable (s.UidsLeft 1))
  | .cancel id | .remove id => inferInstanceAs (Decidable (s.Known id))
  | .processOneEvent _ => inferInstanceAs (Decidable True)
  | .processEventsWithContext => inferInstanceAs (Decidable (_ ∧ _))

/-- `a` was scheduled before `b`. -/
def History.Before (h : History) (a b : Event) : Prop := h.scheduled.idxOf a < h.scheduled.idxOf b

/-- Events are executed in the order of time, and those of equal time in the order in which they
were scheduled; an event is executed once if it was neither cancelled nor removed and has left the
scheduler, and otherwise not at all; as long as there is an event, the next one can be executed;
`IsExpired` is false for the pending events that were not cancelled; and `m_unscheduledEvents`
counts the events in the scheduler. -/
structure Right : Prop where
  order : s.history.executed.Pairwise fun a b =>
    a.key.ts < b.key.ts ∨ a.key.ts = b.key.ts ∧ History.Before s.history a b
  once : ∀ ev, s.history.executed.count ev =
    if ev ∈ s.history.scheduled ∧ ev.id ∉ s.history.cancelled ∧ ev.id ∉ s.history.removed ∧
    ev ∉ s.events
    then 1 else 0
  next : s.events ≠ 0 → ∃ ev s', s.processOneEvent ev = some s'
  expired : ∀ id, s.Known id → (s.isExpired id = false ↔ s.Pending id ∧ id ∉ s.history.cancelled)
  unscheduled : s.unscheduledEvents = s.events.card

end DefaultSimulatorImpl

end OranNs3.Sim
