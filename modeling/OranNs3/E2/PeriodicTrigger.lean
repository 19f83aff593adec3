import OranNs3.Lib.EventQueue
import OranNs3.Lib.Run

/-!
# The periodic report trigger

`OranReportTriggerPeriodic` (`oran-report-trigger-periodic.cc`) keeps one handle, that of the
`TriggerReport` it scheduled last. `TriggerReport` schedules the next one without a look at that
handle: as the event itself it has just left the queue, but a call from elsewhere starts a second
chain of events beside the first. `NotifyRegistrationComplete` makes such a call when initial
reports are enabled. The trigger has at most one event pending, and none while it is inactive, along
the executions in which no such call meets an active trigger, and along no other (`single_iff`). An
active trigger cannot be deactivated: to unlink it, `OranReportTrigger::Deactivate` sets the
attribute `Trigger` of the reporter to a null pointer, and `ObjectBase::SetAttribute` ends the
program (`deactivate_error_iff`).
-/

namespace OranNs3

open EventQueue List Option

/-- The event of a periodic trigger. -/
inductive TriggerEvent
  | triggerReport
deriving DecidableEq

/-- `OranReportTriggerPeriodic`, with the simulator. -/
structure PeriodicTrigger where
  sim : EventQueue TriggerEvent
  active : Bool
  reporter : Option Nat
  initialReport : Bool
  triggerEvent : EventId

/-- The `NS_ABORT_MSG`s of `OranReportTrigger`, and the fatal error of `SetAttribute` when the value
is a null pointer (`PointerValue::GetAccessor`, `pointer.h`). -/
inductive TriggerAbort
  | linkNull
  | unlinkNull
  | triggerNull
  | nullPointerValue
deriving DecidableEq

/-- What a report needs from outside: the draw of `m_intervalRv`, and whether the reporter, called
by `PerformReport`, finds no terminator and deactivates its trigger. -/
structure TriggerInput where
  interval : Nat
  lost : Bool

namespace PeriodicTrigger

variable {s s' : PeriodicTrigger} {inp : TriggerInput}

def scheduleNextTrigger (interval : Nat) (s : PeriodicTrigger) : PeriodicTrigger :=
  { s with sim := s.sim.schedule interval .triggerReport, triggerEvent := s.sim.handle }

/-- `Activate`. -/
def activate (interval : Nat) (s : PeriodicTrigger) (reporter : Option Nat) :
    Except TriggerAbort PeriodicTrigger :=
  if s.active then .ok s
  else match reporter with
    | none => .error .linkNull
    | some r => .ok { s.scheduleNextTrigger interval with active := true, reporter := some r }

/-- `Deactivate`. The event that is cancelled first is of no use: the attribute `Trigger` of the
reporter is set to a null pointer. -/
def deactivate (s : PeriodicTrigger) : Except TriggerAbort PeriodicTrigger :=
  if s.active then
    match s.reporter with
    | none => .error .unlinkNull
    | some _ => .error .nullPointerValue
  else .ok s

/-- `TriggerReport`. -/
def triggerReport (inp : TriggerInput) (s : PeriodicTrigger) :
    Except TriggerAbort PeriodicTrigger :=
  let s := if s.active then s.scheduleNextTrigger inp.interval else s
  match s.reporter with
  | none => .error .triggerNull
  | some _ => if inp.lost then s.deactivate else .ok s

def notifyRegistrationComplete (inp : TriggerInput) (s : PeriodicTrigger) :
    Except TriggerAbort PeriodicTrigger :=
  if s.active && s.initialReport then s.triggerReport inp else .ok s

/-- A trigger as it is constructed, when nothing is scheduled. -/
def init : PeriodicTrigger := ⟨.empty, false, none, false, none⟩

end PeriodicTrigger

/-- What can happen: time passes up to the next event, the event runs, or a function is called. -/
inductive TriggerAction
  | elapse (t : Nat)
  | fire (inp : TriggerInput)
  | activate (interval : Nat) (reporter : Option Nat)
  | deactivate
  | triggerReport (inp : TriggerInput)
  | setInitialReport (b : Bool)
  | notifyRegistrationComplete (inp : TriggerInput)

namespace PeriodicTrigger

variable {s s' : PeriodicTrigger} {inp : TriggerInput} {a : TriggerAction}

/-- The effect of an action, an abort in the inner `Except`. -/
def act (s : PeriodicTrigger) : TriggerAction → Option (Except TriggerAbort PeriodicTrigger)
  | .elapse t => (s.sim.advance? t).map fun q => .ok { s with sim := q }
  | .fire inp => s.sim.next?.map fun (_, q) => { s with sim := q }.triggerReport inp
  | .activate interval reporter => some (s.activate interval reporter)
  | .deactivate => some s.deactivate
  | .triggerReport inp => some (s.triggerReport inp)
  | .setInitialReport b => some (.ok { s with initialReport := b })
  | .notifyRegistrationComplete inp => some (s.notifyRegistrationComplete inp)

/-- One step; none after an abort. -/
def step? (s : PeriodicTrigger) (a : TriggerAction) : Option PeriodicTrigger :=
  match s.act a with
  | some (.ok s') => some s'
  | _ => none

theorem act_of_step? (h : s.step? a = some s') : s.act a = some (.ok s') := by
  unfold step? at h
  split at h
  · next heq => cases h; exact heq
  · cases h

/-- At most one `TriggerReport` is pending, and none while the trigger is inactive. -/
def Single (s : PeriodicTrigger) : Prop :=
  s.sim.pending.length ≤ 1 ∧ (s.active = false → s.sim.pending = [])

instance (s : PeriodicTrigger) : Decidable s.Single :=
  decidable_of_iff (s.sim.pending.length ≤ 1 ∧ (s.active = false → s.sim.pending.isEmpty))
    (by rw [List.isEmpty_iff, Single])

/-- The step leads to such a state. -/
def KeepsSingle (s : PeriodicTrigger) (a : TriggerAction) : Prop :=
  ∀ s', s.step? a = some s' → s'.Single

/-- No report is triggered by a call while the trigger is active, but one that ends the program
because the reporter has lost its terminator. -/
def NoExtraReport (s : PeriodicTrigger) : TriggerAction → Prop
  | .triggerReport inp => s.active = false ∨ inp.lost = true
  | .notifyRegistrationComplete inp =>
    s.active = false ∨ s.initialReport = false ∨ inp.lost = true
  | _ => True

/-- The invariant: an active trigger has a reporter, and its handle is that of the one pending
event; an inactive one has neither. -/
inductive Inv (s : PeriodicTrigger) : Prop
  | active (ha : s.active = true) (r : Nat) (hr : s.reporter = some r) (e : Scheduled TriggerEvent)
      (hp : s.sim.pending = [e]) (hid : s.triggerEvent = some e.uid)
  | inactive (ha : s.active = false) (hr : s.reporter = none) (hp : s.sim.pending = [])

theorem Inv.single (h : s.Inv) : s.Single := by
  cases h with
  | active ha r hr e hp hid =>
    refine ⟨by rw [hp]; exact le_rfl, fun ha' => ?_⟩
    rw [ha] at ha'
    cases ha'
  | inactive ha hr hp =>
    refine ⟨?_, fun _ => hp⟩
    rw [hp]
    exact Nat.zero_le _

theorem inv_scheduleNextTrigger (hp : s.sim.pending = []) (ha : s.active = true) {r : Nat}
    (hr : s.reporter = some r) (interval : Nat) : (s.scheduleNextTrigger interval).Inv := by
  refine .active ha r hr (s.sim.entry interval .triggerReport) ?_ rfl
  change orderedInsert _ _ s.sim.pending = _
  rw [hp]
  rfl

/-- Nothing but an inactive trigger is deactivated, which changes nothing. -/
theorem deactivate_ok (h : s.deactivate = .ok s') : s.active = false ∧ s' = s := by
  unfold deactivate at h
  split at h
  · split at h
    · cases h
    · cases h
  · next ha =>
    cases h
    exact ⟨Bool.eq_false_iff.2 ha, rfl⟩

/-- `Deactivate` ends the program when the trigger is active, and only then. -/
theorem deactivate_error_iff : (∃ e, s.deactivate = .error e) ↔ s.active = true := by
  constructor
  · rintro ⟨e, h⟩
    by_contra ha
    rw [deactivate, if_neg ha] at h
    cases h
  · intro ha
    rw [deactivate, if_pos ha]
    split
    · exact ⟨_, rfl⟩
    · exact ⟨_, rfl⟩

theorem inv_triggerReport (hp : s.sim.pending = []) (ha : s.active = true) {r : Nat}
    (hr : s.reporter = some r) (h : s.triggerReport inp = .ok s') : s'.Inv := by
  have hs := inv_scheduleNextTrigger hp ha hr inp.interval
  have hr' : (s.scheduleNextTrigger inp.interval).reporter = some r := hr
  simp only [triggerReport, ha, if_true, hr'] at h
  split at h
  · exact absurd (ha.symm.trans (deactivate_ok h).1) (by decide)
  · cases h
    exact hs

/-- The reporter of an active trigger has lost its terminator: it deactivates the trigger. -/
theorem triggerReport_lost (ha : s.active = true) (hl : inp.lost = true) :
    s.triggerReport inp ≠ .ok s' := by
  intro h
  simp only [triggerReport, ha, if_true, hl] at h
  split at h
  · cases h
  · exact absurd (ha.symm.trans (deactivate_ok h).1) (by decide)

theorem triggerReport_inactive (ha : s.active = false) (hr : s.reporter = none) :
    s.triggerReport inp = .error .triggerNull := by
  simp [triggerReport, ha, hr]

/-- A report that is triggered while an event is pending leaves two of them. -/
theorem not_single_of_triggerReport {e : Scheduled TriggerEvent} (hp : s.sim.pending = [e])
    (ha : s.active = true) {r : Nat} (hr : s.reporter = some r) (hl : inp.lost = false) :
    ∃ s', s.triggerReport inp = .ok s' ∧ ¬ s'.Single := by
  have hr' : (s.scheduleNextTrigger inp.interval).reporter = some r := hr
  refine ⟨s.scheduleNextTrigger inp.interval, by simp [triggerReport, ha, hr', hl], fun h => ?_⟩
  have hlen := h.1
  rw [scheduleNextTrigger, length_schedule, hp] at hlen
  exact absurd hlen (by simp)

/-- A step without an extra report keeps the invariant. -/
theorem Inv.step (hs : s.Inv) (hok : s.NoExtraReport a) (h : s.step? a = some s') : s'.Inv := by
  have h := act_of_step? h
  cases a with
  | elapse t =>
    obtain ⟨q, hq, h⟩ := map_eq_some_iff.1 h
    cases h
    obtain ⟨hp, -⟩ := advance?_eq_some hq
    cases hs with
    | active ha r hr e hp' hid => exact .active ha r hr e (hp.trans hp') hid
    | inactive ha hr hp' => exact .inactive ha hr (hp.trans hp')
  | fire inp =>
    obtain ⟨⟨e, q⟩, hq, h⟩ := map_eq_some_iff.1 h
    obtain ⟨hp, -⟩ := next?_eq_some hq
    cases hs with
    | active ha r hr e' hp' hid =>
      rw [hp'] at hp
      exact inv_triggerReport (s := { s with sim := q }) (cons.inj hp).2.symm ha hr h
    | inactive ha hr hp' =>
      rw [hp'] at hp
      cases hp
  | activate interval reporter =>
    have h : s.activate interval reporter = .ok s' := some.inj h
    unfold activate at h
    cases hs with
    | active ha r hr e hp hid =>
      rw [if_pos ha] at h
      cases h
      exact .active ha r hr e hp hid
    | inactive ha hr hp =>
      rw [if_neg (by simp [ha])] at h
      cases reporter with
      | none => cases h
      | some r =>
        cases h
        exact inv_scheduleNextTrigger (s := { s with active := true, reporter := some r }) hp
          rfl rfl interval
  | deactivate =>
    obtain ⟨-, rfl⟩ := deactivate_ok (some.inj h)
    exact hs
  | triggerReport inp =>
    cases hs with
    | active ha =>
      rcases hok with hno | hl
      · exact absurd (ha.symm.trans hno) (by decide)
      · exact absurd (some.inj h) (triggerReport_lost ha hl)
    | inactive ha hr hp =>
      rw [act, triggerReport_inactive ha hr] at h
      cases h
  | setInitialReport b =>
    cases h
    cases hs with
    | active ha r hr e hp hid => exact .active ha r hr e hp hid
    | inactive ha hr hp => exact .inactive ha hr hp
  | notifyRegistrationComplete inp =>
    rw [act, notifyRegistrationComplete] at h
    split at h
    · next hcond =>
      obtain ⟨ha, hi⟩ := Bool.and_eq_true_iff.1 hcond
      rcases hok with hno | hno | hl
      · exact absurd (ha.symm.trans hno) (by decide)
      · exact absurd (hi.symm.trans hno) (by decide)
      · exact absurd (some.inj h) (triggerReport_lost ha hl)
    · cases h
      exact hs

theorem Inv.keepsSingle_iff (hs : s.Inv) : s.KeepsSingle a ↔ s.NoExtraReport a := by
  refine ⟨fun hk => ?_, fun hok s' h => (hs.step hok h).single⟩
  have hcall : ∀ inp, s.active = true → inp.lost = false →
      ∃ s', s.triggerReport inp = .ok s' ∧ ¬ s'.Single := by
    intro inp hact hl
    cases hs with
    | active ha r hr e hp _ => exact not_single_of_triggerReport hp ha hr hl
    | inactive ha => exact absurd (ha.symm.trans hact) (by decide)
  cases a with
  | triggerReport inp =>
    by_contra hnot
    obtain ⟨ha, hl⟩ : s.active = true ∧ inp.lost = false := by
      simpa only [NoExtraReport, not_or, Bool.not_eq_false, Bool.not_eq_true] using hnot
    obtain ⟨s', h, hnot⟩ := hcall inp ha hl
    exact hnot (hk s' (by rw [step?, act, h]))
  | notifyRegistrationComplete inp =>
    by_contra hnot
    obtain ⟨ha, hi, hl⟩ : s.active = true ∧ s.initialReport = true ∧ inp.lost = false := by
      simpa only [NoExtraReport, not_or, Bool.not_eq_false, Bool.not_eq_true] using hnot
    obtain ⟨s', h, hnot⟩ := hcall inp ha hl
    refine hnot (hk s' ?_)
    rw [step?, act, notifyRegistrationComplete, if_pos (by rw [ha, hi]; rfl), h]
  | elapse | fire | activate | deactivate | setInitialReport => trivial

/-- Along an execution the trigger has at most one event pending, and none while it is inactive,
exactly when no call triggers a report of the active trigger. -/
theorem single_iff (as : List TriggerAction) :
    Lts.Along step? KeepsSingle init as ↔ Lts.Along step? NoExtraReport init as :=
  Lts.along_iff (I := Inv) (fun hs hk h => hs.step (hs.keepsSingle_iff.1 hk) h)
    (fun hs => hs.keepsSingle_iff) (.inactive rfl rfl rfl)

/-- The terminator registers a node whose trigger is active and sends an initial report: two events
are pending. -/
theorem initialReport_twice : ¬ ∀ as, Lts.Along step? KeepsSingle init as := by
  intro h
  have h3 := (h [.setInitialReport true, .activate 1 (some 0),
    .notifyRegistrationComplete ⟨1, false⟩]).2 _ rfl
  have h2 := (h3.2 _ rfl).1 _ rfl
  exact absurd h2 (by decide)

end PeriodicTrigger

end OranNs3
