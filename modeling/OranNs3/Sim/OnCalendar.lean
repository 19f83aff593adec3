import OranNs3.Sim.CalendarRuns
import OranNs3.Sim.SimulatorRuns

/-!
# The simulator on a calendar

`DefaultSimulatorImpl` with a `CalendarScheduler` as `m_events`. What a call of the simulator does
with the set of its events (`exchange`), the calendar does, and it returns the same events
(`driven_of_run`), as long as time stamps are below `2 ^ 47`. It finds the events that are removed,
since uids differ, and no event that is inserted is earlier than the last one that it returned.
-/

namespace OranNs3.Sim

open List Multiset Option

/-! ## Calls on sets of events -/

/-- An event that is inserted has a uid of its own, and is not in the past. -/
def Fresh (now : Nat) (m : Multiset Event) (c : Call) : Prop :=
  ∀ ev, c = .insert ev → (∀ e ∈ m, e.key.uid ≠ ev.key.uid) ∧ now ≤ ev.key.ts

/-- Calls on a set with the events that they return, from a time to that of the last event that was
returned. -/
inductive Exchanges : Nat → Multiset Event → List (Call × Option Event) → Nat → Multiset Event →
    Prop
  | nil {now : Nat} {m : Multiset Event} : Exchanges now m [] now m
  | cons {now now' : Nat} {m m' m'' : Multiset Event} {c : Call} {r : Option Event} {l :
      List (Call × Option Event)} (hfresh : Fresh now m c) (hset : SetStep m c r m') (hl :
      Exchanges ((r.map (·.key.ts)).getD now) m' l now' m'') :
      Exchanges now m ((c, r) :: l) now' m''

section
variable {m m' m'' : Multiset Event} {c : Call} {r r' : Option Event} {ev e : Event} {now : Nat}

theorem SetStep.admits (hset : SetStep m c r m') (hfresh : Fresh now m c) : AdmitsDistinct m c := by
  cases hset with
  | insert ev => exact (hfresh ev rfl).1
  | remove ev hev => exact hev
  | removeNext ev hev =>
    rintro rfl
    exact Multiset.notMem_zero ev hev.1

theorem UidsDiffer.returned (h : UidsDiffer m) (hset : SetStep m c r m')
    (hset' : SetStep m c r' m'') : r = r' ∧ m' = m'' := by
  cases hset with
  | insert | remove =>
    cases hset'
    exact ⟨rfl, rfl⟩
  | removeNext ev hev =>
    cases hset' with
    | removeNext ev' hev' =>
      obtain ⟨hmem, hle⟩ := isNext_iff.1 hev
      obtain ⟨hmem', hle'⟩ := isNext_iff.1 hev'
      have hrank := le_antisymm (hle ev' hmem') (hle' ev hmem)
      obtain rfl := h.unique hmem hmem' (EventKey.rank_eq_iff.1 hrank).2
      exact ⟨rfl, rfl⟩

end

/-! ## The calendar -/

/-- Events are inserted with time stamps below `2 ^ 47`. -/
def Call.early : Call → Bool
  | .insert ev => ev.key.ts < 2 ^ 47
  | .remove _ | .removeNext => true

namespace CalendarScheduler

variable {s : CalendarScheduler} {m m' : Multiset Event} {c : Call} {r : Option Event} {ev : Event}
  {now now' : Nat}

/-- The calendar has the events `m` of different uids, of which none was returned that is later than
`now`. -/
structure Holds (now : Nat) (s : CalendarScheduler) (m : Multiset Event) : Prop where
  inv : Inv s m
  small : Small s m
  uids : UidsDiffer m
  lastPrio : s.lastPrio ≤ now

theorem Holds.call (h : Holds now s m) (hfresh : Fresh now m c) (hset : SetStep m c r m')
    (hc : c.early = true) : ∃ s', s.call c = some (s', r) ∧
    Holds ((r.map (·.key.ts)).getD now) s' m' := by
  have hadm := hset.admits hfresh
  have hsmall : CallSmall (s, m) c := by
    refine ⟨hadm, fun ev heq => ?_⟩
    subst heq
    exact ⟨h.lastPrio.trans (hfresh ev rfl).2, of_decide_eq_true hc⟩
  obtain ⟨s', r', hs, hset', hinv', hlast, -⟩ := h.inv.call h.uids (h.small.callOk hsmall)
  have hstep : CallStep CalendarScheduler.call (s, m) c (s', remaining m c r') := by
    rw [CallStep, call?, hs, map_some]
  have hsmall' := h.small.step h.inv h.uids hsmall hstep
  obtain ⟨rfl, rfl⟩ := h.uids.returned hset' hset
  refine ⟨s', hs, hinv', hsmall', h.uids.step hset hadm, hlast.le.trans ?_⟩
  cases r' with
  | none => exact h.lastPrio
  | some ev => exact le_rfl

theorem Holds.outputs {l : List (Call × Option Event)} (hl : Exchanges now m l now' m') :
    ∀ {s : CalendarScheduler}, Holds now s m → (∀ e ∈ l, e.1.early = true) →
      ∃ s', Lts.outputs CalendarScheduler.call s (l.map Prod.fst) = some (s', l.map Prod.snd) ∧
        Holds now' s' m' := by
  induction hl with
  | nil => exact fun {s} h _ => ⟨s, rfl, h⟩
  | cons hfresh hset _ ih =>
    intro s h hearly
    obtain ⟨hc, hrest⟩ := List.forall_mem_cons.1 hearly
    obtain ⟨s₁, hcall, h₁⟩ := h.call hfresh hset hc
    obtain ⟨s', hcalls, h'⟩ := ih h₁ hrest
    refine ⟨s', ?_, h'⟩
    rw [List.map_cons, List.map_cons, Lts.outputs, hcall, Option.bind_some, hcalls]
    rfl

end CalendarScheduler

/-! ## The simulator -/

namespace DefaultSimulatorImpl

/-- The calls of the scheduler in the loop of `ProcessEventsWithContext`. -/
def takeOvers (s : DefaultSimulatorImpl) : List EventWithContext → List (Call × Option Event)
  | [] => []
  | ev :: l =>
    (.insert (s.event ev.event ((s.currentTs + ev.timestamp) % 2 ^ 64) ev.context), none) ::
      takeOvers (s.takeOver ev) l

/-- The calls of the scheduler in a call, with the events that they return. -/
def exchange (s : DefaultSimulatorImpl) : SimCall → List (Call × Option Event)
  | .schedule delay => [(.insert (s.event s.impls (s.absolute delay) s.currentContext), none)]
  | .scheduleNow => [(.insert (s.event s.impls (s.absolute 0) s.currentContext), none)]
  | .scheduleWithContext context delay =>
    [(.insert (s.event s.impls (s.absolute delay) context), none)]
  | .remove id => if id.uid = destroyUid ∨ s.isExpired id then [] else id.event.toList.map fun ev =>
    (.remove ev, none)
  | .processOneEvent next => [(.removeNext, some next)]
  | .processEventsWithContext => takeOvers { s with eventsWithContext := [] } s.eventsWithContext
  | .postWithContext _ _ | .scheduleDestroy | .cancel _ => []

variable {s s' : DefaultSimulatorImpl}

theorem exchanges_insert (hbelow : ∀ e ∈ s.events, e.key.uid < s.uid) {impl ts context : Nat}
    (hts : s.currentTs ≤ ts) {now : Nat} {l : List (Call × Option Event)} {m : Multiset Event}
    (hl : Exchanges s.currentTs (s.event impl ts context ::ₘ s.events) l now m) :
    Exchanges s.currentTs s.events ((.insert (s.event impl ts context), none) :: l) now m := by
  refine .cons (fun ev hev => ?_) (.insert _) hl
  cases hev
  exact ⟨fun e he => Nat.ne_of_lt (hbelow e he), hts⟩

theorem exchanges_takeOvers (l : List EventWithContext) : ∀ {s : DefaultSimulatorImpl},
    s.UidsLeft l.length → (l ≠ [] → ∀ e ∈ s.events, e.key.uid < s.uid) →
      (∀ ev ∈ l, s.currentTs + ev.timestamp < 2 ^ 63) →
        Exchanges s.currentTs s.events (s.takeOvers l) (l.foldl takeOver s).currentTs
          (l.foldl takeOver s).events := by
  induction l with
  | nil => exact fun _ _ _ => .nil
  | cons ev l ih =>
    intro s hleft hbelow htime
    obtain ⟨htime, htimes⟩ := forall_mem_cons.1 htime
    have hlt := hbelow (cons_ne_nil _ _)
    rw [UidsLeft, length_cons] at hleft
    have hnext : l ≠ [] → (s.takeOver ev).uid = s.uid + 1 := fun hne => by
      have hpos := length_pos_iff.2 hne
      change (s.uid + 1) % 2 ^ 32 = _
      omega
    have hleft' : (s.takeOver ev).UidsLeft l.length := by
      rcases eq_or_ne l [] with rfl | hne
      · exact .inl rfl
      · rw [UidsLeft, hnext hne]
        omega
    have hbelow' : l ≠ [] → ∀ e ∈ (s.takeOver ev).events, e.key.uid < (s.takeOver ev).uid :=
      fun hne e he => by
      rw [hnext hne]
      rcases mem_cons.1 he with rfl | he
      · exact Nat.lt_succ_self _
      · exact Nat.lt_succ_of_lt (hlt e he)
    exact exchanges_insert hlt (by omega) (ih hleft' hbelow' htimes)

theorem Inv.below {loose : List Nat} (h : Inv loose s) (hleft : s.UidsLeft 1) : ∀ e ∈ s.events,
    e.key.uid < s.uid :=
  fun e he => (h.uids.given hleft).2.2 e (h.queue.scheduled e he)

/-- What a call does with the set of events. -/
theorem exchanges_of_step {c : SimCall} (h : Inv (s.eventsWithContext.map (·.event)) s)
    (hfit : s.Fits c) (hstep : Step s c s') :
    Exchanges s.currentTs s.events (s.exchange c) s'.currentTs s'.events := by
  have hnow := h.queue.now_lt
  cases c with
  | schedule delay =>
    obtain ⟨h0, hs⟩ := ite_none_right_eq_some.1 hstep
    cases hs
    exact exchanges_insert (h.below hfit.1.1) (absolute_eq h0 hfit.2).1 .nil
  | scheduleNow =>
    change s.schedule 0 = some s' at hstep
    obtain ⟨h0, hs⟩ := ite_none_right_eq_some.1 hstep
    cases hs
    exact exchanges_insert (h.below hfit.1) (absolute_eq h0 (by omega)).1 .nil
  | scheduleWithContext context delay =>
    cases hstep
    exact exchanges_insert (h.below hfit.1.1) (absolute_eq hfit.2.1 hfit.2.2).1 .nil
  | postWithContext | scheduleDestroy =>
    cases hstep
    exact .nil
  | cancel id =>
    cases hstep
    have hsame : (s.cancel id).events = s.events ∧ (s.cancel id).currentTs = s.currentTs := by
      rw [cancel]
      split <;> exact ⟨rfl, rfl⟩
    rw [hsame.1, hsame.2]
    exact .nil
  | remove id =>
    obtain ⟨t, ht, rfl⟩ := map_eq_some_iff.1 hstep
    rw [exchange]
    split at ht
    · next huid =>
      cases ht
      rw [if_pos (.inl huid)]
      exact .nil
    · next huid =>
      split at ht
      · next hexp =>
        cases ht
        rw [if_pos (.inr hexp)]
        exact .nil
      · next hexp =>
        obtain ⟨ev, hev, ht⟩ := bind_eq_some_iff.1 ht
        obtain ⟨hmem, ht⟩ := ite_none_right_eq_some.1 ht
        cases ht
        rw [if_neg (not_or.2 ⟨huid, hexp⟩), hev]
        exact .cons (fun _ hc => absurd hc Call.noConfusion) (.remove ev hmem) .nil
  | processOneEvent next =>
    obtain ⟨⟨hnext, -⟩, hs⟩ := ite_none_right_eq_some.1 hstep
    cases hs
    exact .cons (fun _ hc => absurd hc Call.noConfusion) (.removeNext next hnext) .nil
  | processEventsWithContext =>
    cases hstep
    have hbelow : s.eventsWithContext ≠ [] → ∀ e ∈ s.events, e.key.uid < s.uid := fun hne =>
      h.below (by
      have hpos := length_pos_iff.2 hne
      have hleft := hfit.1.1
      unfold UidsLeft at *
      omega)
    exact exchanges_takeOvers (s := { s with eventsWithContext := [] }) s.eventsWithContext hfit.1.1
      hbelow hfit.2

end DefaultSimulatorImpl

/-! ## Both -/

/-- The simulator, and its `m_events`. -/
abbrev Driver := DefaultSimulatorImpl × CalendarScheduler

namespace Driver

variable {w w' : Driver} {c : SimCall}

/-- A call in which the calendar returns the events that the simulator goes on with. -/
def step? (w : Driver) (c : SimCall) : Option Driver :=
  (w.1.call? c).bind fun s =>
    (Lts.outputs CalendarScheduler.call w.2 ((w.1.exchange c).map Prod.fst)).bind fun r =>
    if r.2 = (w.1.exchange c).map Prod.snd then some (s, r.1) else none

def Step (w : Driver) (c : SimCall) (w' : Driver) : Prop := w.step? c = some w'

def Fits (w : Driver) (c : SimCall) : Prop := w.1.Fits c ∧ ∀ e ∈ w.1.exchange c, e.1.early = true
deriving Decidable

structure Inv (w : Driver) : Prop where
  sim : DefaultSimulatorImpl.Inv (w.1.eventsWithContext.map (·.event)) w.1
  holds : CalendarScheduler.Holds w.1.currentTs w.2 w.1.events

theorem Inv.step (h : w.Inv) (hfit : w.Fits c) {s : DefaultSimulatorImpl} (hs : w.1.Step c s) :
    ∃ t, Step w c (s, t) ∧ Inv (s, t) := by
  obtain ⟨t, hcalls, hholds⟩ :=
    CalendarScheduler.Holds.outputs (DefaultSimulatorImpl.exchanges_of_step h.sim hfit.1 hs) h.holds
      hfit.2
  refine ⟨t, ?_, h.sim.step hfit.1 hs, hholds⟩
  rw [Step, step?, hs, bind_some, hcalls, bind_some, if_pos rfl]

theorem Inv.of_step (h : w.Inv) (hfit : w.Fits c) (hstep : w.Step c w') : w'.Inv := by
  obtain ⟨s, hs, -⟩ := bind_eq_some_iff.1 hstep
  obtain ⟨t, ht, hinv⟩ := h.step hfit hs
  cases some.inj (ht.symm.trans hstep)
  exact hinv

/-- The simulator does what it has to do, the calendar has its events, and a call that it makes on a
set of events it makes on the calendar. -/
structure Driven (w : Driver) : Prop where
  right : w.1.Right
  stored : w.2.stored = w.1.events
  step : ∀ c s, w.Fits c → w.1.Step c s → ∃ t, Step w c (s, t)

/-- In every run that fits, the calendar serves the simulator. -/
theorem driven_of_run {reverse : Bool} (hrun : Lts.Run Step Fits (.new, .new reverse) w) :
    Driven w := by
  have hnew : UidsDiffer 0 := nodup_zero
  have h : w.Inv := hrun.invariant (I := Inv) Inv.of_step ⟨DefaultSimulatorImpl.inv_new,
    CalendarScheduler.inv_new reverse, CalendarScheduler.small_new reverse, hnew, Nat.le_refl 0⟩
  refine ⟨h.sim.right, h.holds.inv.stored.events, fun c s hfit hs => ?_⟩
  obtain ⟨t, ht, -⟩ := h.step hfit hs
  exact ⟨t, ht⟩

/-- An event cancels the next one and removes another, and one more comes from another thread. -/
theorem driven_of_run_example : ∃ w, Driven w ∧
    w.1.history.executed = [⟨0, 5, 4, 0xffffffff⟩, ⟨4, 5, 8, 0xffffffff⟩, ⟨5, 6, 9, 3⟩] ∧
      w.2.nBuckets = 2 := by
  have hexec : (Lts.execs Fits step? (.new, .new true) [.schedule 5, .schedule 5, .schedule 7,
    .scheduleWithContext 2 9,
      .processOneEvent ⟨0, 5, 4, 0xffffffff⟩, .cancel ⟨some 1, 5, 0xffffffff, 5⟩,
      .remove ⟨some 2, 7, 0xffffffff, 6⟩, .scheduleNow,
      .postWithContext 3 1, .processEventsWithContext, .processOneEvent ⟨1, 5, 5, 0xffffffff⟩,
      .processOneEvent ⟨4, 5, 8, 0xffffffff⟩, .processOneEvent ⟨5, 6, 9, 3⟩]).map (fun w =>
        (w.1.history.executed, w.2.nBuckets))
      = some ([⟨0, 5, 4, 0xffffffff⟩, ⟨4, 5, 8, 0xffffffff⟩, ⟨5, 6, 9, 3⟩], 2) := by
    decide +kernel
  obtain ⟨w, hw, hm⟩ := map_eq_some_iff.1 hexec
  exact ⟨w, driven_of_run (Lts.run_of_execs id hw), Prod.mk.inj hm⟩

end Driver

end OranNs3.Sim
