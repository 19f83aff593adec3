import Mathlib.Data.List.Pairwise
import OranNs3.Sim.Simulator

/-!
# Runs of the simulator

The invariant of a run has three parts. `Uids`: uids are given in increasing order, and the counter
lies above all of them until it goes round. `Objects`: every `EventImpl` belongs to one event or to
one that still has to get its uid (a *loose* one), and its cancel flag says what was asked of that
event. `Queue`: the key of the last executed event separates what is in the scheduler from what has
left it. Each call keeps them under `Fits`, and together they give `Right`.
-/

namespace OranNs3.Sim

open List Option

namespace DefaultSimulatorImpl

variable {s s' : DefaultSimulatorImpl} {loose : List Nat} {ev : Event} {id : EventId}

/-- The key of the event executed last. -/
def now (s : DefaultSimulatorImpl) : ℕ ×ₗ ℕ := toLex (s.currentTs, s.currentUid)

/-- The objects that scheduled events have. -/
def History.owned (h : History) : List Nat :=
  h.scheduled.map (·.impl) ++ h.destroyIds.filterMap (·.impl)

/-- Uids in the order of scheduling. -/
structure Uids (s : DefaultSimulatorImpl) : Prop where
  uid_lt : s.uid < 2 ^ 32
  fresh : s.uid = 0 ∨ validUid ≤ s.uid ∧ s.currentUid < s.uid ∧
    ∀ ev ∈ s.history.scheduled, ev.key.uid < s.uid
  valid : ∀ ev ∈ s.history.scheduled, validUid ≤ ev.key.uid
  numbered : s.history.scheduled.Pairwise fun a b => a.key.uid < b.key.uid
  destroy : ∀ id ∈ s.history.destroyIds, id.uid = destroyUid ∧ id.impl ≠ none
  destroyEvents : ∀ id ∈ s.destroyEvents, id ∈ s.history.destroyIds
  asked : ∀ id, id ∈ s.history.cancelled ∨ id ∈ s.history.removed →
    id ∈ s.history.destroyIds ∨ ∃ ev ∈ s.history.scheduled, ev.id = id

/-- The owners of the objects, and their flags. -/
structure Objects (loose : List Nat) (s : DefaultSimulatorImpl) : Prop where
  nodup : (loose ++ History.owned s.history).Nodup
  made : ∀ i ∈ loose ++ History.owned s.history, i < s.impls
  loose : ∀ i ∈ loose, s.isCancelled i = false
  flag : ∀ ev ∈ s.history.scheduled,
    (s.isCancelled ev.impl = true ↔ ev.id ∈ s.history.cancelled ∨ ev.id ∈ s.history.removed)
  destroy : ∀ id ∈ s.history.destroyIds, ∀ i, id.impl = some i →
    (s.isCancelled i = true ↔ id ∈ s.history.cancelled)

/-- What is in the scheduler and what has left it. -/
structure Queue (s : DefaultSimulatorImpl) : Prop where
  nodup : s.events.Nodup
  scheduled : ∀ ev ∈ s.events, ev ∈ s.history.scheduled
  later : ∀ ev ∈ s.events, s.now < ev.key.rank
  past : ∀ ev ∈ s.history.scheduled, ev ∈ s.events ∨ ev.id ∈ s.history.removed ∨ ev.key.rank ≤ s.now
  removed : ∀ ev ∈ s.events, ev.id ∈ s.history.removed → ev.id ∈ s.history.cancelled
  sorted : s.history.executed.Pairwise fun a b => a.key.rank < b.key.rank
  executed : ∀ ev, ev ∈ s.history.executed ↔ ev ∈ s.history.scheduled ∧
    ev.id ∉ s.history.cancelled ∧ ev.id ∉ s.history.removed ∧ ev ∉ s.events
  count : s.unscheduledEvents = s.events.card
  card_lt : s.events.card < 2 ^ 31
  now_lt : s.currentTs < 2 ^ 63
  ts_lt : ∀ ev ∈ s.history.scheduled, ev.key.ts < 2 ^ 63

/-- The invariant of a run, with the objects that have no event yet. -/
structure Inv (loose : List Nat) (s : DefaultSimulatorImpl) : Prop where
  uids : Uids s
  objects : Objects loose s
  queue : Queue s

/-! ## Ids -/

variable {a b : Event}

theorem id_injective (h : a.id = b.id) : a = b := by
  obtain ⟨i, ts, uid, context⟩ := a
  obtain ⟨j, ts', uid', context'⟩ := b
  simp [Event.id] at h
  simp [h]

theorem event_eq_some_iff : id.event = some ev ↔ ev.id = id := by
  obtain ⟨impl, ts, context, uid⟩ := id
  obtain ⟨i, ts', uid', context'⟩ := ev
  cases impl with
  | none => simp [EventId.event, Event.id]
  | some j =>
    simp only [EventId.event, map_some, some.injEq, Event.id, Event.mk.injEq,
      EventKey.mk.injEq, EventId.mk.injEq]
    constructor
    · rintro ⟨rfl, rfl, rfl, rfl⟩
      simp
    · rintro ⟨rfl, rfl, rfl, rfl⟩
      simp

@[simp] theorem id_impl : ev.id.impl = some ev.impl := rfl

theorem Uids.id_not_destroy (h : Uids s) (hev : ev ∈ s.history.scheduled) :
    ev.id ∉ s.history.destroyIds := by
  intro hm
  have huid : ev.key.uid = destroyUid := (h.destroy _ hm).1
  have hvalid := h.valid ev hev
  simp only [validUid, destroyUid] at hvalid huid
  omega

theorem Uids.injective (h : Uids s) (ha : a ∈ s.history.scheduled)
    (hb : b ∈ s.history.scheduled) (huid : a.key.uid = b.key.uid) : a = b := by
  have hnodup : (s.history.scheduled.map (·.key.uid)).Nodup :=
    pairwise_map.2 (h.numbered.imp fun hlt => ne_of_lt hlt)
  exact inj_on_of_nodup_map hnodup ha hb huid

variable (ev) in
theorem Uids.not_asked (h : Uids s) (hvalid : validUid ≤ ev.key.uid)
    (hnew : ∀ e ∈ s.history.scheduled, e.key.uid ≠ ev.key.uid) :
    ev.id ∉ s.history.cancelled ∧ ev.id ∉ s.history.removed := by
  have hno : ¬ (ev.id ∈ s.history.cancelled ∨ ev.id ∈ s.history.removed) := by
    intro hasked
    rcases h.asked _ hasked with hd | ⟨e, he, hid⟩
    · have huid : ev.key.uid = destroyUid := (h.destroy _ hd).1
      simp only [validUid, destroyUid] at hvalid huid
      omega
    · exact hnew e he (by rw [id_injective hid])
  exact not_or.1 hno

theorem Uids.pending_iff (h : Uids s) (hev : ev ∈ s.history.scheduled) :
    s.Pending ev.id ↔ ev ∈ s.events := by
  constructor
  · rintro (⟨e, he, hid⟩ | hd)
    · exact id_injective hid ▸ he
    · exact absurd (h.destroyEvents _ hd) (h.id_not_destroy hev)
  · intro he
    exact Or.inl ⟨ev, he, rfl⟩

section
variable (h : Inv loose s)
include h

theorem Inv.destroy_pending_iff (hid : id ∈ s.history.destroyIds) :
    s.Pending id ↔ id ∈ s.destroyEvents := by
  refine ⟨?_, Or.inr⟩
  rintro (⟨e, he, rfl⟩ | hd)
  · exact absurd hid (h.uids.id_not_destroy (h.queue.scheduled e he))
  · exact hd

theorem Inv.not_pending (hid : id.impl = none) : ¬ s.Pending id := by
  rintro (⟨e, -, rfl⟩ | hd)
  · simp at hid
  · exact (h.uids.destroy _ (h.uids.destroyEvents _ hd)).2 hid

theorem Inv.isExpired_event (hev : ev ∈ s.history.scheduled) :
    s.isExpired ev.id = false ↔ ev ∈ s.events ∧ ev.id ∉ s.history.cancelled := by
  have hvalid : ev.key.uid ≠ destroyUid := by
    have := h.uids.valid ev hev
    simp only [validUid, destroyUid] at *
    omega
  have hdef : s.isExpired ev.id = if ev.key.uid = destroyUid then
      s.isCancelled ev.impl || !decide (ev.id ∈ s.destroyEvents)
    else decide (ev.key.ts < s.currentTs) ||
      (ev.key.ts = s.currentTs && decide (ev.key.uid ≤ s.currentUid)) || s.isCancelled ev.impl :=
        rfl
  have hexp : s.isExpired ev.id = false ↔ s.now < ev.key.rank ∧ s.isCancelled ev.impl = false := by
    rw [hdef, if_neg hvalid, now, EventKey.rank, Prod.Lex.toLex_lt_toLex]
    simp only [Bool.or_eq_false_iff, Bool.and_eq_false_iff, decide_eq_false_iff_not]
    constructor
    · rintro ⟨⟨h1, h2⟩, h3⟩
      exact ⟨by omega, h3⟩
    · rintro ⟨h1, h3⟩
      exact ⟨⟨by omega, by omega⟩, h3⟩
  have hflag : s.isCancelled ev.impl = false ↔
      ev.id ∉ s.history.cancelled ∧ ev.id ∉ s.history.removed := by
    rw [← Bool.not_eq_true, h.objects.flag ev hev, not_or]
  rw [hexp, hflag]
  constructor
  · rintro ⟨hlater, hc, hr⟩
    refine ⟨?_, hc⟩
    rcases h.queue.past ev hev with hin | hrem | hpast
    · exact hin
    · exact absurd hrem hr
    · exact absurd hlater (not_lt.2 hpast)
  · rintro ⟨hin, hc⟩
    exact ⟨h.queue.later ev hin, hc, fun hr => hc (h.queue.removed ev hin hr)⟩

theorem Inv.isExpired_destroy (hid : id ∈ s.history.destroyIds) :
    s.isExpired id = false ↔ id ∈ s.destroyEvents ∧ id ∉ s.history.cancelled := by
  obtain ⟨huid, himpl⟩ := h.uids.destroy id hid
  obtain ⟨i, hi⟩ := ne_none_iff_exists'.1 himpl
  have hflag : s.isCancelled i = false ↔ id ∉ s.history.cancelled := by
    rw [← Bool.not_eq_true, h.objects.destroy id hid i hi]
  simp [isExpired, hi, huid, hflag, and_comm]

theorem Inv.isExpired_iff (hk : s.Known id) :
    s.isExpired id = false ↔ s.Pending id ∧ id ∉ s.history.cancelled := by
  rcases hk with hnone | hd | ⟨ev, hev, rfl⟩
  · simp [isExpired, hnone, h.not_pending hnone]
  · rw [h.isExpired_destroy hd, h.destroy_pending_iff hd]
  · rw [h.isExpired_event hev, h.uids.pending_iff hev]

end

/-! ## New events -/

theorem Objects.impl_lt (h : Objects loose s) (hev : ev ∈ s.history.scheduled) :
    ev.impl < s.impls :=
  h.made _ (mem_append_right _ (mem_append_left _ (mem_map_of_mem hev)))

variable {i : Nat}

theorem Objects.destroyImpl_lt (h : Objects loose s) (hid : id ∈ s.history.destroyIds)
    (hi : id.impl = some i) : i < s.impls :=
  h.made _ (mem_append_right _ (mem_append_right _ (mem_filterMap.2 ⟨id, hid, hi⟩)))

theorem Inv.makeEvent (h : Inv loose s) : Inv (s.impls :: loose) s.makeEvent where
  uids := { h.uids with }
  queue := { h.queue with }
  objects := {
    nodup := by
      refine nodup_cons.2 ⟨fun hm => ?_, h.objects.nodup⟩
      exact absurd (h.objects.made _ hm) (lt_irrefl _)
    made := by
      rw [cons_append, forall_mem_cons]
      exact ⟨Nat.lt_succ_self _, fun i hi => Nat.lt_succ_of_lt (h.objects.made i hi)⟩
    loose := by
      intro i hi
      rcases mem_cons.1 hi with rfl | hi
      · exact Function.update_self ..
      · have hlt : i < s.impls := h.objects.made i (mem_append_left _ hi)
        exact (Function.update_of_ne (ne_of_lt hlt) ..).trans (h.objects.loose i hi)
    flag := by
      intro ev hev
      have hne := ne_of_lt (h.objects.impl_lt hev)
      simpa [DefaultSimulatorImpl.makeEvent, hne] using h.objects.flag ev hev
    destroy := by
      intro id hid i hi
      have hne := ne_of_lt (h.objects.destroyImpl_lt hid hi)
      simpa [DefaultSimulatorImpl.makeEvent, hne] using h.objects.destroy id hid i hi }

theorem Uids.given (h : Uids s) (hleft : s.UidsLeft 1) : validUid ≤ s.uid ∧ s.currentUid < s.uid ∧
    ∀ ev ∈ s.history.scheduled, ev.key.uid < s.uid := by
  rcases hleft with h0 | ⟨hvalid, -⟩
  · cases h0
  · rcases h.fresh with h0 | hfresh
    · simp [validUid, h0] at hvalid
    · exact hfresh

theorem Uids.nextUid (h : Uids s) :
    s.nextUid < 2 ^ 32 ∧ (s.nextUid = 0 ∨ s.nextUid = s.uid + 1) := by
  have hlt := h.uid_lt
  rw [DefaultSimulatorImpl.nextUid]
  omega

variable (ev) in
/-- An event gets the next uid, and its object gets an owner. -/
theorem Inv.insert (h : Inv (ev.impl :: loose) s) (hroom : s.Room 1) (huid : ev.key.uid = s.uid)
    (hts : s.currentTs ≤ ev.key.ts) (htime : ev.key.ts < 2 ^ 63) : Inv loose (s.insert ev) := by
  obtain ⟨hvalid, hcurrent, hbelow⟩ := h.uids.given hroom.1
  obtain ⟨hnext, hround⟩ := h.uids.nextUid
  have hnew : ∀ e ∈ s.history.scheduled, e.key.uid ≠ ev.key.uid := by
    intro e he
    have := hbelow e he
    omega
  have hnot : ev ∉ s.history.scheduled := fun hm => hnew ev hm rfl
  have hnotin : ev ∉ s.events := fun hm => hnot (h.queue.scheduled ev hm)
  obtain ⟨hcancelled, hremoved⟩ := h.uids.not_asked ev (by omega) hnew
  have hlater : s.now < ev.key.rank := by
    rw [now, EventKey.rank, Prod.Lex.toLex_lt_toLex]
    omega
  have hcard := hroom.2
  refine ⟨⟨hnext, ?_, ?_, ?_, h.uids.destroy, h.uids.destroyEvents, ?_⟩, ⟨?_, ?_, ?_, ?_, ?_⟩,
    ⟨?_, ?_, ?_, ?_, ?_, h.queue.sorted, ?_, ?_, ?_, h.queue.now_lt, ?_⟩⟩
  · refine hround.imp_right fun hu => ?_
    show validUid ≤ s.nextUid ∧ s.currentUid < s.nextUid ∧ ∀ e ∈ s.history.scheduled ++ [ev], _
    refine ⟨by omega, by omega, forall_mem_append.2 ⟨fun e he => ?_, ?_⟩⟩
    · have := hbelow e he
      simp only [DefaultSimulatorImpl.insert]
      omega
    · simp only [forall_mem_singleton, DefaultSimulatorImpl.insert]
      omega
  · refine forall_mem_append.2 ⟨h.uids.valid, ?_⟩
    simpa using huid ▸ hvalid
  · refine pairwise_append.2 ⟨h.uids.numbered, pairwise_singleton _ _, ?_⟩
    intro e he b hb
    rw [mem_singleton.1 hb, huid]
    exact hbelow e he
  · intro id hid
    refine (h.uids.asked id hid).imp_right ?_
    rintro ⟨e, he, rfl⟩
    exact ⟨e, mem_append_left _ he, rfl⟩
  · have hperm : (loose ++ History.owned (s.insert ev).history).Perm
        (ev.impl :: loose ++ History.owned s.history) := by
      simp only [History.owned, DefaultSimulatorImpl.insert, map_append, map_cons, map_nil,
        append_assoc, cons_append, nil_append]
      rw [← append_assoc, ← append_assoc]
      exact perm_middle
    exact hperm.nodup_iff.2 h.objects.nodup
  · intro i hi
    refine h.objects.made i ?_
    simp only [History.owned, DefaultSimulatorImpl.insert, map_append, mem_append,
      map_cons, map_nil, mem_cons] at hi ⊢
    tauto
  · exact fun i hi => h.objects.loose i (mem_cons_of_mem _ hi)
  · refine forall_mem_append.2 ⟨h.objects.flag, ?_⟩
    simp only [forall_mem_singleton]
    have hflag : s.isCancelled ev.impl = false := h.objects.loose _ mem_cons_self
    simp [DefaultSimulatorImpl.insert, hflag, hcancelled, hremoved]
  · exact h.objects.destroy
  · exact Multiset.nodup_cons.2 ⟨hnotin, h.queue.nodup⟩
  · intro e he
    rcases Multiset.mem_cons.1 he with rfl | he
    · exact mem_append_right _ mem_cons_self
    · exact mem_append_left _ (h.queue.scheduled e he)
  · intro e he
    rcases Multiset.mem_cons.1 he with rfl | he
    · exact hlater
    · exact h.queue.later e he
  · refine forall_mem_append.2 ⟨fun e he => ?_, ?_⟩
    · exact (h.queue.past e he).imp_left Multiset.mem_cons_of_mem
    · simp [DefaultSimulatorImpl.insert]
  · intro e he
    rcases Multiset.mem_cons.1 he with rfl | he
    · exact fun hr => absurd hr hremoved
    · exact h.queue.removed e he
  · intro e
    have hne : e ∈ s.history.scheduled → e ≠ ev := fun he heq => hnot (heq ▸ he)
    rw [show (s.insert ev).history.executed = s.history.executed from rfl, h.queue.executed e]
    simp only [DefaultSimulatorImpl.insert, mem_append, mem_singleton, Multiset.mem_cons]
    tauto
  · show (s.unscheduledEvents + 1).bmod (2 ^ 32) = ((ev ::ₘ s.events).card : Int)
    rw [h.queue.count, Multiset.card_cons, Int.bmod_eq_of_le (by omega) (by omega)]
    simp
  · show (ev ::ₘ s.events).card < 2 ^ 31
    rw [Multiset.card_cons]
    omega
  · refine forall_mem_append.2 ⟨h.queue.ts_lt, ?_⟩
    simpa using htime

theorem absolute_eq {delay : Int} (h0 : 0 ≤ delay) (hlt : delay + s.currentTs < 2 ^ 63) :
    s.currentTs ≤ s.absolute delay ∧ s.absolute delay < 2 ^ 63 := by
  rw [absolute, Int.emod_eq_of_lt (by omega) (by omega)]
  omega

theorem Inv.scheduleWithContext (h : Inv loose s) {context : Nat} {delay : Int} (hroom : s.Room 1)
    (h0 : 0 ≤ delay) (hlt : delay + s.currentTs < 2 ^ 63) :
    Inv loose (s.makeEvent.insert (s.event s.impls (s.absolute delay) context)) := by
  obtain ⟨hts, htime⟩ := absolute_eq h0 hlt
  exact Inv.insert (s.event s.impls (s.absolute delay) context) h.makeEvent hroom rfl hts htime

theorem Inv.postWithContext (h : Inv (s.eventsWithContext.map (·.event)) s) (context : Nat)
    (delay : Int) : Inv ((s.postWithContext context delay).eventsWithContext.map (·.event))
      (s.postWithContext context delay) := by
  have hloose : ((s.postWithContext context delay).eventsWithContext.map (·.event)).Perm
      (s.impls :: s.eventsWithContext.map (·.event)) := by
    simp [DefaultSimulatorImpl.postWithContext]
  have hperm := hloose.append_right (History.owned s.history)
  obtain ⟨huids, hobjects, hqueue⟩ := h.makeEvent
  exact {
    uids := { huids with }
    queue := { hqueue with }
    objects := {
      nodup := hperm.nodup_iff.2 hobjects.nodup
      made := fun i hi => hobjects.made i (hperm.mem_iff.1 hi)
      loose := fun i hi => hobjects.loose i (hloose.mem_iff.1 hi)
      flag := hobjects.flag
      destroy := hobjects.destroy } }

theorem Inv.foldl_takeOver (l : List EventWithContext) : ∀ {s : DefaultSimulatorImpl},
    Inv (l.map (·.event)) s → s.Room l.length → (∀ ev ∈ l, s.currentTs + ev.timestamp < 2 ^ 63) →
      Inv [] (l.foldl takeOver s) ∧
        (l.foldl takeOver s).eventsWithContext = s.eventsWithContext := by
  induction l with
  | nil => exact fun h _ _ => ⟨h, rfl⟩
  | cons ev l ih =>
    intro s h hroom htime
    obtain ⟨htime, htimes⟩ := forall_mem_cons.1 htime
    rw [Room, length_cons] at hroom
    have hleft : s.UidsLeft 1 := by
      unfold UidsLeft at hroom ⊢
      omega
    have hmod : (s.currentTs + ev.timestamp) % 2 ^ 64 = s.currentTs + ev.timestamp :=
      Nat.mod_eq_of_lt (by omega)
    have hone : Inv (l.map (·.event)) (s.takeOver ev) := by
      refine Inv.insert (s.event ev.event ((s.currentTs + ev.timestamp) % 2 ^ 64) ev.context) h
        ⟨hleft, by omega⟩ rfl ?_ ?_
      · simp only [DefaultSimulatorImpl.event, hmod]
        omega
      · simpa only [DefaultSimulatorImpl.event, hmod] using htime
    have hnext : (s.takeOver ev).Room l.length := by
      have hround := h.uids.nextUid
      have hgiven := h.uids.given hleft
      refine ⟨?_, ?_⟩
      · show l.length = 0 ∨ validUid ≤ s.nextUid ∧ s.nextUid + l.length ≤ 2 ^ 32
        unfold UidsLeft at hroom
        rw [DefaultSimulatorImpl.nextUid] at *
        omega
      · show (_ ::ₘ s.events).card + l.length < 2 ^ 31
        rw [Multiset.card_cons]
        omega
    exact ih hone hnext htimes

theorem Inv.processEventsWithContext (h : Inv (s.eventsWithContext.map (·.event)) s)
    (hroom : s.Room s.eventsWithContext.length)
    (htime : ∀ ev ∈ s.eventsWithContext, s.currentTs + ev.timestamp < 2 ^ 63) :
    Inv (s.processEventsWithContext.eventsWithContext.map (·.event))
      s.processEventsWithContext := by
  have hswap : Inv (s.eventsWithContext.map (·.event)) { s with eventsWithContext := [] } :=
    ⟨{ h.uids with }, { h.objects with }, { h.queue with }⟩
  obtain ⟨hinv, hempty⟩ := Inv.foldl_takeOver s.eventsWithContext hswap hroom htime
  rw [DefaultSimulatorImpl.processEventsWithContext, hempty]
  exact hinv

/-- `ScheduleDestroy`. -/
theorem Inv.scheduleDestroy (h : Inv loose s) (hleft : s.UidsLeft 1) :
    Inv loose s.scheduleDestroy := by
  obtain ⟨hvalid, hcurrent, hbelow⟩ := h.uids.given hleft
  obtain ⟨hnext, hround⟩ := h.uids.nextUid
  have hnew : s.destroyId ∉ s.history.destroyIds := fun hm =>
    absurd (h.objects.destroyImpl_lt hm rfl) (lt_irrefl _)
  have hasked : s.destroyId ∉ s.history.cancelled := by
    intro hm
    rcases h.uids.asked _ (Or.inl hm) with hd | ⟨e, he, hid⟩
    · exact hnew hd
    · have himpl : e.impl = s.impls := some.inj (congrArg EventId.impl hid)
      exact absurd (h.objects.impl_lt he) (by omega)
  obtain ⟨-, hobjects, hqueue⟩ := h.makeEvent
  have hperm : (loose ++ History.owned s.scheduleDestroy.history).Perm
      (s.impls :: loose ++ History.owned s.history) := by
    have hdestroy : (s.history.destroyIds ++ [s.destroyId]).filterMap (·.impl) =
        s.history.destroyIds.filterMap (·.impl) ++ [s.impls] := by
      rw [filterMap_append]
      rfl
    simp only [History.owned, DefaultSimulatorImpl.scheduleDestroy, hdestroy, cons_append]
    rw [← append_assoc, ← append_assoc, ← append_assoc]
    exact perm_append_singleton ..
  refine ⟨⟨hnext, ?_, h.uids.valid, h.uids.numbered, ?_, ?_, ?_⟩, ⟨?_, ?_, ?_, hobjects.flag, ?_⟩,
    { hqueue with }⟩
  · refine hround.imp_right fun hu => ?_
    show validUid ≤ s.nextUid ∧ s.currentUid < s.nextUid ∧ ∀ e ∈ s.history.scheduled,
    e.key.uid < s.nextUid
    refine ⟨by omega, by omega, fun e he => ?_⟩
    have := hbelow e he
    omega
  · refine forall_mem_append.2 ⟨h.uids.destroy, ?_⟩
    simp [destroyId]
  · refine forall_mem_append.2 ⟨fun id hid => ?_, ?_⟩
    · exact mem_append_left _ (h.uids.destroyEvents id hid)
    · simp [DefaultSimulatorImpl.scheduleDestroy]
  · intro id hid
    exact (h.uids.asked id hid).imp_left (mem_append_left _)
  · exact hperm.nodup_iff.2 hobjects.nodup
  · exact fun i hi => hobjects.made i (hperm.mem_iff.1 hi)
  · exact fun i hi => hobjects.loose i (mem_cons_of_mem _ hi)
  · refine forall_mem_append.2 ⟨hobjects.destroy, ?_⟩
    have hflag : s.makeEvent.isCancelled s.impls = false := hobjects.loose _ mem_cons_self
    intro id hid i hi
    cases mem_singleton.1 hid
    cases hi
    exact iff_of_false (by simp [DefaultSimulatorImpl.scheduleDestroy, hflag]) hasked

/-! ## Cancelling and removing -/

/-- The ids that were given out. -/
def Given (s : DefaultSimulatorImpl) (id : EventId) : Prop :=
  id ∈ s.history.destroyIds ∨ ∃ ev ∈ s.history.scheduled, ev.id = id

theorem Objects.given_unique (h : Objects loose s) {a b : EventId} (ha : s.Given a) (hb : s.Given b)
    (hia : a.impl = some i) (hib : b.impl = some i) : a = b := by
  have hnodup := (nodup_append.1 h.nodup).2.1
  obtain ⟨hevents, hdestroy, hdisjoint⟩ := nodup_append.1 hnodup
  have hmem : ∀ id ∈ s.history.destroyIds, id.impl = some i →
      i ∈ s.history.destroyIds.filterMap (·.impl) := fun id hid hi => mem_filterMap.2 ⟨id, hid, hi⟩
  have hmem' : ∀ ev ∈ s.history.scheduled, ev.id.impl = some i →
    i ∈ s.history.scheduled.map (·.impl) :=
    fun ev hev hi => mem_map.2 ⟨ev, hev, some.inj hi⟩
  rcases ha with ha | ⟨ea, ha, rfl⟩ <;> rcases hb with hb | ⟨eb, hb, rfl⟩
  · by_contra hne
    have hpair : s.history.destroyIds.Pairwise fun a b => ∀ i, a.impl = some i → b.impl ≠ some i :=
      (pairwise_filterMap.1 hdestroy).imp fun hd i hi hi' => hd i hi i hi' rfl
    have : Std.Symm fun a b : EventId => ∀ i, a.impl = some i → b.impl ≠ some i :=
      ⟨fun a b hd i hb ha => hd i ha hb⟩
    exact hpair.forall ha hb hne i hia hib
  · exact absurd rfl (hdisjoint i (hmem' eb hb hib) i (hmem a ha hia))
  · exact absurd rfl (hdisjoint i (hmem' ea ha hia) i (hmem b hb hib))
  · have himpl : ea.impl = eb.impl := (some.inj hia).trans (some.inj hib).symm
    rw [inj_on_of_nodup_map hevents ha hb himpl]

theorem Objects.given_not_loose (h : Objects loose s) (hid : s.Given id)
    (hi : id.impl = some i) : i ∉ loose := by
  intro hl
  obtain ⟨-, -, hdisjoint⟩ := nodup_append.1 h.nodup
  refine hdisjoint i hl i ?_ rfl
  rcases hid with hd | ⟨ev, hev, rfl⟩
  · exact mem_append_right _ (mem_filterMap.2 ⟨id, hd, hi⟩)
  · exact mem_append_left _ (mem_map.2 ⟨ev, hev, some.inj hi⟩)

theorem cancelImpl_isCancelled :
    (s.cancelImpl id).isCancelled i = true ↔ s.isCancelled i = true ∨ id.impl = some i := by
  obtain ⟨impl, ts, context, uid⟩ := id
  cases impl with
  | none => simp [cancelImpl]
  | some j =>
    simp only [cancelImpl, elim_some, Function.update_apply, some.injEq]
    split
    · next heq => simp [heq]
    · next hne => simp [Ne.symm hne]

variable {history : History}

theorem Objects.cancelImpl (h : Objects loose s) (hid : s.Given id)
    (hscheduled : history.scheduled = s.history.scheduled)
    (hdestroy : history.destroyIds = s.history.destroyIds)
    (hevent : ∀ ev ∈ s.history.scheduled, (ev.id ∈ history.cancelled ∨ ev.id ∈ history.removed ↔
      (ev.id ∈ s.history.cancelled ∨ ev.id ∈ s.history.removed) ∨ id = ev.id))
    (hids : ∀ a ∈ s.history.destroyIds, (a ∈ history.cancelled ↔ a ∈ s.history.cancelled ∨
      id = a)) : Objects loose { s.cancelImpl id with history } := by
  have howned : History.owned history = History.owned s.history := by
    rw [History.owned, hscheduled, hdestroy, History.owned]
  have hsame : ∀ {a : EventId}, s.Given a → ∀ {i : Nat}, a.impl = some i →
      (id.impl = some i ↔ id = a) := by
    intro a ha i hi
    exact ⟨fun hi' => h.given_unique hid ha hi' hi, fun heq => heq ▸ hi⟩
  refine ⟨?_, ?_, fun i hi => ?_, fun ev hev => ?_, fun a ha i hi => ?_⟩
  · exact howned ▸ h.nodup
  · exact howned ▸ h.made
  · have hne : id.impl ≠ some i := fun hid' => h.given_not_loose hid hid' hi
    have hflag := h.loose i hi
    rw [← Bool.not_eq_true] at hflag ⊢
    exact fun hc => (cancelImpl_isCancelled.1 hc).elim hflag hne
  · rw [hscheduled] at hev
    rw [hevent ev hev, ← h.flag ev hev, ← hsame (Or.inr ⟨ev, hev, rfl⟩) id_impl]
    exact cancelImpl_isCancelled
  · rw [hdestroy] at ha
    rw [hids a ha, ← h.destroy a ha i hi, ← hsame (Or.inl ha) hi]
    exact cancelImpl_isCancelled

theorem Inv.given (h : Inv loose s) (hk : s.Known id) (hp : s.Pending id) : s.Given id := by
  rcases hk with hnone | hgiven
  · exact absurd hp (h.not_pending hnone)
  · exact hgiven

theorem mem_cancelled_cancel {pending : Prop} [Decidable pending] {a : EventId} :
    a ∈ (History.cancel history pending id).cancelled ↔ a ∈ history.cancelled ∨ pending ∧
      a = id := by
  rw [History.cancel]
  split <;> simp_all [or_comm]

theorem mem_removed_remove {pending : Prop} [Decidable pending] {a : EventId} :
    a ∈ (History.remove history pending id).removed ↔ a ∈ history.removed ∨ pending ∧ a = id := by
  rw [History.remove]
  split <;> simp_all [or_comm]

section
variable (h : Inv loose s)
include h

theorem Inv.queue_cancel :
    Queue { s with history := History.cancel s.history (s.Pending id) id } where
  __ := h.queue
  removed := fun ev hev hr => mem_cancelled_cancel.2 (Or.inl (h.queue.removed ev hev hr))
  executed := by
    intro ev
    rw [mem_cancelled_cancel]
    refine (h.queue.executed ev).trans ⟨?_, ?_⟩
    · rintro ⟨hs, hc, hr, he⟩
      refine ⟨hs, ?_, hr, he⟩
      rintro (hc' | ⟨hp, rfl⟩)
      · exact hc hc'
      · exact he ((h.uids.pending_iff hs).1 hp)
    · rintro ⟨hs, hc, hr, he⟩
      exact ⟨hs, fun hc' => hc (Or.inl hc'), hr, he⟩

/-- `Cancel`. -/
theorem Inv.cancel (hk : s.Known id) : Inv loose (s.cancel id) := by
  have huids : Uids { s with history := History.cancel s.history (s.Pending id) id } :=
    { h.uids with
      asked := by
        rintro a (hc | hr)
        · rcases mem_cancelled_cancel.1 hc with hc | ⟨hp, rfl⟩
          · exact h.uids.asked a (Or.inl hc)
          · exact h.given hk hp
        · exact h.uids.asked a (Or.inr hr) }
  rw [DefaultSimulatorImpl.cancel]
  cases hexp : s.isExpired id with
  | true =>
    -- an expired id that is pending was cancelled before
    have hagain : s.Pending id → id ∈ s.history.cancelled := by
      intro hp
      by_contra hc
      have := (h.isExpired_iff hk).2 ⟨hp, hc⟩
      simp [hexp] at this
    have hsame : ∀ a, a ∈ (History.cancel s.history (s.Pending id) id).cancelled ↔
        a ∈ s.history.cancelled := by
      intro a
      rw [mem_cancelled_cancel, or_iff_left_iff_imp]
      rintro ⟨hp, rfl⟩
      exact hagain hp
    refine ⟨huids, { h.objects with flag := ?_, destroy := ?_ }, h.queue_cancel⟩
    · intro ev hev
      rw [if_pos rfl, hsame]
      exact h.objects.flag ev hev
    · intro a ha i hi
      rw [if_pos rfl, hsame]
      exact h.objects.destroy a ha i hi
  | false =>
    have hpending := ((h.isExpired_iff hk).1 hexp).1
    refine ⟨{ huids with }, ?_, { h.queue_cancel with }⟩
    refine h.objects.cancelImpl (h.given hk hpending) rfl rfl (fun ev _ => ?_) fun a _ => ?_
    · rw [mem_cancelled_cancel]
      simp only [hpending, true_and, History.cancel, eq_comm (a := ev.id)]
      tauto
    · rw [mem_cancelled_cancel]
      simp only [hpending, true_and, eq_comm (a := a)]

theorem Inv.asked_remove (hk : s.Known id) (a : EventId)
    (ha : a ∈ (History.remove s.history (s.Pending id) id).cancelled ∨
      a ∈ (History.remove s.history (s.Pending id) id).removed) : s.Given a := by
  rcases ha with hc | hr
  · exact h.uids.asked a (Or.inl hc)
  · rcases mem_removed_remove.1 hr with hr | ⟨hp, rfl⟩
    · exact h.uids.asked a (Or.inr hr)
    · exact h.given hk hp

theorem Inv.remove_destroy (hk : s.Known id) (huid : id.uid = destroyUid) :
    Inv loose { s with
      destroyEvents := s.destroyEvents.erase id
      history := History.remove s.history (s.Pending id) id } := by
  have hother : ∀ ev ∈ s.history.scheduled,
      (ev.id ∈ (History.remove s.history (s.Pending id) id).removed ↔
      ev.id ∈ s.history.removed) := by
    intro ev hev
    rw [mem_removed_remove, or_iff_left_iff_imp]
    rintro ⟨-, rfl⟩
    have hvalid := h.uids.valid ev hev
    change ev.key.uid = destroyUid at huid
    simp only [validUid, destroyUid] at huid hvalid
    omega
  refine ⟨{ h.uids with asked := h.asked_remove hk, destroyEvents := ?_ },
    { h.objects with flag := ?_ }, { h.queue with past := ?_, removed := ?_, executed := ?_ }⟩
  · exact fun a ha => h.uids.destroyEvents a (mem_of_mem_erase ha)
  · intro ev hev
    rw [hother ev hev]
    exact h.objects.flag ev hev
  · intro ev hev
    rw [hother ev hev]
    exact h.queue.past ev hev
  · intro ev hev hr
    exact h.queue.removed ev hev ((hother ev (h.queue.scheduled ev hev)).1 hr)
  · intro ev
    exact (h.queue.executed ev).trans (and_congr_right fun hs => and_congr_right fun _ =>
      and_congr_left fun _ => not_congr (hother ev hs).symm)

/-- `Remove` on an expired id. -/
theorem Inv.remove_expired (hk : s.Known id) (huid : id.uid ≠ destroyUid)
    (hexp : s.isExpired id = true) :
    Inv loose { s with history := History.remove s.history (s.Pending id) id } := by
  -- a pending event that is expired was cancelled before
  have hagain : s.Pending id → id ∈ s.history.cancelled := by
    intro hp
    by_contra hc
    have := (h.isExpired_iff hk).2 ⟨hp, hc⟩
    simp [hexp] at this
  have hevent : s.Pending id → ∃ ev ∈ s.events, ev.id = id := by
    rintro (hp | hd)
    · exact hp
    · exact absurd (h.uids.destroy _ (h.uids.destroyEvents _ hd)).1 huid
  refine ⟨{ h.uids with asked := h.asked_remove hk }, { h.objects with flag := ?_ },
    { h.queue with past := ?_, removed := ?_, executed := ?_ }⟩
  · intro ev hev
    rw [mem_removed_remove]
    refine (h.objects.flag ev hev).trans ⟨?_, ?_⟩
    · exact Or.imp_right Or.inl
    · rintro (hc | hr | ⟨hp, hid⟩)
      · exact Or.inl hc
      · exact Or.inr hr
      · exact Or.inl (hid ▸ hagain hp)
  · intro ev hev
    rw [mem_removed_remove]
    exact (h.queue.past ev hev).imp_right (Or.imp_left Or.inl)
  · intro ev hev hr
    rcases mem_removed_remove.1 hr with hr | ⟨hp, hid⟩
    · exact h.queue.removed ev hev hr
    · exact hid ▸ hagain hp
  · intro ev
    rw [mem_removed_remove]
    refine (h.queue.executed ev).trans ⟨?_, ?_⟩
    · rintro ⟨hs, hc, hr, he⟩
      refine ⟨hs, hc, ?_, he⟩
      rintro (hr' | ⟨hp, rfl⟩)
      · exact hr hr'
      · exact hc (hagain hp)
    · rintro ⟨hs, hc, hr, he⟩
      exact ⟨hs, hc, fun hr' => hr (Or.inl hr'), he⟩

end

theorem Queue.count_erase (h : Queue s) (hev : ev ∈ s.events) :
    (s.unscheduledEvents - 1).bmod (2 ^ 32) = ((s.events.erase ev).card : Int) := by
  have hcard := Multiset.card_erase_add_one hev
  have hlt := h.card_lt
  rw [h.count, Int.bmod_eq_of_le (by omega) (by omega)]
  omega

/-- `Remove` on the id of an event in the scheduler. -/
theorem Inv.remove_event (h : Inv loose s) (hev : ev ∈ s.events) :
    Inv loose { s.cancelImpl ev.id with
      events := s.events.erase ev
      unscheduledEvents := (s.unscheduledEvents - 1).bmod (2 ^ 32)
      history := History.remove s.history (s.Pending ev.id) ev.id } := by
  have hscheduled := h.queue.scheduled ev hev
  have hpending : s.Pending ev.id := (h.uids.pending_iff hscheduled).2 hev
  have hgiven : s.Given ev.id := Or.inr ⟨ev, hscheduled, rfl⟩
  have hobjects : Objects loose { s.cancelImpl ev.id with
      history := History.remove s.history (s.Pending ev.id) ev.id } := by
    refine h.objects.cancelImpl hgiven rfl rfl (fun e _ => ?_) fun a ha => ?_
    · rw [mem_removed_remove]
      simp only [hpending, true_and, History.remove, eq_comm (a := e.id)]
      tauto
    · refine (or_iff_left_of_imp ?_).symm
      rintro rfl
      exact absurd ha (h.uids.id_not_destroy hscheduled)
  have hcard : (s.events.erase ev).card < 2 ^ 31 :=
    (Multiset.card_le_card (Multiset.erase_le ev s.events)).trans_lt h.queue.card_lt
  have hmem : ∀ e ∈ s.events.erase ev, e ∈ s.events := fun e he => Multiset.mem_of_mem_erase he
  refine ⟨{ h.uids with asked := h.asked_remove (Or.inr hgiven) }, { hobjects with },
    { h.queue with
      nodup := h.queue.nodup.erase ev
      scheduled := fun e he => h.queue.scheduled e (hmem e he)
      later := fun e he => h.queue.later e (hmem e he)
      count := h.queue.count_erase hev
      card_lt := hcard
      past := ?_, removed := ?_, executed := ?_ }⟩
  · intro e he
    rw [mem_removed_remove]
    rcases h.queue.past e he with hin | hr | hp
    · by_cases heq : e = ev
      · exact Or.inr (Or.inl (Or.inr ⟨hpending, by rw [heq]⟩))
      · exact Or.inl ((Multiset.mem_erase_of_ne heq).2 hin)
    · exact Or.inr (Or.inl (Or.inl hr))
    · exact Or.inr (Or.inr hp)
  · intro e he hr
    rcases mem_removed_remove.1 hr with hr | ⟨-, hid⟩
    · exact h.queue.removed e (hmem e he) hr
    · exact absurd he (id_injective hid ▸ h.queue.nodup.notMem_erase)
  · intro e
    rw [mem_removed_remove]
    refine (h.queue.executed e).trans ⟨?_, ?_⟩
    · rintro ⟨hs, hc, hr, he⟩
      refine ⟨hs, hc, ?_, fun he' => he (hmem e he')⟩
      rintro (hr' | ⟨-, hid⟩)
      · exact hr hr'
      · exact he (id_injective hid ▸ hev)
    · rintro ⟨hs, hc, hr, he⟩
      refine ⟨hs, hc, fun hr' => hr (Or.inl hr'), fun he' => he ?_⟩
      refine (Multiset.mem_erase_of_ne ?_).2 he'
      rintro rfl
      exact hr (Or.inr ⟨hpending, rfl⟩)

theorem Inv.remove (h : Inv loose s) (hk : s.Known id) (hrem : s.remove id = some s') :
    Inv loose s' := by
  rw [DefaultSimulatorImpl.remove] at hrem
  obtain ⟨t, ht, rfl⟩ := map_eq_some_iff.1 hrem
  split at ht
  · next huid =>
    cases ht
    exact h.remove_destroy hk huid
  · next huid =>
    split at ht
    · next hexp =>
      cases ht
      exact h.remove_expired hk huid hexp
    · next hexp =>
      obtain ⟨ev, hev, ht⟩ := bind_eq_some_iff.1 ht
      cases event_eq_some_iff.1 hev
      split at ht
      · next hin =>
        cases ht
        exact h.remove_event hin
      · cases ht

/-! ## Executing -/

/-- `ProcessOneEvent`. -/
theorem Inv.processOneEvent (h : Inv loose s) (hev : s.processOneEvent ev = some s') :
    Inv loose s' := by
  rw [DefaultSimulatorImpl.processOneEvent] at hev
  split at hev
  · next hnext =>
    cases hev
    obtain ⟨hin, hleast⟩ := isNext_iff.1 hnext.1
    have hscheduled := h.queue.scheduled ev hin
    have hlater := h.queue.later ev hin
    have hmem : ∀ e ∈ s.events.erase ev, e ∈ s.events := fun e he => Multiset.mem_of_mem_erase he
    have hcard : (s.events.erase ev).card < 2 ^ 31 :=
      (Multiset.card_le_card (Multiset.erase_le ev s.events)).trans_lt h.queue.card_lt
    have hflag := h.objects.flag ev hscheduled
    have hbefore : ∀ e ∈ s.history.executed, e.key.rank < ev.key.rank := by
      intro e he
      obtain ⟨hs, -, hr, hn⟩ := (h.queue.executed e).1 he
      rcases h.queue.past e hs with hin | hr' | hp
      · exact absurd hin hn
      · exact absurd hr' hr
      · exact hp.trans_lt hlater
    refine ⟨{ h.uids with fresh := ?_ }, { h.objects with },
      { h.queue with
        nodup := h.queue.nodup.erase ev
        scheduled := fun e he => h.queue.scheduled e (hmem e he)
        removed := fun e he => h.queue.removed e (hmem e he)
        count := h.queue.count_erase hin
        card_lt := hcard
        now_lt := h.queue.ts_lt ev hscheduled
        later := ?_, past := ?_, sorted := ?_, executed := ?_ }⟩
    · exact h.uids.fresh.imp_right fun hf => ⟨hf.1, hf.2.2 ev hscheduled, hf.2.2⟩
    · intro e he
      refine lt_of_le_of_ne (hleast e (hmem e he)) fun heq => ?_
      have hsame := h.uids.injective hscheduled (h.queue.scheduled e (hmem e he))
        (EventKey.rank_eq_iff.1 heq).2
      exact h.queue.nodup.notMem_erase (hsame ▸ he)
    · intro e he
      rcases h.queue.past e he with hin' | hr | hp
      · by_cases heq : e = ev
        · exact Or.inr (Or.inr (heq ▸ le_refl _))
        · exact Or.inl ((Multiset.mem_erase_of_ne heq).2 hin')
      · exact Or.inr (Or.inl hr)
      · exact Or.inr (Or.inr (hp.trans hlater.le))
    · show (if s.isCancelled ev.impl then _ else _ : List Event).Pairwise _
      split
      · exact h.queue.sorted
      · refine pairwise_append.2 ⟨h.queue.sorted, pairwise_singleton _ _, fun e he b hb => ?_⟩
        rw [mem_singleton.1 hb]
        exact hbefore e he
    · intro e
      have hleft : e ≠ ev → (e ∉ s.events.erase ev ↔ e ∉ s.events) := fun hne =>
        not_congr (Multiset.mem_erase_of_ne hne)
      show e ∈ (if s.isCancelled ev.impl then _ else _ : List Event) ↔ e ∈ s.history.scheduled ∧ _
      by_cases heq : e = ev
      · cases heq
        have hnot : ev ∉ s.history.executed := fun hx => absurd (hbefore ev hx) (lt_irrefl _)
        have hgone : ev ∉ s.events.erase ev := h.queue.nodup.notMem_erase
        split
        · next hc =>
          have hasked := hflag.1 hc
          simp only [hnot, false_iff]
          tauto
        · next hc =>
          have hasked := mt hflag.2 hc
          simp only [mem_append, mem_singleton, or_true, true_iff]
          tauto
      · have hold := h.queue.executed e
        rw [← hleft heq] at hold
        split
        · exact hold
        · simpa only [mem_append, mem_singleton, heq, or_false] using hold
  · cases hev

/-! ## Runs -/

theorem inv_new : Inv (new.eventsWithContext.map (·.event)) new where
  uids := ⟨by decide, Or.inr (by simp [new, validUid]), nofun, .nil, nofun, nofun, nofun⟩
  objects := ⟨.nil, nofun, nofun, nofun, nofun⟩
  queue := ⟨Multiset.nodup_zero, nofun, nofun, nofun, nofun, .nil, by simp [new],
    rfl, by decide, by decide, nofun⟩

theorem cancel_eventsWithContext : (s.cancel id).eventsWithContext = s.eventsWithContext := by
  rw [cancel]
  split <;> rfl

theorem remove_eventsWithContext (h : s.remove id = some s') :
    s'.eventsWithContext = s.eventsWithContext := by
  rw [remove] at h
  obtain ⟨t, ht, rfl⟩ := map_eq_some_iff.1 h
  split at ht
  · cases ht
    rfl
  · split at ht
    · cases ht
      rfl
    · obtain ⟨ev, -, ht⟩ := bind_eq_some_iff.1 ht
      rw [ite_none_right_eq_some] at ht
      cases ht.2
      rfl

theorem processOneEvent_eventsWithContext (h : s.processOneEvent ev = some s') :
    s'.eventsWithContext = s.eventsWithContext := by
  rw [processOneEvent, ite_none_right_eq_some] at h
  cases h.2
  rfl

/-- Every call keeps the invariant. -/
theorem Inv.step {c : SimCall} (h : Inv (s.eventsWithContext.map (·.event)) s) (hfit : s.Fits c)
    (hstep : Step s c s') : Inv (s'.eventsWithContext.map (·.event)) s' := by
  have hnow := h.queue.now_lt
  cases c with
  | schedule delay =>
    simp only [Step, call?, schedule, ite_none_right_eq_some] at hstep
    obtain ⟨h0, hs⟩ := hstep
    cases hs
    exact h.scheduleWithContext hfit.1 h0 hfit.2
  | scheduleNow =>
    simp only [Step, call?, scheduleNow, schedule, ite_none_right_eq_some] at hstep
    obtain ⟨h0, hs⟩ := hstep
    cases hs
    exact h.scheduleWithContext hfit h0 (by omega)
  | scheduleWithContext context delay =>
    cases hstep
    exact h.scheduleWithContext hfit.1 hfit.2.1 hfit.2.2
  | postWithContext context delay =>
    cases hstep
    exact h.postWithContext context delay
  | scheduleDestroy =>
    cases hstep
    exact h.scheduleDestroy hfit
  | cancel id =>
    cases hstep
    rw [cancel_eventsWithContext]
    exact h.cancel hfit
  | remove id =>
    rw [remove_eventsWithContext hstep]
    exact h.remove hfit hstep
  | processOneEvent next =>
    rw [processOneEvent_eventsWithContext hstep]
    exact h.processOneEvent hstep
  | processEventsWithContext =>
    cases hstep
    exact h.processEventsWithContext hfit.1 hfit.2

theorem inv_of_run (hrun : Lts.Run Step Fits new s) : Inv (s.eventsWithContext.map (·.event)) s :=
  Lts.Run.invariant (I := fun s => Inv (s.eventsWithContext.map (·.event)) s) Inv.step inv_new hrun

theorem Uids.before (h : Uids s) (ha : a ∈ s.history.scheduled)
    (hb : b ∈ s.history.scheduled) (huid : a.key.uid < b.key.uid) :
    History.Before s.history a b := by
  by_contra hnot
  rw [History.Before, not_lt] at hnot
  have hia := idxOf_lt_length_of_mem ha
  have hib := idxOf_lt_length_of_mem hb
  rcases hnot.lt_or_eq with hlt | heq
  · have hp := pairwise_iff_getElem.1 h.numbered _ _ hib hia hlt
    simp only [getElem_idxOf] at hp
    omega
  · have := (idxOf_inj hb).1 heq
    simp [this] at huid

theorem Queue.once (h : Queue s) (ev : Event) : s.history.executed.count ev =
    if ev ∈ s.history.scheduled ∧ ev.id ∉ s.history.cancelled ∧ ev.id ∉ s.history.removed ∧
      ev ∉ s.events then 1 else 0 := by
  have hnodup : s.history.executed.Nodup := h.sorted.imp fun hlt heq => by simp [heq] at hlt
  rw [hnodup.count]
  simp only [h.executed ev]

theorem Queue.next (h : Queue s) (hne : s.events ≠ 0) :
    ∃ ev s', s.processOneEvent ev = some s' := by
  obtain ⟨ev, hin, hleast⟩ := Multiset.exists_min_image (fun e => e.key.rank) hne
  have hts : s.currentTs ≤ ev.key.ts := by
    have hlater := h.later ev hin
    rw [now, EventKey.rank, Prod.Lex.toLex_lt_toLex] at hlater
    omega
  have hnext : IsNext s.events ev ∧ s.currentTs ≤ ev.key.ts := ⟨isNext_iff.2 ⟨hin, hleast⟩, hts⟩
  exact ⟨ev, isSome_iff_exists.1 (by simp [processOneEvent, hnext])⟩

theorem Inv.right (h : Inv loose s) : Right s where
  order := by
    have hsched : ∀ e ∈ s.history.executed, e ∈ s.history.scheduled :=
      fun e he => ((h.queue.executed e).1 he).1
    refine h.queue.sorted.imp_of_mem fun {a b} ha hb hlt => ?_
    rcases EventKey.less_iff.2 hlt with hts | ⟨hts, huid⟩
    · exact Or.inl hts
    · exact Or.inr ⟨hts, h.uids.before (hsched a ha) (hsched b hb) huid⟩
  once := h.queue.once
  next := h.queue.next
  expired := fun _ hk => h.isExpired_iff hk
  unscheduled := h.queue.count

/-- In every run below the bounds the simulator does what it has to do. -/
theorem right_of_run (hrun : Lts.Run Step Fits new s) : Right s := (inv_of_run hrun).right

/-- A run in which an event cancels the next one, removes another, and schedules one for the
present; one more comes from another thread. -/
theorem right_example :
    ∃ s, Right s ∧ s.history.executed = [⟨0, 5, 4, 0xffffffff⟩, ⟨4, 5, 8, 0xffffffff⟩,
    ⟨5, 6, 9, 3⟩, ⟨3, 9, 7, 2⟩] ∧ s.unscheduledEvents = 0 := by
  have hexec :
    (Lts.execs Fits call? new [.schedule 5, .schedule 5, .schedule 7, .scheduleWithContext 2 9,
      .processOneEvent ⟨0, 5, 4, 0xffffffff⟩, .cancel ⟨some 1, 5, 0xffffffff, 5⟩,
      .remove ⟨some 2, 7, 0xffffffff, 6⟩, .scheduleNow, .postWithContext 3 1,
        .processEventsWithContext,
      .processOneEvent ⟨1, 5, 5, 0xffffffff⟩, .processOneEvent ⟨4, 5, 8, 0xffffffff⟩,
      .processOneEvent ⟨5, 6, 9, 3⟩, .processOneEvent ⟨3, 9, 7, 2⟩]).map
        (fun s => (s.history.executed, s.unscheduledEvents))
      = some ([⟨0, 5, 4, 0xffffffff⟩, ⟨4, 5, 8, 0xffffffff⟩, ⟨5, 6, 9, 3⟩, ⟨3, 9, 7, 2⟩], 0) := by
    decide +kernel
  obtain ⟨s, hs, hm⟩ := map_eq_some_iff.1 hexec
  obtain ⟨hexecuted, hcount⟩ := Prod.mk.inj hm
  exact ⟨s, right_of_run (Lts.run_of_execs id hs), hexecuted, hcount⟩

/-! ## The counter goes round -/

/-- The event that `ScheduleNow` adds. -/
def presentEvent (s : DefaultSimulatorImpl) : Event := s.event s.impls s.currentTs s.currentContext

theorem scheduleNow_spec (hts : s.currentTs < 2 ^ 64) : ∃ s', Step s .scheduleNow s' ∧
    s'.events = s.presentEvent ::ₘ s.events ∧ s'.uid = s.nextUid ∧ s'.currentTs = s.currentTs ∧
    s'.currentContext = s.currentContext ∧ s'.impls = s.impls + 1 ∧
    s'.isCancelled = Function.update s.isCancelled s.impls false ∧
    s'.history = { s.history with scheduled := s.history.scheduled ++ [s.presentEvent] } := by
  have habs : s.absolute 0 = s.currentTs := by
    simp only [absolute]
    omega
  refine ⟨s.makeEvent.insert s.presentEvent, ?_, rfl, rfl, rfl, rfl, rfl, rfl, rfl⟩
  simp [Step, call?, scheduleNow, schedule, habs, presentEvent]

variable (ev) in
theorem processOneEvent_spec (hnext : IsNext s.events ev) (hts : s.currentTs ≤ ev.key.ts)
    (hflag : s.isCancelled ev.impl = false) : ∃ s', Step s (.processOneEvent ev) s' ∧
    s'.events = s.events.erase ev ∧ s'.uid = s.uid ∧ s'.currentTs = ev.key.ts ∧ s'.impls = s.impls ∧
    s'.isCancelled = s.isCancelled ∧
    s'.history = { s.history with executed := s.history.executed ++ [ev] } := by
  refine ⟨_, if_pos ⟨hnext, hts⟩, rfl, rfl, rfl, rfl, rfl, ?_⟩
  simp [hflag]

theorem run_of_uid (n : Nat) : ∃ s, Lts.Run Step Lts.anyStep new s ∧ s.events = 0 ∧
    s.currentTs = 0 ∧ s.uid = (validUid + n) % 2 ^ 32 ∧ ∀ e ∈ s.history.scheduled,
      e.impl < s.impls := by
  induction n with
  | zero => exact ⟨new, .refl _, rfl, rfl, rfl, nofun⟩
  | succ n ih =>
    obtain ⟨s, hrun, hevents, hts, huid, himpls⟩ := ih
    obtain ⟨s₁, hstep₁, hevents₁, huid₁, hts₁, -, himpls₁, hflags₁, hhistory₁⟩ :=
      scheduleNow_spec (s := s) (by omega)
    have hone : s₁.events = {s.presentEvent} := by rw [hevents₁, hevents, Multiset.cons_zero]
    obtain ⟨s₂, hstep₂, hevents₂, huid₂, hts₂, himpls₂, -, hhistory₂⟩ :=
      processOneEvent_spec (s := s₁) s.presentEvent (by simp [isNext_iff, hone])
        hts₁.le (by simp [hflags₁, presentEvent, event])
    refine ⟨s₂, (hrun.snoc trivial hstep₁).snoc trivial hstep₂, ?_, hts₂.trans hts, ?_, ?_⟩
    · simp [hevents₂, hone]
    · rw [huid₂, huid₁, nextUid, huid]
      omega
    · rw [hhistory₂, hhistory₁, himpls₂, himpls₁]
      refine forall_mem_append.2 ⟨fun e he => Nat.lt_succ_of_lt (himpls e he), ?_⟩
      simp [presentEvent, event]

/-- After `2 ^ 32 - 5` events the counter is about to go round: of the next two events for one time
the second has the uid `0`, and it is executed before the first. -/
theorem wrapped_out_of_order : ∃ s a b, Lts.Run Step Lts.anyStep new s ∧ a.key.ts = b.key.ts ∧
    History.Before s.history a b ∧ [b, a] <:+ s.history.executed ∧ ¬ Right s := by
  obtain ⟨s, hrun, hevents, hts, huid, himpls⟩ := run_of_uid (2 ^ 32 - 5)
  obtain ⟨s₁, hstep₁, hevents₁, huid₁, hts₁, hcontext₁, himpls₁, hflags₁, hhistory₁⟩ :=
    scheduleNow_spec (s := s) (by omega)
  obtain ⟨s₂, hstep₂, hevents₂, -, hts₂, -, -, hflags₂, hhistory₂⟩ :=
    scheduleNow_spec (s := s₁) (by omega)
  have ha : s.presentEvent = ⟨s.impls, 0, 2 ^ 32 - 1, s.currentContext⟩ := by
    simp [presentEvent, event, hts, huid, validUid]
  have hb : s₁.presentEvent = ⟨s.impls + 1, 0, 0, s.currentContext⟩ := by
    simp [presentEvent, event, hts₁, hts, huid₁, nextUid, huid, himpls₁, hcontext₁, validUid]
  have hne : s.presentEvent ≠ s₁.presentEvent := by simp [ha, hb]
  have htwo : s₂.events = {s₁.presentEvent, s.presentEvent} := by
    rw [hevents₂, hevents₁, hevents]
    rfl
  obtain ⟨s₃, hstep₃, hevents₃, -, hts₃, -, hflags₃, hhistory₃⟩ :=
    processOneEvent_spec (s := s₂) s₁.presentEvent
      (by simp [isNext_iff, htwo, ha, hb, EventKey.rank, Prod.Lex.toLex_le_toLex])
      (by simp [hts₂, hts₁, hts])
      (by simp [hflags₂, presentEvent, event])
  have hlast : s₃.events = {s.presentEvent} := by
    rw [hevents₃, htwo]
    exact Multiset.erase_cons_head _ _
  obtain ⟨s₄, hstep₄, -, -, -, -, -, hhistory₄⟩ :=
    processOneEvent_spec (s := s₃) s.presentEvent (by simp [isNext_iff, hlast])
      (by simp [hts₃, ha, hb]) (by simp [hflags₃, hflags₂, hflags₁, himpls₁, ha])
  have hexecuted : s₄.history.executed = s₂.history.executed ++ [s₁.presentEvent,
    s.presentEvent] := by
    simp [hhistory₄, hhistory₃]
  have hscheduled : s₄.history.scheduled = s.history.scheduled ++ [s.presentEvent,
    s₁.presentEvent] := by
    simp [hhistory₄, hhistory₃, hhistory₂, hhistory₁]
  have hold : ∀ {e : Event}, s.impls ≤ e.impl → e ∉ s.history.scheduled := by
    intro e hle hm
    exact absurd (himpls e hm) (not_lt.2 hle)
  have hbefore : History.Before s₄.history s.presentEvent s₁.presentEvent := by
    have hnota : s.presentEvent ∉ s.history.scheduled := hold (by simp [ha])
    have hnotb : s₁.presentEvent ∉ s.history.scheduled := hold (by simp [hb])
    rw [History.Before, hscheduled, idxOf_append_of_notMem hnota, idxOf_append_of_notMem hnotb,
      idxOf_cons_self, idxOf_cons_ne _ hne]
    omega
  refine ⟨s₄, s.presentEvent, s₁.presentEvent, ?_, by simp [ha, hb], hbefore, ⟨_, hexecuted.symm⟩,
    ?_⟩
  · exact (((hrun.snoc trivial hstep₁).snoc trivial hstep₂).snoc trivial hstep₃).snoc trivial hstep₄
  · intro hright
    have horder := hright.order
    rw [hexecuted] at horder
    have hpair := (pairwise_append.1 horder).2.1
    rcases rel_of_pairwise_cons hpair mem_cons_self with hlt | ⟨-, hlt⟩
    · simp [ha, hb] at hlt
    · exact absurd hbefore (not_lt.2 (le_of_lt hlt))

end DefaultSimulatorImpl

end OranNs3.Sim
