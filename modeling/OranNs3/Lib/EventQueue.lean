import Mathlib.Data.List.Sort
import Mathlib.Data.Multiset.Filter

/-!
# Queues of timed events

A discrete-event simulator keeps the events that are scheduled and neither run nor cancelled, and
runs the one with the smallest key, a time stamp and a number given in the order of scheduling.
`EventQueue ε` is that queue over any type `ε` of events; the order of its list, the freshness of
its numbers and the bound of its clock are fields. An `EventId` is what a program keeps of a
scheduled event, and `isPending` is what it can ask of it. A cancelled event leaves the queue at
once. Where only what is pending matters, the queue is the multiset of its events (`events`).
-/

universe u

/-- A scheduled event: the time at which it runs, its number and what it does. -/
structure Scheduled (ε : Type u) where
  ts : Nat
  uid : Nat
  ev : ε

/-- The order in which events run: by time, then by the order in which they were scheduled. -/
def Scheduled.Before {ε : Type u} (a b : Scheduled ε) : Prop :=
  a.ts < b.ts ∨ a.ts = b.ts ∧ a.uid ≤ b.uid
deriving Decidable

instance {ε : Type u} : Std.Total (Scheduled.Before (ε := ε)) :=
  ⟨fun a b => by unfold Scheduled.Before; omega⟩

instance {ε : Type u} : IsTrans (Scheduled ε) Scheduled.Before :=
  ⟨fun a b c => by unfold Scheduled.Before; omega⟩

/-- A handle of a scheduled event; `none` is the handle of no event. -/
abbrev EventId := Option Nat

/-- The pending events of a simulator, with its clock and the number of the next event. -/
structure EventQueue (ε : Type u) where
  now : Nat
  uid : Nat
  pending : List (Scheduled ε)
  sorted : pending.Pairwise Scheduled.Before
  nodup : (pending.map (·.uid)).Nodup
  uid_lt : ∀ e ∈ pending, e.uid < uid
  now_le : ∀ e ∈ pending, now ≤ e.ts

namespace EventQueue

open List Multiset

variable {ε : Type u} {q : EventQueue ε} {e : Scheduled ε} {id : EventId}

/-- The queue of a simulator that has not started. -/
def empty : EventQueue ε where
  now := 0
  uid := 0
  pending := []
  sorted := .nil
  nodup := .nil
  uid_lt := nofun
  now_le := nofun

/-- The event that `schedule` adds. -/
def entry (q : EventQueue ε) (delay : Nat) (ev : ε) : Scheduled ε := ⟨q.now + delay, q.uid, ev⟩

/-- Schedule an event after a delay; its handle is `q.handle`. -/
def schedule (q : EventQueue ε) (delay : Nat) (ev : ε) : EventQueue ε where
  now := q.now
  uid := q.uid + 1
  pending := q.pending.orderedInsert Scheduled.Before (q.entry delay ev)
  sorted := q.sorted.orderedInsert _ _
  nodup := by
    have hp := (List.perm_orderedInsert Scheduled.Before (q.entry delay ev) q.pending).map (·.uid)
    refine hp.nodup_iff.2 (List.nodup_cons.2 ⟨fun hm => ?_, q.nodup⟩)
    obtain ⟨e, he, hu⟩ := List.mem_map.1 hm
    exact absurd (q.uid_lt e he) (by rw [hu]; exact Nat.lt_irrefl _)
  uid_lt := by
    intro e he
    rcases (List.mem_orderedInsert _).1 he with rfl | he
    · exact Nat.lt_succ_self _
    · exact Nat.lt_succ_of_lt (q.uid_lt e he)
  now_le := by
    intro e he
    rcases (List.mem_orderedInsert _).1 he with rfl | he
    · exact Nat.le_add_right _ _
    · exact q.now_le e he

/-- The handle of the event that the next `schedule` adds. -/
def handle (q : EventQueue ε) : EventId := some q.uid

/-- The event of a handle is scheduled and neither run nor cancelled. -/
def isPending (q : EventQueue ε) (id : EventId) : Bool := q.pending.any fun e => id == some e.uid

/-- Cancel the event of a handle, if it is pending. -/
def cancel (q : EventQueue ε) (id : EventId) : EventQueue ε where
  now := q.now
  uid := q.uid
  pending := q.pending.filter fun e => id != some e.uid
  sorted := q.sorted.sublist List.filter_sublist
  nodup := q.nodup.sublist (List.filter_sublist.map _)
  uid_lt := fun e he => q.uid_lt e (List.mem_of_mem_filter he)
  now_le := fun e he => q.now_le e (List.mem_of_mem_filter he)

/-- Take the event that runs next out of the queue; the clock moves to its time. -/
def next? (q : EventQueue ε) : Option (Scheduled ε × EventQueue ε) :=
  match h : q.pending with
  | [] => none
  | e :: es => some (e, {
      now := e.ts
      uid := q.uid
      pending := es
      sorted := (List.pairwise_cons.1 (h ▸ q.sorted)).2
      nodup := (List.nodup_cons.1 (List.map_cons ▸ h ▸ q.nodup)).2
      uid_lt := fun e' he' => q.uid_lt e' (h ▸ List.mem_cons_of_mem _ he')
      now_le := fun e' he' => by
        have := (List.pairwise_cons.1 (h ▸ q.sorted)).1 e' he'
        unfold Scheduled.Before at this
        omega })

/-- Move the clock to the time `t` of a call from outside, which no pending event precedes. -/
def advance? (q : EventQueue ε) (t : Nat) : Option (EventQueue ε) :=
  if h : q.now ≤ t ∧ ∀ e ∈ q.pending, t ≤ e.ts then
    some { q with now := t, now_le := h.2 }
  else none

/-! ## What the operations do to the pending events -/

variable (d : Nat) (ev : ε)

@[simp] theorem schedule_uid : (q.schedule d ev).uid = q.uid + 1 := rfl
@[simp] theorem cancel_uid : (q.cancel id).uid = q.uid := rfl
@[simp] theorem entry_uid : (q.entry d ev).uid = q.uid := rfl

@[simp] theorem mem_schedule {d : Nat} {ev : ε} :
    e ∈ (q.schedule d ev).pending ↔ e = q.entry d ev ∨ e ∈ q.pending :=
  mem_orderedInsert _

@[simp] theorem length_schedule : (q.schedule d ev).pending.length = q.pending.length + 1 :=
  orderedInsert_length _ _ _

@[simp] theorem mem_cancel : e ∈ (q.cancel id).pending ↔ e ∈ q.pending ∧ id ≠ some e.uid := by
  simp [cancel, mem_filter]

theorem isPending_iff : q.isPending id = true ↔ ∃ e ∈ q.pending, id = some e.uid := by
  simp [isPending, any_eq_true]

theorem isPending_eq_false_iff : q.isPending id = false ↔ ∀ e ∈ q.pending, id ≠ some e.uid := by
  rw [← Bool.not_eq_true, isPending_iff]
  push Not
  rfl

theorem uid_inj {e e' : Scheduled ε} (he : e ∈ q.pending) (he' : e' ∈ q.pending)
    (hu : e.uid = e'.uid) : e = e' :=
  inj_on_of_nodup_map q.nodup he he' hu

variable {q' : EventQueue ε}

theorem next?_eq_some (h : q.next? = some (e, q')) :
    q.pending = e :: q'.pending ∧ q'.now = e.ts ∧ q'.uid = q.uid := by
  unfold next? at h
  split at h
  · cases h
  · next hp => cases h; exact ⟨hp, rfl, rfl⟩

theorem exists_next? (h : q.pending ≠ []) : ∃ e q', q.next? = some (e, q') := by
  unfold next?
  split
  · next hnil => exact absurd hnil h
  · exact ⟨_, _, rfl⟩

theorem next?_mem (h : q.next? = some (e, q')) : e ∈ q.pending := by
  rw [(next?_eq_some h).1]
  exact mem_cons_self

theorem mem_next? (h : q.next? = some (e, q')) {x : Scheduled ε} :
    x ∈ q'.pending ↔ x ∈ q.pending ∧ x.uid ≠ e.uid := by
  obtain ⟨hp, -, -⟩ := next?_eq_some h
  have hnd : e.uid ∉ q'.pending.map (·.uid) ∧ _ := List.nodup_cons.1 (by
    have := q.nodup
    rwa [hp, List.map_cons] at this)
  rw [hp, List.mem_cons]
  constructor
  · intro hx
    exact ⟨.inr hx, fun hu => hnd.1 (hu ▸ List.mem_map_of_mem hx)⟩
  · rintro ⟨rfl | hx, hu⟩
    · exact absurd rfl hu
    · exact hx

theorem advance?_eq_some {t : Nat} (h : q.advance? t = some q') :
    q'.pending = q.pending ∧ q'.now = t ∧ q'.uid = q.uid ∧ q.now ≤ t := by
  unfold advance? at h
  split at h
  · next ht => cases h; exact ⟨rfl, rfl, rfl, ht.1⟩
  · cases h

theorem ext_of_pending (hnow : q.now = q'.now) (huid : q.uid = q'.uid)
    (hpending : q.pending = q'.pending) : q = q' := by
  cases q
  cases q'
  simp only at hnow huid hpending
  subst hnow huid hpending
  rfl

theorem next?_eq_cancel (h : q.next? = some (e, q')) :
    ∃ q₁, q.advance? e.ts = some q₁ ∧ q' = q₁.cancel (some e.uid) := by
  obtain ⟨hp, hnow, huid⟩ := next?_eq_some h
  have hts : q.now ≤ e.ts ∧ ∀ x ∈ q.pending, e.ts ≤ x.ts := by
    refine ⟨q.now_le e (next?_mem h), fun x hx => ?_⟩
    rw [hp] at hx
    rcases mem_cons.1 hx with rfl | hx
    · exact le_rfl
    · exact hnow ▸ q'.now_le x hx
  refine ⟨_, dif_pos hts, ext_of_pending hnow huid ?_⟩
  have hne : ∀ x ∈ q'.pending, (some e.uid != some x.uid) = true := by
    intro x hx
    exact bne_iff_ne.2 fun hu => ((mem_next? h).1 hx).2 (Option.some.inj hu).symm
  change q'.pending = q.pending.filter _
  rw [hp, filter_cons_of_neg (by simp), filter_eq_self.2 hne]

/-! ## The multiset of the pending events -/

/-- What is pending, without the times. -/
def events (q : EventQueue ε) : Multiset ε := (q.pending.map (·.ev) : List ε)

theorem mem_events {ev : ε} : ev ∈ q.events ↔ ∃ e ∈ q.pending, e.ev = ev := by
  rw [events, Multiset.mem_coe, List.mem_map]

@[simp] theorem events_schedule : (q.schedule d ev).events = ev ::ₘ q.events := by
  have hp := (perm_orderedInsert Scheduled.Before (q.entry d ev) q.pending).map (·.ev)
  exact coe_eq_coe.2 hp

theorem events_next? (h : q.next? = some (e, q')) : q.events = e.ev ::ₘ q'.events := by
  rw [events, (next?_eq_some h).1]
  rfl

theorem events_advance? {t : Nat} (h : q.advance? t = some q') : q'.events = q.events := by
  rw [events, (advance?_eq_some h).1]
  rfl

variable {p : ε → Prop}

theorem filter_events_cancel [DecidablePred p] (h : ∀ e ∈ q.pending, id = some e.uid → ¬ p e.ev) :
    (q.cancel id).events.filter p = q.events.filter p := by
  rw [events, events, Multiset.filter_coe, Multiset.filter_coe, cancel, List.filter_map,
    List.filter_map, List.filter_filter]
  congr 2
  refine List.filter_congr fun e he => ?_
  by_cases hid : id = some e.uid
  · simp [h e he hid]
  · simp [hid]

/-! ## Later queues -/

/-- A queue after some scheduling, cancelling and running: what is pending was so or is new. -/
structure Later (q q' : EventQueue ε) : Prop where
  uid_le : q.uid ≤ q'.uid
  old_or_new : ∀ e ∈ q'.pending, e ∈ q.pending ∨ q.uid ≤ e.uid

theorem Later.refl (q : EventQueue ε) : Later q q where
  uid_le := le_rfl
  old_or_new := fun _ he => .inl he

theorem Later.trans {q' q'' : EventQueue ε} (h : Later q q') (h' : Later q' q'') : Later q q'' where
  uid_le := h.uid_le.trans h'.uid_le
  old_or_new := by
    intro e he
    rcases h'.old_or_new e he with he | hnew
    · exact h.old_or_new e he
    · exact .inr (h.uid_le.trans hnew)

theorem Later.schedule : Later q (q.schedule d ev) where
  uid_le := Nat.le_succ _
  old_or_new := by
    intro e he
    rcases mem_schedule.1 he with rfl | he
    · exact .inr le_rfl
    · exact .inl he

theorem Later.cancel (id : EventId) : Later q (q.cancel id) where
  uid_le := le_rfl
  old_or_new := fun _ he => .inl (mem_cancel.1 he).1

theorem Later.next? (h : q.next? = some (e, q')) : Later q q' where
  uid_le := (next?_eq_some h).2.2.ge
  old_or_new := fun _ hx => .inl ((mem_next? h).1 hx).1

theorem Later.advance? {t : Nat} (h : q.advance? t = some q') : Later q q' where
  uid_le := (advance?_eq_some h).2.2.1.ge
  old_or_new := fun _ hx => .inl ((advance?_eq_some h).1 ▸ hx)

/-- The event of the handle, if it is still pending, is of the kind `p`. -/
def HandleOf (p : ε → Prop) (q : EventQueue ε) (id : EventId) : Prop :=
  ∀ u, id = some u → u < q.uid ∧ ∀ e ∈ q.pending, e.uid = u → p e.ev

theorem HandleOf.none (p : ε → Prop) : HandleOf p q none := nofun

theorem HandleOf.schedule {d : Nat} {ev : ε} (h : p ev) :
    HandleOf p (q.schedule d ev) q.handle := by
  intro u hu
  cases hu
  refine ⟨Nat.lt_succ_self _, fun e he hu => ?_⟩
  rcases mem_schedule.1 he with rfl | he
  · exact h
  · exact absurd (q.uid_lt e he) (hu ▸ lt_irrefl _)

theorem HandleOf.later (h : HandleOf p q id) (hq : Later q q') : HandleOf p q' id := by
  intro u hu
  obtain ⟨hlt, hp⟩ := h u hu
  refine ⟨hlt.trans_le hq.uid_le, fun e he heu => ?_⟩
  rcases hq.old_or_new e he with he | hnew
  · exact hp e he heu
  · exact absurd hlt (heu ▸ not_lt.2 hnew)

theorem HandleOf.filter_events {p p' : ε → Prop} [DecidablePred p'] (h : HandleOf p q id)
    (hp : ∀ ev, p ev → ¬ p' ev) : (q.cancel id).events.filter p' = q.events.filter p' :=
  filter_events_cancel fun e he hid => hp _ ((h e.uid hid).2 e he rfl)

end EventQueue
