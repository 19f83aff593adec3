import Mathlib.Data.Prod.Lex
import Mathlib.Data.Multiset.MapFold

/-!
# The event schedulers of the simulator

A `Scheduler` keeps the events that wait to be executed and gives the one with the smallest key, by
time stamp and then by uid (`src/src/core/model/scheduler.h`). What it is for is stated here over
the multiset of its events (`SetStep`): an insertion adds an event, a removal takes one away, and
`RemoveNext` takes a smallest one away and returns it. The implementations are compared with it
under the calls that callers may make. Keys are pairwise distinct in one of two ways: in what the
order looks at (`Admits`), or in what `operator==` looks at, the uid alone (`AdmitsDistinct`).
-/

namespace OranNs3.Sim

open Multiset

/-- `Scheduler::EventKey`. -/
structure EventKey where
  ts : Nat
  uid : Nat
  context : Nat
deriving DecidableEq

/-- `Scheduler::Event`: the pointer to the implementation, and the key. -/
structure Event where
  impl : Nat
  key : EventKey
deriving DecidableEq

/-- `operator<` of keys. -/
def EventKey.Less (a b : EventKey) : Prop := a.ts < b.ts ∨ a.ts = b.ts ∧ a.uid < b.uid
deriving Decidable

/-- `operator>` of keys. -/
def EventKey.Greater (a b : EventKey) : Prop := a.ts > b.ts ∨ a.ts = b.ts ∧ a.uid > b.uid
deriving Decidable

/-- `operator==` of keys. -/
def EventKey.Equal (a b : EventKey) : Prop := a.uid = b.uid
deriving Decidable

/-- What the operators of keys compare, in a linear order. -/
def EventKey.rank (a : EventKey) : ℕ ×ₗ ℕ := toLex (a.ts, a.uid)

variable {a b : EventKey}

theorem EventKey.less_iff : a.Less b ↔ a.rank < b.rank := by
  simp [Less, rank, Prod.Lex.toLex_lt_toLex]

theorem EventKey.greater_iff : a.Greater b ↔ b.rank < a.rank := by
  simp only [Greater, rank, Prod.Lex.toLex_lt_toLex]
  omega

theorem EventKey.rank_eq_iff : a.rank = b.rank ↔ a.ts = b.ts ∧ a.uid = b.uid := by
  simp [rank]

theorem EventKey.ts_le (h : a.rank ≤ b.rank) : a.ts ≤ b.ts := by
  simp only [rank, Prod.Lex.toLex_le_toLex] at h
  omega

theorem EventKey.rank_lt_of_ts_lt (h : a.ts < b.ts) : a.rank < b.rank :=
  less_iff.1 (Or.inl h)

/-- The calls that change a scheduler. -/
inductive Call
  | insert (ev : Event)
  | remove (ev : Event)
  | removeNext
deriving DecidableEq

variable (s : Multiset Event)

/-- An event of the set with no smaller one in it. -/
def IsNext (ev : Event) : Prop := ev ∈ s ∧ ∀ e ∈ s, ¬ e.key.Less ev.key
deriving Decidable

/-- What a scheduler is for: each call, with the event it returns. -/
inductive SetStep (s : Multiset Event) : Call → Option Event → Multiset Event → Prop
  | insert (ev : Event) : SetStep s (.insert ev) none (ev ::ₘ s)
  | remove (ev : Event) (h : ev ∈ s) : SetStep s (.remove ev) none (s.erase ev)
  | removeNext (ev : Event) (h : IsNext s ev) : SetStep s .removeNext (some ev) (s.erase ev)

/-- The calls that a caller may make: no two keys are alike in time stamp and uid, and only what is
there is taken away. -/
def Admits : Call → Prop
  | .insert ev => ∀ e ∈ s, e.key.rank ≠ ev.key.rank
  | .remove ev => ev ∈ s
  | .removeNext => s ≠ 0

/-- The same calls, where no two keys are equal for `operator==`. -/
def AdmitsDistinct : Call → Prop
  | .insert ev => ∀ e ∈ s, ¬ e.key.Equal ev.key
  | .remove ev => ev ∈ s
  | .removeNext => s ≠ 0

/-- No two events have the same uid. -/
def UidsDiffer (m : Multiset Event) : Prop := (m.map (·.key.uid)).Nodup

instance : DecidablePred (Admits s)
  | .insert _ => inferInstanceAs (Decidable (∀ _ ∈ _, _))
  | .remove ev => inferInstanceAs (Decidable (ev ∈ s))
  | .removeNext => inferInstanceAs (Decidable (s ≠ 0))

instance : DecidablePred (AdmitsDistinct s)
  | .insert _ => inferInstanceAs (Decidable (∀ _ ∈ _, _))
  | .remove ev => inferInstanceAs (Decidable (ev ∈ s))
  | .removeNext => inferInstanceAs (Decidable (s ≠ 0))

/-- The events that are there after a call, with the one it returned. -/
def remaining : Call → Option Event → Multiset Event
  | .insert ev, _ => ev ::ₘ s
  | .remove ev, _ => s.erase ev
  | .removeNext, some ev => s.erase ev
  | .removeNext, none => s

theorem mem_remaining {s : Multiset Event} {c : Call} {r : Option Event} {e : Event}
    (he : e ∈ remaining s c r) : e ∈ s ∨ c = .insert e := by
  cases c with
  | insert ev =>
    rcases mem_cons.1 he with rfl | he
    · exact Or.inr rfl
    · exact Or.inl he
  | remove ev => exact Or.inl (mem_of_mem_erase he)
  | removeNext =>
    cases r with
    | none => exact Or.inl he
    | some ev => exact Or.inl (mem_of_mem_erase he)

namespace UidsDiffer

variable {m m' m'' : Multiset Event} {c : Call} {r r' : Option Event} {ev e : Event}
variable (h : UidsDiffer m)
include h

/-- An event is known by its uid. -/
theorem unique (hev : ev ∈ m) (he : e ∈ m) (huid : ev.key.uid = e.key.uid) : ev = e :=
  inj_on_of_nodup_map h ev hev e he huid

/-- Calls with distinct keys keep the uids apart. -/
theorem step (hset : SetStep m c r m') (hadm : AdmitsDistinct m c) : UidsDiffer m' := by
  cases hset with
  | insert ev =>
    rw [UidsDiffer, map_cons]
    refine nodup_cons.2 ⟨fun hmem => ?_, h⟩
    obtain ⟨e, he, heq⟩ := mem_map.1 hmem
    exact hadm e he heq
  | remove ev _ | removeNext ev _ => 
    exact nodup_of_le (map_le_map (erase_le ev m)) h

end UidsDiffer

/-- One call of a scheduler, with what was inserted and not yet taken away beside it. -/
def call? {σ : Type*} (call : σ → Call → Option (σ × Option Event)) (w : σ × Multiset Event)
    (c : Call) : Option (σ × Multiset Event) :=
  (call w.1 c).map fun r => (r.1, remaining w.2 c r.2)

/-- The steps of a scheduler. -/
def CallStep {σ : Type*} (call : σ → Call → Option (σ × Option Event)) (w : σ × Multiset Event)
    (c : Call) (w' : σ × Multiset Event) : Prop := call? call w c = some w'

/-- An event at a time. -/
def eventAt (ts uid : Nat) : Event := ⟨uid, ts, uid, 0⟩

/-- Events with the numbers `4, 5, ..` at the given times. -/
def insertions (times : List Nat) : List Call :=
  times.mapIdx fun i ts => .insert (eventAt ts (i + 4))

theorem isNext_iff {s : Multiset Event} {ev : Event} :
    IsNext s ev ↔ ev ∈ s ∧ ∀ e ∈ s, ev.key.rank ≤ e.key.rank := by
  simp [IsNext, EventKey.less_iff]

end OranNs3.Sim
