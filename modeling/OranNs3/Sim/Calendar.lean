import Mathlib.Algebra.Ring.Nat
import OranNs3.Sim.Scheduler
import Mathlib.Algebra.Order.BigOperators.Group.Finset
import Mathlib.Data.Multiset.Sort

/-!
# CalendarScheduler

The events in a rotating year of buckets (`src/src/core/model/calendar-scheduler.cc`). A bucket is a
list in the order of its keys, in the reverse order when the attribute `Reverse` is set. An event of
time `ts` is in bucket `ts / width` modulo the number of buckets; the search for the next event
walks the buckets from the last one it took an event from, with the end of the current day in
`bucketTop`, and takes the smallest event of all buckets after a year without one. Of the array of
buckets the first `nBuckets` values are used. 64-bit arithmetic wraps around (`u64`). An assertion
that fails, or the use of the bucket with index -1, is `none`.
-/

namespace OranNs3.Sim

/-- Arithmetic of `uint64_t`. -/
def u64 (n : Nat) : Nat := n % 2 ^ 64

/-- `CalendarScheduler`. -/
structure CalendarScheduler where
  buckets : Nat → List Event
  nBuckets : Nat
  width : Nat
  lastBucket : Nat
  bucketTop : Nat
  lastPrio : Nat
  qSize : Nat
  reverse : Bool

namespace CalendarScheduler

variable (reverse : Bool)

/-- `NextEvent`: the last event of a bucket in reverse order, the first one otherwise. -/
def nextEvent? (bucket : List Event) : Option Event :=
  if reverse then bucket.getLast? else bucket.head?

def pop (bucket : List Event) : List Event :=
  if reverse then bucket.dropLast else bucket.tail

def Order (a b : EventKey) : Prop := if reverse then a.Greater b else a.Less b
deriving Decidable

variable (s : CalendarScheduler)

def hash (ts : Nat) : Nat := ts / s.width % s.nBuckets

def init (nBuckets width startPrio : Nat) : CalendarScheduler :=
  { s with
    buckets := fun _ => []
    nBuckets
    width
    lastPrio := startPrio
    lastBucket := startPrio / width % nBuckets
    bucketTop := u64 ((startPrio / width + 1) * width) }

/-- The constructor, with the attribute `Reverse`. -/
def new : CalendarScheduler :=
  init ⟨fun _ => [], 0, 0, 0, 0, 0, 0, reverse⟩ 2 1 0

/-- The loop of `DoInsert`: an event goes before the first one it is ordered before. -/
def insertInto (reverse : Bool) (ev : Event) : List Event → List Event
  | [] => [ev]
  | e :: bucket =>
    if Order reverse ev.key e.key then ev :: e :: bucket else e :: insertInto reverse ev bucket

/-- A bucket is replaced. -/
def setBucket (i : Nat) (bucket : List Event) : CalendarScheduler :=
  { s with buckets := Function.update s.buckets i bucket }

def doInsert (ev : Event) : CalendarScheduler :=
  s.setBucket (s.hash ev.key.ts) (insertInto s.reverse ev (s.buckets (s.hash ev.key.ts)))

def isEmpty : Bool := s.qSize == 0

/-- What the walk over a year ends with: an event before the end of its day, in bucket `i`, or the
smallest of all, with its bucket. -/
inductive Found
  | inYear (i bucketTop : Nat) (next : Event)
  | least (min : Event) (minBucket : Option Nat)

/-- The loop of `PeekNext` and `DoRemoveNext`, from bucket `i` on, with the smallest event so far.
The first argument counts the buckets that are left. -/
def search (s : CalendarScheduler) : Nat → Nat → Nat → Event → Option Nat → Found
  | 0, _, _, min, minBucket => .least min minBucket
  | k + 1, i, bucketTop, min, minBucket =>
    let step (min : Event) (minBucket : Option Nat) : Found :=
      if (i + 1) % s.nBuckets = s.lastBucket then .least min minBucket
      else search s k ((i + 1) % s.nBuckets) (u64 (bucketTop + s.width)) min minBucket
    match nextEvent? s.reverse (s.buckets i) with
    | none => step min minBucket
    | some next =>
      if next.key.ts < bucketTop then .inYear i bucketTop next
      else if next.key.Less min.key then step next (some i)
      else step min minBucket

/-- The event that `PeekNext` starts with. -/
def maxEvent : Event := ⟨0, 2 ^ 64 - 1, 2 ^ 32 - 1, 0⟩

/-- The key that `DoRemoveNext` starts with. -/
def maxKey : EventKey := ⟨2 ^ 64 - 1, 0, 2 ^ 32 - 1⟩

def peekNext : Option Event :=
  if s.isEmpty then none
  else match s.search s.nBuckets s.lastBucket s.bucketTop maxEvent none with
    | .inYear _ _ next => some next
    | .least min _ => some min

def doRemoveNext : Option (Event × CalendarScheduler) :=
  if s.isEmpty then none
  else match s.search s.nBuckets s.lastBucket s.bucketTop ⟨0, maxKey⟩ none with
    | .inYear i bucketTop next =>
      some (next, { s with
        lastBucket := i
        lastPrio := next.key.ts
        bucketTop
        buckets := Function.update s.buckets i (pop s.reverse (s.buckets i)) })
    | .least min minBucket => do
      let i ← minBucket
      let next ← nextEvent? s.reverse (s.buckets i)
      return (next, { s with
        lastPrio := min.key.ts
        lastBucket := s.hash min.key.ts
        bucketTop := u64 ((min.key.ts / s.width + 1) * s.width)
        buckets := Function.update s.buckets i (pop s.reverse (s.buckets i)) })

/-- The first loop of `CalculateNewWidth`: the next `n` events are taken out. -/
def gather : Nat → CalendarScheduler → Option (List Event × CalendarScheduler)
  | 0, s => some ([], s)
  | n + 1, s => do
    let (next, s) ← s.doRemoveNext
    let (samples, s) ← gather n s
    return (next :: samples, s)

/-- The number of events that `CalculateNewWidth` takes out. -/
def nSamples : Nat :=
  let n := if s.qSize ≤ 5 then s.qSize else 5 + s.qSize / 10
  if n > 25 then 25 else n

/-- The differences between the times of successive samples. -/
def separations (samples : List Event) : List Nat :=
  List.zipWith (fun cur next => u64 (2 ^ 64 + next.key.ts - cur.key.ts)) samples samples.tail

/-- The width that `CalculateNewWidth` computes from its samples: three times the sum of the
separations that are not above twice their average. -/
def widthOf (samples : List Event) : Nat :=
  let total := u64 (separations samples).sum
  let twiceAvg := u64 (total / (samples.length - 1) * 2)
  max (u64 (u64 ((separations samples).filter (· ≤ twiceAvg)).sum * 3)) 1

/-- `CalculateNewWidth`: the samples are put back, and the place of the search is restored. -/
def calculateNewWidth : Option (Nat × CalendarScheduler) :=
  if s.qSize < 2 then some (1, s)
  else do
    let (samples, t) ← gather s.nSamples s
    let t := samples.foldl doInsert t
    return (widthOf samples,
      { t with lastBucket := s.lastBucket, bucketTop := s.bucketTop, lastPrio := s.lastPrio })

def doResize (newSize newWidth : Nat) : CalendarScheduler :=
  ((List.range s.nBuckets).flatMap s.buckets).foldl doInsert (s.init newSize newWidth s.lastPrio)

def resize (newSize : Nat) : Option CalendarScheduler :=
  s.calculateNewWidth.map fun r => r.2.doResize newSize r.1

def resizeUp : Option CalendarScheduler :=
  if s.qSize > s.nBuckets * 2 ∧ s.nBuckets < 32768 then s.resize (s.nBuckets * 2) else some s

def resizeDown : Option CalendarScheduler :=
  if s.qSize < s.nBuckets / 2 then s.resize (s.nBuckets / 2) else some s

def insert (ev : Event) : Option CalendarScheduler :=
  resizeUp { s.doInsert ev with qSize := s.qSize + 1 }

def removeNext : Option (Event × CalendarScheduler) := do
  let (ev, t) ← s.doRemoveNext
  let t ← resizeDown { t with qSize := t.qSize - 1 }
  return (ev, t)

/-- The event at which the loop of `Remove` stops. -/
def findIn (uid : Nat) (bucket : List Event) : Option Event :=
  bucket.find? fun e => e.key.uid == uid

def remove (ev : Event) : Option CalendarScheduler :=
  if s.isEmpty then none
  else
    let i := s.hash ev.key.ts
    (findIn ev.key.uid (s.buckets i)).bind fun e =>
      if ev.impl = e.impl then
        resizeDown { s.setBucket i ((s.buckets i).eraseP fun e => e.key.uid == ev.key.uid) with
          qSize := s.qSize - 1 }
      else none

/-- A call. -/
def call : Call → Option (CalendarScheduler × Option Event)
  | .insert ev => (s.insert ev).map fun t => (t, none)
  | .remove ev => (s.remove ev).map fun t => (t, none)
  | .removeNext => s.removeNext.map fun r => (r.2, some r.1)

end CalendarScheduler

end OranNs3.Sim
