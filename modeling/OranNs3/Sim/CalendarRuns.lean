import OranNs3.Lib.Run
import OranNs3.Sim.Calendar
import Mathlib.Data.Nat.ModEq
import Mathlib.Tactic.Ring

/-!
# Runs of CalendarScheduler

The calendar is the sorted set of its events (`calendarRefines_of_run`). What is stored (`Stored`:
each event is in the bucket of its time, each bucket is in order) does not depend on the place of
the search, which is determined by the time of the last event taken out (`Placed`). The walk over
the buckets finds a smallest event (`search_spec`) as long as the end of a day fits into 64 bits
(`Fits`), which holds in every run whose time stamps stay below a bound (`Small.callOk`).

`Remove` looks for the uid of an event only, which is what `operator==` of keys compares: as long as
no two keys are equal, it finds the event (`Stored.findIn`).
-/

namespace OranNs3.Sim.CalendarScheduler

open Finset Function List Multiset Option

/-! ## Buckets -/

variable (reverse : Bool)

/-- The order of a bucket. -/
def Before (a b : Event) : Prop :=
  if reverse then b.key.rank ≤ a.key.rank else a.key.rank ≤ b.key.rank

/-- A bucket in order. -/
def Sorted (bucket : List Event) : Prop := bucket.Pairwise (Before reverse)

section
variable {reverse : Bool} {a b c ev next : Event} {bucket : List Event}

theorem order_iff : Order reverse a.key b.key ↔ ¬ Before reverse b a := by
  cases reverse <;> simp [Order, Before, EventKey.less_iff, EventKey.greater_iff]

theorem Before.trans (h : Before reverse a b) (h' : Before reverse b c) : Before reverse a c := by
  cases reverse with
  | false => exact le_trans h h'
  | true => exact le_trans (α := ℕ ×ₗ ℕ) h' h

theorem before_of_not (h : ¬ Before reverse a b) : Before reverse b a := by
  cases reverse with
  | false => exact (not_le.1 h).le
  | true => exact (not_le.1 h).le

theorem insertInto_perm : (insertInto reverse ev bucket).Perm (ev :: bucket) := by
  induction bucket with
  | nil => exact .refl _
  | cons e bucket ih =>
    rw [insertInto]
    split
    · exact .refl _
    · exact (ih.cons e).trans (.swap ev e bucket)

theorem Sorted.insertInto (h : Sorted reverse bucket) :
    Sorted reverse (insertInto reverse ev bucket) := by
  induction bucket with
  | nil => exact pairwise_singleton _ _
  | cons e bucket ih =>
    obtain ⟨he, hb⟩ := pairwise_cons.1 h
    rw [CalendarScheduler.insertInto]
    split
    · next hord =>
      have hev : Before reverse ev e := before_of_not (order_iff.1 hord)
      refine pairwise_cons.2 ⟨fun x hx => ?_, h⟩
      rcases mem_cons.1 hx with rfl | hx
      · exact hev
      · exact hev.trans (he x hx)
    · next hord =>
      have hev : Before reverse e ev := not_not.1 (order_iff.not.1 hord)
      refine pairwise_cons.2 ⟨fun x hx => ?_, ih hb⟩
      rcases mem_cons.1 (insertInto_perm.mem_iff.1 hx) with rfl | hx
      · exact hev
      · exact he x hx

theorem pop_perm (h : nextEvent? reverse bucket = some next) :
    bucket.Perm (next :: pop reverse bucket) := by
  cases reverse with
  | false =>
    obtain ⟨rest, rfl⟩ := head?_eq_some_iff.1 (by simpa [nextEvent?] using h)
    exact .refl _
  | true =>
    have hlast : bucket.getLast? = some next := by simpa [nextEvent?] using h
    rw [pop, if_pos rfl]
    conv_lhs => rw [← dropLast_append_getLast? _ hlast]
    exact perm_append_comm

theorem Sorted.pop (h : Sorted reverse bucket) : Sorted reverse (pop reverse bucket) := by
  cases reverse with
  | false => exact Pairwise.sublist (tail_sublist _) h
  | true => exact Pairwise.sublist (dropLast_sublist _) h

theorem Sorted.next_le (h : Sorted reverse bucket) (hn : nextEvent? reverse bucket = some next)
    (ha : a ∈ bucket) : next.key.rank ≤ a.key.rank := by
  cases reverse with
  | false =>
    obtain ⟨rest, rfl⟩ := head?_eq_some_iff.1 (by simpa [nextEvent?] using hn)
    rcases mem_cons.1 ha with rfl | ha
    · exact le_rfl
    · exact (pairwise_cons.1 h).1 a ha
  | true =>
    have hlast : bucket.getLast? = some next := by simpa [nextEvent?] using hn
    rw [← dropLast_append_getLast? _ hlast] at h ha
    rcases mem_append.1 ha with ha | ha
    · exact (pairwise_append.1 h).2.2 a ha next (List.mem_singleton.2 rfl)
    · rw [List.mem_singleton.1 ha]

theorem mem_of_nextEvent? (h : nextEvent? reverse bucket = some next) : next ∈ bucket :=
  (pop_perm h).mem_iff.2 mem_cons_self

theorem nextEvent?_eq_none : nextEvent? reverse bucket = none ↔ bucket = [] := by
  cases reverse <;> simp [nextEvent?]

end

/-! ## What is stored -/

/-- The calendar holds the events `m`: each in the bucket of its time, each bucket in order. -/
structure Stored (s : CalendarScheduler) (m : Multiset Event) : Prop where
  nBuckets_pos : 0 < s.nBuckets
  width_pos : 0 < s.width
  hashed : ∀ i, ∀ e ∈ s.buckets i, s.hash e.key.ts = i
  sorted : ∀ i, Sorted s.reverse (s.buckets i)
  events : ∑ i ∈ Finset.range s.nBuckets, (s.buckets i : Multiset Event) = m

/-- The place of the search is that of the time of the last event taken out, and no event is
earlier. -/
structure Placed (s : CalendarScheduler) (m : Multiset Event) : Prop where
  lastBucket : s.lastBucket = s.hash s.lastPrio
  bucketTop : s.bucketTop = u64 ((s.lastPrio / s.width + 1) * s.width)
  notBelow : ∀ e ∈ m, s.lastPrio ≤ e.key.ts

/-- The end of a day in the year of an event fits into 64 bits. -/
def Fits (s : CalendarScheduler) (m : Multiset Event) : Prop :=
  ∀ e ∈ m, e.key.ts + (s.nBuckets + 1) * s.width < 2 ^ 64
deriving Decidable

section
variable {s t : CalendarScheduler} {m : Multiset Event} {e ev next : Event} {i : Nat}

theorem Stored.hash_lt (h : Stored s m) (ts : Nat) : s.hash ts < s.nBuckets :=
  Nat.mod_lt _ h.nBuckets_pos

theorem Stored.mem_iff (h : Stored s m) : e ∈ m ↔ e ∈ s.buckets (s.hash e.key.ts) := by
  rw [← h.events, mem_sum]
  constructor
  · rintro ⟨i, -, hi⟩
    rw [h.hashed i e hi]
    exact hi
  · intro he
    exact ⟨_, Finset.mem_range.2 (h.hash_lt _), he⟩

theorem Stored.congr (h : Stored s m) (hb : t.buckets = s.buckets) (hn : t.nBuckets = s.nBuckets)
    (hw : t.width = s.width) (hr : t.reverse = s.reverse) : Stored t m := by
  have hhash : ∀ ts, t.hash ts = s.hash ts := fun ts => by rw [hash, hash, hn, hw]
  refine ⟨hn ▸ h.nBuckets_pos, hw ▸ h.width_pos, fun i e he => ?_, fun i => ?_, ?_⟩
  · rw [hhash]
    exact h.hashed i e (hb ▸ he)
  · rw [hb, hr]
    exact h.sorted i
  · rw [hb, hn]
    exact h.events

variable {bucket : List Event}

@[simp]
theorem buckets_setBucket_self : (s.setBucket i bucket).buckets i = bucket :=
  update_self ..

variable {j : Nat}

@[simp]
theorem buckets_setBucket_of_ne (hj : j ≠ i) :
    (s.setBucket i bucket).buckets j = s.buckets j := update_of_ne hj ..

variable {m' : Multiset Event}

theorem Stored.setBucket (h : Stored s m)
    (hi : i < s.nBuckets) (hhash : ∀ e ∈ bucket, s.hash e.key.ts = i)
    (hsort : Sorted s.reverse bucket)
    (hm : m' + (s.buckets i : Multiset Event) = m + bucket) : Stored (s.setBucket i bucket) m' where
  nBuckets_pos := h.nBuckets_pos
  width_pos := h.width_pos
  hashed := by
    intro j e he
    rcases eq_or_ne j i with rfl | hj
    · rw [buckets_setBucket_self] at he
      exact hhash e he
    · rw [buckets_setBucket_of_ne hj] at he
      exact h.hashed j e he
  sorted := by
    intro j
    rcases eq_or_ne j i with rfl | hj
    · rw [buckets_setBucket_self]
      exact hsort
    · rw [buckets_setBucket_of_ne hj]
      exact h.sorted j
  events := by
    have hi' : i ∈ Finset.range s.nBuckets := Finset.mem_range.2 hi
    have hold := sum_erase_add (Finset.range s.nBuckets)
      (fun j => (s.buckets j : Multiset Event)) hi'
    have hnew := sum_erase_add (Finset.range s.nBuckets)
      (fun j => (update s.buckets i bucket j : Multiset Event)) hi'
    have hrest : ∑ j ∈ (Finset.range s.nBuckets).erase i,
          (update s.buckets i bucket j : Multiset Event)
        = ∑ j ∈ (Finset.range s.nBuckets).erase i, (s.buckets j : Multiset Event) :=
      sum_congr rfl fun j hj => by rw [update_of_ne (ne_of_mem_erase hj)]
    rw [h.events] at hold
    rw [hrest, update_self] at hnew
    rw [← hold, add_right_comm, hnew] at hm
    exact (add_right_cancel hm).symm

theorem Stored.doInsert (h : Stored s m) (ev : Event) : Stored (s.doInsert ev) (ev ::ₘ m) := by
  refine h.setBucket (h.hash_lt _) (fun e he => ?_) (h.sorted _).insertInto ?_
  · rcases mem_cons.1 (insertInto_perm.mem_iff.1 he) with rfl | he
    · rfl
    · exact h.hashed _ e he
  · rw [coe_eq_coe.2 insertInto_perm, ← cons_coe, cons_add, add_cons]

theorem Stored.foldl_doInsert {l : List Event} (h : Stored s m) :
    Stored (l.foldl CalendarScheduler.doInsert s) (l + m) := by
  induction l generalizing s m with
  | nil => simpa using h
  | cons e l ih =>
    rw [List.foldl_cons, ← cons_coe, cons_add, ← add_cons]
    exact ih (h.doInsert e)

theorem foldl_doInsert_fields (l : List Event) (s : CalendarScheduler) :
    let t := l.foldl CalendarScheduler.doInsert s
    t.nBuckets = s.nBuckets ∧ t.width = s.width ∧ t.reverse = s.reverse ∧ t.qSize = s.qSize ∧
      t.lastBucket = s.lastBucket ∧ t.bucketTop = s.bucketTop ∧ t.lastPrio = s.lastPrio := by
  induction l generalizing s with
  | nil => exact ⟨rfl, rfl, rfl, rfl, rfl, rfl, rfl⟩
  | cons e l ih => exact ih (s.doInsert e)

theorem Stored.pop (h : Stored s m) (hn : nextEvent? s.reverse (s.buckets i) = some next) :
    Stored (s.setBucket i (pop s.reverse (s.buckets i))) (m.erase next) := by
  have hperm := pop_perm hn
  have hnext : next ∈ s.buckets i := mem_of_nextEvent? hn
  have hi : i < s.nBuckets := h.hashed i next hnext ▸ h.hash_lt _
  have hmem : next ∈ m := by
    rw [h.mem_iff, h.hashed i next hnext]
    exact hnext
  refine h.setBucket hi (fun e he => ?_) (h.sorted i).pop ?_
  · exact h.hashed i e (hperm.mem_iff.2 (mem_cons_of_mem _ he))
  · rw [coe_eq_coe.2 hperm, ← cons_coe, add_cons, ← cons_add, cons_erase hmem]

end

/-! ## The search -/

section
variable {s : CalendarScheduler} {m : Multiset Event} {e next min : Event} {minBucket : Option Nat}

theorem mod_eq_iff_sub_mod {n d q j : Nat} (hd : d ≤ q) (hj : j < n) :
    q % n = (d + j) % n ↔ (q - d) % n = j := by
  obtain ⟨r, rfl⟩ := Nat.exists_eq_add_of_le hd
  rw [Nat.add_sub_cancel_left]
  constructor
  · intro h
    have hr : r % n = j % n := Nat.ModEq.add_left_cancel' d h
    rwa [Nat.mod_eq_of_lt hj] at hr
  · intro h
    have hr : r % n = j % n := h.trans (Nat.mod_eq_of_lt hj).symm
    exact Nat.ModEq.add_left d hr

theorem walk_done_iff {n d j : Nat} (hj : j < n) : (d + j + 1) % n = d % n ↔ j + 1 = n := by
  constructor
  · intro h
    have h0 : (j + 1) % n = 0 % n :=
      Nat.ModEq.add_left_cancel' d (by simpa [Nat.ModEq, add_assoc] using h)
    rw [Nat.zero_mod] at h0
    have hdvd := Nat.le_of_dvd (Nat.succ_pos j) (Nat.dvd_of_mod_eq_zero h0)
    omega
  · rintro h
    rw [add_assoc, h, Nat.add_mod_right]

/-- The bucket that an event is in, counted from the one of the last event taken out. -/
def turn (s : CalendarScheduler) (e : Event) : Nat :=
  (e.key.ts / s.width - s.lastPrio / s.width) % s.nBuckets

/-- The walk after `j` buckets: the events of these buckets are of a later year, and none is smaller
than the smallest one so far, which is that of a bucket (`init` where there was none). -/
structure Walked (s : CalendarScheduler) (m : Multiset Event) (init : Event) (j : Nat) (min : Event)
    (minBucket : Option Nat) : Prop where
  later : ∀ e ∈ m, s.turn e < j → s.lastPrio / s.width + s.nBuckets ≤ e.key.ts / s.width
  least : ∀ e ∈ m, s.turn e < j → min.key.rank ≤ e.key.rank
  bucket : (minBucket = none ∧ min = init ∧ ∀ e ∈ m, ¬ s.turn e < j) ∨
    ∃ i, minBucket = some i ∧ nextEvent? s.reverse (s.buckets i) = some min

/-- What the search has found. -/
def IsFound (s : CalendarScheduler) (m : Multiset Event) : Found → Prop
  | .inYear i top next => IsNext m next ∧ nextEvent? s.reverse (s.buckets i) = some next ∧
      i = s.hash next.key.ts ∧ top = (next.key.ts / s.width + 1) * s.width
  | .least min minBucket => IsNext m min ∧ ∃ i, minBucket = some i ∧
      nextEvent? s.reverse (s.buckets i) = some min

theorem Placed.hash_eq_iff (hpl : Placed s m) (he : e ∈ m) (hj : j < s.nBuckets) :
    s.hash e.key.ts = (s.lastPrio / s.width + j) % s.nBuckets ↔ s.turn e = j :=
  mod_eq_iff_sub_mod (Nat.div_le_div_right (hpl.notBelow e he)) hj

theorem Stored.turn_lt (hst : Stored s m) : s.turn e < s.nBuckets := Nat.mod_lt _ hst.nBuckets_pos

theorem Placed.turn_le (hpl : Placed s m) (he : e ∈ m) :
    s.lastPrio / s.width + s.turn e ≤ e.key.ts / s.width := by
  have hle : s.lastPrio / s.width ≤ e.key.ts / s.width :=
    Nat.div_le_div_right (hpl.notBelow e he)
  have := Nat.mod_le (e.key.ts / s.width - s.lastPrio / s.width) s.nBuckets
  unfold turn
  omega

theorem later_of_turn_lt (h : s.lastPrio / s.width + s.turn e < e.key.ts / s.width) :
    s.lastPrio / s.width + s.nBuckets ≤ e.key.ts / s.width := by
  have hdiv := Nat.mod_add_div (e.key.ts / s.width - s.lastPrio / s.width) s.nBuckets
  rw [← turn] at hdiv
  rcases Nat.eq_zero_or_pos
    ((e.key.ts / s.width - s.lastPrio / s.width) / s.nBuckets) with h0 | hpos
  · rw [h0, Nat.mul_zero] at hdiv
    omega
  · have := Nat.le_mul_of_pos_right s.nBuckets hpos
    omega

theorem Stored.next_le (hst : Stored s m) (hpl : Placed s m) (hj : j < s.nBuckets)
    (hn : nextEvent? s.reverse (s.buckets ((s.lastPrio / s.width + j) % s.nBuckets)) = some next)
    (he : e ∈ m) (hturn : s.turn e = j) : next.key.rank ≤ e.key.rank := by
  refine (hst.sorted _).next_le hn ?_
  rw [← (hpl.hash_eq_iff he hj).2 hturn]
  exact hst.mem_iff.1 he

theorem Stored.later (hst : Stored s m) (hpl : Placed s m) (hj : j < s.nBuckets)
    (hn : nextEvent? s.reverse (s.buckets ((s.lastPrio / s.width + j) % s.nBuckets)) = some next)
    (hlate : ¬ next.key.ts < (s.lastPrio / s.width + j + 1) * s.width) (he : e ∈ m)
    (hturn : s.turn e = j) : s.lastPrio / s.width + s.nBuckets ≤ e.key.ts / s.width := by
  refine later_of_turn_lt ?_
  rw [hturn]
  have hle := EventKey.ts_le (hst.next_le hpl hj hn he hturn)
  exact (Nat.le_div_iff_mul_le hst.width_pos).2 ((not_lt.1 hlate).trans hle)

variable {init : Event}

theorem Walked.isNext (hw : Walked s m init j min minBucket)
    (hst : Stored s m) (hpl : Placed s m) (hj : j < s.nBuckets)
    (hn : nextEvent? s.reverse (s.buckets ((s.lastPrio / s.width + j) % s.nBuckets)) = some next)
    (hday : next.key.ts < (s.lastPrio / s.width + j + 1) * s.width) :
    IsNext m next ∧ (s.lastPrio / s.width + j) % s.nBuckets = s.hash next.key.ts ∧
      s.lastPrio / s.width + j = next.key.ts / s.width := by
  have hbucket := mem_of_nextEvent? hn
  have hmem : next ∈ m := hst.mem_iff.2 (hst.hashed _ next hbucket ▸ hbucket)
  have hhash := hst.hashed _ next hbucket
  have hturn : s.turn next = j := (hpl.hash_eq_iff hmem hj).1 hhash
  have hle := hpl.turn_le hmem
  have hlt : next.key.ts / s.width < s.lastPrio / s.width + j + 1 :=
    (Nat.div_lt_iff_lt_mul hst.width_pos).2 hday
  have hdayEq : s.lastPrio / s.width + j = next.key.ts / s.width := by omega
  refine ⟨isNext_iff.2 ⟨hmem, fun e he => ?_⟩, hhash.symm, hdayEq⟩
  have hearlier : next.key.ts / s.width < e.key.ts / s.width → next.key.rank ≤ e.key.rank :=
    fun h => (EventKey.rank_lt_of_ts_lt (Nat.lt_of_div_lt_div h)).le
  rcases Nat.lt_trichotomy (s.turn e) j with hlt' | heq | hgt
  · have := hw.later e he hlt'
    exact hearlier (by omega)
  · exact hst.next_le hpl hj hn he heq
  · have := hpl.turn_le he
    exact hearlier (by omega)

theorem Walked.extend {init min' : Event} {minBucket' : Option Nat}
    (hw : Walked s m init j min minBucket)
    (hlater : ∀ e ∈ m, s.turn e = j → s.lastPrio / s.width + s.nBuckets ≤ e.key.ts / s.width)
    (hmin : min'.key.rank ≤ min.key.rank)
    (hleast : ∀ e ∈ m, s.turn e = j → min'.key.rank ≤ e.key.rank)
    (hbucket : (minBucket' = none ∧ min' = init ∧ ∀ e ∈ m, ¬ s.turn e < j + 1) ∨
      ∃ i, minBucket' = some i ∧ nextEvent? s.reverse (s.buckets i) = some min') :
    Walked s m init (j + 1) min' minBucket' where
  later := by
    intro e he hlt
    rcases Nat.lt_succ_iff_lt_or_eq.1 hlt with h | h
    · exact hw.later e he h
    · exact hlater e he h
  least := by
    intro e he hlt
    rcases Nat.lt_succ_iff_lt_or_eq.1 hlt with h | h
    · exact hmin.trans (hw.least e he h)
    · exact hleast e he h
  bucket := hbucket

theorem Walked.isFound (hw : Walked s m init s.nBuckets min minBucket)
    (hst : Stored s m) (hm : m ≠ 0) : IsFound s m (.least min minBucket) := by
  rcases hw.bucket with ⟨-, -, hnone⟩ | ⟨i, hi, hn⟩
  · obtain ⟨e, he⟩ := exists_mem_of_ne_zero hm
    exact absurd hst.turn_lt (hnone e he)
  · have hbucket := mem_of_nextEvent? hn
    have hmem : min ∈ m := hst.mem_iff.2 (hst.hashed i min hbucket ▸ hbucket)
    exact ⟨isNext_iff.2 ⟨hmem, fun e he => hw.least e he hst.turn_lt⟩, i, hi, hn⟩

theorem Fits.nextTop (hfit : Fits s m) (hpl : Placed s m) (hm : m ≠ 0) (hj : j ≤ s.nBuckets) :
    u64 ((s.lastPrio / s.width + j + 1) * s.width) = (s.lastPrio / s.width + j + 1) * s.width := by
  obtain ⟨e, he⟩ := exists_mem_of_ne_zero hm
  refine Nat.mod_eq_of_lt ?_
  have hday : s.lastPrio / s.width * s.width ≤ e.key.ts :=
    (Nat.div_mul_le_self _ _).trans (hpl.notBelow e he)
  have hyear : (j + 1) * s.width ≤ (s.nBuckets + 1) * s.width :=
    Nat.mul_le_mul_right _ (by omega)
  have := hfit e he
  calc (s.lastPrio / s.width + j + 1) * s.width
      = s.lastPrio / s.width * s.width + (j + 1) * s.width := by ring
    _ < 2 ^ 64 := by omega

/-- The walk, after `j` buckets, finds a smallest event. The induction is on the buckets that are
left. -/
theorem Walked.search (hst : Stored s m) (hpl : Placed s m) (hfit : Fits s m)
    (hm : m ≠ 0) (hinit : ∀ e ∈ m, e.key.rank < init.key.rank) (k : Nat) :
    ∀ {j : Nat} {min : Event} {minBucket : Option Nat}, j + k = s.nBuckets → k ≠ 0 →
      Walked s m init j min minBucket →
      IsFound s m (s.search k ((s.lastPrio / s.width + j) % s.nBuckets)
        ((s.lastPrio / s.width + j + 1) * s.width) min minBucket) := by
  induction k with
  | zero => exact fun _ h0 => absurd rfl h0
  | succ k ih =>
    intro j min minBucket hk _ hw
    have hj : j < s.nBuckets := by omega
    have hstep : ∀ {min' minBucket'}, Walked s m init (j + 1) min' minBucket' →
        IsFound s m (if ((s.lastPrio / s.width + j) % s.nBuckets + 1) % s.nBuckets =
        s.lastBucket then
          .least min' minBucket'
        else s.search k (((s.lastPrio / s.width + j) % s.nBuckets + 1) % s.nBuckets)
          (u64 ((s.lastPrio / s.width + j + 1) * s.width + s.width)) min' minBucket') := by
      intro min' minBucket' hw'
      have htop : (s.lastPrio / s.width + j + 1) * s.width + s.width
          = (s.lastPrio / s.width + (j + 1) + 1) * s.width := by ring
      rw [Nat.mod_add_mod, hpl.lastBucket, hash, htop, hfit.nextTop hpl hm hj]
      split
      · next hdone =>
        rw [(walk_done_iff hj).1 hdone] at hw'
        exact hw'.isFound hst hm
      · next hdone => exact ih (by omega) (fun h0 => hdone ((walk_done_iff hj).2 (by omega))) hw'
    rw [CalendarScheduler.search]
    cases hn : nextEvent? s.reverse (s.buckets ((s.lastPrio / s.width + j) % s.nBuckets)) with
    | none =>
      have hempty := nextEvent?_eq_none.1 hn
      have hnone : ∀ e ∈ m, s.turn e ≠ j := by
        intro e he hturn
        have := hst.mem_iff.1 he
        rw [(hpl.hash_eq_iff he hj).2 hturn, hempty] at this
        exact absurd this not_mem_nil
      refine hstep (hw.extend (fun e he h => absurd h (hnone e he)) le_rfl
        (fun e he h => absurd h (hnone e he)) (hw.bucket.imp_left fun h => ⟨h.1, h.2.1, ?_⟩))
      intro e he hlt
      exact (Nat.lt_succ_iff_lt_or_eq.1 hlt).elim (h.2.2 e he) (hnone e he)
    | some next =>
      dsimp only
      split
      · next hday =>
        obtain ⟨hnext, hhash, hdayEq⟩ := hw.isNext hst hpl hj hn hday
        exact ⟨hnext, hn, hhash, by rw [hdayEq]⟩
      · next hlate =>
        have hlater : ∀ e ∈ m, s.turn e = j →
            s.lastPrio / s.width + s.nBuckets ≤ e.key.ts / s.width :=
          fun e he => hst.later hpl hj hn hlate he
        have hle : ∀ e ∈ m, s.turn e = j → next.key.rank ≤ e.key.rank :=
          fun e he => hst.next_le hpl hj hn he
        split
        · next hless =>
          exact hstep (hw.extend hlater (EventKey.less_iff.1 hless).le hle (Or.inr ⟨_, rfl, hn⟩))
        · next hnot =>
          have hmin : min.key.rank ≤ next.key.rank :=
            not_lt.1 fun hlt => hnot (EventKey.less_iff.2 hlt)
          refine hstep (hw.extend hlater le_rfl (fun e he h => hmin.trans (hle e he h)) (Or.inr ?_))
          rcases hw.bucket with ⟨-, rfl, -⟩ | h
          · have hbucket := mem_of_nextEvent? hn
            have hmem : next ∈ m := hst.mem_iff.2 (hst.hashed _ next hbucket ▸ hbucket)
            exact absurd (hinit next hmem) (not_lt.2 hmin)
          · exact h

theorem search_spec (hst : Stored s m) (hpl : Placed s m) (hfit : Fits s m) (hm : m ≠ 0)
    (hinit : ∀ e ∈ m, e.key.rank < init.key.rank) :
    IsFound s m (s.search s.nBuckets s.lastBucket s.bucketTop init none) := by
  have hpos := hst.nBuckets_pos
  have hw : Walked s m init 0 init none :=
    ⟨fun _ _ h => absurd h (Nat.not_lt_zero _), fun _ _ h => absurd h (Nat.not_lt_zero _),
      Or.inl ⟨rfl, rfl, fun _ _ => Nat.not_lt_zero _⟩⟩
  have hfound := Walked.search hst hpl hfit hm hinit s.nBuckets (Nat.zero_add _) hpos.ne' hw
  rw [← hfit.nextTop hpl hm hpos.le] at hfound
  rw [hpl.lastBucket, hpl.bucketTop]
  exact hfound

theorem Fits.rank_lt (hfit : Fits s m) (hst : Stored s m)
    (hinit : init.key.ts = 2 ^ 64 - 1) : ∀ e ∈ m, e.key.rank < init.key.rank := by
  intro e he
  refine EventKey.rank_lt_of_ts_lt ?_
  have := hfit e he
  have := Nat.le_mul_of_pos_left s.width (show 0 < s.nBuckets + 1 by omega)
  have := hst.width_pos
  omega

end

/-! ## Taking events out and resizing -/

section
variable {s t u : CalendarScheduler} {m : Multiset Event} {ev : Event}

/-- The attributes of the year and the count of the events are the same. -/
structure SameYear (s t : CalendarScheduler) : Prop where
  nBuckets : t.nBuckets = s.nBuckets
  width : t.width = s.width
  reverse : t.reverse = s.reverse
  qSize : t.qSize = s.qSize

theorem SameYear.refl : SameYear s s := ⟨rfl, rfl, rfl, rfl⟩

theorem SameYear.trans (h : SameYear s t) (h' : SameYear t u) : SameYear s u :=
  ⟨h'.nBuckets.trans h.nBuckets, h'.width.trans h.width, h'.reverse.trans h.reverse,
    h'.qSize.trans h.qSize⟩

theorem SameYear.fits (h : SameYear s t) (hfit : Fits s m) (hm : m' ≤ m) : Fits t m' := by
  intro e he
  rw [h.nBuckets, h.width]
  exact hfit e (mem_of_le hm he)

theorem Fits.dayEnd (hfit : Fits s m) (hev : ev ∈ m) :
    u64 ((ev.key.ts / s.width + 1) * s.width) = (ev.key.ts / s.width + 1) * s.width := by
  refine Nat.mod_eq_of_lt ?_
  have hday : ev.key.ts / s.width * s.width ≤ ev.key.ts := Nat.div_mul_le_self _ _
  have := hfit ev hev
  have := Nat.le_mul_of_pos_left s.width (show 0 < s.nBuckets + 1 by omega)
  rw [Nat.add_mul, Nat.one_mul]
  omega

theorem doRemoveNext_spec (hst : Stored s m) (hpl : Placed s m) (hfit : Fits s m) (hm : m ≠ 0)
    (hsize : s.qSize ≠ 0) :
    ∃ ev t, s.doRemoveNext = some (ev, t) ∧ IsNext m ev ∧ Stored t (m.erase ev) ∧
      Placed t (m.erase ev) ∧ t.lastPrio = ev.key.ts ∧ SameYear s t := by
  have hfirst : ∀ e ∈ m, e.key.rank < (⟨0, maxKey⟩ : Event).key.rank := hfit.rank_lt hst rfl
  have hfound := search_spec hst hpl hfit hm hfirst
  have hnotBelow : ∀ {ev}, IsNext m ev → ∀ e ∈ m.erase ev, ev.key.ts ≤ e.key.ts := by
    intro ev hnext e he
    exact EventKey.ts_le ((isNext_iff.1 hnext).2 e (mem_of_mem_erase he))
  rw [doRemoveNext, isEmpty, if_neg (by simpa using hsize)]
  cases hres : s.search s.nBuckets s.lastBucket s.bucketTop ⟨0, maxKey⟩ none with
  | inYear i top next =>
    rw [hres] at hfound
    obtain ⟨hnext, hn, hi, htop⟩ := hfound
    refine ⟨_, _, rfl, hnext, (hst.pop hn).congr rfl rfl rfl rfl, ⟨hi, ?_, hnotBelow hnext⟩, rfl,
      ⟨rfl, rfl, rfl, rfl⟩⟩
    exact htop.trans (hfit.dayEnd hnext.1).symm
  | least min minBucket =>
    rw [hres] at hfound
    obtain ⟨hnext, i, hi, hn⟩ := hfound
    refine ⟨min,
      { s with
        lastPrio := min.key.ts
        lastBucket := s.hash min.key.ts
        bucketTop := u64 ((min.key.ts / s.width + 1) * s.width)
        buckets := update s.buckets i (CalendarScheduler.pop s.reverse (s.buckets i)) },
      ?_, hnext, (hst.pop hn).congr rfl rfl rfl rfl, ⟨rfl, rfl, hnotBelow hnext⟩, rfl,
      ⟨rfl, rfl, rfl, rfl⟩⟩
    dsimp only
    rw [hi, bind_eq_bind, bind_some, hn, bind_eq_bind, bind_some]
    rfl

theorem peekNext_spec (hst : Stored s m) (hpl : Placed s m) (hfit : Fits s m) (hm : m ≠ 0)
    (hsize : s.qSize ≠ 0) : ∃ ev, s.peekNext = some ev ∧ IsNext m ev := by
  have hfirst : ∀ e ∈ m, e.key.rank < maxEvent.key.rank := hfit.rank_lt hst rfl
  have hfound := search_spec hst hpl hfit hm hfirst
  rw [peekNext, isEmpty, if_neg (by simpa using hsize)]
  cases hres : s.search s.nBuckets s.lastBucket s.bucketTop maxEvent none with
  | inYear i top next =>
    rw [hres] at hfound
    exact ⟨next, rfl, hfound.1⟩
  | least min minBucket =>
    rw [hres] at hfound
    exact ⟨min, rfl, hfound.1⟩

/-- Events that do not come earlier one after the other. -/
def InTime (samples : List Event) : Prop := samples.Pairwise fun a b => a.key.ts ≤ b.key.ts

theorem gather_spec (n : Nat) :
    ∀ {s : CalendarScheduler} {m : Multiset Event}, Stored s m → Placed s m → Fits s m →
      n ≤ m.card → s.qSize ≠ 0 →
      ∃ samples t rest, gather n s = some (samples, t) ∧ samples.length = n ∧ InTime samples ∧
        (samples : Multiset Event) + rest = m ∧ Stored t rest ∧ SameYear s t := by
  induction n with
  | zero =>
    intro s m hst _ _ _ _
    exact ⟨[], s, m, rfl, rfl, .nil, by simp, hst, .refl⟩
  | succ n ih =>
    intro s m hst hpl hfit hn hsize
    have hm : m ≠ 0 := by
      rintro rfl
      simp at hn
    obtain ⟨ev, t, hrem, hnext, hst', hpl', -, hsame⟩ := doRemoveNext_spec hst hpl hfit hm hsize
    have hcard : (m.erase ev).card = m.card - 1 := card_erase_of_mem hnext.1
    obtain ⟨samples, u, rest, hgather, hlen, htime, hsum, hst'', hsame'⟩ :=
      ih hst' hpl' (hsame.fits hfit (erase_le _ _)) (by omega) (by rw [hsame.qSize]; exact hsize)
    refine ⟨ev :: samples, u, rest, ?_, congrArg (· + 1) hlen, ?_, ?_, hst'', hsame.trans hsame'⟩
    · rw [gather, hrem, bind_eq_bind, bind_some]
      dsimp only
      rw [hgather]
      rfl
    · refine pairwise_cons.2 ⟨fun e he => ?_, htime⟩
      have he' : e ∈ m.erase ev := hsum ▸ mem_add.2 (Or.inl he)
      exact EventKey.ts_le ((isNext_iff.1 hnext).2 e (mem_of_mem_erase he'))
    · rw [← cons_coe, cons_add, hsum, cons_erase hnext.1]

theorem nSamples_le : s.nSamples ≤ s.qSize := by
  simp only [nSamples]
  split_ifs <;> omega

theorem widthOf_pos (samples : List Event) : 0 < widthOf samples :=
  Nat.lt_of_lt_of_le Nat.zero_lt_one (Nat.le_max_right _ _)

theorem calculateNewWidth_spec (hst : Stored s m) (hpl : Placed s m) (hfit : Fits s m)
    (hsize : s.qSize = m.card) :
    ∃ width t, s.calculateNewWidth = some (width, t) ∧ Stored t m ∧ SameYear s t ∧
      t.lastPrio = s.lastPrio ∧
      (width = 1 ∨ ∃ samples : List Event, width = widthOf samples ∧ InTime samples ∧
        ∀ e ∈ samples, e ∈ m) := by
  rw [calculateNewWidth]
  split
  · exact ⟨1, s, rfl, hst, .refl, rfl, Or.inl rfl⟩
  · next h2 =>
    obtain ⟨samples, t, rest, hgather, -, htime, hsum, hst', hsame⟩ :=
      gather_spec s.nSamples hst hpl hfit (hsize ▸ nSamples_le) (by omega)
    have hput := hst'.foldl_doInsert (l := samples)
    obtain ⟨hn, hw, hr, hq, -⟩ := foldl_doInsert_fields samples t
    rw [hsum] at hput
    refine ⟨widthOf samples,
      { samples.foldl CalendarScheduler.doInsert t with
        lastBucket := s.lastBucket, bucketTop := s.bucketTop, lastPrio := s.lastPrio },
      by rw [hgather]; rfl, hput.congr rfl rfl rfl rfl,
      ⟨hn.trans hsame.nBuckets, hw.trans hsame.width, hr.trans hsame.reverse, hq.trans hsame.qSize⟩,
      rfl, Or.inr ⟨samples, rfl, htime, fun e he => ?_⟩⟩
    exact hsum ▸ mem_add.2 (Or.inl he)

theorem coe_flatMap_buckets (n : Nat) (buckets : Nat → List Event) :
    (((List.range n).flatMap buckets : List Event) : Multiset Event)
      = ∑ i ∈ Finset.range n, (buckets i : Multiset Event) := by
  induction n with
  | zero => rfl
  | succ n ih =>
    rw [List.range_succ, List.flatMap_append, ← coe_add, ih, Finset.sum_range_succ]
    simp

theorem doResize_spec {newSize newWidth : Nat} (hst : Stored s m)
    (hnotBelow : ∀ e ∈ m, s.lastPrio ≤ e.key.ts) (hn : 0 < newSize) (hw : 0 < newWidth) :
    Stored (s.doResize newSize newWidth) m ∧ Placed (s.doResize newSize newWidth) m ∧
      (s.doResize newSize newWidth).qSize = s.qSize ∧
      (s.doResize newSize newWidth).lastPrio = s.lastPrio ∧
      (s.doResize newSize newWidth).nBuckets = newSize ∧
      (s.doResize newSize newWidth).width = newWidth := by
  have hempty : Stored (s.init newSize newWidth s.lastPrio) 0 := by
    refine ⟨hn, hw, nofun, fun _ => .nil, ?_⟩
    exact sum_eq_zero fun _ _ => rfl
  have hput := hempty.foldl_doInsert (l := (List.range s.nBuckets).flatMap s.buckets)
  obtain ⟨hn', hw', -, hq, hb, ht, hl⟩ := foldl_doInsert_fields
    ((List.range s.nBuckets).flatMap s.buckets) (s.init newSize newWidth s.lastPrio)
  rw [coe_flatMap_buckets, hst.events, add_zero] at hput
  refine ⟨hput, ⟨?_, ?_, ?_⟩, hq, hl, hn', hw'⟩
  · rw [doResize, hb, hl, hash, hn', hw']
    rfl
  · rw [doResize, ht, hl, hw']
    rfl
  · rw [doResize, hl]
    exact hnotBelow

end

/-! ## Calls -/

section
variable {s t : CalendarScheduler} {m : Multiset Event} {ev e : Event}

/-- The events in the calendar. -/
def stored (s : CalendarScheduler) : Multiset Event :=
  ∑ i ∈ Finset.range s.nBuckets, (s.buckets i : Multiset Event)

/-- The calendar holds the events `m`, counts them and searches from the last time. -/
structure Inv (s : CalendarScheduler) (m : Multiset Event) : Prop where
  stored : Stored s m
  placed : Placed s m
  size : s.qSize = m.card

/-- What a resize can do to the year: the number of buckets is doubled below 32768 or halved, and
the width becomes 1 or is computed from samples. -/
structure Resized (s : CalendarScheduler) (m : Multiset Event) (t : CalendarScheduler) : Prop where
  nBuckets : t.nBuckets = s.nBuckets ∨ (t.nBuckets = s.nBuckets * 2 ∧ s.nBuckets < 32768) ∨
    (t.nBuckets = s.nBuckets / 2 ∧ 0 < s.nBuckets / 2)
  width : t.width = s.width ∨ t.width = 1 ∨ ∃ samples : List Event, t.width = widthOf samples ∧
    InTime samples ∧ ∀ e ∈ samples, e ∈ m

section
variable (hinv : Inv s m)
include hinv

theorem Inv.resize (hfit : Fits s m) {newSize : Nat} (hn : 0 < newSize) :
    ∃ t, s.resize newSize = some t ∧ Inv t m ∧ t.lastPrio = s.lastPrio ∧ t.nBuckets = newSize ∧
      (t.width = 1 ∨ ∃ samples : List Event, t.width = widthOf samples ∧ InTime samples ∧
        ∀ e ∈ samples, e ∈ m) := by
  obtain ⟨width, t, hcalc, hst, hsame, hlast, hwidth⟩ :=
    calculateNewWidth_spec hinv.stored hinv.placed hfit hinv.size
  have hw : 0 < width := by
    rcases hwidth with rfl | ⟨samples, rfl, -⟩
    · exact Nat.zero_lt_one
    · exact widthOf_pos samples
  obtain ⟨hst', hpl', hq, hl, hn', hw'⟩ :=
    doResize_spec hst (by rw [hlast]; exact hinv.placed.notBelow) hn hw
  refine ⟨_, by rw [CalendarScheduler.resize, hcalc]; rfl, ⟨hst', hpl', ?_⟩, hl.trans hlast, hn',
    ?_⟩
  · rw [hq, hsame.qSize, hinv.size]
  · rw [hw']
    exact hwidth

theorem Inv.resizeUp (hfit : Fits s m) :
    ∃ t, s.resizeUp = some t ∧ Inv t m ∧ t.lastPrio = s.lastPrio ∧ Resized s m t := by
  rw [CalendarScheduler.resizeUp]
  split
  · next hup =>
    have hpos := hinv.stored.nBuckets_pos
    have hn2 : 0 < s.nBuckets * 2 := by omega
    obtain ⟨t, ht, hinv', hlast, hn, hw⟩ := hinv.resize hfit hn2
    exact ⟨t, ht, hinv', hlast, Or.inr (Or.inl ⟨hn, hup.2⟩), Or.inr hw⟩
  · exact ⟨s, rfl, hinv, rfl, Or.inl rfl, Or.inl rfl⟩

theorem Inv.resizeDown (hfit : Fits s m) :
    ∃ t, s.resizeDown = some t ∧ Inv t m ∧ t.lastPrio = s.lastPrio ∧ Resized s m t := by
  rw [CalendarScheduler.resizeDown]
  split
  · next hdown =>
    have hn2 : 0 < s.nBuckets / 2 := by omega
    obtain ⟨t, ht, hinv', hlast, hn, hw⟩ := hinv.resize hfit hn2
    exact ⟨t, ht, hinv', hlast, Or.inr (Or.inr ⟨hn, hn2⟩), Or.inr hw⟩
  · exact ⟨s, rfl, hinv, rfl, Or.inl rfl, Or.inl rfl⟩

theorem Inv.insert (hfit : Fits s (ev ::ₘ m)) (hev : s.lastPrio ≤ ev.key.ts) :
    ∃ t, s.insert ev = some t ∧ Inv t (ev ::ₘ m) ∧ t.lastPrio = s.lastPrio ∧
      Resized s (ev ::ₘ m) t := by
  have hput : Inv { s.doInsert ev with qSize := s.qSize + 1 } (ev ::ₘ m) := by
    refine ⟨(hinv.stored.doInsert ev).congr rfl rfl rfl rfl,
      ⟨hinv.placed.lastBucket, hinv.placed.bucketTop, fun e he => ?_⟩, ?_⟩
    · rcases mem_cons.1 he with rfl | he
      · exact hev
      · exact hinv.placed.notBelow e he
    · rw [Multiset.card_cons, ← hinv.size]
  obtain ⟨t, ht, hinv', hlast, hres⟩ := hput.resizeUp hfit
  exact ⟨t, ht, hinv', hlast, hres.nBuckets, hres.width⟩

theorem Inv.removeNext (hfit : Fits s m) (hm : m ≠ 0) :
    ∃ ev t, s.removeNext = some (ev, t) ∧ IsNext m ev ∧ Inv t (m.erase ev) ∧
      t.lastPrio = ev.key.ts ∧ Resized s (m.erase ev) t := by
  have hcard : 0 < m.card := card_pos.2 hm
  obtain ⟨ev, t, hrem, hnext, hst, hpl, hlast, hsame⟩ :=
    doRemoveNext_spec hinv.stored hinv.placed hfit hm (by rw [hinv.size]; omega)
  have hput : Inv { t with qSize := t.qSize - 1 } (m.erase ev) := by
    refine ⟨hst.congr rfl rfl rfl rfl, ⟨hpl.lastBucket, hpl.bucketTop, hpl.notBelow⟩, ?_⟩
    rw [card_erase_of_mem hnext.1, hsame.qSize, hinv.size]
    rfl
  have hfit' : Fits { t with qSize := t.qSize - 1 } (m.erase ev) :=
    hsame.fits hfit (erase_le _ _)
  obtain ⟨u, hu, hinv', hlast', hres⟩ := hput.resizeDown hfit'
  refine ⟨ev, u, ?_, hnext, hinv', hlast'.trans hlast, ?_, ?_⟩
  · rw [CalendarScheduler.removeNext, hrem, bind_eq_bind, bind_some]
    dsimp only
    rw [hu]
    rfl
  · rw [← hsame.nBuckets]
    exact hres.nBuckets
  · rw [← hsame.width]
    exact hres.width

end

/-- The loop of `Remove` stops at the event, when uids differ. -/
theorem Stored.findIn (h : Stored s m) (huids : UidsDiffer m) (hev : ev ∈ m) :
    findIn ev.key.uid (s.buckets (s.hash ev.key.ts)) = some ev := by
  cases hfind : CalendarScheduler.findIn ev.key.uid (s.buckets (s.hash ev.key.ts)) with
  | none => exact absurd (find?_eq_none.1 hfind ev (h.mem_iff.1 hev)) (by simp)
  | some e =>
    have he : e ∈ s.buckets (s.hash ev.key.ts) := mem_of_find?_eq_some hfind
    have hem : e ∈ m := h.mem_iff.2 (by rwa [h.hashed _ e he])
    have huid : e.key.uid = ev.key.uid := by simpa using find?_some hfind
    rw [huids.unique hem hev huid]

/-- `Remove` takes the event away that its loop stops at. -/
theorem Inv.remove (hinv : Inv s m) (hfit : Fits s m) (hev : ev ∈ m)
    (hfind : findIn ev.key.uid (s.buckets (s.hash ev.key.ts)) = some ev) :
    ∃ t, s.remove ev = some t ∧ Inv t (m.erase ev) ∧ t.lastPrio = s.lastPrio ∧
      Resized s (m.erase ev) t := by
  have hcard : 0 < m.card := card_pos.2 fun h0 => by simp [h0] at hev
  obtain ⟨huid, before, after, hbucket, hbefore⟩ := find?_eq_some_iff_append.1 hfind
  have herase : (s.buckets (s.hash ev.key.ts)).eraseP (fun e => e.key.uid == ev.key.uid)
      = before ++ after := by
    rw [hbucket, eraseP_append_right _ (by simpa using hbefore),
      eraseP_cons_of_pos (p := fun e : Event => e.key.uid == ev.key.uid) huid]
  have hsub : (before ++ after).Sublist (s.buckets (s.hash ev.key.ts)) := by
    rw [hbucket]
    exact (Sublist.refl before).append (sublist_cons_self ev after)
  have hsum : m.erase ev + (s.buckets (s.hash ev.key.ts) : Multiset Event)
      = m + (before ++ after : List Event) := by
    rw [hbucket, coe_eq_coe.2 perm_middle, ← cons_coe, add_cons, ← cons_add, cons_erase hev]
  have hst := hinv.stored.setBucket (hinv.stored.hash_lt ev.key.ts)
    (fun e he => hinv.stored.hashed _ e (hsub.subset he))
    (Pairwise.sublist hsub (hinv.stored.sorted _)) hsum
  have hput : Inv { s.setBucket (s.hash ev.key.ts) (before ++ after) with qSize := s.qSize - 1 }
      (m.erase ev) := by
    refine ⟨hst.congr rfl rfl rfl rfl,
      ⟨hinv.placed.lastBucket, hinv.placed.bucketTop, fun e he => ?_⟩, ?_⟩
    · exact hinv.placed.notBelow e (mem_of_mem_erase he)
    · rw [card_erase_of_mem hev, hinv.size]
      rfl
  obtain ⟨t, ht, hinv', hlast, hres⟩ :=
    hput.resizeDown fun e he => hfit e (mem_of_mem_erase he)
  refine ⟨t, ?_, hinv', hlast, hres.nBuckets, hres.width⟩
  have hsize : s.qSize ≠ 0 := by
    rw [hinv.size]
    omega
  rw [CalendarScheduler.remove, isEmpty, if_neg (by simpa using hsize)]
  dsimp only
  rw [hfind, bind_some, if_pos rfl, herase, ht]

end

/-! ## Runs -/

variable (w : CalendarScheduler × Multiset Event)

/-- The calls that a caller may make: an event is not earlier than the last one taken out, and the
ends of days fit into 64 bits. -/
def CallFits : Call → Prop
  | .insert ev => w.1.lastPrio ≤ ev.key.ts ∧ Fits w.1 (ev ::ₘ w.2)
  | .remove _ | .removeNext => Fits w.1 w.2

/-- The same calls, where keys are pairwise distinct and only what is there is taken away. -/
def CallOk (c : Call) : Prop :=
  AdmitsDistinct w.2 c ∧ CallFits w c

/-- The calendar holds and counts the events `w.2`, its next event is a smallest one, every call
does what it is for, and `m_lastPrio` is the time of the last event that `RemoveNext` returned. -/
structure Refines : Prop where
  stored : w.1.stored = w.2
  size : w.1.qSize = w.2.card
  peek : w.2 ≠ 0 → Fits w.1 w.2 → ∃ ev, w.1.peekNext = some ev ∧ IsNext w.2 ev
  step : ∀ c, CallOk w c → ∃ t r, w.1.call c = some (t, r) ∧ SetStep w.2 c r t.stored ∧
    t.lastPrio = (r.map fun ev => ev.key.ts).getD w.1.lastPrio

section
variable {s : CalendarScheduler} {m : Multiset Event} {c : Call}

theorem inv_new : Inv (new reverse) 0 := by
  refine ⟨⟨Nat.two_pos, Nat.one_pos, nofun, fun _ => .nil, ?_⟩, ⟨rfl, rfl, nofun⟩, rfl⟩
  exact sum_eq_zero fun _ _ => rfl

theorem Inv.call (hinv : Inv s m) (huids : UidsDiffer m) (hok : CallOk (s, m) c) :
    ∃ t r, s.call c = some (t, r) ∧ SetStep m c r (remaining m c r) ∧ Inv t (remaining m c r) ∧
      t.lastPrio = (r.map fun ev => ev.key.ts).getD s.lastPrio ∧ ∃ m', Resized s m' t ∧
        ∀ e ∈ m', e ∈ m ∨ c = .insert e := by
  obtain ⟨hadm, hfit⟩ := hok
  cases c with
  | insert ev =>
    obtain ⟨t, ht, hinv', hlast, hres⟩ := hinv.insert hfit.2 hfit.1
    refine ⟨t, none, by rw [CalendarScheduler.call, ht]; rfl, .insert ev, hinv', hlast, _, hres, ?_⟩
    intro e he
    exact (mem_cons.1 he).symm.imp id fun h => congrArg Call.insert h.symm
  | remove ev =>
    obtain ⟨t, ht, hinv', hlast, hres⟩ := hinv.remove hfit hadm (hinv.stored.findIn huids hadm)
    exact ⟨t, none, by rw [CalendarScheduler.call, ht]; rfl, .remove ev hadm, hinv', hlast, _, hres,
      fun e he => Or.inl (mem_of_mem_erase he)⟩
  | removeNext =>
    obtain ⟨ev, t, ht, hnext, hinv', hlast, hres⟩ := hinv.removeNext hfit hadm
    exact ⟨t, some ev, by rw [CalendarScheduler.call, ht]; rfl, .removeNext ev hnext, hinv', hlast,
      _, hres, fun e he => Or.inl (mem_of_mem_erase he)⟩

theorem Inv.refines (hinv : Inv s m) (huids : UidsDiffer m) : Refines (s, m) where
  stored := hinv.stored.events
  size := hinv.size
  peek := by
    intro hm hfit
    have hcard : 0 < m.card := card_pos.2 hm
    exact peekNext_spec hinv.stored hinv.placed hfit hm (by rw [hinv.size]; omega)
  step := by
    intro c hok
    obtain ⟨t, r, hcall, hset, hinv', hlast, -⟩ := hinv.call huids hok
    refine ⟨t, r, hcall, ?_, hlast⟩
    rw [CalendarScheduler.stored, hinv'.stored.events]
    exact hset

end

theorem Inv.step {w w' : CalendarScheduler × Multiset Event} {c : Call} (hinv : Inv w.1 w.2)
    (huids : UidsDiffer w.2) (hok : CallOk w c) (hstep : CallStep CalendarScheduler.call w c w') :
    (Inv w'.1 w'.2 ∧ UidsDiffer w'.2) ∧
      ∃ m', Resized w.1 m' w'.1 ∧ ∀ e ∈ m', e ∈ w.2 ∨ c = .insert e := by
  obtain ⟨t, r, hcall, hset, hinv', -, hres⟩ := hinv.call huids hok
  have hw : some (t, remaining w.2 c r) = some w' := by
    rw [← show call? CalendarScheduler.call w c = some w' from hstep, call?]
    simp [hcall]
  cases hw
  exact ⟨⟨hinv', huids.step hset hok.1⟩, hres⟩

/-- In every run, for either order of the buckets, the calendar is the sorted set of what was
inserted and not yet taken away. -/
theorem calendarRefines_of_run {reverse : Bool} {w : CalendarScheduler × Multiset Event}
    (hrun : Lts.Run (CallStep CalendarScheduler.call) CallOk (new reverse, 0) w) : Refines w := by
  have hnew : UidsDiffer 0 := nodup_zero
  obtain ⟨hinv, huids⟩ := Lts.Run.invariant (I := fun w => Inv w.1 w.2 ∧ UidsDiffer w.2)
    (fun h hok hstep => (h.1.step h.2 hok hstep).1) ⟨inv_new reverse, hnew⟩ hrun
  exact hinv.refines huids

instance : DecidablePred (CallFits w)
  | .insert _ => inferInstanceAs (Decidable (_ ∧ _))
  | .remove _ | .removeNext => inferInstanceAs (Decidable (Fits w.1 w.2))

instance (c : Call) : Decidable (CallOk w c) :=
  inferInstanceAs (Decidable (_ ∧ _))

/-- A run that grows to four buckets and shrinks again. -/
theorem calendarRefines_example : ∃ w, w.1.nBuckets = 1 ∧ w.2 = 0 ∧ Refines w := by
  have hexec : (Lts.execs CallOk (call? CalendarScheduler.call) (new true, 0)
      (insertions [40, 7, 500, 9, 7] ++ [.remove (eventAt 500 6), .removeNext, .removeNext,
        .insert (eventAt 7 10), .removeNext, .removeNext, .removeNext])).map
        (fun w => (w.1.nBuckets, w.2)) = some (1, 0) := by decide +kernel
  obtain ⟨w, hw, hm⟩ := map_eq_some_iff.1 hexec
  obtain ⟨hn, hevents⟩ := Prod.mk.inj hm
  exact ⟨w, hn, hevents, calendarRefines_of_run (Lts.run_of_execs id hw)⟩

/-! ## A bound of the time stamps -/

section
variable {s t : CalendarScheduler} {m : Multiset Event}

theorem sum_separations {T : Nat} (hT : T < 2 ^ 64) :
    ∀ {samples : List Event} {a : Event}, InTime (a :: samples) →
      (∀ e ∈ a :: samples, e.key.ts ≤ T) → (separations (a :: samples)).sum + a.key.ts ≤ T
  | [], a, _, hle => by simpa [separations] using hle a mem_cons_self
  | b :: samples, a, htime, hle => by
    obtain ⟨hab, htime'⟩ := pairwise_cons.1 htime
    have hrest := sum_separations hT htime' fun e he => hle e (mem_cons_of_mem a he)
    have hb : a.key.ts ≤ b.key.ts := hab b mem_cons_self
    have hbT : b.key.ts ≤ T := hle b (mem_cons_of_mem a mem_cons_self)
    have hsep : u64 (2 ^ 64 + b.key.ts - a.key.ts) = b.key.ts - a.key.ts := by
      unfold u64
      omega
    have hsplit : separations (a :: b :: samples)
        = (b.key.ts - a.key.ts) :: separations (b :: samples) := by
      rw [← hsep]
      rfl
    rw [hsplit, List.sum_cons]
    omega

theorem widthOf_le {T : Nat} (hT : T < 2 ^ 64) {samples : List Event} (htime : InTime samples)
    (hle : ∀ e ∈ samples, e.key.ts ≤ T) : widthOf samples ≤ max (T * 3) 1 := by
  have hsum : (separations samples).sum ≤ T := by
    cases samples with
    | nil => exact Nat.zero_le T
    | cons a samples =>
      have := sum_separations hT htime hle
      omega
  have hfilter : ∀ p : Nat → Bool, ((separations samples).filter p).sum ≤ T := fun p =>
    (Sublist.sum_le_sum filter_sublist fun _ _ => Nat.zero_le _).trans hsum
  refine max_le_max ((Nat.mod_le _ _).trans (Nat.mul_le_mul_right 3 ?_)) le_rfl
  exact (Nat.mod_le _ _).trans (hfilter _)

/-- A calendar whose time stamps were below `2 ^ 47`. -/
structure Small (s : CalendarScheduler) (m : Multiset Event) : Prop where
  nBuckets : ∃ k ≤ 15, s.nBuckets = 2 ^ k
  width : s.width ≤ 3 * 2 ^ 47
  times : ∀ e ∈ m, e.key.ts < 2 ^ 47

theorem Small.fits (h : Small s m) (hm : ∀ e ∈ m', e.key.ts < 2 ^ 47) : Fits s m' := by
  intro e he
  obtain ⟨k, hk, hn⟩ := h.nBuckets
  have hle : s.nBuckets ≤ 2 ^ 15 := hn ▸ Nat.pow_le_pow_right (by decide) hk
  have hyear : (s.nBuckets + 1) * s.width ≤ (2 ^ 15 + 1) * (3 * 2 ^ 47) :=
    Nat.mul_le_mul (by omega) h.width
  have := hm e he
  omega

theorem Small.resized (h : Small s m) {m' m'' : Multiset Event} (hres : Resized s m' t)
    (hm : ∀ e ∈ m', e.key.ts < 2 ^ 47) (hm' : ∀ e ∈ m'', e.key.ts < 2 ^ 47) : Small t m'' where
  nBuckets := by
    obtain ⟨k, hk, hn⟩ := h.nBuckets
    rcases hres.nBuckets with heq | ⟨heq, hlt⟩ | ⟨heq, hpos⟩
    · exact ⟨k, hk, heq.trans hn⟩
    · have hk' : k < 15 := by
        have hlt' : 2 ^ k < 2 ^ 15 := hn ▸ hlt
        exact (Nat.pow_lt_pow_iff_right (by decide)).1 hlt'
      exact ⟨k + 1, hk', by rw [heq, hn, Nat.pow_succ]⟩
    · cases k with
      | zero =>
        rw [hn] at hpos
        exact absurd hpos (by decide)
      | succ k => exact ⟨k, by omega, by rw [heq, hn, Nat.pow_succ,
          Nat.mul_div_cancel _ Nat.two_pos]⟩
  width := by
    rcases hres.width with heq | heq | ⟨samples, heq, htime, hmem⟩
    · exact heq ▸ h.width
    · rw [heq]
      decide
    · have hle := widthOf_le (T := 2 ^ 47) (by decide) htime fun e he => (hm e (hmem e he)).le
      rw [heq]
      exact hle.trans (by decide)
  times := hm'

end

/-- The calls with time stamps below `2 ^ 47`. -/
def CallSmall (c : Call) : Prop :=
  AdmitsDistinct w.2 c ∧ ∀ ev, c = .insert ev → w.1.lastPrio ≤ ev.key.ts ∧ ev.key.ts < 2 ^ 47

section
variable {w w' : CalendarScheduler × Multiset Event} {c : Call}

theorem small_new : Small (new reverse) 0 where
  nBuckets := ⟨1, by decide, rfl⟩
  width := show 1 ≤ 3 * 2 ^ 47 by decide
  times := fun e he => absurd he (notMem_zero e)

/-- The ends of days fit into 64 bits. -/
theorem Small.callOk (h : Small w.1 w.2) (hc : CallSmall w c) : CallOk w c := by
  obtain ⟨hadm, hins⟩ := hc
  refine ⟨hadm, ?_⟩
  cases c with
  | insert ev =>
    refine ⟨(hins ev rfl).1, h.fits fun e he => ?_⟩
    rcases mem_cons.1 he with rfl | he
    · exact (hins e rfl).2
    · exact h.times e he
  | remove ev => exact h.fits h.times
  | removeNext => exact h.fits h.times

theorem Small.step (h : Small w.1 w.2) (hinv : Inv w.1 w.2) (huids : UidsDiffer w.2)
    (hc : CallSmall w c) (hstep : CallStep CalendarScheduler.call w c w') : Small w'.1 w'.2 := by
  obtain ⟨-, m', hres, hmem⟩ := hinv.step huids (h.callOk hc) hstep
  have htimes : ∀ e, e ∈ w.2 ∨ c = .insert e → e.key.ts < 2 ^ 47 := by
    rintro e (he | he)
    · exact h.times e he
    · exact (hc.2 e he).2
  obtain ⟨r, -, rfl⟩ := map_eq_some_iff.1 hstep
  exact h.resized hres (fun e he => htimes e (hmem e he)) fun e he => htimes e (mem_remaining he)

end

end OranNs3.Sim.CalendarScheduler
