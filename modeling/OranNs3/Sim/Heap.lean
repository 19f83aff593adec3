import OranNs3.Lib.BinaryHeap
import OranNs3.Lib.Run
import OranNs3.Sim.Scheduler

/-!
# HeapScheduler

The events in a binary heap (`src/src/core/model/heap-scheduler.cc`), whose first slot is not used.
An assertion that fails stops the program (`none`).

`Remove` puts the last leaf into the slot of the event it removes and moves it down only. Where the
leaf is smaller than the parent of the slot, which happens when the two are in different branches,
the heap order is lost (`remove_ordered_iff`). In every run without such a removal the heap is the
sorted set of its events (`heapRefines_of_run`); one such removal makes a later `RemoveNext` return
an event out of order (`remove_out_of_order`).
-/

namespace OranNs3.Sim

open List Multiset Option

/-- `HeapScheduler`. -/
structure HeapScheduler where
  heap : Array Event
deriving DecidableEq

namespace HeapScheduler

/-- The item that is wasted at the start of the array. -/
def empty : Event := ⟨0, 0, 0, 0⟩

/-- The constructor. -/
def new : HeapScheduler := ⟨#[empty]⟩

/-- The event in a slot. -/
def slot (h : HeapScheduler) (i : Nat) : Event := h.heap.getD i empty

def parent (id : Nat) : Nat := id / 2

def leftChild (id : Nat) : Nat := id * 2

def rightChild (id : Nat) : Nat := id * 2 + 1

def root : Nat := 1

def last (h : HeapScheduler) : Nat := h.heap.size - 1

def IsBottom (h : HeapScheduler) (id : Nat) : Prop := h.heap.size ≤ id
deriving Decidable

def IsLessStrictly (h : HeapScheduler) (a b : Nat) : Prop := (h.slot a).key.Less (h.slot b).key
deriving Decidable

def smallest (h : HeapScheduler) (a b : Nat) : Nat := if h.IsLessStrictly a b then a else b

def exch (h : HeapScheduler) (a b : Nat) : HeapScheduler := ⟨h.heap.swapIfInBounds a b⟩

/-- `pop_back` of the array. -/
def popBack (h : HeapScheduler) : HeapScheduler := ⟨h.heap.pop⟩

theorem parent_lt {h : HeapScheduler} {index : Nat} (hi : h.IsLessStrictly index (parent index)) :
    parent index < index := by
  have h0 : index ≠ 0 := by
    rintro rfl
    exact absurd (EventKey.less_iff.1 hi) (lt_irrefl _)
  exact Nat.div_lt_self (Nat.pos_of_ne_zero h0) (by decide)

theorem lt_smallest {h : HeapScheduler} {index : Nat} (hi : 0 < index) :
    index < h.smallest (leftChild index) (rightChild index) := by
  unfold smallest leftChild rightChild
  split <;> omega

/-- The loop of `BottomUp`. -/
def bottomUpFrom (h : HeapScheduler) (index : Nat) : HeapScheduler :=
  if index ≠ root ∧ h.IsLessStrictly index (parent index) then
    bottomUpFrom (h.exch index (parent index)) (parent index)
  else h
termination_by index
decreasing_by exact parent_lt (And.right ‹_›)

def bottomUp (h : HeapScheduler) : HeapScheduler := h.bottomUpFrom h.last

/-- `TopDown`. It is called for slots from the root on; the test of `index` stands for that. -/
def topDown (h : HeapScheduler) (index : Nat) : HeapScheduler :=
  if 0 < index ∧ ¬ h.IsBottom (rightChild index) then
    let tmp := h.smallest (leftChild index) (rightChild index)
    if h.IsLessStrictly index tmp then h else topDown (h.exch index tmp) tmp
  else if h.IsBottom index then h
  else if h.IsBottom (leftChild index) then h
  else if h.IsLessStrictly index (leftChild index) then h
  else h.exch index (leftChild index)
termination_by h.heap.size - index
decreasing_by
  obtain ⟨hpos, hb⟩ : 0 < index ∧ ¬ h.heap.size ≤ index * 2 + 1 := ‹_›
  have hlt := lt_smallest (h := h) hpos
  simp only [exch, Array.size_swapIfInBounds]
  omega

def insert (h : HeapScheduler) (ev : Event) : HeapScheduler := bottomUp ⟨h.heap.push ev⟩

def peekNext (h : HeapScheduler) : Event := h.slot root

def removeNext (h : HeapScheduler) : Event × HeapScheduler :=
  (h.slot root, ((h.exch root h.last).popBack).topDown root)

/-- The slot at which the loop of `Remove` stops: the first one whose event has the uid. -/
def find (h : HeapScheduler) (uid : Nat) : Option Nat :=
  (List.range' 1 (h.heap.size - 1)).find? fun i => uid == (h.slot i).key.uid

def remove (h : HeapScheduler) (ev : Event) : Option HeapScheduler :=
  (h.find ev.key.uid).bind fun i =>
    if (h.slot i).impl = ev.impl then some (((h.exch i h.last).popBack).topDown i) else none

/-- A call. -/
def call (h : HeapScheduler) : Call → Option (HeapScheduler × Option Event)
  | .insert ev => some (h.insert ev, none)
  | .remove ev => (h.remove ev).map fun h' => (h', none)
  | .removeNext => some (h.removeNext.2, some h.removeNext.1)

/-- The events in the heap. -/
def stored (h : HeapScheduler) : Multiset Event := h.heap.toList.tail

/-- The ranks of the slots. -/
def rank (h : HeapScheduler) (i : Nat) : ℕ ×ₗ ℕ := (h.slot i).key.rank

/-- The heap order. -/
def HeapOrdered (h : HeapScheduler) : Prop := BinaryHeap.Ordered h.rank h.heap.size

/-- The slot that `Remove` finds is that of the event, and the last event is not smaller than the
parent of the slot it is put into. -/
def RemoveOk (h : HeapScheduler) (ev : Event) : Prop :=
  ∀ i ∈ h.find ev.key.uid,
    h.slot i = ev ∧ (i = root ∨ i = h.last ∨ ¬ h.IsLessStrictly h.last (parent i))
deriving Decidable

variable (w : HeapScheduler × Multiset Event)

/-- The calls that a caller may make, where each removal finds its event and keeps the order. -/
def CallOk (c : Call) : Prop :=
  Admits w.2 c ∧ ∀ ev, c = .remove ev → w.1.RemoveOk ev

/-! ## Exchanges -/

section
variable {h h' h'' : HeapScheduler} {m : Multiset Event} {ev : Event} {a b i j : Nat}

@[simp]
theorem size_exch : (h.exch a b).heap.size = h.heap.size := by simp [exch]

@[simp]
theorem size_popBack : h.popBack.heap.size = h.heap.size - 1 := by simp [popBack]

theorem slot_exch (ha : a < h.heap.size) (hb : b < h.heap.size) :
    (h.exch a b).slot j = h.slot (Equiv.swap a b j) := by
  rw [slot, exch, Array.swapIfInBounds_def, dif_pos ha, dif_pos hb, Array.getD_eq_getD_getElem?,
    Array.getElem?_swap, slot, Array.getD_eq_getD_getElem?]
  by_cases h1 : j = a
  · subst h1
    by_cases h2 : b = j
    · subst h2
      simp [hb]
    · simp [h2, hb]
  · by_cases h2 : j = b
    · subst h2
      simp [ha]
    · rw [if_neg (Ne.symm h2), if_neg (Ne.symm h1), Equiv.swap_apply_of_ne_of_ne h1 h2]

theorem slot_popBack (hj : j < h.last) : h.popBack.slot j = h.slot j := by
  simp only [slot, popBack, Array.getD_eq_getD_getElem?, Array.getElem?_pop]
  rw [if_pos]
  exact hj

theorem rank_exch (ha : a < h.heap.size) (hb : b < h.heap.size) :
    (h.exch a b).rank = h.rank ∘ Equiv.swap a b :=
  funext fun _ => congrArg (fun e : Event => e.key.rank) (slot_exch ha hb)

/-- The same events in another order, with the wasted item where it was. -/
structure Rearranged (h h' : HeapScheduler) : Prop where
  perm : h'.heap.toList.Perm h.heap.toList
  zero : h'.slot 0 = h.slot 0

theorem Rearranged.refl : Rearranged h h := ⟨List.Perm.refl _, rfl⟩

theorem Rearranged.trans (h1 : Rearranged h h') (h2 : Rearranged h' h'') : Rearranged h h'' :=
  ⟨h2.perm.trans h1.perm, h2.zero.trans h1.zero⟩

theorem Rearranged.size (h1 : Rearranged h h') : h'.heap.size = h.heap.size := by
  simpa using h1.perm.length_eq

theorem rearranged_exch (ha : 0 < a) (hb : 0 < b) (ha' : a < h.heap.size) (hb' : b < h.heap.size) :
    Rearranged h (h.exch a b) where
  perm := by
    have hp : (h.heap.swap a b ha' hb').Perm h.heap := Array.swap_perm ha' hb'
    simpa [exch, Array.swapIfInBounds_def, ha', hb'] using Array.perm_iff_toList_perm.1 hp
  zero := by
    rw [slot_exch ha' hb', Equiv.swap_apply_of_ne_of_ne ha.ne hb.ne]

/-! ## The two loops -/

theorem bottomUpFrom_spec (h1 : 1 ≤ i) (hi : i < h.heap.size)
    (hup : BinaryHeap.UpTo h.rank h.heap.size i) :
    (h.bottomUpFrom i).HeapOrdered ∧ Rearranged h (h.bottomUpFrom i) := by
  induction h, i using bottomUpFrom.induct with
  | case1 h i hmove ih =>
    rw [bottomUpFrom, if_pos hmove]
    have h2 : 2 ≤ i := by
      have := hmove.1
      simp only [root] at this
      omega
    have hpar : parent i < h.heap.size := (parent_lt hmove.2).trans hi
    have hpar1 : 1 ≤ parent i := by
      unfold parent
      omega
    have hup' := hup.swap h2 hi (EventKey.less_iff.1 hmove.2)
    rw [← parent, ← rank_exch hi hpar] at hup'
    obtain ⟨hord, hre⟩ := ih hpar1 (by simpa using hpar) (by simpa using hup')
    exact ⟨hord, (rearranged_exch (by omega) hpar1 hi hpar).trans hre⟩
  | case2 h i hstop =>
    rw [bottomUpFrom, if_neg hstop]
    refine ⟨hup.ordered ?_, Rearranged.refl⟩
    rcases Nat.lt_or_ge 1 i with h2 | h2
    · exact Or.inr (not_lt.1 fun hlt => hstop ⟨h2.ne', EventKey.less_iff.2 hlt⟩)
    · exact Or.inl h2

theorem smallest_spec (hr : rightChild i < h.heap.size) :
    h.smallest (leftChild i) (rightChild i) / 2 = i ∧
      h.smallest (leftChild i) (rightChild i) < h.heap.size ∧
      ∀ j, j < h.heap.size → j / 2 = i →
        h.rank (h.smallest (leftChild i) (rightChild i)) ≤ h.rank j := by
  have hcases : ∀ j, j / 2 = i → j = leftChild i ∨ j = rightChild i := by
    intro j hj
    unfold leftChild rightChild
    omega
  unfold smallest
  split
  · next hlt =>
    refine ⟨by unfold leftChild; omega, ?_, fun j _ hj => ?_⟩
    · unfold leftChild rightChild at *
      omega
    · rcases hcases j hj with rfl | rfl
      · exact le_rfl
      · exact (EventKey.less_iff.1 hlt).le
  · next hle =>
    refine ⟨by unfold rightChild; omega, hr, fun j _ hj => ?_⟩
    rcases hcases j hj with rfl | rfl
    · exact not_lt.1 fun hlt => hle (EventKey.less_iff.2 hlt)
    · exact le_rfl

/-- `TopDown` ends with a heap. -/
theorem topDown_spec (h1 : 1 ≤ i) (hdown : BinaryHeap.DownFrom h.rank h.heap.size i) :
    (h.topDown i).HeapOrdered ∧ Rearranged h (h.topDown i) := by
  induction h, i using topDown.induct with
  | case1 h i hgo tmp hless =>
    obtain ⟨-, -, hmin⟩ := smallest_spec (not_le.1 hgo.2)
    rw [topDown, if_pos hgo, if_pos hless]
    refine ⟨hdown.ordered fun j _ hj hp => ?_, Rearranged.refl⟩
    exact (EventKey.less_iff.1 hless).le.trans (hmin j hj hp)
  | case2 h i hgo tmp hle ih =>
    obtain ⟨hc, hcn, hmin⟩ := smallest_spec (not_le.1 hgo.2)
    rw [topDown, if_pos hgo, if_neg hle]
    have hlt : i < tmp := lt_smallest hgo.1
    have hi : i < h.heap.size := hlt.trans hcn
    have hrank : h.rank tmp ≤ h.rank i := not_lt.1 fun h => hle (EventKey.less_iff.2 h)
    have hdown' := hdown.swap h1 hc hcn hrank hmin
    rw [← rank_exch hi hcn] at hdown'
    obtain ⟨hord, hre⟩ := ih (by omega) (by simpa using hdown')
    exact ⟨hord, (rearranged_exch h1 (by omega) hi hcn).trans hre⟩
  | case3 h i hgo hb =>
    rw [topDown, if_neg hgo, if_pos hb]
    refine ⟨hdown.ordered fun _ _ hj hp => ?_, Rearranged.refl⟩
    have : h.heap.size ≤ i := hb
    omega
  | case4 h i hgo hb hl =>
    rw [topDown, if_neg hgo, if_neg hb, if_pos hl]
    refine ⟨hdown.ordered fun j _ hj hp => ?_, Rearranged.refl⟩
    have : h.heap.size ≤ i * 2 := hl
    omega
  | case5 h i hgo hb hl hless =>
    rw [topDown, if_neg hgo, if_neg hb, if_neg hl, if_pos hless]
    refine ⟨hdown.ordered fun j _ hj hp => ?_, Rearranged.refl⟩
    have hright : h.heap.size ≤ i * 2 + 1 := not_not.1 fun h => hgo ⟨h1, h⟩
    rw [show j = leftChild i by unfold leftChild; omega]
    exact (EventKey.less_iff.1 hless).le
  | case6 h i hgo hb hl hle =>
    rw [topDown, if_neg hgo, if_neg hb, if_neg hl, if_neg hle]
    have hright : h.heap.size ≤ i * 2 + 1 := not_not.1 fun h => hgo ⟨h1, h⟩
    have hi : i < h.heap.size := not_le.1 hb
    have hlt : leftChild i < h.heap.size := not_le.1 hl
    have hleft : leftChild i = i * 2 := rfl
    have hrank : h.rank (leftChild i) ≤ h.rank i := not_lt.1 fun h => hle (EventKey.less_iff.2 h)
    have hmin : ∀ j, j < h.heap.size → j / 2 = i → h.rank (leftChild i) ≤ h.rank j := by
      intro j hj hp
      rw [show j = leftChild i by omega]
    have hdown' := hdown.swap h1 (by omega) hlt hrank hmin
    rw [← rank_exch hi hlt] at hdown'
    refine ⟨BinaryHeap.DownFrom.ordered (by simpa using hdown') fun j _ hj hp => ?_,
      rearranged_exch h1 (by omega) hi hlt⟩
    rw [size_exch] at hj
    omega

theorem topDown_eq_self (hlt : ∀ j, j < h.heap.size → j / 2 = i → h.rank i < h.rank j) :
    h.topDown i = h := by
  rw [topDown]
  split
  · next hgo =>
    obtain ⟨hc, hcn, -⟩ := smallest_spec (not_le.1 hgo.2)
    exact if_pos (EventKey.less_iff.2 (hlt _ hcn hc))
  · split_ifs with hb hl hle
    · rfl
    · rfl
    · rfl
    · have hchild : leftChild i / 2 = i := by
        unfold leftChild
        omega
      exact absurd (EventKey.less_iff.2 (hlt _ (not_le.1 hl) hchild)) hle

/-! ## The set of events -/

/-- The heap holds the events `m`, in order. -/
structure Inv (h : HeapScheduler) (m : Multiset Event) : Prop where
  zero : h.slot 0 = empty
  events : (h.heap.toList : Multiset Event) = empty ::ₘ m
  ordered : h.HeapOrdered

theorem Inv.size (hinv : Inv h m) : h.heap.size = m.card + 1 := by
  simpa using congrArg Multiset.card hinv.events

theorem Inv.toList (hinv : Inv h m) : h.heap.toList = empty :: h.heap.toList.tail := by
  have hzero := hinv.zero
  have hsize := hinv.size
  rw [slot, Array.getD_eq_getD_getElem?, ← Array.getElem?_toList] at hzero
  cases hl : h.heap.toList with
  | nil =>
    have : h.heap.toList.length = 0 := by rw [hl]; rfl
    rw [Array.length_toList] at this
    omega
  | cons e l =>
    rw [hl] at hzero
    exact congrArg (· :: l) (by simpa using hzero)

theorem Inv.stored (hinv : Inv h m) : h.stored = m := by
  have hevents := hinv.events
  rw [hinv.toList, ← Multiset.cons_coe] at hevents
  exact (Multiset.cons_inj_right _).1 hevents

theorem Inv.mem_iff (hinv : Inv h m) : ev ∈ m ↔ ∃ i, 1 ≤ i ∧ i < h.heap.size ∧ h.slot i = ev := by
  conv_lhs => rw [← hinv.stored]
  rw [HeapScheduler.stored, mem_coe, mem_iff_getElem?]
  have hslot : ∀ i, i + 1 < h.heap.size →
      (h.heap.toList.tail[i]? = some ev ↔ h.slot (i + 1) = ev) := by
    intro i hi
    rw [getElem?_tail, slot, Array.getD_eq_getD_getElem?, Array.getElem?_toList,
      Array.getElem?_eq_getElem hi]
    simp
  constructor
  · rintro ⟨i, hi⟩
    have hlt : i + 1 < h.heap.size := by
      obtain ⟨hlt, -⟩ := List.getElem?_eq_some_iff.1 hi
      rw [length_tail, Array.length_toList] at hlt
      omega
    exact ⟨i + 1, by omega, hlt, (hslot i hlt).1 hi⟩
  · rintro ⟨i, h1, hi, rfl⟩
    obtain ⟨j, rfl⟩ : ∃ j, i = j + 1 := ⟨i - 1, by omega⟩
    exact ⟨j, (hslot j hi).2 rfl⟩

theorem Inv.rearranged (hzero : h.slot 0 = empty)
    (hev : (h.heap.toList : Multiset Event) = empty ::ₘ m) (hord : h'.HeapOrdered)
    (hre : Rearranged h h') : Inv h' m where
  zero := hre.zero.trans hzero
  events := (coe_eq_coe.2 hre.perm).trans hev
  ordered := hord

theorem inv_new : Inv new 0 where
  zero := rfl
  events := rfl
  ordered := fun j h2 hj => by
    have : new.heap.size = 1 := rfl
    omega

section
variable (hinv : Inv h m)
include hinv

theorem Inv.insert (ev : Event) : Inv (h.insert ev) (ev ::ₘ m) := by
  have hsize : (h.heap.push ev).size = h.heap.size + 1 := Array.size_push _
  have hlast : (⟨h.heap.push ev⟩ : HeapScheduler).last = h.heap.size := by
    rw [last, hsize]
    rfl
  have hslot : ∀ j, j < h.heap.size → (⟨h.heap.push ev⟩ : HeapScheduler).slot j = h.slot j := by
    intro j hj
    simp [slot, Array.getElem?_push_lt, hj]
  have hpos : 1 ≤ h.heap.size := by
    rw [hinv.size]
    omega
  have hup : BinaryHeap.UpTo (⟨h.heap.push ev⟩ : HeapScheduler).rank (h.heap.push ev).size
      h.heap.size := by
    rw [hsize]
    refine (BinaryHeap.Ordered.congr hinv.ordered fun j _ hj => ?_).upTo
    exact congrArg (fun e : Event => e.key.rank) (hslot j hj)
  obtain ⟨hord, hre⟩ := bottomUpFrom_spec hpos (hsize ▸ Nat.lt_succ_self _) hup
  rw [HeapScheduler.insert, bottomUp, hlast]
  refine Inv.rearranged ((hslot 0 hpos).trans hinv.zero) ?_ hord hre
  rw [Array.toList_push, ← coe_add, hinv.events, coe_singleton,
    cons_add, Multiset.add_comm, singleton_add]

theorem Inv.take (h1 : 1 ≤ i) (hi : i < h.heap.size) :
    ((h.exch i h.last).popBack.slot 0 = empty) ∧
      ((h.exch i h.last).popBack.heap.toList : Multiset Event) = empty ::ₘ m.erase (h.slot i) := by
  have hlast : h.last < h.heap.size := by
    unfold last
    omega
  have hlast1 : 0 < h.last := by
    unfold last
    omega
  have hre := rearranged_exch h1 hlast1 hi hlast
  have hev : h.slot i ∈ m := hinv.mem_iff.2 ⟨i, h1, hi, rfl⟩
  have hback : (h.exch i h.last).slot h.last = h.slot i := by
    rw [slot_exch hi hlast, Equiv.swap_apply_right]
  refine ⟨?_, ?_⟩
  · rw [slot_popBack (by simpa [last] using hlast1), hre.zero, hinv.zero]
  · have hget : (h.exch i h.last).heap.toList.getLast? = some (h.slot i) := by
      have hlt : h.last < (h.exch i h.last).heap.size := size_exch.symm ▸ hlast
      rw [List.getLast?_eq_getElem?, Array.length_toList, size_exch, ← last, Array.getElem?_toList,
        Array.getElem?_eq_getElem hlt, ← hback, slot, Array.getD_eq_getD_getElem?,
        Array.getElem?_eq_getElem hlt, Option.getD_some]
    have hsplit : (h.exch i h.last).heap.toList
        = (h.exch i h.last).popBack.heap.toList ++ [h.slot i] := by
      rw [popBack, Array.toList_pop, List.dropLast_append_getLast? _ hget]
    have hperm := (Multiset.coe_eq_coe.2 hre.perm).trans hinv.events
    rw [hsplit, ← Multiset.coe_add, Multiset.coe_singleton, Multiset.add_comm,
      Multiset.singleton_add, ← Multiset.cons_erase hev, Multiset.cons_swap] at hperm
    exact (Multiset.cons_inj_right _).1 hperm

theorem Inv.takeSlot (h1 : 1 ≤ i) (hi : i < h.heap.size)
    (hok : i = root ∨ i = h.last ∨ ¬ h.IsLessStrictly h.last (parent i)) :
    Inv ((h.exch i h.last).popBack.topDown i) (m.erase (h.slot i)) := by
  obtain ⟨n, hn⟩ : ∃ n, h.heap.size = n + 1 := ⟨h.heap.size - 1, by omega⟩
  have hlast : h.last = n := by
    rw [last, hn]
    rfl
  have hdown : BinaryHeap.DownFrom (h.exch i h.last).popBack.rank
      (h.exch i h.last).popBack.heap.size i := by
    have hord : BinaryHeap.Ordered h.rank (n + 1) := hn ▸ hinv.ordered
    have hparent : i ≤ 1 ∨ i = n ∨ h.rank (i / 2) ≤ h.rank n := by
      rcases hok with hroot | hend | hle
      · exact Or.inl hroot.le
      · exact Or.inr (Or.inl (hend.trans hlast))
      · exact Or.inr (Or.inr (hlast ▸ not_lt.1 fun hlt => hle (EventKey.less_iff.2 hlt)))
    have hd := hord.downFrom h1 (by omega) hparent
    rw [← hlast, ← rank_exch hi (by omega)] at hd
    rw [size_popBack, size_exch, ← last]
    refine hd.congr fun j hj => ?_
    exact congrArg (fun e : Event => e.key.rank) (slot_popBack (by simpa [last] using hj))
  obtain ⟨hzero, hev⟩ := hinv.take h1 hi
  obtain ⟨hord, hre⟩ := topDown_spec h1 hdown
  exact Inv.rearranged hzero hev hord hre

theorem Inv.isNext_root (hm : m ≠ 0) : IsNext m (h.slot root) := by
  have hcard : 0 < m.card := card_pos.2 hm
  have hsize := hinv.size
  refine isNext_iff.2 ⟨hinv.mem_iff.2 ⟨root, le_rfl, by unfold root; omega, rfl⟩, fun e he => ?_⟩
  obtain ⟨i, h1, hi, rfl⟩ := hinv.mem_iff.1 he
  exact hinv.ordered.root_le h1 hi

theorem Inv.find (hev : ev ∈ m) : ∃ i, h.find ev.key.uid = some i := by
  obtain ⟨i, h1, hi, rfl⟩ := hinv.mem_iff.1 hev
  refine isSome_iff_exists.1 (find?_isSome.2 ⟨i, ?_, by simp⟩)
  exact mem_range'_1.2 ⟨h1, by omega⟩

end

theorem find_eq_some {uid : Nat} (hi : h.find uid = some i) : 1 ≤ i ∧ i < h.heap.size := by
  have := mem_range'_1.1 (mem_of_find?_eq_some hi)
  omega

/-! ## Runs -/

/-- The heap is the sorted set of the events `w.2`: it is in order, it holds them, its next event is
a smallest one, and so every call does what it is for. -/
structure Refines : Prop where
  ordered : w.1.HeapOrdered
  stored : w.1.stored = w.2
  peek : w.2 ≠ 0 → IsNext w.2 w.1.peekNext
  step : ∀ c, CallOk w c → ∃ h' r, w.1.call c = some (h', r) ∧ SetStep w.2 c r h'.stored

theorem Inv.call (hinv : Inv h m) {c : Call} (hok : CallOk (h, m) c) :
    ∃ h' r, h.call c = some (h', r) ∧ SetStep m c r (remaining m c r) ∧
      Inv h' (remaining m c r) := by
  cases c with
  | insert ev => exact ⟨_, _, rfl, .insert ev, hinv.insert ev⟩
  | remove ev =>
    have hev : ev ∈ m := hok.1
    obtain ⟨i, hi⟩ := hinv.find hev
    obtain ⟨hslot, hkeep⟩ := hok.2 ev rfl i hi
    obtain ⟨h1, hlt⟩ := find_eq_some hi
    have hrem : h.remove ev = some ((h.exch i h.last).popBack.topDown i) := by
      rw [HeapScheduler.remove, hi, bind_some, if_pos (congrArg Event.impl hslot)]
    refine ⟨_, none, by rw [HeapScheduler.call, hrem]; rfl, .remove ev hev, ?_⟩
    rw [remaining, ← hslot]
    exact hinv.takeSlot h1 hlt hkeep
  | removeNext =>
    have hm : m ≠ 0 := hok.1
    have hcard : 0 < m.card := card_pos.2 hm
    have hsize := hinv.size
    refine ⟨_, _, rfl, .removeNext _ (hinv.isNext_root hm), ?_⟩
    exact hinv.takeSlot le_rfl (by unfold root; omega) (Or.inl rfl)

theorem Inv.refines (hinv : Inv h m) : Refines (h, m) where
  ordered := hinv.ordered
  stored := hinv.stored
  peek := hinv.isNext_root
  step := by
    intro c hok
    obtain ⟨h', r, hcall, hset, hinv'⟩ := hinv.call hok
    exact ⟨h', r, hcall, hinv'.stored.symm ▸ hset⟩

end

/-- Where `Remove` finds its event, it keeps the order exactly when it puts no leaf under a larger
parent. -/
theorem remove_ordered_iff {h : HeapScheduler} {m : Multiset Event} {ev : Event} (hinv : Inv h m)
    (hev : ev ∈ m) (hslot : ∀ i ∈ h.find ev.key.uid, h.slot i = ev) :
    (∀ h' ∈ h.remove ev, h'.HeapOrdered) ↔ h.RemoveOk ev := by
  obtain ⟨i, hi⟩ := hinv.find hev
  obtain ⟨h1, hlt⟩ := find_eq_some hi
  have hrem : h.remove ev = some ((h.exch i h.last).popBack.topDown i) := by
    rw [HeapScheduler.remove, hi, bind_some, if_pos (congrArg Event.impl (hslot i hi))]
  constructor
  · intro hord j hj
    cases hi.symm.trans hj
    refine ⟨hslot i hi, ?_⟩
    by_contra! hbad
    obtain ⟨hroot, hend, hless⟩ := hbad
    have hlast : h.last < h.heap.size := by
      unfold last
      omega
    have hil : i < h.last := by
      unfold last at *
      omega
    -- the leaf is smaller than its parent, and so smaller than the children of the slot
    have hrank : ∀ j, j < h.last →
      (h.exch i h.last).popBack.rank j = h.rank (Equiv.swap i h.last j) := by
      intro j hj
      have hpop : (h.exch i h.last).popBack.slot j = (h.exch i h.last).slot j :=
        slot_popBack (by simpa [last] using hj)
      rw [rank, hpop, slot_exch hlt hlast, rank]
    have hsize : (h.exch i h.last).popBack.heap.size = h.last := by
      rw [size_popBack, size_exch, last]
    have hparent : h.rank h.last < h.rank (i / 2) := EventKey.less_iff.1 hless
    have h2 : 2 ≤ i := by
      unfold root at hroot
      omega
    have hstay : (h.exch i h.last).popBack.topDown i = (h.exch i h.last).popBack := by
      refine topDown_eq_self fun j hj hp => ?_
      rw [hsize] at hj
      rw [hrank i hil, hrank j hj, Equiv.swap_apply_left,
        Equiv.swap_apply_of_ne_of_ne (by omega) (by omega)]
      have hup : h.rank (i / 2) ≤ h.rank i := hinv.ordered i h2 hlt
      have hdown : h.rank (j / 2) ≤ h.rank j := hinv.ordered j (by omega) (by omega)
      exact hparent.trans_le (hup.trans (hp ▸ hdown))
    have hbroken := hord _ hrem i h2 (by rw [hstay, hsize]; exact hil)
    rw [hstay, hrank i hil, hrank (i / 2) (by omega), Equiv.swap_apply_left,
      Equiv.swap_apply_of_ne_of_ne (by omega) (by omega)] at hbroken
    exact absurd hparent (not_lt.2 hbroken)
  · intro hok h' hh'
    cases hrem.symm.trans hh'
    exact (hinv.takeSlot h1 hlt (hok i hi).2).ordered

/-- The removal of a leaf that keeps the order. -/
theorem remove_ordered_iff_three :
    (((new.insert (eventAt 4 4)).insert (eventAt 7 5)).insert (eventAt 5 6)).RemoveOk
      (eventAt 7 5) ∧
        ∀ h' ∈ (((new.insert (eventAt 4 4)).insert (eventAt 7 5)).insert (eventAt 5 6)).remove
          (eventAt 7 5), h'.HeapOrdered :=
  ⟨by decide +kernel,
    (remove_ordered_iff (((inv_new.insert _).insert _).insert _) (by decide) (by decide +kernel)).2
    (by decide +kernel)⟩

/-- In every run in which each removal finds its event and puts no leaf under a larger parent, the
heap is the sorted set of what was inserted and not yet taken away. -/
theorem heapRefines_of_run {w : HeapScheduler × Multiset Event}
    (hrun : Lts.Run (CallStep HeapScheduler.call) CallOk (new, 0) w) : Refines w := by
  refine Inv.refines (Lts.Run.invariant (I := fun w => Inv w.1 w.2) ?_ inv_new hrun)
  rintro ⟨h, m⟩ ⟨h', m'⟩ c hinv hok hstep
  obtain ⟨h₁, r, hcall, -, hinv'⟩ := hinv.call hok
  have hw : some (h₁, remaining m c r) = some (h', m') := by
    rw [← show call? HeapScheduler.call (h, m) c = some (h', m') from hstep, call?]
    simp [hcall]
  cases hw
  exact hinv'

instance : DecidablePred (CallOk w)
  | .remove ev => decidable_of_iff (Admits w.2 (.remove ev) ∧ w.1.RemoveOk ev) (by simp [CallOk])
  | .insert ev => decidable_of_iff (Admits w.2 (.insert ev)) (by simp [CallOk])
  | .removeNext => decidable_of_iff (Admits w.2 .removeNext) (by simp [CallOk])

/-- A run with a removal from the middle of the heap. -/
theorem heapRefines_example : ∃ w, w.2 = {eventAt 10 8, eventAt 9 7} ∧ Refines w := by
  have hexec : (Lts.execs CallOk (call? HeapScheduler.call) (new, 0)
      (insertions [4, 7, 5, 9, 10] ++ [.remove (eventAt 7 5), .removeNext, .removeNext])).map (·.2)
      = some {eventAt 10 8, eventAt 9 7} := by decide +kernel
  obtain ⟨w, hw, hm⟩ := map_eq_some_iff.1 hexec
  exact ⟨w, hm, heapRefines_of_run (Lts.run_of_execs id hw)⟩

/-- `Remove` takes the event of time 12 out of the left branch and puts the last leaf, of time 6,
under the one of time 7, which after two more events is the next one. -/
theorem remove_out_of_order :
    ∃ w, Lts.Run (CallStep HeapScheduler.call) (fun w => Admits w.2) (new, 0) w ∧
    w.2 = {eventAt 6 6, eventAt 7 5, eventAt 9 7, eventAt 10 8} ∧ w.1.peekNext = eventAt 7 5 ∧
      ¬ IsNext w.2 w.1.peekNext ∧ ¬ Refines w := by
  have hexec : (Lts.execs (fun w => Admits w.2) (call? HeapScheduler.call) (new, 0)
      (insertions [12, 7, 6, 9, 10, 5, 4] ++ [.remove (eventAt 12 4), .removeNext,
        .removeNext])).map (fun w => (w.2, w.1.peekNext))
      = some ({eventAt 6 6, eventAt 7 5, eventAt 9 7, eventAt 10 8}, eventAt 7 5) := by
        decide +kernel
  obtain ⟨w, hw, hm⟩ := map_eq_some_iff.1 hexec
  obtain ⟨hevents, hpeek⟩ := Prod.mk.inj hm
  have hnext : ¬ IsNext w.2 w.1.peekNext := by
    rw [hevents, hpeek]
    decide +kernel
  refine ⟨w, Lts.run_of_execs id hw, hevents, hpeek, hnext, fun href => hnext (href.peek ?_)⟩
  rw [hevents]
  decide +kernel

end HeapScheduler

end OranNs3.Sim
