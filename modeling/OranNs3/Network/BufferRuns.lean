import Mathlib.Algebra.Order.Group.Nat
import Mathlib.Data.List.Count
import Mathlib.Data.List.Perm.Basic
import OranNs3.Lib.Run
import OranNs3.Network.Buffer

/-!
# Buffers are lists of bytes

The invariant of a heap and its buffers (`Inv`): the count of an array is the number of its buffers,
every buffer lies in the dirty area of its array, and of two buffers of one array the one that ends
where the dirty area ends reaches as far into the array as the other. The comparison of offsets in
`AddAtEnd` rests on the last part: offsets count the virtual zeros, and buffers of one array may
have different ones.

Each operation is specified over one buffer and any others beside it, whose bytes it leaves alone
(`buffers_refine`).
-/

namespace OranNs3.Network

open Memory List Option

variable {garbage : Nat → Nat → UInt8} {h h' : Heap} {b o : Buffer} {bs : List Buffer}

/-- The bytes of a buffer. -/
def Buffer.bytes (h : Heap) (b : Buffer) : List UInt8 :=
  slice (h.mem b.data).data b.start (b.zeroAreaStart - b.start) ++
    List.replicate (b.zeroAreaEnd - b.zeroAreaStart) 0 ++
    slice (h.mem b.data).data b.zeroAreaStart (b.last - b.zeroAreaEnd)

/-- The offsets of a buffer are in order. -/
abbrev Buffer.InOrder (b : Buffer) : Prop :=
  b.start ≤ b.zeroAreaStart ∧ b.zeroAreaStart ≤ b.zeroAreaEnd ∧ b.zeroAreaEnd ≤ b.last

/-- A buffer lies in the dirty area of its array, and its array holds it. -/
structure Fits (h : Heap) (b : Buffer) : Prop where
  start_le : b.start ≤ b.zeroAreaStart
  zero_le : b.zeroAreaStart ≤ b.zeroAreaEnd
  last_le : b.zeroAreaEnd ≤ b.last
  dirtyStart : (h.mem b.data).dirtyStart ≤ b.start
  dirtyEnd : b.last ≤ (h.mem b.data).dirtyEnd
  internalEnd : b.internalEnd ≤ (h.mem b.data).size

/-- What holds of a heap and the buffers on it. -/
structure Inv (h : Heap) (bs : List Buffer) : Prop where
  fits : ∀ b ∈ bs, Fits h b
  made : ∀ b ∈ bs, b.data < h.next
  freeList : bs ≠ [] → h.freeList ≠ none
  free : ∀ l ∈ h.freeList, l.Nodup ∧ ∀ a ∈ l, a < h.next ∧ ∀ b ∈ bs, b.data ≠ a
  count : ∀ b ∈ bs, (h.mem b.data).count = bs.countP (·.data = b.data)
  reach : ∀ x ∈ bs, ∀ y ∈ bs, x.data = y.data → y.last = (h.mem y.data).dirtyEnd →
    x.internalEnd ≤ y.internalEnd

theorem Inv.perm {bs' : List Buffer} (hinv : Inv h bs) (hp : bs.Perm bs') : Inv h bs' where
  fits := fun b hb => hinv.fits b (hp.mem_iff.2 hb)
  made := fun b hb => hinv.made b (hp.mem_iff.2 hb)
  freeList := fun hne => hinv.freeList fun heq => hne (by simpa [heq] using hp.symm)
  free := fun l hl => ⟨(hinv.free l hl).1, fun a ha =>
    ⟨((hinv.free l hl).2 a ha).1, fun b hb => ((hinv.free l hl).2 a ha).2 b (hp.mem_iff.2 hb)⟩⟩
  count := fun b hb => by rw [hinv.count b (hp.mem_iff.2 hb), hp.countP_eq]
  reach := fun x hx y hy => hinv.reach x (hp.mem_iff.2 hx) y (hp.mem_iff.2 hy)

/-! ## Arrays -/

@[simp] theorem Heap.mem_set_self (h : Heap) (a : Nat) (d : Data) : (h.set a d).mem a = d :=
  Function.update_self ..

theorem Heap.mem_set_ne (h : Heap) {a a' : Nat} (d : Data) (hne : a' ≠ a) :
    (h.set a d).mem a' = h.mem a' := Function.update_of_ne hne ..

@[simp] theorem Heap.set_next (h : Heap) (a : Nat) (d : Data) : (h.set a d).next = h.next := rfl

@[simp] theorem Heap.set_freeList (h : Heap) (a : Nat) (d : Data) :
    (h.set a d).freeList = h.freeList := rfl

theorem Heap.mem_setCount (h : Heap) (a n a' : Nat) : (h.setCount a n).mem a' =
    { h.mem a' with count := if a' = a then n else (h.mem a').count } := by
  by_cases ha : a' = a
  · cases ha
    rw [Heap.setCount, mem_set_self, if_pos rfl]
  · rw [Heap.setCount, mem_set_ne _ _ ha, if_neg ha]

@[simp] theorem Heap.setCount_next (h : Heap) (a n : Nat) : (h.setCount a n).next = h.next := rfl

@[simp] theorem Heap.setCount_freeList (h : Heap) (a n : Nat) :
    (h.setCount a n).freeList = h.freeList := rfl

/-- An array that no buffer has, with one reference to it. -/
structure Unused (h : Heap) (bs : List Buffer) (a : Nat) : Prop where
  made : a < h.next
  freeList : ∃ l, h.freeList = some l ∧ a ∉ l
  other : ∀ b ∈ bs, b.data ≠ a
  count : (h.mem a).count = 1

/-- Nothing changed in the arrays of the buffers. -/
def SameArrays (h h' : Heap) (bs : List Buffer) : Prop := ∀ b ∈ bs, h'.mem b.data = h.mem b.data

/-- The bytes of an array are all that changed. -/
def SameBounds (d d' : Data) : Prop :=
  d'.count = d.count ∧ d'.size = d.size ∧ d'.dirtyStart = d.dirtyStart ∧ d'.dirtyEnd = d.dirtyEnd

theorem Inv.same (hinv : Inv h bs) (hsame : ∀ b ∈ bs, SameBounds (h.mem b.data) (h'.mem b.data))
    (hnext : h.next ≤ h'.next) (hlist : bs ≠ [] → h'.freeList ≠ none)
    (hfree : ∀ l ∈ h'.freeList, l.Nodup ∧ ∀ a ∈ l, a < h'.next ∧ ∀ b ∈ bs, b.data ≠ a) :
    Inv h' bs where
  fits := by
    intro b hb
    obtain ⟨h1, h2, h3, h4, h5, h6⟩ := hinv.fits b hb
    obtain ⟨-, hsize, hstart, hend⟩ := hsame b hb
    exact ⟨h1, h2, h3, hstart ▸ h4, hend ▸ h5, hsize ▸ h6⟩
  made := fun b hb => (hinv.made b hb).trans_le hnext
  freeList := hlist
  free := hfree
  count := fun b hb => (hsame b hb).1.trans (hinv.count b hb)
  reach := fun x hx y hy hxy hlast =>
    hinv.reach x hx y hy hxy (hlast.trans (hsame y hy).2.2.2)

theorem SameArrays.bounds (hsame : SameArrays h h' bs) :
    ∀ b ∈ bs, SameBounds (h.mem b.data) (h'.mem b.data) :=
  fun b hb => hsame b hb ▸ ⟨rfl, rfl, rfl, rfl⟩

variable (garbage) in
/-- `Create`: an array of the size, that nobody has. -/
theorem Inv.create (hinv : Inv h bs) (n : Nat) : ∃ h' a, h.create garbage n = (h', a) ∧ Inv h' bs ∧
    SameArrays h h' bs ∧ Unused h' bs a ∧ n ≤ (h'.mem a).size := by
  have key : ∀ (l : List Nat) (h : Heap), Inv h bs → (∀ a ∈ l, a < h.next ∧ ∀ b ∈ bs, b.data ≠ a) →
      l.Nodup → ∃ h' a, Heap.createFrom garbage n h l = (h', a) ∧ Inv h' bs ∧ SameArrays h h' bs ∧
        Unused h' bs a ∧ n ≤ (h'.mem a).size := by
    intro l
    induction l with
    | nil =>
      intro h hinv _ _
      have hother : ∀ b ∈ bs, b.data ≠ h.next := fun b hb => Nat.ne_of_lt (hinv.made b hb)
      have hsame : SameArrays h (Heap.createFrom garbage n h []).1 bs := by
        intro b hb
        exact Heap.mem_set_ne _ _ (hother b hb)
      have hnew : (Heap.createFrom garbage n h []).1.mem h.next =
          ⟨1, (if n = 0 then 1 else n) + Heap.allocOverProvision, 0, 0, garbage h.next⟩ :=
        Heap.mem_set_self ..
      refine ⟨_, _, rfl, hinv.same hsame.bounds (Nat.le_succ _) (fun _ => some_ne_none _) ?_, hsame,
        ⟨Nat.lt_succ_self _, ⟨[], rfl, by simp⟩, hother, congrArg Data.count hnew⟩, ?_⟩
      · intro l hl
        cases hl
        exact ⟨.nil, nofun⟩
      · refine (congrArg Data.size hnew).ge.trans' ?_
        dsimp only
        split <;> omega
    | cons a l ih =>
      intro h hinv hl hnodup
      obtain ⟨⟨hmade, hother⟩, hl⟩ := forall_mem_cons.1 hl
      obtain ⟨hnotin, hnodup⟩ := nodup_cons.1 hnodup
      rw [Heap.createFrom]
      split
      · next hsize =>
        have hsame : SameArrays h ({ h with freeList := some l }.setCount a 1) bs :=
          fun b hb => Heap.mem_set_ne _ _ (hother b hb)
        refine ⟨_, _, rfl, hinv.same hsame.bounds le_rfl (fun _ => by simp) ?_, hsame,
          ⟨hmade, ⟨l, rfl, hnotin⟩, hother, by simp [Heap.mem_setCount]⟩,
          by simpa [Heap.mem_setCount] using hsize⟩
        intro l' hl'
        cases hl'
        exact ⟨hnodup, hl⟩
      · have hinv' : Inv { h with freeList := some l } bs :=
          hinv.same (fun _ _ => ⟨rfl, rfl, rfl, rfl⟩) le_rfl (fun _ => by simp) fun l' hl' => by
            cases hl'
            exact ⟨hnodup, hl⟩
        exact ih _ hinv' hl hnodup
  rw [Heap.create]
  cases hfree : h.freeList with
  | none => exact key [] h hinv nofun .nil
  | some l => exact key l h hinv (hinv.free l hfree).2 (hinv.free l hfree).1

/-- The invariant with other counts, for buffers with the offsets of those that were there. -/
theorem Inv.setCount {bs' : List Buffer} (hinv : Inv h bs)
    (hsub : ∀ c ∈ bs', ∃ m, { c with maxZeroAreaStart := m } ∈ bs) {a n : Nat}
    (hcount : ∀ c ∈ bs', bs'.countP (·.data = c.data) =
      if c.data = a then n else bs.countP (·.data = c.data)) : Inv (h.setCount a n) bs' where
  fits := by
    intro c hc
    obtain ⟨m, hm⟩ := hsub c hc
    obtain ⟨h1, h2, h3, h4, h5, h6⟩ := hinv.fits _ hm
    exact ⟨h1, h2, h3, by rwa [Heap.mem_setCount], by rwa [Heap.mem_setCount], by
      rwa [Heap.mem_setCount]⟩
  made := by
    intro c hc
    obtain ⟨m, hm⟩ := hsub c hc
    have hmade := hinv.made _ hm
    exact hmade
  freeList := by
    intro hne
    obtain ⟨c, hc⟩ := exists_mem_of_ne_nil _ hne
    obtain ⟨m, hm⟩ := hsub c hc
    exact hinv.freeList (ne_nil_of_mem hm)
  free := by
    intro l hl
    refine ⟨(hinv.free l hl).1, fun a ha => ⟨((hinv.free l hl).2 a ha).1, fun c hc => ?_⟩⟩
    obtain ⟨m, hm⟩ := hsub c hc
    have hfree := ((hinv.free l hl).2 a ha).2 _ hm
    exact hfree
  count := by
    intro c hc
    obtain ⟨m, hm⟩ := hsub c hc
    have hold := hinv.count _ hm
    rw [Heap.mem_setCount, hcount c hc]
    dsimp only at hold ⊢
    rw [hold]
  reach := by
    intro x hx y hy hxy hlast
    obtain ⟨m, hm⟩ := hsub x hx
    obtain ⟨m', hm'⟩ := hsub y hy
    rw [Heap.mem_setCount] at hlast
    have hreach := hinv.reach _ hm _ hm' hxy hlast
    exact hreach

variable (b bs) in
theorem countP_cons (c : Buffer) : (b :: bs).countP (·.data = c.data) =
    bs.countP (·.data = c.data) + if c.data = b.data then 1 else 0 := by
  rw [List.countP_cons]
  simp [eq_comm]

/-- `m_count--`, with `Recycle`: the other buffers keep their arrays but for the count. -/
theorem Inv.release (hinv : Inv h (b :: bs)) : ∃ h', h.release b.data = some h' ∧ Inv h' bs ∧
    (∀ a, (h'.mem a).data = (h.mem a).data) ∧ (∀ a, a ≠ b.data → h'.mem a = h.mem a) ∧
    (∀ a, Unused h (b :: bs) a → Unused h' bs a) := by
  have hself := hinv.count b mem_cons_self
  have hdrop : Inv (h.setCount b.data ((h.mem b.data).count - 1)) bs := by
    refine hinv.setCount (fun c hc => ⟨_, mem_cons_of_mem _ hc⟩) fun c hc => ?_
    have := countP_cons b bs c
    split
    · next hdata =>
      rw [if_pos hdata] at this
      simp only [hdata] at this ⊢
      omega
    · next hdata =>
      rw [this, if_neg hdata, add_zero]
  have hmem : ∀ a, ((h.setCount b.data ((h.mem b.data).count - 1)).mem a).data = (h.mem a).data :=
    fun a => by rw [Heap.mem_setCount]
  have hother : ∀ a, a ≠ b.data →
      (h.setCount b.data ((h.mem b.data).count - 1)).mem a = h.mem a :=
    fun a ha => Heap.mem_set_ne _ _ ha
  have hne : ∀ {a}, Unused h (b :: bs) a → a ≠ b.data := fun hu => (hu.other b mem_cons_self).symm
  have hunused : ∀ a, Unused h (b :: bs) a →
      Unused (h.setCount b.data ((h.mem b.data).count - 1)) bs a := by
    intro a hu
    refine ⟨hu.made, hu.freeList, fun c hc => hu.other c (mem_cons_of_mem _ hc), ?_⟩
    rw [hother a (hne hu)]
    exact hu.count
  rw [Heap.release]
  split
  · next hzero =>
    -- the last reference: no other buffer has the array
    have hlast : ∀ c ∈ bs, c.data ≠ b.data := by
      intro c hc heq
      have hcount := hdrop.count c hc
      simp only [heq, hzero] at hcount
      have := countP_eq_zero.1 hcount.symm c hc
      simp [heq] at this
    obtain ⟨l, hl⟩ := ne_none_iff_exists'.1 (hinv.freeList (cons_ne_nil _ _))
    obtain ⟨hnodup, hfree⟩ := hinv.free l hl
    have hnotin : b.data ∉ l := fun hm => (hfree _ hm).2 b mem_cons_self rfl
    simp only [Heap.recycle, Heap.setCount_freeList, hl, bind_some, hzero, if_true]
    split
    · refine ⟨_, rfl, hdrop.same (fun _ _ => ⟨rfl, rfl, rfl, rfl⟩) le_rfl (fun _ => some_ne_none _)
        ?_, hmem, hother, fun a hu => ?_⟩
      · intro l' hl'
        cases hl'
        exact ⟨hnodup, fun a ha =>
          ⟨(hfree a ha).1, fun c hc => (hfree a ha).2 c (mem_cons_of_mem _ hc)⟩⟩
      · obtain ⟨l', hl', hal⟩ := hu.freeList
        cases hl.symm.trans hl'
        exact ⟨hu.made, ⟨l, rfl, hal⟩, (hunused a hu).other, (hunused a hu).count⟩
    · refine ⟨_, rfl, hdrop.same (fun _ _ => ⟨rfl, rfl, rfl, rfl⟩) le_rfl (fun _ => some_ne_none _)
        ?_, hmem, hother, fun a hu => ?_⟩
      · intro l' hl'
        cases hl'
        refine ⟨nodup_cons.2 ⟨hnotin, hnodup⟩, forall_mem_cons.2 ⟨?_, ?_⟩⟩
        · exact ⟨hinv.made b mem_cons_self, hlast⟩
        · exact fun a ha => ⟨(hfree a ha).1, fun c hc => (hfree a ha).2 c (mem_cons_of_mem _ hc)⟩
      · obtain ⟨l', hl', hal⟩ := hu.freeList
        cases hl.symm.trans hl'
        exact ⟨hu.made, ⟨_, rfl, by simp [hne hu, hal]⟩, (hunused a hu).other, (hunused a hu).count⟩
  · exact ⟨_, rfl, hdrop, hmem, hother, hunused⟩

theorem Inv.addRef (hinv : Inv h bs) (hb : b ∈ bs) (m : Nat) :
    Inv (h.addRef b.data) ({ b with maxZeroAreaStart := m } :: bs) := by
  refine hinv.setCount ?_ fun c hc => ?_
  · refine forall_mem_cons.2 ⟨⟨_, hb⟩, fun c hc => ⟨_, hc⟩⟩
  · have hcons := countP_cons { b with maxZeroAreaStart := m } bs c
    rw [hcons, hinv.count b hb]
    split
    · next hdata => simp only [hdata]
    · next hdata => rw [add_zero]

theorem Heap.mem_setDirty (h : Heap) (a p q a' : Nat) : (h.setDirty a p q).mem a' =
    { h.mem a' with
      dirtyStart := if a' = a then p else (h.mem a').dirtyStart
      dirtyEnd := if a' = a then q else (h.mem a').dirtyEnd } := by
  by_cases ha : a' = a
  · cases ha
    rw [Heap.setDirty, mem_set_self, if_pos rfl, if_pos rfl]
  · rw [Heap.setDirty, mem_set_ne _ _ ha, if_neg ha, if_neg ha]

theorem Heap.setDirty_self (h : Heap) (a : Nat) :
    h.setDirty a (h.mem a).dirtyStart (h.mem a).dirtyEnd = h := by
  simp [setDirty, set]

variable {b' : Buffer}

/-- One buffer gets other offsets, and its array another dirty area, in which the other buffers of
the array lie. -/
theorem Inv.update (hinv : Inv h (b :: bs)) {p q : Nat} (hdata : b'.data = b.data)
    (hoffsets : b'.InOrder) (hdirty : p ≤ b'.start ∧ b'.last ≤ q)
    (hsize : b'.internalEnd ≤ (h.mem b.data).size)
    (hothers : ∀ c ∈ bs, c.data = b.data → p ≤ c.start ∧ c.last ≤ q ∧
      (c.last = q → b'.internalEnd ≤ c.internalEnd ∧ c.last = (h.mem b.data).dirtyEnd) ∧
      (b'.last = q → c.internalEnd ≤ b'.internalEnd)) : Inv (h.setDirty b.data p q) (b' :: bs) where
  fits := by
    refine forall_mem_cons.2 ⟨?_, fun c hc => ?_⟩
    · obtain ⟨h1, h2, h3⟩ := hoffsets
      refine ⟨h1, h2, h3, ?_, ?_, ?_⟩
      all_goals simp only [Heap.mem_setDirty, hdata, if_true]
      · exact hdirty.1
      · exact hdirty.2
      · exact hsize
    · obtain ⟨h1, h2, h3, h4, h5, h6⟩ := hinv.fits c (mem_cons_of_mem _ hc)
      refine ⟨h1, h2, h3, ?_, ?_, ?_⟩
      all_goals simp only [Heap.mem_setDirty]
      · split
        · next heq => exact (hothers c hc heq).1
        · exact h4
      · split
        · next heq => exact (hothers c hc heq).2.1
        · exact h5
      · exact h6
  made := by
    refine forall_mem_cons.2 ⟨hdata ▸ hinv.made b mem_cons_self, fun c hc => ?_⟩
    exact hinv.made c (mem_cons_of_mem _ hc)
  freeList := fun _ => hinv.freeList (cons_ne_nil _ _)
  free := by
    intro l hl
    obtain ⟨hnodup, hfree⟩ := hinv.free l hl
    refine ⟨hnodup, fun a ha => ⟨(hfree a ha).1, forall_mem_cons.2 ⟨?_, fun c hc => ?_⟩⟩⟩
    · exact hdata ▸ (hfree a ha).2 b mem_cons_self
    · exact (hfree a ha).2 c (mem_cons_of_mem _ hc)
  count := by
    intro c hc
    have hold : (h.mem c.data).count = (b :: bs).countP (·.data = c.data) := by
      rcases mem_cons.1 hc with rfl | hc
      · rw [hdata, hinv.count b mem_cons_self]
      · exact hinv.count c (mem_cons_of_mem _ hc)
    rw [Heap.mem_setDirty, hold, countP_cons, countP_cons, hdata]
  reach := by
    intro x hx y hy hxy hlast
    rw [Heap.mem_setDirty] at hlast
    rcases mem_cons.1 hx with rfl | hxs <;> rcases mem_cons.1 hy with rfl | hys
    · exact le_rfl
    · have hyb : y.data = b.data := hxy.symm.trans hdata
      simp only [hyb, if_true] at hlast
      exact ((hothers y hys hyb).2.2.1 hlast).1
    · have hxb : x.data = b.data := hxy.trans hdata
      simp only [hdata, if_true] at hlast
      exact (hothers x hxs hxb).2.2.2 hlast
    · have hold := hinv.reach x (mem_cons_of_mem _ hxs) y (mem_cons_of_mem _ hys) hxy
      dsimp only at hlast
      split at hlast
      · next hyb => exact hold (hyb ▸ ((hothers y hys hyb).2.2.1 hlast).2)
      · exact hold hlast

/-- A buffer loses bytes: one that loses some at its end does not end any more where it did. -/
def Buffer.Shrinks (b b' : Buffer) : Prop :=
  b'.InOrder ∧ b.start ≤ b'.start ∧ b'.last ≤ b.last ∧ b'.internalEnd ≤ b.internalEnd ∧
      (b'.last = b.last → b.internalEnd ≤ b'.internalEnd)

theorem Buffer.InOrder.shrinks_removeAtStart (hb : b.InOrder) (n : Nat) :
    (b.removeAtStart n).data = b.data ∧ b.Shrinks (b.removeAtStart n) := by
  obtain ⟨hstart, hzero, hlast⟩ := hb
  rw [removeAtStart]
  split <;> [skip; split <;> [skip; split]]
  all_goals
    refine ⟨rfl, ?_⟩
    simp only [Shrinks, InOrder, track, internalEnd]
    omega

theorem Buffer.InOrder.shrinks_removeAtEnd (hb : b.InOrder) (n : Nat) :
    (b.removeAtEnd n).data = b.data ∧ b.Shrinks (b.removeAtEnd n) := by
  obtain ⟨hstart, hzero, hlast⟩ := hb
  rw [removeAtEnd]
  split <;> [skip; split <;> [skip; split]]
  all_goals
    refine ⟨rfl, ?_⟩
    simp only [Shrinks, InOrder, track, internalEnd]
    omega

theorem Inv.shrink (hinv : Inv h (b :: bs)) (hdata : b'.data = b.data)
    (hshrink : b.Shrinks b') : Inv h (b' :: bs) := by
  obtain ⟨hoffsets, hstart, hlast, hend, hsame⟩ := hshrink
  have hfits := hinv.fits b mem_cons_self
  have hd := hfits.dirtyStart
  have he := hfits.dirtyEnd
  rw [← h.setDirty_self b.data]
  refine hinv.update hdata hoffsets ⟨hd.trans hstart, hlast.trans he⟩ (hend.trans hfits.internalEnd)
    ?_
  intro c hc hcb
  have hcfits := hinv.fits c (mem_cons_of_mem _ hc)
  refine ⟨hcb ▸ hcfits.dirtyStart, hcb ▸ hcfits.dirtyEnd, fun heq => ⟨?_, heq⟩, fun heq => ?_⟩
  · refine hend.trans (hinv.reach b mem_cons_self c (mem_cons_of_mem _ hc) hcb.symm ?_)
    rw [hcb, heq]
  · have hbl : b.last = (h.mem b.data).dirtyEnd := le_antisymm he (heq ▸ hlast)
    exact (hinv.reach c (mem_cons_of_mem _ hc) b mem_cons_self hcb hbl).trans
      (hsame (heq.trans hbl.symm))

/-- An array that nobody has gets a buffer. -/
theorem Inv.adopt (hinv : Inv h bs) {a : Nat} (hu : Unused h bs a) {b : Buffer} (hdata : b.data = a)
    (hoffsets : b.InOrder) (hsize : b.internalEnd ≤ (h.mem a).size) :
    Inv (h.setDirty a b.start b.last) (b :: bs) where
  fits := by
    refine forall_mem_cons.2 ⟨?_, fun c hc => ?_⟩
    · obtain ⟨h1, h2, h3⟩ := hoffsets
      exact ⟨h1, h2, h3, by simp [Heap.mem_setDirty, hdata], by simp [Heap.mem_setDirty, hdata],
        by simpa [Heap.mem_setDirty, hdata] using hsize⟩
    · obtain ⟨h1, h2, h3, h4, h5, h6⟩ := hinv.fits c hc
      have hne := hu.other c hc
      exact ⟨h1, h2, h3, by simpa [Heap.mem_setDirty, hne] using h4,
        by simpa [Heap.mem_setDirty, hne] using h5, by simpa [Heap.mem_setDirty, hne] using h6⟩
  made := forall_mem_cons.2 ⟨hdata ▸ hu.made, hinv.made⟩
  freeList := by
    intro _
    obtain ⟨l, hl, -⟩ := hu.freeList
    exact ne_none_iff_exists'.2 ⟨l, hl⟩
  free := by
    intro l hl
    obtain ⟨l', hl', hal⟩ := hu.freeList
    cases hl'.symm.trans hl
    refine ⟨(hinv.free l hl).1, fun a' ha' => ⟨((hinv.free l hl).2 a' ha').1,
      forall_mem_cons.2 ⟨fun heq => ?_, ((hinv.free l hl).2 a' ha').2⟩⟩⟩
    exact hal (hdata ▸ heq ▸ ha')
  count := by
    refine forall_mem_cons.2 ⟨?_, fun c hc => ?_⟩
    · have hzero : bs.countP (·.data = b.data) = 0 := by
        rw [countP_eq_zero]
        intro c hc
        simpa [hdata] using hu.other c hc
      rw [countP_cons, if_pos rfl, hzero, Heap.mem_setDirty, hdata, hu.count]
    · have hne : c.data ≠ b.data := hdata ▸ hu.other c hc
      rw [countP_cons, if_neg hne, Heap.mem_setDirty, hinv.count c hc, add_zero]
  reach := by
    intro x hx y hy hxy hlast
    rcases mem_cons.1 hx with rfl | hxs <;> rcases mem_cons.1 hy with rfl | hys
    · exact le_rfl
    · exact absurd (hxy.symm.trans hdata) (hu.other y hys)
    · exact absurd (hxy.trans hdata) (hu.other x hxs)
    · simp only [Heap.mem_setDirty, if_neg (hu.other y hys)] at hlast
      exact hinv.reach x hxs y hys hxy hlast

/-! ## Bytes -/

namespace Buffer

theorem bytes_congr (hoffsets : b.InOrder) (hdata : ∀ i, b.start ≤ i → i < b.internalEnd →
      (h'.mem b.data).data i = (h.mem b.data).data i) : b.bytes h' = b.bytes h := by
  have hend : b.internalEnd = b.zeroAreaStart + (b.last - b.zeroAreaEnd) := by
    rw [internalEnd]
    omega
  rw [bytes, bytes]
  congr 1
  · congr 1
    exact slice_congr fun i h1 h2 => hdata i h1 (by omega)
  · exact slice_congr fun i h1 h2 => hdata i (by omega) (by omega)

variable {n : Nat}

theorem bytes_start (hn : b.start + n ≤ b.zeroAreaStart) : b.bytes h =
    slice (h.mem b.data).data b.start n ++ bytes h { b with start := b.start + n } := by
  have hcut : slice (h.mem b.data).data b.start (b.zeroAreaStart - b.start) =
      slice (h.mem b.data).data b.start n ++
        slice (h.mem b.data).data (b.start + n) (b.zeroAreaStart - (b.start + n)) := by
    rw [slice_append]
    congr 1
    omega
  simp only [bytes, hcut, append_assoc]

theorem bytes_last (hn : b.zeroAreaEnd + n ≤ b.last) : b.bytes h =
    bytes h { b with last := b.last - n } ++
      slice (h.mem b.data).data (b.zeroAreaStart + (b.last - n - b.zeroAreaEnd)) n := by
  have hcut : slice (h.mem b.data).data b.zeroAreaStart (b.last - b.zeroAreaEnd) =
      slice (h.mem b.data).data b.zeroAreaStart (b.last - n - b.zeroAreaEnd) ++
        slice (h.mem b.data).data (b.zeroAreaStart + (b.last - n - b.zeroAreaEnd)) n := by
    rw [slice_append]
    congr 1
    omega
  simp only [bytes, hcut, append_assoc]

theorem length_bytes (hoffsets : b.InOrder) : (b.bytes h).length = b.size := by
  simp only [bytes, length_append, length_slice, length_replicate, size]
  omega

end Buffer

theorem Fits.offsets (hfit : Fits h b) : b.InOrder := ⟨hfit.start_le, hfit.zero_le, hfit.last_le⟩

variable {l : List UInt8} {a p : Nat}

theorem Heap.store_spec (hfit : p + l.length ≤ (h.mem a).size) :
    ∃ h', h.store a p l = some h' ∧ h'.next = h.next ∧ h'.freeList = h.freeList ∧
      (∀ a', SameBounds (h.mem a') (h'.mem a')) ∧ (h'.mem a).data = overwrite (h.mem a).data p l ∧
      ∀ a', a' ≠ a → h'.mem a' = h.mem a' := by
  refine ⟨_, if_pos hfit, rfl, rfl, fun a' => ?_, by rw [mem_set_self],
    fun a' ha => mem_set_ne _ _ ha⟩
  by_cases ha : a' = a
  · cases ha
    rw [mem_set_self]
    exact ⟨rfl, rfl, rfl, rfl⟩
  · rw [mem_set_ne _ _ ha]
    exact ⟨rfl, rfl, rfl, rfl⟩

theorem Buffer.bytes_store (hoffsets : b.InOrder)
    (hdata : (h'.mem a).data = overwrite (h.mem a).data p l)
    (hother : ∀ a', a' ≠ a → h'.mem a' = h.mem a')
    (hout : b.data = a → p + l.length ≤ b.start ∨ b.internalEnd ≤ p) : b.bytes h' = b.bytes h := by
  refine bytes_congr hoffsets fun i h1 h2 => ?_
  by_cases ha : b.data = a
  · rw [ha, hdata]
    have := hout ha
    exact overwrite_of_outside (by omega)
  · rw [hother _ ha]

theorem Inv.store (hinv : Inv h bs) (hfit : p + l.length ≤ (h.mem a).size)
    (hout : ∀ b ∈ bs, b.data = a → p + l.length ≤ b.start ∨ b.internalEnd ≤ p) :
    ∃ h', h.store a p l = some h' ∧ Inv h' bs ∧ (∀ b ∈ bs, b.bytes h' = b.bytes h) ∧
      (∀ a', Unused h bs a' → Unused h' bs a') ∧ (∀ a', SameBounds (h.mem a') (h'.mem a')) ∧
      (h'.mem a).data = overwrite (h.mem a).data p l ∧ ∀ a', a' ≠ a → h'.mem a' = h.mem a' := by
  obtain ⟨h', hstore, hnext, hlist, hbounds, hdata, hother⟩ := Heap.store_spec hfit
  refine ⟨h', hstore, ?_, fun b hb => ?_, fun a' hu => ?_, hbounds, hdata, hother⟩
  · refine hinv.same (fun b _ => hbounds b.data) hnext.ge (fun hne => hlist ▸ hinv.freeList hne) ?_
    rw [hlist, hnext]
    exact hinv.free
  · exact Buffer.bytes_store (hinv.fits b hb).offsets hdata hother (hout b hb)
  · exact ⟨hnext ▸ hu.made, hlist ▸ hu.freeList, hu.other, (hbounds a').1.trans hu.count⟩

variable (garbage) in
theorem Inv.reallocate (hinv : Inv h (b :: bs)) (offset extra : Nat) (hoffset : offset ≤ extra) :
    ∃ h' a, b.reallocate garbage h offset extra = some (h', b.moved a offset) ∧ Inv h' bs ∧
      Unused h' bs a ∧ (∀ c ∈ bs, c.bytes h' = c.bytes h) ∧
      b.internalSize + extra ≤ (h'.mem a).size ∧
      slice (h'.mem a).data offset b.internalSize = slice (h.mem b.data).data b.start
      b.internalSize := by
  have hfit := hinv.fits b mem_cons_self
  obtain ⟨hstart, hzero, hlast⟩ := hfit.offsets
  obtain ⟨h₁, a, hcreate, hinv₁, hsame₁, hunused₁, hsize₁⟩ :=
    hinv.create garbage (b.internalSize + extra)
  have hfit₁ := (hinv₁.fits b mem_cons_self).internalEnd
  have hread : h₁.read b.data b.start b.internalSize =
      some (slice (h.mem b.data).data b.start b.internalSize) := by
    have hbound : b.start + b.internalSize ≤ (h₁.mem b.data).size := by
      simp only [Buffer.internalSize, Buffer.internalEnd] at *
      omega
    rw [Heap.read, if_pos hbound, hsame₁ b mem_cons_self]
  obtain ⟨h₂, hstore, hinv₂, hbytes₂, hunused₂, hbounds₂, hdata₂, -⟩ :=
    hinv₁.store (a := a) (p := offset) (l := slice (h.mem b.data).data b.start b.internalSize)
      (by rw [length_slice]; omega) (fun c hc heq => absurd heq (hunused₁.other c hc))
  obtain ⟨h₃, hrelease, hinv₃, hdata₃, hother₃, hunused₃⟩ := hinv₂.release
  have ha : a ≠ b.data := (hunused₁.other b mem_cons_self).symm
  refine ⟨h₃, a, ?_, hinv₃, hunused₃ a (hunused₂ a hunused₁), fun c hc => ?_, ?_, ?_⟩
  · simp [Buffer.reallocate, hcreate, hread, hstore, hrelease]
  · have hc' := mem_cons_of_mem b hc
    have hoff := (hinv.fits c hc').offsets
    have hbytes₁ : c.bytes h₁ = c.bytes h :=
      Buffer.bytes_congr hoff fun i _ _ => by rw [hsame₁ c hc']
    rw [← hbytes₁, ← hbytes₂ c hc']
    exact Buffer.bytes_congr hoff fun i _ _ => by rw [hdata₃]
  · rw [hother₃ a ha, (hbounds₂ a).2.1]
    exact hsize₁
  · rw [hdata₃, hdata₂]
    have := slice_overwrite (f := (h₁.mem a).data) (p := offset)
      (l := slice (h.mem b.data).data b.start b.internalSize)
    rwa [length_slice] at this

/-! ## Growing -/

theorem Buffer.bytes_move {a offset : Nat} (hoffsets : b.InOrder)
    (hslice : slice (h'.mem a).data offset b.internalSize =
      slice (h.mem b.data).data b.start b.internalSize) : (b.moved a offset).bytes h' =
        b.bytes h := by
  have hfront := slice_eq_of_slice_eq (k := 0) (m := b.zeroAreaStart - b.start) hslice
    (by rw [internalSize]; omega)
  have hback := slice_eq_of_slice_eq (k := b.zeroAreaStart - b.start) (m := b.last - b.zeroAreaEnd)
    hslice (by rw [internalSize])
  have hstart : b.start + (b.zeroAreaStart - b.start) = b.zeroAreaStart := by omega
  rw [hstart, Nat.add_comm offset] at hback
  rw [add_zero, add_zero] at hfront
  have hzero : b.zeroAreaEnd - b.start + offset - (b.zeroAreaStart - b.start + offset) =
      b.zeroAreaEnd - b.zeroAreaStart := by omega
  have hlast : b.last - b.start + offset - (b.zeroAreaEnd - b.start + offset) =
      b.last - b.zeroAreaEnd := by omega
  simp only [bytes, moved, Nat.add_sub_cancel_right, hfront, hback, hzero, hlast]

theorem Inv.alone (hinv : Inv h (b :: bs)) (hone : (h.mem b.data).count = 1) :
    ∀ c ∈ bs, c.data ≠ b.data := by
  have hcount := hinv.count b mem_cons_self
  rw [countP_cons, if_pos rfl, hone] at hcount
  have hzero : bs.countP (·.data = b.data) = 0 := by omega
  intro c hc
  simpa using countP_eq_zero.1 hzero c hc

theorem Inv.count_pos (hinv : Inv h (b :: bs)) : 1 ≤ (h.mem b.data).count := by
  rw [hinv.count b mem_cons_self, countP_cons, if_pos rfl]
  omega

theorem Buffer.bytes_setDirty {a p q : Nat} : b.bytes (h.setDirty a p q) = b.bytes h := by
  simp only [bytes, Heap.mem_setDirty]

variable (garbage) in
/-- `AddAtStart`: the new bytes are a free stretch before the old ones. -/
theorem Inv.addAtStart (hinv : Inv h (b :: bs)) (n : Nat) :
    ∃ h' b', b.addAtStart garbage h n = some (h', b') ∧
    Inv h' (b' :: bs) ∧ (∀ c ∈ bs, c.bytes h' = c.bytes h) ∧ b'.start + n ≤ b'.zeroAreaStart ∧
    Buffer.bytes h' { b' with start := b'.start + n } = b.bytes h ∧
    ∀ c ∈ bs, c.data = b'.data → b'.start + n ≤ c.start := by
  have hfit := hinv.fits b mem_cons_self
  obtain ⟨hstart, hzero, hlast⟩ := hfit.offsets
  rw [Buffer.addAtStart]
  dsimp only
  split
  · next hplace =>
    obtain ⟨hroom, hclean⟩ := hplace
    have hpos := hinv.count_pos
    have hdirty := hfit.dirtyStart
    have hborder : (h.mem b.data).count = 1 ∨ b.start = (h.mem b.data).dirtyStart := by omega
    have hfree : ∀ c ∈ bs, c.data = b.data → b.start ≤ c.start := by
      intro c hc heq
      rcases hborder with hone | hb
      · exact absurd heq (hinv.alone hone c hc)
      · have := (hinv.fits c (mem_cons_of_mem _ hc)).dirtyStart
        rw [heq] at this
        omega
    rw [if_pos hborder]
    refine ⟨_, _, rfl, ?_, fun c _ => Buffer.bytes_setDirty, ?_, ?_, fun c hc heq => ?_⟩
    · refine hinv.update (show (Buffer.track { b with start := b.start - n }).data =
        b.data from rfl) ⟨by simp only [Buffer.track]; omega, hzero, hlast⟩ ⟨le_rfl,
        hfit.dirtyEnd⟩ hfit.internalEnd ?_
      intro c hc heq
      have hcfit := hinv.fits c (mem_cons_of_mem _ hc)
      have hcstart := hfree c hc heq
      refine ⟨by omega, heq ▸ hcfit.dirtyEnd, fun hcl => ⟨?_, hcl⟩, fun hbl => ?_⟩
      · exact hinv.reach b mem_cons_self c (mem_cons_of_mem _ hc) heq.symm (heq ▸ hcl)
      · exact hinv.reach c (mem_cons_of_mem _ hc) b mem_cons_self heq hbl
    · simp only [Buffer.track]
      omega
    · rw [Buffer.bytes_setDirty]
      simp only [Buffer.track, Nat.sub_add_cancel hroom]
      rfl
    · have := hfree c hc heq
      simp only [Buffer.track]
      omega
  · obtain ⟨h₁, a, hrealloc, hinv₁, hunused, hbytes, hsize, hslice⟩ :=
      hinv.reallocate garbage n n le_rfl
    rw [hrealloc]
    refine ⟨_, _, rfl, ?_, fun c hc => Buffer.bytes_setDirty.trans (hbytes c hc), ?_, ?_,
      fun c hc heq => ?_⟩
    · refine hinv₁.adopt (b := Buffer.track { b.moved a n with start := n - n }) hunused rfl ?_ ?_
      · simp only [Buffer.InOrder, Buffer.track, Buffer.moved]
        omega
      · simp only [Buffer.internalSize, Buffer.internalEnd, Buffer.track, Buffer.moved] at hsize ⊢
        omega
    · simp only [Buffer.track, Buffer.moved]
      omega
    · rw [Buffer.bytes_setDirty, ← Buffer.bytes_move ⟨hstart, hzero, hlast⟩ hslice]
      simp only [Buffer.track, Buffer.moved, Nat.sub_self, Nat.zero_add]
      rfl
    · exact absurd heq (hunused.other c hc)

variable (garbage) in
/-- `AddAtEnd`: the new bytes are a free stretch after the old ones. -/
theorem Inv.addAtEnd (hinv : Inv h (b :: bs)) (n : Nat) :
    ∃ h' b', b.addAtEnd garbage h n = some (h', b') ∧
    Inv h' (b' :: bs) ∧ (∀ c ∈ bs, c.bytes h' = c.bytes h) ∧ b'.zeroAreaEnd + n ≤ b'.last ∧
    Buffer.bytes h' { b' with last := b'.last - n } = b.bytes h ∧
    ∀ c ∈ bs, c.data = b'.data → c.internalEnd + n ≤ b'.internalEnd := by
  have hfit := hinv.fits b mem_cons_self
  obtain ⟨hstart, hzero, hlast⟩ := hfit.offsets
  rw [Buffer.addAtEnd]
  dsimp only
  split
  · next hplace =>
    obtain ⟨hroom, hclean⟩ := hplace
    have hpos := hinv.count_pos
    have hdirty := hfit.dirtyEnd
    have hborder : (h.mem b.data).count = 1 ∨ b.last = (h.mem b.data).dirtyEnd := by omega
    have hgrow : Buffer.internalEnd { b with last := b.last + n } = b.internalEnd + n := by
      simp only [Buffer.internalEnd]
      omega
    have hfree : ∀ c ∈ bs, c.data = b.data →
        c.internalEnd ≤ b.internalEnd ∧ b.last = (h.mem b.data).dirtyEnd ∧ c.last ≤ b.last := by
      intro c hc heq
      rcases hborder with hone | hb
      · exact absurd heq (hinv.alone hone c hc)
      · have := (hinv.fits c (mem_cons_of_mem _ hc)).dirtyEnd
        rw [heq] at this
        exact ⟨hinv.reach c (mem_cons_of_mem _ hc) b mem_cons_self heq hb, hb, by omega⟩
    rw [if_pos hborder]
    refine ⟨_, _, rfl, ?_, fun c _ => Buffer.bytes_setDirty, ?_, ?_, fun c hc heq => ?_⟩
    · refine hinv.update (show (Buffer.track { b with last := b.last + n }).data = b.data from rfl)
        ⟨hstart, hzero, by simp only [Buffer.track]; omega⟩ ⟨hfit.dirtyStart,
        le_rfl⟩ (hgrow ▸ hroom) ?_
      intro c hc heq
      obtain ⟨hreach, hbl, hcl⟩ := hfree c hc heq
      have hcfit := hinv.fits c (mem_cons_of_mem _ hc)
      refine ⟨heq ▸ hcfit.dirtyStart, by omega, fun hcq => ?_, fun _ => ?_⟩
      · -- nothing is added, and both end at the border
        have hn : n = 0 := by omega
        have hcb : c.last = (h.mem b.data).dirtyEnd := by omega
        refine ⟨?_, hcb⟩
        have hback := hinv.reach b mem_cons_self c (mem_cons_of_mem _ hc) heq.symm (heq ▸ hcb)
        exact hgrow.le.trans (by omega)
      · exact (hreach.trans (Nat.le_add_right _ n)).trans hgrow.ge
    · simp only [Buffer.track]
      omega
    · rw [Buffer.bytes_setDirty]
      simp only [Buffer.track, Nat.add_sub_cancel]
      rfl
    · have := (hfree c hc heq).1
      exact (Nat.add_le_add_right this n).trans hgrow.ge
  · obtain ⟨h₁, a, hrealloc, hinv₁, hunused, hbytes, hsize, hslice⟩ :=
      hinv.reallocate garbage 0 n (Nat.zero_le _)
    rw [hrealloc]
    refine ⟨_, _, rfl, ?_, fun c hc => Buffer.bytes_setDirty.trans (hbytes c hc), ?_, ?_,
      fun c hc heq => ?_⟩
    · refine hinv₁.adopt (b := Buffer.track { b.moved a 0 with last := (b.moved a 0).last + n })
        hunused rfl ?_ ?_
      · simp only [Buffer.InOrder, Buffer.track, Buffer.moved]
        omega
      · simp only [Buffer.internalSize, Buffer.internalEnd, Buffer.track, Buffer.moved] at hsize ⊢
        omega
    · simp only [Buffer.track, Buffer.moved]
      omega
    · rw [Buffer.bytes_setDirty, ← Buffer.bytes_move ⟨hstart, hzero, hlast⟩ hslice]
      simp only [Buffer.track, Nat.add_sub_cancel]
      rfl
    · exact absurd heq (hunused.other c hc)

theorem Inv.storeStart (hinv : Inv h (b :: bs)) (hroom : b.start + l.length ≤ b.zeroAreaStart)
    (hfree : ∀ c ∈ bs, c.data = b.data → b.start + l.length ≤ c.start) :
    ∃ h', h.store b.data b.start l = some h' ∧ Inv h' (b :: bs) ∧
      (∀ c ∈ bs, c.bytes h' = c.bytes h) ∧
        b.bytes h' = l ++ Buffer.bytes h { b with start := b.start + l.length } := by
  have hfit := hinv.fits b mem_cons_self
  obtain ⟨hstart, hzero, hlast⟩ := hfit.offsets
  have hsize := hfit.internalEnd
  obtain ⟨h', hstore, hnext, hlist, hbounds, hdata, hother⟩ :=
    Heap.store_spec (h := h) (a := b.data) (p := b.start) (l := l) (by
      simp only [Buffer.internalEnd] at hsize
      omega)
  refine ⟨h', hstore, ?_, fun c hc => ?_, ?_⟩
  · exact hinv.same (fun c _ => hbounds c.data) hnext.ge (fun hne => hlist ▸ hinv.freeList hne)
      (hlist ▸ hnext ▸ hinv.free)
  · exact Buffer.bytes_store (hinv.fits c (mem_cons_of_mem _ hc)).offsets hdata hother
      fun heq => Or.inl (hfree c hc heq)
  · rw [Buffer.bytes_start hroom, hdata, slice_overwrite]
    congr 1
    exact Buffer.bytes_store ⟨hroom, hzero, hlast⟩ hdata hother fun _ => Or.inl le_rfl

variable (garbage) in
theorem Inv.prepend (hinv : Inv h (b :: bs)) (l : List UInt8) : ∃ h' b',
    b.prepend garbage h l = some (h', b') ∧ Inv h' (b' :: bs) ∧ (∀ c ∈ bs, c.bytes h' = c.bytes h) ∧
    b'.bytes h' = l ++ b.bytes h := by
  obtain ⟨h₁, b', hadd, hinv₁, hbytes, hroom, hold, hfree⟩ := hinv.addAtStart garbage l.length
  obtain ⟨hstart, hzero, hlast⟩ := (hinv₁.fits b' mem_cons_self).offsets
  have hcheck : b'.begin.CheckNoZero b'.begin.current l.length := by
    simp only [Iterator.CheckNoZero, Buffer.begin]
    omega
  have htarget : b'.begin.target = b'.start := if_pos hstart
  obtain ⟨h₂, hstore, hinv₂, hbytes₂, hnew⟩ := hinv₁.storeStart hroom hfree
  refine ⟨h₂, b', ?_, hinv₂, fun c hc => (hbytes₂ c hc).trans (hbytes c hc),
    hnew.trans (by rw [hold])⟩
  simp only [Buffer.prepend, hadd, bind_some, Iterator.write, if_pos hcheck, htarget]
  rw [show b'.begin.data = b'.data from rfl, hstore]
  rfl

variable (garbage) in
theorem Inv.prependU8 (hinv : Inv h (b :: bs)) (v : UInt8) (n : Nat) : ∃ h₁ h' b',
    b.addAtStart garbage h n = some (h₁, b') ∧ b'.begin.writeU8 h₁ v n = some h' ∧
    Inv h' (b' :: bs) ∧
    (∀ c ∈ bs, c.bytes h' = c.bytes h) ∧ b'.bytes h' = replicate n v ++ b.bytes h := by
  obtain ⟨h₁, b', hadd, hinv₁, hbytes, hroom, hold, hfree⟩ := hinv.addAtStart garbage n
  obtain ⟨hstart, hzero, hlast⟩ := (hinv₁.fits b' mem_cons_self).offsets
  have hcheck : b'.begin.CheckNoZero b'.begin.current (b'.begin.current + n) := by
    simp only [Iterator.CheckNoZero, Buffer.begin]
    omega
  have htarget : b'.begin.target = b'.start := if_pos hstart
  have hlen : (replicate n v).length = n := length_replicate
  obtain ⟨h₂, hstore, hinv₂, hbytes₂, hnew⟩ := hinv₁.storeStart (l := replicate n v)
    (hlen.symm ▸ hroom) (hlen.symm ▸ hfree)
  rw [hlen, hold] at hnew
  refine ⟨h₁, h₂, b', hadd, ?_, hinv₂, fun c hc => (hbytes₂ c hc).trans (hbytes c hc), hnew⟩
  rw [Iterator.writeU8, if_pos hcheck, htarget]
  exact hstore

theorem Iterator.target_eq {it : Iterator} (hzero : it.zeroStart ≤ it.zeroEnd)
    (hcurrent : it.zeroEnd ≤ it.current) :
    it.target = it.zeroStart + (it.current - it.zeroEnd) := by
  rw [target]
  split <;> omega

theorem Inv.storeEnd (hinv : Inv h (b :: bs)) (hroom : b.zeroAreaEnd + l.length ≤ b.last)
    (hfree : ∀ c ∈ bs, c.data = b.data → c.internalEnd + l.length ≤ b.internalEnd) :
    ∃ h', h.store b.data (b.zeroAreaStart + (b.last - l.length - b.zeroAreaEnd)) l = some h' ∧
      Inv h' (b :: bs) ∧ (∀ c ∈ bs, c.bytes h' = c.bytes h) ∧
      b.bytes h' = Buffer.bytes h { b with last := b.last - l.length } ++ l := by
  have hfit := hinv.fits b mem_cons_self
  obtain ⟨hstart, hzero, hlast⟩ := hfit.offsets
  have hsize := hfit.internalEnd
  obtain ⟨h', hstore, hnext, hlist, hbounds, hdata, hother⟩ :=
    Heap.store_spec (h := h) (a := b.data)
      (p := b.zeroAreaStart + (b.last - l.length - b.zeroAreaEnd)) (l := l) (by
      simp only [Buffer.internalEnd] at hsize
      omega)
  refine ⟨h', hstore, ?_, fun c hc => ?_, ?_⟩
  · exact hinv.same (fun c _ => hbounds c.data) hnext.ge (fun hne => hlist ▸ hinv.freeList hne)
      (hlist ▸ hnext ▸ hinv.free)
  · refine Buffer.bytes_store (hinv.fits c (mem_cons_of_mem _ hc)).offsets hdata hother
      fun heq => Or.inr ?_
    have := hfree c hc heq
    simp only [Buffer.internalEnd] at this ⊢
    omega
  · rw [Buffer.bytes_last hroom, hdata, slice_overwrite]
    congr 1
    refine Buffer.bytes_store ⟨hstart, hzero, by dsimp only; omega⟩ hdata hother fun _ => Or.inr ?_
    simp only [Buffer.internalEnd]
    omega

variable (garbage) in
theorem Inv.append (hinv : Inv h (b :: bs)) (l : List UInt8) : ∃ h' b',
    b.append garbage h l = some (h', b') ∧ Inv h' (b' :: bs) ∧ (∀ c ∈ bs, c.bytes h' = c.bytes h) ∧
    b'.bytes h' = b.bytes h ++ l := by
  obtain ⟨h₁, b', hadd, hinv₁, hbytes, hroom, hold, hfree⟩ := hinv.addAtEnd garbage l.length
  obtain ⟨hstart, hzero, hlast⟩ := (hinv₁.fits b' mem_cons_self).offsets
  have hprev : b'.endIterator.prev l.length =
    some { b'.endIterator with current := b'.last - l.length } :=
    if_pos (show l.length ≤ b'.last by omega)
  have hcheck : Iterator.CheckNoZero { b'.endIterator with current := b'.last - l.length }
      (b'.last - l.length) l.length := by
    simp only [Iterator.CheckNoZero, Buffer.endIterator]
    omega
  have htarget : Iterator.target { b'.endIterator with current := b'.last - l.length } =
      b'.zeroAreaStart + (b'.last - l.length - b'.zeroAreaEnd) :=
    Iterator.target_eq hzero (show b'.zeroAreaEnd ≤ b'.last - l.length by omega)
  obtain ⟨h₂, hstore, hinv₂, hbytes₂, hnew⟩ := hinv₁.storeEnd hroom hfree
  refine ⟨h₂, b', ?_, hinv₂, fun c hc => (hbytes₂ c hc).trans (hbytes c hc),
    hnew.trans (by rw [hold])⟩
  simp only [Buffer.append, hadd, bind_some, hprev, Iterator.write, if_pos hcheck, htarget]
  rw [show Iterator.data { b'.endIterator with current := b'.last - l.length } = b'.data from rfl,
    hstore]
  rfl

/-! ## Copies, removals and fragments -/

variable (garbage) in
theorem Inv.construct (hinv : Inv h bs) (n : Nat) : ∃ h' b, Buffer.construct garbage h n = (h', b) ∧
    Inv h' (b :: bs) ∧ (∀ c ∈ bs, c.bytes h' = c.bytes h) ∧ b.bytes h' = replicate n 0 := by
  obtain ⟨h₁, a, hcreate, hinv₁, hsame, hunused, -⟩ := hinv.create garbage 0
  simp only [Buffer.construct, hcreate]
  refine ⟨_, _, rfl, ?_, fun c hc => ?_, ?_⟩
  · refine hinv₁.adopt (b := ⟨a, _, _, _, _, _⟩) hunused rfl ⟨le_rfl, Nat.le_add_right _ n,
      le_rfl⟩ ?_
    simp only [Buffer.internalEnd]
    omega
  · rw [Buffer.bytes_setDirty]
    exact Buffer.bytes_congr (hinv.fits c hc).offsets fun i _ _ => by rw [hsame c hc]
  · simp [Buffer.bytes]

theorem Buffer.bytes_addRef {a : Nat} : b.bytes (h.addRef a) = b.bytes h := by
  simp only [bytes, Heap.addRef, Heap.mem_setCount]

theorem Inv.recommend (hinv : Inv h bs) (n : Nat) : Inv (h.recommend n) bs :=
  hinv.same (fun _ _ => ⟨rfl, rfl, rfl, rfl⟩) le_rfl hinv.freeList hinv.free

theorem Inv.copy (hinv : Inv h bs) (hb : b ∈ bs) : Inv (b.copy h).1 ((b.copy h).2 :: bs) ∧
    (∀ c ∈ bs, c.bytes (b.copy h).1 = c.bytes h) ∧ (b.copy h).2.bytes (b.copy h).1 = b.bytes h :=
  ⟨hinv.addRef hb _, fun _ _ => Buffer.bytes_addRef, Buffer.bytes_addRef⟩

section
variable (hinv : Inv h (b :: bs))
include hinv

theorem Inv.destroy : ∃ h', b.destroy h = some h' ∧ Inv h' bs ∧
    ∀ c ∈ bs, c.bytes h' = c.bytes h := by
  obtain ⟨h', hrelease, hinv', hdata, -⟩ := (hinv.recommend b.maxZeroAreaStart).release
  refine ⟨h', hrelease, hinv', fun c hc => ?_⟩
  exact Buffer.bytes_congr (hinv.fits c (mem_cons_of_mem _ hc)).offsets fun i _ _ => by
    rw [hdata]
    rfl

theorem Inv.assign (ho : o ∈ b :: bs) : ∃ h', b.assign h o = some (h', o) ∧
    Inv h' (o :: bs) ∧ (∀ c ∈ bs, c.bytes h' = c.bytes h) ∧ o.bytes h' = o.bytes h := by
  rw [Buffer.assign]
  split
  · next hdata =>
    have hfit := hinv.fits o ho
    refine ⟨_, rfl, ?_, fun c _ => rfl, rfl⟩
    refine Inv.recommend ?_ _
    rw [← h.setDirty_self b.data]
    refine hinv.update hdata.symm hfit.offsets ⟨hdata ▸ hfit.dirtyStart, hdata ▸ hfit.dirtyEnd⟩
      (hdata ▸ hfit.internalEnd) fun c hc heq => ?_
    have hc' := mem_cons_of_mem b hc
    have hcfit := hinv.fits c hc'
    refine ⟨heq ▸ hcfit.dirtyStart, heq ▸ hcfit.dirtyEnd, fun hcl => ⟨?_, hcl⟩, fun hol => ?_⟩
    · exact hinv.reach o ho c hc' (hdata.symm.trans heq.symm) (heq ▸ hcl)
    · exact hinv.reach c hc' o ho (heq.trans hdata) (hdata ▸ hol)
  · next hdata =>
    have hobs : o ∈ bs := (mem_cons.1 ho).resolve_left fun heq => hdata (by rw [heq])
    obtain ⟨h', hrelease, hinv', hsame, -⟩ := hinv.release
    have hbytes : ∀ c ∈ bs, c.bytes h' = c.bytes h := fun c hc =>
      Buffer.bytes_congr (hinv.fits c (mem_cons_of_mem _ hc)).offsets fun i _ _ => by rw [hsame]
    rw [hrelease]
    refine ⟨_, rfl, (hinv'.addRef hobs o.maxZeroAreaStart).recommend _, fun c hc => ?_, ?_⟩
    · exact Buffer.bytes_addRef.trans (hbytes c hc)
    · exact Buffer.bytes_addRef.trans (hbytes o hobs)

/-- `RemoveAtStart`. -/
theorem Inv.removeAtStart (n : Nat) : Inv h (b.removeAtStart n :: bs) ∧
    (b.removeAtStart n).bytes h = (b.bytes h).drop n := by
  have hoffsets := (hinv.fits b mem_cons_self).offsets
  obtain ⟨hdata, hshrinks⟩ := hoffsets.shrinks_removeAtStart n
  refine ⟨hinv.shrink hdata hshrinks, ?_⟩
  obtain ⟨hstart, hzero, hlast⟩ := hoffsets
  simp only [Buffer.bytes, append_assoc, drop_append, drop_slice, drop_replicate, length_slice,
    length_replicate]
  by_cases h1 : b.start + n ≤ b.zeroAreaStart
  · -- only bytes before the zero area
    rw [Buffer.removeAtStart, if_pos h1]
    have h0 : n - (b.zeroAreaStart - b.start) = 0 := by omega
    simp only [Buffer.track, h0, Nat.zero_sub, Nat.sub_zero, add_zero, Nat.sub_add_eq]
  · have h0 : b.zeroAreaStart - b.start - n = 0 := by omega
    by_cases h2 : b.start + n ≤ b.zeroAreaEnd
    · -- the bytes before the zero area and some zeros
      rw [Buffer.removeAtStart, if_neg h1, if_pos h2]
      have hz : b.zeroAreaEnd - (b.start + n - b.zeroAreaStart) - b.zeroAreaStart =
          b.zeroAreaEnd - b.zeroAreaStart - (n - (b.zeroAreaStart - b.start)) := by omega
      have hb : b.last - (b.start + n - b.zeroAreaStart) -
          (b.zeroAreaEnd - (b.start + n - b.zeroAreaStart)) = b.last - b.zeroAreaEnd := by omega
      have hc : n - (b.zeroAreaStart - b.start) - (b.zeroAreaEnd - b.zeroAreaStart) = 0 := by
        omega
      simp only [Buffer.track, Nat.sub_self, slice_zero, h0, hz, hb, hc, Nat.sub_zero, add_zero]
    · have hz : b.zeroAreaEnd - b.zeroAreaStart - (n - (b.zeroAreaStart - b.start)) = 0 := by omega
      by_cases h3 : b.start + n ≤ b.last
      · -- all zeros and some bytes after them
        rw [Buffer.removeAtStart, if_neg h1, if_neg h2, if_pos h3]
        have hp : b.zeroAreaStart + (n - (b.zeroAreaStart - b.start) -
            (b.zeroAreaEnd - b.zeroAreaStart)) =
            b.start + n - (b.zeroAreaEnd - b.zeroAreaStart) := by omega
        have hb : b.last - b.zeroAreaEnd - (n - (b.zeroAreaStart - b.start) -
            (b.zeroAreaEnd - b.zeroAreaStart)) = b.last - (b.zeroAreaEnd - b.zeroAreaStart) -
            (b.start + n - (b.zeroAreaEnd - b.zeroAreaStart)) := by omega
        simp only [Buffer.track, Nat.sub_self, slice_zero, replicate_zero, h0, hz, hp, hb]
      · -- everything
        rw [Buffer.removeAtStart, if_neg h1, if_neg h2, if_neg h3]
        have hb : b.last - b.zeroAreaEnd - (n - (b.zeroAreaStart - b.start) -
            (b.zeroAreaEnd - b.zeroAreaStart)) = 0 := by omega
        simp only [Buffer.track, Nat.sub_self, slice_zero, replicate_zero, h0, hz, hb]

/-- `RemoveAtEnd`. -/
theorem Inv.removeAtEnd (n : Nat) : Inv h (b.removeAtEnd n :: bs) ∧
    (b.removeAtEnd n).bytes h = (b.bytes h).take (b.size - n) := by
  have hoffsets := (hinv.fits b mem_cons_self).offsets
  obtain ⟨hdata, hshrinks⟩ := hoffsets.shrinks_removeAtEnd n
  refine ⟨hinv.shrink hdata hshrinks, ?_⟩
  obtain ⟨hstart, hzero, hlast⟩ := hoffsets
  have hmin : b.last - min n (b.last - b.start) = max b.start (b.last - n) := by omega
  have hfront : b.last - b.start - n - (b.zeroAreaStart - b.start) =
    b.last - n - b.zeroAreaStart := by omega
  have hback : b.last - n - b.zeroAreaStart - (b.zeroAreaEnd - b.zeroAreaStart) =
    b.last - n - b.zeroAreaEnd := by
    omega
  simp only [Buffer.bytes, Buffer.size, append_assoc, take_append, take_slice, take_replicate,
    length_slice, length_replicate, Buffer.removeAtEnd, hmin, hfront, hback]
  clear hmin hfront hback
  -- where the buffer ends then
  obtain ⟨last, hnew⟩ : ∃ last, last = max b.start (b.last - n) := ⟨_, rfl⟩
  have hge : b.start ≤ last := hnew ▸ Nat.le_max_left _ _
  have hle : last ≤ b.last := by omega
  have hcut : ∀ {k m : Nat}, b.start ≤ k → min (b.last - n) m - k = min last m - k := by omega
  rw [← hnew, Nat.sub_right_comm, Nat.sub_min_sub_right, Nat.sub_min_sub_right,
    Nat.sub_min_sub_right, hcut le_rfl, hcut hstart, hcut (hstart.trans hzero), min_eq_left hle]
  clear hnew hcut
  by_cases h1 : last > b.zeroAreaEnd
  · rw [if_pos h1]
    rw [min_eq_right (by omega), min_eq_right (by omega)]
    rfl
  · rw [if_neg h1, Nat.sub_eq_zero_of_le (not_lt.1 h1), min_eq_left (not_lt.1 h1)]
    by_cases h2 : last > b.zeroAreaStart
    · rw [if_pos h2, min_eq_right (by omega)]
      simp only [Buffer.track, Nat.sub_self]
    · rw [if_neg h2, Nat.sub_eq_zero_of_le (not_lt.1 h2), min_eq_left (not_lt.1 h2)]
      by_cases h3 : last > b.start
      · rw [if_pos h3]
        simp only [Buffer.track, Nat.sub_self, slice_zero]
      · rw [if_neg h3, Nat.sub_eq_zero_of_le (not_lt.1 h3)]
        simp only [Buffer.track, Nat.sub_self, slice_zero]

end

theorem Inv.createFragment (hinv : Inv h bs) (hb : b ∈ bs) {start length : Nat}
    (hrange : start + length ≤ (b.bytes h).length) : Inv (b.createFragment h start length).1
      ((b.createFragment h start length).2 :: bs) ∧
    (∀ c ∈ bs, c.bytes (b.createFragment h start length).1 = c.bytes h) ∧
    (b.createFragment h start length).2.bytes (b.createFragment h start length).1 =
      ((b.bytes h).drop start).take length := by
  obtain ⟨hinv₁, hsame, hcopy⟩ := hinv.copy hb
  obtain ⟨hinv₂, hdrop⟩ := hinv₁.removeAtStart start
  obtain ⟨hinv₃, htake⟩ := hinv₂.removeAtEnd (b.size - (start + length))
  refine ⟨hinv₃, hsame, htake.trans ?_⟩
  have hsize : b.size = (b.bytes h).length := (Buffer.length_bytes (hinv.fits b hb).offsets).symm
  have hrest : ((b.copy h).2.removeAtStart start).size = (b.bytes h).length - start := by
    have hlen := Buffer.length_bytes (h := (b.copy h).1) (hinv₂.fits _ mem_cons_self).offsets
    rw [hdrop, hcopy, length_drop] at hlen
    exact hlen.symm
  rw [hdrop, hcopy, hrest, hsize]
  congr 1
  omega

/-! ## Reading -/

theorem Fits.read_front (hfit : Fits h b) {m : Nat} (hm : m ≤ b.zeroAreaStart - b.start) :
    h.read b.data b.start m = some ((b.bytes h).take m) := by
  obtain ⟨hstart, hzero, hlast⟩ := hfit.offsets
  have hsize := hfit.internalEnd
  have hbound : b.start + m ≤ (h.mem b.data).size := by
    simp only [Buffer.internalEnd] at hsize
    omega
  rw [Heap.read, if_pos hbound, Buffer.bytes, append_assoc,
    take_append_of_le_length (by simpa using hm), take_slice, min_eq_left hm]

theorem Fits.read_back (hfit : Fits h b) {m : Nat} (hm : m ≤ b.last - b.zeroAreaEnd) :
    h.read b.data b.zeroAreaStart m =
      some (((b.bytes h).drop (b.zeroAreaEnd - b.start)).take m) := by
  obtain ⟨hstart, hzero, hlast⟩ := hfit.offsets
  have hsize := hfit.internalEnd
  have hbound : b.zeroAreaStart + m ≤ (h.mem b.data).size := by
    simp only [Buffer.internalEnd] at hsize
    omega
  have hlen : (slice (h.mem b.data).data b.start (b.zeroAreaStart - b.start) ++
      replicate (b.zeroAreaEnd - b.zeroAreaStart) 0).length = b.zeroAreaEnd - b.start := by
    simp only [length_append, length_slice, length_replicate]
    omega
  rw [Heap.read, if_pos hbound, Buffer.bytes, ← hlen, drop_left, take_slice, min_eq_left hm]

theorem Fits.bytes_eq (hfit : Fits h b) :
    b.bytes h = (b.bytes h).take (b.zeroAreaStart - b.start) ++
    replicate (b.zeroAreaEnd - b.zeroAreaStart) 0 ++ (b.bytes h).drop
      (b.zeroAreaEnd - b.start) := by
  obtain ⟨hstart, hzero, hlast⟩ := hfit.offsets
  have hlen : (slice (h.mem b.data).data b.start (b.zeroAreaStart - b.start) ++
      replicate (b.zeroAreaEnd - b.zeroAreaStart) 0).length = b.zeroAreaEnd - b.start := by
    simp only [length_append, length_slice, length_replicate]
    omega
  have hdrop : (b.bytes h).drop (b.zeroAreaEnd - b.start) =
      slice (h.mem b.data).data b.zeroAreaStart (b.last - b.zeroAreaEnd) := by
    rw [Buffer.bytes, ← hlen, drop_left]
  have htake : (b.bytes h).take (b.zeroAreaStart - b.start) =
      slice (h.mem b.data).data b.start (b.zeroAreaStart - b.start) := by
    rw [Buffer.bytes, append_assoc, take_append_of_le_length (by simp), take_slice, Nat.min_self]
  rw [htake, hdrop, Buffer.bytes]

theorem Buffer.copyZeroes_eq (n : Nat) : copyZeroes n = replicate n 0 := by
  induction n using Nat.strong_induction_on with
  | _ n ih =>
    rw [copyZeroes]
    split
    · next hpos =>
      dsimp only
      rw [ih _ (by omega), replicate_append_replicate]
      congr 1
      omega
    · next hpos => rw [Nat.eq_zero_of_not_pos hpos, replicate_zero]

theorem Fits.take_bytes (hfit : Fits h b) (n : Nat) : (b.bytes h).take n =
    (b.bytes h).take (min (b.zeroAreaStart - b.start) n) ++
      replicate (min (b.zeroAreaEnd - b.zeroAreaStart) (n - (b.zeroAreaStart - b.start))) 0 ++
      ((b.bytes h).drop (b.zeroAreaEnd - b.start)).take
        (min (b.last - b.zeroAreaEnd) (n - (b.zeroAreaEnd - b.start))) := by
  obtain ⟨hstart, hzero, hlast⟩ := hfit.offsets
  have hlen : (b.bytes h).length = b.last - b.start := Buffer.length_bytes hfit.offsets
  conv_lhs => rw [hfit.bytes_eq]
  rw [append_assoc, take_append, take_append, take_replicate, take_take,
    length_take, length_replicate, hlen, ← append_assoc]
  have ha : min (b.zeroAreaStart - b.start) (b.last - b.start) = b.zeroAreaStart - b.start := by
    omega
  have hb : n - (b.zeroAreaStart - b.start) - (b.zeroAreaEnd - b.zeroAreaStart) =
    n - (b.zeroAreaEnd - b.start) := by
    omega
  have hc : ∀ m, ((b.bytes h).drop (b.zeroAreaEnd - b.start)).take m =
      ((b.bytes h).drop (b.zeroAreaEnd - b.start)).take (min (b.last - b.zeroAreaEnd) m) := by
    intro m
    rw [take_eq_take_min, length_drop, hlen]
    congr 1
    omega
  rw [ha, hb, hc, Nat.min_comm n, Nat.min_comm (n - _)]

theorem Fits.copyData (hfit : Fits h b) (n : Nat) : b.copyData h n = some ((b.bytes h).take n) := by
  obtain ⟨hstart, hzero, hlast⟩ := hfit.offsets
  rw [Buffer.copyData]
  split
  · next hpos =>
    dsimp only
    rw [hfit.read_front (Nat.min_le_left ..), bind_some, hfit.take_bytes n]
    split
    · next h1 =>
      have hn : n - min (b.zeroAreaStart - b.start) n = n - (b.zeroAreaStart - b.start) := by omega
      rw [hn, hfit.read_back (Nat.min_le_left ..), map_some, Buffer.copyZeroes_eq]
      split
      · next h2 =>
        have hm : n - (b.zeroAreaStart - b.start) -
            min (b.zeroAreaEnd - b.zeroAreaStart) (n - (b.zeroAreaStart - b.start)) =
            n - (b.zeroAreaEnd - b.start) := by omega
        rw [hm]
      · next h2 =>
        have hback : n - (b.zeroAreaEnd - b.start) = 0 := by omega
        simp [hback]
    · next h1 =>
      have hzeroes : n - (b.zeroAreaStart - b.start) = 0 := by omega
      have hback : n - (b.zeroAreaEnd - b.start) = 0 := by omega
      simp [hzeroes, hback]
  · next hpos =>
    rw [Nat.eq_zero_of_not_pos hpos, take_zero]

theorem Buffer.copyDataStream_eq (b : Buffer) (h : Heap) (n : Nat) :
    b.copyDataStream h n = b.copyData h n := by
  have hrest : n > min (b.zeroAreaStart - b.start) n ↔
    n - min (b.zeroAreaStart - b.start) n > 0 := by omega
  have hsize (hmore : n - min (b.zeroAreaStart - b.start) n > 0) :
      n - (b.zeroAreaStart - b.start) = n - min (b.zeroAreaStart - b.start) n := by omega
  have hback (k m : Nat) : k > min m k ↔ k - min m k > 0 := by omega
  unfold copyDataStream copyData
  simp only [hrest]
  refine if_congr Iff.rfl (bind_congr fun bytes _ => ?_) rfl
  split
  · next hmore => simp only [hsize hmore, hback]
  · rfl

/-! ## A real buffer -/

/-- The number of virtual zeros. -/
def Buffer.zeroSize (b : Buffer) : Nat := b.zeroAreaEnd - b.zeroAreaStart

section
variable (hstart : b.start ≤ b.zeroAreaStart)
include hstart

variable {r : Heap × Buffer}

theorem Buffer.zeroSize_reallocate {offset extra : Nat}
    (hr : b.reallocate garbage h offset extra = some r) : r.2.zeroSize = b.zeroSize := by
  obtain ⟨bytes, -, hr⟩ := bind_eq_some_iff.1 hr
  obtain ⟨h₁, -, hr⟩ := bind_eq_some_iff.1 hr
  obtain ⟨h₂, -, rfl⟩ := map_eq_some_iff.1 hr
  simp only [zeroSize, moved]
  omega

theorem Buffer.zeroSize_addAtStart
    (hr : b.addAtStart garbage h n = some r) : r.2.zeroSize = b.zeroSize := by
  rw [addAtStart] at hr
  dsimp only at hr
  split at hr
  · obtain ⟨-, hr⟩ := ite_none_right_eq_some.1 hr
    cases hr
    rfl
  · obtain ⟨r', hr', rfl⟩ := map_eq_some_iff.1 hr
    have hsame := zeroSize_reallocate hstart hr'
    exact hsame

theorem Buffer.zeroSize_addAtEnd
    (hr : b.addAtEnd garbage h n = some r) : r.2.zeroSize = b.zeroSize := by
  rw [addAtEnd] at hr
  dsimp only at hr
  split at hr
  · obtain ⟨-, hr⟩ := ite_none_right_eq_some.1 hr
    cases hr
    rfl
  · obtain ⟨r', hr', rfl⟩ := map_eq_some_iff.1 hr
    have hsame := zeroSize_reallocate hstart hr'
    exact hsame

theorem Buffer.zeroSize_prepend
    (hr : b.prepend garbage h l = some r) : r.2.zeroSize = b.zeroSize := by
  obtain ⟨r', hr', hr⟩ := bind_eq_some_iff.1 hr
  obtain ⟨h₁, -, rfl⟩ := map_eq_some_iff.1 hr
  have hsame := zeroSize_addAtStart hstart hr'
  exact hsame

theorem Buffer.zeroSize_append
    (hr : b.append garbage h l = some r) : r.2.zeroSize = b.zeroSize := by
  obtain ⟨r', hr', hr⟩ := bind_eq_some_iff.1 hr
  obtain ⟨it, -, hr⟩ := bind_eq_some_iff.1 hr
  obtain ⟨h₁, -, rfl⟩ := map_eq_some_iff.1 hr
  have hsame := zeroSize_addAtEnd hstart hr'
  exact hsame

end

theorem Fits.read_all (hfit : Fits h b) (hz : b.zeroSize = 0) :
    h.read b.data b.start b.size = some (b.bytes h) := by
  obtain ⟨hstart, hzero, hlast⟩ := hfit.offsets
  have hsize := hfit.internalEnd
  have hze : b.zeroAreaEnd = b.zeroAreaStart := by
    rw [Buffer.zeroSize] at hz
    omega
  have hbound : b.start + b.size ≤ (h.mem b.data).size := by
    simp only [Buffer.internalEnd, Buffer.size] at hsize ⊢
    omega
  rw [Heap.read, if_pos hbound, Buffer.bytes, hze, Nat.sub_self, replicate_zero, append_nil,
    slice_trans hstart (hze ▸ hlast), Buffer.size]

variable (garbage) in
/-- `CreateFullCopy`: a buffer of its own with the same bytes, and without virtual zeros. -/
theorem Inv.createFullCopy (hinv : Inv h bs) (hb : b ∈ bs) : ∃ h' t,
    b.createFullCopy garbage h = some (h', t) ∧ Inv h' (t :: bs) ∧
    (∀ c ∈ bs, c.bytes h' = c.bytes h) ∧
    t.bytes h' = b.bytes h ∧ t.zeroSize = 0 := by
  rw [Buffer.createFullCopy]
  split
  · next hz =>
    obtain ⟨h₁, t₁, hcreate, hinv₁, hsame₁, hbytes₁⟩ := hinv.construct garbage 0
    obtain ⟨h₂, h₃, t₂, hadd, hwrite, hinv₂, hsame₂, hbytes₂⟩ :=
      hinv₁.prependU8 garbage 0 (b.zeroAreaEnd - b.zeroAreaStart)
    have hfront := (hinv₂.fits b (mem_cons_of_mem _ hb)).read_front le_rfl
    obtain ⟨h₄, t₃, hprepend, hinv₃, hsame₃, hbytes₃⟩ :=
      hinv₂.prepend garbage ((b.bytes h₃).take (b.zeroAreaStart - b.start))
    have hback := (hinv₃.fits b (mem_cons_of_mem _ hb)).read_back le_rfl
    obtain ⟨h₅, t₄, happend, hinv₄, hsame₄, hbytes₄⟩ := hinv₃.append garbage
      (((b.bytes h₄).drop (b.zeroAreaEnd - b.start)).take (b.last - b.zeroAreaEnd))
    have hold₃ : ∀ c ∈ bs, c.bytes h₃ = c.bytes h := fun c hc => (hsame₂ c hc).trans (hsame₁ c hc)
    have hold₄ : ∀ c ∈ bs, c.bytes h₄ = c.bytes h := fun c hc => (hsame₃ c hc).trans (hold₃ c hc)
    refine ⟨h₅, t₄, ?_, hinv₄, fun c hc => (hsame₄ c hc).trans (hold₄ c hc), ?_, ?_⟩
    · simp only [hcreate, hadd, bind_some, hwrite, hfront, hprepend, hback, happend]
    · have hfit := hinv.fits b hb
      have hlen : (b.bytes h).length = b.last - b.start := Buffer.length_bytes hfit.offsets
      have hrest : ((b.bytes h).drop (b.zeroAreaEnd - b.start)).take (b.last - b.zeroAreaEnd) =
          (b.bytes h).drop (b.zeroAreaEnd - b.start) := by
        refine take_of_length_le ?_
        have := hfit.zero_le
        have := hfit.start_le
        rw [length_drop, hlen]
        omega
      rw [hbytes₄, hbytes₃, hbytes₂, hbytes₁, hold₃ b hb, hold₄ b hb, hrest, replicate_zero,
        append_nil]
      exact hfit.bytes_eq.symm
    · rw [Buffer.zeroSize_append (hinv₃.fits t₃ mem_cons_self).start_le happend,
        Buffer.zeroSize_prepend (hinv₂.fits t₂ mem_cons_self).start_le hprepend,
        Buffer.zeroSize_addAtStart (hinv₁.fits t₁ mem_cons_self).start_le hadd]
      cases hcreate
      simp [Buffer.zeroSize]
  · next hz =>
    obtain ⟨hinv', hsame, hbytes⟩ := hinv.copy hb
    exact ⟨_, _, rfl, hinv', hsame, hbytes, not_not.1 hz⟩

variable (garbage) in
theorem Inv.transformIntoRealBuffer (hinv : Inv h (b :: bs)) : ∃ h' t,
    b.transformIntoRealBuffer garbage h = some (h', t) ∧ Inv h' (t :: bs) ∧
    (∀ c ∈ bs, c.bytes h' = c.bytes h) ∧ t.bytes h' = b.bytes h ∧ t.zeroSize = 0 := by
  obtain ⟨h₁, t, hcopy, hinv₁, hsame₁, hbytes₁, hzero⟩ :=
    hinv.createFullCopy garbage mem_cons_self
  obtain ⟨h₂, hassign, hinv₂, hsame₂, hbytes₂⟩ :=
    (hinv₁.perm (Perm.swap b t bs)).assign (mem_cons_of_mem b mem_cons_self)
  obtain ⟨h₃, hdestroy, hinv₃, hsame₃⟩ := hinv₂.destroy
  refine ⟨h₃, t, ?_, hinv₃, fun c hc => ?_, ?_, hzero⟩
  · simp only [Buffer.transformIntoRealBuffer, hcopy, bind_some, hassign, hdestroy, map_some]
  · rw [hsame₃ c (mem_cons_of_mem _ hc), hsame₂ c (mem_cons_of_mem _ hc),
      hsame₁ c (mem_cons_of_mem _ hc)]
  · rw [hsame₃ t mem_cons_self, hbytes₂, hbytes₁]

variable (garbage) in
theorem Inv.peekData (hinv : Inv h (b :: bs)) :
    ∃ h' b', b.peekData garbage h = some (h', b', b.bytes h) ∧
    Inv h' (b' :: bs) ∧ (∀ c ∈ bs, c.bytes h' = c.bytes h) ∧ b'.bytes h' = b.bytes h := by
  obtain ⟨h', t, htransform, hinv', hsame, hbytes, hzero⟩ := hinv.transformIntoRealBuffer garbage
  have hread := (hinv'.fits t mem_cons_self).read_all hzero
  refine ⟨h', t, ?_, hinv', hsame, hbytes⟩
  simp only [Buffer.peekData, htransform, bind_some, hread, map_some, hbytes]

/-! ## Programs -/

/-- The buffers of a program hold the lists. -/
structure Refines (w : Buffers) (ls : List (List UInt8)) : Prop where
  inv : Inv w.heap w.bufs
  bytes : w.bufs.map (·.bytes w.heap) = ls

variable {i : Nat}

theorem perm_cons_eraseIdx {l : List Buffer} (hi : l[i]? = some b) :
    l.Perm (b :: l.eraseIdx i) := by
  obtain ⟨hlt, rfl⟩ := List.getElem?_eq_some_iff.1 hi
  exact (getElem_cons_eraseIdx_perm hlt).symm

theorem set_perm_cons_eraseIdx {l : List Buffer} (hi : l[i]? = some b) (b' : Buffer) :
    (l.set i b').Perm (b' :: l.eraseIdx i) :=
  List.set_perm_cons_eraseIdx (List.getElem?_eq_some_iff.1 hi).1 b'

theorem map_set_eq {l : List Buffer} {f g : Buffer → List UInt8}
    (hsame : ∀ c ∈ l.eraseIdx i, f c = g c) : (l.set i b').map f = (l.map g).set i (f b') := by
  induction l generalizing i with
  | nil => rfl
  | cons c l ih =>
    cases i with
    | zero =>
      simp only [set_cons_zero, map_cons, cons.injEq, true_and]
      exact map_congr_left hsame
    | succ i =>
      simp only [eraseIdx_cons_succ, forall_mem_cons] at hsame
      simp only [set_cons_succ, map_cons, hsame.1, ih hsame.2]

variable {w : Buffers} {ls : List (List UInt8)}

theorem Refines.put (href : Refines w ls)
    (hi : w.bufs[i]? = some b) {h' : Heap} (hinv : Inv h' (b' :: w.bufs.eraseIdx i))
    (hsame : ∀ c ∈ w.bufs.eraseIdx i, c.bytes h' = c.bytes w.heap) :
    Refines (w.put i (h', b')) (ls.set i (b'.bytes h')) where
  inv := hinv.perm (set_perm_cons_eraseIdx hi b').symm
  bytes := by rw [← href.bytes, ← map_set_eq (f := (·.bytes h')) hsame, Buffers.put]

theorem Refines.push (href : Refines w ls) {h' : Heap}
    (hinv : Inv h' (b' :: w.bufs)) (hsame : ∀ c ∈ w.bufs, c.bytes h' = c.bytes w.heap) :
    Refines (w.push (h', b')) (ls ++ [b'.bytes h']) where
  inv := hinv.perm (perm_append_singleton b' w.bufs).symm
  bytes := by
    rw [← href.bytes, Buffers.push, map_append, map_congr_left hsame]
    rfl

theorem Refines.getElem? (href : Refines w ls) (hl : ls[i]? = some l) :
    ∃ b, w.bufs[i]? = some b ∧ b.bytes w.heap = l ∧ Inv w.heap (b :: w.bufs.eraseIdx i) := by
  rw [← href.bytes, getElem?_map] at hl
  obtain ⟨b, hb, rfl⟩ := map_eq_some_iff.1 hl
  exact ⟨b, hb, rfl, href.inv.perm (perm_cons_eraseIdx hb)⟩

theorem Refines.on (href : Refines w ls) {α : Type} {f : List UInt8 → α} {r : α}
    (hc : ls[i]?.map f = some r) : ∃ b, w.bufs[i]? = some b ∧ f (b.bytes w.heap) = r ∧
      Inv w.heap (b :: w.bufs.eraseIdx i) := by
  obtain ⟨l, hl, hr⟩ := map_eq_some_iff.1 hc
  obtain ⟨b, hb, rfl, hinv⟩ := href.getElem? hl
  exact ⟨b, hb, hr, hinv⟩

/-- Each call on buffers does what it means for lists. -/
theorem Refines.call {ls ls' : List (List UInt8)} {c : BufferCall} {out : List UInt8}
    (href : Refines w ls) (hc : byteLists ls c = some (ls', out)) :
    ∃ w', w.call garbage c = some (w', out) ∧ Refines w' ls' := by
  cases c with
  | construct zeroSize =>
    cases hc
    obtain ⟨h', b, hcreate, hinv, hsame, hbytes⟩ := href.inv.construct garbage zeroSize
    refine ⟨w.push (h', b), by simp [Buffers.call, hcreate], ?_⟩
    exact hbytes ▸ href.push hinv hsame
  | copy i =>
    obtain ⟨b, hb, ⟨⟩, -⟩ := href.on hc
    obtain ⟨hinv, hsame, hbytes⟩ := href.inv.copy (mem_of_getElem? hb)
    refine ⟨w.push (b.copy w.heap), by simp [Buffers.call, hb], ?_⟩
    exact hbytes ▸ href.push hinv hsame
  | assign i j =>
    obtain ⟨l₀, hl₀, hc⟩ := bind_eq_some_iff.1 hc
    obtain ⟨l, hl, hc⟩ := map_eq_some_iff.1 hc
    cases hc
    obtain ⟨b, hb, -, hinv⟩ := href.getElem? hl₀
    obtain ⟨o, ho, rfl, -⟩ := href.getElem? hl
    have hmem : o ∈ b :: w.bufs.eraseIdx i := (perm_cons_eraseIdx hb).mem_iff.1 (mem_of_getElem? ho)
    obtain ⟨h', hassign, hinv', hsame, hbytes⟩ := hinv.assign hmem
    refine ⟨w.put i (h', o), by simp [Buffers.call, hb, ho, hassign], ?_⟩
    exact hbytes ▸ href.put hb hinv' hsame
  | createFragment i start length =>
    obtain ⟨l, hl, hc⟩ := bind_eq_some_iff.1 hc
    obtain ⟨hrange, hc⟩ := ite_none_right_eq_some.1 hc
    cases hc
    obtain ⟨b, hb, rfl, -⟩ := href.getElem? hl
    obtain ⟨hinv, hsame, hbytes⟩ := href.inv.createFragment (mem_of_getElem? hb) hrange
    refine ⟨w.push (b.createFragment w.heap start length), by simp [Buffers.call, hb], ?_⟩
    exact hbytes ▸ href.push hinv hsame
  | destroy i =>
    obtain ⟨b, hb, ⟨⟩, hinv⟩ := href.on hc
    obtain ⟨h', hdestroy, hinv', hsame⟩ := hinv.destroy
    refine ⟨⟨h', w.bufs.eraseIdx i⟩, by simp [Buffers.call, hb, hdestroy], hinv', ?_⟩
    rw [← href.bytes, eraseIdx_map]
    exact map_congr_left hsame
  | prepend i bytes =>
    obtain ⟨b, hb, ⟨⟩, hinv⟩ := href.on hc
    obtain ⟨h', b', hcode, hinv', hsame, hbytes⟩ := hinv.prepend garbage bytes
    refine ⟨w.put i (h', b'), by simp [Buffers.call, hb, hcode], ?_⟩
    exact hbytes ▸ href.put hb hinv' hsame
  | append i bytes =>
    obtain ⟨b, hb, ⟨⟩, hinv⟩ := href.on hc
    obtain ⟨h', b', hcode, hinv', hsame, hbytes⟩ := hinv.append garbage bytes
    refine ⟨w.put i (h', b'), by simp [Buffers.call, hb, hcode], ?_⟩
    exact hbytes ▸ href.put hb hinv' hsame
  | removeAtStart i n =>
    obtain ⟨b, hb, ⟨⟩, hinv⟩ := href.on hc
    obtain ⟨hinv', hbytes⟩ := hinv.removeAtStart n
    refine ⟨w.put i (w.heap, b.removeAtStart n), by simp [Buffers.call, hb], ?_⟩
    exact hbytes ▸ href.put hb hinv' fun _ _ => rfl
  | removeAtEnd i n =>
    obtain ⟨b, hb, ⟨⟩, hinv⟩ := href.on hc
    obtain ⟨hinv', hbytes⟩ := hinv.removeAtEnd n
    rw [← Buffer.length_bytes (h := w.heap) (hinv.fits b mem_cons_self).offsets] at hbytes
    refine ⟨w.put i (w.heap, b.removeAtEnd n), by simp [Buffers.call, hb], ?_⟩
    exact hbytes ▸ href.put hb hinv' fun _ _ => rfl
  | copyData i size =>
    obtain ⟨b, hb, ⟨⟩, hinv⟩ := href.on hc
    have hcode := (hinv.fits b mem_cons_self).copyData size
    exact ⟨w, by simp [Buffers.call, hb, hcode], href⟩
  | copyDataStream i size =>
    obtain ⟨b, hb, ⟨⟩, hinv⟩ := href.on hc
    have hcode := (hinv.fits b mem_cons_self).copyData size
    exact ⟨w, by simp [Buffers.call, hb, Buffer.copyDataStream_eq, hcode], href⟩
  | peekData i =>
    obtain ⟨l, hl, hc⟩ := map_eq_some_iff.1 hc
    cases hc
    obtain ⟨b, hb, rfl, hinv⟩ := href.getElem? hl
    obtain ⟨h', b', hcode, hinv', hsame, hbytes⟩ := hinv.peekData garbage
    refine ⟨w.put i (h', b'), by simp [Buffers.call, hb, hcode], ?_⟩
    have hput := href.put hb hinv' hsame
    obtain ⟨hlt, hget⟩ := List.getElem?_eq_some_iff.1 hl
    rwa [hbytes, ← hget, set_getElem_self] at hput

theorem refines_new : Refines Buffers.new [] where
  inv := ⟨nofun, nofun, fun hne => absurd rfl hne, nofun, nofun, nofun⟩
  bytes := rfl

/-- Whatever a program does with its buffers, and whatever fresh memory holds: each buffer is a list
of bytes of its own, and every read gives its bytes. -/
theorem buffers_refine (garbage : Nat → Nat → UInt8) {cs : List BufferCall} {ls : List (List UInt8)}
    {outs : List (List UInt8)} (hcs : Lts.outputs byteLists [] cs = some (ls, outs)) :
    ∃ w, Lts.outputs (Buffers.call garbage) Buffers.new cs = some (w, outs) ∧
      w.bufs.map (·.bytes w.heap) = ls := by
  obtain ⟨w, hw, href⟩ := Lts.outputs_simulation (f := Buffers.call garbage) (g := byteLists)
    (R := Refines) Refines.call refines_new hcs
  exact ⟨w, hw, href.bytes⟩

/-- Two buffers share an array, grow at both ends and are cut. -/
theorem buffers_refine_example :
    ∃ w, Lts.outputs (Buffers.call fun _ _ => 7) Buffers.new [.construct 2,
      .prepend 0 [1], .copy 0, .append 0 [3], .append 1 [4], .removeAtStart 1 2,
        .createFragment 0 1 3,
      .prepend 2 [5], .peekData 2, .copyData 0 9, .destroy 0, .peekData 0] =
        some (w, [[], [], [], [], [], [], [], [], [5, 0, 0, 3], [1, 0, 0, 3], [], [0, 4]]) ∧
      w.bufs.map (·.bytes w.heap) = [[0, 4], [5, 0, 0, 3]] :=
  buffers_refine (fun _ _ => 7) (by decide)

end OranNs3.Network
