import OranNs3.Network.BufferWrites

/-!
# Appending a buffer

`AddAtEnd` of another buffer joins two adjacent zero areas where it can, and otherwise makes a full
copy of the buffer and writes the bytes of the other one behind it. Both should append the bytes of
the other buffer (`Appends`), and both end in the write of a range.

That write does not translate its offset, so the first way loses the bytes behind the zero area of
the other buffer, and it asserts that the two buffers do not have the same array, which the second
way does not see to: the full copy of a buffer without virtual zeros shares its array.
`addAtEndBuffer_iff` says when the bytes are appended.
-/

namespace OranNs3.Network

open Memory List Option

variable {garbage : Nat → Nat → UInt8} {h h' : Heap} {b o : Buffer} {bs : List Buffer}
  {r : Heap × Buffer}

/-! ## The array of a buffer that grew -/

theorem Inv.reallocate_data (hinv : Inv h (b :: bs)) {offset extra : Nat} (hoffset : offset ≤ extra)
    (hr : b.reallocate garbage h offset extra = some r) : ∀ c ∈ bs, c.data ≠ r.2.data := by
  obtain ⟨h₁, a, hrealloc, -, hunused, -⟩ := hinv.reallocate garbage _ _ hoffset
  cases hrealloc.symm.trans hr
  exact hunused.other

variable {n : Nat}

theorem Inv.addAtStart_data (hinv : Inv h (b :: bs)) (hr : b.addAtStart garbage h n = some r) :
    r.2.data = b.data ∨ ∀ c ∈ bs, c.data ≠ r.2.data := by
  rw [Buffer.addAtStart] at hr
  dsimp only at hr
  split at hr
  · obtain ⟨-, hr⟩ := ite_none_right_eq_some.1 hr
    cases hr
    exact .inl rfl
  · obtain ⟨r', hr', rfl⟩ := map_eq_some_iff.1 hr
    have hnew := hinv.reallocate_data le_rfl hr'
    exact .inr hnew

/-- When `AddAtEnd` keeps the array. -/
def Buffer.GrowsInPlace (h : Heap) (b : Buffer) (n : Nat) : Prop :=
  b.internalEnd + n ≤ (h.mem b.data).size ∧
    ¬ ((h.mem b.data).count > 1 ∧ b.last < (h.mem b.data).dirtyEnd)

theorem Inv.addAtEnd_data (hinv : Inv h (b :: bs)) (hr : b.addAtEnd garbage h n = some r) :
    b.GrowsInPlace h n ∧ r.2.data = b.data ∨ ¬ b.GrowsInPlace h n ∧ ∀ c ∈ bs,
      c.data ≠ r.2.data := by
  rw [Buffer.addAtEnd] at hr
  dsimp only at hr
  split at hr
  · next hplace =>
    obtain ⟨-, hr⟩ := ite_none_right_eq_some.1 hr
    cases hr
    exact .inl ⟨hplace, rfl⟩
  · next hplace =>
    obtain ⟨r', hr', rfl⟩ := map_eq_some_iff.1 hr
    have hnew := hinv.reallocate_data (Nat.zero_le _) hr'
    exact .inr ⟨hplace, hnew⟩

theorem Inv.addAtStart_alone (hinv : Inv h (b :: bs)) (halone : ∀ c ∈ bs, c.data ≠ b.data)
    (hr : b.addAtStart garbage h n = some r) : ∀ c ∈ bs, c.data ≠ r.2.data := by
  rcases hinv.addAtStart_data hr with heq | hnew
  · rwa [heq]
  · exact hnew

theorem Inv.addAtEnd_alone (hinv : Inv h (b :: bs)) (halone : ∀ c ∈ bs, c.data ≠ b.data)
    (hr : b.addAtEnd garbage h n = some r) : ∀ c ∈ bs, c.data ≠ r.2.data := by
  rcases hinv.addAtEnd_data hr with ⟨-, heq⟩ | ⟨-, hnew⟩
  · rwa [heq]
  · exact hnew

theorem Inv.createFullCopy_alone (hinv : Inv h bs) (hz : b.zeroSize ≠ 0)
    (hr : b.createFullCopy garbage h = some r) : ∀ c ∈ bs, c.data ≠ r.2.data := by
  rw [Buffer.createFullCopy, if_pos (show b.zeroAreaEnd - b.zeroAreaStart ≠ 0 from hz)] at hr
  obtain ⟨h₁, t₁, hcreate, hinv₁, -, -⟩ := hinv.construct garbage 0
  have halone₁ : ∀ c ∈ bs, c.data ≠ t₁.data := by
    obtain ⟨h', a, hnew, -, -, hunused, -⟩ := hinv.create garbage 0
    simp only [Buffer.construct, hnew] at hcreate
    cases hcreate
    exact hunused.other
  obtain ⟨h₂, h₃, t₂, hadd, hwrite, hinv₂, -, -⟩ :=
    hinv₁.prependU8 garbage 0 (b.zeroAreaEnd - b.zeroAreaStart)
  have halone₂ := hinv₁.addAtStart_alone halone₁ hadd
  simp only [hcreate, hadd, bind_some, hwrite] at hr
  obtain ⟨front, -, hr⟩ := bind_eq_some_iff.1 hr
  obtain ⟨h₄, t₃, hprepend, hinv₃, -, -⟩ := hinv₂.prepend garbage front
  have halone₃ : ∀ c ∈ bs, c.data ≠ t₃.data := by
    obtain ⟨r', hr', hw⟩ := bind_eq_some_iff.1 hprepend
    obtain ⟨_, -, heq⟩ := map_eq_some_iff.1 hw
    cases heq
    exact hinv₂.addAtStart_alone halone₂ hr'
  rw [hprepend, bind_some] at hr
  obtain ⟨back, -, hr⟩ := bind_eq_some_iff.1 hr
  obtain ⟨r', hr', hr⟩ := bind_eq_some_iff.1 hr
  obtain ⟨_, -, hr⟩ := bind_eq_some_iff.1 hr
  obtain ⟨_, -, rfl⟩ := map_eq_some_iff.1 hr
  have halone₄ := hinv₃.addAtEnd_alone halone₃ hr'
  exact halone₄

theorem Heap.release_of_count {a : Nat} (hcount : 1 < (h.mem a).count) :
    h.release a = some (h.setCount a ((h.mem a).count - 1)) := by
  refine if_neg ?_
  rw [mem_setCount, if_pos rfl]
  exact Nat.sub_ne_zero_of_lt hcount

variable (garbage) in
theorem Inv.transformIntoRealBuffer_eq (hinv : Inv h (b :: bs)) (hz : b.zeroSize = 0) : ∃ h',
    b.transformIntoRealBuffer garbage h =
    some (h', { b with maxZeroAreaStart := b.zeroAreaStart }) ∧
    ∀ a, h'.mem a = h.mem a := by
  have hpos := hinv.count_pos
  have hcopy : b.createFullCopy garbage h = some (b.copy h) :=
    if_neg (not_not.2 (show b.zeroAreaEnd - b.zeroAreaStart = 0 from hz))
  have hassign : b.assign (b.copy h).1 (b.copy h).2 =
      some ((b.copy h).1.recommend b.maxZeroAreaStart, (b.copy h).2) := by
    rw [Buffer.assign]
    exact congrArg (Option.map _) (if_pos rfl)
  -- the copy and its destruction leave the count as it was
  let h₁ := ((b.copy h).1.recommend b.maxZeroAreaStart).recommend b.zeroAreaStart
  have hmem : ∀ a, h₁.mem a = (h.addRef b.data).mem a := fun _ => rfl
  have hcount : (h₁.mem b.data).count = (h.mem b.data).count + 1 := by
    rw [hmem, Heap.addRef, Heap.mem_setCount, if_pos rfl]
  have hrelease : h₁.release b.data = some (h₁.setCount b.data (h.mem b.data).count) := by
    rw [Heap.release_of_count (by omega), hcount, Nat.add_sub_cancel]
  refine ⟨h₁.setCount b.data (h.mem b.data).count, ?_, fun a => ?_⟩
  · simp only [Buffer.transformIntoRealBuffer, hcopy, bind_some, hassign]
    exact congrArg (Option.map _) hrelease
  · rw [Heap.mem_setCount, hmem, Heap.addRef, Heap.mem_setCount]
    split
    · next ha => rw [ha]
    · rfl

theorem Inv.transformIntoRealBuffer_alone (hinv : Inv h (b :: bs)) (hz : b.zeroSize ≠ 0)
    (hr : b.transformIntoRealBuffer garbage h = some r) : ∀ c ∈ bs, c.data ≠ r.2.data := by
  obtain ⟨tmp, htmp, hr⟩ := bind_eq_some_iff.1 hr
  obtain ⟨r', hr', hr⟩ := bind_eq_some_iff.1 hr
  obtain ⟨h₁, -, rfl⟩ := map_eq_some_iff.1 hr
  obtain ⟨h₂, -, rfl⟩ := map_eq_some_iff.1 hr'
  intro c hc
  exact hinv.createFullCopy_alone hz htmp c (mem_cons_of_mem b hc)

theorem Buffer.prev_endIterator (hn : n ≤ b.last) :
    b.endIterator.prev n = some (b.iterator (b.last - n)) := if_pos hn

/-! ## The full copy and the write -/

/-- The bytes of the other buffer are appended, and no other buffer changes. -/
def Appends (garbage : Nat → Nat → UInt8) (h : Heap) (b : Buffer) (bs : List Buffer) (o : Buffer) :
    Prop :=
  ∃ h' b', b.addAtEndBuffer garbage h o = some (h', b') ∧ Inv h' (b' :: bs) ∧
    (∀ c ∈ bs, c.bytes h' = c.bytes h) ∧ b'.bytes h' = b.bytes h ++ o.bytes h

theorem Inv.writeBuffer (hinv : Inv h (b :: bs)) (ho : o ∈ bs)
    (hz : b.zeroAreaStart = b.zeroAreaEnd) (hroom : b.zeroAreaEnd + o.size ≤ b.last)
    (hfree : ∀ c ∈ bs, c.data = b.data → c.internalEnd + o.size ≤ b.internalEnd)
    (hdata : b.data ≠ o.data) :
    ∃ h', (b.iterator (b.last - o.size)).writeRange h o.begin o.endIterator = some h' ∧
      Inv h' (b :: bs) ∧ (∀ c ∈ bs, c.bytes h' = c.bytes h) ∧
      b.bytes h' = Buffer.bytes h { b with last := b.last - o.size } ++ o.bytes h := by
  have hfit := hinv.fits o (mem_cons_of_mem _ ho)
  have hole : o.start ≤ o.last := hfit.start_le.trans (hfit.zero_le.trans hfit.last_le)
  have hb := hinv.fits b mem_cons_self
  obtain ⟨hstart, hzero, hlast⟩ := hb.offsets
  have hcan : (b.iterator (b.last - o.size)).CanWriteRange (o.iterator o.start)
    (o.iterator o.last) := by
    refine ⟨rfl, hole, rfl, rfl, hdata, ?_⟩
    simp only [Iterator.CheckNoZero, Buffer.iterator, Buffer.size] at hroom ⊢
    omega
  have hlen : (o.bytes h).length = o.size := Buffer.length_bytes hfit.offsets
  obtain ⟨h', hstore, hinv', hsame, hbytes⟩ :=
    hinv.storeEnd (l := o.bytes h) (hlen.symm ▸ hroom) (hlen.symm ▸ hfree)
  refine ⟨h', ?_, hinv', hsame, hlen ▸ hbytes⟩
  have hplace : b.zeroAreaStart + (b.last - (o.bytes h).length - b.zeroAreaEnd) =
    b.last - o.size := by omega
  rw [hplace] at hstore
  rw [Buffer.bytes_eq_view hfit.offsets] at hstore
  exact (hfit.writeRange le_rfl hcan).trans (Heap.put_of_store hstore)

theorem Inv.addAtEnd_ne (hinv : Inv h (b :: bs)) (ho : o ∈ bs)
    (hsafe : ¬ (b.zeroSize = 0 ∧ b.data = o.data ∧ b.GrowsInPlace h o.size)) {h₁ : Heap}
    {t : Buffer}
    (hinv₁ : Inv h₁ (t :: bs)) (htransform : b.transformIntoRealBuffer garbage h = some (h₁, t))
    (hr : t.addAtEnd garbage h₁ o.size = some r) : r.2.data ≠ o.data := by
  by_cases hz : b.zeroSize = 0
  · obtain ⟨h', heq, hmem⟩ := hinv.transformIntoRealBuffer_eq garbage hz
    cases heq.symm.trans htransform
    rcases hinv₁.addAtEnd_data hr with ⟨hplace, hdata⟩ | ⟨-, hnew⟩
    · rw [hdata]
      refine fun hbo => hsafe ⟨hz, hbo, ?_⟩
      simp only [Buffer.GrowsInPlace, hmem] at hplace
      exact hplace
    · exact fun heq => hnew o ho heq.symm
  · have halone := hinv.transformIntoRealBuffer_alone hz htransform
    exact fun heq => hinv₁.addAtEnd_alone halone hr o ho heq.symm

theorem Inv.appends_of_copy (hinv : Inv h (b :: bs)) (ho : o ∈ bs) (hcopy : ¬ b.JoinsZeroes h o)
    (hsafe : ¬ (b.zeroSize = 0 ∧ b.data = o.data ∧ b.GrowsInPlace h o.size)) :
    Appends garbage h b bs o := by
  obtain ⟨h₁, t, htransform, hinv₁, hsame₁, hbytes₁, hzero₁⟩ := hinv.transformIntoRealBuffer garbage
  obtain ⟨h₂, b', hadd, hinv₂, hsame₂, hroom, hold, hfree⟩ := hinv₁.addAtEnd garbage o.size
  have hne := hinv.addAtEnd_ne ho hsafe hinv₁ htransform hadd
  have hzero₂ : b'.zeroAreaStart = b'.zeroAreaEnd := by
    have hsize := Buffer.zeroSize_addAtEnd (hinv₁.fits t mem_cons_self).start_le hadd
    have hle := (hinv₂.fits b' mem_cons_self).zero_le
    simp only [Buffer.zeroSize] at hsize hzero₁
    omega
  obtain ⟨h₃, hwrite, hinv₃, hsame₃, hbytes₃⟩ := hinv₂.writeBuffer ho hzero₂ hroom hfree hne
  refine ⟨h₃, b', ?_, hinv₃, fun c hc => ?_, ?_⟩
  · rw [Buffer.addAtEndBuffer, if_neg hcopy, htransform, bind_some, hadd, bind_some,
      Buffer.prev_endIterator (by dsimp only; omega), bind_some, hwrite]
    rfl
  · rw [hsame₃ c hc, hsame₂ c hc, hsame₁ c hc]
  · rw [hbytes₃, hold, hbytes₁, hsame₂ o ho, hsame₁ o ho]

variable (garbage) in
theorem Inv.addAtEndBuffer_eq_none (hinv : Inv h (b :: bs)) (hcopy : ¬ b.JoinsZeroes h o)
    (hz : b.zeroSize = 0) (hdata : b.data = o.data) (hplace : b.GrowsInPlace h o.size) :
    b.addAtEndBuffer garbage h o = none := by
  obtain ⟨h₁, htransform, hmem⟩ := hinv.transformIntoRealBuffer_eq garbage hz
  obtain ⟨h', t, htransform', hinv₁, -⟩ := hinv.transformIntoRealBuffer garbage
  cases htransform.symm.trans htransform'
  obtain ⟨h₂, b', hadd, -, -, hroom, -, -⟩ := hinv₁.addAtEnd garbage o.size
  have hkept : b'.data = o.data := by
    rcases hinv₁.addAtEnd_data hadd with ⟨-, heq⟩ | ⟨hnot, -⟩
    · exact heq.trans hdata
    · refine absurd ?_ hnot
      simp only [Buffer.GrowsInPlace, hmem]
      exact hplace
  rw [Buffer.addAtEndBuffer, if_neg hcopy, htransform, bind_some, hadd, bind_some,
    Buffer.prev_endIterator (by dsimp only; omega), bind_some]
  have hcan : ¬ (b'.iterator (b'.last - o.size)).CanWriteRange o.begin o.endIterator :=
    fun hcan => hcan.2.2.2.2.1 hkept
  rw [Iterator.writeRange, if_neg hcan]
  rfl

/-! ## Joining the zero areas -/

theorem Inv.joinZeroes (hinv : Inv h (b :: bs)) (hjoin : b.JoinsZeroes h o) :
    Inv (b.joinZeroes h o).1 ((b.joinZeroes h o).2 :: bs) ∧
    (∀ c ∈ bs, c.bytes (b.joinZeroes h o).1 = c.bytes h) ∧
    (b.joinZeroes h o).2.bytes (b.joinZeroes h o).1 = b.bytes h ++ replicate o.zeroSize 0 := by
  obtain ⟨hone, hlastZero, -, -, -⟩ := hjoin
  have hfit := hinv.fits b mem_cons_self
  obtain ⟨hstart, hzero, hlast⟩ := hfit.offsets
  have hsize := hfit.internalEnd
  rw [Buffer.internalEnd] at hsize
  rw [Buffer.joinZeroes]
  refine ⟨?_, fun c _ => Buffer.bytes_setDirty, ?_⟩
  · refine hinv.update rfl ?_ ⟨hfit.dirtyStart, le_rfl⟩ ?_ fun c hc heq =>
      absurd heq (hinv.alone hone c hc)
    · dsimp only [Buffer.InOrder]
      split <;> omega
    · dsimp only [Buffer.internalEnd]
      split <;> omega
  · rw [Buffer.bytes_setDirty]
    by_cases hz : b.zeroAreaStart = b.zeroAreaEnd
    · -- the bytes of a buffer without virtual zeros are one stretch
      have hall : slice (h.mem b.data).data b.start (b.zeroAreaStart - b.start) ++
          slice (h.mem b.data).data b.zeroAreaStart (b.last - b.zeroAreaStart) =
            slice (h.mem b.data).data b.start (b.last - b.start) := slice_trans hstart (hz ▸ hlast)
      simp only [Buffer.bytes, ← hz, if_true, Nat.sub_self, replicate_zero, append_nil, slice_zero,
        Nat.add_sub_cancel_left, hall, Buffer.zeroSize]
    · have hend : b.last = b.zeroAreaEnd := hlastZero.resolve_right hz
      have hsum : b.zeroAreaEnd + o.zeroSize - b.zeroAreaStart =
          b.zeroAreaEnd - b.zeroAreaStart + o.zeroSize := by omega
      simp only [Buffer.bytes, if_neg hz, hend, Nat.sub_self, slice_zero, append_nil, append_assoc,
        replicate_append_replicate, ← hsum]
      rfl

theorem Inv.appends_of_join (hinv : Inv h (b :: bs)) (ho : o ∈ bs) (hjoin : b.JoinsZeroes h o)
    (hend : o.last = o.zeroAreaEnd) : Appends garbage h b bs o := by
  have hofit := hinv.fits o (mem_cons_of_mem _ ho)
  have hobytes : o.bytes h = replicate o.zeroSize 0 := by
    have hostart : o.start = o.zeroAreaStart := hjoin.2.2.2.1
    simp only [Buffer.bytes, hend, hostart, Nat.sub_self, slice_zero, nil_append, append_nil,
      Buffer.zeroSize]
  have halone : ∀ c ∈ bs, c.data ≠ (b.joinZeroes h o).2.data := hinv.alone hjoin.1
  obtain ⟨hinv₁, hsame₁, hbytes₁⟩ := hinv.joinZeroes hjoin
  obtain ⟨h₂, b₂, hadd, hinv₂, hsame₂, -, hold, -⟩ :=
    hinv₁.addAtEnd garbage (o.last - o.zeroAreaEnd)
  have hne : b₂.data ≠ o.data := fun heq => hinv₁.addAtEnd_alone halone hadd o ho heq.symm
  have hofit₂ := hinv₂.fits o (mem_cons_of_mem _ ho)
  obtain ⟨hstart, hzero, hlast⟩ := (hinv₂.fits b₂ mem_cons_self).offsets
  have hcan : (b₂.iterator b₂.last).CanWriteRange (o.iterator o.last) (o.iterator o.last) := by
    refine ⟨rfl, le_rfl, rfl, rfl, hne, ?_⟩
    simp only [Iterator.CheckNoZero, Buffer.iterator]
    omega
  have hwrite : (b₂.iterator b₂.last).writeRange h₂ (o.iterator o.last) (o.iterator o.last) =
    some h₂ := by
    rw [hofit₂.writeRange le_rfl hcan, Nat.sub_self, slice_zero]
    rfl
  rw [hend, Nat.sub_self] at hadd hold
  refine ⟨h₂, b₂, ?_, hinv₂, fun c hc => (hsame₂ c hc).trans (hsame₁ c hc), ?_⟩
  · rw [Buffer.addAtEndBuffer, if_pos hjoin]
    dsimp only
    rw [hend, Nat.sub_self, hadd, bind_some, Buffer.prev_endIterator (Nat.zero_le _), bind_some,
      Buffer.prev_endIterator (Nat.zero_le _), bind_some]
    exact congrArg (Option.map (·, b₂)) hwrite
  · rw [hobytes, ← hbytes₁]
    exact hold

/-! ## Lost bytes -/

/-- Every array but one holds one value everywhere. -/
def Heap.Filled (h : Heap) (v : UInt8) (a : Nat) : Prop := ∀ a', a' ≠ a → ∀ k, (h.mem a').data k = v

variable {v : UInt8}

theorem Heap.Filled.congr {a : Nat} (hfill : h.Filled v a)
    (hdata : ∀ a', (h'.mem a').data = (h.mem a').data) : h'.Filled v a := by
  intro a' ha k
  rw [hdata]
  exact hfill a' ha k

theorem Heap.Filled.create {a : Nat} (hfill : h.Filled v a) (n : Nat) :
    (h.create (fun _ _ => v) n).1.Filled v a := by
  rw [Heap.create]
  generalize h.freeList.getD [] = l
  induction l generalizing h with
  | nil =>
    intro a' ha k
    by_cases heq : a' = h.next
    · rw [heq, Heap.createFrom]
      exact congrArg (Data.data · k) (Heap.mem_set_self ..)
    · have hsame : (Heap.createFrom (fun _ _ => v) n h []).1.mem a' = h.mem a' := Heap.mem_set_ne _
        _ heq
      rw [hsame]
      exact hfill a' ha k
  | cons a₁ l ih =>
    rw [Heap.createFrom]
    split
    · exact hfill.congr fun a' => by rw [Heap.mem_setCount]
    · exact ih (hfill.congr fun _ => rfl)

theorem Heap.Filled.store {a a' p : Nat} {l : List UInt8} (hfill : h.Filled v a)
    (hl : ∀ x ∈ l, x = v) (hstore : h.store a' p l = some h') : h'.Filled v a := by
  obtain ⟨-, heq⟩ := ite_none_right_eq_some.1 hstore
  rw [← some.inj heq]
  intro a₁ ha k
  by_cases h1 : a₁ = a'
  · rw [h1, Heap.mem_set_self]
    by_cases hk : p ≤ k ∧ k < p + l.length
    · dsimp only
      rw [overwrite_of_inside hk.1 hk.2]
      exact hl _ (getElem_mem _)
    · dsimp only
      rw [overwrite_of_outside (by omega)]
      exact hfill a' (h1 ▸ ha) k
  · rw [Heap.mem_set_ne _ _ h1]
    exact hfill a₁ ha k

theorem Heap.data_release {a a' : Nat} (hr : h.release a = some h') :
    (h'.mem a').data = (h.mem a').data := by
  have hdata : ((h.setCount a ((h.mem a).count - 1)).mem a').data = (h.mem a').data := by
    rw [mem_setCount]
  rw [release] at hr
  split at hr
  · obtain ⟨l, -, hr⟩ := bind_eq_some_iff.1 hr
    obtain ⟨-, hr⟩ := ite_none_right_eq_some.1 hr
    dsimp only at hr
    split at hr
    all_goals
      cases hr
      exact hdata
  · cases hr
    exact hdata

theorem Heap.Filled.reallocate {a offset extra : Nat} (hfill : h.Filled v a) (hb : b.data ≠ a)
    (hr : b.reallocate (fun _ _ => v) h offset extra = some r) : r.1.Filled v a := by
  have hfill₁ := hfill.create (b.internalSize + extra)
  obtain ⟨bytes, hread, hr⟩ := bind_eq_some_iff.1 hr
  obtain ⟨h₂, hstore, hr⟩ := bind_eq_some_iff.1 hr
  obtain ⟨h₃, hrelease, rfl⟩ := map_eq_some_iff.1 hr
  obtain ⟨-, heq⟩ := ite_none_right_eq_some.1 hread
  refine (hfill₁.store ?_ hstore).congr fun a' => Heap.data_release hrelease
  rw [← some.inj heq]
  intro x hx
  obtain ⟨i, -, rfl⟩ := mem_map.1 hx
  exact hfill₁ b.data hb i

theorem Heap.Filled.addAtEnd {a n : Nat} (hfill : h.Filled v a) (hb : b.data ≠ a)
    (hr : b.addAtEnd (fun _ _ => v) h n = some r) : r.1.Filled v a := by
  rw [Buffer.addAtEnd] at hr
  dsimp only at hr
  split at hr
  · obtain ⟨-, hr⟩ := ite_none_right_eq_some.1 hr
    cases hr
    exact hfill.congr fun a' => by rw [Heap.mem_setDirty]
  · obtain ⟨r', hr', rfl⟩ := map_eq_some_iff.1 hr
    have hfill' := hfill.reallocate hb hr'
    exact hfill'.congr fun a' => by rw [Heap.mem_setDirty]

theorem Inv.withData (hinv : Inv h bs) (f : Nat → Nat → UInt8) : Inv (h.withData f) bs :=
  hinv.same (fun _ _ => ⟨rfl, rfl, rfl, rfl⟩) le_rfl hinv.freeList hinv.free

/-- The first way loses the bytes behind the zero area of the other buffer: with arrays full of ones
and the array of the other buffer full of zeros, the first of these bytes is one. -/
theorem Inv.not_appends_of_join (hinv : Inv h (b :: bs)) (ho : o ∈ bs) (hjoin : b.JoinsZeroes h o)
    (hend : o.last ≠ o.zeroAreaEnd) :
    ¬ Appends (fun _ _ => 1) (h.withData fun a _ => if a = o.data then 0 else 1) b bs o := by
  set h₀ := h.withData fun a _ => if a = o.data then 0 else 1
  rintro ⟨h₃, b₃, hrun, hinv₃, -, hbytes⟩
  have hofit := hinv.fits o (mem_cons_of_mem _ ho)
  obtain ⟨hostart, hozero, holast⟩ := hofit.offsets
  have hinv₀ : Inv h₀ (b :: bs) := hinv.withData _
  have hjoin₀ : b.JoinsZeroes h₀ o := hjoin
  have hne : b.data ≠ o.data := fun heq => hinv.alone hjoin.1 o ho heq.symm
  obtain ⟨hinv₁, -, -⟩ := hinv₀.joinZeroes hjoin₀
  have hfill₁ : (b.joinZeroes h₀ o).1.Filled 1 o.data := by
    have hfill₀ : h₀.Filled 1 o.data := fun a' ha k => if_neg ha
    exact hfill₀.congr fun a' => by rw [Buffer.joinZeroes, Heap.mem_setDirty]
  obtain ⟨h₂, b₂, hadd, hinv₂, -, hroom, -, -⟩ :=
    hinv₁.addAtEnd (fun _ _ => 1) (o.last - o.zeroAreaEnd)
  have hne₁ : (b.joinZeroes h₀ o).2.data ≠ o.data := hne
  have hfill₂ : h₂.Filled 1 o.data := hfill₁.addAtEnd hne₁ hadd
  have hne₂ : b₂.data ≠ o.data := by
    have halone := hinv₁.addAtEnd_alone (hinv₀.alone hjoin₀.1) hadd
    exact fun heq => halone o ho heq.symm
  have hb₂ := hinv₂.fits b₂ mem_cons_self
  obtain ⟨hstart₂, hzero₂, hlast₂⟩ := hb₂.offsets
  have hz₂ : b₂.zeroAreaStart < b₂.zeroAreaEnd := by
    have hsize := Buffer.zeroSize_addAtEnd (hinv₁.fits _ mem_cons_self).start_le hadd
    have hjoined : 0 < (b.joinZeroes h₀ o).2.zeroSize := by
      have hb := (hinv.fits b mem_cons_self).offsets
      have hpos := hjoin.2.2.2.2
      simp only [Buffer.joinZeroes, Buffer.zeroSize]
      split <;> omega
    simp only [Buffer.zeroSize] at hsize hjoined
    omega
  -- what the write gives
  rw [Buffer.addAtEndBuffer, if_pos hjoin₀] at hrun
  dsimp only at hrun
  rw [hadd, bind_some, Buffer.prev_endIterator (by dsimp only; omega), bind_some,
    Buffer.prev_endIterator (Nat.sub_le ..), bind_some] at hrun
  obtain ⟨h', hwrite, heq⟩ := map_eq_some_iff.1 hrun
  cases heq
  have hcan := (ite_none_right_eq_some.1 hwrite).1
  have hmiss := (hinv₂.fits o (mem_cons_of_mem _ ho)).writeRange_misses le_rfl hcan hz₂
    (by dsimp only; omega) hwrite
  have hone : b₂.view h₂ (b₂.last - (o.last - o.zeroAreaEnd)) = 1 := by
    rw [Buffer.view, if_neg (by omega), if_neg (by omega)]
    exact hfill₂ b₂.data hne₂ _
  -- what it should give
  have hzeroes : o.bytes h₀ = replicate o.size 0 := by
    refine eq_replicate_iff.2 ⟨Buffer.length_bytes hofit.offsets, fun x hx => ?_⟩
    rw [Buffer.bytes_eq_view hofit.offsets] at hx
    obtain ⟨i, -, rfl⟩ := mem_map.1 hx
    exact Buffer.view_eq_zero (fun _ => if_pos rfl) i
  have hlen := congrArg List.length hbytes
  rw [length_append, Buffer.length_bytes hb₂.offsets, Buffer.length_bytes hofit.offsets] at hlen
  simp only [Buffer.size] at hlen
  have hget := congrArg (·[b₂.last - (o.last - o.zeroAreaEnd) - b₂.start]?) hbytes
  dsimp only at hget
  rw [hzeroes, getElem?_append_right (by omega),
    getElem?_replicate_of_lt (by rw [Buffer.size]; omega),
    Buffer.bytes_eq_view hb₂.offsets, getElem?_slice (by rw [Buffer.size]; omega),
    Nat.add_sub_cancel' (by omega), hmiss, hone] at hget
  cases hget

/-! ## When a buffer is appended -/

/-- When `AddAtEnd` appends the other buffer: if it joins the zero areas, then the other buffer ends
with its zero area, and otherwise the buffer has virtual zeros, or another array, or has to get a
new one. -/
def Buffer.Appendable (h : Heap) (b o : Buffer) : Prop :=
  if b.JoinsZeroes h o then o.last = o.zeroAreaEnd
  else ¬ (b.zeroSize = 0 ∧ b.data = o.data ∧ b.GrowsInPlace h o.size)

/-- Whatever the arrays and fresh memory hold, the bytes are appended if and only if the buffer is
appendable. -/
theorem appends_iff (hinv : Inv h (b :: bs)) (ho : o ∈ bs) :
    (∀ garbage f, Appends garbage (h.withData f) b bs o) ↔ b.Appendable h o := by
  rw [Buffer.Appendable]
  by_cases hjoin : b.JoinsZeroes h o
  · rw [if_pos hjoin]
    refine ⟨fun happ => by_contra fun hend => ?_, fun hend garbage f => ?_⟩
    · exact hinv.not_appends_of_join ho hjoin hend (happ _ _)
    · exact (hinv.withData f).appends_of_join ho hjoin hend
  · rw [if_neg hjoin]
    refine ⟨fun happ hbad => ?_, fun hsafe garbage f => ?_⟩
    · obtain ⟨hz, hdata, hplace⟩ := hbad
      obtain ⟨h', b', hrun, -⟩ := happ (fun _ _ => 0) fun _ _ => 0
      have hnone :=
        (hinv.withData fun _ _ => 0).addAtEndBuffer_eq_none (fun _ _ => 0) hjoin hz hdata hplace
      cases hnone.symm.trans hrun
    · exact (hinv.withData f).appends_of_copy ho hjoin hsafe

/-- Two virtual zeros and three more. -/
theorem appends_iff_example : ∃ h o b, Buffer.construct (fun _ _ => 0) Heap.new 3 = (h, o) ∧
    Buffer.construct (fun _ _ => 0) h 2 = ((Buffer.construct (fun _ _ => 0) h 2).1, b) ∧
    ∀ garbage f, Appends garbage ((Buffer.construct (fun _ _ => 0) h 2).1.withData f) b [o] o := by
  obtain ⟨h, o, ho, hinv, -, -⟩ := refines_new.inv.construct (fun _ _ => 0) 3
  obtain ⟨h', b, hb, hinv', -, -⟩ := hinv.construct (fun _ _ => 0) 2
  refine ⟨h, o, b, ho, by rw [hb], ?_⟩
  rw [hb]
  refine (appends_iff hinv' mem_cons_self).2 ?_
  cases ho
  cases hb
  rw [Buffer.Appendable, if_pos (by decide)]

/-- Two zeros and then three zeros and a seven: the seven is lost. A copy is not appended to the
buffer that it was made of. -/
theorem appends_fails :
    (∃ w b o outs, Lts.outputs (Buffers.call fun _ _ => 9) Buffers.new
      [.construct 2, .construct 3, .append 1 [7]] = some (w, outs) ∧ w.bufs = [b, o] ∧
      b.bytes w.heap = [0, 0] ∧ o.bytes w.heap = [0, 0, 0, 7] ∧
        ¬ Appends (fun _ _ => 9) w.heap b [o] o) ∧
    ∃ w b o outs, Lts.outputs (Buffers.call fun _ _ => 9) Buffers.new
      [.construct 0, .append 0 [1, 2], .copy 0] = some (w, outs) ∧ w.bufs = [b, o] ∧
      b.bytes w.heap = [1, 2] ∧ o.bytes w.heap = [1, 2] ∧
        ¬ Appends (fun _ _ => 9) w.heap b [o] o := by
  constructor
  · have hrun : ((Lts.outputs (Buffers.call fun _ _ => 9) Buffers.new
        [.construct 2, .construct 3, .append 1 [7]]).any fun r =>
          let b : Buffer := ⟨0, 0, 0, 2, 0, 2⟩
          let o : Buffer := ⟨1, 0, 0, 3, 0, 4⟩
          r.1.bufs = [b, o] ∧ b.bytes r.1.heap = [0, 0] ∧ o.bytes r.1.heap = [0, 0, 0, 7] ∧
            (b.addAtEndBuffer (fun _ _ => 9) r.1.heap o).all fun r =>
              r.2.bytes r.1 = [0, 0, 0, 0, 0, 9]) = true := by
      decide +kernel
    obtain ⟨⟨w, outs⟩, hw, hres⟩ := (any_eq_true _ _).1 hrun
    obtain ⟨hbufs, hb, ho, hall⟩ := of_decide_eq_true hres
    refine ⟨w, _, _, outs, hw, hbufs, hb, ho, ?_⟩
    rintro ⟨h', b', hadd, -, -, hbytes⟩
    have hlost := of_decide_eq_true ((all_eq_true _ _).1 hall _ hadd)
    rw [hb, ho, hlost] at hbytes
    revert hbytes
    decide
  · have hrun : ((Lts.outputs (Buffers.call fun _ _ => 9) Buffers.new
        [.construct 0, .append 0 [1, 2], .copy 0]).any fun r =>
          let b : Buffer := ⟨0, 0, 0, 0, 0, 2⟩
          r.1.bufs = [b, b] ∧ b.bytes r.1.heap = [1, 2] ∧
            (b.addAtEndBuffer (fun _ _ => 9) r.1.heap b).isNone) = true := by
      decide +kernel
    obtain ⟨⟨w, outs⟩, hw, hres⟩ := (any_eq_true _ _).1 hrun
    obtain ⟨hbufs, hb, hnone⟩ := of_decide_eq_true hres
    refine ⟨w, _, _, outs, hw, hbufs, hb, hb, ?_⟩
    rintro ⟨h', b', hadd, -⟩
    rw [isNone_iff_eq_none.1 hnone] at hadd
    cases hadd

end OranNs3.Network
