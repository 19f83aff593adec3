import Mathlib.Data.List.Perm.Basic
import Mathlib.Data.List.Infix
import OranNs3.Network.ByteTags

/-!
# The areas of byte tags

Lists that are copies of each other point to one area. An area counts the lists that point to it,
each of them has the records at its beginning that fill the bytes it uses, and none uses bytes
behind the `dirty` ones (`TagStore.Areas`). So a list may write behind its records if it is alone,
or if the dirty bytes are its own; the records of the other lists stay what they are (`Keeps`).
-/

namespace OranNs3.Network

open List Option

variable {h h' h₁ : TagStore} {l l' : ByteTagList} {ls ls' : List ByteTagList} {a b : Nat}
  {d d' : ByteTagListData} {view view' rs : List TagRecord} {r : TagRecord} {used : Nat}

/-! ## Records in areas -/

/-- The bytes of records. -/
def recordsSize (rs : List TagRecord) : Nat := (rs.map TagRecord.size).sum

@[simp] theorem recordsSize_nil : recordsSize [] = 0 := rfl

@[simp] theorem recordsSize_cons : recordsSize (r :: rs) = r.size + recordsSize rs := by
  simp [recordsSize]

@[simp] theorem recordsSize_append :
    recordsSize (rs ++ view) = recordsSize rs + recordsSize view := by
  simp [recordsSize]

theorem TagRecord.size_pos (r : TagRecord) : 0 < r.size := by
  simp [TagRecord.size]

theorem ByteTagList.readRecords_eq : ∀ {view : List TagRecord} (rest : List TagRecord),
    readRecords (recordsSize view) (view ++ rest) = view
  | [], [] => rfl
  | [], _ :: _ => by simp [readRecords]
  | r :: view, rest => by
    have hr := r.size_pos
    rw [recordsSize_cons, cons_append, readRecords, if_pos (by omega), Nat.add_sub_cancel_left,
      readRecords_eq rest]

theorem prefix_of_recordsSize_le (hview : view <+: rs) (hview' : view' <+: rs)
    (hle : recordsSize view ≤ recordsSize view') : view <+: view' := by
  rcases prefix_or_prefix_of_prefix hview hview' with hpre | ⟨rest, rfl⟩
  · exact hpre
  · cases rest with
    | nil => rw [append_nil]
    | cons r rest =>
      have hr := r.size_pos
      rw [recordsSize_append, recordsSize_cons] at hle
      omega

/-- The records that a list has in an area if it uses so many bytes of it. -/
structure ByteTagListData.Holds (d : ByteTagListData) (used : Nat) (view : List TagRecord) :
    Prop where
  le_dirty : used ≤ d.dirty
  isPrefix : view <+: d.data
  size_eq : recordsSize view = used

theorem ByteTagListData.Holds.readRecords (hv : d.Holds used view) :
    ByteTagList.readRecords used d.data = view := by
  obtain ⟨rest, hrest⟩ := hv.isPrefix
  rw [← hv.size_eq, ← hrest, ByteTagList.readRecords_eq]

theorem ByteTagListData.holds_zero (d : ByteTagListData) : d.Holds 0 [] :=
  ⟨Nat.zero_le _, nil_prefix, rfl⟩

namespace ByteTagList

theorem records_eq (hl : l.data = some a) (hd : h.blocks a = some d) (hv : d.Holds l.used view) :
    l.records h = view := by
  simp only [records, hl, hd, elim_some, hv.readRecords]

theorem records_none (hl : l.data = none) : l.records h = [] := by
  simp only [records, hl]

theorem records_congr
    (hb : ∀ a, l.data = some a → (h'.blocks a).map (·.data) = (h.blocks a).map (·.data)) :
    l.records h' = l.records h := by
  unfold records
  split
  · rfl
  · next a hl =>
    have hdata := hb a hl
    cases hd : h.blocks a <;> cases hd' : h'.blocks a <;> simp_all

end ByteTagList

namespace TagStore

@[simp] theorem set_blocks_self : (h.set a d).blocks a = some d := by
  simp [set]

theorem set_blocks_ne (hne : b ≠ a) : (h.set a d).blocks b = h.blocks b := by
  simp [set, hne]

theorem delete_blocks_ne (hne : b ≠ a) : (h.delete a).blocks b = h.blocks b := by
  simp [delete, hne]

@[simp] theorem delete_blocks_self : (h.delete a).blocks a = none := by
  simp [delete]

theorem of_set_blocks (hb : (h.set a d).blocks b = some d') : b = a ∧ d' = d ∨ b ≠ a ∧
    h.blocks b = some d' := by
  by_cases hne : b = a
  · subst hne
    rw [set_blocks_self] at hb
    exact .inl ⟨rfl, (some.inj hb).symm⟩
  · exact .inr ⟨hne, (set_blocks_ne hne).symm.trans hb⟩

end TagStore

/-! ## Lists and their areas -/

/-- The records of lists stay what they are. -/
def Keeps (h h' : TagStore) (ls : List ByteTagList) : Prop := ∀ l ∈ ls, l.records h' = l.records h

theorem Keeps.refl (h : TagStore) (ls : List ByteTagList) : Keeps h h ls := fun _ _ => rfl

theorem Keeps.trans (hk : Keeps h h₁ ls) (hk' : Keeps h₁ h' ls) : Keeps h h' ls :=
  fun l hl => (hk' l hl).trans (hk l hl)

theorem Keeps.tail (hk : Keeps h h' (l :: ls)) : Keeps h h' ls :=
  fun l' hl => hk l' (mem_cons_of_mem _ hl)

/-- The areas of lists are there and hold their records, the counts are exact, and the areas of the
free list are nobody's. -/
structure TagStore.Areas (h : TagStore) (ls : List ByteTagList) : Prop where
  held : ∀ l ∈ ls, ∀ a, l.data = some a → ∃ d, h.blocks a = some d ∧ ∃ view, d.Holds l.used view
  empty : ∀ l ∈ ls, l.data = none → l.used = 0
  counted : ∀ a d, h.blocks a = some d → d.count = (ls.map (·.data)).count (some a)
  nodup : h.freeList.Nodup
  free : ∀ a ∈ h.freeList, ∃ d, h.blocks a = some d ∧ d.count = 0
  fresh : ∀ a, h.fresh ≤ a → h.blocks a = none

/-- A list that has an area and uses nothing of it. -/
def ByteTagList.bare (a : Nat) : ByteTagList := { data := some a }

namespace TagStore.Areas

theorem perm (hs : Areas h ls) (hp : ls.Perm ls') : Areas h ls' where
  held l hl := hs.held l (hp.mem_iff.2 hl)
  empty l hl := hs.empty l (hp.mem_iff.2 hl)
  counted a d hd := (hs.counted a d hd).trans ((hp.map _).count_eq _)
  nodup := hs.nodup
  free := hs.free
  fresh := hs.fresh

theorem recordsSize_eq (hs : Areas h ls) (hl : l ∈ ls) : recordsSize (l.records h) = l.used := by
  cases hdata : l.data with
  | none => rw [ByteTagList.records_none hdata, hs.empty l hl hdata, recordsSize_nil]
  | some a =>
    obtain ⟨d, hd, view, hv⟩ := hs.held l hl a hdata
    rw [ByteTagList.records_eq hdata hd hv, hv.size_eq]

theorem count_pos (hs : Areas h ls) (hl : l ∈ ls) (ha : l.data = some a)
    (hd : h.blocks a = some d) : 0 < d.count := by
  rw [hs.counted a d hd]
  exact count_pos_iff.2 (mem_map.2 ⟨l, hl, ha⟩)

theorem ne_of_count (hs : Areas h ls) (hd : h.blocks a = some d) (hzero : d.count = 0)
    (hl : l ∈ ls) : l.data ≠ some a := fun ha => by
  have hpos := hs.count_pos hl ha hd
  omega

theorem alone (hs : Areas h (l :: ls)) (ha : l.data = some a) (hd : h.blocks a = some d)
    (hone : d.count = 1) (hl' : l' ∈ ls) : l'.data ≠ some a := fun ha' => by
  have hcount := hs.counted a d hd
  have hpos : 0 < (ls.map (·.data)).count (some a) := count_pos_iff.2 (mem_map.2 ⟨l', hl', ha'⟩)
  rw [map_cons, ha, count_cons_self] at hcount
  omega

theorem cons_none_iff (hl : l.data = none) (hused : l.used = 0) : Areas h (l :: ls) ↔
    Areas h ls := by
  have hcount : ∀ a, (((l :: ls).map (·.data)).count (some a)) = (ls.map (·.data)).count (some a) :=
    fun a => by
    rw [map_cons, hl, count_cons_of_ne (by simp)]
  refine ⟨fun hs => ⟨fun l' hl' => hs.held l' (mem_cons_of_mem _ hl'),
    fun l' hl' => hs.empty l' (mem_cons_of_mem _ hl'), fun a d hd =>
      (hs.counted a d hd).trans (hcount a),
    hs.nodup, hs.free, hs.fresh⟩, fun hs => ⟨fun l' hl' a ha => ?_, fun l' hl' hnone => ?_,
    fun a d hd => (hs.counted a d hd).trans (hcount a).symm, hs.nodup, hs.free, hs.fresh⟩⟩
  · rcases mem_cons.1 hl' with rfl | hl'
    · cases hl.symm.trans ha
    · exact hs.held l' hl' a ha
  · rcases mem_cons.1 hl' with rfl | hl'
    · exact hused
    · exact hs.empty l' hl' hnone

theorem rehead (hs : Areas h (l :: ls)) (ha : l.data = some a) (hd : h.blocks a = some d)
    (ha' : l'.data = some a) (hv : d.Holds l'.used view) : Areas h (l' :: ls) where
  held l₁ hl₁ b hb := by
    rcases mem_cons.1 hl₁ with rfl | hl₁
    · cases ha'.symm.trans hb
      exact ⟨d, hd, view, hv⟩
    · exact hs.held l₁ (mem_cons_of_mem _ hl₁) b hb
  empty l₁ hl₁ hnone := by
    rcases mem_cons.1 hl₁ with rfl | hl₁
    · cases ha'.symm.trans hnone
    · exact hs.empty l₁ (mem_cons_of_mem _ hl₁) hnone
  counted b d' hd' := by
    rw [hs.counted b d' hd', map_cons, map_cons, ha, ha']
  nodup := hs.nodup
  free := hs.free
  fresh := hs.fresh

theorem change (hs : Areas h ls) (hd : h.blocks a = some d) (hcount : d'.count = d.count)
    (hheld : ∀ l ∈ ls, l.data = some a → ∃ view, d'.Holds l.used view) : Areas (h.set a d') ls where
  held l hl b hb := by
    by_cases hne : b = a
    · subst hne
      exact ⟨d', set_blocks_self, hheld l hl hb⟩
    · rw [set_blocks_ne hne]
      exact hs.held l hl b hb
  empty := hs.empty
  counted b d₁ hd₁ := by
    rcases of_set_blocks hd₁ with ⟨rfl, rfl⟩ | ⟨-, hd₁⟩
    · exact hcount.trans (hs.counted b d hd)
    · exact hs.counted b d₁ hd₁
  nodup := hs.nodup
  free b hb := by
    obtain ⟨d₁, hd₁, hzero⟩ := hs.free b hb
    by_cases hne : b = a
    · subst hne
      cases hd.symm.trans hd₁
      exact ⟨d', set_blocks_self, hcount.trans hzero⟩
    · exact ⟨d₁, (set_blocks_ne hne).trans hd₁, hzero⟩
  fresh b hb := by
    have hnone := hs.fresh b hb
    rwa [set_blocks_ne fun hba => by rw [hba, hd] at hnone; cases hnone]

/-! ## Allocation -/

theorem incCount (hs : Areas h ls) (hl : l ∈ ls) : ∃ h', h.incCount l.data = some h' ∧
    Areas h' (l :: ls) ∧ ∀ l' : ByteTagList, l'.records h' = l'.records h := by
  cases hdata : l.data with
  | none => exact ⟨h, rfl, (cons_none_iff hdata (hs.empty l hl hdata)).2 hs, fun _ => rfl⟩
  | some a =>
    obtain ⟨d, hd, view, hv⟩ := hs.held l hl a hdata
    refine ⟨h.set a { d with count := d.count + 1 }, by simp [TagStore.incCount, hd], ?_,
      fun l' => ?_⟩
    · have hheld : ∀ l' ∈ ls, ∀ b, l'.data = some b → ∃ d',
          (h.set a { d with count := d.count + 1 }).blocks b = some d' ∧ ∃ view,
          d'.Holds l'.used view := fun l' hl' b hb => by
        obtain ⟨d', hd', view', hv'⟩ := hs.held l' hl' b hb
        by_cases hne : b = a
        · subst hne
          cases hd.symm.trans hd'
          exact ⟨_, set_blocks_self, view', hv'.le_dirty, hv'.isPrefix, hv'.size_eq⟩
        · exact ⟨d', (set_blocks_ne hne).trans hd', view', hv'⟩
      refine ⟨forall_mem_cons.2 ⟨hheld l hl, hheld⟩, forall_mem_cons.2 ⟨hs.empty l hl, hs.empty⟩,
        fun b d' hd' => ?_, hs.nodup, fun b hb => ?_, fun b hb => ?_⟩
      · rw [map_cons, hdata]
        rcases of_set_blocks hd' with ⟨rfl, rfl⟩ | ⟨hne, hd'⟩
        · rw [count_cons_self, ← hs.counted b d hd]
        · rw [count_cons_of_ne fun hba => hne (some.inj hba).symm, ← hs.counted b d' hd']
      · obtain ⟨d', hd', hzero⟩ := hs.free b hb
        have hne : b ≠ a := fun hba => hs.ne_of_count hd' hzero hl (hba ▸ hdata)
        exact ⟨d', (set_blocks_ne hne).trans hd', hzero⟩
      · have hnone := hs.fresh b hb
        rwa [set_blocks_ne fun hba => by rw [hba, hd] at hnone; cases hnone]
    · refine ByteTagList.records_congr fun b _ => ?_
      by_cases hne : b = a
      · subst hne
        rw [set_blocks_self, hd]
        rfl
      · rw [set_blocks_ne hne]

theorem of_tail (hs : Areas h (l :: ls)) (ha : l.data = some a)
    (hblocks : ∀ b, b ≠ a → h'.blocks b = h.blocks b) (hfresh : h'.fresh = h.fresh)
    (hheld : ∀ l' ∈ ls, l'.data = some a → ∃ d, h'.blocks a = some d ∧ ∃ view, d.Holds l'.used view)
    (hcounted : ∀ d, h'.blocks a = some d → d.count = (ls.map (·.data)).count (some a))
    (hnodup : h'.freeList.Nodup)
    (hfree : ∀ b ∈ h'.freeList, ∃ d, h'.blocks b = some d ∧ d.count = 0) : Areas h' ls where
  held l' hl' b hb := by
    by_cases hne : b = a
    · subst hne
      exact hheld l' hl' hb
    · rw [hblocks b hne]
      exact hs.held l' (mem_cons_of_mem _ hl') b hb
  empty l' hl' := hs.empty l' (mem_cons_of_mem _ hl')
  counted b d hd := by
    by_cases hne : b = a
    · subst hne
      exact hcounted d hd
    · rw [hblocks b hne] at hd
      rw [hs.counted b d hd, map_cons, ha, count_cons_of_ne fun hba => hne (some.inj hba).symm]
  nodup := hnodup
  free := hfree
  fresh b hb := by
    obtain ⟨d, hd, -⟩ := hs.held l mem_cons_self a ha
    have hnone := hs.fresh b (hfresh ▸ hb)
    rwa [hblocks b fun hba => by rw [hba, hd] at hnone; cases hnone]

/-- `Deallocate`: a list less. -/
theorem deallocate (hs : Areas h (l :: ls)) : ∃ h', h.deallocate l.data = some h' ∧ Areas h' ls ∧
    Keeps h h' ls ∧ ∀ b, l.data ≠ some b → h'.blocks b = h.blocks b := by
  cases hdata : l.data with
  | none => exact ⟨h, rfl, (cons_none_iff hdata (hs.empty l mem_cons_self hdata)).1 hs,
      Keeps.refl h ls, fun _ _ => rfl⟩
  | some a =>
    obtain ⟨d, hd, -⟩ := hs.held l mem_cons_self a hdata
    have hcount : d.count = (ls.map (·.data)).count (some a) + 1 := by
      rw [hs.counted a d hd, map_cons, hdata, count_cons_self]
    have hnotFree : ∀ b ∈ h.freeList, b ≠ a := fun b hb hba => by
      obtain ⟨d', hd', hzero⟩ := hs.free b hb
      exact hs.ne_of_count hd' hzero mem_cons_self (hba ▸ hdata)
    rw [TagStore.deallocate, hd, map_some]
    dsimp only
    by_cases hlast : d.count - 1 = 0
    · have hnobody : ∀ l' ∈ ls, l'.data ≠ some a := fun l' hl' => hs.alone hdata hd (by omega) hl'
      have hkeeps : ∀ {h' : TagStore}, (∀ b, b ≠ a → h'.blocks b = h.blocks b) → Keeps h h' ls :=
        fun hblocks l' hl' => ByteTagList.records_congr fun b hb => by
          rw [hblocks b fun hba => hnobody l' hl' (hba ▸ hb)]
      rw [if_pos hlast]
      split
      · -- the area is deleted
        have hblocks : ∀ b, b ≠ a → (({ h.set a { d with count := d.count - 1 } with
            maxSize := max h.maxSize d.size } : TagStore).delete a).blocks b = h.blocks b :=
              fun b hne => by
          rw [delete_blocks_ne hne]
          exact set_blocks_ne hne
        refine ⟨_, rfl, hs.of_tail hdata hblocks rfl (fun l' hl' ha' => absurd ha' (hnobody l' hl'))
          (fun d' hd' => ?_) hs.nodup (fun b hb => ?_), hkeeps hblocks,
          fun b hb => hblocks b fun hba => hb (hba ▸ rfl)⟩
        · rw [delete_blocks_self] at hd'
          cases hd'
        · rw [hblocks b (hnotFree b hb)]
          exact hs.free b hb
      · -- the area goes to the free list
        have hblocks : ∀ b, b ≠ a → ({ h.set a { d with count := d.count - 1 } with
            maxSize := max h.maxSize d.size, freeList := a :: h.freeList } : TagStore).blocks b =
              h.blocks b :=
          fun b hne => set_blocks_ne hne
        refine ⟨_, rfl, hs.of_tail hdata hblocks rfl (fun l' hl' ha' => absurd ha' (hnobody l' hl'))
          (fun d' hd' => ?_) (nodup_cons.2 ⟨fun hmem => hnotFree a hmem rfl, hs.nodup⟩)
          (forall_mem_cons.2 ⟨⟨_, set_blocks_self, hlast⟩, fun b hb => ?_⟩), hkeeps hblocks,
          fun b hb => hblocks b fun hba => hb (hba ▸ rfl)⟩
        · cases set_blocks_self.symm.trans hd'
          show d.count - 1 = _
          omega
        · obtain ⟨d', hd', hzero⟩ := hs.free b hb
          exact ⟨d', (set_blocks_ne (hnotFree b hb)).trans hd', hzero⟩
    · -- other lists have the area
      rw [if_neg hlast]
      refine ⟨_, rfl, hs.of_tail hdata (fun b hne => set_blocks_ne hne) rfl (fun l' hl' ha' => ?_)
        (fun d' hd' => ?_) hs.nodup (fun b hb => ?_), fun l' hl' =>
          ByteTagList.records_congr fun b hb => ?_,
        fun b hb => set_blocks_ne fun hba => hb (hba ▸ rfl)⟩
      · obtain ⟨d', hd', view, hv⟩ := hs.held l' (mem_cons_of_mem _ hl') a ha'
        cases hd.symm.trans hd'
        exact ⟨_, set_blocks_self, view, hv.le_dirty, hv.isPrefix, hv.size_eq⟩
      · cases set_blocks_self.symm.trans hd'
        show d.count - 1 = _
        omega
      · obtain ⟨d', hd', hzero⟩ := hs.free b hb
        exact ⟨d', (set_blocks_ne (hnotFree b hb)).trans hd', hzero⟩
      · by_cases hne : b = a
        · subst hne
          show ((h.set b { d with count := d.count - 1 }).blocks b).map (·.data) = _
          rw [set_blocks_self, hd]
          rfl
        · show ((h.set a { d with count := d.count - 1 }).blocks b).map (·.data) = _
          rw [set_blocks_ne hne]

theorem deleteFree {rest : List Nat} (hs : Areas { h with freeList := a :: rest } ls) :
    Areas { h.delete a with freeList := rest } ls := by
  obtain ⟨d, hd, hzero⟩ := hs.free a mem_cons_self
  obtain ⟨hnotMem, hnodup⟩ := nodup_cons.1 hs.nodup
  refine ⟨fun l hl b hb => ?_, hs.empty, fun b d' hd' => ?_, hnodup, fun b hb => ?_, fun b hb => ?_⟩
  · obtain ⟨d', hd', hheld⟩ := hs.held l hl b hb
    have hne : b ≠ a := fun hba => hs.ne_of_count hd hzero hl (hba ▸ hb)
    exact ⟨d', (delete_blocks_ne hne).trans hd', hheld⟩
  · refine hs.counted b d' ?_
    by_cases hne : b = a
    · subst hne
      cases delete_blocks_self.symm.trans hd'
    · exact (delete_blocks_ne hne).symm.trans hd'
  · obtain ⟨d', hd', hzero'⟩ := hs.free b (mem_cons_of_mem _ hb)
    have hne : b ≠ a := fun hba => hnotMem (hba ▸ hb)
    exact ⟨d', (delete_blocks_ne hne).trans hd', hzero'⟩
  · by_cases hne : b = a
    · subst hne
      exact delete_blocks_self
    · exact (delete_blocks_ne hne).trans (hs.fresh b hb)

theorem cons_bare (hs : Areas h ls) (hnobody : ∀ l ∈ ls, l.data ≠ some a)
    (hblocks : ∀ b, b ≠ a → h'.blocks b = h.blocks b) (ha : h'.blocks a = some d)
    (hcount : d.count = 1)
    (hnodup : h'.freeList.Nodup) (hfree : ∀ b ∈ h'.freeList, b ∈ h.freeList ∧ b ≠ a)
    (hfresh : h.fresh ≤ h'.fresh ∧ a < h'.fresh) : Areas h' (ByteTagList.bare a :: ls) where
  held := by
    refine forall_mem_cons.2 ⟨fun b hb => ?_, fun l hl b hb => ?_⟩
    · cases hb
      exact ⟨d, ha, [], d.holds_zero⟩
    · obtain ⟨d', hd', hheld⟩ := hs.held l hl b hb
      exact ⟨d', (hblocks b fun hba => hnobody l hl (hba ▸ hb)).trans hd', hheld⟩
  empty := forall_mem_cons.2 ⟨fun _ => rfl, hs.empty⟩
  counted b d' hd' := by
    rw [map_cons]
    by_cases hne : b = a
    · subst hne
      cases ha.symm.trans hd'
      rw [ByteTagList.bare, count_cons_self, hcount, count_eq_zero.2 fun hmem => ?_]
      obtain ⟨l, hl, hb⟩ := mem_map.1 hmem
      exact hnobody l hl hb
    · rw [hblocks b hne] at hd'
      rw [hs.counted b d' hd', ByteTagList.bare,
      count_cons_of_ne fun hba => hne (some.inj hba).symm]
  nodup := hnodup
  free b hb := by
    obtain ⟨hmem, hne⟩ := hfree b hb
    rw [hblocks b hne]
    exact hs.free b hmem
  fresh b hb := by
    rw [hblocks b (by omega)]
    exact hs.fresh b (hfresh.1.trans hb)

theorem allocateFrom (size : Nat) : ∀ {free : List Nat} {h : TagStore},
    Areas { h with freeList := free } ls → ∃ h' a,
      TagStore.allocateFrom size free h = some (h', a) ∧ Areas h' (ByteTagList.bare a :: ls) ∧
        Keeps h h' ls ∧ ∀ l ∈ ls, l.data ≠ some a
  | [], h, hs => by
    have hnone : h.blocks h.fresh = none := hs.fresh h.fresh le_rfl
    have hnobody : ∀ l ∈ ls, l.data ≠ some h.fresh := fun l hl ha => by
      obtain ⟨d, hd, -⟩ := hs.held l hl _ ha
      cases hnone.symm.trans hd
    refine ⟨_, _, rfl,
      hs.cons_bare hnobody (fun b hne => set_blocks_ne hne) set_blocks_self rfl .nil (by simp)
      ⟨Nat.le_succ _, Nat.lt_succ_self _⟩, fun l hl => ByteTagList.records_congr fun b hb => ?_,
        hnobody⟩
    exact congrArg _ (set_blocks_ne (h := h) fun hba => hnobody l hl (hba ▸ hb))
  | a :: rest, h, hs => by
    obtain ⟨d, hd, hzero⟩ := hs.free a mem_cons_self
    have hd : h.blocks a = some d := hd
    have hnobody : ∀ l ∈ ls, l.data ≠ some a := fun l hl => hs.ne_of_count hd hzero hl
    obtain ⟨hnotMem, hnodup⟩ := nodup_cons.1 hs.nodup
    rw [TagStore.allocateFrom, hd, bind_some]
    by_cases hfits : d.size ≥ size
    · have hlt : a < h.fresh := Nat.lt_of_not_le fun hle => by
        have hnone := hs.fresh a hle
        cases hnone.symm.trans hd
      refine ⟨_, _, if_pos hfits,
        hs.cons_bare hnobody (fun b hne => set_blocks_ne hne) set_blocks_self rfl hnodup
        (fun b hb => ⟨mem_cons_of_mem _ hb, fun hba => hnotMem (hba ▸ hb)⟩) ⟨le_rfl, hlt⟩,
        fun l hl => ByteTagList.records_congr fun b hb => ?_, hnobody⟩
      exact congrArg _ (set_blocks_ne (h := h) fun hba => hnobody l hl (hba ▸ hb))
    · obtain ⟨h', b, hcode, hs', hkeeps, hb⟩ := allocateFrom size (h := h.delete a) hs.deleteFree
      refine ⟨h', b, by rw [if_neg hfits, hcode], hs', fun l hl => (hkeeps l hl).trans ?_, hb⟩
      exact ByteTagList.records_congr fun b hb =>
        congrArg _ (delete_blocks_ne fun hba => hnobody l hl (hba ▸ hb))

theorem allocate (hs : Areas h ls) (size : Nat) : ∃ h' a, h.allocate size = some (h', a) ∧
    Areas h' (ByteTagList.bare a :: ls) ∧ Keeps h h' ls ∧ ∀ l ∈ ls, l.data ≠ some a :=
  hs.allocateFrom size

/-! ## Writing -/

variable (r l') in
theorem write (hs : Areas h (l :: ls)) (ha : l.data = some a) (hd : h.blocks a = some d)
    (hview : view <+: d.data)
    (hused : ∀ l₁ ∈ l :: ls, l₁.data = some a → l₁.used ≤ recordsSize view) (ha' : l'.data = some a)
    (hused' : l'.used = recordsSize (view ++ [r])) :
    Areas (h.set a { d with dirty := l'.used, data := view ++ [r] }) (l' :: ls) ∧
      Keeps h (h.set a { d with dirty := l'.used, data := view ++ [r] }) ls ∧
      l'.records (h.set a { d with dirty := l'.used, data := view ++ [r] }) = view ++ [r] := by
  have hheld : ∀ l₁ ∈ l :: ls, l₁.data = some a → ∃ view₁, d.Holds l₁.used view₁ ∧
      ({ d with dirty := l'.used, data := view ++ [r] } : ByteTagListData).Holds l₁.used view₁ :=
        fun l₁ hl₁ ha₁ => by
    obtain ⟨d₁, hd₁, view₁, hv⟩ := hs.held l₁ hl₁ a ha₁
    cases hd.symm.trans hd₁
    have hle := hused l₁ hl₁ ha₁
    have hpre : view₁ <+: view :=
      prefix_of_recordsSize_le hv.isPrefix hview (by rw [hv.size_eq]; exact hle)
    refine ⟨view₁, hv, show l₁.used ≤ l'.used from ?_, hpre.trans (prefix_append _ _), hv.size_eq⟩
    rw [hused', recordsSize_append]
    omega
  have hown : ({ d with dirty := l'.used, data := view ++ [r] } : ByteTagListData).Holds l'.used
    (view ++ [r]) :=
    ⟨le_rfl, prefix_rfl, hused'.symm⟩
  have hs₁ : Areas (h.set a { d with dirty := l'.used, data := view ++ [r] }) (l :: ls) :=
    hs.change hd rfl fun l₁ hl₁ ha₁ => (hheld l₁ hl₁ ha₁).imp fun _ => And.right
  refine ⟨hs₁.rehead ha set_blocks_self ha' hown, fun l₁ hl₁ => ?_,
    ByteTagList.records_eq ha' set_blocks_self hown⟩
  · by_cases ha₁ : l₁.data = some a
    · obtain ⟨view₁, hv, hv'⟩ := hheld l₁ (mem_cons_of_mem _ hl₁) ha₁
      rw [ByteTagList.records_eq ha₁ set_blocks_self hv', ByteTagList.records_eq ha₁ hd hv]
    · refine ByteTagList.records_congr fun b hb => ?_
      have hne : b ≠ a := fun hba => ha₁ (hba ▸ hb)
      rw [set_blocks_ne hne]

/-- The first part of `Add`: an area whose first records are those of the list, and the other lists
there have no more of them. -/
theorem reserve (hs : Areas h (l :: ls)) (spaceNeeded : Nat) :
    ∃ h' a d, l.reserve h spaceNeeded = some (h', a, l.used) ∧
    Areas h' (ByteTagList.bare a :: ls) ∧ Keeps h h' ls ∧ h'.blocks a = some d ∧
      l.records h <+: d.data ∧ ∀ l' ∈ ls, l'.data = some a → l'.used ≤ l.used := by
  have hmem : l ∈ l :: ls := mem_cons_self
  rw [ByteTagList.reserve]
  cases hdata : l.data with
  | none =>
    have hs₀ := (cons_none_iff hdata (hs.empty l hmem hdata)).1 hs
    obtain ⟨h', a, hcode, hs', hkeeps, hnobody⟩ := hs₀.allocate spaceNeeded
    obtain ⟨d, hd, -⟩ := hs'.held _ mem_cons_self a rfl
    refine ⟨h', a, d, ?_, hs', hkeeps, hd, ?_, fun l' hl' ha' => absurd ha' (hnobody l' hl')⟩
    · simp only [hcode, map_some, hs.empty l hmem hdata]
    · rw [ByteTagList.records_none hdata]
      exact nil_prefix
  | some a =>
    obtain ⟨d, hd, view, hv⟩ := hs.held l hmem a hdata
    have hrecords := ByteTagList.records_eq hdata hd hv
    simp only [hd, bind_some]
    split
    · -- the records are copied
      obtain ⟨h₁, a', hcode, hs₁, hkeeps₁, hnobody⟩ := hs.allocate spaceNeeded
      obtain ⟨newData, hnew, -⟩ := hs₁.held _ mem_cons_self a' rfl
      have hs₂ : Areas (h₁.set a' { newData with data := ByteTagList.readRecords l.used d.data })
          (ByteTagList.bare a' :: l :: ls) := by
        refine hs₁.change hnew rfl fun l₁ hl₁ ha₁ => ?_
        rcases mem_cons.1 hl₁ with rfl | hl₁
        · exact ⟨[], ByteTagListData.holds_zero _⟩
        · exact absurd ha₁ (hnobody l₁ hl₁)
      obtain ⟨h₃, hcode₃, hs₃, hkeeps₃, hblocks₃⟩ := (hs₂.perm (.swap _ _ _)).deallocate
      have hne : l.data ≠ some a' := hnobody l hmem
      rw [hdata] at hcode₃
      refine ⟨h₃, a', { newData with data := ByteTagList.readRecords l.used d.data }, ?_, hs₃,
        fun l' hl' => ?_, ?_, ?_, fun l' hl' ha' => absurd ha' (hnobody l' (mem_cons_of_mem _ hl'))⟩
      · simp only [hcode, bind_some, hnew, hcode₃, map_some]
      · rw [hkeeps₃ l' (mem_cons_of_mem _ hl'), ← hkeeps₁ l' (mem_cons_of_mem _ hl')]
        refine ByteTagList.records_congr fun b hb => ?_
        have hne' : b ≠ a' := fun hba => hnobody l' (mem_cons_of_mem _ hl') (hba ▸ hb)
        rw [set_blocks_ne hne']
      · rw [hblocks₃ a' hne, set_blocks_self]
      · rw [hrecords, ← hv.readRecords]
    · next hinPlace =>
      refine ⟨h, a, d, rfl, hs.rehead hdata hd rfl d.holds_zero, Keeps.refl h ls, hd,
        hrecords ▸ hv.isPrefix, fun l' hl' ha' => ?_⟩
      -- alone, or nobody uses more than the dirty bytes
      by_cases hone : d.count = 1
      · exact absurd ha' (hs.alone hdata hd hone hl')
      · obtain ⟨d', hd', view', hv'⟩ := hs.held l' (mem_cons_of_mem _ hl') a ha'
        cases hd.symm.trans hd'
        have hdirty : d.dirty = l.used := by
          by_contra hne
          exact hinPlace (.inr ⟨hone, hne⟩)
        exact hdirty ▸ hv'.le_dirty

theorem add (hs : Areas h (l :: ls)) (tag : ByteTag) (start end_ : Int) : ∃ h' l',
    l.add h tag start end_ = some (h', l') ∧ Areas h' (l' :: ls) ∧ Keeps h h' ls ∧
    l'.records h' = l.records h ++ [⟨tag, int32 (start - l.adjustment),
      int32 (end_ - l.adjustment)⟩] ∧
    l'.adjustment = l.adjustment ∧ l'.minStart = min l.minStart (int32 (start - l.adjustment)) ∧
    l'.maxEnd = max l.maxEnd (int32 (end_ - l.adjustment)) := by
  obtain ⟨h₁, a, d, hcode, hs₁, hkeeps₁, hd, hpre, hused⟩ :=
    hs.reserve (l.used + tag.data.length + 4 + 4 + 4 + 4)
  have hsize := hs.recordsSize_eq mem_cons_self
  have hread : ByteTagList.readRecords l.used d.data = l.records h := by
    obtain ⟨rest, hrest⟩ := hpre
    rw [← hsize, ← hrest, ByteTagList.readRecords_eq]
  obtain ⟨hs', hkeeps', hrecords'⟩ := hs₁.write
    { l with
      minStart := if int32 (start - l.adjustment) < l.minStart then int32 (start - l.adjustment)
        else l.minStart
      maxEnd := if int32 (end_ - l.adjustment) > l.maxEnd then int32 (end_ - l.adjustment)
        else l.maxEnd
      used := l.used + tag.data.length + 4 + 4 + 4 + 4
      data := some a }
    ⟨tag, int32 (start - l.adjustment), int32 (end_ - l.adjustment)⟩ rfl hd hpre
    (forall_mem_cons.2 ⟨fun _ => Nat.zero_le _, fun l₁ hl₁ ha₁ => hsize ▸ hused l₁ hl₁ ha₁⟩) rfl (by
      rw [recordsSize_append, hsize, recordsSize_cons, recordsSize_nil, TagRecord.size]
      dsimp only
      omega)
  refine ⟨_, _, ?_, hs', hkeeps₁.trans hkeeps', hrecords', rfl, ?_, ?_⟩
  · simp only [ByteTagList.add, hcode, bind_some, hd, map_some, hread]
  · dsimp only
    split <;> omega
  · dsimp only
    split <;> omega

theorem assign (hs : Areas h (l :: l' :: ls)) : ∃ h', l.assign h l' = some (h', l') ∧
    Areas h' (l' :: ls) ∧ Keeps h h' (l' :: ls) := by
  obtain ⟨h₁, hcode₁, hs₁, hkeeps₁, -⟩ := hs.deallocate
  obtain ⟨h₂, hcode₂, hs₂, hkeeps₂⟩ := hs₁.incCount mem_cons_self
  obtain ⟨h₃, hcode₃, hs₃, hkeeps₃, -⟩ := hs₂.deallocate
  refine ⟨h₃, ?_, hs₃, fun l₁ hl₁ => ?_⟩
  · simp only [ByteTagList.assign, hcode₁, bind_some, hcode₂, hcode₃, map_some]
  · rw [hkeeps₃ l₁ hl₁, hkeeps₂ l₁, hkeeps₁ l₁ hl₁]

end TagStore.Areas

end OranNs3.Network
