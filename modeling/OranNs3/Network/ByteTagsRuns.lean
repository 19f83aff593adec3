import Mathlib.Data.Int.Order.Basic
import OranNs3.Lib.Related
import OranNs3.Network.ByteTagsStore

/-!
# Tagged bytes

What iterating over the byte tags of a packet reports. A list has tags at every offset
(`ByteTagList.tagsAt`), and `Sound` says what its cached minimum and maximum and its lazy adjustment
rely on. The packets of a program are bytes with their tags (`Packets.Refines`), whatever they
share, as long as the offsets fit in 32 bits and ranges are given as they are stored
(`Packets.Fits`).

`AddByteTag` of a range is for the positions from `start` to `end`, and the first position is 1. It
stores the offsets from `start` on, so the byte at the position `start` has no tag
(`byteTags_fail`).
-/

namespace OranNs3.Network

open List Option

open TagStore (Areas)

variable {h h' h₁ : TagStore} {l l' l₁ : ByteTagList} {ls : List ByteTagList}
  {rs items : List TagRecord} {r : TagRecord} {tag : ByteTag} {n k j : Int}

/-! ## Offsets -/

/-- What an `int32_t` holds. -/
def FitsInt32 (n : Int) : Prop := -2 ^ 31 ≤ n ∧ n < 2 ^ 31
deriving Decidable

theorem int32_eq (hn : FitsInt32 n) : int32 n = n := by
  obtain ⟨hlo, hhi⟩ := hn
  exact Int.bmod_eq_of_le (by omega) (by omega)

theorem FitsInt32.between {a b : Int} (ha : FitsInt32 a) (hb : FitsInt32 b) (hle : a ≤ n)
    (hle' : n ≤ b) : FitsInt32 n := ⟨ha.1.trans hle, hle'.trans_lt hb.2⟩

/-! ## The tags at an offset -/

/-- The tags of the records whose ranges cover an offset. -/
def tagsAt (rs : List TagRecord) (k : Int) : List ByteTag :=
  (rs.filter fun r => decide (r.start ≤ k) && decide (k < r.end_)).map (·.tag)

@[simp] theorem tagsAt_nil : tagsAt [] k = [] := rfl

theorem tagsAt_cons : tagsAt (r :: rs) k = tagsAt [r] k ++ tagsAt rs k := by
  rw [tagsAt, tagsAt, tagsAt, ← map_append, ← filter_append, singleton_append]

@[simp] theorem tagsAt_append : tagsAt (rs ++ items) k = tagsAt rs k ++ tagsAt items k := by
  simp [tagsAt]

theorem tagsAt_singleton : tagsAt [r] k = if r.start ≤ k ∧ k < r.end_ then [r.tag] else [] := by
  by_cases hcov : r.start ≤ k ∧ k < r.end_ <;> simp [tagsAt, hcov]

theorem tagsAt_eq_nil (hrs : ∀ r ∈ rs, k < r.start ∨ r.end_ ≤ k) : tagsAt rs k = [] := by
  rw [tagsAt, filter_eq_nil_iff.2, map_nil]
  intro r hr
  have := hrs r hr
  simp only [Bool.and_eq_true, decide_eq_true_eq]
  omega

theorem tagsAt_filterMap {f : TagRecord → Option TagRecord} {c : Prop} [Decidable c]
    (hf : ∀ r ∈ rs, tagsAt (f r).toList k = if c then tagsAt [r] j else []) :
    tagsAt (rs.filterMap f) k = if c then tagsAt rs j else [] := by
  induction rs with
  | nil => simp
  | cons r rs ih =>
    have hhead := hf r mem_cons_self
    have htail := ih fun r hr => hf r (mem_cons_of_mem _ hr)
    rw [tagsAt_cons]
    cases hr : f r with
    | none =>
      rw [hr, toList_none, tagsAt_nil] at hhead
      rw [filterMap_cons_none hr, htail]
      split
      · next hc => rw [if_pos hc] at hhead; rw [← hhead, nil_append]
      · rfl
    | some item =>
      rw [hr, toList_some] at hhead
      rw [filterMap_cons_some hr, tagsAt_cons, hhead, htail]
      split <;> rfl

namespace ByteTagList

/-- The tags of a list at an offset of the packet. -/
def tagsAt (h : TagStore) (l : ByteTagList) (k : Int) : List ByteTag :=
  Network.tagsAt (l.records h) (k - l.adjustment)

/-- The ranges of a list fit when so much is added to them. -/
def Offsets (h : TagStore) (l : ByteTagList) (n : Int) : Prop :=
  ∀ r ∈ l.records h, FitsInt32 (r.start + l.adjustment + n) ∧ FitsInt32 (r.end_ + l.adjustment + n)
deriving Decidable

/-- A list can be adjusted by so much. -/
def Shifts (h : TagStore) (l : ByteTagList) (n : Int) : Prop :=
  FitsInt32 (l.adjustment + n) ∧ l.Offsets h n
deriving Decidable

/-- What the offsets that a list keeps mean. -/
structure Sound (h : TagStore) (l : ByteTagList) : Prop where
  minStart_le : ∀ r ∈ l.records h, l.minStart ≤ r.start
  le_maxEnd : ∀ r ∈ l.records h, r.end_ ≤ l.maxEnd
  ordered : ∀ r ∈ l.records h, r.start ≤ r.end_
  shifts : l.Shifts h 0

/-- Every range of a list is part of one of another list. -/
def Within (h' : TagStore) (l' : ByteTagList) (h : TagStore) (l : ByteTagList) : Prop :=
  ∀ r' ∈ l'.records h', ∃ r ∈ l.records h, r.start + l.adjustment ≤ r'.start + l'.adjustment ∧
    r'.end_ + l'.adjustment ≤ r.end_ + l.adjustment

theorem Within.refl (h : TagStore) (l : ByteTagList) : Within h l h l :=
  fun r hr => ⟨r, hr, le_rfl, le_rfl⟩

theorem Within.offsets (hw : Within h' l' h l) (hl' : l'.Sound h') (ho : l.Offsets h n) :
    l'.Offsets h' n :=
  fun r' hr' => by
    obtain ⟨r, hr, hstart, hend⟩ := hw r' hr'
    have hle := hl'.ordered r' hr'
    obtain ⟨hfs, hfe⟩ := ho r hr
    exact ⟨hfs.between hfe (by omega) (by omega), hfs.between hfe (by omega) (by omega)⟩

theorem Sound.congr (hl : l.Sound h) (hrec : l.records h' = l.records h) : l.Sound h' where
  minStart_le := hrec ▸ hl.minStart_le
  le_maxEnd := hrec ▸ hl.le_maxEnd
  ordered := hrec ▸ hl.ordered
  shifts := ⟨hl.shifts.1, fun r hr => hl.shifts.2 r (hrec ▸ hr)⟩

theorem Offsets.congr (ho : l.Offsets h n) (hrec : l.records h' = l.records h) : l.Offsets h' n :=
  fun r hr => ho r (hrec ▸ hr)

theorem tagsAt_congr (hrec : l.records h' = l.records h) : l.tagsAt h' k = l.tagsAt h k := by
  rw [tagsAt, tagsAt, hrec]

/-! ## Adding records -/

theorem sound_empty : (({} : ByteTagList)).Sound h where
  minStart_le _ hr := nomatch hr
  le_maxEnd _ hr := nomatch hr
  ordered _ hr := nomatch hr
  shifts := ⟨by decide, fun _ hr => nomatch hr⟩

theorem Sound.adjust (hl : l.Sound h) (hn : l.Shifts h n) : (l.adjust n).Sound h ∧
    (l.adjust n).adjustment = l.adjustment + n := by
  have hadj : (l.adjust n).adjustment = l.adjustment + n := int32_eq hn.1
  refine ⟨⟨hl.minStart_le, hl.le_maxEnd, hl.ordered, ?_, fun r hr => ?_⟩, hadj⟩
  · rw [hadj, Int.add_zero]
    exact hn.1
  · rw [hadj, Int.add_zero, Int.add_zero, ← Int.add_assoc, ← Int.add_assoc]
    exact hn.2 r hr

theorem tagsAt_adjust (hn : l.Shifts h n) : (l.adjust n).tagsAt h k = l.tagsAt h (k - n) := by
  have hadj : (l.adjust n).adjustment = l.adjustment + n := int32_eq hn.1
  have hrec : (l.adjust n).records h = l.records h := rfl
  rw [tagsAt, tagsAt, hadj, hrec]
  congr 1
  omega

/-- An item that a list can take. -/
structure Takes (l : ByteTagList) (item : TagRecord) : Prop where
  ordered : item.start ≤ item.end_
  start_fits : FitsInt32 item.start
  end_fits : FitsInt32 item.end_
  start_stored : FitsInt32 (item.start - l.adjustment)
  end_stored : FitsInt32 (item.end_ - l.adjustment)

/-- An item as a list stores it. -/
def stored (l : ByteTagList) (item : TagRecord) : TagRecord :=
  ⟨item.tag, item.start - l.adjustment, item.end_ - l.adjustment⟩

variable (l items k) in
theorem tagsAt_stored :
    Network.tagsAt (items.map l.stored) (k - l.adjustment) = Network.tagsAt items k := by
  induction items with
  | nil => rfl
  | cons item items ih =>
    rw [map_cons, tagsAt_cons, ih, tagsAt_cons (r := item), tagsAt_singleton, tagsAt_singleton]
    simp only [stored, Int.sub_le_sub_right_iff, Int.sub_lt_sub_right_iff]

variable {item : TagRecord}

theorem Sound.add (hs : Areas h (l :: ls)) (hl : l.Sound h) (hitem : l.Takes item) : ∃ h' l',
    l.add h item.tag item.start item.end_ = some (h', l') ∧ Areas h' (l' :: ls) ∧ Keeps h h' ls ∧
      l'.Sound h' ∧
    l'.adjustment = l.adjustment ∧ l'.records h' = l.records h ++ [l.stored item] := by
  obtain ⟨h', l', hcode, hs', hkeeps, hrec, hadj, hmin, hmax⟩ :=
    hs.add item.tag item.start item.end_
  rw [int32_eq hitem.start_stored] at hrec hmin
  rw [int32_eq hitem.end_stored] at hrec hmax
  refine ⟨h', l', hcode, hs', hkeeps, ⟨?_, ?_, ?_, by rw [hadj]; exact hl.shifts.1, ?_⟩, hadj, hrec⟩
  · rw [hrec, hmin]
    refine forall_mem_append.2 ⟨fun r hr => ?_, forall_mem_singleton.2 (min_le_right _ _)⟩
    exact (min_le_left _ _).trans (hl.minStart_le r hr)
  · rw [hrec, hmax]
    refine forall_mem_append.2 ⟨fun r hr => ?_, forall_mem_singleton.2 (le_max_right _ _)⟩
    exact (hl.le_maxEnd r hr).trans (le_max_left _ _)
  · rw [hrec]
    exact forall_mem_append.2 ⟨hl.ordered,
    forall_mem_singleton.2 (Int.sub_le_sub_right hitem.ordered _)⟩
  · rw [Offsets, hrec, hadj]
    refine forall_mem_append.2 ⟨hl.shifts.2, forall_mem_singleton.2 ⟨?_, ?_⟩⟩
    · rw [Int.add_zero, Int.sub_add_cancel]
      exact hitem.start_fits
    · rw [Int.add_zero, Int.sub_add_cancel]
      exact hitem.end_fits

theorem Sound.addItems (hs : Areas h (l :: ls)) (hl : l.Sound h)
    (hitems : ∀ item ∈ items, l.Takes item) : ∃ h' l', l.addItems h items = some (h', l') ∧
    Areas h' (l' :: ls) ∧ Keeps h h' ls ∧ l'.Sound h' ∧
    l'.adjustment = l.adjustment ∧ l'.records h' = l.records h ++ items.map l.stored := by
  induction items generalizing h l with
  | nil => exact ⟨h, l, rfl, hs, Keeps.refl h ls, hl, rfl, by simp⟩
  | cons item items ih =>
    obtain ⟨hitem, hitems⟩ := forall_mem_cons.1 hitems
    obtain ⟨h₁, l₁, hcode₁, hs₁, hkeeps₁, hl₁, hadj₁, hrec₁⟩ := hl.add hs hitem
    have htakes : ∀ item ∈ items, l₁.Takes item := fun item hmem => by
      have hok := hitems item hmem
      exact ⟨hok.ordered, hok.start_fits, hok.end_fits, hadj₁ ▸ hok.start_stored,
        hadj₁ ▸ hok.end_stored⟩
    have hstored : l₁.stored = l.stored := by
      funext item
      rw [stored, stored, hadj₁]
    obtain ⟨h', l', hcode, hs', hkeeps, hl', hadj, hrec⟩ := ih hs₁ hl₁ htakes
    refine ⟨h', l', ?_, hs', hkeeps₁.trans hkeeps, hl', hadj.trans hadj₁, ?_⟩
    · simp only [ByteTagList.addItems, foldlM_cons, hcode₁, bind_eq_bind, bind_some]
      exact hcode
    · rw [hrec, hrec₁, hstored, map_cons, append_assoc, singleton_append]

/-! ## Iterating -/

theorem Sound.tagsAt_begin (hl : l.Sound h) (offsetStart offsetEnd : Int) :
    Network.tagsAt (l.begin_ h offsetStart offsetEnd) k =
      if offsetStart ≤ k ∧ k < offsetEnd then l.tagsAt h k else [] := by
  refine tagsAt_filterMap fun r hr => ?_
  obtain ⟨hstart, hend⟩ := hl.shifts.2 r hr
  rw [Int.add_zero] at hstart hend
  dsimp only
  rw [int32_eq hstart, int32_eq hend, tagsAt_singleton]
  by_cases hskip : r.start + l.adjustment ≥ offsetEnd ∨ r.end_ + l.adjustment ≤ offsetStart
  · rw [if_pos hskip, toList_none, tagsAt_nil]
    split
    · rw [if_neg (by omega)]
    · rfl
  · rw [if_neg hskip, toList_some, tagsAt_singleton]
    dsimp only
    by_cases hin : offsetStart ≤ k ∧ k < offsetEnd
    · rw [if_pos hin]
      congr 1
      simp only [eq_iff_iff]
      omega
    · rw [if_neg hin, if_neg (by omega)]

theorem Sound.begin_ranges (hl : l.Sound h) {offsetStart offsetEnd : Int}
    (hle : offsetStart ≤ offsetEnd) (hitem : item ∈ l.begin_ h offsetStart offsetEnd) :
    offsetStart ≤ item.start ∧ item.start ≤ item.end_ ∧ item.end_ ≤ offsetEnd ∧
      ∃ r ∈ l.records h, r.start + l.adjustment ≤ item.start ∧
        item.end_ ≤ r.end_ + l.adjustment := by
  obtain ⟨r, hr, hcut⟩ := mem_filterMap.1 hitem
  obtain ⟨hstart, hend⟩ := hl.shifts.2 r hr
  have hordered := hl.ordered r hr
  rw [Int.add_zero] at hstart hend
  dsimp only at hcut
  rw [int32_eq hstart, int32_eq hend] at hcut
  split at hcut
  · cases hcut
  · cases hcut
    dsimp only
    refine ⟨by omega, by omega, by omega, r, hr, by omega, by omega⟩

/-! ## Cutting -/

section
variable (hs : Areas h (l :: ls))
include hs

/-- The lists of `AddAtEnd` and `AddAtStart` if something is cut: the new list has its tags at the
offsets that pass, its offsets are those of the packet, and no range is longer than it was. -/
theorem Sound.rebuild (hl : l.Sound h) (cut : TagRecord → Option TagRecord) (c : Int → Prop)
    [DecidablePred c] (hcut : ∀ item item', cut item = some item' → item.start ≤ item.end_ →
      item.start ≤ item'.start ∧ item'.start ≤ item'.end_ ∧ item'.end_ ≤ item.end_)
    (htags : ∀ item k, Network.tagsAt (cut item).toList k = if c k then Network.tagsAt [item] k
      else []) :
    ∃ h' l', l.rebuild h cut = some (h', l') ∧ Areas h' (l' :: ls) ∧ Keeps h h' ls ∧ l'.Sound h' ∧
      l'.adjustment = 0 ∧ l'.Within h' h l ∧
      ∀ k, k < 2 ^ 31 - 1 → l'.tagsAt h' k = if 0 ≤ k ∧ c k then l.tagsAt h k else [] := by
  have hitem : ∀ item' ∈ (l.beginAll h).filterMap cut, 0 ≤ item'.start ∧ item'.start ≤ item'.end_ ∧
      item'.end_ ≤ 2 ^ 31 - 1 ∧
      ∃ r ∈ l.records h, r.start + l.adjustment ≤ item'.start ∧
        item'.end_ ≤ r.end_ + l.adjustment := by
    intro item' hitem'
    obtain ⟨item, hmem, hsome⟩ := mem_filterMap.1 hitem'
    obtain ⟨hlo, hordered, hhi, r, hr, hstart, hend⟩ := hl.begin_ranges (by decide) hmem
    obtain ⟨hstart', hordered', hend'⟩ := hcut item item' hsome hordered
    exact ⟨by omega, hordered', by omega, r, hr, by omega, by omega⟩
  have htakes : ∀ item' ∈ (l.beginAll h).filterMap cut, ({} : ByteTagList).Takes item' :=
    fun item' hitem' => by
    obtain ⟨hlo, hordered, hhi, -⟩ := hitem item' hitem'
    have hadj : ({} : ByteTagList).adjustment = 0 := rfl
    exact ⟨hordered, ⟨by omega, by omega⟩, ⟨by omega, by omega⟩, ⟨by omega, by omega⟩,
      ⟨by omega, by omega⟩⟩
  have hs₀ : Areas h ({} :: l :: ls) := (TagStore.Areas.cons_none_iff rfl rfl).2 hs
  obtain ⟨h₁, l₁, hcode₁, hs₁, hkeeps₁, hl₁, hadj₁, hrec₁⟩ := sound_empty.addItems hs₀ htakes
  obtain ⟨h', hcode, hs', hkeeps⟩ := (hs₁.perm (.swap _ _ _)).assign
  have hrec : l₁.records h' = l₁.records h₁ := hkeeps l₁ mem_cons_self
  have hrec' : l₁.records h' = ((l.beginAll h).filterMap cut).map (stored {}) := by
    rw [hrec, hrec₁]
    rfl
  refine ⟨h', l₁, ?_, hs', hkeeps₁.tail.trans hkeeps.tail, hl₁.congr hrec, hadj₁, fun r' hr' => ?_,
    fun k hhi => ?_⟩
  · rw [ByteTagList.rebuild, hcode₁, bind_some, hcode]
  · rw [hrec'] at hr'
    obtain ⟨item, hmem, rfl⟩ := mem_map.1 hr'
    obtain ⟨-, -, -, r, hr, hstart, hend⟩ := hitem item hmem
    have hzero : l₁.adjustment = 0 := hadj₁
    have hadj : ({} : ByteTagList).adjustment = 0 := rfl
    refine ⟨r, hr, ?_, ?_⟩ <;> simp only [stored, hzero] <;> omega
  · have hbegin := hl.tagsAt_begin (k := k) 0 (2 ^ 31 - 1)
    rw [tagsAt, hrec', hadj₁, tagsAt_stored, tagsAt_filterMap fun item _ => htags item k, beginAll,
    hbegin]
    by_cases hk : c k
    · rw [if_pos hk]
      exact if_congr (by simp only [hk, hhi, and_true]) rfl rfl
    · rw [if_neg hk, if_neg fun hand => hk hand.2]

/-- `AddAtEnd`: nothing behind the offset has tags. -/
theorem Sound.addAtEnd (hl : l.Sound h) {appendOffset : Int}
    (hstored : FitsInt32 (appendOffset - l.adjustment)) : ∃ h' l',
    l.addAtEnd h appendOffset = some (h', l') ∧ Areas h' (l' :: ls) ∧ Keeps h h' ls ∧ l'.Sound h' ∧
    (l' = l ∨ l'.adjustment = 0) ∧ l'.Within h' h l ∧
    ∀ k, 0 ≤ k → k < 2 ^ 31 - 1 → l'.tagsAt h' k = if k < appendOffset then l.tagsAt h k
      else [] := by
  rw [ByteTagList.addAtEnd, int32_eq hstored]
  by_cases hinside : l.maxEnd ≤ appendOffset - l.adjustment
  · rw [if_pos hinside]
    refine ⟨h, l, rfl, hs, Keeps.refl h ls, hl, .inl rfl, Within.refl h l, fun k _ _ => ?_⟩
    split
    · rfl
    · refine tagsAt_eq_nil fun r hr => .inr ?_
      have hmax := hl.le_maxEnd r hr
      omega
  · rw [if_neg hinside]
    have hrebuild := hl.rebuild hs
      (fun item => if item.start ≥ appendOffset then none
        else some { item with end_ := if item.end_ > appendOffset then appendOffset
        else item.end_ })
      (fun k => k < appendOffset)
      (fun item item' hcut hordered => by
        split at hcut
        · cases hcut
        · cases hcut
          dsimp only
          split <;> omega)
      (fun item k => by
        rw [tagsAt_singleton]
        by_cases hout : item.start ≥ appendOffset
        · rw [if_pos hout, toList_none, tagsAt_nil]
          split
          · rw [if_neg (by omega)]
          · rfl
        · rw [if_neg hout, toList_some, tagsAt_singleton]
          dsimp only
          by_cases hin : k < appendOffset
          · rw [if_pos hin]
            congr 1
            simp only [eq_iff_iff]
            split <;> omega
          · rw [if_neg hin, if_neg (by split <;> omega)])
    obtain ⟨h', l', hcode, hs', hkeeps, hl', hadj, hw, htags⟩ := hrebuild
    refine ⟨h', l', hcode, hs', hkeeps, hl', .inr hadj, hw, fun k hlo hhi => ?_⟩
    rw [htags k hhi]
    simp only [hlo, true_and]

/-- `AddAtStart`: nothing in front of the offset has tags. -/
theorem Sound.addAtStart (hl : l.Sound h) {prependOffset : Int}
    (hpos : 0 ≤ prependOffset) (hstored : FitsInt32 (prependOffset - l.adjustment)) : ∃ h' l',
    l.addAtStart h prependOffset = some (h', l') ∧ Areas h' (l' :: ls) ∧ Keeps h h' ls ∧
      l'.Sound h' ∧ (l' = l ∨ l'.adjustment = 0) ∧ l'.Within h' h l ∧
    ∀ k, k < 2 ^ 31 - 1 → l'.tagsAt h' k = if prependOffset ≤ k then l.tagsAt h k else [] := by
  rw [ByteTagList.addAtStart, int32_eq hstored]
  by_cases hinside : l.minStart ≥ prependOffset - l.adjustment
  · rw [if_pos hinside]
    refine ⟨h, l, rfl, hs, Keeps.refl h ls, hl, .inl rfl, Within.refl h l, fun k _ => ?_⟩
    split
    · rfl
    · refine tagsAt_eq_nil fun r hr => .inl ?_
      have hmin := hl.minStart_le r hr
      omega
  · rw [if_neg hinside]
    have hrebuild := hl.rebuild hs
      (fun item => if item.end_ ≤ prependOffset then none
        else some { item with start := if item.start < prependOffset then prependOffset
        else item.start })
      (fun k => prependOffset ≤ k)
      (fun item item' hcut hordered => by
        split at hcut
        · cases hcut
        · cases hcut
          dsimp only
          split <;> omega)
      (fun item k => by
        rw [tagsAt_singleton]
        by_cases hout : item.end_ ≤ prependOffset
        · rw [if_pos hout, toList_none, tagsAt_nil]
          split
          · rw [if_neg (by omega)]
          · rfl
        · rw [if_neg hout, toList_some, tagsAt_singleton]
          dsimp only
          by_cases hin : prependOffset ≤ k
          · rw [if_pos hin]
            congr 1
            simp only [eq_iff_iff]
            split <;> omega
          · rw [if_neg hin, if_neg (by split <;> omega)])
    obtain ⟨h', l', hcode, hs', hkeeps, hl', hadj, hw, htags⟩ := hrebuild
    refine ⟨h', l', hcode, hs', hkeeps, hl', .inr hadj, hw, fun k hhi => ?_⟩
    rw [htags k hhi]
    exact if_congr (by omega) rfl rfl

theorem Sound.addAll (hl : l.Sound h) (hl₁ : l₁.Sound h)
    (ho : l₁.Offsets h (-l.adjustment)) : ∃ h' l', l.addAll h l₁ = some (h', l') ∧
    Areas h' (l' :: ls) ∧
    Keeps h h' ls ∧ l'.Sound h' ∧
    ∀ k, 0 ≤ k → k < 2 ^ 31 - 1 → l'.tagsAt h' k = l.tagsAt h k ++ l₁.tagsAt h k := by
  have htakes : ∀ item ∈ l₁.beginAll h, l.Takes item := fun item hitem => by
    obtain ⟨hlo, hordered, hhi, r, hr, hstart, hend⟩ := hl₁.begin_ranges (by decide) hitem
    obtain ⟨hfs, hfe⟩ := ho r hr
    exact ⟨hordered, ⟨by omega, by omega⟩, ⟨by omega, by omega⟩,
      hfs.between hfe (by omega) (by omega), hfs.between hfe (by omega) (by omega)⟩
  obtain ⟨h', l', hcode, hs', hkeeps, hl', hadj, hrec⟩ := hl.addItems hs htakes
  refine ⟨h', l', hcode, hs', hkeeps, hl', fun k hlo hhi => ?_⟩
  have hbegin := hl₁.tagsAt_begin (k := k) 0 (2 ^ 31 - 1)
  rw [if_pos ⟨hlo, hhi⟩] at hbegin
  rw [tagsAt, hrec, hadj, tagsAt_append, tagsAt_stored, beginAll, hbegin]
  rfl

end

end ByteTagList

/-! ## Packets -/

theorem TagStore.Areas.adjust (hs : Areas h (l :: ls)) (n : Int) : Areas h (l.adjust n :: ls) where
  held := forall_mem_cons.2 (forall_mem_cons.1 hs.held)
  empty := forall_mem_cons.2 (forall_mem_cons.1 hs.empty)
  counted := hs.counted
  nodup := hs.nodup
  free := hs.free
  fresh := hs.fresh

/-- A packet is bytes with their tags. -/
structure Packet.Carries (h : TagStore) (p : Packet) (m : TaggedBytes) : Prop where
  size : m.length = p.size
  small : FitsInt32 p.size
  sound : p.byteTagList.Sound h
  tags : ∀ k : Nat, k < p.size → m[k]? = some (p.byteTagList.tagsAt h k)

/-- An operation on a packet gives a packet that is these bytes, and the other lists stay what they
are. -/
def Packet.Gives (h : TagStore) (ls : List ByteTagList) (r : Option (TagStore × Packet))
    (m : TaggedBytes) : Prop :=
  ∃ h' p', r = some (h', p') ∧ Areas h' (p'.byteTagList :: ls) ∧ Keeps h h' ls ∧ p'.Carries h' m

namespace Packet

variable {p o : Packet} {m mo : TaggedBytes}

theorem getElem?_untagged {n k : Nat} (hk : k < n) : (untagged n)[k]? = some [] := by
  simp [untagged, hk]

theorem Carries.congr (hp : p.Carries h m)
    (hrec : p.byteTagList.records h' = p.byteTagList.records h) : p.Carries h' m where
  size := hp.size
  small := hp.small
  sound := hp.sound.congr hrec
  tags k hk := by rw [hp.tags k hk, ByteTagList.tagsAt_congr hrec]

variable {n : Nat}

theorem carries_new (hn : FitsInt32 n) : (⟨n, {}⟩ : Packet).Carries h (untagged n) where
  size := length_replicate
  small := hn
  sound := ByteTagList.sound_empty
  tags _ hk := getElem?_untagged hk

theorem Carries.removeAtEnd (hp : p.Carries h m) (n : Nat) :
    (p.removeAtEnd n).Carries h (m.take (m.length - n)) where
  size := by rw [length_take, hp.size, Nat.min_eq_left (Nat.sub_le _ _)]; rfl
  small := by
    have hsmall := hp.small
    have hsize : (p.removeAtEnd n).size = p.size - n := rfl
    exact ⟨by omega, by have := hsmall.2; omega⟩
  sound := hp.sound
  tags k hk := by
    have hlt : k < p.size - n := hk
    rw [getElem?_take_of_lt (by rw [hp.size]; exact hlt), hp.tags k (by omega)]
    rfl

theorem Carries.removeAtStart (hp : p.Carries h m) (hn : p.byteTagList.Shifts h (int32 (-n))) :
    (p.removeAtStart n).Carries h (m.drop n) where
  size := by rw [length_drop, hp.size]; rfl
  small := by
    have hsmall := hp.small
    have hsize : (p.removeAtStart n).size = p.size - n := rfl
    exact ⟨by omega, by have := hsmall.2; omega⟩
  sound := (hp.sound.adjust hn).1
  tags k hk := by
    have hlt : k < p.size - n := hk
    have hsmall := hp.small.2
    have hint : int32 (-n) = -n := int32_eq ⟨by omega, by omega⟩
    rw [getElem?_drop, hp.tags (n + k) (by omega), Packet.removeAtStart,
      ByteTagList.tagsAt_adjust hn, hint]
    have hk' : ((n + k : Nat) : Int) = k - -n := by omega
    rw [hk']

section
variable (hs : Areas h (p.byteTagList :: ls))
include hs

theorem Carries.addPaddingAtEnd (hp : p.Carries h m)
    (hsize : FitsInt32 (p.size + n)) (hstored : FitsInt32 (p.size - p.byteTagList.adjustment)) :
    Gives h ls (p.addPaddingAtEnd h n) (m ++ untagged n) := by
  rw [Packet.addPaddingAtEnd, int32_eq hp.small]
  obtain ⟨h', l', hcode, hs', hkeeps, hl', -, -, htags⟩ := hp.sound.addAtEnd hs hstored
  refine ⟨h', ⟨p.size + n, l'⟩, by rw [hcode]; rfl, hs', hkeeps, ?_, ?_, hl', fun k hk => ?_⟩
  · rw [length_append, hp.size, untagged, length_replicate]
  · exact_mod_cast hsize
  · have hk : k < p.size + n := hk
    have hhi := hsize.2
    dsimp only
    rw [htags k (by omega) (by omega)]
    by_cases hlt : k < p.size
    · rw [getElem?_append_left (by rw [hp.size]; exact hlt), hp.tags k hlt, if_pos (by omega)]
    · rw [getElem?_append_right (by rw [hp.size]; omega), if_neg (by omega), hp.size,
        getElem?_untagged (by omega)]

theorem Carries.addHeader (hp : p.Carries h m)
    (hsize : FitsInt32 (p.size + n)) (hshifts : p.byteTagList.Shifts h n)
    (hstored : FitsInt32 (-p.byteTagList.adjustment)) :
    Gives h ls (p.addHeader h n) (untagged n ++ m) := by
  have hn : int32 n = n := int32_eq ⟨by omega, by have := hsize.2; omega⟩
  rw [Packet.addHeader, hn]
  obtain ⟨hadjust, hadj⟩ := hp.sound.adjust hshifts
  have hoff : FitsInt32 (n - (p.byteTagList.adjust n).adjustment) := by
    rw [hadj]
    exact hstored.between hstored (by omega) (by omega)
  obtain ⟨h', l', hcode, hs', hkeeps, hl', -, -, htags⟩ :=
    hadjust.addAtStart (hs.adjust n) (by omega) hoff
  refine ⟨h', ⟨p.size + n, l'⟩, by rw [hcode]; rfl, hs', hkeeps, ?_, ?_, hl', fun k hk => ?_⟩
  · rw [length_append, hp.size, untagged, length_replicate, Nat.add_comm]
  · exact_mod_cast hsize
  · have hk : k < p.size + n := hk
    have hhi := hsize.2
    have hlen : (untagged n).length = n := length_replicate
    dsimp only
    rw [htags k (by omega), ByteTagList.tagsAt_adjust hshifts]
    by_cases hlt : k < n
    · rw [getElem?_append_left (by rw [hlen]; exact hlt), getElem?_untagged hlt, if_neg (by omega)]
    · rw [getElem?_append_right (by rw [hlen]; omega), if_pos (by omega), hlen,
        hp.tags (k - n) (by omega)]
      have hk' : ((k - n : Nat) : Int) = k - n := by omega
      rw [hk']

theorem Carries.addTag (hp : p.Carries h m) (hitem : p.byteTagList.Takes item) (at_ : Nat → Bool)
    (hat : ∀ k < p.size, at_ (k + 1) = true ↔ item.start ≤ k ∧ k < item.end_) :
    Gives h ls ((p.byteTagList.add h item.tag item.start item.end_).map (withTags p.size))
      (attach item.tag at_ m) := by
  obtain ⟨h', l', hcode, hs', hkeeps, hl', hadj, hrec⟩ := hp.sound.add hs hitem
  refine ⟨h', ⟨p.size, l'⟩, by rw [hcode]; rfl, hs', hkeeps, ?_, hp.small, hl', fun k hk => ?_⟩
  · rw [attach, length_mapIdx, hp.size]
  · have hnew : Network.tagsAt [p.byteTagList.stored item] (k - p.byteTagList.adjustment) =
      tagsAt [item] k :=
      p.byteTagList.tagsAt_stored [item] k
    have htags : l'.tagsAt h' k = p.byteTagList.tagsAt h k ++ tagsAt [item] k := by
      rw [ByteTagList.tagsAt, hrec, hadj, tagsAt_append, hnew]
      rfl
    dsimp only
    rw [attach, getElem?_mapIdx, hp.tags k hk, map_some, htags, tagsAt_singleton]
    by_cases hk' : at_ (k + 1) = true
    · rw [if_pos hk', if_pos ((hat k hk).1 hk')]
    · rw [if_neg hk', if_neg fun hand => hk' ((hat k hk).2 hand), append_nil]

end

theorem Carries.copy (hs : Areas h ls) (hmem : p.byteTagList ∈ ls) (hp : p.Carries h m) :
    Gives h ls (p.copy h) m := by
  obtain ⟨h', hcode, hs', hrec⟩ := hs.incCount hmem
  refine ⟨h', p, ?_, hs', fun l _ => hrec l, hp.congr (hrec _)⟩
  rw [Packet.copy, ByteTagList.copy, hcode]
  rfl

theorem Carries.createFragment (hs : Areas h ls) (hmem : p.byteTagList ∈ ls) (hp : p.Carries h m)
    {start length : Nat} (hle : start + length ≤ p.size)
    (hshifts : p.byteTagList.Shifts h (-start)) :
    Gives h ls (p.createFragment h start length) ((m.drop start).take length) := by
  obtain ⟨h', hcode, hs', hrec⟩ := hs.incCount hmem
  have hsmall := hp.small
  have hstart : int32 (-start) = -start := int32_eq ⟨by have := hsmall.2; omega, by omega⟩
  have hshifts' : p.byteTagList.Shifts h' (-start) := ⟨hshifts.1, hshifts.2.congr (hrec _)⟩
  have hp' := hp.congr (hrec _)
  refine ⟨h', ⟨length, p.byteTagList.adjust (-start)⟩, ?_, hs'.adjust _, fun l _ => hrec l, ?_, ?_,
    (hp'.sound.adjust hshifts').1, fun k hk => ?_⟩
  · rw [Packet.createFragment, if_pos hle, ByteTagList.copy, hcode, hstart]
    rfl
  · rw [length_take, length_drop, hp.size]
    exact Nat.min_eq_left (by omega)
  · exact ⟨by omega, by have := hsmall.2; dsimp only; omega⟩
  · have hk : k < length := hk
    have hk' : ((start + k : Nat) : Int) = k - -start := by omega
    dsimp only
    rw [getElem?_take_of_lt hk, getElem?_drop, hp'.tags (start + k) (by omega),
      ByteTagList.tagsAt_adjust hshifts', hk']

/-- The rest of `AddAtEnd`, for a packet without tags behind its bytes. -/
theorem Carries.append (hs : Areas h (p.byteTagList :: ls))
    (hmem : o.byteTagList ∈ p.byteTagList :: ls) (hp : p.Carries h m) (ho : o.Carries h mo)
    (hsize : FitsInt32 (p.size + o.size))
    (hclear : ∀ k : Int, p.size ≤ k → k < 2 ^ 31 - 1 → p.byteTagList.tagsAt h k = [])
    (hstored : FitsInt32 (-o.byteTagList.adjustment)) (hshifts : o.byteTagList.Shifts h p.size)
    (hoffsets : o.byteTagList.Offsets h (p.size - p.byteTagList.adjustment)) :
    Gives h ls (p.append h o) (m ++ mo) := by
  obtain ⟨h₁, hcode₁, hs₁, hrec₁⟩ := hs.incCount hmem
  have hoff : FitsInt32 (0 - o.byteTagList.adjustment) :=
    hstored.between hstored (by omega) (by omega)
  obtain ⟨h₂, l₂, hcode₂, hs₂, hkeeps₂, hl₂, hadj₂, hw₂, htags₂⟩ :=
    (ho.congr (hrec₁ _)).sound.addAtStart hs₁ le_rfl hoff
  have hshifts₂ : l₂.Shifts h₂ p.size := by
    refine ⟨?_, hw₂.offsets hl₂ (hshifts.2.congr (hrec₁ _))⟩
    rcases hadj₂ with rfl | hadj₂
    · exact hshifts.1
    · rw [hadj₂, Int.zero_add]
      exact hp.small
  obtain ⟨hl₃, hadj₃⟩ := hl₂.adjust hshifts₂
  have hrec₂ : p.byteTagList.records h₂ = p.byteTagList.records h :=
    (hkeeps₂ _ mem_cons_self).trans (hrec₁ _)
  have hoffsets₃ : (l₂.adjust p.size).Offsets h₂ (-p.byteTagList.adjustment) := fun r hr => by
    obtain ⟨hfs, hfe⟩ := hw₂.offsets hl₂ (hoffsets.congr (hrec₁ _)) r hr
    rw [hadj₃]
    exact ⟨hfs.between hfs (by omega) (by omega), hfe.between hfe (by omega) (by omega)⟩
  obtain ⟨h₃, l₃, hcode₃, hs₃, hkeeps₃, hl₃', htags₃⟩ :=
    (hp.sound.congr hrec₂).addAll ((hs₂.adjust p.size).perm (.swap _ _ _)) hl₃ hoffsets₃
  obtain ⟨h₄, hcode₄, hs₄, hkeeps₄, -⟩ := (hs₃.perm (.swap _ _ _)).deallocate
  have hrec₄ := hkeeps₄ l₃ mem_cons_self
  refine ⟨h₄, ⟨p.size + o.size, l₃⟩, ?_, hs₄, fun l hl => ?_, ?_, ?_, hl₃'.congr hrec₄,
    fun k hk => ?_⟩
  · rw [Packet.append, ByteTagList.copy, hcode₁]
    simp only [map_some, bind_some, hcode₂, int32_eq hp.small, hcode₃, hcode₄]
  · rw [hkeeps₄ l (mem_cons_of_mem _ hl), hkeeps₃ l (mem_cons_of_mem _ hl),
      hkeeps₂ l (mem_cons_of_mem _ hl), hrec₁ l]
  · rw [length_append, hp.size, ho.size]
  · exact_mod_cast hsize
  · have hk : k < p.size + o.size := hk
    have hhi := hsize.2
    dsimp only
    rw [ByteTagList.tagsAt_congr hrec₄, htags₃ k (by omega) (by omega),
      ByteTagList.tagsAt_congr hrec₂,
      ByteTagList.tagsAt_adjust hshifts₂, htags₂ _ (by omega), ByteTagList.tagsAt_congr (hrec₁ _)]
    by_cases hlt : k < p.size
    · rw [getElem?_append_left (by rw [hp.size]; exact hlt), hp.tags k hlt, if_neg (by omega),
        append_nil]
    · have hk' : ((k - p.size : Nat) : Int) = k - p.size := by omega
      rw [getElem?_append_right (by rw [hp.size]; omega), hp.size, ho.tags (k - p.size) (by omega),
        hclear k (by omega) (by omega), if_pos (by omega), nil_append, hk']

end Packet

/-! ## Programs -/

/-- What iterating reports of a packet that is these bytes. -/
structure Reports (items : List TagRecord) (bytes : TaggedBytes) : Prop where
  ranges : ∀ item ∈ items, 0 ≤ item.start ∧ item.start ≤ item.end_ ∧ item.end_ ≤ bytes.length
  tags : ∀ (k : Nat) (hk : k < bytes.length), tagsAt items k = bytes[k]

theorem Packet.Carries.reports {p : Packet} {m : TaggedBytes} (hp : p.Carries h m) :
    Reports (p.byteTags h) m := by
  rw [Packet.byteTags, int32_eq hp.small]
  refine ⟨fun item hitem => ?_, fun k hk => ?_⟩
  · obtain ⟨hlo, hordered, hhi, -⟩ := hp.sound.begin_ranges (by omega) hitem
    rw [hp.size]
    exact ⟨hlo, hordered, hhi⟩
  · have hlt : k < p.size := hp.size ▸ hk
    have htags := hp.tags k hlt
    rw [getElem?_eq_getElem hk] at htags
    rw [hp.sound.tagsAt_begin, if_pos ⟨by omega, by omega⟩, ← some.inj htags]

namespace Packets

variable {w w' : Packets} {ms ms' : List TaggedBytes} {m m' : TaggedBytes} {i : Nat} {p : Packet}

/-- The offsets that a call computes fit in 32 bits, and a tag for a range begins in front of the
first byte or behind the last one. -/
def Fits (w : Packets) : PacketCall → Prop
  | .create size => FitsInt32 size
  | .copy _ | .destroy _ | .removeTrailer _ _ | .removeAtEnd _ _ => True
  | .createFragment i start _ => ∀ p ∈ w.packets[i]?, p.byteTagList.Shifts w.store (-start)
  | .addHeader i size => ∀ p ∈ w.packets[i]?, FitsInt32 (p.size + size) ∧
      p.byteTagList.Shifts w.store size ∧ FitsInt32 (-p.byteTagList.adjustment)
  | .removeHeader i size | .removeAtStart i size => ∀ p ∈ w.packets[i]?,
      p.byteTagList.Shifts w.store (int32 (-size))
  | .addTrailer i size | .addPaddingAtEnd i size => ∀ p ∈ w.packets[i]?, FitsInt32 (p.size + size) ∧
      FitsInt32 (p.size - p.byteTagList.adjustment)
  | .addAtEnd i j => ∀ p ∈ w.packets[i]?, ∀ o ∈ w.packets[j]?, FitsInt32 (p.size + o.size) ∧
      FitsInt32 (p.size - p.byteTagList.adjustment) ∧ FitsInt32 (-o.byteTagList.adjustment) ∧
      o.byteTagList.Shifts w.store p.size ∧
        o.byteTagList.Offsets w.store (p.size - p.byteTagList.adjustment)
  | .addByteTag i _ => ∀ p ∈ w.packets[i]?, FitsInt32 (-p.byteTagList.adjustment) ∧
      FitsInt32 (p.size - p.byteTagList.adjustment)
  | .addByteTagRange i _ start end_ => ∀ p ∈ w.packets[i]?, (start = 0 ∨ p.size < start) ∧
      FitsInt32 end_ ∧
      FitsInt32 (start - p.byteTagList.adjustment) ∧ FitsInt32 (end_ - p.byteTagList.adjustment)

instance (w : Packets) (c : PacketCall) : Decidable (w.Fits c) := by
  cases c <;> unfold Fits <;> infer_instance

/-- The packets of a program are bytes with their tags. -/
structure Refines (w : Packets) (ms : List TaggedBytes) : Prop where
  areas : Areas w.store (w.packets.map (·.byteTagList))
  carries : List.Forall₂ (Packet.Carries w.store) w.packets ms

theorem Refines.get (href : Refines w ms) (i : Nat) : w.packets[i]? = none ∧ ms[i]? = none ∨
    ∃ p m, w.packets[i]? = some p ∧ ms[i]? = some m ∧ p.Carries w.store m ∧
      Areas w.store (p.byteTagList :: (w.packets.eraseIdx i).map (·.byteTagList)) := by
  rcases Related.getElem? href.carries i with hnone | ⟨p, m, hp, hm, hcarries⟩
  · exact .inl hnone
  · exact .inr ⟨p, m, hp, hm, hcarries, href.areas.perm ((Related.perm_cons_eraseIdx hp).map _)⟩

variable {r : Option (TagStore × Packet)}

section
variable (href : Refines w ms)
include href

theorem Refines.put (hi : w.packets[i]? = some p)
    (hr : Packet.Gives w.store ((w.packets.eraseIdx i).map (·.byteTagList)) r m') :
    ∃ w', r.map (w.put i) = some w' ∧ Refines w' (ms.set i m') := by
  obtain ⟨h', p', rfl, hs', hkeeps, hp'⟩ := hr
  refine ⟨_, rfl, hs'.perm ((Related.set_perm_cons_eraseIdx hi p').map _).symm, ?_⟩
  exact Related.set href.carries (fun q hq m hm => hm.congr (hkeeps _ (mem_map_of_mem hq))) hp'

theorem Refines.push (hr : Packet.Gives w.store (w.packets.map (·.byteTagList)) r m') :
    ∃ w', r.map w.push = some w' ∧ Refines w' (ms ++ [m']) := by
  obtain ⟨h', p', rfl, hs', hkeeps, hp'⟩ := hr
  have hperm := (perm_append_singleton p' w.packets).map (·.byteTagList)
  refine ⟨_, rfl, hs'.perm hperm.symm, ?_⟩
  exact Related.concat href.carries (fun q hq m hm => hm.congr (hkeeps _ (mem_map_of_mem hq))) hp'

theorem Refines.destroy
    (hs : Areas w.store (p.byteTagList :: (w.packets.eraseIdx i).map (·.byteTagList))) :
    ∃ h', w.store.deallocate p.byteTagList.data = some h' ∧
      Refines ⟨h', w.packets.eraseIdx i⟩ (ms.eraseIdx i) := by
  obtain ⟨h', hcode, hs', hkeeps, -⟩ := hs.deallocate
  refine ⟨h', hcode, hs', ?_⟩
  exact Related.eraseIdx href.carries fun q hq m hm => hm.congr (hkeeps _ (mem_map_of_mem hq))

/-- `AddAtEnd` of the list, before the other packet is looked at. -/
theorem Refines.cutAtEnd (hi : w.packets[i]? = some p) (hm : ms[i]? = some m)
    (hstored : FitsInt32 (p.size - p.byteTagList.adjustment)) : ∃ h' l',
    p.byteTagList.addAtEnd w.store (int32 p.size) = some (h', l') ∧
    Refines (w.put i (h', ⟨p.size, l'⟩)) ms ∧ (l' = p.byteTagList ∨ l'.adjustment = 0) ∧
    (∀ k : Int, p.size ≤ k → k < 2 ^ 31 - 1 → l'.tagsAt h' k = []) ∧
    ∀ (j : Nat) (q : Packet), w.packets[j]? = some q →
      ∃ q' : Packet, (w.put i (h', ⟨p.size, l'⟩)).packets[j]? = some q' ∧ q'.size = q.size ∧
      (q'.byteTagList = q.byteTagList ∨ q'.byteTagList.adjustment = 0) ∧
      q'.byteTagList.Within h' w.store q.byteTagList := by
  rcases href.get i with ⟨hnone, -⟩ | ⟨p₀, m₀, hp₀, hm₀, hp, hs⟩
  · cases hnone.symm.trans hi
  cases hp₀.symm.trans hi
  cases hm₀.symm.trans hm
  obtain ⟨h', l', hcode, hs', hkeeps, hl', hadj, hw, htags⟩ := hp.sound.addAtEnd hs hstored
  have hgives : Packet.Gives w.store ((w.packets.eraseIdx i).map (·.byteTagList))
    (some (h', ⟨p.size, l'⟩)) m := by
    have hsmall := hp.small
    refine ⟨h', ⟨p.size, l'⟩, rfl, hs', hkeeps, hp.size, hsmall, hl', fun k hk => ?_⟩
    have hk : k < p.size := hk
    have hhi := hsmall.2
    dsimp only
    rw [htags k (by omega) (by omega), if_pos (by omega), hp.tags k hk]
  obtain ⟨w', hw', href'⟩ := href.put hi hgives
  cases hw'
  obtain ⟨hlt, hget⟩ := List.getElem?_eq_some_iff.1 hm
  rw [← hget, set_getElem_self] at href'
  refine ⟨h', l', by rw [int32_eq hp.small, hcode], href', hadj, fun k hlo hhi => ?_,
    fun j q hq => ?_⟩
  · rw [htags k (by omega) hhi, if_neg (by omega)]
  · by_cases hij : i = j
    · subst hij
      cases hi.symm.trans hq
      obtain ⟨hlt, -⟩ := List.getElem?_eq_some_iff.1 hi
      exact ⟨⟨p.size, l'⟩, getElem?_set_self hlt, rfl, hadj, hw⟩
    · refine ⟨q, (getElem?_set_ne hij).trans hq, rfl, .inl rfl, fun r hr => ?_⟩
      have hmem : q ∈ w.packets.eraseIdx i :=
        mem_eraseIdx_iff_getElem?.2 ⟨j, fun hji => hij hji.symm, hq⟩
      exact ⟨r, hkeeps _ (mem_map_of_mem hmem) ▸ hr, le_rfl, le_rfl⟩

/-- `AddAtEnd` of a packet to another one, or to itself. -/
theorem Refines.addAtEnd {j : Nat} {q : Packet} {mq : TaggedBytes} (hi : w.packets[i]? = some p)
    (hm : ms[i]? = some m) (hj : w.packets[j]? = some q) (hmq : ms[j]? = some mq)
    (hfits : w.Fits (.addAtEnd i j)) :
    ∃ w', w.call (.addAtEnd i j) = some w' ∧ Refines w' (ms.set i (m ++ mq)) := by
  obtain ⟨hsize, hstored, hneg, hshifts, hoffsets⟩ := hfits p hi q hj
  obtain ⟨h', l', hcode, href', hadj, hclear, hothers⟩ := href.cutAtEnd hi hm hstored
  obtain ⟨q', hq', hsize', hadj', hw'⟩ := hothers j q hj
  have hi' : (w.put i (h', ⟨p.size, l'⟩)).packets[i]? = some ⟨p.size, l'⟩ :=
    getElem?_set_self (List.getElem?_eq_some_iff.1 hi).1
  rcases href'.get i with ⟨hnone, -⟩ | ⟨p₁, m₁, hp₁, hm₁, hp, hs⟩
  · cases hnone.symm.trans hi'
  cases hp₁.symm.trans hi'
  cases hm₁.symm.trans hm
  rcases href'.get j with ⟨hnone, -⟩ | ⟨q₁, mq₁, hq₁, hmq₁, hq, -⟩
  · cases hnone.symm.trans hq'
  cases hq₁.symm.trans hq'
  cases hmq₁.symm.trans hmq
  -- the other packet may be this one, with its tags cut
  have hmem : q'.byteTagList ∈ l' :: ((w.put i (h', ⟨p.size, l'⟩)).packets.eraseIdx i).map
    (·.byteTagList) := by
    have hperm := (Related.perm_cons_eraseIdx hi').map (·.byteTagList)
    exact hperm.mem_iff.1 (mem_map_of_mem (mem_of_getElem? hq'))
  have hneg' : FitsInt32 (-q'.byteTagList.adjustment) := by
    rcases hadj' with heq | hzero
    · exact heq ▸ hneg
    · rw [hzero]
      decide
  have hshifts' : q'.byteTagList.Shifts h' p.size := by
    refine ⟨?_, hw'.offsets hq.sound hshifts.2⟩
    rcases hadj' with heq | hzero
    · exact heq ▸ hshifts.1
    · rw [hzero, Int.zero_add]
      exact hp.small
  have hoffsets' : q'.byteTagList.Offsets h' (p.size - l'.adjustment) := by
    rcases hadj with heq | hzero
    · exact heq ▸ hw'.offsets hq.sound hoffsets
    · rw [hzero, Int.sub_zero]
      exact hshifts'.2
  obtain ⟨w', hw', href''⟩ :=
    href'.put hi' (hp.append hs hmem hq (hsize' ▸ hsize) hclear hneg' hshifts' hoffsets')
  refine ⟨w', ?_, href''⟩
  rw [Packets.call, hi, bind_some, hcode, bind_some]
  dsimp only [Packet.withTags]
  rw [hq', bind_some]
  exact hw'

end

/-- What a call does and what it means go on together, or neither does. -/
def Agree (x : Option Packets) (y : Option (List TaggedBytes)) : Prop :=
  (∃ w' ms', x = some w' ∧ y = some ms' ∧ Refines w' ms') ∨ x = none ∧ y = none

/-- A call on a packet that is there or not. -/
theorem Refines.on (href : Refines w ms) (i : Nat) {f : Packet → Option Packets}
    {g : TaggedBytes → Option (List TaggedBytes)}
    (h : ∀ p m, w.packets[i]? = some p → ms[i]? = some m → p.Carries w.store m →
      Areas w.store (p.byteTagList :: (w.packets.eraseIdx i).map (·.byteTagList)) →
        Agree (f p) (g m)) : Agree (w.packets[i]?.bind f) (ms[i]?.bind g) := by
  rcases href.get i with ⟨hp, hm⟩ | ⟨p, m, hp, hm, hcarries, hs⟩
  · rw [hp, hm]
    exact .inr ⟨rfl, rfl⟩
  · rw [hp, hm]
    exact h p m hp hm hcarries hs

theorem Refines.agree_put (href : Refines w ms) (hi : w.packets[i]? = some p)
    (hr : Packet.Gives w.store ((w.packets.eraseIdx i).map (·.byteTagList)) r m') :
    Agree (r.map (w.put i)) (some (ms.set i m')) := by
  obtain ⟨w', hw', href'⟩ := href.put hi hr
  exact .inl ⟨w', _, hw', rfl, href'⟩

theorem Refines.agree_push (href : Refines w ms)
    (hr : Packet.Gives w.store (w.packets.map (·.byteTagList)) r m') :
    Agree (r.map w.push) (some (ms ++ [m'])) := by
  obtain ⟨w', hw', href'⟩ := href.push hr
  exact .inl ⟨w', _, hw', rfl, href'⟩

/-- Each call does to the bytes what it means, and fails when that means nothing. -/
theorem Refines.call (href : Refines w ms) {c : PacketCall} (hfits : w.Fits c) :
    Agree (w.call c) (taggedBytes ms c) := by
  cases c with
  | create size =>
    have hnew : Packet.Gives w.store (w.packets.map (·.byteTagList)) (some (w.store, ⟨size, {}⟩))
      (untagged size) :=
      ⟨_, _, rfl, (TagStore.Areas.cons_none_iff rfl rfl).2 href.areas, Keeps.refl _ _,
        Packet.carries_new hfits⟩
    exact href.agree_push hnew
  | copy i =>
    rw [taggedBytes, map_eq_bind]
    refine href.on i fun p m hp hm hcarries hs => ?_
    exact href.agree_push (hcarries.copy href.areas (mem_map_of_mem (mem_of_getElem? hp)))
  | destroy i =>
    rw [taggedBytes, map_eq_bind]
    refine href.on i fun p m hp hm hcarries hs => ?_
    obtain ⟨h', hcode, href'⟩ := href.destroy hs
    exact .inl ⟨_, _, by rw [hcode]; rfl, rfl, href'⟩
  | createFragment i start length =>
    refine href.on i fun p m hp hm hcarries hs => ?_
    rw [Packet.createFragment, hcarries.size]
    split
    · next hle =>
      have hgives := hcarries.createFragment href.areas (mem_map_of_mem (mem_of_getElem? hp)) hle
        (hfits p hp)
      rw [Packet.createFragment, if_pos hle] at hgives
      exact href.agree_push hgives
    · exact .inr ⟨rfl, rfl⟩
  | addHeader i size =>
    rw [taggedBytes, map_eq_bind]
    refine href.on i fun p m hp hm hcarries hs => ?_
    obtain ⟨hsize, hshifts, hstored⟩ := hfits p hp
    exact href.agree_put hp (hcarries.addHeader hs hsize hshifts hstored)
  | removeHeader i size | removeAtStart i size =>
    rw [Packets.call, taggedBytes, map_eq_bind, map_eq_bind]
    refine href.on i fun p m hp hm hcarries hs => ?_
    have hgives : Packet.Gives w.store _ (some (w.store, p.removeAtStart size)) (m.drop size) :=
      ⟨_, _, rfl, hs.adjust _, Keeps.refl _ _, hcarries.removeAtStart (hfits p hp)⟩
    exact href.agree_put hp hgives
  | addTrailer i size | addPaddingAtEnd i size =>
    rw [taggedBytes, map_eq_bind]
    refine href.on i fun p m hp hm hcarries hs => ?_
    obtain ⟨hsize, hstored⟩ := hfits p hp
    exact href.agree_put hp (hcarries.addPaddingAtEnd hs hsize hstored)
  | removeTrailer i size | removeAtEnd i size =>
    rw [Packets.call, taggedBytes, map_eq_bind, map_eq_bind]
    refine href.on i fun p m hp hm hcarries hs => ?_
    have hgives : Packet.Gives w.store _ (some (w.store, p.removeAtEnd size))
      (m.take (m.length - size)) :=
      ⟨_, _, rfl, hs, Keeps.refl _ _, hcarries.removeAtEnd size⟩
    exact href.agree_put hp hgives
  | addAtEnd i j =>
    refine href.on i fun p m hp hm _ _ => ?_
    rcases href.get j with ⟨hq, hmq⟩ | ⟨q, mq, hq, hmq, -, -⟩
    · refine .inr ⟨?_, by rw [hmq]; rfl⟩
      rw [bind_eq_none_iff]
      intro r _
      have hnone : (w.put i (Packet.withTags p.size r)).packets[j]? = none := by
        rw [List.getElem?_eq_none_iff] at hq ⊢
        rwa [Packets.put, length_set]
      dsimp only
      rw [hnone, bind_none]
    · obtain ⟨w', hw', href'⟩ := href.addAtEnd hp hm hq hmq hfits
      rw [Packets.call, hp, bind_some] at hw'
      exact .inl ⟨w', _, hw', by rw [hmq]; rfl, href'⟩
  | addByteTag i tag =>
    rw [taggedBytes, map_eq_bind]
    refine href.on i fun p m hp hm hcarries hs => ?_
    obtain ⟨hstart, hend⟩ := hfits p hp
    have hitem : p.byteTagList.Takes ⟨tag, 0, p.size⟩ :=
      ⟨Int.natCast_nonneg _, show FitsInt32 0 by decide,
        hcarries.small, by rw [Int.zero_sub]; exact hstart, hend⟩
    rw [Packet.addByteTag, int32_eq hcarries.small]
    exact href.agree_put hp (hcarries.addTag hs hitem (fun _ => true) fun k hk => by simp; omega)
  | addByteTagRange i tag start end_ =>
    refine href.on i fun p m hp hm hcarries hs => ?_
    obtain ⟨hfront, hsmall, hstart, hend⟩ := hfits p hp
    rw [Packet.addByteTagRange]
    split
    · exact .inr ⟨rfl, rfl⟩
    · next hlt =>
      have hsmall' : FitsInt32 start := ⟨by omega, by have := hsmall.2; omega⟩
      have hitem : p.byteTagList.Takes ⟨tag, start, end_⟩ :=
        ⟨by dsimp only; omega, hsmall', hsmall, hstart, hend⟩
      rw [int32_eq hsmall, int32_eq hsmall']
      refine href.agree_put hp
        (hcarries.addTag hs hitem (fun k => start ≤ k && k ≤ end_) fun k hk => ?_)
      simp only [Bool.and_eq_true, decide_eq_true_eq]
      omega

theorem refines_new : Refines Packets.new [] where
  areas :=
    { held := fun _ hl => nomatch hl
      empty := fun _ hl => nomatch hl
      counted := fun _ _ hd => nomatch hd
      nodup := nodup_nil
      free := fun _ hb => nomatch hb
      fresh := fun _ _ => rfl }
  carries := .nil

/-- One call on packets, and what it means. -/
def tagged (s : Packets × List TaggedBytes) (c : PacketCall) :
    Option (Packets × List TaggedBytes) :=
  (s.1.call c).bind fun w => (taggedBytes s.2 c).map (w, ·)

end Packets

/-- Whatever a program does with its packets, as long as the calls fit: iterating over the byte tags
of a packet reports the tags of its bytes. -/
theorem byteTags_report {w : Packets} {ms : List TaggedBytes}
    (hrun : Lts.Run (fun s c t => Packets.tagged s c = some t) (fun s c => s.1.Fits c)
      (Packets.new, []) (w, ms)) :
    w.packets.length = ms.length ∧
      (∀ (i : Nat) p m, w.packets[i]? = some p → ms[i]? = some m → p.size = m.length ∧
        Reports (p.byteTags w.store) m) ∧
      ∀ c, w.Fits c → ((w.call c).isSome ↔ (taggedBytes ms c).isSome) := by
  have href : Packets.Refines w ms := by
    refine Lts.Run.invariant (I := fun s => Packets.Refines s.1 s.2)
      (fun {s t c} href hfits hstep => ?_) Packets.refines_new hrun
    rcases href.call hfits with ⟨w', ms', hw', hms', href'⟩ | ⟨hnone, -⟩
    · simp only [Packets.tagged, hw', hms', bind_some, map_some, some.injEq] at hstep
      rwa [← hstep]
    · simp only [Packets.tagged, hnone, bind_none] at hstep
      cases hstep
  refine ⟨href.carries.length_eq, fun i p m hp hm => ?_, fun c hfits => ?_⟩
  · rcases href.get i with ⟨hnone, -⟩ | ⟨p', m', hp', hm', hcarries, -⟩
    · cases hnone.symm.trans hp
    · cases hp'.symm.trans hp
      cases hm'.symm.trans hm
      exact ⟨hcarries.size.symm, hcarries.reports⟩
  · rcases href.call hfits with ⟨w', ms', hw', hms', -⟩ | ⟨hw', hms'⟩ <;> simp [hw', hms']

/-- A tag of no bytes. -/
def flowTag : ByteTag := ⟨7, []⟩

/-- A packet whose tag hangs out at both ends when bytes are added there, a fragment of it, and the
packet behind itself. -/
theorem byteTags_report_example : ∃ w ms, Packets.tagged (w, ms) (.copy 0) ≠ none ∧
    ms = [[[], [flowTag], [], [], [flowTag], []], [[flowTag], [flowTag]]] ∧
    ∀ (i : Nat) p m, w.packets[i]? = some p → ms[i]? = some m → Reports (p.byteTags w.store) m := by
  have hexec :
    ((Lts.execs (fun s c => s.1.Fits c) Packets.tagged (Packets.new, []) [.create 4,
    .addByteTag 0 flowTag,
      .createFragment 0 1 2, .removeAtStart 0 1, .removeAtEnd 0 2, .addHeader 0 1, .addTrailer 0 1,
      .addAtEnd 0 0]).map (·.2)) = some [[[], [flowTag], [], [], [flowTag], []],
        [[flowTag], [flowTag]]] := by
    decide
  obtain ⟨⟨w, ms⟩, hrun, rfl⟩ := map_eq_some_iff.1 hexec
  obtain ⟨-, hreports, hcalls⟩ := byteTags_report (Lts.run_of_execs (fun h => h) hrun)
  refine ⟨w, _, ?_, rfl, fun i p m hp hm => (hreports i p m hp hm).2⟩
  have hcall : (w.call (.copy 0)).isSome := (hcalls (.copy 0) trivial).2 rfl
  obtain ⟨w', hw'⟩ := isSome_iff_exists.1 hcall
  simp [Packets.tagged, hw', taggedBytes]

/-- The first 10 bytes are tagged as the documentation says, and the first one is not reported. -/
theorem byteTags_fail : ¬ ∀ w ms,
    Lts.Run (fun s c t => Packets.tagged s c = some t) Lts.anyStep (Packets.new, []) (w, ms) →
    ∀ (i : Nat) p m, w.packets[i]? = some p → ms[i]? = some m → Reports (p.byteTags w.store) m := by
  intro hall
  have hexec : ((Lts.execs Lts.anyStep Packets.tagged (Packets.new, [])
      [.create 10, .addByteTagRange 0 flowTag 1 10]).map fun s =>
      (s.1.packets.map (·.byteTags s.1.store), s.2)) =
      some ([[⟨flowTag, 1, 10⟩]], [replicate 10 [flowTag]]) := by
    decide
  obtain ⟨⟨w, ms⟩, hrun, heq⟩ := map_eq_some_iff.1 hexec
  obtain ⟨hpackets, rfl⟩ := Prod.mk.inj heq
  obtain ⟨p, hp, htags⟩ : ∃ p, w.packets[0]? = some p ∧
    p.byteTags w.store = [⟨flowTag, 1, 10⟩] := by
    have hget := congrArg (·[0]?) hpackets
    simpa using hget
  have hreports := hall w _ (Lts.run_of_execs (fun h => h) hrun) 0 p (replicate 10 [flowTag]) hp rfl
  have hfirst := hreports.tags 0 (by decide)
  rw [htags] at hfirst
  revert hfirst
  decide

end OranNs3.Network
