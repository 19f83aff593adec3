import OranNs3.Tcp.TxScoreboard

/-!
# SACKs at the transmit buffer

What `Update` marks. The items of the sent list are told apart by the sizes of those before them,
which give the number where an item begins (`place`). A block covers an item when it begins and ends
in the block (`CoveredBy`); the walk along the list marks an item when it reaches it, which it does
unless an item before it ends past the block (`Reached`), and the loop over the blocks stops at one
that lies above what was sent (`inside`). After its loops `Update` looks at the first item of the
list, and, where it marked something, at the one with the highest SACK.
-/

namespace OranNs3.Tcp

open SequenceNumber32 TxBuffer List

variable {i j : TxItem} {l l' l₁ l₂ : List TxItem} {cov cov' : List Nat → Nat → Prop}
  {pre : List Nat} {first n : Nat} {block : Nat × Nat} {blocks : List (Nat × Nat)}
  {s s' : Scoreboard}

/-! ## Marks -/

/-- The number where an item begins, from the sizes of those before it. -/
def place (first : Nat) (sizes : List Nat) : Nat := sizes.foldl SequenceNumber32.add first

theorem place_snoc : place first (pre ++ [n]) = SequenceNumber32.add (place first pre) n := by
  rw [place, foldl_append]
  rfl

/-- A block covers an item that begins at `begin`. -/
def CoveredBy (block : Nat × Nat) (begin size : Nat) : Prop :=
  Ge begin block.1 ∧ Le (SequenceNumber32.add begin size) block.2
deriving Decidable

/-- Two items that differ in flags at most. -/
def Same (i j : TxItem) : Prop := i.id = j.id ∧ i.startSeq = j.startSeq ∧ i.packet = j.packet
deriving Decidable

/-- The items of the second list are those of the first, and the marked ones those that were marked
or that `cov` says, by the sizes before an item and its own. -/
def MarkedBy (cov : List Nat → Nat → Prop) : List Nat → List TxItem → List TxItem → Prop
  | _, [], [] => True
  | pre, i :: l, j :: l' =>
    Same i j ∧ (j.sacked = true ↔ i.sacked = true ∨ cov pre i.size) ∧
      MarkedBy cov (pre ++ [i.size]) l l'
  | _, _, _ => False

instance [d : ∀ p n, Decidable (cov p n)] : ∀ pre l l', Decidable (MarkedBy cov pre l l')
  | _, [], [] => .isTrue trivial
  | pre, i :: l, _ :: l' =>
    have := instDecidableMarkedBy (d := d) (pre ++ [i.size]) l l'
    inferInstanceAs (Decidable (_ ∧ _))
  | _, [], _ :: _ => .isFalse id
  | _, _ :: _, [] => .isFalse id

theorem Same.size (h : Same i j) : j.size = i.size := congrArg List.length h.2.2.symm

theorem Same.trans {k : TxItem} (h : Same i j) (h' : Same j k) : Same i k :=
  ⟨h.1.trans h'.1, h.2.1.trans h'.2.1, h.2.2.trans h'.2.2⟩

theorem MarkedBy.refl (h : ∀ p n, pre <+: p → ¬ cov p n) : MarkedBy cov pre l l := by
  induction l generalizing pre with
  | nil => trivial
  | cons i l ih =>
    refine ⟨⟨rfl, rfl, rfl⟩, (or_iff_left (h pre _ (prefix_refl _))).symm, ih fun p n hp => ?_⟩
    exact h p n ((prefix_append _ _).trans hp)

theorem MarkedBy.trans (h : MarkedBy cov pre l l₁) (h' : MarkedBy cov' pre l₁ l₂) :
    MarkedBy (fun p n => cov p n ∨ cov' p n) pre l l₂ := by
  induction l generalizing pre l₁ l₂ with
  | nil =>
    cases l₁ with
    | nil =>
      cases l₂ with
      | nil => trivial
      | cons => exact h'
    | cons => exact h.elim
  | cons i l ih =>
    cases l₁ with
    | nil => exact h.elim
    | cons j l₁ =>
      cases l₂ with
      | nil => exact h'.elim
      | cons k l₂ =>
        obtain ⟨hsame, hsacked, hl⟩ := h
        obtain ⟨hsame', hsacked', hl'⟩ := h'
        rw [hsame.size] at hsacked' hl'
        exact ⟨hsame.trans hsame', by rw [hsacked', hsacked, or_assoc], ih hl hl'⟩

theorem MarkedBy.iff (h : MarkedBy cov pre l l') : MarkedBy cov' pre l l' ↔
    ∀ p i q, l = p ++ i :: q → i.sacked = false →
      (cov' (pre ++ p.map TxItem.size) i.size ↔ cov (pre ++ p.map TxItem.size) i.size) := by
  induction l generalizing pre l' with
  | nil =>
    cases l' with
    | nil => simp [MarkedBy]
    | cons => exact h.elim
  | cons i l ih =>
    cases l' with
    | nil => exact h.elim
    | cons j l' =>
      obtain ⟨hsame, hsacked, hl⟩ := h
      rw [MarkedBy, ih hl, hsacked]
      constructor
      · rintro ⟨-, hi, hrest⟩ p k q heq hk
        cases p with
        | nil =>
          obtain ⟨rfl, rfl⟩ := cons.inj heq
          simpa [hk] using hi.symm
        | cons i' p =>
          obtain ⟨rfl, htail⟩ := cons.inj heq
          simpa using hrest p k q htail hk
      · intro hall
        refine ⟨hsame, ?_, fun p k q heq hk => ?_⟩
        · cases hi : i.sacked with
          | true => simp
          | false => simpa using (hall [] i l rfl hi).symm
        · simpa using hall (i :: p) k q (by rw [heq]; rfl) hk

/-! ## The walk along the list -/

/-- The walk for a block marks an item when no item before it ended past the block outside of it. -/
def Reached (block : Nat × Nat) (first : Nat) (sizes : List Nat) (size : Nat) : Prop :=
  CoveredBy block (place first sizes) size ∧
    ∀ p m, p ++ [m] <+: sizes → CoveredBy block (place first p) m ∨
    Le (place first (p ++ [m])) block.2

/-- A mark at an item moves the highest SACK there. -/
def Passes (s : Scoreboard) (begin size : Nat) : Prop :=
  s.highestSack.1 = none ∨ Le s.highestSack.2 (SequenceNumber32.add begin size)

/-- The highest SACK is at an item. -/
def AtItem (s : Scoreboard) (l : List TxItem) : Prop := ∃ i ∈ l, some i.id = s.highestSack.1

/-- An item that is newly marked. -/
def Fresh (cov : List Nat → Nat → Prop) (pre : List Nat) (l : List TxItem)
    (P : List Nat → Nat → Prop) : Prop :=
  ∃ p i q, l = p ++ i :: q ∧ i.sacked = false ∧ cov (pre ++ p.map TxItem.size) i.size ∧
    P (pre ++ p.map TxItem.size) i.size

variable {P : List Nat → Nat → Prop}

theorem fresh_cons : Fresh cov pre (i :: l) P ↔
    (i.sacked = false ∧ cov pre i.size ∧ P pre i.size) ∨ Fresh cov (pre ++ [i.size]) l P := by
  constructor
  · rintro ⟨p, k, q, heq, hk⟩
    cases p with
    | nil =>
      obtain ⟨rfl, rfl⟩ := cons.inj heq
      exact Or.inl (by simpa using hk)
    | cons i' p =>
      obtain ⟨rfl, htail⟩ := cons.inj heq
      exact Or.inr ⟨p, k, q, htail, by simpa using hk⟩
  · rintro (hi | ⟨p, k, q, rfl, hk⟩)
    · exact ⟨[], i, l, rfl, by simpa using hi⟩
    · exact ⟨i :: p, k, q, rfl, by simpa using hk⟩

theorem not_fresh_nil : ¬ Fresh cov pre [] P := by
  rintro ⟨p, i, q, heq, -⟩
  simp at heq

theorem MarkedBy.ids (h : MarkedBy cov pre l l') : l'.map TxItem.id = l.map TxItem.id := by
  induction l generalizing pre l' with
  | nil =>
    cases l' with
    | nil => rfl
    | cons => exact h.elim
  | cons i l ih =>
    cases l' with
    | nil => exact h.elim
    | cons j l' => rw [map_cons, map_cons, ih h.2.2, h.1.1]

variable (cov') in
theorem MarkedBy.fresh_or (h : MarkedBy cov pre l l₁) :
    Fresh (fun p n => cov p n ∨ cov' p n) pre l P ↔ Fresh cov pre l P ∨ Fresh cov' pre l₁ P := by
  induction l generalizing pre l₁ with
  | nil =>
    cases l₁ with
    | nil => simp [not_fresh_nil]
    | cons => exact h.elim
  | cons i l ih =>
    cases l₁ with
    | nil => exact h.elim
    | cons j l₁ =>
      obtain ⟨hsame, hsacked, hl⟩ := h
      have hj : j.sacked = false ↔ i.sacked = false ∧ ¬ cov pre i.size := by
        rw [← Bool.not_eq_true, hsacked, not_or, Bool.not_eq_true]
      rw [fresh_cons, fresh_cons, fresh_cons, hsame.size, ih hl, hj]
      by_cases hcov : cov pre i.size
      · simp only [hcov, true_or, not_true, and_false, false_and, false_or, or_assoc]
      · simp only [hcov, false_or, not_false_eq_true, and_true, false_and, and_false, or_left_comm]

/-- What a walk does: it marks what it reaches, counts it, and moves the highest SACK. -/
structure Walked (cov : List Nat → Nat → Prop) (first : Nat) (pre : List Nat) (l l' : List TxItem)
    (s s' : Scoreboard) : Prop where
  marked : MarkedBy cov pre l l'
  count : s'.bytesSacked + total (·.sacked) l = s.bytesSacked + total (·.sacked) l'
  move : Fresh cov pre l (fun p n => Passes s (place first p) n) → AtItem s' l'
  stay : ¬ Fresh cov pre l (fun p n => Passes s (place first p) n) → s'.highestSack = s.highestSack

theorem atItem_iff : AtItem s l ↔ s.highestSack.1 ∈ l.map (some ∘ TxItem.id) := by
  rw [AtItem, mem_map]
  rfl

theorem Walked.keep (h : Walked cov first pre l l' s s') (hs : AtItem s l) : AtItem s' l' := by
  by_cases hfresh : Fresh cov pre l fun p n => Passes s (place first p) n
  · exact h.move hfresh
  · rw [atItem_iff, ← map_map] at hs ⊢
    rwa [h.stay hfresh, h.marked.ids]

theorem Walked.refl (h : ∀ p n, pre <+: p → ¬ cov p n) (s : Scoreboard) :
    Walked cov first pre l l s s where
  marked := .refl h
  count := rfl
  move := by
    rintro ⟨p, i, q, -, -, hcov, -⟩
    exact absurd hcov (h _ _ (prefix_append _ _))
  stay := fun _ => rfl

theorem Walked.cons (h : Walked cov first (pre ++ [i.size]) l l' s s')
    (hi : i.sacked = false → ¬ cov pre i.size) : Walked cov first pre (i :: l) (i :: l') s s' := by
  have hnot : ∀ {P : List Nat → Nat → Prop}, Fresh cov pre (i :: l) P ↔
    Fresh cov (pre ++ [i.size]) l P := by
    intro P
    rw [fresh_cons]
    exact or_iff_right fun hall => hi hall.1 hall.2.1
  refine ⟨⟨⟨rfl, rfl, rfl⟩, ?_, h.marked⟩, ?_, fun hfresh => ?_,
    fun hfresh => h.stay (hnot.not.1 hfresh)⟩
  · cases hs : i.sacked with
    | true => simp
    | false => simpa using hi hs
  · have hcount := h.count
    rw [total_cons, total_cons]
    omega
  · obtain ⟨j, hj, hid⟩ := h.move (hnot.1 hfresh)
    exact ⟨j, mem_cons_of_mem _ hj, hid⟩

theorem Walked.mark (h : Walked cov first (pre ++ [i.size]) l l' (s.sack (place first pre) i) s')
    (hi : i.sacked = false) (hcov : cov pre i.size) :
    Walked cov first pre (i :: l) ({ i with lost := false, sacked := true } :: l') s s' := by
  refine ⟨⟨⟨rfl, rfl, rfl⟩, by simp [hcov], h.marked⟩, ?_, fun hfresh => ?_, fun hfresh => ?_⟩
  · have hcount := h.count
    simp only [Scoreboard.sack] at hcount
    simp only [total_cons, hi, TxItem.size, if_true, Bool.false_eq_true, if_false] at hcount ⊢
    omega
  · by_cases hpass : Passes s (place first pre) i.size
    · -- the highest SACK is at this item, or at a later one
      have hhigh : (s.sack (place first pre) i).highestSack = (some i.id, place first pre) :=
        if_pos hpass
      by_cases hlater : Fresh cov (pre ++ [i.size]) l fun p n =>
        Passes (s.sack (place first pre) i) (place first p) n
      · obtain ⟨j, hj, hid⟩ := h.move hlater
        exact ⟨j, mem_cons_of_mem _ hj, hid⟩
      · exact ⟨_, mem_cons_self, by rw [h.stay hlater, hhigh]⟩
    · have hhigh : (s.sack (place first pre) i).highestSack = s.highestSack := if_neg hpass
      rw [fresh_cons] at hfresh
      have hlater := hfresh.resolve_left fun hall => hpass hall.2.2
      obtain ⟨j, hj, hid⟩ := h.move (by simpa only [Passes, hhigh] using hlater)
      exact ⟨j, mem_cons_of_mem _ hj, hid⟩
  · rw [fresh_cons, not_or] at hfresh
    have hhigh : (s.sack (place first pre) i).highestSack = s.highestSack := if_neg fun hpass =>
      hfresh.1 ⟨hi, hcov, hpass⟩
    rw [h.stay (by simpa only [Passes, hhigh] using hfresh.2), hhigh]

theorem Walked.trans {s₁ s₂ : Scoreboard} (h : Walked cov first pre l l₁ s s₁)
    (h' : Walked cov' first pre l₁ l₂ s₁ s₂) :
    Walked (fun p n => cov p n ∨ cov' p n) first pre l l₂ s s₂ := by
  have hfresh := fun P => h.marked.fresh_or cov' (P := P)
  refine ⟨h.marked.trans h'.marked, ?_, fun hmove => ?_, fun hstay => ?_⟩
  · have hcount := h.count
    have hcount' := h'.count
    omega
  · by_cases hfirst : Fresh cov pre l fun p n => Passes s (place first p) n
    · exact h'.keep (h.move hfirst)
    · have hsecond := ((hfresh _).1 hmove).resolve_left hfirst
      exact h'.move (by simpa only [Passes, h.stay hfirst] using hsecond)
  · rw [hfresh, not_or] at hstay
    rw [h'.stay (by simpa only [Passes, h.stay hstay.1] using hstay.2), h.stay hstay.1]

theorem Walked.imp (h : Walked cov first pre l l' s s') (hcov : ∀ p n, cov p n ↔ cov' p n) :
    Walked cov' first pre l l' s s' := by
  have heq : cov = cov' := by
    funext p n
    exact propext (hcov p n)
  exact heq ▸ h

variable (pre first block) in
/-- The walk for a block, when no item before its first one ended past the block. -/
theorem updateBlock_walked (hclean : ∀ i ∈ l, Clean false i) (hpre : ∀ p m, p ++ [m] <+: pre →
    CoveredBy block (place first p) m ∨ Le (place first (p ++ [m])) block.2) (s : Scoreboard) :
    ∃ l' s', updateBlock block (place first pre) l s = some (l', s') ∧
    Walked (Reached block first) first pre l l' s s' := by
  induction l generalizing pre s with
  | nil => exact ⟨[], s, rfl, trivial, rfl, fun h => (not_fresh_nil h).elim, fun _ => rfl⟩
  | cons i l ih =>
    obtain ⟨hi, hl⟩ := forall_mem_cons.1 hclean
    -- the walk goes on after an item that is in the block, or does not end past it
    have hnext : (CoveredBy block (place first pre) i.size ∨
      Le (place first (pre ++ [i.size])) block.2) → ∀ s,
        ∃ l' s', updateBlock block (SequenceNumber32.add (place first pre) i.size) l s =
          some (l', s') ∧ Walked (Reached block first) first (pre ++ [i.size]) l l' s s' := by
      intro hgo s
      have hstep := ih (pre ++ [i.size]) hl (fun p m hp => ?_) s
      · rwa [place_snoc] at hstep
      · rcases prefix_concat_iff.1 hp with heq | hp
        · obtain ⟨rfl, hm⟩ := append_inj' heq rfl
          cases hm
          exact hgo
        · exact hpre p m hp
    rw [updateBlock]
    by_cases hin : InBlock block (place first pre) i
    · have hreached : Reached block first pre i.size := ⟨hin, hpre⟩
      rw [if_pos hin]
      cases hs : i.sacked with
      | true =>
        obtain ⟨l', s', hwalk, hwalked⟩ := hnext (Or.inl hin) s
        rw [if_pos rfl, if_neg (by simp [(hi hs).1]), hwalk]
        exact ⟨i :: l', s', rfl, hwalked.cons fun hnot => absurd hs (by simp [hnot])⟩
      | false =>
        obtain ⟨l', s', hwalk, hwalked⟩ := hnext (Or.inl hin) (s.sack (place first pre) i)
        rw [if_neg Bool.false_ne_true, hwalk]
        exact ⟨_, s', rfl, hwalked.mark hs hreached⟩
    · rw [if_neg hin]
      have hnot : ¬ Reached block first pre i.size := fun hreached => hin hreached.1
      split
      · next hgt =>
        -- what follows is not reached
        refine ⟨i :: l, s, rfl, (Walked.refl (fun p n hp hreached => ?_) s).cons fun _ => hnot⟩
        rcases hreached.2 pre i.size hp with hwithin | hle
        · exact hin hwithin
        · rw [place_snoc] at hle
          exact hle hgt
      · next hle =>
        obtain ⟨l', s', hwalk, hwalked⟩ := hnext (Or.inr (by rw [place_snoc]; exact hle)) s
        rw [hwalk]
        exact ⟨i :: l', s', rfl, hwalked.cons fun _ => hnot⟩

/-- The blocks before the first one that lies above what was sent. -/
def inside (next : Nat) (blocks : List (Nat × Nat)) : List (Nat × Nat) :=
  blocks.takeWhile (¬ Lt next ·.1)

variable (first blocks) in
theorem updateBlocks_walked (next : Nat) (hclean : ∀ i ∈ l, Clean false i) (s : Scoreboard) :
    ∃ l' s', updateBlocks first next blocks l s =
      some (l', s', decide (inside next blocks ≠ blocks)) ∧
      Walked (fun p n => ∃ block ∈ inside next blocks, Reached block first p n) first [] l l' s
        s' := by
  induction blocks generalizing l s with
  | nil => exact ⟨l, s, by simp [updateBlocks, inside], .refl (fun p n _ => by simp [inside]) s⟩
  | cons block blocks ih =>
    rw [updateBlocks]
    by_cases hout : Lt next block.1
    · have hinside : inside next (block :: blocks) = [] := takeWhile_cons_of_neg
        (by simpa using hout)
      rw [if_pos hout, hinside]
      exact ⟨l, s, by simp, .refl (fun p n _ => by simp) s⟩
    · have hinside : inside next (block :: blocks) = block :: inside next blocks :=
        takeWhile_cons_of_pos (by simpa using hout)
      obtain ⟨l₁, s₁, hwalk, hwalked⟩ := updateBlock_walked [] first block hclean
        (fun p m hp => by simp at hp) s
      have hclean₁ : ∀ i ∈ l₁, Clean false i :=
        (updateBlock_sacked (fun h => absurd h Bool.false_ne_true) hwalk).clean hclean
      obtain ⟨l₂, s₂, hrest, hwalked'⟩ := ih hclean₁ s₁
      have hwalk' : updateBlock block first l s = some (l₁, s₁) := hwalk
      rw [if_neg hout, hwalk', Option.bind_some, hrest, hinside]
      refine ⟨l₂, s₂, by simp, (hwalked.trans hwalked').imp fun p n => ?_⟩
      simp

/-! ## What is counted -/

theorem MarkedBy.total_le (h : MarkedBy cov pre l l') : total (·.sacked) l ≤ total (·.sacked) l' ∧
    (total (·.sacked) l < total (·.sacked) l' ↔ Fresh cov pre l fun _ n => 0 < n) := by
  induction l generalizing pre l' with
  | nil =>
    cases l' with
    | nil => simp [not_fresh_nil]
    | cons => exact h.elim
  | cons i l ih =>
    cases l' with
    | nil => exact h.elim
    | cons j l' =>
      obtain ⟨hsame, hsacked, hl⟩ := h
      obtain ⟨hle, hlt⟩ := ih hl
      rw [total_cons, total_cons, hsame.size, fresh_cons, ← hlt]
      cases hi : i.sacked with
      | true =>
        have hj : j.sacked = true := hsacked.2 (Or.inl hi)
        simp [hj, hle]
      | false =>
        by_cases hcov : cov pre i.size
        · have hj : j.sacked = true := hsacked.2 (Or.inr hcov)
          simp only [hj, hcov, if_true, true_and, Bool.false_eq_true, if_false]
          omega
        · have hj : j.sacked = false := Bool.eq_false_iff.2 fun hj => by
            simpa [hi, hcov] using hsacked.1 hj
          simp [hj, hcov, hle]

theorem MarkedBy.head_iff (h : MarkedBy cov [] l l') :
    (∃ i ∈ l'.head?, ¬ i.sacked = true) ↔ ∃ i ∈ l.head?, i.sacked = false ∧ ¬ cov [] i.size := by
  cases l with
  | nil =>
    cases l' with
    | nil => simp
    | cons => exact h.elim
  | cons i l =>
    cases l' with
    | nil => exact h.elim
    | cons j l' =>
      obtain ⟨-, hsacked, -⟩ := h
      have hj : ¬ j.sacked = true ↔ i.sacked = false ∧ ¬ cov [] i.size := by
        rw [hsacked, not_or, Bool.not_eq_true]
      simpa using hj

/-- Items that are as sacked as they were. -/
def Kept (i j : TxItem) : Prop := Same i j ∧ j.sacked = i.sacked

theorem Kept.refl (i : TxItem) : Kept i i := ⟨⟨rfl, rfl, rfl⟩, rfl⟩

theorem kept_refl (l : List TxItem) : Forall₂ Kept l l := forall₂_same.2 fun i _ => .refl i

theorem MarkedBy.keep (h : MarkedBy cov pre l l₁) (hkept : Forall₂ Kept l₁ l₂) :
    MarkedBy cov pre l l₂ := by
  induction l generalizing pre l₁ l₂ with
  | nil =>
    cases hkept with
    | nil => trivial
    | cons => exact h.elim
  | cons i l ih =>
    cases hkept with
    | nil => exact h.elim
    | cons hj hrest =>
      obtain ⟨hsame, hsacked, hl⟩ := h
      exact ⟨hsame.trans hj.1, by rw [hj.2, hsacked], ih hl hrest⟩

theorem total_kept (hkept : Forall₂ Kept l l') : total (·.sacked) l' = total (·.sacked) l := by
  induction hkept with
  | nil => rfl
  | cons hi _ ih => rw [total_cons, total_cons, hi.2, hi.1.size, ih]

theorem markLost_kept {thresh sacked lostOut : Nat} :
    Forall₂ Kept l (markLost thresh l sacked lostOut).1 := by
  induction l generalizing sacked lostOut with
  | nil => exact .nil
  | cons i l ih =>
    rw [markLost]
    dsimp only
    generalize (if i.sacked = true then sacked + 1 else sacked) = n
    split
    · exact .cons ⟨⟨rfl, rfl, rfl⟩, rfl⟩ ih
    · exact .cons (.refl i) ih

namespace TxBuffer

variable {b b' : TxBuffer}

theorem updateLostCount_kept (hat : ∃ i ∈ b.sentList, some i.id = b.highestSack.1) :
    ∃ b', b.updateLostCount = some b' ∧ Forall₂ Kept b.sentList b'.sentList := by
  obtain ⟨item, hmem, hid⟩ := hat
  have hfound : (b.sentList.findIdx? (some ·.id = b.highestSack.1)).isSome := by
    rw [findIdx?_isSome, any_eq_true]
    exact ⟨item, hmem, by simpa using hid⟩
  rw [TxBuffer.updateLostCount]
  split
  · next head rest n hlist _ =>
    have hrest : Forall₂ Kept rest
        ((markLost b.dupAckThresh (rest.take n).reverse 0 b.lostOut).1.reverse ++ rest.drop n) := by
      have hmarked := forall₂_reverse_iff.2
        (show Forall₂ Kept (rest.take n).reverse (markLost b.dupAckThresh (rest.take n).reverse 0
        b.lostOut).1 from
          markLost_kept)
      rw [reverse_reverse] at hmarked
      have happend := rel_append hmarked (kept_refl (rest.drop n))
      simpa only [take_append_drop] using happend
    rw [hlist]
    dsimp only
    split
    · refine ⟨_, rfl, ?_⟩
      exact .cons ⟨⟨rfl, rfl, rfl⟩, rfl⟩ hrest
    · refine ⟨_, rfl, ?_⟩
      exact .cons (.refl head) hrest
  · next hnone =>
    obtain ⟨n, hn⟩ := Option.isSome_iff_exists.1 hfound
    cases hlist : b.sentList with
    | nil => simp [hlist] at hmem
    | cons head rest => exact (hnone head rest n hlist hn).elim

theorem atItem_of_updateLostCount (h : b.updateLostCount = some b') :
    ∃ i ∈ b.sentList, some i.id = b.highestSack.1 := by
  rw [TxBuffer.updateLostCount] at h
  split at h <;> [skip; cases h]
  next hlist hfound =>
  have hany : (b.sentList.findIdx? (some ·.id = b.highestSack.1)).isSome := by rw [hfound]; rfl
  rw [findIdx?_isSome, any_eq_true] at hany
  obtain ⟨item, hmem, hid⟩ := hany
  exact ⟨item, hmem, by simpa using hid⟩

end TxBuffer

/-! ## What is returned -/

namespace TxBuffer

variable {b b' : TxBuffer}

/-- `Update` returns, it marked exactly the items that were not marked and that a block covers, and
returned the number of their bytes. -/
def Updates (b : TxBuffer) (blocks : List (Nat × Nat)) : Prop :=
  ∃ b' n, b.updateSacked blocks = some (b', n) ∧
    MarkedBy (fun p n => ∃ block ∈ blocks, CoveredBy block (place b.firstByteSeq p) n) [] b.sentList
    b'.sentList ∧
    total (·.sacked) b'.sentList = total (·.sacked) b.sentList + n

instance (b : TxBuffer) (blocks : List (Nat × Nat)) : Decidable (b.Updates blocks) :=
  decidable_of_iff (∃ r ∈ b.updateSacked blocks,
    MarkedBy (fun p n => ∃ block ∈ blocks, CoveredBy block (place b.firstByteSeq p) n) [] b.sentList
    r.1.sentList ∧
    total (·.sacked) r.1.sentList = total (·.sacked) b.sentList + r.2)
    ⟨fun ⟨r, hr, hmarks⟩ => ⟨r.1, r.2, hr, hmarks⟩,
      fun ⟨b', n, hr, hmarks⟩ => ⟨(b', n), hr, hmarks⟩⟩

/-- What `Update` needs: each item that a block covers, and that is not marked, is reached by one
before the first block that lies above what was sent. Where there is no such block, the sent list
has a first item, which is not marked and which no block covers; and where bytes are newly marked,
the highest SACK is or comes to be at an item of the list. -/
structure UpdateFits (b : TxBuffer) (blocks : List (Nat × Nat)) : Prop where
  reached : ∀ p i q, b.sentList = p ++ i :: q → i.sacked = false →
    (∃ block ∈ blocks, CoveredBy block (place b.firstByteSeq (p.map TxItem.size)) i.size) →
    ∃ block ∈ inside b.nextSequence blocks, Reached block b.firstByteSeq (p.map TxItem.size) i.size
  head : inside b.nextSequence blocks = blocks → ∃ i ∈ b.sentList.head?, i.sacked = false ∧
    ∀ block ∈ blocks, ¬ CoveredBy block b.firstByteSeq i.size
  highest : inside b.nextSequence blocks = blocks →
    (∃ p i q, b.sentList = p ++ i :: q ∧ i.sacked = false ∧ 0 < i.size ∧
      ∃ block ∈ blocks, CoveredBy block (place b.firstByteSeq (p.map TxItem.size)) i.size) →
    b.highestSack.1 = none ∨ (∃ i ∈ b.sentList, some i.id = b.highestSack.1) ∨
      ∃ p i q, b.sentList = p ++ i :: q ∧ i.sacked = false ∧
        (∃ block ∈ blocks, CoveredBy block (place b.firstByteSeq (p.map TxItem.size)) i.size) ∧
        Le b.highestSack.2 (SequenceNumber32.add (place b.firstByteSeq (p.map TxItem.size)) i.size)

theorem covered_of_reached {next size : Nat}
    (h : ∃ block ∈ inside next blocks, Reached block first pre size) : ∃ block ∈ blocks,
    CoveredBy block (place first pre) size := by
  obtain ⟨block, hblock, hreached⟩ := h
  exact ⟨block, takeWhile_subset _ hblock, hreached.1⟩

/-- What `Update` does after its loops, when no block lies above what was sent. -/
def endUpdate (b : TxBuffer) (bytesSacked : Nat) : Option (TxBuffer × Nat) :=
  (if 0 < bytesSacked then b.updateLostCount else some b).bind fun b =>
    if (∃ head ∈ b.sentList.head?, ¬ head.sacked) ∧
      b.sackedOut + b.lostOut ≤ b.sentSize then some (b, bytesSacked)
    else none

theorem kept_head (h : Forall₂ Kept l l') :
    (∃ i ∈ l'.head?, ¬ i.sacked = true) ↔ ∃ i ∈ l.head?, ¬ i.sacked = true := by
  cases h with
  | nil => rfl
  | cons hi _ => simp [hi.2]

theorem endUpdate_of_fits (h : Accounts false b) (hhead : ∃ i ∈ b.sentList.head?, ¬ i.sacked = true)
    (hat : 0 < n → ∃ i ∈ b.sentList, some i.id = b.highestSack.1) :
    ∃ b', b.endUpdate n = some (b', n) ∧ Forall₂ Kept b.sentList b'.sentList := by
  rw [endUpdate]
  by_cases hn : 0 < n
  · obtain ⟨b', hlost, hkept⟩ := updateLostCount_kept (hat hn)
    have hhead' := (kept_head hkept).2 hhead
    have hle := (h.updateLostCount hlost hhead').out_le
    rw [if_pos hn, hlost, Option.bind_some, if_pos ⟨hhead', hle⟩]
    exact ⟨b', rfl, hkept⟩
  · rw [if_neg hn, Option.bind_some, if_pos ⟨hhead, h.out_le⟩]
    exact ⟨b, rfl, kept_refl _⟩

theorem fits_of_endUpdate {m : Nat} (h : b.endUpdate n = some (b', m)) :
    m = n ∧ Forall₂ Kept b.sentList b'.sentList ∧ (∃ i ∈ b.sentList.head?, ¬ i.sacked = true) ∧
      (0 < n → ∃ i ∈ b.sentList, some i.id = b.highestSack.1) := by
  obtain ⟨b₁, hlost, hreturn⟩ := Option.bind_eq_some_iff.1 h
  obtain ⟨hcheck, heq⟩ := Option.ite_none_right_eq_some.1 hreturn
  obtain ⟨rfl, rfl⟩ := Prod.mk.inj (Option.some.inj heq)
  by_cases hn : 0 < n
  · rw [if_pos hn] at hlost
    have hat := atItem_of_updateLostCount hlost
    obtain ⟨b₂, hlost', hkept⟩ := updateLostCount_kept hat
    obtain rfl := Option.some.inj (hlost.symm.trans hlost')
    exact ⟨rfl, hkept, (kept_head hkept).1 hcheck.1, fun _ => hat⟩
  · rw [if_neg hn] at hlost
    obtain rfl := Option.some.inj hlost
    exact ⟨rfl, kept_refl _, hcheck.1, fun hpos => absurd hpos hn⟩

theorem updateSacked_walked (h : Accounts false b) (blocks : List (Nat × Nat)) :
    ∃ b₁ s', Accounts false b₁ ∧
    Walked (fun p n => ∃ block ∈ inside b.nextSequence blocks, Reached block b.firstByteSeq p n)
      b.firstByteSeq [] b.sentList b₁.sentList ⟨b.lostOut, b.sackedOut, 0, b.highestSack⟩ s' ∧
    b₁.highestSack = s'.highestSack ∧
    b.updateSacked blocks = if inside b.nextSequence blocks = blocks then
      b₁.endUpdate s'.bytesSacked else some (b₁, s'.bytesSacked) := by
  obtain ⟨l', s', hblocks, hwalked⟩ := updateBlocks_walked b.firstByteSeq blocks b.nextSequence
    h.clean ⟨b.lostOut, b.sackedOut, 0, b.highestSack⟩
  refine ⟨_, s', h.updateBlocks nofun hblocks, hwalked, rfl, ?_⟩
  rw [updateSacked, hblocks, Option.bind_some]
  by_cases hall : inside b.nextSequence blocks = blocks
  · rw [if_pos hall]
    simp only [hall, ne_eq, not_true_eq_false, decide_false]
    rfl
  · rw [if_neg hall]
    simp only [hall, ne_eq, not_false_eq_true, decide_true]
    rfl

end TxBuffer

theorem Walked.atItem_iff (h : Walked cov first [] l l' s s')
    (hfresh : Fresh cov [] l fun _ n => 0 < n) : AtItem s' l' ↔ s.highestSack.1 = none ∨
      AtItem s l ∨ Fresh cov [] l fun p n =>
        Le s.highestSack.2 (SequenceNumber32.add (place first p) n) := by
  constructor
  · intro hat
    by_cases hmove : Fresh cov [] l fun p n => Passes s (place first p) n
    · obtain ⟨p, i, q, hl, hi, hcov, hnone | hle⟩ := hmove
      · exact Or.inl hnone
      · exact Or.inr (Or.inr ⟨p, i, q, hl, hi, hcov, hle⟩)
    · rw [OranNs3.Tcp.atItem_iff, ← map_map, h.stay hmove, h.marked.ids, map_map] at hat
      exact Or.inr (Or.inl (OranNs3.Tcp.atItem_iff.2 hat))
  · rintro (hnone | hat | ⟨p, i, q, hl, hi, hcov, hle⟩)
    · obtain ⟨p, i, q, hl, hi, hcov, -⟩ := hfresh
      exact h.move ⟨p, i, q, hl, hi, hcov, Or.inl hnone⟩
    · exact h.keep hat
    · exact h.move ⟨p, i, q, hl, hi, hcov, Or.inr hle⟩

namespace TxBuffer

variable {b b' : TxBuffer}

/-- `Update` is safe, marks what the blocks cover and returns the number of bytes that it marked,
exactly when what it needs is there. -/
theorem updates_iff (h : Accounts false b) : b.Updates blocks ↔ b.UpdateFits blocks := by
  obtain ⟨b₁, s', hacc, hwalked, hhigh, hupdate⟩ := updateSacked_walked h blocks
  have hmarked := hwalked.marked
  have hcount := hwalked.count
  rw [Nat.zero_add] at hcount
  have hbytes : 0 < s'.bytesSacked ↔
      Fresh (fun p n => ∃ block ∈ inside b.nextSequence blocks, Reached block b.firstByteSeq p n) []
        b.sentList fun _ n => 0 < n := by
    rw [← hmarked.total_le.2]
    omega
  constructor
  · rintro ⟨b', n, hreturn, hmarks, htotal⟩
    -- the items that `Update` returns have the marks of its loops
    have hmarked' : MarkedBy (fun p n =>
      ∃ block ∈ inside b.nextSequence blocks, Reached block b.firstByteSeq p n) []
        b.sentList b'.sentList ∧ (inside b.nextSequence blocks = blocks →
          (∃ i ∈ b₁.sentList.head?, ¬ i.sacked = true) ∧
            (0 < s'.bytesSacked → ∃ i ∈ b₁.sentList, some i.id = b₁.highestSack.1)) := by
      rw [hupdate] at hreturn
      split at hreturn
      · obtain ⟨-, hkept, hends⟩ := fits_of_endUpdate hreturn
        exact ⟨hmarked.keep hkept, fun _ => hends⟩
      · next hout =>
        obtain ⟨rfl, -⟩ := Prod.mk.inj (Option.some.inj hreturn)
        exact ⟨hmarked, fun hall => absurd hall hout⟩
    obtain ⟨hmarked', hends⟩ := hmarked'
    have hreached := hmarked'.iff.1 hmarks
    simp only [nil_append] at hreached
    refine ⟨fun p i q hl hi hcov => (hreached p i q hl hi).1 hcov, fun hall => ?_,
      fun hall hfresh => ?_⟩
    · obtain ⟨i, hhead, hi, hnot⟩ := hmarked.head_iff.1 (hends hall).1
      obtain ⟨q, hl⟩ := head?_eq_some_iff.1 hhead
      refine ⟨i, hhead, hi, fun block hblock hwithin => hnot ?_⟩
      exact (hreached [] i q hl hi).1 ⟨block, hblock, hwithin⟩
    · obtain ⟨p, i, q, hl, hi, hpos, hcov⟩ := hfresh
      have hsome := hbytes.2 ⟨p, i, q, hl, hi, (hreached p i q hl hi).1 hcov, hpos⟩
      have hat := (hends hall).2 hsome
      rw [hhigh] at hat
      rcases (hwalked.atItem_iff (hbytes.1 hsome)).1 hat with hnone | hat | ⟨p, i, q, hl, hi, hcov,
        hle⟩
      · exact Or.inl hnone
      · exact Or.inr (Or.inl hat)
      · exact Or.inr (Or.inr ⟨p, i, q, hl, hi, covered_of_reached hcov, hle⟩)
  · intro hfits
    have hmarks : MarkedBy (fun p n => ∃ block ∈ blocks, CoveredBy block (place b.firstByteSeq p) n)
        [] b.sentList b₁.sentList := by
      refine hmarked.iff.2 fun p i q hl hi => ?_
      exact ⟨hfits.reached p i q hl hi, covered_of_reached⟩
    by_cases hall : inside b.nextSequence blocks = blocks
    · rw [if_pos hall] at hupdate
      have hhead : ∃ i ∈ b₁.sentList.head?, ¬ i.sacked = true := by
        refine hmarked.head_iff.2 ?_
        obtain ⟨i, hhead, hi, hnot⟩ := hfits.head hall
        refine ⟨i, hhead, hi, fun hcov => ?_⟩
        obtain ⟨block, hblock, hwithin⟩ := covered_of_reached hcov
        exact hnot block hblock hwithin
      have hat : 0 < s'.bytesSacked → ∃ i ∈ b₁.sentList, some i.id = b₁.highestSack.1 := by
        intro hpos
        have hfresh := hbytes.1 hpos
        rw [hhigh]
        refine (hwalked.atItem_iff hfresh).2 ?_
        obtain ⟨p, i, q, hl, hi, hcov, hlen⟩ := hfresh
        rcases hfits.highest hall ⟨p, i, q, hl, hi, hlen, covered_of_reached hcov⟩ with
          hnone | hat | ⟨p, i, q, hl, hi, hcov, hle⟩
        · exact Or.inl hnone
        · exact Or.inr (Or.inl hat)
        · exact Or.inr (Or.inr ⟨p, i, q, hl, hi, hfits.reached p i q hl hi hcov, hle⟩)
      obtain ⟨b', hreturn, hkept⟩ := endUpdate_of_fits hacc hhead hat
      refine ⟨b', s'.bytesSacked, hupdate.trans hreturn, hmarks.keep hkept, ?_⟩
      rw [total_kept hkept]
      omega
    · rw [if_neg hall] at hupdate
      refine ⟨b₁, s'.bytesSacked, hupdate, hmarks, ?_⟩
      omega

variable {head maxBuffer dupAckThresh : Nat} {sackEnabled : Bool}

/-- In every state of a run of calls that return, of which none gives an item flags that exclude
each other or takes an item with a flag back, `Update` is safe, marks what the blocks cover and
counts the bytes that it marked, exactly when what it needs is there. -/
theorem updates_of_run
    (hrun : Lts.Run Step (Fits false) (TxBuffer.new head maxBuffer dupAckThresh sackEnabled) b)
    (blocks : List (Nat × Nat)) : b.Updates blocks ↔ b.UpdateFits blocks :=
  updates_iff (Accounts.run hrun)

/-- Two segments are lost, and the three after them are sacked. -/
theorem updates_of_run_example : ∃ b : TxBuffer, b.Updates [(20, 50)] ∧ b.UpdateFits [(20, 50)] ∧
    b.sentList.length = 5 := by
  have hexec : (Lts.execs (Fits false) (call? 5) (TxBuffer.new 0 65536 3 true)
      [.add (replicate 50 7), .copyFromSequence 0 10 0, .copyFromSequence 0 10 10,
        .copyFromSequence 0 10 20, .copyFromSequence 0 10 30, .copyFromSequence 0 10 40]).map
      (fun b => (decide (b.Updates [(20, 50)]), b.sentList.length)) = some (true, 5) := by
    decide +kernel
  obtain ⟨b, hb, hm⟩ := Option.map_eq_some_iff.1 hexec
  obtain ⟨hupdates, hlen⟩ := Prod.mk.inj hm
  have hrun := Lts.run_of_execs (fun h => (⟨5, h⟩ : Step _ _ _)) hb
  exact ⟨b, of_decide_eq_true hupdates, (updates_of_run hrun _).1 (of_decide_eq_true hupdates),
    hlen⟩

/-- A SACK that comes late finds an empty sent list, and `Update` looks at its first item; and a
block above what was sent keeps `Update` from looking at those after it. -/
theorem updates_fails :
    (∃ b, Lts.Run Step Lts.anyStep (TxBuffer.new 0 65536 3 true) b ∧ b.sentList = [] ∧
      b.updateSacked [(0, 5)] = none) ∧
    ∃ b, Lts.Run Step Lts.anyStep (TxBuffer.new 0 65536 3 true) b ∧
      ¬ b.Updates [(100, 110), (10, 20)] := by
  have hstep : ∀ {b c b'}, call? 5 b c = some b' → Step b c b' := fun h => ⟨5, h⟩
  constructor
  · have hexec : (Lts.execs Lts.anyStep (call? 5) (TxBuffer.new 0 65536 3 true)
        [.add (replicate 10 7), .copyFromSequence 0 10 0, .discardUpTo 0 10]).map
        (fun b => (b.sentList, b.updateSacked [(0, 5)])) = some ([], none) := by
      decide +kernel
    obtain ⟨b, hb, hm⟩ := Option.map_eq_some_iff.1 hexec
    obtain ⟨hnil, hnone⟩ := Prod.mk.inj hm
    exact ⟨b, Lts.run_of_execs hstep hb, hnil, hnone⟩
  · have hexec : (Lts.execs Lts.anyStep (call? 5) (TxBuffer.new 0 65536 3 true)
        [.add (replicate 20 7), .copyFromSequence 0 10 0, .copyFromSequence 0 10 10]).map
        (fun b => decide (b.Updates [(100, 110), (10, 20)])) = some false := by
      decide +kernel
    obtain ⟨b, hb, hm⟩ := Option.map_eq_some_iff.1 hexec
    exact ⟨b, Lts.run_of_execs hstep hb, of_decide_eq_false hm⟩

end TxBuffer

end OranNs3.Tcp
