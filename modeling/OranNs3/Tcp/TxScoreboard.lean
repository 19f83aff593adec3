import Mathlib.Algebra.BigOperators.Group.List.Basic
import OranNs3.Tcp.TxBuffer

/-!
# The counters of the scoreboard

The three counters of the transmit buffer are the sizes of the items that have the flags
(`TxBuffer.Accounts`). Splitting and merging keep the sizes for every flag (`SameAccounts`), so most
calls keep the counters right whatever the flags are. What they do not keep by themselves is that no
item is both sacked and lost: `AddRenoSack` does not look whether the item it sacks is lost, and
`ResetLastSegmentSent` takes an item with its flags out of the sent list.
-/

namespace OranNs3.Tcp

open SequenceNumber32 TxBuffer Bool List Lts Option

variable {i j : TxItem} {l l' : List TxItem} {flag : TxItem → Bool} {r r' : Nat}

/-! ## Sizes of the items with a flag -/

@[simp] theorem total_nil : total flag [] = 0 := rfl

@[simp]
theorem total_cons : total flag (i :: l) = (if flag i then i.size else 0) + total flag l := by
  rw [total, filter_cons]
  split <;> simp [total]

@[simp]
theorem total_append : total flag (l ++ l') = total flag l + total flag l' := by
  induction l with
  | nil => simp
  | cons i l ih => simp [ih, Nat.add_assoc]

theorem total_reverse : total flag l.reverse = total flag l := by
  induction l with
  | nil => rfl
  | cons i l ih => simp [ih, Nat.add_comm]

theorem total_map {g : TxItem → TxItem} {n : Nat} (h : n = total (fun i => flag (g i)) l)
    (hg : ∀ i, (g i).size = i.size) : n = total flag (l.map g) := by
  rw [h]
  clear h
  induction l with
  | nil => rfl
  | cons i l ih => simp [ih, hg]

theorem total_congr {flag' : TxItem → Bool} (h : ∀ i ∈ l, flag i = flag' i) :
    total flag l = total flag' l := by
  induction l with
  | nil => rfl
  | cons i l ih =>
    obtain ⟨hi, hl⟩ := forall_mem_cons.1 h
    simp [ih hl, hi]

theorem total_eq_zero (h : ∀ i ∈ l, flag i = false) : total flag l = 0 := by
  rw [total_congr h]
  induction l with
  | nil => rfl
  | cons i l ih => simpa using ih (forall_mem_cons.1 h).2

/-- Items without flags. -/
def Plain (i : TxItem) : Prop := i.sacked = false ∧ i.lost = false ∧ i.retrans = false
deriving Decidable

/-! ## Splitting and merging -/

/-- Two lists have the same sizes for each flag, and `m_retrans` followed the difference; an item
has the flags of one that was there, where it may have lost the one for retransmission. -/
structure SameAccounts (l l' : List TxItem) (r r' : Nat) : Prop where
  sacked : total (·.sacked) l' = total (·.sacked) l
  lost : total (·.lost) l' = total (·.lost) l
  size : total (fun _ => true) l' = total (fun _ => true) l
  retrans : ∀ c, r = c + total (·.retrans) l → r' = c + total (·.retrans) l'
  flags : ∀ i ∈ l', ∃ j ∈ l, i.sacked = j.sacked ∧ i.lost = j.lost ∧
    (i.retrans = true → j.retrans = true)

theorem SameAccounts.refl (l : List TxItem) (r : Nat) : SameAccounts l l r r :=
  ⟨rfl, rfl, rfl, fun _ => id, fun i hi => ⟨i, hi, rfl, rfl, id⟩⟩

theorem SameAccounts.trans {l₁ l₂ l₃ : List TxItem} {r₁ r₂ r₃ : Nat} (h : SameAccounts l₁ l₂ r₁ r₂)
    (h' : SameAccounts l₂ l₃ r₂ r₃) : SameAccounts l₁ l₃ r₁ r₃ where
  sacked := h'.sacked.trans h.sacked
  lost := h'.lost.trans h.lost
  size := h'.size.trans h.size
  retrans := fun c hc => h'.retrans c (h.retrans c hc)
  flags := by
    intro i hi
    obtain ⟨j, hj, hsacked, hlost, hretrans⟩ := h'.flags i hi
    obtain ⟨k, hk, hsacked', hlost', hretrans'⟩ := h.flags j hj
    exact ⟨k, hk, hsacked.trans hsacked', hlost.trans hlost', fun hi => hretrans' (hretrans hi)⟩

theorem SameAccounts.cons (h : SameAccounts l l' r r') (i : TxItem) :
    SameAccounts (i :: l) (i :: l') r r' where
  sacked := by simp [h.sacked]
  lost := by simp [h.lost]
  size := by simp [h.size]
  retrans := by
    intro c hc
    rw [total_cons, ← Nat.add_assoc] at hc ⊢
    exact h.retrans _ hc
  flags := by
    intro j hj
    rcases mem_cons.1 hj with rfl | hj
    · exact ⟨j, mem_cons_self, rfl, rfl, id⟩
    · obtain ⟨k, hk, hflags⟩ := h.flags j hj
      exact ⟨k, mem_cons_of_mem _ hk, hflags⟩

theorem splitItems_size {id size : Nat} {t1 t2 : TxItem}
    (h : splitItems id i size = some (t1, t2)) : t1.size = size ∧ t2.size = i.size - size ∧
    size ≤ i.size := by
  obtain ⟨p, hp, heq⟩ := map_eq_some_iff.1 h
  rw [createFragment] at hp
  split at hp
  · next hle =>
    cases hp
    cases heq
    have hle' : size ≤ i.packet.length := by omega
    simp [TxItem.size, hle']
  · cases hp

theorem SameAccounts.split {new size : Nat} {t1 t2 : TxItem}
    (h : splitItems new i size = some (t1, t2)) (r : Nat) :
    SameAccounts (i :: l) (t1 :: t2 :: l) r r := by
  obtain ⟨hsize₁, hsize₂, hle⟩ := splitItems_size h
  obtain ⟨p, -, heq⟩ := map_eq_some_iff.1 h
  obtain ⟨rfl, rfl⟩ := Prod.mk.inj heq
  have htotal : ∀ flag : TxItem → Bool, flag { i with id := new, packet := p } = flag i →
      flag { i with startSeq := add i.startSeq size, packet := i.packet.drop size } = flag i →
      total flag ({ i with id := new, packet := p } ::
        { i with startSeq := add i.startSeq size, packet := i.packet.drop size } :: l) =
        total flag (i :: l) := by
    intro flag h₁ h₂
    rw [total_cons, total_cons, total_cons, h₁, h₂, hsize₁, hsize₂]
    split <;> omega
  refine ⟨htotal _ rfl rfl, htotal _ rfl rfl, htotal _ rfl rfl, fun c hc => hc.trans ?_,
    fun j hj => ?_⟩
  · rw [htotal _ rfl rfl]
  · rcases mem_cons.1 hj with rfl | hj
    · exact ⟨i, mem_cons_self, rfl, rfl, id⟩
    · rcases mem_cons.1 hj with rfl | hj
      · exact ⟨i, mem_cons_self, rfl, rfl, id⟩
      · exact ⟨j, mem_cons_of_mem _ hj, rfl, rfl, id⟩

theorem SameAccounts.merge {t : TxItem} (h : mergeItems i j r = some (t, r')) :
    SameAccounts (i :: j :: l) (t :: l) r r' := by
  rw [mergeItems] at h
  split at h
  · next hsame =>
    obtain ⟨rfl, rfl⟩ := Prod.mk.inj (some.inj h)
    refine ⟨?_, ?_, ?_, fun c hc => ?_, fun k hk => ?_⟩
    · simp only [total_cons, hsame.1, TxItem.size, length_append]
      split <;> omega
    · simp only [total_cons, hsame.2, TxItem.size, length_append]
      split <;> omega
    · simp only [total_cons, TxItem.size, length_append, if_true]
      omega
    · simp only [total_cons, TxItem.size, length_append] at hc ⊢
      cases hi : i.retrans <;> cases hj : j.retrans <;> simp [hi, hj] at hc ⊢ <;> omega
    · rcases mem_cons.1 hk with rfl | hk
      · exact ⟨i, mem_cons_self, rfl, rfl, fun hboth => ((and_eq_true_iff).1 hboth).1⟩
      · exact ⟨k, mem_cons_of_mem _ (mem_cons_of_mem _ hk), rfl, rfl, id⟩
  · cases h

/-- The list that a walk leaves. -/
def Pass.list : Pass → List TxItem
  | found pre item post _ _ => pre ++ item :: post
  | again list _ _ => list

/-- `m_retrans` after a walk. -/
def Pass.retrans : Pass → Nat
  | found _ _ _ retrans _ => retrans
  | again _ retrans _ => retrans

theorem Pass.list_cons (o : Pass) : (o.cons i).list = i :: o.list := by cases o <;> rfl

theorem Pass.retrans_cons (o : Pass) : (o.cons i).retrans = o.retrans := by cases o <;> rfl

theorem pass_accounts {first : Option Nat} {numBytes seq nextId begin : Nat} {o : Pass}
    (h : pass first numBytes seq r nextId begin l = some o) :
    SameAccounts l o.list r o.retrans := by
  induction l generalizing begin o with
  | nil => cases h
  | cons i l ih =>
    rw [pass.eq_def] at h
    dsimp only at h
    split at h <;> [skip; cases h]
    split at h
    · split at h <;> [split at h; split at h]
      · split at h <;> [skip; split at h]
        · cases h
          exact .refl _ _
        · obtain ⟨⟨t1, t2⟩, hsplit, rfl⟩ := map_eq_some_iff.1 h
          exact .split hsplit r
        · cases h
      · split at h
        · cases h
          exact .refl _ _
        · obtain ⟨⟨t, r'⟩, hmerge, rfl⟩ := map_eq_some_iff.1 h
          exact .merge hmerge
      · obtain ⟨⟨t1, t2⟩, hsplit, rfl⟩ := map_eq_some_iff.1 h
        exact .split hsplit r
      · cases h
    · obtain ⟨o', ho', rfl⟩ := map_eq_some_iff.1 h
      rw [Pass.list_cons, Pass.retrans_cons]
      exact (ih ho').cons i

theorem getPacketFromList_accounts {first : Option Nat}
    {start numBytes seq calls nextId nextId' : Nat} {pre post : List TxItem}
    (h : getPacketFromList first start numBytes seq calls l r nextId =
      some (pre, i, post, r', nextId')) : SameAccounts l (pre ++ i :: post) r r' := by
  induction calls generalizing l r nextId with
  | zero => cases h
  | succ calls ih =>
    rw [getPacketFromList] at h
    obtain ⟨o, ho, h⟩ := bind_eq_some_iff.1 h
    have hsame := pass_accounts ho
    cases o with
    | found => cases h; exact hsame
    | again => exact hsame.trans (ih h)

/-! ## The invariant -/

/-- A sacked item is not lost and, where that is asked for, not counted as retransmitted. -/
def Clean (strict : Bool) (i : TxItem) : Prop :=
  i.sacked = true → i.lost = false ∧ (strict = true → i.retrans = false)

theorem Plain.clean {strict : Bool} (hi : Plain i) : Clean strict i := by
  intro hs
  rw [hi.1] at hs
  cases hs

theorem SameAccounts.plain (h : SameAccounts l l' r r') (hl : ∀ i ∈ l, Plain i) :
    ∀ i ∈ l', Plain i := by
  intro i hi
  obtain ⟨j, hj, hsacked, hlost, hretrans⟩ := h.flags i hi
  obtain ⟨hj1, hj2, hj3⟩ := hl j hj
  exact ⟨hsacked.trans hj1, hlost.trans hj2, eq_false_iff.2 fun hi => by simp [hretrans hi] at hj3⟩

theorem SameAccounts.clean {strict : Bool} (h : SameAccounts l l' r r')
    (hl : ∀ i ∈ l, Clean strict i) : ∀ i ∈ l', Clean strict i := by
  intro i hi hs
  obtain ⟨j, hj, hsacked, hlost, hretrans⟩ := h.flags i hi
  obtain ⟨hj1, hj2⟩ := hl j hj (hsacked ▸ hs)
  exact ⟨hlost.trans hj1, fun hstrict =>
    eq_false_iff.2 fun hi => by simpa [hretrans hi] using hj2 hstrict⟩

namespace TxBuffer

/-- The counters are the sizes of the items that have the flags, and no item has flags that exclude
each other. -/
structure Accounts (strict : Bool) (b : TxBuffer) : Prop where
  sacked : b.sackedOut = total (·.sacked) b.sentList
  lost : b.lostOut = total (·.lost) b.sentList
  retrans : b.retrans = total (·.retrans) b.sentList
  sentSize : b.sentSize = total (fun _ => true) b.sentList
  clean : ∀ i ∈ b.sentList, Clean strict i
  app : ∀ i ∈ b.appList, Plain i

variable {strict : Bool} {b b' : TxBuffer} {now calls numBytes seq offset : Nat}
  {pre post : List TxItem}

theorem Accounts.add (h : Accounts strict b) (p : List UInt8) : Accounts strict (b.add p).1 := by
  rw [TxBuffer.add]
  split <;> [split; skip]
  · refine { h with app := fun i hi => ?_ }
    rcases mem_append.1 hi with hi | hi
    · exact h.app i hi
    · obtain rfl := mem_singleton.1 hi
      exact ⟨rfl, rfl, rfl⟩
  · exact h
  · exact h

variable {r : Option TxItem}

theorem send_eq (h : b.send now pre i post = some (b', r)) :
    b' = { b with sentList := pre ++ { i with lastSent := now } :: post } := by
  rw [send] at h
  split at h
  · exact (Prod.mk.inj (some.inj h)).1.symm
  · cases h

variable (now) in
theorem Accounts.getNewSegment (h : Accounts strict b) {b₁ : TxBuffer}
    (hnew : b.getNewSegment calls numBytes = some (b₁, i)) :
    Accounts strict { b₁ with sentList := b.sentList ++ [{ i with lastSent := now }] } ∧
    i.sacked = false := by
  obtain ⟨⟨pre, item, post, retrans, nextId⟩, hget, heq⟩ := map_eq_some_iff.1 hnew
  obtain ⟨rfl, rfl⟩ := Prod.mk.inj heq
  have hsame := getPacketFromList_accounts hget
  have hplain := hsame.plain h.app
  have hitem : Plain item := hplain item (by simp)
  have hunretrans : ∀ {l : List TxItem}, (∀ i ∈ l, Plain i) → total (·.retrans) l = 0 := fun hl =>
    total_eq_zero fun i hi => (hl i hi).2.2
  have hretrans : retrans = b.retrans := by
    have hkeep := hsame.retrans b.retrans (by rw [hunretrans h.app, Nat.add_zero])
    rwa [hunretrans hplain, Nat.add_zero] at hkeep
  refine ⟨⟨?_, ?_, ?_, ?_, ?_, ?_⟩, hitem.1⟩
  · simp [h.sacked, hitem.1]
  · simp [h.lost, hitem.2.1]
  · simp [hretrans, h.retrans, hitem.2.2]
  · simp [h.sentSize, TxItem.size]
  · intro i hi
    rcases mem_append.1 hi with hi | hi
    · exact h.clean i hi
    · obtain rfl := mem_singleton.1 hi
      exact Plain.clean (i := { item with startSeq := b.nextSequence, lastSent := now }) hitem
  · intro i hi
    exact hplain i (by rcases mem_append.1 hi with hi | hi <;> simp [hi])

theorem Accounts.getTransmittedSegment (h : Accounts strict b) {b₁ : TxBuffer}
    (hold : b.getTransmittedSegment calls numBytes seq = some (b₁, pre, i, post))
    (hi : i.sacked = false) :
    Accounts strict { b₁ with sentList := pre ++ { i with lastSent := now } :: post } := by
  rw [TxBuffer.getTransmittedSegment] at hold
  split at hold <;> [skip; cases hold]
  obtain ⟨⟨pre, item, post, retrans, nextId⟩, hget, heq⟩ := map_eq_some_iff.1 hold
  cases heq
  have hsame := getPacketFromList_accounts hget
  have hkeep := hsame.retrans 0 (by rw [h.retrans, Nat.zero_add])
  refine ⟨?_, ?_, ?_, ?_, ?_, h.app⟩
  · rw [h.sacked, ← hsame.sacked]
    simp [TxItem.size]
  · rw [h.lost, ← hsame.lost]
    simp [TxItem.size]
  · simp only [total_append, total_cons] at hkeep ⊢
    cases hr : item.retrans <;> simp [hr, TxItem.size] at hkeep ⊢ <;> omega
  · rw [h.sentSize, ← hsame.size]
    simp [TxItem.size]
  · intro j hj
    have hclean := hsame.clean h.clean
    rcases mem_append.1 hj with hj | hj
    · exact hclean j (by simp [hj])
    · rcases mem_cons.1 hj with rfl | hj
      · intro hs
        rw [hi] at hs
        cases hs
      · exact hclean j (by simp [hj])

/-- What `CopyFromSequence` does where it returns: nothing, or it sends an item that was sent before
and is not sacked, or a new one. -/
inductive Copied (now : Nat) (b : TxBuffer) (b' : TxBuffer) (r : Option TxItem) : Prop
  | nothing (hb : b' = b) (hr : r = none)
  | transmitted {calls s seq : Nat} {b₁ : TxBuffer} {pre post : List TxItem} {i : TxItem}
    (hold : b.getTransmittedSegment calls s seq = some (b₁, pre, i, post)) (hi : i.sacked = false)
    (hsend : b₁.send now pre i post = some (b', r))
  | new {calls s : Nat} {b₁ : TxBuffer} {i : TxItem} (hnew : b.getNewSegment calls s = some (b₁, i))
    (hsend : b₁.send now b.sentList i [] = some (b', r))

theorem copied_of_copyFromSequence
    (h : copyFromSequence now calls b numBytes seq = some (b', r)) : Copied now b b' r := by
  induction calls generalizing numBytes with
  | zero => cases h
  | succ calls ih =>
    rw [copyFromSequence] at h
    split at h <;> [cases h; skip]
    dsimp only at h
    split at h <;> [skip; split at h <;> [skip; split at h <;> [split at h; split at h]]]
    · cases h
      exact .nothing rfl rfl
    · obtain ⟨⟨b₁, pre, item, post⟩, hold, h⟩ := bind_eq_some_iff.1 h
      dsimp only at h
      split at h <;> [cases h; skip]
      next hsacked => exact .transmitted hold (eq_false_iff.2 hsacked) h
    · obtain ⟨⟨b₁, item⟩, hnew, h⟩ := bind_eq_some_iff.1 h
      dsimp only at h
      split at h <;> [cases h; skip]
      exact .new hnew h
    · cases h
    · exact ih h
    · cases h

theorem Accounts.copyFromSequence (h : Accounts strict b)
    (hcopy : copyFromSequence now calls b numBytes seq = some (b', r)) : Accounts strict b' := by
  cases copied_of_copyFromSequence hcopy with
  | nothing hb => exact hb ▸ h
  | transmitted hold hi hsend =>
    rw [send_eq hsend]
    exact h.getTransmittedSegment hold hi
  | new hnew hsend =>
    rw [send_eq hsend]
    exact (h.getNewSegment _ hnew).1

theorem Accounts.copyFromSequence_nil (h : Accounts strict b) (hnil : b.sentList = [])
    (hcopy : TxBuffer.copyFromSequence now calls b numBytes seq = some (b', r)) :
    ∀ i ∈ b'.sentList, i.sacked = false := by
  cases copied_of_copyFromSequence hcopy with
  | nothing hb => simp [hb, hnil]
  | transmitted hold => simp [TxBuffer.getTransmittedSegment, hnil] at hold
  | new hnew hsend =>
    rw [send_eq hsend]
    simp [hnil, (h.getNewSegment 0 hnew).2]

/-! ### Reno SACKs -/

/-- The item that a Reno SACK would mark has no flag that excludes it. -/
def RenoFits (strict : Bool) (l : List TxItem) : Prop :=
  ∀ i ∈ (sackFirst l.tail).2, i.lost = false ∧ (strict = true → i.retrans = false)
deriving Decidable

theorem sackFirst_some (h : sackFirst l = (l', some i)) :
    total (·.sacked) l' = total (·.sacked) l + i.size ∧ total (·.lost) l' = total (·.lost) l ∧
      total (·.retrans) l' = total (·.retrans) l ∧
        total (fun _ => true) l' = total (fun _ => true) l ∧
      ∀ j ∈ l', j ∈ l ∨ j = { i with sacked := true } := by
  induction l generalizing l' with
  | nil => cases h
  | cons k l ih =>
    rw [sackFirst] at h
    split at h
    · obtain ⟨rfl, hsome⟩ := Prod.mk.inj h
      obtain ⟨h1, h2, h3, h4, h5⟩ :=
        ih (show sackFirst l = ((sackFirst l).1, some i) by rw [← hsome])
      refine ⟨by simp [h1, Nat.add_assoc], by simp [h2], by simp [h3], by simp [h4], fun j hj => ?_⟩
      rcases mem_cons.1 hj with rfl | hj
      · exact Or.inl mem_cons_self
      · exact (h5 j hj).imp_left (mem_cons_of_mem _)
    · next hk =>
      obtain ⟨rfl, hi⟩ := Prod.mk.inj h
      cases hi
      refine ⟨?_, by simp [TxItem.size], by simp [TxItem.size], by simp [TxItem.size],
        fun j hj => ?_⟩
      · simp [hk, TxItem.size, Nat.add_comm]
      · rcases mem_cons.1 hj with rfl | hj
        · exact Or.inr rfl
        · exact Or.inl (mem_cons_of_mem _ hj)

theorem Accounts.addRenoSack (h : Accounts strict b) (hfits : RenoFits strict b.sentList)
    (hadd : b.addRenoSack = some b') : Accounts strict b' := by
  rw [TxBuffer.addRenoSack] at hadd
  split at hadd <;> [cases hadd; skip]
  next head rest hlist =>
  split at hadd <;> [cases hadd; skip]
  split at hadd
  · cases hadd
    exact h
  · next rest' item hsack =>
    cases hadd
    obtain ⟨hsacked, hlost, hretrans, hsize, hmem⟩ := sackFirst_some hsack
    have hitem : item.lost = false ∧ (strict = true → item.retrans = false) :=
      hfits item (by simp [hlist, hsack])
    refine ⟨?_, ?_, ?_, ?_, fun i hi => ?_, h.app⟩
    · simp [h.sacked, hlist, hsacked, Nat.add_assoc]
    · simp [h.lost, hlist, hlost]
    · simp [h.retrans, hlist, hretrans]
    · simp [h.sentSize, hlist, hsize]
    · rcases mem_cons.1 hi with rfl | hi
      · exact h.clean i (by simp [hlist])
      · rcases hmem i hi with hi | rfl
        · exact h.clean i (by simp [hlist, hi])
        · exact fun _ => hitem

theorem Accounts.markHeadAsLost (h : Accounts strict b) : Accounts strict b.markHeadAsLost := by
  rw [TxBuffer.markHeadAsLost]
  split
  · exact h
  · next head rest hlist =>
    refine ⟨?_, ?_, ?_, ?_, fun i hi => ?_, h.app⟩
    · cases hs : head.sacked <;> simp [h.sacked, hlist, hs]
    · cases hs : head.lost <;> simp [h.lost, hlist, hs, TxItem.size, Nat.add_comm]
    · cases hs : head.retrans <;> simp [h.retrans, hlist, hs]
    · simp [h.sentSize, hlist, TxItem.size]
    · rcases mem_cons.1 hi with rfl | hi
      · exact nofun
      · exact h.clean i (by simp [hlist, hi])

/-! ### Discarding -/

theorem removeFromCounts_eq {n : Nat} (h : b.removeFromCounts i n = some b') : b' = { b with
    sackedOut := b.sackedOut - if i.sacked then n else 0
    retrans := b.retrans - if i.retrans then n else 0
    lostOut := b.lostOut - if i.lost then n else 0 } := by
  rw [removeFromCounts] at h
  split at h
  · cases h
    congr 1 <;> split <;> rfl
  · cases h

variable {offset' : Nat}

/-- One round of the loop of `DiscardUpTo` keeps the accounts. -/
theorem Accounts.discardHead (h : Accounts strict b)
    (hdiscard : b.discardHead offset = some (b', offset')) : Accounts strict b' := by
  rw [TxBuffer.discardHead] at hdiscard
  split at hdiscard <;> [cases hdiscard; skip]
  next item rest hlist =>
  have hclean : ∀ i ∈ rest, Clean strict i := fun i hi => h.clean i (by simp [hlist, hi])
  split at hdiscard <;> [split at hdiscard; cases hdiscard]
  · obtain ⟨b₁, hremove, heq⟩ := map_eq_some_iff.1 hdiscard
    obtain ⟨rfl, -⟩ := Prod.mk.inj heq
    obtain rfl := removeFromCounts_eq hremove
    refine ⟨?_, ?_, ?_, ?_, hclean, h.app⟩
    · simp [h.sacked, hlist]
    · simp [h.lost, hlist]
    · simp [h.retrans, hlist]
    · simp [h.sentSize, hlist]
  · next hle =>
    have hlt : offset < item.packet.length := Nat.lt_of_not_le hle
    obtain ⟨packet, hpacket, hdiscard⟩ := bind_eq_some_iff.1 hdiscard
    obtain ⟨b₁, hremove, heq⟩ := map_eq_some_iff.1 hdiscard
    obtain ⟨rfl, -⟩ := Prod.mk.inj heq
    obtain rfl := removeFromCounts_eq hremove
    have hlen : packet.length = item.size - offset := by
      rw [createFragment] at hpacket
      split at hpacket
      · cases hpacket
        simp only [length_take, length_drop, TxItem.size]
        omega
      · cases hpacket
    refine ⟨?_, ?_, ?_, ?_, fun i hi => ?_, h.app⟩
    · cases hs : item.sacked <;> simp [h.sacked, hlist, hs, TxItem.size, hlen]
      omega
    · cases hs : item.lost <;> simp [h.lost, hlist, hs, TxItem.size, hlen]
      omega
    · cases hs : item.retrans <;> simp [h.retrans, hlist, hs, TxItem.size, hlen]
      omega
    · simp [h.sentSize, hlist, TxItem.size, hlen]
      omega
    · rcases mem_cons.1 hi with rfl | hi
      · have hitem := h.clean item (by simp [hlist])
        exact hitem
      · exact hclean i hi

theorem Accounts.fillSentList (h : Accounts strict b)
    (hfill : b.fillSentList now calls offset = some b') : Accounts strict b' := by
  rw [TxBuffer.fillSentList] at hfill
  split at hfill
  · obtain ⟨⟨b₁, r⟩, hcopy, hfill⟩ := bind_eq_some_iff.1 hfill
    obtain ⟨item, -, rfl⟩ := map_eq_some_iff.1 hfill
    exact h.copyFromSequence hcopy
  · cases hfill
    exact h

variable {rounds : Nat}

theorem Accounts.discardLoop (h : Accounts strict b)
    (hloop : discardLoop now calls rounds b offset = some b') : Accounts strict b' := by
  induction rounds generalizing b offset with
  | zero => cases hloop
  | succ rounds ih =>
    rw [TxBuffer.discardLoop] at hloop
    split at hloop
    · obtain ⟨b₁, hfill, hloop⟩ := bind_eq_some_iff.1 hloop
      obtain ⟨⟨b₂, offset'⟩, hdiscard, hloop⟩ := bind_eq_some_iff.1 hloop
      exact ih ((h.fillSentList hfill).discardHead hdiscard) hloop
    · cases hloop
      exact h

/-- The items of the sent list that the loop of `DiscardUpTo` leaves, of which it may shorten the
first. -/
def remaining : Nat → Nat → List TxItem → List TxItem
  | _, _, [] => []
  | size, offset, i :: l =>
    if size > 0 ∧ offset > 0 ∧ i.size ≤ offset then remaining (size - i.size) (offset - i.size) l
      else i :: l

theorem discardHead_sentList (h : b.discardHead offset = some (b', offset'))
    (hlist : b.sentList = i :: l) :
    if i.size ≤ offset then b'.sentList = l ∧ b'.size = b.size - i.size ∧ offset' = offset - i.size
    else (∃ i', b'.sentList = i' :: l ∧ i'.sacked = i.sacked) ∧ offset' = 0 := by
  rw [discardHead, hlist] at h
  dsimp only at h
  split at h <;> [split at h; cases h]
  · next hle =>
    obtain ⟨b₁, hremove, heq⟩ := map_eq_some_iff.1 h
    obtain ⟨rfl, rfl⟩ := Prod.mk.inj heq
    obtain rfl := removeFromCounts_eq hremove
    rw [if_pos hle]
    exact ⟨rfl, rfl, rfl⟩
  · next hle =>
    obtain ⟨packet, -, h⟩ := bind_eq_some_iff.1 h
    obtain ⟨b₁, hremove, heq⟩ := map_eq_some_iff.1 h
    obtain ⟨rfl, rfl⟩ := Prod.mk.inj heq
    obtain rfl := removeFromCounts_eq hremove
    rw [if_neg hle]
    exact ⟨⟨_, rfl, rfl⟩, rfl⟩

theorem discardHead_unsacked (hb : ∀ i ∈ b.sentList, i.sacked = false)
    (h : b.discardHead offset = some (b', offset')) : ∀ i ∈ b'.sentList, i.sacked = false := by
  cases hlist : b.sentList with
  | nil => simp [discardHead, hlist] at h
  | cons i l =>
    rw [hlist] at hb
    obtain ⟨hi, hl⟩ := forall_mem_cons.1 hb
    have hhead := discardHead_sentList h hlist
    split at hhead
    · rwa [hhead.1]
    · obtain ⟨⟨i', hlist', hsacked⟩, -⟩ := hhead
      rw [hlist']
      exact forall_mem_cons.2 ⟨hsacked.trans hi, hl⟩

theorem Accounts.fillSentList_unsacked (h : Accounts strict b)
    (hb : ∀ i ∈ b.sentList, i.sacked = false) (hfill : b.fillSentList now calls offset = some b') :
    ∀ i ∈ b'.sentList, i.sacked = false := by
  rw [TxBuffer.fillSentList] at hfill
  split at hfill
  · next hlist =>
    obtain ⟨⟨b₁, r⟩, hcopy, hfill⟩ := bind_eq_some_iff.1 hfill
    obtain ⟨item, -, rfl⟩ := map_eq_some_iff.1 hfill
    exact h.copyFromSequence_nil hlist hcopy
  · cases hfill
    exact hb

theorem Accounts.discardLoop_unsacked (h : Accounts strict b)
    (hb : ∀ i ∈ b.sentList, i.sacked = false)
    (hloop : TxBuffer.discardLoop now calls rounds b offset = some b') : ∀ i ∈ b'.sentList,
    i.sacked = false := by
  induction rounds generalizing b offset with
  | zero => cases hloop
  | succ rounds ih =>
    rw [TxBuffer.discardLoop] at hloop
    split at hloop
    · obtain ⟨b₁, hfill, hloop⟩ := bind_eq_some_iff.1 hloop
      obtain ⟨⟨b₂, offset'⟩, hdiscard, hloop⟩ := bind_eq_some_iff.1 hloop
      exact ih ((h.fillSentList hfill).discardHead hdiscard)
        (discardHead_unsacked (h.fillSentList_unsacked hb hfill) hdiscard) hloop
    · cases hloop
      exact hb

/-- What the loop of `DiscardUpTo` leaves, as far as SACKs go: the remaining items, or new ones. -/
theorem Accounts.discardLoop_sentList (h : Accounts strict b)
    (hloop : TxBuffer.discardLoop now calls rounds b offset = some b') :
    (∀ i ∈ b'.sentList, i.sacked = false) ∨ ∃ i l i', remaining b.size offset b.sentList = i :: l ∧
      b'.sentList = i' :: l ∧ i'.sacked = i.sacked := by
  induction rounds generalizing b offset with
  | zero => cases hloop
  | succ rounds ih =>
    rw [TxBuffer.discardLoop] at hloop
    split at hloop
    · next hpos =>
      obtain ⟨b₁, hfill, hloop⟩ := bind_eq_some_iff.1 hloop
      obtain ⟨⟨b₂, offset'⟩, hdiscard, hloop⟩ := bind_eq_some_iff.1 hloop
      have hacc₁ := h.fillSentList hfill
      have hih := ih (hacc₁.discardHead hdiscard) hloop
      cases hlist : b.sentList with
      | nil =>
        -- what is sent here is not sacked, and neither is what is left of it
        have hnot : ∀ i ∈ b.sentList, i.sacked = false := by simp [hlist]
        have hnot₂ := discardHead_unsacked (h.fillSentList_unsacked hnot hfill) hdiscard
        exact Or.inl ((hacc₁.discardHead hdiscard).discardLoop_unsacked hnot₂ hloop)
      | cons i l =>
        rw [TxBuffer.fillSentList, hlist] at hfill
        cases hfill
        have hhead := discardHead_sentList hdiscard hlist
        rw [remaining]
        split at hhead
        · next hle =>
          obtain ⟨hlist', hsize, rfl⟩ := hhead
          rw [if_pos ⟨hpos.1, hpos.2, hle⟩]
          rwa [hlist', hsize] at hih
        · next hle =>
          obtain ⟨⟨i₂, hlist', hsacked⟩, rfl⟩ := hhead
          rw [if_neg fun hall => hle hall.2.2]
          refine hih.imp_right ?_
          rintro ⟨i₃, l₃, i₄, hrem, hlist'', hsacked'⟩
          rw [hlist', remaining, if_neg fun hall => absurd hall.2.1 (Nat.lt_irrefl 0)] at hrem
          cases hrem
          exact ⟨i, l, i₄, rfl, hlist'', hsacked'.trans hsacked⟩
    · next hpos =>
      cases hloop
      cases hlist : b'.sentList with
      | nil => exact Or.inl (by simp)
      | cons i l =>
        refine Or.inr ⟨i, l, i, ?_, rfl, rfl⟩
        rw [remaining, if_neg fun hall => hpos ⟨hall.1, hall.2.1⟩]

/-- The SACK of a head that remains does not move to an item that has a flag that excludes it. -/
def DiscardFits (strict : Bool) (b : TxBuffer) (seq : Nat) : Prop :=
  ¬ Ge b.firstByteSeq seq →
    ∀ head ∈ (remaining b.size (toUint32 (sub seq b.firstByteSeq)) b.sentList).head?,
    head.sacked = true →
      RenoFits strict (remaining b.size (toUint32 (sub seq b.firstByteSeq)) b.sentList)
deriving Decidable

/-- `DiscardUpTo` keeps the accounts, when the SACK of a head that remains moves to an item that is
not lost. -/
theorem Accounts.discardUpTo (h : Accounts strict b)
    (hfits : DiscardFits strict b seq) (hdiscard : b.discardUpTo now calls seq = some b') :
    Accounts strict b' := by
  rw [TxBuffer.discardUpTo] at hdiscard
  split at hdiscard
  · cases hdiscard
    exact h
  next hge =>
  obtain ⟨b₁, hloop, hdiscard⟩ := bind_eq_some_iff.1 hdiscard
  obtain ⟨b₂, hmove, hdiscard⟩ := bind_eq_some_iff.1 hdiscard
  have hacc₁ : Accounts strict b₁ := h.discardLoop hloop
  have hacc₂ : Accounts strict b₂ := by
    have hleft := h.discardLoop_sentList hloop
    obtain ⟨b₁', hb₁', hacc₁', hlist'⟩ : ∃ b₁',
      (if b₁.size = 0 then { b₁ with firstByteSeq := seq } else b₁) = b₁' ∧
        Accounts strict b₁' ∧ b₁'.sentList = b₁.sentList := by
      refine ⟨_, rfl, ?_, ?_⟩
      · split
        · exact { hacc₁ with }
        · exact hacc₁
      · split <;> rfl
    rw [hb₁', moveSackFromHead] at hmove
    rw [← hlist'] at hleft
    split at hmove
    · cases hmove
      exact hacc₁'
    next head rest hlist =>
    split at hmove
    · next hsacked =>
      split at hmove <;> [cases hmove; skip]
      obtain ⟨b₃, hadd, rfl⟩ := map_eq_some_iff.1 hmove
      refine Accounts.markHeadAsLost (Accounts.addRenoSack (b := { b₁' with
        sentList := { head with sacked := false } :: rest, sackedOut := b₁'.sackedOut - head.size })
          ?_ ?_ hadd)
      · refine ⟨?_, ?_, ?_, ?_, fun i hi => ?_, hacc₁'.app⟩
        · simp [hacc₁'.sacked, hlist, hsacked]
        · simp [hacc₁'.lost, hlist, TxItem.size]
        · simp [hacc₁'.retrans, hlist, TxItem.size]
        · simp [hacc₁'.sentSize, hlist, TxItem.size]
        · rcases mem_cons.1 hi with rfl | hi
          · exact nofun
          · exact hacc₁'.clean i (by simp [hlist, hi])
      · -- the head is one that was there, so what follows it is too
        rcases hleft with hnone | ⟨i, l, i', hrem, hlist'', hsame⟩
        · have hhead := hnone head (by simp [hlist])
          rw [hsacked] at hhead
          cases hhead
        · rw [hlist] at hlist''
          cases hlist''
          have hreno := hfits hge i (by simp [hrem]) (hsame ▸ hsacked)
          rw [hrem] at hreno
          exact hreno
    · cases hmove
      exact hacc₁'
  split at hdiscard
  · cases hdiscard
    rw [resetHighestSack]
    split
    · exact { hacc₂ with }
    · exact hacc₂
  · cases hdiscard

/-! ### SACK blocks -/

/-- None of the items that a block sacks is counted as retransmitted; `begin` is where the first
item begins. -/
def SackFits (block : Nat × Nat) : Nat → List TxItem → Prop
  | _, [] => True
  | begin, i :: l =>
    if InBlock block begin i then
      (i.sacked = false → i.retrans = false) ∧ SackFits block (SequenceNumber32.add begin i.size) l
    else if Gt (SequenceNumber32.add begin i.size) block.2 then True
    else SackFits block (SequenceNumber32.add begin i.size) l

instance decidableSackFits (block : Nat × Nat) : ∀ (begin : Nat) (l : List TxItem),
    Decidable (SackFits block begin l)
  | _, [] => inferInstanceAs (Decidable True)
  | begin, i :: l =>
    have := decidableSackFits block (SequenceNumber32.add begin i.size) l
    inferInstanceAs
      (Decidable (if InBlock block begin i then (i.sacked = false → i.retrans = false) ∧
      _ else if Gt (SequenceNumber32.add begin i.size) block.2 then True else _))

/-- What a block does to the items: sizes, flags for retransmission and the condition for other
blocks stay. -/
structure Sacked (strict : Bool) (l l' : List TxItem) (s s' : Scoreboard) : Prop where
  sacked : ∀ c, s.sackedOut = c + total (·.sacked) l → s'.sackedOut = c + total (·.sacked) l'
  lost : ∀ c, s.lostOut = c + total (·.lost) l → s'.lostOut = c + total (·.lost) l'
  retrans : total (·.retrans) l' = total (·.retrans) l
  size : total (fun _ => true) l' = total (fun _ => true) l
  clean : (∀ i ∈ l, Clean strict i) → ∀ i ∈ l', Clean strict i
  fits : ∀ block begin, SackFits block begin l → SackFits block begin l'

theorem Sacked.refl (l : List TxItem) (s : Scoreboard) : Sacked strict l l s s :=
  ⟨fun _ => id, fun _ => id, rfl, rfl, id, fun _ _ => id⟩

theorem Sacked.trans {l₁ l₂ l₃ : List TxItem} {s₁ s₂ s₃ : Scoreboard}
    (h : Sacked strict l₁ l₂ s₁ s₂) (h' : Sacked strict l₂ l₃ s₂ s₃) :
    Sacked strict l₁ l₃ s₁ s₃ where
  sacked := fun c hc => h'.sacked c (h.sacked c hc)
  lost := fun c hc => h'.lost c (h.lost c hc)
  retrans := h'.retrans.trans h.retrans
  size := h'.size.trans h.size
  clean := fun hl => h'.clean (h.clean hl)
  fits := fun block begin hl => h'.fits block begin (h.fits block begin hl)

variable {s s' : Scoreboard}

theorem Sacked.cons (h : Sacked strict l l' s s') (i : TxItem) :
    Sacked strict (i :: l) (i :: l') s s' where
  sacked := by
    intro c hc
    rw [total_cons, ← Nat.add_assoc] at hc ⊢
    exact h.sacked _ hc
  lost := by
    intro c hc
    rw [total_cons, ← Nat.add_assoc] at hc ⊢
    exact h.lost _ hc
  retrans := by simp [h.retrans]
  size := by simp [h.size]
  clean := by
    intro hl
    obtain ⟨hi, hl⟩ := forall_mem_cons.1 hl
    exact forall_mem_cons.2 ⟨hi, h.clean hl⟩
  fits := by
    intro block begin hfits
    rw [SackFits] at hfits ⊢
    split at hfits
    · next hin =>
      rw [if_pos hin]
      exact ⟨hfits.1, h.fits _ _ hfits.2⟩
    · next hin =>
      rw [if_neg hin]
      split at hfits
      · next hgt => rwa [if_pos hgt]
      · next hgt =>
        rw [if_neg hgt]
        exact h.fits _ _ hfits

theorem Sacked.sack (hi : i.sacked = false) (hretrans : strict = true → i.retrans = false)
    (s : Scoreboard) (begin : Nat) :
    Sacked strict (i :: l) ({ i with lost := false, sacked := true } :: l) s (s.sack begin i) where
  sacked := by
    intro c hc
    simp [Scoreboard.sack, hi, TxItem.size] at hc ⊢
    omega
  lost := by
    intro c hc
    cases hlost : i.lost <;> simp [Scoreboard.sack, hlost, TxItem.size] at hc ⊢ <;> omega
  retrans := by simp [TxItem.size]
  size := by simp [TxItem.size]
  clean := by
    intro hl
    obtain ⟨-, hl⟩ := forall_mem_cons.1 hl
    exact forall_mem_cons.2 ⟨fun _ => ⟨rfl, hretrans⟩, hl⟩
  fits := by
    intro block begin hfits
    rw [SackFits] at hfits ⊢
    have hin : InBlock block begin { i with lost := false, sacked := true } ↔
      InBlock block begin i := Iff.rfl
    split at hfits
    · next h =>
      rw [if_pos (hin.2 h)]
      exact ⟨nofun, hfits.2⟩
    · next h =>
      rw [if_neg (hin.not.2 h)]
      exact hfits

/-- The walk of `Update` for a block. -/
theorem updateBlock_sacked {block : Nat × Nat} {begin : Nat}
    (hfits : strict = true → SackFits block begin l)
    (h : updateBlock block begin l s = some (l', s')) : Sacked strict l l' s s' := by
  induction l generalizing begin s l' with
  | nil =>
    cases h
    exact .refl _ _
  | cons i l ih =>
    rw [updateBlock] at h
    have hrest : ∀ {s : Scoreboard} {l' : List TxItem}, (InBlock block begin i ∨
        ¬ Gt (SequenceNumber32.add begin i.size) block.2) →
        updateBlock block (SequenceNumber32.add begin i.size) l s = some (l', s') →
          Sacked strict l l' s s' := by
      intro s l' hwalk h
      refine ih (fun hstrict => ?_) h
      have hall := hfits hstrict
      rw [SackFits] at hall
      split at hall
      · exact hall.2
      · next hnot => rwa [if_neg (hwalk.resolve_left hnot)] at hall
    split at h <;> [split at h <;> [split at h; skip]; split at h]
    · cases h
    · next hin _ _ =>
      obtain ⟨⟨l₁, s₁⟩, hwalk, heq⟩ := map_eq_some_iff.1 h
      cases heq
      exact (hrest (Or.inl hin) hwalk).cons i
    · next hin hunsacked =>
      obtain ⟨⟨l₁, s₁⟩, hwalk, heq⟩ := map_eq_some_iff.1 h
      cases heq
      have hi : i.sacked = false := eq_false_iff.2 hunsacked
      refine (Sacked.sack hi (fun hstrict => ?_) s begin).trans ((hrest (Or.inl hin) hwalk).cons _)
      have hall := hfits hstrict
      rw [SackFits, if_pos hin] at hall
      exact hall.1 hi
    · cases h
      exact .refl _ _
    · next hin hgt =>
      obtain ⟨⟨l₁, s₁⟩, hwalk, heq⟩ := map_eq_some_iff.1 h
      cases heq
      exact (hrest (Or.inr hgt) hwalk).cons i

variable {blocks : List (Nat × Nat)}

theorem updateBlocks_sacked {first next : Nat} {outside : Bool}
    (hfits : strict = true → ∀ block ∈ blocks.takeWhile (¬ Lt next ·.1), SackFits block first l)
    (h : updateBlocks first next blocks l s = some (l', s', outside)) :
    Sacked strict l l' s s' := by
  induction blocks generalizing l s with
  | nil =>
    cases h
    exact .refl _ _
  | cons block blocks ih =>
    rw [updateBlocks] at h
    split at h
    · cases h
      exact .refl _ _
    · next hin =>
      obtain ⟨⟨l₁, s₁⟩, hblock, h⟩ := bind_eq_some_iff.1 h
      rw [takeWhile_cons_of_pos (by simpa using hin)] at hfits
      have hfirst : Sacked strict l l₁ s s₁ :=
        updateBlock_sacked (fun hstrict => hfits hstrict block mem_cons_self) hblock
      refine hfirst.trans (ih (fun hstrict block' hblock' => ?_) h)
      exact hfirst.fits _ _ (hfits hstrict block' (mem_cons_of_mem _ hblock'))

variable (strict l) in
/-- What `UpdateLostCount` does to the items it passes. -/
theorem markLost_spec (thresh n lostOut : Nat) :
    (∀ c, lostOut = c + total (·.lost) l →
      (markLost thresh l n lostOut).2.2 = c + total (·.lost) (markLost thresh l n lostOut).1) ∧
    total (·.sacked) (markLost thresh l n lostOut).1 = total (·.sacked) l ∧
    total (·.retrans) (markLost thresh l n lostOut).1 = total (·.retrans) l ∧
    total (fun _ => true) (markLost thresh l n lostOut).1 = total (fun _ => true) l ∧
    ((∀ i ∈ l, Clean strict i) → ∀ i ∈ (markLost thresh l n lostOut).1, Clean strict i) := by
  induction l generalizing n lostOut with
  | nil => exact ⟨fun _ => id, rfl, rfl, rfl, id⟩
  | cons i l ih =>
    rw [markLost]
    dsimp only
    generalize (if i.sacked = true then n + 1 else n) = m
    split
    · next hmark =>
      obtain ⟨h1, h2, h3, h4, h5⟩ := ih m (lostOut + i.size)
      have hsacked : i.sacked = false := eq_false_iff.2 hmark.2.1
      have hlost : i.lost = false := eq_false_iff.2 hmark.2.2
      have hsize : ({ i with lost := true } : TxItem).size = i.size := rfl
      refine ⟨fun c hc => ?_, ?_, ?_, ?_, fun hl => ?_⟩
      · have hkeep := h1 (c + i.size) (by simp [hlost] at hc; omega)
        rw [hkeep, total_cons, if_pos rfl, hsize]
        omega
      · rw [total_cons, total_cons, h2, hsize]
      · rw [total_cons, total_cons, h3, hsize]
      · rw [total_cons, total_cons, h4, hsize]
      · refine forall_mem_cons.2 ⟨?_, h5 (forall_mem_cons.1 hl).2⟩
        intro hs
        rw [hsacked] at hs
        cases hs
    · obtain ⟨h1, h2, h3, h4, h5⟩ := ih m lostOut
      refine ⟨fun c hc => ?_, by simp [h2], by simp [h3], by simp [h4], fun hl => ?_⟩
      · rw [total_cons, ← Nat.add_assoc] at hc ⊢
        exact h1 _ hc
      · obtain ⟨hi, hl⟩ := forall_mem_cons.1 hl
        exact forall_mem_cons.2 ⟨hi, h5 hl⟩

/-- `UpdateLostCount` keeps the accounts, unless it marks a head that is sacked. -/
theorem Accounts.updateLostCount (h : Accounts strict b) (hupdate : b.updateLostCount = some b')
    (hhead : ∃ head ∈ b'.sentList.head?, ¬ head.sacked = true) : Accounts strict b' := by
  rw [TxBuffer.updateLostCount] at hupdate
  split at hupdate <;> [skip; cases hupdate]
  next head rest i hlist _ =>
  have hmark := markLost_spec (rest.take i).reverse strict b.dupAckThresh 0 b.lostOut
  generalize markLost b.dupAckThresh (rest.take i).reverse 0 b.lostOut = r at *
  obtain ⟨marked, sacked, lostOut⟩ := r
  dsimp only at hupdate hmark
  obtain ⟨h1, h2, h3, h4, h5⟩ := hmark
  have hrest : ∀ flag, total flag rest = total flag (rest.take i) + total flag (rest.drop i) := by
    intro flag
    rw [← total_append, take_append_drop]
  have hlostOut : lostOut = (if head.lost then head.size else 0) + total (·.lost)
    (marked.reverse ++ rest.drop i) := by
    have hkeep := h1 ((if head.lost then head.size else 0) + total (·.lost) (rest.drop i)) (by
      rw [h.lost, hlist, total_cons, hrest, total_reverse]
      omega)
    rw [hkeep, total_append, total_reverse]
    omega
  have hclean : ∀ j ∈ marked.reverse ++ rest.drop i, Clean strict j := by
    intro j hj
    rcases mem_append.1 hj with hj | hj
    · refine h5 (fun k hk => h.clean k ?_) j (mem_reverse.1 hj)
      rw [hlist]
      exact mem_cons_of_mem _ (mem_of_mem_take (mem_reverse.1 hk))
    · refine h.clean j ?_
      rw [hlist]
      exact mem_cons_of_mem _ (mem_of_mem_drop hj)
  have hsacked : total (·.sacked) (marked.reverse ++ rest.drop i) = total (·.sacked) rest := by
    rw [total_append, total_reverse, h2, total_reverse, ← hrest]
  have hretrans : total (·.retrans) (marked.reverse ++ rest.drop i) = total (·.retrans) rest := by
    rw [total_append, total_reverse, h3, total_reverse, ← hrest]
  have hsize : total (fun _ => true) (marked.reverse ++ rest.drop i) =
    total (fun _ => true) rest := by
    rw [total_append, total_reverse, h4, total_reverse, ← hrest]
  split at hupdate
  · next hmarks =>
    cases hupdate
    have hunsacked : ¬ head.sacked = true := by simpa using hhead
    refine ⟨?_, ?_, ?_, ?_, ?_, h.app⟩
    · rw [h.sacked, hlist, total_cons, total_cons, hsacked]
      rfl
    · rw [hlostOut, total_cons, if_neg hmarks.2, if_pos rfl, Nat.zero_add, Nat.add_comm]
      rfl
    · rw [h.retrans, hlist, total_cons, total_cons, hretrans]
      rfl
    · rw [h.sentSize, hlist, total_cons, total_cons, hsize]
      rfl
    · exact forall_mem_cons.2 ⟨fun hs => absurd hs hunsacked, hclean⟩
  · cases hupdate
    refine ⟨?_, ?_, ?_, ?_, ?_, h.app⟩
    · rw [h.sacked, hlist, total_cons, total_cons, hsacked]
    · rw [hlostOut, total_cons]
    · rw [h.retrans, hlist, total_cons, total_cons, hretrans]
    · rw [h.sentSize, hlist, total_cons, total_cons, hsize]
    · exact forall_mem_cons.2 ⟨h.clean head (by simp [hlist]), hclean⟩

theorem Accounts.updateBlocks (h : Accounts strict b) {l' : List TxItem} {s : Scoreboard}
    {outside : Bool} (hfits : strict = true → ∀ block ∈ blocks.takeWhile (¬ Lt b.nextSequence ·.1),
      SackFits block b.firstByteSeq b.sentList)
    (hblocks : TxBuffer.updateBlocks b.firstByteSeq b.nextSequence blocks b.sentList
      ⟨b.lostOut, b.sackedOut, 0, b.highestSack⟩ = some (l', s, outside)) :
    Accounts strict { b with
      sentList := l', lostOut := s.lostOut, sackedOut := s.sackedOut, highestSack :=
        s.highestSack } := by
  have hsacked := updateBlocks_sacked hfits hblocks
  refine ⟨?_, ?_, h.retrans.trans hsacked.retrans.symm, h.sentSize.trans hsacked.size.symm,
    hsacked.clean h.clean, h.app⟩
  · simpa using hsacked.sacked 0 (by simpa using h.sacked)
  · simpa using hsacked.lost 0 (by simpa using h.lost)

theorem Accounts.update (h : Accounts strict b)
    (hfits : strict = true → ∀ block ∈ blocks.takeWhile (¬ Lt b.nextSequence ·.1),
      SackFits block b.firstByteSeq b.sentList) (hupdate : b.update blocks = some b') :
        Accounts strict b' := by
  obtain ⟨⟨b₀, n⟩, hreturn, rfl⟩ := map_eq_some_iff.1 hupdate
  obtain ⟨⟨sentList, s, outside⟩, hblocks, hreturn⟩ := bind_eq_some_iff.1 hreturn
  have hacc := h.updateBlocks hfits hblocks
  dsimp only at hreturn
  split at hreturn
  · cases hreturn
    exact hacc
  · obtain ⟨b₁, hlost, hreturn⟩ := bind_eq_some_iff.1 hreturn
    split at hreturn <;> [skip; cases hreturn]
    next hhead =>
    cases hreturn
    split at hlost
    · exact hacc.updateLostCount hlost hhead.1
    · cases hlost
      exact hacc

/-! ### Calls that set flags -/

theorem total_map_false {g : TxItem → TxItem} (hg : ∀ i, flag (g i) = false) :
    total flag (l.map g) = 0 := by
  refine total_eq_zero fun i hi => ?_
  obtain ⟨j, -, rfl⟩ := mem_map.1 hi
  exact hg j

section
variable (h : Accounts strict b)
include h

theorem Accounts.setSentListLost {resetSack : Bool}
    (hset : b.setSentListLost resetSack = some b') : Accounts strict b' := by
  obtain ⟨-, heq⟩ := ite_none_right_eq_some.1 hset
  obtain rfl := some.inj heq
  split
  · refine ⟨(total_map_false fun _ => rfl).symm, ?_, (total_map_false fun _ => rfl).symm, ?_,
      fun i hi => ?_, h.app⟩
    · exact total_map h.sentSize fun _ => rfl
    · exact total_map h.sentSize fun _ => rfl
    · obtain ⟨j, -, rfl⟩ := mem_map.1 hi
      exact nofun
  · refine ⟨?_, ?_, (total_map_false fun _ => rfl).symm, ?_, fun i hi => ?_, h.app⟩
    · exact total_map h.sacked fun _ => rfl
    · exact total_map rfl fun _ => rfl
    · exact total_map h.sentSize fun _ => rfl
    · obtain ⟨j, hj, rfl⟩ := mem_map.1 hi
      intro hs
      have hsacked : j.sacked = true := hs
      have hlost := (h.clean j hj hsacked).1
      exact ⟨by simp [hlost, hsacked], fun _ => rfl⟩

theorem Accounts.resetSentList : Accounts strict b.resetSentList where
  sacked := rfl
  lost := rfl
  retrans := rfl
  sentSize := rfl
  clean := nofun
  app := by
    intro i hi
    rcases mem_append.1 hi with hi | hi
    · obtain ⟨j, -, rfl⟩ := mem_map.1 hi
      exact ⟨rfl, rfl, rfl⟩
    · exact h.app i hi

theorem Accounts.resetLastSegmentSent (hplain : ∀ i ∈ b.sentList.getLast?, Plain i) :
    Accounts strict b.resetLastSegmentSent := by
  rw [TxBuffer.resetLastSegmentSent]
  split
  · exact h
  · next item hlast =>
    have hlist : b.sentList = b.sentList.dropLast ++ [item] :=
      (dropLast_append_getLast? item hlast).symm
    obtain ⟨hs, hl, hr⟩ := hplain item hlast
    have htotal : ∀ flag, total flag b.sentList = total flag b.sentList.dropLast + if flag item then
      item.size else 0 := by
      intro flag
      conv => lhs; rw [hlist]
      simp
    refine ⟨?_, ?_, ?_, ?_, fun i hi => ?_, fun i hi => ?_⟩
    · simp [h.sacked, htotal, hs]
    · simp [h.lost, htotal, hl]
    · simp [h.retrans, htotal, hr]
    · simp [h.sentSize, htotal]
    · exact h.clean i (dropLast_subset _ hi)
    · rcases mem_cons.1 hi with rfl | hi
      · exact ⟨hs, hl, hr⟩
      · exact h.app i hi

theorem Accounts.deleteRetransmittedFlagFromHead
    (hdelete : b.deleteRetransmittedFlagFromHead = some b') : Accounts strict b' := by
  rw [TxBuffer.deleteRetransmittedFlagFromHead] at hdelete
  split at hdelete
  · cases hdelete
    exact h
  split at hdelete
  · cases hdelete
  · next head rest hlist =>
    cases hdelete
    refine ⟨?_, ?_, ?_, ?_, fun i hi => ?_, h.app⟩
    · simp [h.sacked, hlist, TxItem.size]
    · simp [h.lost, hlist, TxItem.size]
    · cases hr : head.retrans <;> simp [h.retrans, hlist, hr]
    · simp [h.sentSize, hlist, TxItem.size]
    · rcases mem_cons.1 hi with rfl | hi
      · have hhead := h.clean head (by simp [hlist])
        exact fun hs => ⟨(hhead hs).1, fun _ => rfl⟩
      · exact h.clean i (by simp [hlist, hi])

theorem Accounts.resetRenoSack : Accounts strict b.resetRenoSack where
  sacked := (total_map_false fun _ => rfl).symm
  lost := total_map h.lost fun _ => rfl
  retrans := total_map h.retrans fun _ => rfl
  sentSize := total_map h.sentSize fun _ => rfl
  clean := by
    intro i hi
    obtain ⟨j, -, rfl⟩ := mem_map.1 hi
    exact nofun
  app := h.app

end

/-! ## Runs -/

/-- The calls that do not give an item flags that exclude each other, and take no item with a flag
back. -/
def Fits (strict : Bool) (b : TxBuffer) : TxCall → Prop
  | .update blocks => strict = true → ∀ block ∈ blocks.takeWhile (¬ Lt b.nextSequence ·.1),
      SackFits block b.firstByteSeq b.sentList
  | .discardUpTo _ seq => DiscardFits strict b seq
  | .addRenoSack => RenoFits strict b.sentList
  | .resetLastSegmentSent => ∀ i ∈ b.sentList.getLast?, Plain i
  | _ => True

instance (strict : Bool) (b : TxBuffer) : ∀ c, Decidable (Fits strict b c)
  | .update _ => inferInstanceAs (Decidable (_ → _))
  | .discardUpTo _ seq => inferInstanceAs (Decidable (DiscardFits strict b seq))
  | .addRenoSack => inferInstanceAs (Decidable (RenoFits strict b.sentList))
  | .resetLastSegmentSent => inferInstanceAs (Decidable (∀ _ ∈ _, _))
  | .add _ | .copyFromSequence .. | .setSentListLost _ | .resetSentList | .markHeadAsLost
  | .deleteRetransmittedFlagFromHead | .resetRenoSack => inferInstanceAs (Decidable True)

theorem Accounts.step {c : TxCall} (h : Accounts strict b) (hfits : Fits strict b c)
    (hstep : b.Step c b') : Accounts strict b' := by
  obtain ⟨calls, hcall⟩ := hstep
  cases c with
  | add p =>
    cases hcall
    exact h.add p
  | copyFromSequence now numBytes seq =>
    obtain ⟨⟨b₁, r⟩, hcopy, rfl⟩ := map_eq_some_iff.1 hcall
    exact h.copyFromSequence hcopy
  | update blocks => exact h.update hfits hcall
  | discardUpTo now seq => exact h.discardUpTo hfits hcall
  | setSentListLost resetSack => exact h.setSentListLost hcall
  | resetSentList =>
    cases hcall
    exact h.resetSentList
  | resetLastSegmentSent =>
    cases hcall
    exact h.resetLastSegmentSent hfits
  | markHeadAsLost =>
    cases hcall
    exact h.markHeadAsLost
  | deleteRetransmittedFlagFromHead => exact h.deleteRetransmittedFlagFromHead hcall
  | addRenoSack => exact h.addRenoSack hfits hcall
  | resetRenoSack =>
    cases hcall
    exact h.resetRenoSack

theorem Accounts.new (strict : Bool) (head maxBuffer dupAckThresh : Nat) (sackEnabled : Bool) :
    Accounts strict (new head maxBuffer dupAckThresh sackEnabled) :=
  ⟨rfl, rfl, rfl, rfl, nofun, nofun⟩

variable {head maxBuffer dupAckThresh : Nat} {sackEnabled : Bool}

theorem Accounts.run
    (hrun : Run Step (Fits strict) (TxBuffer.new head maxBuffer dupAckThresh sackEnabled) b) :
    Accounts strict b :=
  Run.invariant (I := Accounts strict) (fun h hfits hstep => h.step hfits hstep) (.new ..) hrun

theorem total_split (hl : ∀ i ∈ l, Clean strict i) :
    total (fun _ => true) l = total (·.sacked) l + total (·.lost) l + total
      (fun i => !i.sacked && !i.lost) l := by
  induction l with
  | nil => rfl
  | cons i l ih =>
    obtain ⟨hi, hl⟩ := forall_mem_cons.1 hl
    have hrest := ih hl
    simp only [total_cons, if_true]
    cases hs : i.sacked with
    | true =>
      simp [(hi hs).1]
      omega
    | false => cases i.lost <;> simp <;> omega

theorem Accounts.out_le (h : Accounts strict b) : b.sackedOut + b.lostOut ≤ b.sentSize := by
  rw [h.sacked, h.lost, h.sentSize, total_split h.clean]
  exact Nat.le_add_right _ _

/-- In every run of calls that return, of which none gives an item flags that exclude each other or
takes an item with a flag back, the counters of the scoreboard are right. -/
theorem counters_of_run
    (hrun : Lts.Run Step (Fits false) (TxBuffer.new head maxBuffer dupAckThresh sackEnabled) b) :
    b.sackedOut = total (·.sacked) b.sentList ∧ b.lostOut = total (·.lost) b.sentList ∧
      b.retrans = total (·.retrans) b.sentList ∧ b.sackedOut + b.lostOut ≤ b.sentSize :=
  have hacc := Accounts.run hrun
  ⟨hacc.sacked, hacc.lost, hacc.retrans, hacc.out_le⟩

/-- Segments are sacked, sent again and discarded, and one that has no flags is taken back. -/
theorem counters_of_run_example : ∃ b : TxBuffer, b.sackedOut = total (·.sacked) b.sentList ∧
    b.lostOut = total (·.lost) b.sentList ∧ b.retrans = total (·.retrans) b.sentList ∧
    b.sackedOut + b.lostOut ≤ b.sentSize ∧ b.sackedOut = 30 ∧ b.lostOut = 17 ∧ b.retrans = 2 := by
  have hexec : (execs (Fits false) (call? 5) (TxBuffer.new 0 65536 3 true)
      [.add (replicate 70 7), .copyFromSequence 0 10 0, .copyFromSequence 0 10 10,
      .copyFromSequence 0 10 20,
        .copyFromSequence 0 10 30, .copyFromSequence 0 10 40, .update [(20, 50)],
        .copyFromSequence 0 5 0,
        .discardUpTo 0 3, .copyFromSequence 0 10 50, .resetLastSegmentSent]).map
      (fun b => (b.sackedOut, b.lostOut, b.retrans)) = some (30, 17, 2) := by
    decide +kernel
  obtain ⟨b, hb, hm⟩ := map_eq_some_iff.1 hexec
  obtain ⟨hsacked, hm⟩ := Prod.mk.inj hm
  obtain ⟨hlost, hretrans⟩ := Prod.mk.inj hm
  have hrun := run_of_execs (fun h => (⟨5, h⟩ : Step _ _ _)) hb
  obtain ⟨h1, h2, h3, h4⟩ := counters_of_run hrun
  exact ⟨b, h1, h2, h3, h4, hsacked, hlost, hretrans⟩

/-- A Reno SACK of a segment that is lost counts it twice, and a segment that is lost and taken back
is still counted as lost. -/
theorem counters_fail :
    (∃ b, Lts.Run Step Lts.anyStep (TxBuffer.new 0 65536 3 false) b ∧
      ¬ b.sackedOut + b.lostOut ≤ b.sentSize) ∧
    ∃ b, Lts.Run Step Lts.anyStep (TxBuffer.new 0 65536 3 true) b ∧
      b.lostOut ≠ total (·.lost) b.sentList := by
  have hstep : ∀ {b c b'}, call? 5 b c = some b' → Step b c b' := fun h => ⟨5, h⟩
  constructor
  · have hexec : (execs anyStep (call? 5) (TxBuffer.new 0 65536 3 false)
        [.add (replicate 10 7), .add (replicate 10 7), .copyFromSequence 0 10 0,
        .copyFromSequence 0 10 10,
          .setSentListLost true, .addRenoSack]).map (fun b =>
          (b.sackedOut + b.lostOut, b.sentSize)) = some (30, 20) := by
      decide +kernel
    obtain ⟨b, hb, hm⟩ := map_eq_some_iff.1 hexec
    obtain ⟨hout, hsize⟩ := Prod.mk.inj hm
    exact ⟨b, run_of_execs hstep hb, by simp [hout, hsize]⟩
  · have hexec : (execs anyStep (call? 5) (TxBuffer.new 0 65536 3 true)
        [.add (replicate 20 7), .copyFromSequence 0 10 0, .copyFromSequence 0 10 10,
        .setSentListLost true,
          .resetLastSegmentSent]).map (fun b => (b.lostOut, total (·.lost) b.sentList)) = some (20,
          10) := by
      decide +kernel
    obtain ⟨b, hb, hm⟩ := map_eq_some_iff.1 hexec
    obtain ⟨hlost, htotal⟩ := Prod.mk.inj hm
    exact ⟨b, run_of_execs hstep hb, by simp [hlost, htotal]⟩

/-! ## The bytes in flight -/

/-- The pipe: bytes that are not sacked count when they are not lost, and once more when they were
sent again. -/
def pipe (l : List TxItem) : Nat :=
  total (fun i => !i.sacked && !i.lost) l + total (fun i => !i.sacked && i.retrans) l

theorem Accounts.bytesInFlight (h : Accounts true b) :
    b.bytesInFlight = some (pipe b.sentList) := by
  have hsplit := total_split h.clean
  rw [← h.sentSize, ← h.sacked, ← h.lost] at hsplit
  have hle := h.out_le
  have hretrans : total (·.retrans) b.sentList = total (fun i => !i.sacked && i.retrans)
    b.sentList := by
    refine total_congr fun i hi => ?_
    cases hs : i.sacked with
    | true => simp [(h.clean i hi hs).2 rfl]
    | false => simp
  rw [TxBuffer.bytesInFlight, if_pos hle, h.retrans, hretrans, pipe]
  congr 2
  omega

/-- In every run of calls that return, of which none sacks an item that is lost or is counted as
retransmitted, the bytes in flight are the pipe. -/
theorem bytesInFlight_of_run
    (hrun : Lts.Run Step (Fits true) (TxBuffer.new head maxBuffer dupAckThresh sackEnabled) b) :
    b.bytesInFlight = some (pipe b.sentList) :=
  (Accounts.run hrun).bytesInFlight

/-- Two segments are lost, and the first of them is sent again. -/
theorem bytesInFlight_of_run_example : ∃ b : TxBuffer, b.bytesInFlight = some (pipe b.sentList) ∧
    pipe b.sentList = 20 ∧ b.sackedOut = 30 := by
  have hexec : (execs (Fits true) (call? 5) (TxBuffer.new 0 65536 3 true)
      [.add (replicate 70 7), .copyFromSequence 0 10 0, .copyFromSequence 0 10 10,
      .copyFromSequence 0 10 20,
        .copyFromSequence 0 10 30, .copyFromSequence 0 10 40, .update [(20, 50)],
        .copyFromSequence 0 10 0,
        .copyFromSequence 0 10 50]).map (fun b => (pipe b.sentList, b.sackedOut)) = some (20,
          30) := by
    decide +kernel
  obtain ⟨b, hb, hm⟩ := map_eq_some_iff.1 hexec
  obtain ⟨hpipe, hsacked⟩ := Prod.mk.inj hm
  have hrun := run_of_execs (fun h => (⟨5, h⟩ : Step _ _ _)) hb
  exact ⟨b, bytesInFlight_of_run hrun, hpipe, hsacked⟩

/-- The calls of a sender that gets SACKs. -/
def sackCall : TxCall → Bool
  | .add _ => true
  | .copyFromSequence .. => true
  | .update _ => true
  | .discardUpTo .. => true
  | _ => false

/-- A segment that was lost and sent again, and is then sacked, is still in flight for the counters.
-/
theorem bytesInFlight_fails :
    ∃ b, Lts.Run Step (fun _ c => sackCall c = true) (TxBuffer.new 0 65536 3 true) b ∧
    b.bytesInFlight = some 10 ∧ pipe b.sentList = 0 := by
  have hexec : (execs (fun _ c => sackCall c = true) (call? 5) (TxBuffer.new 0 65536 3 true)
      [.add (replicate 50 7), .copyFromSequence 0 10 0, .copyFromSequence 0 10 10,
      .copyFromSequence 0 10 20,
        .copyFromSequence 0 10 30, .copyFromSequence 0 10 40, .update [(20, 50)],
        .copyFromSequence 0 10 10,
        .update [(10, 20)]]).map (fun b => (b.bytesInFlight, pipe b.sentList)) = some (some 10,
          0) := by
    decide +kernel
  obtain ⟨b, hb, hm⟩ := map_eq_some_iff.1 hexec
  obtain ⟨hflight, hpipe⟩ := Prod.mk.inj hm
  exact ⟨b, run_of_execs (fun h => (⟨5, h⟩ : Step _ _ _)) hb, hflight, hpipe⟩

end TxBuffer

end OranNs3.Tcp
