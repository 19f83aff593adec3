import OranNs3.Lib.Fuel
import OranNs3.Tcp.TxScoreboard

/-!
# The stream of the transmit buffer

In runs of `Add`, `CopyFromSequence`, `DiscardUpTo` and `ResetSentList` the packets of the two lists
are the bytes that the application added and that were not discarded (`Right`), and a segment that
is asked for has the bytes at its sequence number. Items of the sent list have the sequence numbers
of their places (`Chain`), counted from the head.

The branch of `CopyFromSequence` for a segment that was sent in part compares sequence numbers as
plain numbers. Where the end of what is asked for has a smaller one than its begin, the source uses
a null pointer (`Inv.copyFromSequence_wrapped`).
-/

namespace OranNs3.Tcp

open SequenceNumber32 TxBuffer Fuel List Lts Option

variable {head k n m a nextId : Nat} {first : Option Nat} {i j : TxItem}
  {l l' pre post : List TxItem} {r r' : Nat}

/-! ## Fuel -/

theorem getPacketFromList_mono : Mono fun calls =>
    getPacketFromList first a n k calls l r nextId := by
  intro calls
  dsimp only
  induction calls generalizing l r nextId with
  | zero => exact .none _
  | succ calls ih =>
    rw [getPacketFromList, getPacketFromList]
    refine Leq.bind (.refl _) fun o => ?_
    cases o with
    | found => exact .refl _
    | again => exact ih

variable {b b' : TxBuffer} {now : Nat}

theorem copyFromSequence_mono : Mono fun calls => copyFromSequence now calls b n k := by
  intro calls
  dsimp only
  induction calls generalizing n with
  | zero => exact .none _
  | succ calls ih =>
    rw [copyFromSequence, copyFromSequence]
    dsimp only
    have hold : ∀ n,
      Leq (b.getTransmittedSegment calls n k) (b.getTransmittedSegment (calls + 1) n k) := by
      intro n
      rw [getTransmittedSegment, getTransmittedSegment]
      exact .ite ((getPacketFromList_mono calls).map _) (.refl _)
    have hnew : ∀ n, Leq (b.getNewSegment calls n) (b.getNewSegment (calls + 1) n) := fun n =>
      (getPacketFromList_mono calls).map _
    exact .ite (.refl _) (.ite (.refl _) (.ite ((hold _).bind fun _ => .refl _)
      (.ite (.ite ((hnew _).bind fun _ => .refl _) (.refl _)) (.ite ih (.refl _)))))

theorem discardLoop_mono (calls rounds : Nat) :
    Leq (discardLoop now calls rounds b n) (discardLoop now (calls + 1) (rounds + 1) b n) := by
  induction rounds generalizing b n with
  | zero => exact .none _
  | succ rounds ih =>
    rw [discardLoop, discardLoop]
    have hfill : Leq (b.fillSentList now calls n) (b.fillSentList now (calls + 1) n) := by
      rw [fillSentList, fillSentList]
      split
      · exact (copyFromSequence_mono calls).bind fun _ => .refl _
      · exact .refl _
    exact .ite (hfill.bind fun _ => Leq.bind (.refl _) fun _ => ih) (.refl _)

theorem call_mono (c : TxCall) : Mono fun calls => call? calls b c := by
  intro calls
  cases c with
  | copyFromSequence => exact (copyFromSequence_mono calls).map _
  | discardUpTo now seq =>
    change Leq (b.discardUpTo now calls seq) (b.discardUpTo now (calls + 1) seq)
    rw [discardUpTo, discardUpTo]
    exact .ite (.refl _) ((discardLoop_mono calls calls).bind fun _ => .refl _)
  | _ => exact .refl _

/-! ## Bytes and places -/

/-- The bytes of the packets of a list. -/
def bytes (l : List TxItem) : List UInt8 := l.flatMap TxItem.packet

@[simp] theorem bytes_nil : bytes [] = [] := rfl

@[simp] theorem bytes_cons : bytes (i :: l) = i.packet ++ bytes l := rfl

@[simp] theorem bytes_append : bytes (l ++ l') = bytes l ++ bytes l' := flatMap_append

theorem total_bytes : total (fun _ => true) l = (bytes l).length := by
  induction l with
  | nil => rfl
  | cons i l ih => simp [ih, TxItem.size]

/-- An item that has bytes, and no flag that would keep it from being merged. -/
def Whole (i : TxItem) : Prop := 0 < i.size ∧ i.sacked = false ∧ i.lost = false

/-- The items of a list that begins `k` bytes after the head; in the sent list, where the head is
given as `first`, they have the sequence numbers of their places. -/
def Chain (first : Option Nat) (head : Nat) : Nat → List TxItem → Prop
  | _, [] => True
  | k, i :: l => (∀ f ∈ first, f = head ∧ i.startSeq = seq head k) ∧ Whole i ∧
      Chain first head (k + i.size) l

theorem Chain.whole (h : Chain first head k l) : ∀ i ∈ l, Whole i := by
  induction l generalizing k with
  | nil => exact nofun
  | cons i l ih => exact forall_mem_cons.2 ⟨h.2.1, ih h.2.2⟩

theorem chain_none : Chain none head k l ↔ ∀ i ∈ l, Whole i := by
  refine ⟨Chain.whole, fun h => ?_⟩
  induction l generalizing k with
  | nil => trivial
  | cons i l ih =>
    obtain ⟨hi, hl⟩ := forall_mem_cons.1 h
    exact ⟨nofun, hi, ih hl⟩

theorem chain_append :
    Chain first head k (l ++ l') ↔ Chain first head k l ∧
      Chain first head (k + (bytes l).length) l' := by
  induction l generalizing k with
  | nil => simp [Chain]
  | cons i l ih => simp [Chain, ih, TxItem.size, add_assoc, and_assoc]

theorem Chain.rebase (h : Chain (some head) head (m + k) l) :
    Chain (some (seq head m)) (seq head m) k l := by
  induction l generalizing k with
  | nil => trivial
  | cons i l ih =>
    obtain ⟨hstart, hi, hl⟩ := h
    refine ⟨fun f hf => ⟨?_, ?_⟩, hi, ih (by rwa [add_assoc] at hl)⟩
    · exact (mem_some_iff.1 hf).symm
    · rw [(hstart head rfl).2]
      simp only [seq]
      omega

theorem exists_item (h : k < (bytes l).length) :
    ∃ pre i post, l = pre ++ i :: post ∧ (bytes pre).length ≤ k ∧
      k < (bytes pre).length + i.size := by
  induction l generalizing k with
  | nil => exact absurd h (Nat.not_lt_zero _)
  | cons i l ih =>
    by_cases hi : k < i.size
    · exact ⟨[], i, l, rfl, Nat.zero_le _, by simpa using hi⟩
    · have hk : k - i.size < (bytes l).length := by
        rw [bytes_cons, length_append] at h
        simp only [TxItem.size] at hi ⊢
        omega
      obtain ⟨pre, j, post, rfl, hle, hlt⟩ := ih hk
      refine ⟨i :: pre, j, post, rfl, ?_, ?_⟩
      · simp only [bytes_cons, length_append, TxItem.size] at hi ⊢ hle
        omega
      · simp only [bytes_cons, length_append, TxItem.size] at hi ⊢ hlt
        omega

/-! ## Searching -/

/-- What a walk finds after other items. -/
def Pass.after (pre : List TxItem) (o : Pass) : Pass := pre.foldr Pass.cons o

theorem Pass.after_found {pre' : List TxItem} :
    (Pass.found pre' i post r nextId).after pre = .found (pre ++ pre') i post r nextId := by
  induction pre with
  | nil => rfl
  | cons j pre ih => rw [after, foldr_cons, ← after, ih, cons, cons_append]

theorem Pass.after_again : (Pass.again l r nextId).after pre = .again (pre ++ l) r nextId := by
  induction pre with
  | nil => rfl
  | cons j pre ih => rw [after, foldr_cons, ← after, ih, cons, cons_append]

/-- The check of the source on an item of the sent list. -/
theorem Chain.ge (h : ∀ f ∈ first, f = head ∧ i.startSeq = seq head k) (hhead : head < 2 ^ 32)
    (hk : k < 2 ^ 31) : ∀ f ∈ first, Ge i.startSeq f := by
  intro f hf
  obtain ⟨rfl, hstart⟩ := h f hf
  have hge : Ge (seq f k) (seq f 0) := (ge_seq (by omega) (by omega)).2 (Nat.zero_le k)
  rwa [show seq f 0 = f from Nat.mod_eq_of_lt hhead, ← hstart] at hge

variable (nextId) in
theorem pass_after (hhead : head < 2 ^ 32) (h : Chain first head a pre)
    (hk : a + (bytes pre).length ≤ k) (hlt : k < 2 ^ 31) :
    pass first n (seq head k) r nextId (seq head a) (pre ++ l) =
      (pass first n (seq head k) r nextId (seq head (a + (bytes pre).length)) l).map
      (.after pre) := by
  induction pre generalizing a with
  | nil =>
    have hafter : Pass.after [] = id := rfl
    simp [hafter]
  | cons i pre ih =>
    obtain ⟨hstart, -, hpre⟩ := h
    have hsize : a + (bytes (i :: pre)).length = a + i.size + (bytes pre).length := by
      simp [TxItem.size, add_assoc]
    rw [hsize] at hk ⊢
    have hnot : ¬ Lt (seq head k) (add (seq head a) i.size) := by
      rw [add_seq, lt_seq (by omega) (by omega)]
      omega
    rw [cons_append, pass.eq_def]
    dsimp only
    rw [if_pos (Chain.ge hstart hhead (by omega)), if_neg hnot, add_seq, ih hpre hk, Option.map_map]
    rfl

theorem mergeItems_whole (hi : Whole i) (hj : Whole j) (r : Nat) :
    ∃ t r', mergeItems i j r = some (t, r') ∧
    t.packet = i.packet ++ j.packet ∧ t.startSeq = i.startSeq ∧ Whole t := by
  have hsame : i.sacked = j.sacked ∧ i.lost = j.lost :=
    ⟨hi.2.1.trans hj.2.1.symm, hi.2.2.trans hj.2.2.symm⟩
  rw [mergeItems, if_pos hsame]
  refine ⟨_, _, rfl, rfl, rfl, ?_, hi.2⟩
  have hpos := hi.1
  simp only [TxItem.size, length_append] at hpos ⊢
  omega

theorem splitItems_whole (hi : Whole i) (hn : 0 < n) (hlt : n < i.size) : ∃ t1 t2,
    splitItems m i n = some (t1, t2) ∧ t1.packet = i.packet.take n ∧ t2.packet = i.packet.drop n ∧
      t1.startSeq = i.startSeq ∧ t2.startSeq = add i.startSeq n ∧ Whole t1 ∧ Whole t2 := by
  have hcreate : createFragment i.packet 0 n = some (i.packet.take n) := by
    rw [createFragment, if_pos (by simp only [TxItem.size] at hlt; omega), drop_zero]
  rw [splitItems, hcreate, map_some]
  refine ⟨_, _, rfl, rfl, rfl, rfl, rfl, ⟨?_, hi.2⟩, ⟨?_, hi.2⟩⟩
  · simp only [TxItem.size, length_take] at hlt ⊢
    omega
  · simp only [TxItem.size, length_drop] at hlt ⊢
    omega

theorem pass_at (hhead : head < 2 ^ 32) (hl : Chain first head k (i :: l))
    (hk : k + i.size < 2 ^ 31) (hn : k + n < 2 ^ 31) :
    pass first n (seq head k) r nextId (seq head k) (i :: l) = if n ≤ i.size then
        if n = i.size then some (.found [] i l r nextId)
        else (splitItems nextId i n).map fun p => .found [] p.1 (p.2 :: l) r (nextId + 1)
      else
        match l with
        | [] => some (.found [] i [] r nextId)
        | next :: l => (mergeItems i next r).map fun p => .again (p.1 :: l) p.2 nextId := by
  obtain ⟨hstart, hi, -⟩ := hl
  have hlt : Lt (seq head k) (add (seq head k) i.size) := by
    rw [add_seq, lt_seq (by omega) (by omega)]
    exact Nat.lt_add_of_pos_right hi.1
  have hle : Le (add (seq head k) n) (add (seq head k) i.size) ↔ n ≤ i.size := by
    rw [add_seq, add_seq, le_seq (by omega) (by omega)]
    omega
  rw [pass.eq_def]
  dsimp only
  rw [if_pos (Chain.ge hstart hhead (by omega)), if_pos hlt, if_pos rfl]
  simp only [hle]
  split
  · split
    · rfl
    · rw [if_pos (by omega)]
  · rfl

theorem getPacketFromList_found {m' : Nat}
    (h : pass first n k r nextId a l = some (.found pre i post r' m')) :
    Returns (fun calls => getPacketFromList first a n k calls l r nextId) (pre, i, post, r', m') :=
  .succ ((Returns.const _).congr fun calls => by rw [getPacketFromList, h]; rfl)

theorem getPacketFromList_again {m' : Nat} {o : List TxItem × TxItem × List TxItem × Nat × Nat}
    (h : pass first n k r nextId a l = some (.again l' r' m'))
    (ho : Returns (fun calls => getPacketFromList first a n k calls l' r' m') o) :
    Returns (fun calls => getPacketFromList first a n k calls l r nextId) o :=
  .succ (ho.congr fun calls => by rw [getPacketFromList, h]; rfl)

theorem getPacketFromList_within (hhead : head < 2 ^ 32) (hpre : Chain first head a pre)
    (hk : k = a + (bytes pre).length) (hl : Chain first head k (i :: l))
    (hsize : k + i.size < 2 ^ 31) (hn : 0 < n) (hle : n ≤ i.size) :
    ∃ item post r' nextId', Returns (fun calls =>
          getPacketFromList first (seq head a) n (seq head k) calls (pre ++ i :: l) r nextId) (pre,
            item, post, r', nextId') ∧
      bytes (item :: post) = bytes (i :: l) ∧ Chain first head k (item :: post) ∧
        item.size ≤ n := by
  have hpass := pass_after nextId (l := i :: l) (n := n) (r := r) hhead hpre (le_of_eq hk.symm)
    (by omega)
  rw [← hk, pass_at hhead hl hsize (by omega), if_pos hle] at hpass
  by_cases heq : n = i.size
  · rw [if_pos heq, map_some, Pass.after_found, append_nil] at hpass
    exact ⟨i, l, r, nextId, getPacketFromList_found hpass, rfl, hl, le_of_eq heq.symm⟩
  · obtain ⟨hstart, hi, hchain⟩ := hl
    obtain ⟨t1, t2, hsplit, hpacket₁, hpacket₂, hseq₁, hseq₂, ht1, ht2⟩ :=
      splitItems_whole (m := nextId) hi hn (by omega)
    have hsize₁ : t1.size = n := by
      simp only [TxItem.size] at hle ⊢
      simp [hpacket₁, hle]
    have hsize₂ : t2.size = i.size - n := by simp [TxItem.size, hpacket₂]
    rw [if_neg heq, hsplit, map_some, map_some, Pass.after_found, append_nil] at hpass
    refine ⟨t1, t2 :: l, r, nextId + 1, getPacketFromList_found hpass, ?_, ⟨?_, ht1, ?_, ht2, ?_⟩,
      le_of_eq hsize₁⟩
    · rw [bytes_cons, bytes_cons, bytes_cons, hpacket₁, hpacket₂, ← append_assoc, take_append_drop]
    · exact fun f hf => hseq₁ ▸ hstart f hf
    · intro f hf
      obtain ⟨rfl, hi⟩ := hstart f hf
      exact ⟨rfl, by rw [hseq₂, hi, add_seq, hsize₁]⟩
    · rwa [hsize₁, hsize₂, show k + n + (i.size - n) = k + i.size by omega]

variable (nextId) in
/-- `GetPacketFromList`, where an item begins at the place: it merges the item with those that
follow, until it is long enough or the last. -/
theorem getPacketFromList_at (hhead : head < 2 ^ 32) (hpre : Chain first head a pre)
    (hk : k = a + (bytes pre).length) (hl : Chain first head k (i :: l))
    (hlt : k + (bytes (i :: l)).length < 2 ^ 31) (hn : 0 < n) (hn' : k + n < 2 ^ 31) :
    ∃ item post r' nextId',
        Returns (fun calls =>
        getPacketFromList first (seq head a) n (seq head k) calls (pre ++ i :: l) r nextId) (pre,
          item, post, r', nextId') ∧
      bytes (item :: post) = bytes (i :: l) ∧ Chain first head k (item :: post) ∧
        item.size ≤ n := by
  induction l generalizing i r with
  | nil =>
    have hsize : k + i.size < 2 ^ 31 := by simpa [TxItem.size] using hlt
    by_cases hle : n ≤ i.size
    · exact getPacketFromList_within hhead hpre hk hl hsize hn hle
    · have hpass := pass_after nextId (l := [i]) (n := n) (r := r) hhead hpre (le_of_eq hk.symm)
        (by omega)
      rw [← hk, pass_at hhead hl hsize hn', if_neg hle, map_some, Pass.after_found,
        append_nil] at hpass
      exact ⟨i, [], r, nextId, getPacketFromList_found hpass, rfl, hl, by omega⟩
  | cons j l ih =>
    have hsize : k + i.size < 2 ^ 31 := by
      simp only [bytes_cons, length_append] at hlt
      simp only [TxItem.size]
      omega
    by_cases hle : n ≤ i.size
    · exact getPacketFromList_within hhead hpre hk hl hsize hn hle
    · have hpass := pass_after nextId (l := i :: j :: l) (n := n) (r := r) hhead hpre
        (le_of_eq hk.symm) (by omega)
      rw [← hk, pass_at hhead hl hsize hn', if_neg hle] at hpass
      dsimp only at hpass
      obtain ⟨hstart, hi, hstart', hj, hchain⟩ := hl
      obtain ⟨t, r₁, hmerge, hpacket, hseq, ht⟩ := mergeItems_whole hi hj r
      have hbytes : bytes (t :: l) = bytes (i :: j :: l) := by simp [hpacket]
      have hsize' : t.size = i.size + j.size := by simp [TxItem.size, hpacket]
      rw [hmerge, map_some, map_some, Pass.after_again] at hpass
      obtain ⟨item, post, r₂, m, hret, hbytes', hitem⟩ := ih (i := t) (r := r₁)
        ⟨fun f hf => hseq ▸ hstart f hf, ht, by rwa [hsize', ← add_assoc]⟩ (by rwa [hbytes])
      exact ⟨item, post, r₂, m, getPacketFromList_again hpass hret, hbytes'.trans hbytes, hitem⟩

variable (nextId) in
theorem pass_around (hhead : head < 2 ^ 32) (hl : Chain first head m (i :: l)) (hmk : m < k)
    (hk : k < m + i.size) (hsize : m + i.size < 2 ^ 31) :
    ∃ t1 t2, pass first n (seq head k) r nextId (seq head m) (i :: l) =
      some (.again (t1 :: t2 :: l) r (nextId + 1)) ∧ t1.packet ++ t2.packet = i.packet ∧
      Chain first head m (t1 :: t2 :: l) ∧ m + t1.size = k := by
  obtain ⟨hstart, hi, hchain⟩ := hl
  obtain ⟨t1, t2, hsplit, hpacket₁, hpacket₂, hseq₁, hseq₂, ht1, ht2⟩ :=
    splitItems_whole (m := nextId) (n := k - m) hi (by omega) (by omega)
  have hsize₁ : t1.size = k - m := by
    simp only [TxItem.size] at hk ⊢
    simp only [hpacket₁, length_take]
    omega
  have hsize₂ : t2.size = i.size - (k - m) := by simp [TxItem.size, hpacket₂]
  have hlt : Lt (seq head k) (add (seq head m) i.size) := by
    rw [add_seq, lt_seq (by omega) (by omega)]
    exact hk
  have hgt : Gt (seq head k) (seq head m) := (gt_seq (by omega) (by omega)).2 hmk
  have hne : seq head k ≠ seq head m := by
    rw [Ne, seq_inj (by omega) (by omega)]
    omega
  refine ⟨t1, t2, ?_, ?_, ⟨?_, ht1, ?_, ht2, ?_⟩, by omega⟩
  · rw [pass.eq_def]
    dsimp only
    rw [if_pos (Chain.ge hstart hhead (by omega)), if_pos hlt, if_neg hne, if_pos hgt,
      toUint32_sub_seq (by omega) (by omega), hsplit]
    rfl
  · rw [hpacket₁, hpacket₂, take_append_drop]
  · exact fun f hf => hseq₁ ▸ hstart f hf
  · intro f hf
    obtain ⟨rfl, hi⟩ := hstart f hf
    exact ⟨rfl, by rw [hseq₂, hi, add_seq, hsize₁]⟩
  · rwa [hsize₁, hsize₂, show m + (k - m) + (i.size - (k - m)) = m + i.size by omega]

variable (nextId) in
/-- `GetPacketFromList` finds an item at the place, or makes one. -/
theorem getPacketFromList_returns (hhead : head < 2 ^ 32) (hl : Chain first head a l) (hak : a ≤ k)
    (hk : k < a + (bytes l).length) (hlt : a + (bytes l).length < 2 ^ 31) (hn : 0 < n)
    (hn' : k + n < 2 ^ 31) :
    ∃ pre item post r' nextId',
      Returns (fun calls => getPacketFromList first (seq head a) n (seq head k) calls l r nextId)
        (pre, item, post, r', nextId') ∧
      bytes (pre ++ item :: post) = bytes l ∧ Chain first head a (pre ++ item :: post) ∧
      k = a + (bytes pre).length ∧ item.size ≤ n := by
  obtain ⟨pre, i, post, rfl, hle, hlt'⟩ := exists_item (k := k - a) (l := l) (by omega)
  obtain ⟨hpre, hpost⟩ := chain_append.1 hl
  have hlen : (bytes (pre ++ i :: post)).length =
    (bytes pre).length + (bytes (i :: post)).length := by simp
  have hlen' : (bytes (i :: post)).length = i.size + (bytes post).length := by simp [TxItem.size]
  by_cases heq : k = a + (bytes pre).length
  · rw [← heq] at hpost
    obtain ⟨item, post', r', m, hret, hbytes, hchain, hsize⟩ :=
      getPacketFromList_at nextId (n := n) (r := r) hhead hpre heq hpost (by omega) hn hn'
    refine ⟨pre, item, post', r', m, hret, ?_, chain_append.2 ⟨hpre, heq ▸ hchain⟩, heq, hsize⟩
    rw [bytes_append, hbytes, bytes_append]
  · -- the item around the place is split, and the walk repeated
    obtain ⟨t1, t2, hpass, hpacket, hchain, hsize⟩ :=
      pass_around nextId (k := k) (n := n) (r := r) hhead hpost (by omega) (by omega) (by omega)
    have hpass' := pass_after nextId (l := i :: post) (n := n) (r := r) hhead hpre (k := k)
      (by omega) (by omega)
    rw [hpass, map_some, Pass.after_again] at hpass'
    have hlen₂ : (bytes (t1 :: t2 :: post)).length = (bytes (i :: post)).length := by
      rw [bytes_cons, bytes_cons, bytes_cons, ← append_assoc, hpacket]
    have hlen₁ : (bytes (t1 :: t2 :: post)).length = t1.size + (bytes (t2 :: post)).length := by
      simp [TxItem.size]
    have hpre' : Chain first head a (pre ++ [t1]) :=
      chain_append.2 ⟨hpre, hchain.1, hchain.2.1, trivial⟩
    have hk' : k = a + (bytes (pre ++ [t1])).length := by
      simp only [bytes_append, bytes_cons, bytes_nil, append_nil, length_append]
      simp only [TxItem.size] at hsize
      omega
    obtain ⟨item, post', r', m, hret, hbytes, hchain', hsize'⟩ :=
      getPacketFromList_at (nextId + 1) (n := n) (r := r) (l := post) hhead hpre' hk'
        (hsize ▸ hchain.2.2) (by omega) hn hn'
    rw [append_assoc] at hret
    refine ⟨pre ++ [t1], item, post', r', m, getPacketFromList_again hpass' hret, ?_,
      chain_append.2 ⟨hpre', hk' ▸ hchain'⟩, hk', hsize'⟩
    rw [bytes_append, hbytes, bytes_append, bytes_append, bytes_cons, bytes_cons, bytes_cons,
      ← hpacket]
    simp

/-! ## The invariant -/

theorem retransmissionSize_le : retransmissionSize k n l ≤ n := by
  induction l with
  | nil => exact le_refl n
  | cons i l ih =>
    rw [retransmissionSize.eq_def]
    dsimp only
    split <;> [split; exact ih]
    · exact min_le_left _ _
    · split <;> exact min_le_left _ _

theorem retransmissionSize_pos (hn : 0 < n) (hl : ∀ i ∈ l, Whole i) :
    0 < retransmissionSize k n l := by
  induction l with
  | nil => exact hn
  | cons i l ih =>
    obtain ⟨hi, hl⟩ := forall_mem_cons.1 hl
    have hpos := hi.1
    rw [retransmissionSize.eq_def]
    dsimp only
    split <;> [split; exact ih hl]
    · exact Nat.lt_min.2 ⟨hn, hpos⟩
    · split
      · exact Nat.lt_min.2 ⟨hn, Nat.add_pos_left hpos _⟩
      · exact Nat.lt_min.2 ⟨hn, hpos⟩

namespace TxBuffer

/-- The buffer has the bytes of a stream from the head on. -/
structure Inv (head : Nat) (stream : List UInt8) (b : TxBuffer) : Prop where
  acc : Accounts false b
  first : b.firstByteSeq = head
  lt : head < 2 ^ 32
  sent : Chain (some head) head 0 b.sentList
  app : ∀ i ∈ b.appList, Whole i
  eq : bytes b.sentList ++ bytes b.appList = stream
  size : b.size = stream.length
  small : stream.length < 2 ^ 31

variable {stream : List UInt8}

section
variable (h : Inv head stream b)
include h

theorem Inv.sentSize : b.sentSize = (bytes b.sentList).length :=
  h.acc.sentSize.trans total_bytes

theorem Inv.length : stream.length = b.sentSize + (bytes b.appList).length := by
  rw [h.sentSize, ← h.eq, length_append]

theorem Inv.nextSequence : b.nextSequence = seq head b.sentSize := by
  rw [TxBuffer.nextSequence, h.first]
  rfl

theorem Inv.tailSequence : b.tailSequence = seq head stream.length := by
  rw [TxBuffer.tailSequence, h.first, h.size]
  rfl

theorem Inv.head_eq : b.firstByteSeq = seq head 0 :=
  h.first.trans (Nat.mod_eq_of_lt h.lt).symm

theorem Inv.sizeFromSequence (hk : k ≤ stream.length) :
    b.sizeFromSequence (seq head k) = stream.length - k := by
  have hsmall := h.small
  rw [TxBuffer.sizeFromSequence, h.tailSequence, if_pos ((ge_seq (by omega) (by omega)).2 hk),
    toUint32_sub_seq (by omega) hk]

end

variable (now) in
theorem Inv.send (h : Inv head stream b) {b₁ : TxBuffer} (hfirst : b₁.firstByteSeq = b.firstByteSeq)
    (hsize : b₁.size = b.size) (hchain : Chain (some head) head 0 (pre ++ i :: post))
    (happ : ∀ i ∈ b₁.appList, Whole i)
    (hstream : bytes (pre ++ i :: post) ++ bytes b₁.appList = stream) :
    ∃ b' item, b₁.send now pre i post = some (b', some item) ∧
      (Accounts false b' → Inv head stream b') ∧ item.startSeq = seq head (bytes pre).length ∧
      0 < item.size ∧ item.size = i.size ∧
      item.packet = slice stream ((bytes pre).length, (bytes pre).length + item.size) := by
  obtain ⟨hpre, hstart, hwhole, hpost⟩ := chain_append.1 hchain
  rw [Nat.zero_add] at hstart
  have hlen : (bytes pre).length < stream.length := by
    have hpos := hwhole.1
    simp only [TxItem.size] at hpos
    rw [← hstream]
    simp only [bytes_append, bytes_cons, length_append]
    omega
  have hge : Ge i.startSeq b₁.firstByteSeq := by
    have hsmall := h.small
    rw [(hstart head rfl).2, hfirst, h.head_eq, ge_seq (by omega) (by omega)]
    exact Nat.zero_le _
  refine ⟨_, _, if_pos hge, fun hacc => ⟨hacc, hfirst.trans h.first, h.lt, ?_, happ, ?_,
    hsize.trans h.size, h.small⟩, (hstart head rfl).2, hwhole.1, rfl, ?_⟩
  · exact chain_append.2 ⟨hpre, fun f hf => (Nat.zero_add _).symm ▸ hstart f hf, hwhole, hpost⟩
  · rw [← hstream]
    simp
  · refine eq_slice (p := bytes pre) (t := bytes post ++ bytes b₁.appList) ?_
    rw [← hstream]
    simp

theorem Inv.getTransmittedSegment (h : Inv head stream b) (hn : 0 < n) (hk : k + n ≤ b.sentSize) :
    ∃ b₁ pre item post, Returns (fun calls => b.getTransmittedSegment calls n (seq head k))
      (b₁, pre, item, post) ∧ b₁.firstByteSeq = b.firstByteSeq ∧ b₁.size = b.size ∧
        b₁.appList = b.appList ∧
      bytes (pre ++ item :: post) = bytes b.sentList ∧
        Chain (some head) head 0 (pre ++ item :: post) ∧
      k = (bytes pre).length ∧ item.size ≤ n := by
  have hsmall := h.small
  have hlength := h.length
  have hsent := h.sentSize
  obtain ⟨pre, item, post, r, m, hret, hbytes, hchain, hk', hsize⟩ :=
    getPacketFromList_returns b.nextId (n := retransmissionSize (seq head k) n b.sentList)
      (r := b.retrans) h.lt h.sent (Nat.zero_le k) (by omega) (by omega)
      (retransmissionSize_pos hn h.sent.whole) (by
        have hle : retransmissionSize (seq head k) n b.sentList ≤ n := retransmissionSize_le
        omega)
  have hcond : Ge (seq head k) b.firstByteSeq ∧ n ≤ b.sentSize ∧ b.sentList ≠ [] := by
    refine ⟨?_, by omega, fun hnil => ?_⟩
    · rw [h.head_eq, ge_seq (by omega) (by omega)]
      exact Nat.zero_le k
    · rw [hnil] at hsent
      simp at hsent
      omega
  rw [Nat.zero_add] at hk'
  have hmap := hret.map fun r =>
    (({ b with
        retrans := if r.2.1.retrans then r.2.2.2.1 else r.2.2.2.1 + r.2.1.size
        nextId := r.2.2.2.2 } : TxBuffer),
      r.1, ({ r.2.1 with retrans := true } : TxItem), r.2.2.1)
  refine ⟨_, pre, _, post, hmap.congr fun calls => ?_, rfl, rfl, rfl, ?_, ?_, hk',
    le_trans hsize retransmissionSize_le⟩
  · rw [TxBuffer.getTransmittedSegment, if_pos hcond, h.first,
      show seq head 0 = head from Nat.mod_eq_of_lt h.lt]
  · rw [← hbytes]
    simp
  · obtain ⟨hpre, hitem, hwhole, hpost⟩ := chain_append.1 hchain
    exact chain_append.2 ⟨hpre, hitem, hwhole, hpost⟩

theorem Inv.getNewSegment (h : Inv head stream b) (hn : 0 < n)
    (hlt : b.sentSize + n ≤ stream.length) :
    ∃ b₁ item, Returns (fun calls => b.getNewSegment calls n) (b₁, item) ∧
      b₁.firstByteSeq = b.firstByteSeq ∧ b₁.size = b.size ∧ (∀ i ∈ b₁.appList, Whole i) ∧
      Chain (some head) head 0 (b.sentList ++ [item]) ∧
        bytes (b.sentList ++ [item]) ++ bytes b₁.appList = stream ∧
      item.size ≤ n ∧ item.retrans = false := by
  have hsmall := h.small
  have hlength := h.length
  have hsent := h.sentSize
  obtain ⟨pre, item, post, r, m, hret, hbytes, hchain, hk, hsize⟩ :=
    getPacketFromList_returns b.nextId (a := b.sentSize) (k := b.sentSize) (n := n) (l := b.appList)
      (r := b.retrans) h.lt (chain_none.2 h.app) (le_refl _) (by omega) (by omega) hn (by omega)
  -- nothing is before the item, since every item has bytes
  have hnil : pre = [] := by
    cases pre with
    | nil => rfl
    | cons i pre =>
      have hpos := (chain_none.1 hchain i (by simp)).1
      simp only [bytes_cons, length_append, TxItem.size] at hk hpos
      omega
  subst hnil
  obtain ⟨hwhole, hpost⟩ := forall_mem_cons.1 (chain_none.1 hchain)
  have hplain : Plain item := by
    obtain ⟨calls, hget⟩ := hret.exists
    exact (getPacketFromList_accounts hget).plain h.acc.app item (by simp)
  have hmap := hret.map fun r =>
    (({ b with
        appList := r.1 ++ r.2.2.1, sentSize := b.sentSize + r.2.1.size
        retrans := r.2.2.2.1, nextId := r.2.2.2.2 } : TxBuffer),
      ({ r.2.1 with startSeq := b.nextSequence } : TxItem))
  refine ⟨_, _, hmap.congr fun calls => ?_, rfl, rfl, hpost, ?_, ?_, hsize, hplain.2.2⟩
  · rw [TxBuffer.getNewSegment, h.nextSequence]
  · refine chain_append.2 ⟨h.sent, fun f hf => ?_, hwhole, trivial⟩
    rw [Nat.zero_add, ← hsent]
    exact ⟨(mem_some_iff.1 hf).symm, h.nextSequence⟩
  · rw [← h.eq, ← hbytes]
    simp

variable {s : Nat}

/-- The branches of `CopyFromSequence`, by places. -/
theorem Inv.copyFromSequence_succ (h : Inv head stream b) (hs : s = min n (stream.length - k))
    (hpos : 0 < s) (calls : Nat) : copyFromSequence now (calls + 1) b n (seq head k) =
      if k + s ≤ b.sentSize then
        (b.getTransmittedSegment calls s (seq head k)).bind fun r =>
          if r.2.2.1.sacked then none else r.1.send now r.2.1 r.2.2.1 r.2.2.2
      else if b.sentSize ≤ k then
        if b.sentSize = k then
          (b.getNewSegment calls s).bind fun r =>
            if r.2.retrans then none else r.1.send now b.sentList r.2 []
        else none
      else if seq head b.sentSize > seq head k ∧
        seq head b.sentSize < (seq head k + s) % 2 ^ 32 then
        copyFromSequence now calls b (b.sentSize - k) (seq head k)
      else none := by
  have hsmall := h.small
  have hlength := h.length
  have hfirst : ¬ Gt b.firstByteSeq (seq head k) := by
    rw [h.head_eq, gt_seq (by omega) (by omega)]
    omega
  have hge : Ge b.nextSequence (SequenceNumber32.add (seq head k) s) ↔ k + s ≤ b.sentSize := by
    rw [h.nextSequence, add_seq, ge_seq (by omega) (by omega)]
  have hle : Le b.nextSequence (seq head k) ↔ b.sentSize ≤ k := by
    rw [h.nextSequence, le_seq (by omega) (by omega)]
  have heq : b.nextSequence = seq head k ↔ b.sentSize = k := by
    rw [h.nextSequence, seq_inj (by omega) (by omega)]
  rw [TxBuffer.copyFromSequence, if_neg hfirst, h.sizeFromSequence (by omega), ← hs]
  dsimp only
  rw [if_neg (by omega : s ≠ 0)]
  simp only [hge, hle, heq]
  split
  · rfl
  split
  · rfl
  · next hnot =>
    have hdist : (b.nextSequence + 2 ^ 32 - seq head k) % 2 ^ 32 = b.sentSize - k := by
      rw [h.nextSequence]
      simp only [seq]
      omega
    rw [hdist, h.nextSequence]

/-- `CopyFromSequence` returns some of the `n` bytes at a place. -/
def Gives (now head : Nat) (stream : List UInt8) (b : TxBuffer) (n k : Nat) : Prop :=
  ∃ b' item, Fuel.Returns (fun calls => copyFromSequence now calls b n (seq head k))
    (b', some item) ∧
    Inv head stream b' ∧ item.startSeq = seq head k ∧ 0 < item.size ∧ item.size ≤ n ∧
    item.packet = slice stream (k, k + item.size)

variable (now) in
theorem Inv.copyFromSequence_sent (h : Inv head stream b) (hpos : 0 < min n (stream.length - k))
    (hk : k + min n (stream.length - k) ≤ b.sentSize) : Gives now head stream b n k := by
  obtain ⟨b₁, pre, i, post, hret, hfirst, hsize₁, happ, hbytes, hchain, hpre, hle⟩ :=
    h.getTransmittedSegment hpos hk
  obtain ⟨b', item, hsend, hinv, hstart, hitem, hsize', hpacket⟩ := h.send now hfirst hsize₁ hchain
    (happ ▸ h.app) (by rw [hbytes, happ, h.eq])
  have hsacked : ¬ i.sacked = true := by simp [(hchain.whole i (by simp)).2.1]
  have hcopy : Returns (fun calls => copyFromSequence now calls b n (seq head k))
    (b', some item) := by
    refine .succ
      ((hret.bind (k := fun _ r =>
      if r.2.2.1.sacked then none else TxBuffer.send r.1 now r.2.1 r.2.2.1 r.2.2.2)
      ?_).congr fun calls => ?_)
    · dsimp only
      rw [if_neg hsacked, hsend]
      exact .const _
    · rw [h.copyFromSequence_succ rfl hpos, if_pos hk]
  obtain ⟨calls, hcalls⟩ := hcopy.exists
  rw [← hpre] at hstart hpacket
  exact ⟨b', item, hcopy, hinv (h.acc.copyFromSequence hcalls), hstart, hitem, by omega, hpacket⟩

variable (now) in
theorem Inv.copyFromSequence_new (h : Inv head stream b)
    (hpos : 0 < min n (stream.length - b.sentSize)) : Gives now head stream b n b.sentSize := by
  obtain ⟨b₁, i, hret, hfirst, hsize₁, happ, hchain, hbytes, hle, hretrans⟩ :=
    h.getNewSegment hpos (by omega)
  obtain ⟨b', item, hsend, hinv, hstart, hitem, hsize', hpacket⟩ :=
    h.send now hfirst hsize₁ hchain happ hbytes
  have hcopy : Returns (fun calls => copyFromSequence now calls b n (seq head b.sentSize))
    (b', some item) := by
    refine .succ
      ((hret.bind (k := fun _ r =>
      if r.2.retrans then none else TxBuffer.send r.1 now b.sentList r.2 [])
      ?_).congr fun calls => ?_)
    · dsimp only
      rw [if_neg (by simp [hretrans]), hsend]
      exact .const _
    · rw [h.copyFromSequence_succ rfl hpos, if_neg (by omega), if_pos (le_refl _), if_pos rfl]
  obtain ⟨calls, hcalls⟩ := hcopy.exists
  rw [← h.sentSize] at hstart hpacket
  exact ⟨b', item, hcopy, hinv (h.acc.copyFromSequence hcalls), hstart, hitem, by omega, hpacket⟩

variable (now) in
/-- `CopyFromSequence` gives the bytes at the place, unless what is asked for was sent in part and
the number of its end is smaller than that of its begin. -/
theorem Inv.copyFromSequence (h : Inv head stream b) (hk : k ≤ b.sentSize)
    (hpos : 0 < min n (stream.length - k))
      (hfits : k < b.sentSize → b.sentSize < k + min n (stream.length - k) →
      seq head k + min n (stream.length - k) < 2 ^ 32) :
    Gives now head stream b n k := by
  by_cases hsent : k + min n (stream.length - k) ≤ b.sentSize
  · exact h.copyFromSequence_sent now hpos hsent
  by_cases hnew : b.sentSize = k
  · subst hnew
    exact h.copyFromSequence_new now hpos
  -- the part that was sent
  have hlt : k < b.sentSize := by omega
  have hlength := h.length
  have hsum := hfits hlt (by omega)
  have hnext : seq head b.sentSize = seq head k + (b.sentSize - k) := by
    have hadd : seq head b.sentSize = (seq head k + (b.sentSize - k)) % 2 ^ 32 := by
      simp only [seq]
      omega
    rw [hadd, Nat.mod_eq_of_lt (by omega)]
  obtain ⟨b', item, hret, hinv, hstart, hitem, hle, hpacket⟩ :=
    h.copyFromSequence_sent now (n := b.sentSize - k) (k := k) (by omega) (by omega)
  refine ⟨b', item, .succ (hret.congr fun calls => ?_), hinv, hstart, hitem, by omega, hpacket⟩
  rw [h.copyFromSequence_succ rfl hpos, if_neg hsent, if_neg (by omega), if_pos]
  rw [Nat.mod_eq_of_lt hsum, hnext]
  omega

/-- Where what is asked for was sent in part, and the number of its end is smaller than that of its
begin, no branch is taken. -/
theorem Inv.copyFromSequence_wrapped (h : Inv head stream b) (hk : k < b.sentSize)
    (hpart : b.sentSize < k + min n (stream.length - k))
    (hwrap : 2 ^ 32 ≤ seq head k + min n (stream.length - k))
    (calls : Nat) : TxBuffer.copyFromSequence now calls b n (seq head k) = none := by
  cases calls with
  | zero => rfl
  | succ calls =>
    have hsmall := h.small
    have hnext : seq head b.sentSize = (seq head k + (b.sentSize - k)) % 2 ^ 32 := by
      simp only [seq]
      omega
    have hlt := seq_lt head k
    rw [h.copyFromSequence_succ rfl (by omega), if_neg (by omega), if_neg (by omega), if_neg]
    rw [hnext]
    omega

theorem mem_of_copyFromSequence {calls : Nat}
    (h : TxBuffer.copyFromSequence now calls b n k = some (b', some i)) : i ∈ b'.sentList := by
  have hsend : ∀ {b₁ : TxBuffer} {pre post : List TxItem} {j : TxItem},
      b₁.send now pre j post = some (b', some i) → i ∈ b'.sentList := by
    intro b₁ pre post j hsend
    rw [TxBuffer.send] at hsend
    split at hsend
    · cases hsend
      simp
    · cases hsend
  cases copied_of_copyFromSequence h with
  | nothing hb hr => cases hr
  | transmitted hold hi h => exact hsend h
  | new hnew h => exact hsend h

/-! ### Discarding -/

variable (now) in
theorem Inv.fillSentList (h : Inv head stream b) (hpos : 0 < b.size) (hn : 0 < n) :
    ∃ b', Returns (fun calls => b.fillSentList now calls n) b' ∧ Inv head stream b' ∧
    b'.sentList ≠ [] := by
  cases hlist : b.sentList with
  | cons i l =>
    refine ⟨b, (Returns.const b).congr fun calls => ?_, h, by simp [hlist]⟩
    rw [TxBuffer.fillSentList, hlist]
  | nil =>
    have hsent : b.sentSize = 0 := by simp [h.sentSize, hlist]
    have hsize := h.size
    obtain ⟨b', item, hret, hinv, -⟩ := h.copyFromSequence_new now (n := n) (by omega)
    rw [hsent, ← h.head_eq] at hret
    obtain ⟨calls, hcalls⟩ := hret.exists
    refine ⟨b', (hret.bind (k := fun _ r => r.2.map fun _ => r.1) (.const b')).congr
      fun calls => ?_, hinv, ne_nil_of_mem (mem_of_copyFromSequence hcalls)⟩
    rw [TxBuffer.fillSentList, hlist]

theorem Inv.removeFromCounts (h : Inv head stream b) (hlist : b.sentList = i :: l) (b₁ : TxBuffer)
    (hretrans : b₁.retrans = b.retrans) (hn : n ≤ i.size) :
    ∃ b₂, b₁.removeFromCounts i n = some b₂ := by
  obtain ⟨-, hsacked, hlost⟩ : Whole i := h.sent.whole i (by simp [hlist])
  have hcover : i.retrans = true → n ≤ b₁.retrans := by
    intro hi
    have hle : i.size ≤ b₁.retrans := by
      rw [hretrans, h.acc.retrans, hlist, total_cons, if_pos hi]
      exact Nat.le_add_right _ _
    exact le_trans hn hle
  exact ⟨_, if_pos ⟨by simp [hsacked], hcover, by simp [hlost]⟩⟩

/-- One round of the loop of `DiscardUpTo`: the head moves on. -/
theorem Inv.discardHead (h : Inv head stream b) (hlist : b.sentList ≠ []) (hn : 0 < n) :
    ∃ b' m, b.discardHead n = some (b', n - m) ∧ 0 < m ∧ m ≤ n ∧ m ≤ stream.length ∧
      Inv (seq head m) (stream.drop m) b' := by
  obtain ⟨i, l, hlist⟩ := exists_cons_of_ne_nil hlist
  have hchain := h.sent
  rw [hlist] at hchain
  obtain ⟨hstart, hwhole, hrest⟩ := hchain
  have hfirst : i.startSeq = b.firstByteSeq := by rw [(hstart head rfl).2, h.head_eq]
  have hstream : stream = i.packet ++ (bytes l ++ bytes b.appList) := by
    rw [← h.eq, hlist, bytes_cons, append_assoc]
  have hlen : i.size ≤ stream.length := by
    rw [hstream, length_append]
    exact Nat.le_add_right _ _
  have hnext : ∀ m, SequenceNumber32.add b.firstByteSeq m = seq head m := by
    intro m
    rw [h.first]
    rfl
  have hpos := hwhole.1
  by_cases hle : i.size ≤ n
  · obtain ⟨b', hremove⟩ := h.removeFromCounts hlist { b with
        sentList := l
        size := b.size - i.size
        sentSize := b.sentSize - i.size
        firstByteSeq := SequenceNumber32.add b.firstByteSeq i.size } rfl (le_refl _)
    have hdiscard : b.discardHead n = some (b', n - i.size) := by
      rw [TxBuffer.discardHead, hlist]
      dsimp only
      rw [if_pos hfirst, if_pos hle, hremove]
      rfl
    have hacc := h.acc.discardHead hdiscard
    obtain rfl := removeFromCounts_eq hremove
    refine ⟨_, i.size, hdiscard, hpos, hle, hlen, hacc, hnext _, seq_lt _ _, ?_, h.app, ?_, ?_, ?_⟩
    · exact Chain.rebase (k := 0) (by rwa [Nat.add_comm])
    · rw [hstream]
      exact (drop_left).symm
    · rw [length_drop]
      exact congrArg (· - i.size) h.size
    · have hsmall := h.small
      rw [length_drop]
      omega
  · have hlt : n < i.packet.length := Nat.lt_of_not_le hle
    have hcreate : createFragment i.packet n (i.size - n) = some (i.packet.drop n) := by
      rw [createFragment, if_pos (by simp only [TxItem.size]; omega), take_of_length_le]
      exact le_of_eq length_drop
    obtain ⟨b', hremove⟩ := h.removeFromCounts hlist { b with
        sentList := { i with
          packet := i.packet.drop n, startSeq := SequenceNumber32.add i.startSeq n } :: l
        size := b.size - n
        sentSize := b.sentSize - n
        firstByteSeq := SequenceNumber32.add b.firstByteSeq n } rfl (Nat.le_of_lt hlt)
    have hdiscard : b.discardHead n = some (b', n - n) := by
      rw [TxBuffer.discardHead, hlist]
      dsimp only
      rw [if_pos hfirst, if_neg hle, hcreate, bind_some, hremove, Nat.sub_self]
      rfl
    have hacc := h.acc.discardHead hdiscard
    obtain rfl := removeFromCounts_eq hremove
    refine ⟨_, n, hdiscard, hn, le_refl n, by simp only [TxItem.size] at hlen; omega, hacc, hnext _,
      seq_lt _ _, ⟨?_, ⟨?_, hwhole.2⟩, ?_⟩, h.app, ?_, ?_, ?_⟩
    · intro f hf
      refine ⟨(mem_some_iff.1 hf).symm, ?_⟩
      show SequenceNumber32.add i.startSeq n = seq (seq head n) 0
      rw [hfirst, hnext]
      exact (Nat.mod_eq_of_lt (seq_lt head n)).symm
    · simp only [TxItem.size, length_drop]
      omega
    · refine Chain.rebase ?_
      simp only [TxItem.size, length_drop] at hrest ⊢
      rwa [show n + (0 + (i.packet.length - n)) = 0 + i.packet.length by omega]
    · rw [hstream, drop_append_of_le_length (Nat.le_of_lt hlt), bytes_cons, append_assoc]
    · rw [length_drop]
      exact congrArg (· - n) h.size
    · have hsmall := h.small
      rw [length_drop]
      omega

variable (now) in
theorem Inv.discardLoop (h : Inv head stream b) : ∃ b' fuel,
    (∀ calls rounds, fuel ≤ calls → fuel ≤ rounds →
    TxBuffer.discardLoop now calls rounds b n = some b') ∧
    Inv (seq head (min n stream.length)) (stream.drop (min n stream.length)) b' := by
  induction n using Nat.strongRecOn generalizing head stream b with
  | ind n ih =>
    by_cases hpos : b.size > 0 ∧ n > 0
    · obtain ⟨b₁, ⟨fuel₁, hfill⟩, hinv₁, hlist⟩ := h.fillSentList now hpos.1 hpos.2
      obtain ⟨b₂, m, hdiscard, hm, hmn, hlen, hinv₂⟩ := hinv₁.discardHead hlist hpos.2
      obtain ⟨b', fuel₂, hloop, hinv⟩ := ih (n - m) (by omega) hinv₂
      refine ⟨b', max fuel₁ fuel₂ + 1, fun calls rounds hcalls hrounds => ?_, ?_⟩
      · cases rounds with
        | zero => omega
        | succ rounds =>
          have hfill₁ : b.fillSentList now calls n = some b₁ := hfill calls (by omega)
          rw [TxBuffer.discardLoop, if_pos hpos, hfill₁, bind_some, hdiscard, bind_some]
          exact hloop calls rounds (by omega) (by omega)
      · have hmin : m + min (n - m) (stream.drop m).length = min n stream.length := by
          rw [length_drop]
          omega
        have hseq : seq (seq head m) (min (n - m) (stream.drop m).length) = seq head
          (min n stream.length) := by
          rw [← hmin]
          simp only [seq]
          omega
        rwa [drop_drop, hmin, hseq] at hinv
    · refine ⟨b, 1, fun calls rounds _ hrounds => ?_, ?_⟩
      · cases rounds with
        | zero => omega
        | succ rounds => rw [TxBuffer.discardLoop, if_neg hpos]
      · have hmin : min n stream.length = 0 := by
          have hsize := h.size
          omega
        rwa [hmin, drop_zero, ← h.head_eq, h.first]

theorem Inv.lists_nil (h : Inv head [] b) : b.sentList = [] ∧ b.appList = [] := by
  have hnil : ∀ {l : List TxItem}, (∀ i ∈ l, Whole i) → bytes l = [] → l = [] := by
    intro l hl hbytes
    cases l with
    | nil => rfl
    | cons i l =>
      have hpos := (hl i (by simp)).1
      simp only [bytes_cons, append_eq_nil_iff] at hbytes
      simp [TxItem.size, hbytes.1] at hpos
  obtain ⟨hsent, happ⟩ := append_eq_nil_iff.1 h.eq
  exact ⟨hnil h.sent.whole hsent, hnil h.app happ⟩

theorem Inv.setHead (h : Inv head [] b) (hk : k < 2 ^ 32) :
    Inv k [] { b with firstByteSeq := k } where
  acc := { h.acc with }
  first := rfl
  lt := hk
  sent := by
    rw [h.lists_nil.1]
    trivial
  app := h.app
  eq := h.eq
  size := h.size
  small := h.small

theorem Inv.counters (h : Inv head stream b) : b.sackedOut = 0 ∧ b.lostOut = 0 := by
  rw [h.acc.sacked, h.acc.lost]
  exact ⟨total_eq_zero fun i hi => (h.sent.whole i hi).2.1,
    total_eq_zero fun i hi => (h.sent.whole i hi).2.2⟩

theorem Inv.moveSackFromHead (h : Inv head stream b) : b.moveSackFromHead = some b ∧
    (∀ i ∈ b.sentList.head?, i.startSeq = head) ∧ Ge b.firstByteSeq head ∧
    b.sackedOut + b.lostOut ≤ b.sentSize := by
  refine ⟨?_, fun i hi => ?_, Or.inr h.first, by simp [h.counters]⟩
  · rw [TxBuffer.moveSackFromHead]
    split
    · rfl
    · next head rest hlist => rw [if_neg (by simp [(h.sent.whole head (by simp [hlist])).2.1])]
  · obtain ⟨l, hl⟩ := head?_eq_some_iff.1 hi
    have hchain := h.sent
    rw [hl] at hchain
    exact (hchain.1 head rfl).2.trans (Nat.mod_eq_of_lt h.lt)

theorem Inv.resetHighestSack (h : Inv head stream b) : Inv head stream b.resetHighestSack := by
  rw [TxBuffer.resetHighestSack]
  split
  · exact { h with acc := { h.acc with } }
  · exact h

variable (now) in
theorem Inv.discardUpTo (h : Inv head stream b) (hk : k < 2 ^ 32) (hge : ¬ Ge head k) :
    ∃ b', Returns (fun calls => b.discardUpTo now calls k) b' ∧
      Inv k (stream.drop (toUint32 (sub k head))) b' := by
  have hhead : seq head (toUint32 (sub k head)) = k := by
    have hlt := h.lt
    rw [toUint32_sub hk h.lt]
    simp only [seq]
    omega
  obtain ⟨b₁, fuel, hloop, hinv⟩ := h.discardLoop now (n := toUint32 (sub k head))
  obtain ⟨b₂, hb₂⟩ : ∃ b₂, (if b₁.size = 0 then { b₁ with firstByteSeq := k } else b₁) = b₂ :=
    ⟨_, rfl⟩
  -- where the bytes end before the new head, the buffer is empty
  have hinv₂ : Inv k (stream.drop (toUint32 (sub k head))) b₂ := by
    have hsize := hinv.size
    rw [length_drop] at hsize
    rw [← hb₂]
    split
    · next hempty =>
      have hall : stream.drop (min (toUint32 (sub k head)) stream.length) = [] :=
        drop_eq_nil_of_le (by omega)
      have hall' : stream.drop (toUint32 (sub k head)) = [] := drop_eq_nil_of_le (by omega)
      rw [hall] at hinv
      rw [hall']
      exact hinv.setHead hk
    · have hmin : min (toUint32 (sub k head)) stream.length = toUint32 (sub k head) := by omega
      rwa [hmin, hhead] at hinv
  obtain ⟨hmove, hcond⟩ := hinv₂.moveSackFromHead
  refine ⟨b₂.resetHighestSack, ⟨fuel, fun calls hcalls => ?_⟩, hinv₂.resetHighestSack⟩
  dsimp only
  rw [TxBuffer.discardUpTo, h.first, if_neg hge, hloop calls calls hcalls hcalls, bind_some, hb₂,
    hmove, bind_some, if_pos hcond]

/-! ### The other calls -/

theorem Inv.add (h : Inv head stream b) {p : List UInt8} (hsmall : p.length ≤ b.available →
    stream.length + p.length < 2 ^ 31) :
    Inv head (if (b.add p).2 then stream ++ p else stream) (b.add p).1 := by
  have hacc := h.acc.add p
  revert hacc
  rw [TxBuffer.add]
  split
  · next hroom =>
    have hlt := hsmall hroom
    split
    · next hpos =>
      intro hacc
      refine ⟨hacc, h.first, h.lt, h.sent, fun i hi => ?_, ?_, ?_, ?_⟩
      · rcases mem_append.1 hi with hi | hi
        · exact h.app i hi
        · obtain rfl := mem_singleton.1 hi
          exact ⟨hpos, rfl, rfl⟩
      · rw [if_pos rfl, ← h.eq]
        simp [TxItem.new]
      · simp [h.size]
      · simpa using hlt
    · next hpos =>
      intro _
      have hnil : p = [] := eq_nil_of_length_eq_zero (by omega)
      simpa [hnil] using h
  · exact fun _ => h

theorem Inv.resetSentList (h : Inv head stream b) : Inv head stream b.resetSentList where
  acc := h.acc.resetSentList
  first := h.first
  lt := h.lt
  sent := trivial
  app := by
    intro i hi
    rcases mem_append.1 hi with hi | hi
    · obtain ⟨j, hj, rfl⟩ := mem_map.1 hi
      exact ⟨(h.sent.whole j hj).1, rfl, rfl⟩
    · exact h.app i hi
  eq := by
    rw [← h.eq]
    simp [TxBuffer.resetSentList, bytes, flatMap_map]
  size := h.size
  small := h.small

theorem exists_place (hhead : head < 2 ^ 32) (hs : s < 2 ^ 32) (hgt : ¬ Gt head s) :
    ∃ k, k ≤ 2 ^ 31 ∧ s = seq head k ∧ (k = 2 ^ 31 → s < head) := by
  simp only [Gt, halfMaxValue] at hgt
  refine ⟨(s + 2 ^ 32 - head) % 2 ^ 32, ?_, ?_, ?_⟩
  · omega
  · simp only [seq]
    omega
  · omega

theorem copyFromSequence_zero (hgt : ¬ Gt b.firstByteSeq s)
    (hzero : min n (b.sizeFromSequence s) = 0) :
    Returns (fun calls => TxBuffer.copyFromSequence now calls b n s) (b, none) := by
  refine .succ ((Returns.const (b, none)).congr fun calls => ?_)
  rw [TxBuffer.copyFromSequence, if_neg hgt, hzero]
  rfl

/-- Where what is asked for was sent in part, the number of its end is not smaller than that of its
begin. -/
def Unwrapped (b : TxBuffer) (n s : Nat) : Prop :=
  Lt s b.nextSequence → Gt (SequenceNumber32.add s (min n (b.sizeFromSequence s))) b.nextSequence →
    s + min n (b.sizeFromSequence s) < 2 ^ 32
deriving Decidable

theorem Inv.unwrapped (h : Inv head stream b) (hk : k < stream.length) :
    Unwrapped b n (seq head k) ↔ (k < b.sentSize → b.sentSize < k + min n (stream.length - k) →
      seq head k + min n (stream.length - k) < 2 ^ 32) := by
  have hsmall := h.small
  have hlength := h.length
  rw [Unwrapped, h.sizeFromSequence (by omega), h.nextSequence, lt_seq (by omega) (by omega),
    add_seq, gt_seq (by omega) (by omega)]

variable (now) in
theorem Inv.copyFromSequence_step (h : Inv head stream b) (hs : s < 2 ^ 32)
    (hgt : ¬ Gt b.firstByteSeq s) (hle : 0 < min n (b.sizeFromSequence s) → Le s b.nextSequence)
    (hfits : Unwrapped b n s) :
    ∃ b' r, Returns (fun calls => TxBuffer.copyFromSequence now calls b n s) (b', r) ∧
    Inv head stream b' := by
  by_cases hzero : min n (b.sizeFromSequence s) = 0
  · exact ⟨b, none, copyFromSequence_zero hgt hzero, h⟩
  have hsmall := h.small
  have hlength := h.length
  rw [h.first] at hgt
  obtain ⟨k, hk, rfl, hhalf⟩ := exists_place h.lt hs hgt
  -- the number is not that of a place past the end
  have hlt : k < stream.length := by
    refine Nat.lt_of_not_le fun hge => hzero ?_
    rcases Nat.eq_or_lt_of_le hge with heq | hgt
    · rw [h.sizeFromSequence (by omega), heq, Nat.sub_self, Nat.min_zero]
    · have hlate : ¬ Ge b.tailSequence (seq head k) := by
        have hhead := h.lt
        rw [h.tailSequence]
        simp only [Ge, Gt, seq, halfMaxValue] at hhalf ⊢
        omega
      rw [TxBuffer.sizeFromSequence, if_neg hlate, Nat.min_zero]
  have hsent : k ≤ b.sentSize := by
    have hle := hle (Nat.pos_of_ne_zero hzero)
    rwa [h.nextSequence, le_seq (by omega) (by omega)] at hle
  rw [h.sizeFromSequence (by omega)] at hzero
  obtain ⟨b', item, hret, hinv, -⟩ := h.copyFromSequence now hsent (Nat.pos_of_ne_zero hzero)
    ((h.unwrapped hlt).1 hfits)
  exact ⟨b', some item, hret, hinv⟩

end TxBuffer

/-! ## Runs -/

/-- A transmit buffer, with the sequence number of the first byte that was not discarded, and the
bytes of the application from there on. -/
structure TxWorld where
  tx : TxBuffer
  head : Nat
  bytes : List UInt8
  deriving DecidableEq

namespace TxWorld

/-- An empty buffer. -/
def new (head maxBuffer dupAckThresh : Nat) (sackEnabled : Bool) : TxWorld where
  tx := TxBuffer.new head maxBuffer dupAckThresh sackEnabled
  head := head
  bytes := []

variable (w : TxWorld)

/-- What a call is for the application. -/
def after (tx : TxBuffer) : TxCall → TxWorld
  | .add p => { w with tx, bytes := if (w.tx.add p).2 then w.bytes ++ p else w.bytes }
  | .discardUpTo _ s =>
    if Ge w.head s then { w with
      tx } else { tx, head := s, bytes := w.bytes.drop (toUint32 (sub s w.head)) }
  | _ => { w with tx }

/-- A call that returns. -/
def Step (w : TxWorld) (c : TxCall) (w' : TxWorld) : Prop :=
  ∃ tx, w.tx.Step c tx ∧ w' = w.after tx c

/-- The calls of the stream that the checks of the buffer admit. -/
def Admitted : TxCall → Prop
  | .add _ => True
  | .copyFromSequence _ n s =>
    s < 2 ^ 32 ∧ ¬ Gt w.tx.firstByteSeq s ∧
      (0 < min n (w.tx.sizeFromSequence s) → Le s w.tx.nextSequence)
  | .discardUpTo _ s => s < 2 ^ 32
  | .resetSentList => True
  | _ => False

/-- The admitted calls that leave less than half the sequence space in the buffer, and do not meet
the end of the sequence space in the middle of a segment that was sent in part. -/
def Fits : TxCall → Prop
  | .add p => p.length ≤ w.tx.available → w.bytes.length + p.length < 2 ^ 31
  | .copyFromSequence now n s => w.Admitted (.copyFromSequence now n s) ∧ w.tx.Unwrapped n s
  | c => w.Admitted c

instance : DecidablePred w.Admitted
  | .add _ => inferInstanceAs (Decidable True)
  | .copyFromSequence _ _ _ => inferInstanceAs (Decidable (_ ∧ _))
  | .discardUpTo _ _ => inferInstanceAs (Decidable (_ < _))
  | .resetSentList => inferInstanceAs (Decidable True)
  | .update _ | .setSentListLost _ | .resetLastSegmentSent | .markHeadAsLost
  | .deleteRetransmittedFlagFromHead | .addRenoSack | .resetRenoSack =>
    inferInstanceAs (Decidable False)

instance : DecidablePred w.Fits
  | .add _ => inferInstanceAs (Decidable (_ → _))
  | .copyFromSequence _ _ _ => inferInstanceAs (Decidable (_ ∧ _))
  | .discardUpTo now s => inferInstanceAs (Decidable (w.Admitted (.discardUpTo now s)))
  | .resetSentList => inferInstanceAs (Decidable True)
  | .update _ | .setSentListLost _ | .resetLastSegmentSent | .markHeadAsLost
  | .deleteRetransmittedFlagFromHead | .addRenoSack | .resetRenoSack =>
    inferInstanceAs (Decidable False)

theorem admitted_of_fits {w : TxWorld} {c : TxCall} (h : w.Fits c) : w.Admitted c := by
  cases c with
  | add => trivial
  | copyFromSequence => exact h.1
  | _ => exact h

/-- A call that may make so many calls. -/
def call? (calls : Nat) (w : TxWorld) (c : TxCall) : Option TxWorld :=
  (w.tx.call? calls c).map fun tx => w.after tx c

variable {w : TxWorld} {w' : TxWorld} {c : TxCall}

theorem step_of_call {calls : Nat} (h : call? calls w c = some w') : w.Step c w' := by
  obtain ⟨tx, htx, rfl⟩ := map_eq_some_iff.1 h
  exact ⟨tx, ⟨calls, htx⟩, rfl⟩

theorem step_of_fits (h : TxBuffer.Inv w.head w.bytes w.tx) (hfits : w.Fits c) :
    ∃ tx, Returns (fun calls => w.tx.call? calls c) tx ∧
      TxBuffer.Inv (w.after tx c).head (w.after tx c).bytes tx := by
  cases c with
  | add p => exact ⟨_, .const _, h.add hfits⟩
  | copyFromSequence now n s =>
    obtain ⟨⟨hs, hgt, hle⟩, hunwrapped⟩ := hfits
    obtain ⟨tx, r, hret, hinv⟩ := h.copyFromSequence_step now hs hgt hle hunwrapped
    exact ⟨tx, hret.map (·.1), hinv⟩
  | discardUpTo now s =>
    by_cases hge : Ge w.head s
    · refine ⟨w.tx, (Returns.const _).congr fun calls => ?_, ?_⟩
      · rw [TxBuffer.call?, TxBuffer.discardUpTo, h.first, if_pos hge]
      · simpa [after, hge] using h
    · obtain ⟨tx, hret, hinv⟩ := h.discardUpTo now hfits hge
      exact ⟨tx, hret, by simpa [after, hge] using hinv⟩
  | resetSentList => exact ⟨_, .const _, h.resetSentList⟩
  | _ => exact hfits.elim

theorem after_tx {tx : TxBuffer} : (w.after tx c).tx = tx := by
  cases c with
  | discardUpTo now s =>
    rw [after]
    split <;> rfl
  | _ => rfl

theorem inv_of_step (h : TxBuffer.Inv w.head w.bytes w.tx) (hfits : w.Fits c)
    (hstep : w.Step c w') : TxBuffer.Inv w'.head w'.bytes w'.tx := by
  obtain ⟨tx, ⟨calls, hcall⟩, rfl⟩ := hstep
  obtain ⟨tx', hret, hinv⟩ := step_of_fits h hfits
  obtain ⟨calls', hcall'⟩ := hret.exists
  obtain rfl := (call_mono c).unique hcall hcall'
  rwa [after_tx]

theorem inv_new {head maxBuffer dupAckThresh : Nat} {sackEnabled : Bool} (hhead : head < 2 ^ 32) :
    TxBuffer.Inv head [] (new head maxBuffer dupAckThresh sackEnabled).tx where
  acc := .new ..
  first := rfl
  lt := hhead
  sent := trivial
  app := nofun
  eq := rfl
  size := rfl
  small := by simp

variable {head maxBuffer dupAckThresh : Nat} {sackEnabled : Bool}

theorem inv_of_run (hhead : head < 2 ^ 32)
    (hrun : Run Step Fits (new head maxBuffer dupAckThresh sackEnabled) w) :
    TxBuffer.Inv w.head w.bytes w.tx :=
  Run.invariant (I := fun w : TxWorld => TxBuffer.Inv w.head w.bytes w.tx) inv_of_step
    (inv_new hhead) hrun

/-- The buffer has the bytes from the head to the tail, and counts them. -/
structure Right (w : TxWorld) : Prop where
  stream : Tcp.bytes w.tx.sentList ++ Tcp.bytes w.tx.appList = w.bytes
  head : w.tx.firstByteSeq = w.head
  tail : w.tx.tailSequence = seq w.head w.bytes.length
  size : w.tx.size = w.bytes.length
  sentSize : w.tx.sentSize = (Tcp.bytes w.tx.sentList).length

/-- `CopyFromSequence` returns a segment of the stream that begins at a place, whatever is left of
it. -/
def Copies (w : TxWorld) (now n k : Nat) : Prop :=
  ∃ tx item, Fuel.Returns (fun calls => TxBuffer.copyFromSequence now calls w.tx n (seq w.head k))
    (tx, some item) ∧ item.startSeq = seq w.head k ∧ 1 ≤ item.size ∧ item.size ≤ n ∧
    item.packet = slice w.bytes (k, k + item.size)

theorem copies_iff {now n k : Nat} (h : TxBuffer.Inv w.head w.bytes w.tx) (hn : 0 < n)
    (hk : k ≤ w.tx.sentSize)
    (hlt : k < w.bytes.length) : Copies w now n k ↔ w.tx.Unwrapped n (seq w.head k) := by
  rw [h.unwrapped hlt]
  refine ⟨fun ⟨_, _, hret, _⟩ hk hpart => ?_, fun hfits => ?_⟩
  · obtain ⟨calls, hcall⟩ := hret.exists
    refine Nat.lt_of_not_le fun hwrap => ?_
    rw [h.copyFromSequence_wrapped hk hpart hwrap] at hcall
    cases hcall
  · obtain ⟨tx, item, hret, -, hstart, hpos, hle, hpacket⟩ := h.copyFromSequence now hk
      (by omega) hfits
    exact ⟨tx, item, hret, hstart, hpos, hle, hpacket⟩

/-- In every such run the buffer has the stream, the next call does not fail, and `CopyFromSequence`
gives the bytes at any place that was sent or is the next, exactly where the numbers of the segment
are in order or it was not sent in part. -/
theorem stream_of_run (hhead : head < 2 ^ 32)
    (hrun : Lts.Run Step Fits (new head maxBuffer dupAckThresh sackEnabled) w) :
    Right w ∧ (∀ c, w.Fits c → ∃ w', w.Step c w') ∧
      ∀ now n k, 0 < n → k ≤ w.tx.sentSize → k < w.bytes.length →
        (Copies w now n k ↔ w.tx.Unwrapped n (seq w.head k)) := by
  have h := inv_of_run hhead hrun
  refine ⟨⟨h.eq, h.first, h.tailSequence, h.size, h.sentSize⟩, fun c hfits => ?_,
    fun now n k => copies_iff h⟩
  obtain ⟨tx, hret, -⟩ := step_of_fits h hfits
  exact ⟨_, tx, hret.exists, rfl⟩

/-- Forty bytes whose numbers go round: three segments are sent, the first is acknowledged in part,
then the others are asked for together. -/
theorem stream_of_run_example : ∃ w, Right w ∧ w.bytes.length = 33 ∧ w.head = 2 ^ 32 - 13 ∧
    Copies w 0 8 0 := by
  have hexec : (execs Fits (call? 9) (new (2 ^ 32 - 20) 65536 3 true)
      [.add (range 25 |>.map (·.toUInt8)), .add (replicate 15 7),
      .copyFromSequence 0 10 (2 ^ 32 - 20),
        .copyFromSequence 0 10 (2 ^ 32 - 10), .copyFromSequence 0 10 0,
        .discardUpTo 0 (2 ^ 32 - 13),
        .copyFromSequence 0 15 (2 ^ 32 - 8), .resetSentList]).map
      (fun w => (w.bytes.length, w.head, decide (w.tx.Unwrapped 8 (seq w.head 0)))) =
      some (33, 2 ^ 32 - 13, true) := by
    decide +kernel
  obtain ⟨w, hw, hm⟩ := map_eq_some_iff.1 hexec
  obtain ⟨hlen, hm⟩ := Prod.mk.inj hm
  obtain ⟨hhead, hunwrapped⟩ := Prod.mk.inj hm
  obtain ⟨hright, -, hcopy⟩ := stream_of_run (by decide) (run_of_execs step_of_call hw)
  exact ⟨w, hright, hlen, hhead,
    (hcopy 0 8 0 (by decide) (Nat.zero_le _) (by omega)).2 (of_decide_eq_true hunwrapped)⟩

/-- Twenty bytes from five before the end of the sequence space on, of which ten were sent: no
segment of twenty bytes is returned, however many calls are made. -/
theorem copyFromSequence_fails : ∃ w, Lts.Run Step Admitted (new (2 ^ 32 - 5) 65536 3 true) w ∧
    w.tx.sentSize < w.bytes.length ∧ w.Admitted (.copyFromSequence 0 20 (seq w.head 0)) ∧
      ¬ Copies w 0 20 0 := by
  have hexec : (execs Fits (call? 5) (new (2 ^ 32 - 5) 65536 3 true)
      [.add (replicate 20 7), .copyFromSequence 0 10 (2 ^ 32 - 5)]).map (fun w =>
        (decide (w.tx.sentSize < w.bytes.length),
          decide (w.Admitted (.copyFromSequence 0 20 (seq w.head 0))),
          decide (w.tx.Unwrapped 20 (seq w.head 0)))) = some (true, true, false) := by
    decide +kernel
  obtain ⟨w, hw, hm⟩ := map_eq_some_iff.1 hexec
  obtain ⟨hlt, hm⟩ := Prod.mk.inj hm
  obtain ⟨hadm, hunwrapped⟩ := Prod.mk.inj hm
  have hrun := run_of_execs step_of_call hw
  have hlt := of_decide_eq_true hlt
  refine ⟨w, ?_, hlt, of_decide_eq_true hadm, fun hcopies => ?_⟩
  · exact Run.simulation (J := fun _ => True) id (fun _ c => c) (fun _ _ => trivial)
      (fun _ => id) admitted_of_fits
      trivial hrun
  · have hinv := inv_of_run (by decide) hrun
    exact of_decide_eq_false hunwrapped
      ((copies_iff hinv (by decide) (Nat.zero_le _) (by omega)).1 hcopies)

end TxWorld

end OranNs3.Tcp
