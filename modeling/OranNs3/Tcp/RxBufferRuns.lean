import OranNs3.Lib.Intervals
import OranNs3.Tcp.RxBuffer

/-!
# The TCP receive buffer delivers the stream

What is stored is a sorted list of disjoint intervals of stream positions. As long as all positions
of the buffer lie within half the sequence space (`Span`), each loop of the source does to their
numbers what `Intervals.trim`, `Intervals.advance` and `Intervals.discard` do to the intervals.

The end of the window is `m_maxBuffer` above the first byte that is stored, whatever segment it is
compared with. Where this is done as it is meant (`World.WindowCompares`), every run keeps the
invariant (`World.received_of_run`); `World.duplicate_fails` is a run where it is not.
-/

namespace OranNs3.Tcp

open List SequenceNumber32
open Intervals hiding insert

variable {isn lo a b c h t n : Nat} {stream : List UInt8} {l : List (Nat × Nat)} {i : Nat × Nat}

/-! ## Positions within half the sequence space -/

/-- The half of the sequence space from `lo` on has the position. -/
def Span (lo a : Nat) : Prop := lo ≤ a ∧ a < lo + 2 ^ 31

section
variable (ha : Span lo a)
include ha

section
variable (hb : Span lo b)
include hb

theorem Span.gt : Gt (seq isn a) (seq isn b) ↔ b < a :=
  gt_seq (by grind [Span]) (by grind [Span])

theorem Span.le : Le (seq isn a) (seq isn b) ↔ a ≤ b :=
  le_seq (by grind [Span]) (by grind [Span])

theorem Span.ge : Ge (seq isn a) (seq isn b) ↔ b ≤ a :=
  ge_seq (by grind [Span]) (by grind [Span])

theorem Span.lt : Lt (seq isn a) (seq isn b) ↔ a < b :=
  lt_seq (by grind [Span]) (by grind [Span])

theorem Span.eq : seq isn a = seq isn b ↔ a = b :=
  seq_inj (by grind [Span]) (by grind [Span])

end

end

/-- An interval of the stream that lies within the half. -/
structure Within (stream : List UInt8) (lo : Nat) (i : Nat × Nat) : Prop where
  le : i.1 ≤ i.2
  fst : Span lo i.1
  snd : Span lo i.2
  length : i.2 ≤ stream.length

/-- An interval as it is stored. -/
def stored (isn : Nat) (stream : List UInt8) (i : Nat × Nat) : Nat × List UInt8 :=
  (seq isn i.1, slice stream i)

namespace RxBuffer

theorem add_length (hi : Within stream lo i) :
    SequenceNumber32.add (seq isn i.1) (slice stream i).length = seq isn i.2 := by
  have hle := hi.le
  rw [length_slice hi.length, add_seq]
  congr 1
  omega

variable (isn) in
theorem removeOverlap_stored (hl : ∀ i ∈ l, Within stream lo i) (hh : Span lo h) (ht : Span lo t)
    (c : Nat) : removeOverlap (l.map (stored isn stream)) (seq isn h) (seq isn t)
      (c + Intervals.size l) = ((trim l h t).1.map (stored isn stream), seq isn (trim l h t).2.1,
        seq isn (trim l h t).2.2, c + Intervals.size (trim l h t).1) := by
  induction l generalizing h t c with
  | nil => rfl
  | cons i l ih =>
    obtain ⟨hi, hl⟩ := forall_mem_cons.1 hl
    have hlen : (slice stream i).length = i.2 - i.1 := length_slice hi.length
    rw [map_cons, stored, removeOverlap, trim]
    simp only [add_length hi, hi.fst.le ht, hi.snd.gt hh, hi.fst.gt hh, hi.snd.lt ht, hi.fst.le hh,
      hi.snd.ge ht, ← apply_ite (seq isn)]
    split <;> [split <;> [split; skip]; skip]
    · rw [size_cons, ← ih hl hh ht]
      congr 1
      omega
    · have hh' : Span lo (if i.1 ≤ h then i.2 else h) := by
        split
        · exact hi.snd
        · exact hh
      have ht' : Span lo (if t ≤ i.2 then i.1 else t) := by
        split
        · exact hi.fst
        · exact ht
      rw [size_cons, ← add_assoc, ih hl hh' ht']
      simp [stored, add_assoc]
    · rw [size_cons, ← add_assoc, ih hl hh ht]
      simp [stored, add_assoc]
    · rfl

variable (isn) in
theorem setData_stored (hl : ∀ j ∈ l, Within stream lo j) (hi : Span lo i.1)
    (hne : ∀ j ∈ l, j.1 ≠ i.1) :
    setData (seq isn i.1) (slice stream i) (l.map (stored isn stream)) = (Intervals.insert i l).map
    (stored isn stream) := by
  induction l with
  | nil => rfl
  | cons j l ih =>
    obtain ⟨hj, hl⟩ := forall_mem_cons.1 hl
    obtain ⟨hij, hne⟩ := forall_mem_cons.1 hne
    rw [map_cons, stored, setData, Intervals.insert, orderedInsert_cons]
    simp only [hi.lt hj.fst, hj.fst.lt hi]
    split <;> [skip; split]
    · rw [if_pos (by omega)]
      rfl
    · rw [if_neg (by omega), ih hl hne]
      rfl
    · omega

/-! ### SACK blocks -/

/-- The blocks of a list stand for intervals with a property. -/
def Blocks (isn : Nat) (Q : Nat × Nat → Prop) (l : List SackBlock) : Prop :=
  ∀ v ∈ l, ∃ i, v = (seq isn i.1, seq isn i.2) ∧ Q i

variable {Q : Nat × Nat → Prop}

theorem Blocks.mono {Q' : Nat × Nat → Prop} {l l' : List SackBlock} (hl : Blocks isn Q l)
    (hsub : l' ⊆ l) (hQ : ∀ i, Q i → Q' i) : Blocks isn Q' l' := by
  intro v hv
  obtain ⟨i, hi, hq⟩ := hl v (hsub hv)
  exact ⟨i, hi, hQ i hq⟩

section
variable (hspan : ∀ i, Q i → i.1 < i.2 ∧ Span lo i.1 ∧ Span lo i.2)
include hspan

theorem mergeSack_spec (hjoin : ∀ {a b c}, Q (a, b) → Q (b, c) → Q (a, c)) {begin : SackBlock}
    {pre post : List SackBlock} (hbegin : Blocks isn Q (begin :: pre ++ post)) :
    ∃ l, mergeSack begin pre post = some l ∧ Blocks isn Q l := by
  fun_induction mergeSack begin pre post with
  | case1 begin pre => exact ⟨_, rfl, by simpa using hbegin⟩
  | case2 begin pre current post heq hlt ih =>
    obtain ⟨⟨b, e⟩, rfl, hb⟩ := hbegin begin (by simp)
    obtain ⟨⟨b', e'⟩, rfl, hb'⟩ := hbegin current (by simp)
    obtain rfl := ((hspan _ hb).2.1.eq (hspan _ hb').2.2).1 heq
    refine ih fun v hv => ?_
    rcases mem_cons.1 hv with rfl | hv
    · exact ⟨(b', e), rfl, hjoin hb' hb⟩
    · exact hbegin v (by simp at hv ⊢; tauto)
  | case3 begin pre current post heq hlt =>
    obtain ⟨⟨b, e⟩, rfl, hb⟩ := hbegin begin (by simp)
    obtain ⟨⟨b', e'⟩, rfl, hb'⟩ := hbegin current (by simp)
    obtain rfl := ((hspan _ hb).2.1.eq (hspan _ hb').2.2).1 heq
    exact absurd (((hspan _ hb').2.1.lt (hspan _ hb).2.2).2 ((hspan _ hb').1.trans (hspan _ hb).1))
      hlt
  | case4 begin pre current post hne heq hlt ih =>
    obtain ⟨⟨b, e⟩, rfl, hb⟩ := hbegin begin (by simp)
    obtain ⟨⟨b', e'⟩, rfl, hb'⟩ := hbegin current (by simp)
    obtain rfl := ((hspan _ hb).2.2.eq (hspan _ hb').2.1).1 heq
    refine ih fun v hv => ?_
    rcases mem_cons.1 hv with rfl | hv
    · exact ⟨(b, e'), rfl, hjoin hb hb'⟩
    · exact hbegin v (by simp at hv ⊢; tauto)
  | case5 begin pre current post hne heq hlt =>
    obtain ⟨⟨b, e⟩, rfl, hb⟩ := hbegin begin (by simp)
    obtain ⟨⟨b', e'⟩, rfl, hb'⟩ := hbegin current (by simp)
    obtain rfl := ((hspan _ hb).2.2.eq (hspan _ hb').2.1).1 heq
    exact absurd (((hspan _ hb).2.1.lt (hspan _ hb').2.2).2 ((hspan _ hb).1.trans (hspan _ hb').1))
      hlt
  | case6 begin pre current post hne hne' ih => exact ih (by simpa using hbegin)

theorem clearSackList_spec {v : List SackBlock} (hv : Blocks isn Q v) (ha : Span lo a) :
    ∃ l, clearSackList (seq isn a) v = some l ∧ Blocks isn (fun i => Q i ∧ a < i.2) l := by
  have hlt : ∀ block ∈ v, Lt block.1 block.2 := by
    intro block hblock
    obtain ⟨i, rfl, hi⟩ := hv block hblock
    exact ((hspan i hi).2.1.lt (hspan i hi).2.2).2 (hspan i hi).1
  refine ⟨_, if_pos hlt, fun block hblock => ?_⟩
  obtain ⟨hblock, hle⟩ := mem_filter.1 hblock
  obtain ⟨i, rfl, hi⟩ := hv block hblock
  exact ⟨i, rfl, hi, by simpa [(hspan i hi).2.2.le ha] using hle⟩

theorem advance_stored (hl : ∀ i ∈ l, Within stream lo i) (hsorted : Sorted l) (hn : Span lo n)
    (hgap : ∀ i ∈ l, i.2 ≤ n ∨ n ≤ i.1) {x : RxBuffer} (hnext : x.nextRxSeq = seq isn n)
    (hx : Blocks isn (fun i => Q i ∧ n < i.2) x.sackList) :
    ∃ sackList, advance (l.map (stored isn stream)) x = some { x with
        nextRxSeq := seq isn (Intervals.advance l n)
        availBytes := x.availBytes + (Intervals.advance l n - n)
        sackList } ∧ Blocks isn (fun i => Q i ∧ Intervals.advance l n < i.2) sackList := by
  induction l generalizing n x with
  | nil => exact ⟨x.sackList, by simp [advance, Intervals.advance, ← hnext], hx⟩
  | cons i l ih =>
    obtain ⟨hi, hl⟩ := forall_mem_cons.1 hl
    obtain ⟨hlt, hafter, hsorted'⟩ := sorted_cons.1 hsorted
    obtain ⟨-, hgap'⟩ := forall_mem_cons.1 hgap
    rw [map_cons, stored, advance, Intervals.advance, hnext]
    simp only [hi.fst.lt hn, hi.fst.gt hn]
    split <;> [skip; split]
    · exact ih hl hsorted' hn hgap' hnext hx
    · exact ⟨x.sackList, by simp [← hnext], hx⟩
    · next hge hle =>
      obtain rfl : i.1 = n := by omega
      obtain ⟨sackList, hclear, hblocks⟩ := clearSackList_spec hspan
        (hx.mono (Subset.refl _) fun _ => And.left) hi.snd
      obtain ⟨sackList', hadv, hblocks'⟩ := ih (n := i.2) (x := { x with
        nextRxSeq := seq isn i.2, availBytes := x.availBytes + (slice stream i).length, sackList })
        hl hsorted' hi.snd (fun j hj => Or.inr (hafter j hj)) rfl hblocks
      have hle' : i.2 ≤ Intervals.advance l i.2 :=
        (advance_spec hsorted' fun j hj => Or.inr (hafter j hj)).1
      have hlen : (slice stream i).length = i.2 - i.1 := length_slice hi.length
      refine ⟨sackList', ?_, hblocks'⟩
      have hbytes : x.availBytes + (i.2 - i.1) + (Intervals.advance l i.2 - i.2) =
          x.availBytes + (Intervals.advance l i.2 - i.1) := by omega
      rw [add_length hi, hclear, Option.bind_some, hadv, hlen, ← hbytes]

end

/-! ### Extraction -/

theorem extractLoop_cons {nextRxSeq k e : Nat} {p : List UInt8} {rest : List (Nat × List UInt8)}
    (he : 0 < e) : extractLoop nextRxSeq ((k, p) :: rest) e = if Le k nextRxSeq then
        if p.length ≤ e then (extractLoop nextRxSeq rest (e - p.length)).map fun r =>
          (r.1, p ++ r.2)
        else some ((setData (SequenceNumber32.add k e) (p.drop e) ((k, p) :: rest)).eraseP
          (·.1 = k), p.take e)
      else none := by
  cases e with
  | zero => omega
  | succ e => rfl

variable (isn) in
/-- The loop of `Extract` takes the bytes from `a` up to `b`. -/
theorem extractLoop_stored (hl : ∀ i ∈ l, Within stream lo i) (hsorted : Sorted l) (hab : a ≤ b)
    (hb : Span lo b) (hn : Span lo n) (hbn : b ≤ n) (hfirst : ∀ i ∈ l, a ≤ i.1)
    (hcov : ∀ x, a ≤ x → x < b → Covers l x) :
    extractLoop (seq isn n) (l.map (stored isn stream)) (b - a) =
      some ((Intervals.discard b l).map (stored isn stream), slice stream (a, b)) := by
  induction l generalizing a with
  | nil =>
    obtain rfl : a = b := by
      refine le_antisymm hab (not_lt.1 fun hlt => not_covers_nil (hcov a le_rfl hlt))
    simp [extractLoop, Intervals.discard, slice]
  | cons i l ih =>
    rcases hab.eq_or_lt with rfl | hlt
    · rw [discard_of_le hsorted hfirst]
      simp [extractLoop, slice]
    obtain ⟨hi, hl'⟩ := forall_mem_cons.1 hl
    obtain ⟨hne, hafter, hsorted'⟩ := sorted_cons.1 hsorted
    obtain ⟨hai, -⟩ := forall_mem_cons.1 hfirst
    have hfst : i.1 = a := by
      rcases covers_cons.1 (hcov a le_rfl hlt) with ⟨hle, -⟩ | ⟨j, hj, hja, -⟩
      · omega
      · have hij := hafter j hj
        omega
    have hlen : (slice stream i).length = i.2 - i.1 := length_slice hi.length
    rw [map_cons, stored, extractLoop_cons (by omega), if_pos ((hi.fst.le hn).2 (by omega)), hlen,
      Intervals.discard]
    split
    · next hle =>
      have hrest := ih (a := i.2) hl' hsorted' (by omega) hafter fun x hx hxb => by
        rcases covers_cons.1 (hcov x (by omega) hxb) with ⟨-, hxi⟩ | hx
        · omega
        · exact hx
      have hsub : b - a - (i.2 - i.1) = b - i.2 := by omega
      rw [hsub, hrest, if_pos (by omega)]
      obtain ⟨i₁, i₂⟩ := i
      cases hfst
      rw [Option.map_some, slice_append hne.le (by omega)]
    · next hgt =>
      -- the rest of the element gets the number of its first byte
      obtain ⟨i₁, i₂⟩ := i
      cases hfst
      have hdrop : (slice stream (i₁, i₂)).drop (b - i₁) = slice stream (b, i₂) := by
        have hfrom : i₁ + (b - i₁) = b := by omega
        have hnum : i₂ - i₁ - (b - i₁) = i₂ - b := by omega
        rw [slice, slice, drop_take, drop_drop, hfrom, hnum]
      have htake : (slice stream (i₁, i₂)).take (b - i₁) = slice stream (i₁, b) := by
        have hle : b - i₁ ≤ i₂ - i₁ := by omega
        rw [slice, slice, take_take, min_eq_left hle]
      have hnumber : SequenceNumber32.add (seq isn i₁) (b - i₁) = seq isn b := by
        rw [add_seq, Nat.add_sub_cancel' hab]
      have hset := setData_stored isn (i := (b, i₂)) (l := (i₁, i₂) :: l) hl hb
        (forall_mem_cons.2 ⟨by omega, fun j hj => by have hij := hafter j hj; omega⟩)
      have hinsert : Intervals.insert (b, i₂) ((i₁, i₂) :: l) = (i₁, i₂) :: (b, i₂) :: l := by
        rw [Intervals.insert, orderedInsert_cons, if_neg (by omega)]
        cases l with
        | nil => rfl
        | cons j l =>
          have hij := hafter j mem_cons_self
          rw [orderedInsert_cons, if_pos (by omega)]
      rw [hinsert] at hset
      rw [hdrop, htake, hnumber, if_neg (by omega), if_pos hlt]
      simp only [map_cons, stored] at hset ⊢
      rw [hset, eraseP_cons_of_pos (by simp)]

/-! ### Storing -/

/-- A block of received bytes above a position. -/
def Sacked (l : List (Nat × Nat)) (c : Nat) (i : Nat × Nat) : Prop :=
  i.1 < i.2 ∧ c < i.1 ∧ ∀ x, i.1 ≤ x → x < i.2 → Covers l x

theorem Sacked.span (hl : ∀ i ∈ l, Within stream lo i) {i : Nat × Nat} (hi : Sacked l c i) :
    i.1 < i.2 ∧ Span lo i.1 ∧ Span lo i.2 := by
  obtain ⟨hlt, -, hcov⟩ := hi
  obtain ⟨j, hj, hj1, -⟩ := hcov i.1 le_rfl hlt
  obtain ⟨j', hj', -, hj2⟩ := hcov (i.2 - 1) (by omega) (by omega)
  have hfst := (hl j hj).fst
  have hsnd := (hl j' hj').snd
  grind [Span]

theorem Sacked.join {a b e : Nat} (hab : Sacked l c (a, b)) (hbe : Sacked l c (b, e)) :
    Sacked l c (a, e) := by
  refine ⟨hab.1.trans hbe.1, hab.2.1, fun x hx hxe => ?_⟩
  rcases lt_or_ge x b with hxb | hxb
  · exact hab.2.2 x hx hxb
  · exact hbe.2.2 x hxb hxe

theorem updateSackList_spec (hl : ∀ i ∈ l, Within stream lo i) (hc : Span lo c)
    (hi : Sacked l c (h, t)) {x : RxBuffer} (hnext : x.nextRxSeq = seq isn c)
    (hx : Blocks isn (Sacked l c) x.sackList) :
    ∃ sackList, x.updateSackList (seq isn h) (seq isn t) = some { x with sackList } ∧
      Blocks isn (Sacked l c) sackList := by
  have hnew : Blocks isn (Sacked l c) ((seq isn h, seq isn t) :: [] ++ x.sackList) :=
    forall_mem_cons.2 ⟨⟨(h, t), rfl, hi⟩, hx⟩
  obtain ⟨v, hmerge, hv⟩ := mergeSack_spec (fun _ => Sacked.span hl) Sacked.join hnew
  have hgt : Gt (seq isn h) x.nextRxSeq := by
    rw [hnext]
    exact ((Sacked.span hl hi).2.1.gt hc).2 hi.2.1
  refine ⟨if v.length > 4 then v.dropLast else v, by simp [updateSackList, hgt, hmerge], ?_⟩
  split
  · exact hv.mono (dropLast_subset v) fun _ => id
  · exact hv

variable (isn) in
/-- Bytes that are disjoint from what is stored are stored. -/
theorem store_stored (hl : ∀ i ∈ l, Within stream lo i) (hsorted : Sorted l) (hht : h < t)
    (hh : Span lo h) (ht : Span lo t) (htl : t ≤ stream.length) (hdisj : ∀ i ∈ l, i.2 ≤ h ∨ t ≤ i.1)
    (hc : Span lo c) (hch : c ≤ h)
    (hgap : ∀ i ∈ l, i.2 ≤ c ∨ c < i.1) {x : RxBuffer} (hdata : x.data = l.map (stored isn stream))
    (hnext : x.nextRxSeq = seq isn c)
    (hfin : x.gotFin → x.finSeq = seq isn stream.length ∧ Span lo stream.length)
    {l' : List (Nat × Nat)} (hl' : Intervals.insert (h, t) l = l')
    (hsack : Blocks isn (Sacked l' c) x.sackList)
    {c' : Nat} (hc' : Intervals.advance l' c = c') :
    ∃ sackList, x.store (seq isn h) (seq isn t) (slice stream (h, t)) = some { x with
        data := l'.map (stored isn stream)
        size := x.size + (t - h)
        nextRxSeq := seq isn (c' + if x.gotFin ∧ c' = stream.length then 1 else 0)
        availBytes := x.availBytes + (c' - c)
        sackList } ∧ Blocks isn (Sacked l' c') sackList := by
  have hne : ∀ i ∈ l, i.1 ≠ h := by
    intro i hi heq
    have hlt := hsorted.1 i hi
    rcases hdisj i hi with hle | hle <;> omega
  have hfind : ∀ e ∈ x.data, Lt (seq isn h) e.1 ∨ Lt e.1 (seq isn h) := by
    rw [hdata]
    intro e he
    obtain ⟨i, hi, rfl⟩ := mem_map.1 he
    have hcmp := hne i hi
    simp only [stored, hh.lt (hl i hi).fst, (hl i hi).fst.lt hh]
    omega
  have hset := setData_stored isn (i := (h, t)) hl hh hne
  have hwithin : ∀ i ∈ l', Within stream lo i := by
    intro i hi
    rcases mem_insert.1 (hl' ▸ hi) with rfl | hi
    · exact ⟨hht.le, hh, ht, htl⟩
    · exact hl i hi
  have hsorted' : Sorted l' := hl' ▸ hsorted.insert hht hdisj
  have hcov : ∀ y, Covers l' y ↔ h ≤ y ∧ y < t ∨ Covers l y := fun y => by rw [← hl', covers_insert]
  have hgap' : ∀ i ∈ l', i.2 ≤ c ∨ c ≤ i.1 := by
    intro i hi
    rcases mem_insert.1 (hl' ▸ hi) with rfl | hi
    · exact Or.inr hch
    · exact (hgap i hi).imp_right le_of_lt
  have hspan' : Span lo c' := hc' ▸ advance_induction (fun i hi => (hwithin i hi).snd) hc
  obtain ⟨sackList, hupdate, hsack₂⟩ : ∃ sackList,
      (if Gt (seq isn h) x.nextRxSeq then
        ({ x with data := l'.map (stored isn stream) } : RxBuffer).updateSackList (seq isn h)
          (seq isn t)
      else some { x with data := l'.map (stored isn stream) }) =
        some { x with data := l'.map (stored isn stream), sackList } ∧
      Blocks isn (Sacked l' c) sackList := by
    split
    · next hgt =>
      rw [hnext, hh.gt hc] at hgt
      exact updateSackList_spec (x := { x with data := l'.map (stored isn stream) }) hwithin hc
        ⟨hht, hgt, fun y hy hyt => (hcov y).2 (Or.inl ⟨hy, hyt⟩)⟩ hnext hsack
    · exact ⟨x.sackList, rfl, hsack⟩
  obtain ⟨sackList', hadvance, hsack₃⟩ := advance_stored (x := { x with
      data := l'.map (stored isn stream), sackList, size := x.size + (t - h) })
    (fun _ => Sacked.span hwithin) hwithin hsorted' hc hgap' hnext
    (hsack₂.mono (Subset.refl _) fun i hi => ⟨hi, hi.2.1.trans hi.1⟩)
  rw [hc'] at hadvance hsack₃
  obtain ⟨hle, -, hgap''⟩ := advance_spec hsorted' hgap'
  rw [hc'] at hle hgap''
  refine ⟨sackList', ?_, hsack₃.mono (Subset.refl _) fun i hi => ⟨hi.1.1, ?_, hi.1.2.2⟩⟩
  · have hfin' : x.gotFin = true → (seq isn c' = x.finSeq ↔ c' = stream.length) := by
      intro hgot
      rw [(hfin hgot).1]
      exact hspan'.eq (hfin hgot).2
    rw [store, if_pos hfind]
    simp only [hdata, hset, hl', hupdate, Option.bind_some, hadvance, Option.map_some,
      length_slice htl]
    split
    · next hgot =>
      rw [if_pos ⟨hgot.1, (hfin' hgot.1).1 hgot.2⟩, add_seq]
    · next hgot =>
      rw [if_neg fun hboth => hgot ⟨hboth.1, (hfin' hboth.1).2 hboth.2⟩, add_zero]
  · -- a block that is not cleared is not covered by what is contiguous, so it begins above
    obtain ⟨⟨hlt, -, hcover⟩, hend⟩ := hi
    by_contra hnlt
    obtain ⟨j, hj, hj1, hj2⟩ := hcover c' (not_lt.1 hnlt) hend
    rcases hgap'' j hj with hle' | hle' <;> omega

end RxBuffer

/-! ## The invariant -/

/-- The half from `lo` on has all positions of a buffer. -/
structure Marked (stream : List UInt8) (fin : Bool) (l : List (Nat × Nat)) (n lo : Nat) : Prop where
  next : Span lo n
  stored : ∀ i ∈ l, Span lo i.1 ∧ Span lo i.2
  fin : fin = true → Span lo stream.length ∧ Span lo (stream.length + 1)

namespace World

/-- The position of `m_nextRxSeq`, where the bytes below `c` were received. -/
def nextPosition (stream : List UInt8) (w : World) (c : Nat) : Nat :=
  c + if w.rx.gotFin ∧ c = stream.length then 1 else 0

/-- The intervals `l` are stored, and everything below `c` was received. -/
structure Inv (isn : Nat) (stream : List UInt8) (w : World) (l : List (Nat × Nat)) (c : Nat) :
    Prop where
  extracted : w.extracted <+: stream
  data : w.rx.data = l.map (stored isn stream)
  sorted : Sorted l
  inside : ∀ i ∈ l, w.extracted.length ≤ i.1 ∧ i.2 ≤ stream.length
  le : w.extracted.length ≤ c
  covered : ∀ x, w.extracted.length ≤ x → x < c → Covers l x
  gap : ∀ i ∈ l, i.2 ≤ c ∨ c < i.1
  next : w.rx.nextRxSeq = seq isn (w.nextPosition stream c)
  size : w.rx.size = Intervals.size l
  avail : w.rx.availBytes = c - w.extracted.length
  fin : w.rx.gotFin = true → w.rx.finSeq = seq isn stream.length
  sack : RxBuffer.Blocks isn (RxBuffer.Sacked l c) w.rx.sackList
  marked : ∃ lo, Marked stream w.rx.gotFin l (w.nextPosition stream c) lo
  received : ∀ x, Covers w.offered x ↔ x < w.extracted.length ∨ Covers l x

variable {w w' : World}

theorem Inv.le_length (hinv : Inv isn stream w l c) : c ≤ stream.length := by
  rcases hinv.le.eq_or_lt with heq | hlt
  · exact heq ▸ hinv.extracted.length_le
  · obtain ⟨i, hi, -, hci⟩ := hinv.covered (c - 1) (by omega) (by omega)
    have hin := (hinv.inside i hi).2
    omega

theorem Inv.within (hinv : Inv isn stream w l c) (hmarked : Marked stream w.rx.gotFin l n lo) :
    ∀ i ∈ l, Within stream lo i := fun i hi =>
  ⟨(hinv.sorted.1 i hi).le, (hmarked.stored i hi).1, (hmarked.stored i hi).2, (hinv.inside i hi).2⟩

theorem position_seq (ha : w.extracted.length ≤ a) (hb : a < w.extracted.length + 2 ^ 32) :
    w.position isn (seq isn a) = a := by
  simp only [position, distance, seq]
  omega

theorem Inv.position (hinv : Inv isn stream w l c)
    (hmarked : Marked stream w.rx.gotFin l (w.nextPosition stream c) lo) (hspan : Span lo a)
    (ha : w.extracted.length ≤ a) : w.position isn (seq isn a) = a := by
  refine position_seq ha ?_
  have hnext : w.nextPosition stream c ≤ c + 1 := by
    rw [nextPosition]
    split <;> omega
  have hlo := hmarked.next.1
  have ha' := hspan.2
  rcases hinv.le.eq_or_lt with heq | hlt
  · omega
  · obtain ⟨i, hi, hi1, -⟩ := hinv.covered _ le_rfl hlt
    have hin := (hinv.inside i hi).1
    have hi' := (hmarked.stored i hi).1.1
    omega

theorem Inv.marks_eq (hinv : Inv isn stream w l c) : w.marks isn =
    w.nextPosition stream c :: (l.flatMap fun i => [i.1, i.2]) ++
      if w.rx.gotFin then [stream.length, stream.length + 1] else [] := by
  obtain ⟨lo, hmarked⟩ := hinv.marked
  have hnext : w.extracted.length ≤ w.nextPosition stream c := hinv.le.trans (Nat.le_add_right _ _)
  rw [marks, hinv.next, hinv.position hmarked hmarked.next hnext, hinv.data, flatMap_map]
  congr 1
  · congr 1
    refine flatMap_congr fun i hi => ?_
    have hfst : w.position isn (seq isn i.1) = i.1 :=
      hinv.position hmarked (hmarked.stored i hi).1 (hinv.inside i hi).1
    have hlen : (slice stream i).length = i.2 - i.1 := length_slice (hinv.inside i hi).2
    have hle := (hinv.sorted.1 i hi).le
    simp only [stored, hfst, hlen, Nat.add_sub_cancel' hle]
  · split
    · next hfin =>
      rw [hinv.fin hfin, hinv.position hmarked (hmarked.fin hfin).1 (hinv.le.trans hinv.le_length)]
    · rfl

theorem exists_span_of_near {l : List Nat} (hne : l ≠ []) (hl : Near l) : ∃ lo, ∀ a ∈ l,
    Span lo a := by
  have hex : ∃ a, a ∈ l := exists_mem_of_ne_nil l hne
  exact ⟨Nat.find hex, fun a ha => ⟨Nat.find_min' hex ha, hl a ha _ (Nat.find_spec hex)⟩⟩

theorem Inv.exists_marked (hinv : Inv isn stream w l c) (l' : List Nat)
    (hnear : Near (l' ++ w.marks isn)) :
    ∃ lo, Marked stream w.rx.gotFin l (w.nextPosition stream c) lo ∧ ∀ a ∈ l', Span lo a := by
  rw [hinv.marks_eq] at hnear
  obtain ⟨lo, hlo⟩ := exists_span_of_near (by simp) hnear
  refine ⟨lo, ⟨hlo _ (by simp), fun i hi => ⟨hlo _ ?_, hlo _ ?_⟩, fun hfin => ⟨hlo _ ?_, hlo _ ?_⟩⟩,
    fun a ha => hlo a (by simp [ha])⟩
  · simp only [mem_append, mem_cons, mem_flatMap]
    exact Or.inr (Or.inl (Or.inr ⟨i, hi, by simp⟩))
  · simp only [mem_append, mem_cons, mem_flatMap]
    exact Or.inr (Or.inl (Or.inr ⟨i, hi, by simp⟩))
  · simp [hfin]
  · simp [hfin]

/-! ### Add -/

/-- The head and the tail that the window leaves of a segment. -/
theorem Inv.trimToWindow (hinv : Inv isn stream w l c)
    (hmarked : Marked stream w.rx.gotFin l (w.nextPosition stream c) lo) (ha : Span lo a)
    (hb : Span lo b) (hwindow : ∀ e ∈ w.windowEnd isn, (Lt (seq isn e) (seq isn b) ↔ e < b)) :
    ∃ h t, w.rx.trimToWindow (seq isn a) (seq isn b) = (seq isn h, seq isn t) ∧ Span lo h ∧
      Span lo t ∧ t = (w.windowEnd isn).elim b (min b) ∧
      (h = max a (w.nextPosition stream c) ∨ h = t ∧ t < max a (w.nextPosition stream c)) := by
  have hmax : (if Lt (seq isn a) w.rx.nextRxSeq then w.rx.nextRxSeq else seq isn a) =
      seq isn (max a (w.nextPosition stream c)) := by
    rw [hinv.next]
    simp only [ha.lt hmarked.next, ← apply_ite (seq isn)]
    congr 1
    split <;> omega
  have hspan : Span lo (max a (w.nextPosition stream c)) := by
    rcases Nat.le_total a (w.nextPosition stream c) with hle | hle
    · exact (Nat.max_eq_right hle).symm ▸ hmarked.next
    · exact (Nat.max_eq_left hle).symm ▸ ha
  cases l with
  | nil =>
    refine ⟨max a (w.nextPosition stream c), b, ?_, hspan, hb, ?_, Or.inl rfl⟩
    · simp only [RxBuffer.trimToWindow, hmax, hinv.data, map_nil]
    · simp [windowEnd, hinv.data]
  | cons i l =>
    have hfst : Span lo i.1 := (hmarked.stored i mem_cons_self).1
    have hend : w.windowEnd isn = some (i.1 + w.rx.maxBuffer) := by
      have hpos := hinv.position hmarked hfst (hinv.inside i mem_cons_self).1
      simp [windowEnd, hinv.data, stored, hpos]
    have htail : Span lo (min b (i.1 + w.rx.maxBuffer)) := by grind [Span]
    have hmin : (if Lt (SequenceNumber32.add (seq isn i.1) w.rx.maxBuffer) (seq isn b) then
        SequenceNumber32.add (seq isn i.1) w.rx.maxBuffer else seq isn b) =
        seq isn (min b (i.1 + w.rx.maxBuffer)) := by
      have hlt := hwindow (i.1 + w.rx.maxBuffer) (by simp [hend])
      rw [add_seq]
      simp only [hlt, ← apply_ite (seq isn)]
      congr 1
      split <;> omega
    refine ⟨if min b (i.1 + w.rx.maxBuffer) < max a (w.nextPosition stream c) then
      min b (i.1 + w.rx.maxBuffer) else max a (w.nextPosition stream c),
        min b (i.1 + w.rx.maxBuffer),
      ?_, ?_, htail, ?_, ?_⟩
    · simp only [RxBuffer.trimToWindow, hmax, hinv.data, map_cons, stored, hmin, htail.lt hspan,
        ← apply_ite (seq isn)]
    · split
      · exact htail
      · exact hspan
    · rw [hend]
      rfl
    · split
      · next hlt => exact Or.inr ⟨rfl, hlt⟩
      · exact Or.inl rfl

variable {k m : Nat}

theorem Inv.received_add (hinv : Inv isn stream w l c) (hkm : k + m ≤ stream.length)
    (htail : t ≤ k + m)
    (hhead : h = max k (w.nextPosition stream c) ∨ h = t ∧ t < max k (w.nextPosition stream c))
    (x : Nat) :
    (k ≤ x ∧ x < t) ∨ Covers w.offered x ↔ x < w.extracted.length ∨ Covers l x ∨ h ≤ x ∧ x < t := by
  have hbelow : x < w.nextPosition stream c → x < t → x < w.extracted.length ∨ Covers l x := by
    intro hx hxt
    have hxc : x < c := by
      rw [nextPosition] at hx
      split at hx <;> omega
    rcases lt_or_ge x w.extracted.length with hlt | hge
    · exact Or.inl hlt
    · exact Or.inr (hinv.covered x hge hxc)
  rw [hinv.received x]
  constructor
  · rintro (⟨hkx, hxt⟩ | hx)
    · by_cases hx : x < w.nextPosition stream c
      · exact (hbelow hx hxt).imp_right Or.inl
      · exact Or.inr (Or.inr ⟨by omega, hxt⟩)
    · exact hx.imp_right Or.inl
  · rintro (hx | hx | ⟨hhx, hxt⟩)
    · exact Or.inr (Or.inl hx)
    · exact Or.inr (Or.inr hx)
    · exact Or.inl ⟨by omega, hxt⟩

theorem step_add {x : RxBuffer} {r : Bool}
    (hadd : w.rx.add (slice stream (k, k + m)) (seq isn k) = some (x, r)) :
    w.Step isn stream (.add k m) { w with
      rx := x, offered := (k, (w.windowEnd isn).elim (k + m) (min (k + m))) :: w.offered } := by
  simp [Step, call?, hadd]

/-- `Add` keeps the invariant. -/
theorem Inv.add (hinv : Inv isn stream w l c) (hadm : w.Admitted isn stream (.add k m))
    (hwindow : w.WindowCompares isn (.add k m)) :
    ∃ w' l' c', w.Step isn stream (.add k m) w' ∧ Inv isn stream w' l' c' := by
  obtain ⟨hkm, hnear⟩ := hadm
  obtain ⟨lo, hmarked, hspan⟩ := hinv.exists_marked [k, k + m] hnear
  have hk : Span lo k := hspan k (by simp)
  have hwithin := hinv.within hmarked
  obtain ⟨h₀, t₀, htrim, hh₀, ht₀, hcut, hhead⟩ :=
    hinv.trimToWindow hmarked hk (hspan (k + m) (by simp)) hwindow
  have htail₀ : t₀ ≤ k + m := by
    rw [hcut]
    cases w.windowEnd isn with
    | none => exact le_rfl
    | some e => exact min_le_left _ _
  have hreceived := hinv.received_add hkm htail₀ hhead
  have hlen : (slice stream (k, k + m)).length = m := by
    rw [length_slice hkm]
    omega
  have hoverlap := RxBuffer.removeOverlap_stored isn hwithin hh₀ ht₀ 0
  obtain ⟨hsub, hle, hge, hdisj, hcov, hempty⟩ := trim_spec (h := h₀) (t := t₀) hinv.sorted
  obtain ⟨hh, ht⟩ := trim_induction hmarked.stored hh₀ ht₀
  rw [zero_add, zero_add] at hoverlap
  generalize trim l h₀ t₀ = r at *
  obtain ⟨kept, h, t⟩ := r
  dsimp only at hsub hle hge hdisj hcov hempty hh ht
  rcases lt_or_ge h t with hlt | hnlt
  · have hhead' : h₀ = max k (w.nextPosition stream c) := hhead.resolve_right (by omega)
    have hkh : k ≤ h := by omega
    have hnext : w.nextPosition stream c = c := by
      have hlast : w.nextPosition stream c ≤ stream.length := by omega
      have hnofin : ¬ (w.rx.gotFin = true ∧ c = stream.length) := by
        intro hfin
        rw [nextPosition, if_pos hfin, hfin.2] at hlast
        omega
      rw [nextPosition, if_neg hnofin, add_zero]
    have hch : c ≤ h := by omega
    have htl : t ≤ stream.length := by omega
    have hcov' : ∀ x, Covers (Intervals.insert (h, t) kept) x ↔ Covers l x ∨ h₀ ≤ x ∧ x < t₀ :=
      fun x => by
      rw [covers_insert, ← hcov hlt x, or_comm]
    have hgap : ∀ i ∈ kept, i.2 ≤ c ∨ c < i.1 := fun i hi => hinv.gap i (hsub.subset hi)
    have hsorted := hinv.sorted.sublist hsub
    have hsorted' : Sorted (Intervals.insert (h, t) kept) := hsorted.insert hlt (hdisj hlt)
    have hgap' : ∀ i ∈ Intervals.insert (h, t) kept, i.2 ≤ c ∨ c ≤ i.1 := by
      intro i hi
      rcases mem_insert.1 hi with rfl | hi
      · exact Or.inr hch
      · exact (hgap i hi).imp_right le_of_lt
    have hstored : ∀ i ∈ Intervals.insert (h, t) kept, Span lo i.1 ∧ Span lo i.2 := by
      intro i hi
      rcases mem_insert.1 hi with rfl | hi
      · exact ⟨hh, ht⟩
      · exact hmarked.stored i (hsub.subset hi)
    obtain ⟨hcc, hcov'', hgap''⟩ := advance_spec hsorted' hgap'
    obtain ⟨sackList, hstore, hsack⟩ := RxBuffer.store_stored isn (x := { w.rx with
        data := kept.map (stored isn stream), size := Intervals.size kept })
      (fun i hi => hwithin i (hsub.subset hi)) hsorted hlt hh ht htl (hdisj hlt)
        (hnext ▸ hmarked.next) hch hgap
      rfl (hnext ▸ hinv.next) (fun hfin => ⟨hinv.fin hfin, (hmarked.fin hfin).1⟩) rfl
      (hinv.sack.mono (Subset.refl _) fun i hi =>
        ⟨hi.1, hi.2.1, fun x hx hxi => (hcov' x).2 (Or.inl (hi.2.2 x hx hxi))⟩) rfl
    have hstart : toUint32 (sub (seq isn h) (seq isn k)) = h - k :=
      toUint32_sub_seq (by grind [Span]) hkh
    have hlength : toUint32 (sub (seq isn t) (seq isn h)) = t - h :=
      toUint32_sub_seq (by grind [Span]) hlt.le
    have hfragment := createFragment_slice hkm hkh hlt.le (hge.trans htail₀)
    have hadd : w.rx.add (slice stream (k, k + m)) (seq isn k) = some ({ w.rx with
        data := (Intervals.insert (h, t) kept).map (stored isn stream)
        size := Intervals.size kept + (t - h)
        nextRxSeq := seq isn (Intervals.advance (Intervals.insert (h, t) kept) c +
          if w.rx.gotFin ∧ Intervals.advance (Intervals.insert (h, t) kept) c = stream.length then 1
          else 0)
        availBytes := w.rx.availBytes + (Intervals.advance (Intervals.insert (h, t) kept) c - c)
        sackList }, true) := by
      simp only [RxBuffer.add, hlen, add_seq, htrim, hinv.data, hinv.size, hoverlap, hh.ge ht,
        if_neg (not_le.2 hlt), hstart, hlength, hfragment, Option.bind_some, hstore,
        Option.map_some]
    refine ⟨_, Intervals.insert (h, t) kept, Intervals.advance (Intervals.insert (h, t) kept) c,
      step_add hadd, ?_⟩
    have hspan' : Span lo (Intervals.advance (Intervals.insert (h, t) kept) c) :=
      advance_induction (fun i hi => (hstored i hi).2) (hnext ▸ hmarked.next)
    exact {
      extracted := hinv.extracted
      data := rfl
      sorted := hsorted'
      inside := fun i hi => by
        rcases mem_insert.1 hi with rfl | hi
        · exact ⟨hinv.le.trans hch, htl⟩
        · exact hinv.inside i (hsub.subset hi)
      le := hinv.le.trans hcc
      covered := fun x hx hxc => by
        rcases lt_or_ge x c with hxc' | hxc'
        · exact (hcov' x).2 (Or.inl (hinv.covered x hx hxc'))
        · exact hcov'' x hxc' hxc
      gap := hgap''
      next := rfl
      size := by
        rw [size_insert]
        exact Nat.add_comm _ _
      avail := by
        have hle' := hinv.le
        dsimp only
        rw [hinv.avail]
        omega
      fin := hinv.fin
      sack := hsack
      marked := by
        refine ⟨lo, ?_, hstored, hmarked.fin⟩
        rw [nextPosition]
        split
        · next hfin => exact hfin.2 ▸ (hmarked.fin hfin.1).2
        · exact hspan'
      received := fun x => by
        rw [covers_cons, ← hcut, hreceived x, hcov' x] }
  · obtain ⟨rfl, hcov⟩ := hempty hnlt
    have hadd : w.rx.add (slice stream (k, k + m)) (seq isn k) = some (w.rx, false) := by
      simp only [RxBuffer.add, hlen, add_seq, htrim, hinv.data, hinv.size, hoverlap, hh.ge ht, hnlt,
        if_true]
      rw [← hinv.data, ← hinv.size]
    refine ⟨_, kept, c, step_add hadd, { hinv with received := fun x => ?_ }⟩
    rw [covers_cons, ← hcut, hreceived x, ← or_assoc]
    exact or_iff_left_of_imp fun ⟨hhx, hxt⟩ => Or.inr (hcov x hhx hxt)

/-! ### The other calls -/

theorem Inv.setFinSequence (hinv : Inv isn stream w l c)
    (hadm : w.Admitted isn stream .setFinSequence) :
    ∃ w' l' c', w.Step isn stream .setFinSequence w' ∧ Inv isn stream w' l' c' := by
  obtain ⟨lo, hmarked, hspan⟩ := hinv.exists_marked [stream.length, stream.length + 1] hadm
  have hlast : Span lo stream.length := hspan _ (by simp)
  have hfin : Span lo (stream.length + 1) := hspan _ (by simp)
  have hnext : (w.rx.setFinSequence (seq isn stream.length)).nextRxSeq =
      seq isn (c + if c = stream.length then 1 else 0) := by
    have heq : w.rx.nextRxSeq = seq isn stream.length ↔
      w.nextPosition stream c = stream.length := by
      rw [hinv.next]
      exact hmarked.next.eq hlast
    simp only [RxBuffer.setFinSequence, heq]
    rw [hinv.next, add_seq, nextPosition]
    by_cases hc : c = stream.length <;> cases hgot : w.rx.gotFin <;> simp [hc]
  refine ⟨_, l, c, rfl, { hinv with
    next := by simpa [nextPosition, RxBuffer.setFinSequence] using hnext
    fin := fun _ => rfl
    marked := ⟨lo, ?_, hmarked.stored, fun _ => ⟨hlast, hfin⟩⟩ }⟩
  have hc := hmarked.next
  simp only [nextPosition, RxBuffer.setFinSequence, true_and] at hc ⊢
  by_cases heq : c = stream.length
  · simpa [heq] using hfin
  · simpa [heq] using hc

/-- `Extract` keeps the invariant. -/
theorem Inv.extract (hinv : Inv isn stream w l c) (maxSize : Nat) :
    ∃ w' l' c', w.Step isn stream (.extract maxSize) w' ∧ Inv isn stream w' l' c' := by
  have hle := hinv.le
  have hcl := hinv.le_length
  rcases Nat.eq_zero_or_pos (min maxSize w.rx.availBytes) with hzero | hpos
  · refine ⟨w, l, c, ?_, hinv⟩
    simp [Step, call?, RxBuffer.extract, hzero]
  obtain ⟨lo, hmarked⟩ := hinv.marked
  have havail := hinv.avail
  generalize he : w.extracted.length = e at *
  obtain ⟨b, hb⟩ : ∃ b, b = e + min maxSize w.rx.availBytes := ⟨_, rfl⟩
  have hmin : min maxSize w.rx.availBytes = b - e := by omega
  have hbc : b ≤ c := by omega
  have hcovered : ∀ x, e ≤ x → x < b → Covers l x := fun x hx hxb =>
    hinv.covered x (he ▸ hx) (by omega)
  have hspan : Span lo b := by
    obtain ⟨i, hi, hi1, hi2⟩ := hcovered (b - 1) (by omega) (by omega)
    have hfst := (hmarked.stored i hi).1
    have hsnd := (hmarked.stored i hi).2
    grind [Span]
  have hbn : b ≤ w.nextPosition stream c := hbc.trans (Nat.le_add_right _ _)
  have hloop := RxBuffer.extractLoop_stored isn (hinv.within hmarked) hinv.sorted
    (by omega) hspan hmarked.next hbn (fun i hi => he ▸ (hinv.inside i hi).1) hcovered
  have hlen : (slice stream (e, b)).length = b - e := length_slice (by omega)
  have hextract : w.rx.extract maxSize = some ({ w.rx with
      data := (Intervals.discard b l).map (stored isn stream)
      size := w.rx.size - (b - e)
      availBytes := w.rx.availBytes - (b - e) }, some (slice stream (e, b))) := by
    simp only [RxBuffer.extract, hmin, hinv.data, hinv.next, hloop, Option.map_some, hlen,
      if_neg (hmin ▸ hpos.ne')]
  have hprefix : w.extracted ++ slice stream (e, b) = stream.take b := by
    have htake : w.extracted = slice stream (0, e) := by
      rw [slice, drop_zero, ← he]
      exact prefix_iff_eq_take.1 hinv.extracted
    rw [htake, slice_append (Nat.zero_le _) (by omega), slice, drop_zero, Nat.sub_zero]
  have hlength : (stream.take b).length = b := by
    rw [length_take]
    omega
  refine ⟨{ w with
      rx := { w.rx with
        data := (Intervals.discard b l).map (stored isn stream)
        size := w.rx.size - (b - e)
        availBytes := w.rx.availBytes - (b - e) }
      extracted := stream.take b }, Intervals.discard b l, c, ?_, ?_⟩
  · simp [Step, call?, hextract, hprefix]
  · have hcov : ∀ x, Covers (Intervals.discard b l) x ↔ Covers l x ∧ b ≤ x := fun x =>
      covers_discard hinv.sorted
    have hmem := fun (i : Nat × Nat) (hi : i ∈ Intervals.discard b l) => mem_discard hinv.sorted hi
    exact {
      extracted := take_prefix b stream
      data := rfl
      sorted := hinv.sorted.discard
      inside := fun i hi => by
        obtain ⟨hbi, j, hj, -, hij, -⟩ := hmem i hi
        rw [hlength, hij]
        exact ⟨hbi, (hinv.inside j hj).2⟩
      le := hlength.le.trans hbc
      covered := fun x hx hxc => by
        rw [hlength] at hx
        exact (hcov x).2 ⟨hinv.covered x (by omega) hxc, hx⟩
      gap := fun i hi => by
        obtain ⟨-, j, hj, hji, hij, -⟩ := hmem i hi
        rw [hij]
        exact (hinv.gap j hj).imp_right fun hlt => hlt.trans_le hji
      next := hinv.next
      size := by
        rw [hinv.sorted.size_discard (fun i hi => he ▸ (hinv.inside i hi).1) hcovered, ← hinv.size]
      avail := by
        have hrest : w.rx.availBytes - (b - e) = c - b := by omega
        rw [hlength]
        exact hrest
      fin := hinv.fin
      sack := hinv.sack.mono (Subset.refl _) fun i hi => ⟨hi.1, hi.2.1, fun x hx hxi =>
        (hcov x).2 ⟨hi.2.2 x hx hxi, hbc.trans (hi.2.1.le.trans hx)⟩⟩
      marked := by
        refine ⟨lo, hmarked.next, fun i hi => ?_, hmarked.fin⟩
        obtain ⟨-, j, hj, -, hij, heq | heq⟩ := hmem i hi
        · exact heq ▸ hij ▸ hmarked.stored j hj
        · exact ⟨heq ▸ hspan, hij ▸ (hmarked.stored j hj).2⟩
      received := fun x => by
        rw [hinv.received x, hcov x, hlength, he]
        have hx := hcovered x
        constructor
        · rintro (hlt | hin)
          · exact Or.inl (by omega)
          · exact (lt_or_ge x b).imp_right fun hge => ⟨hin, hge⟩
        · rintro (hlt | ⟨hin, -⟩)
          · exact (lt_or_ge x e).imp_right fun hge => hx hge hlt
          · exact Or.inr hin }

/-! ## Runs -/

theorem inv_new (isn : Nat) (stream : List UInt8) (maxBuffer : Nat) :
    Inv isn stream (new isn maxBuffer) [] 0 where
  extracted := nil_prefix
  data := rfl
  sorted := sorted_nil
  inside := by simp
  le := le_rfl
  covered := by simp
  gap := by simp
  next := rfl
  size := rfl
  avail := rfl
  fin := nofun
  sack := nofun
  marked := ⟨0, ⟨by simp [Span, nextPosition, new, RxBuffer.new], by simp, nofun⟩⟩
  received := by simp [new]

/-- What the calls of a run have to be: of the stream, within half the sequence space, and such that
the window is compared as it is meant. -/
def Fits (isn : Nat) (stream : List UInt8) (w : World) (call : RxCall) : Prop :=
  w.Admitted isn stream call ∧ w.WindowCompares isn call
deriving Decidable

theorem Inv.step (hinv : Inv isn stream w l c) {call : RxCall} (hfits : Fits isn stream w call) :
    ∃ w' l' c', w.Step isn stream call w' ∧ Inv isn stream w' l' c' := by
  cases call with
  | add k m => exact hinv.add hfits.1 hfits.2
  | setFinSequence => exact hinv.setFinSequence hfits.1
  | extract maxSize => exact hinv.extract maxSize

theorem inv_of_run {maxBuffer : Nat}
    (hrun : Lts.Run (Step isn stream) (Fits isn stream) (new isn maxBuffer) w) :
    ∃ l c, Inv isn stream w l c := by
  refine hrun.invariant (I := fun w => ∃ l c, Inv isn stream w l c) ?_ ⟨[], 0,
    inv_new isn stream maxBuffer⟩
  rintro s t call ⟨l, c, hinv⟩ hfits hstep
  obtain ⟨t', l', c', hstep', hinv'⟩ := hinv.step hfits
  cases (hstep.symm.trans hstep' : some t = some t')
  exact ⟨l', c', hinv'⟩

/-- The packets extracted are the first bytes of the stream, what is stored are disjoint stretches
of it, the bytes extracted or stored are those that were received, of which `c` is the first that is
missing, and the counters count what is stored, and what of it is below `c`. -/
structure Right (isn : Nat) (stream : List UInt8) (w : World) (l : List (Nat × Nat)) (c : Nat) :
    Prop where
  extracted : w.extracted <+: stream
  data : w.rx.data = l.map (stored isn stream)
  nonempty : ∀ i ∈ l, i.1 < i.2
  disjoint : l.Pairwise fun i j => i.2 ≤ j.1
  received : ∀ x, Covers w.offered x ↔ x < w.extracted.length ∨ Covers l x
  contiguous : (∀ x < c, Covers w.offered x) ∧ ¬ Covers w.offered c
  next : w.rx.nextRxSeq = seq isn (c + if w.rx.gotFin ∧ c = stream.length then 1 else 0)
  size : w.rx.size = (l.map fun i => i.2 - i.1).sum ∧ w.rx.size < 2 ^ 31
  avail : w.rx.availBytes = ((l.filter fun i => i.1 < c).map fun i => i.2 - i.1).sum ∧ ∀ i ∈ l,
    i.1 < c → i.2 ≤ c

theorem Inv.right (hinv : Inv isn stream w l c) : Right isn stream w l c where
  extracted := hinv.extracted
  data := hinv.data
  nonempty := hinv.sorted.1
  disjoint := hinv.sorted.2
  received := hinv.received
  contiguous := by
    refine ⟨fun x hx => (hinv.received x).2 ?_, fun hcov => ?_⟩
    · exact (lt_or_ge x w.extracted.length).imp_right fun hge => hinv.covered x hge hx
    · rcases (hinv.received c).1 hcov with hlt | ⟨i, hi, hic, hci⟩
      · exact absurd hinv.le (not_le.2 hlt)
      · rcases hinv.gap i hi with hle | hlt <;> omega
  next := hinv.next
  size := by
    obtain ⟨lo, hmarked⟩ := hinv.marked
    have hle := hinv.sorted.size_le (a := lo) (b := lo + (2 ^ 31 - 1)) fun i hi => by
      have hfst := (hmarked.stored i hi).1.1
      have hsnd := (hmarked.stored i hi).2.2
      omega
    have hsize := hinv.size
    exact ⟨hsize, by omega⟩
  avail := by
    have hbelow : ∀ i ∈ l, i.1 < c → i.2 ≤ c := fun i hi hlt =>
      (hinv.gap i hi).resolve_right (not_lt.2 hlt.le)
    refine ⟨?_, hbelow⟩
    rw [hinv.avail]
    refine ((hinv.sorted.sublist filter_sublist).size_of_covers hinv.le (fun i hi => ?_)
      fun x hx hxc => ?_).symm
    · obtain ⟨hi, hlt⟩ := mem_filter.1 hi
      exact ⟨(hinv.inside i hi).1, hbelow i hi (by simpa using hlt)⟩
    · obtain ⟨i, hi, hix, hxi⟩ := hinv.covered x hx hxc
      exact ⟨i, mem_filter.2 ⟨hi, by simpa using hix.trans_lt hxc⟩, hix, hxi⟩

/-- In every such run the receive buffer is what it has to be, and the next call does not fail. -/
theorem received_of_run {maxBuffer : Nat}
    (hrun : Lts.Run (Step isn stream) (Fits isn stream) (new isn maxBuffer) w) :
    (∃ l c, Right isn stream w l c) ∧ ∀ call, Fits isn stream w call → ∃ w',
    w.Step isn stream call w' := by
  obtain ⟨l, c, hinv⟩ := inv_of_run hrun
  refine ⟨⟨l, c, hinv.right⟩, fun call hfits => ?_⟩
  obtain ⟨w', -, -, hstep, -⟩ := hinv.step hfits
  exact ⟨w', hstep⟩

/-- A stream of forty bytes whose numbers go round, in segments that overlap. -/
theorem received_of_run_example :
    ∃ w l c, Right (2 ^ 32 - 20) (List.range 40 |>.map (·.toUInt8)) w l c ∧
    w.rx.nextRxSeq = 21 ∧ w.extracted.length = 37 ∧ w.rx.availBytes = 3 := by
  have hexec : (Lts.execs (Fits (2 ^ 32 - 20) (range 40 |>.map (·.toUInt8)))
      (call? (2 ^ 32 - 20) (range 40 |>.map (·.toUInt8))) (new (2 ^ 32 - 20) 32768)
      [.add 15 10, .add 30 5, .add 0 10, .extract 7, .add 0 20, .setFinSequence, .extract 50,
        .add 28 9,
        .add 24 16, .extract 12]).map (fun w =>
          (w.rx.nextRxSeq, w.extracted.length, w.rx.availBytes)) =
      some (21, 37, 3) := by
    decide +kernel
  obtain ⟨w, hw, hm⟩ := Option.map_eq_some_iff.1 hexec
  obtain ⟨hnext, hm⟩ := Prod.mk.inj hm
  obtain ⟨hlen, havail⟩ := Prod.mk.inj hm
  obtain ⟨⟨l, c, hright⟩, -⟩ := received_of_run (Lts.run_of_execs id hw)
  exact ⟨w, l, c, hright, hnext, hlen, havail⟩

/-- With the largest window that the comparisons allow, a duplicate of the first segment that comes
after the first bytes were extracted ends before the window does by more than half the sequence
space: the end of the window is taken for its tail. -/
theorem duplicate_fails :
    ∃ w, Lts.Run (Step 0 (List.replicate 40 7)) (Admitted 0 (List.replicate 40 7))
    (new 0 (2 ^ 31 - 1)) w ∧ w.Admitted 0 (List.replicate 40 7) (.add 0 8) ∧
    ¬ ∃ w', w.Step 0 (List.replicate 40 7) (.add 0 8) w' := by
  have hexec : (Lts.execs (fun w => Admitted 0 (replicate 40 7) w) (call? 0 (replicate 40 7))
      (new 0 (2 ^ 31 - 1)) [.add 0 10, .extract 10, .add 10 10, .add 30 10]).map (fun w =>
        (decide (w.Admitted 0 (replicate 40 7) (.add 0 8)),
          call? 0 (replicate 40 7) w (.add 0 8))) =
      some (true, none) := by
    decide +kernel
  obtain ⟨w, hw, hm⟩ := Option.map_eq_some_iff.1 hexec
  obtain ⟨hadm, hnone⟩ := Prod.mk.inj hm
  refine ⟨w, Lts.run_of_execs id hw, of_decide_eq_true hadm, fun ⟨w', hstep⟩ => ?_⟩
  exact absurd (hstep.symm.trans hnone) (by simp)

end World

end OranNs3.Tcp
