import OranNs3.Tcp.RxWindow

/-!
# The SACK list of the receiver

`UpdateSackList` merges a new block with those that it touches, and with no others. The blocks stay
apart when the new one overlaps none of those that are there (`RxBuffer.mergeSack_apart`). It
overlaps one exactly where the segment takes the place of a stored one that the block has: the
segment has a missing byte before the stored one, and goes on after it (`World.Embeds`).
-/

namespace OranNs3.Tcp

open SequenceNumber32 List Option
open Intervals hiding insert

namespace RxBuffer

variable {isn lo : Nat} {Q : Nat × Nat → Prop} {begin : SackBlock} {pre post : List SackBlock}

/-- Blocks that neither overlap nor touch. -/
def Apart (u v : SackBlock) : Prop := Lt u.2 v.1 ∨ Lt v.2 u.1

theorem Apart.symm {u v : SackBlock} (h : Apart u v) : Apart v u := Or.symm h

/-- Merging keeps blocks apart, when the new one overlaps none of them and is apart from those it
was compared with. -/
theorem mergeSack_apart (hspan : ∀ i, Q i → i.1 < i.2 ∧ Span lo i.1 ∧ Span lo i.2)
    (hjoin : ∀ {a b c}, Q (a, b) → Q (b, c) → Q (a, c))
    (hbegin : Blocks isn Q (begin :: pre ++ post))
    (hapart : (pre ++ post).Pairwise Apart) (hpre : ∀ v ∈ pre, Apart begin v)
    (hpost : ∀ v ∈ post, Le v.2 begin.1 ∨ Le begin.2 v.1) {l : List SackBlock}
    (h : mergeSack begin pre post = some l) :
    l.Pairwise Apart ∧ l.length ≤ pre.length + post.length + 1 := by
  have hlt : ∀ {i j}, Q i → Q j → (Lt (seq isn i.2) (seq isn j.1) ↔ i.2 < j.1) := fun hi hj =>
    (hspan _ hi).2.2.lt (hspan _ hj).2.1
  have hle : ∀ {i j}, Q i → Q j → (Le (seq isn i.2) (seq isn j.1) ↔ i.2 ≤ j.1) := fun hi hj =>
    (hspan _ hi).2.2.le (hspan _ hj).2.1
  -- a merge with a block that is apart from the others overlaps none of them
  have hover : ∀ {begin current : Nat × Nat} {pre post}, Q begin → Q current →
      Blocks isn Q (pre ++ (seq isn current.1, seq isn current.2) :: post) →
      (pre ++ (seq isn current.1, seq isn current.2) :: post).Pairwise Apart →
      (∀ v ∈ pre, Apart (seq isn begin.1, seq isn begin.2) v) →
      (∀ v ∈ (seq isn current.1, seq isn current.2) :: post, Le v.2 (seq isn begin.1) ∨
        Le (seq isn begin.2) v.1) →
      (pre ++ post).Pairwise Apart ∧ ∀ v ∈ pre ++ post, ∃ i, v = (seq isn i.1, seq isn i.2) ∧ Q i ∧
        (i.2 < current.1 ∨ current.2 < i.1) ∧ (i.2 ≤ begin.1 ∨ begin.2 ≤ i.1) := by
    intro begin current pre post hb hc hblocks hapart hpre hpost
    obtain ⟨hcurrent, hrest⟩ := pairwise_cons.1 ((pairwise_middle Apart.symm).1 hapart)
    refine ⟨hrest, fun v hv => ?_⟩
    have hcv := hcurrent v hv
    obtain ⟨i, rfl, hi⟩ := hblocks v (by simp at hv ⊢; tauto)
    rw [Apart, hlt hc hi, hlt hi hc] at hcv
    refine ⟨i, rfl, hi, hcv.symm, ?_⟩
    rcases mem_append.1 hv with hv | hv
    · have hbv := hpre _ hv
      rw [Apart, hlt hb hi, hlt hi hb] at hbv
      omega
    · have hbv := hpost _ (mem_cons_of_mem _ hv)
      rwa [hle hi hb, hle hb hi] at hbv
  fun_induction mergeSack begin pre post with
  | case1 begin pre =>
    cases h
    rw [append_nil] at hapart
    exact ⟨pairwise_cons.2 ⟨hpre, hapart⟩, by simp⟩
  | case2 begin pre current post heq hcmp ih =>
    obtain ⟨⟨b, e⟩, rfl, hb⟩ := hbegin begin (by simp)
    obtain ⟨⟨b', e'⟩, rfl, hb'⟩ := hbegin current (by simp)
    obtain rfl := ((hspan _ hb).2.1.eq (hspan _ hb').2.2).1 heq
    obtain ⟨hrest, hothers⟩ :=
      hover hb hb' (fun v hv => hbegin v (mem_cons_of_mem _ hv)) hapart hpre hpost
    have hmerged : Q (b', e) := hjoin hb' hb
    obtain ⟨hpair, hlen⟩ := ih (forall_mem_cons.2 ⟨⟨(b', e), rfl, hmerged⟩, fun v hv => by
        obtain ⟨i, rfl, hi, -⟩ := hothers v hv
        exact ⟨i, rfl, hi⟩⟩) hrest (by simp) (fun v hv => by
        obtain ⟨i, rfl, hi, hcur, hbeg⟩ := hothers v hv
        have hlen := (hspan i hi).1
        have hlen' := (hspan _ hb').1
        rw [hle hi hmerged, hle hmerged hi]
        dsimp only at hcur hbeg hlen' ⊢
        omega) h
    refine ⟨hpair, ?_⟩
    simp only [length_nil, length_append, length_cons] at hlen ⊢
    omega
  | case3 => cases h
  | case4 begin pre current post hne heq hcmp ih =>
    obtain ⟨⟨b, e⟩, rfl, hb⟩ := hbegin begin (by simp)
    obtain ⟨⟨b', e'⟩, rfl, hb'⟩ := hbegin current (by simp)
    obtain rfl := ((hspan _ hb).2.2.eq (hspan _ hb').2.1).1 heq
    obtain ⟨hrest, hothers⟩ :=
      hover hb hb' (fun v hv => hbegin v (mem_cons_of_mem _ hv)) hapart hpre hpost
    have hmerged : Q (b, e') := hjoin hb hb'
    obtain ⟨hpair, hlen⟩ := ih (forall_mem_cons.2 ⟨⟨(b, e'), rfl, hmerged⟩, fun v hv => by
        obtain ⟨i, rfl, hi, -⟩ := hothers v hv
        exact ⟨i, rfl, hi⟩⟩) hrest (by simp) (fun v hv => by
        obtain ⟨i, rfl, hi, hcur, hbeg⟩ := hothers v hv
        have hlen := (hspan i hi).1
        have hlen' := (hspan _ hb').1
        rw [hle hi hmerged, hle hmerged hi]
        dsimp only at hcur hbeg hlen' ⊢
        omega) h
    refine ⟨hpair, ?_⟩
    simp only [length_nil, length_append, length_cons] at hlen ⊢
    omega
  | case5 => cases h
  | case6 begin pre current post hne hne' ih =>
    have hapart' : ((pre ++ [current]) ++ post).Pairwise Apart := by rwa [append_assoc]
    obtain ⟨hpair, hlen⟩ := ih (by simpa using hbegin) hapart' (fun v hv => by
        rcases mem_append.1 hv with hv | hv
        · exact hpre v hv
        · obtain rfl := mem_singleton.1 hv
          obtain ⟨b, rfl, hb⟩ := hbegin begin (by simp)
          obtain ⟨i, rfl, hi⟩ := hbegin v (by simp)
          have hbv := hpost _ mem_cons_self
          rw [(hspan _ hb).2.1.eq (hspan _ hi).2.2] at hne
          rw [(hspan _ hb).2.2.eq (hspan _ hi).2.1] at hne'
          rw [hle hi hb, hle hb hi] at hbv
          rw [Apart, hlt hb hi, hlt hi hb]
          omega) (fun v hv => hpost v (mem_cons_of_mem _ hv)) h
    refine ⟨hpair, ?_⟩
    simp only [length_nil, length_append, length_cons] at hlen ⊢
    omega

theorem advance_sackList {data : List (Nat × List UInt8)} {b b' : RxBuffer}
    (h : advance data b = some b') : b'.sackList.Sublist b.sackList := by
  induction data generalizing b with
  | nil =>
    cases h
    exact .refl _
  | cons e data ih =>
    obtain ⟨k, p⟩ := e
    rw [advance] at h
    split at h <;> [skip; split at h]
    · exact ih h
    · cases h
      exact .refl _
    · obtain ⟨l, hclear, h⟩ := bind_eq_some_iff.1 h
      obtain ⟨-, heq⟩ := ite_none_right_eq_some.1 hclear
      obtain rfl := some.inj heq
      exact (ih h).trans filter_sublist

theorem add_sackList {p : List UInt8} {k headSeq tailSeq size : Nat} {r : Bool}
    {data : List (Nat × List UInt8)} {b b' : RxBuffer} (h : b.add p k = some (b', r))
    (htrim : removeOverlap b.data (b.trimToWindow k (SequenceNumber32.add k p.length)).1
      (b.trimToWindow k (SequenceNumber32.add k p.length)).2 b.size =
        (data, headSeq, tailSeq, size)) :
    b'.sackList.Sublist b.sackList ∨ ¬ Ge headSeq tailSeq ∧ Gt headSeq b.nextRxSeq ∧
      ∃ l, mergeSack (headSeq, tailSeq) [] b.sackList = some l ∧
        b'.sackList.Sublist (if l.length > 4 then l.dropLast else l) := by
  rw [add] at h
  dsimp only at h
  rw [htrim] at h
  dsimp only at h
  split at h
  · cases h
    exact Or.inl (.refl _)
  · next hlt =>
    obtain ⟨q, -, h⟩ := bind_eq_some_iff.1 h
    obtain ⟨b₁, hstore, heq⟩ := map_eq_some_iff.1 h
    obtain ⟨rfl, -⟩ := Prod.mk.inj heq
    obtain ⟨-, hstore⟩ := ite_none_right_eq_some.1 hstore
    obtain ⟨b₂, hsack, hstore⟩ := bind_eq_some_iff.1 hstore
    obtain ⟨b₃, hadvance, heq⟩ := map_eq_some_iff.1 hstore
    have hsub : b₁.sackList.Sublist b₂.sackList := by
      have hsub := advance_sackList hadvance
      rw [← heq]
      split
      · exact hsub
      · exact hsub
    split at hsack
    · next hgt =>
      obtain ⟨-, hmerge⟩ := ite_none_right_eq_some.1 hsack
      obtain ⟨l, hl, rfl⟩ := map_eq_some_iff.1 hmerge
      exact Or.inr ⟨hlt, hgt, l, hl, hsub⟩
    · cases hsack
      exact Or.inl hsub

end RxBuffer

namespace World

variable {isn : Nat} {stream : List UInt8} {w w' : World} {l : List (Nat × Nat)} {c k m : Nat}

/-- The blocks are at most four, and neither overlap nor touch. -/
def BlocksApart (w : World) : Prop :=
  w.rx.sackList.length ≤ 4 ∧ w.rx.sackList.Pairwise RxBuffer.Apart

/-- A stretch that is stored has a missing byte of the segment before it, and the segment goes on
after it. -/
def Inside (l : List (Nat × Nat)) (k t : Nat) (i : Nat × Nat) : Prop :=
  (∃ x < i.1, k ≤ x ∧ ¬ Covers l x) ∧ i.2 < t

/-- `Add` keeps the blocks apart, when the segment takes the place of no stretch that a block has.
-/
theorem Inv.add_apart (hinv : Inv isn stream w l c) (hadm : w.Admitted isn stream (.add k m))
    (hwindow : w.WindowCompares isn (.add k m)) (hapart : w.BlocksApart)
    (hfits : w.nextPosition stream c < k →
      ∀ i ∈ l, Inside l k ((w.windowEnd isn).elim (k + m) (min (k + m))) i → ∀ j,
        RxBuffer.Sacked l c j → (seq isn j.1, seq isn j.2) ∈ w.rx.sackList → j.2 ≤ i.1 ∨ i.2 ≤ j.1)
    (hstep : w.Step isn stream (.add k m) w') : w'.BlocksApart := by
  obtain ⟨hkm, hnear⟩ := hadm
  obtain ⟨lo, hmarked, hspan⟩ := hinv.exists_marked [k, k + m] hnear
  have hk : Span lo k := hspan k (by simp)
  have hwithin := hinv.within hmarked
  obtain ⟨h₀, t₀, htrim, hh₀, ht₀, hcut, hhead⟩ :=
    hinv.trimToWindow hmarked hk (hspan (k + m) (by simp)) hwindow
  have htail : t₀ ≤ k + m := by
    rw [hcut]
    cases w.windowEnd isn with
    | none => exact le_rfl
    | some e => exact min_le_left _ _
  have hlen : (slice stream (k, k + m)).length = m := by
    rw [length_slice hkm]
    omega
  have hoverlap := RxBuffer.removeOverlap_stored isn hwithin hh₀ ht₀ 0
  have hspec := trim_spec (h := h₀) (t := t₀) hinv.sorted
  have herased := fun i hi => trim_erased (i := i) (h := h₀) (t := t₀) hinv.sorted hi
  obtain ⟨hh, ht⟩ := trim_induction hmarked.stored hh₀ ht₀
  rw [Nat.zero_add, Nat.zero_add] at hoverlap
  generalize trim l h₀ t₀ = r at *
  obtain ⟨kept, h, t⟩ := r
  obtain ⟨hsub, hle, hge, hdisj, hcov, -⟩ := hspec
  dsimp only at hsub hle hge hdisj hcov herased hh ht hoverlap
  obtain ⟨⟨rx, r⟩, hadd, rfl⟩ := map_eq_some_iff.1 hstep
  have hlist :=
    RxBuffer.add_sackList hadd (by rw [hlen, add_seq, htrim, hinv.data, hinv.size, hoverlap])
  rcases hlist with hold | ⟨hlt, hgt, l', hmerge, hnew⟩
  · exact ⟨hold.length_le.trans hapart.1, hapart.2.sublist hold⟩
  rw [hh.ge ht, not_le] at hlt
  rw [hinv.next, hh.gt hmarked.next] at hgt
  have hdisj := hdisj hlt
  have hcov := hcov hlt
  -- what is left of the segment begins with a missing byte
  have hfree : ¬ Covers l h := by
    rintro ⟨i, hi, hih, hhi⟩
    by_cases hkept : i ∈ kept
    · rcases hdisj i hkept with hbefore | hafter <;> omega
    · have hbehind := (herased i hi hkept).1
      omega
  have hkh : k ≤ h := by omega
  have hnext : w.nextPosition stream c < k := by
    by_contra hnk
    have hfirst : h₀ = w.nextPosition stream c := by omega
    have hfin : w.nextPosition stream c = c := by
      rw [nextPosition] at hgt ⊢
      split
      · next hfin =>
        rw [if_pos hfin, hfin.2] at hgt
        omega
      · rfl
    have hmissing : ¬ Covers l h₀ := by
      rintro ⟨i, hi, hih, hhi⟩
      rcases hinv.gap i hi with hbefore | hafter <;> omega
    rcases (hcov h₀).2 (Or.inr ⟨le_rfl, by omega⟩) with hcovered | hhere
    · obtain ⟨i, hi, hix⟩ := hcovered
      exact hmissing ⟨i, hsub.subset hi, hix⟩
    · omega
  -- a block that overlaps what is left has bytes of a stretch that was taken out
  have hover : ∀ j, RxBuffer.Sacked l c j → (seq isn j.1, seq isn j.2) ∈ w.rx.sackList → j.2 ≤ h ∨
    t ≤ j.1 := by
    intro j hj hmem
    by_contra hnot
    obtain ⟨hhj, hjt⟩ := not_or.1 hnot
    have hjj := hj.1
    have hyj : max h j.1 < j.2 := by omega
    obtain ⟨i, hi, hiy, hyi⟩ := hj.2.2 (max h j.1) (le_max_right _ _) hyj
    have hout : i ∉ kept := by
      intro hkept
      rcases hdisj i hkept with hbefore | hafter <;> omega
    obtain ⟨hbehind, hend⟩ := herased i hi hout
    rcases hfits hnext i hi ⟨⟨h, hbehind, hkh, hfree⟩,
      hcut ▸ hend⟩ j hj hmem with hbefore | hafter <;> omega
  have hspanned : ∀ i, RxBuffer.Sacked l c i → i.1 < i.2 ∧ Span lo i.1 ∧ Span lo i.2 := fun i =>
    RxBuffer.Sacked.span hwithin
  have hblocks : RxBuffer.Blocks isn (fun i => i.1 < i.2 ∧ Span lo i.1 ∧ Span lo i.2)
      ((seq isn h, seq isn t) :: [] ++ w.rx.sackList) :=
    forall_mem_cons.2 ⟨⟨(h, t), rfl, hlt, hh, ht⟩, hinv.sack.mono (Subset.refl _) hspanned⟩
  obtain ⟨hpair, hlength⟩ := RxBuffer.mergeSack_apart (fun _ => id)
    (fun hab hbc => ⟨hab.1.trans hbc.1, hab.2.1, hbc.2.2⟩) hblocks hapart.2 (by simp)
    (fun v hv => by
      obtain ⟨j, rfl, hj⟩ := hinv.sack v hv
      have hspan := hspanned j hj
      rw [hspan.2.2.le hh, ht.le hspan.2.1]
      exact hover j hj hv) hmerge
  have hbound := hapart.1
  simp only [length_nil] at hlength
  refine ⟨hnew.length_le.trans ?_, Pairwise.sublist hnew ?_⟩
  · split
    · rw [length_dropLast]
      omega
    · omega
  · split
    · exact hpair.sublist (dropLast_sublist l')
    · exact hpair

/-! ## Runs -/

/-- The blocks that `GetSackList` returns, as positions. -/
def blocks (isn : Nat) (w : World) : List (Nat × Nat) :=
  w.rx.sackList.map fun v => (w.position isn v.1, w.position isn v.2)

/-- What a SACK list has to be: at most four blocks, which neither overlap nor touch, above the next
number and of bytes that are stored. -/
structure SackRight (isn : Nat) (w : World) : Prop where
  length : (w.blocks isn).length ≤ 4
  apart : (w.blocks isn).Pairwise fun i j => i.2 < j.1 ∨ j.2 < i.1
  above : ∀ i ∈ w.blocks isn, i.1 < i.2 ∧ w.position isn w.rx.nextRxSeq < i.1
  stored : ∀ i ∈ w.blocks isn, ∀ x, i.1 ≤ x → x < i.2 → Covers (w.stretches isn) x

/-- A segment that begins above the next number takes the place of no stored stretch that a block
overlaps: none that has a missing byte of the segment before it, and that the segment goes on after.
-/
def SackFits (isn : Nat) (w : World) : SegmentCall → Prop
  | .add k p => w.Receivable isn (.add k p) ∧
      (w.position isn w.rx.nextRxSeq < k →
        ∀ i ∈ w.stretches isn,
          Inside (w.stretches isn) k ((w.windowEnd isn).elim (k + p.length) (min (k + p.length)))
            i →
      ∀ j ∈ w.blocks isn, j.2 ≤ i.1 ∨ i.2 ≤ j.1)
  | .extract _ => True

instance (l : List (Nat × Nat)) (x : Nat) : Decidable (Covers l x) :=
  inferInstanceAs (Decidable (∃ _ ∈ _, _))

instance (l : List (Nat × Nat)) (k t : Nat) (i : Nat × Nat) : Decidable (Inside l k t i) :=
  inferInstanceAs (Decidable (_ ∧ _))

instance (w : World) : DecidablePred (w.SackFits isn)
  | .add _ _ => inferInstanceAs (Decidable (_ ∧ _))
  | .extract _ => inferInstanceAs (Decidable True)

variable {call : SegmentCall}

theorem Segments.position_next (h : Segments isn w l c) : w.position isn w.rx.nextRxSeq = c := by
  have hle := h.covered.1
  rw [h.next]
  obtain ⟨hfin, N, hinv⟩ := h
  obtain ⟨lo, hmarked⟩ := hinv.marked
  have hfin' : w.blank.rx.gotFin = false := hfin
  have hc : Span lo c := by simpa [nextPosition, hfin'] using hmarked.next
  have hpos := hinv.position hmarked hc (by rwa [blank, length_blank])
  rwa [position_blank] at hpos

theorem Segments.position_sacked (h : Segments isn w l c) {i : Nat × Nat}
    (hi : RxBuffer.Sacked l c i) : (w.position isn (seq isn i.1), w.position isn (seq isn i.2)) =
    i := by
  have hle := h.covered.1
  have habove := hi.2.1
  obtain ⟨-, N, hinv⟩ := h
  obtain ⟨lo, hmarked⟩ := hinv.marked
  obtain ⟨hlt, hfst, hsnd⟩ := RxBuffer.Sacked.span (hinv.within hmarked) hi
  have hpos₁ := hinv.position hmarked hfst (by rw [blank, length_blank]; omega)
  have hpos₂ := hinv.position hmarked hsnd (by rw [blank, length_blank]; omega)
  rw [position_blank] at hpos₁ hpos₂
  rw [hpos₁, hpos₂]

theorem Segments.sacked (h : Segments isn w l c) :
    RxBuffer.Blocks isn (RxBuffer.Sacked l c) w.rx.sackList := by
  obtain ⟨-, N, hinv⟩ := h
  exact hinv.sack

/-- The invariant of runs whose segments fit. -/
def SackInv (isn : Nat) (w : World) : Prop := (∃ l c, Segments isn w l c) ∧ w.BlocksApart

theorem SackInv.receive (h : SackInv isn w) (hfits : w.SackFits isn call)
    (hstep : w.Receive isn call w') : SackInv isn w' := by
  obtain ⟨⟨l, c, hseg⟩, hapart⟩ := h
  cases call with
  | extract maxSize =>
    obtain ⟨l', c', hseg'⟩ :=
      hseg.receive (show w.Receivable isn (.extract maxSize) from trivial) hstep
    obtain ⟨⟨rx, r⟩, hextract, rfl⟩ := map_eq_some_iff.1 hstep
    have hsame : rx.sackList = w.rx.sackList := (RxBuffer.extract_frame hextract).2.2
    refine ⟨⟨l', c', hseg'⟩, ?_⟩
    rwa [BlocksApart, hsame]
  | add k p =>
    obtain ⟨hrec, hfits⟩ := hfits
    obtain ⟨l', c', hseg'⟩ := hseg.receive hrec hstep
    obtain ⟨N, hN, hinv⟩ := hseg.exists_inv (k + p.length)
    have hfin : w.blank.rx.gotFin = false := hseg.1
    have hnext : w.blank.nextPosition (replicate N 0) c = c := by simp [nextPosition, hfin]
    have hadm : w.blank.Admitted isn (replicate N 0) (.add k p.length) := by
      refine ⟨by rwa [length_replicate], ?_⟩
      rw [marks_blank]
      exact hrec.1
    have hwindow : w.blank.WindowCompares isn (.add k p.length) := by
      rw [WindowCompares, windowEnd_blank]
      exact hrec.2
    have hfits' : w.blank.nextPosition (replicate N 0) c < k → ∀ i ∈ l,
        Inside l k ((w.blank.windowEnd isn).elim (k + p.length) (min (k + p.length))) i →
        ∀ j, RxBuffer.Sacked l c j → (seq isn j.1, seq isn j.2) ∈ w.blank.rx.sackList → j.2 ≤ i.1 ∨
          i.2 ≤ j.1 := by
      rw [hnext, windowEnd_blank]
      rw [hseg.position_next, hseg.stretches_eq] at hfits
      intro hk i hi hin j hj hmem
      exact hfits hk i hi hin j (mem_map.2 ⟨_, hmem, hseg.position_sacked hj⟩)
    have hapart' : w'.blank.BlocksApart :=
      hinv.add_apart hadm hwindow hapart hfits' (receive_blank hstep hN)
    exact ⟨⟨l', c', hseg'⟩, hapart'⟩

theorem SackInv.right (h : SackInv isn w) : SackRight isn w := by
  obtain ⟨⟨l, c, hseg⟩, hlength, hapart⟩ := h
  have hblock : ∀ v ∈ w.rx.sackList, ∃ i, v = (seq isn i.1, seq isn i.2) ∧ RxBuffer.Sacked l c i ∧
      (w.position isn v.1, w.position isn v.2) = i := by
    intro v hv
    obtain ⟨i, rfl, hi⟩ := hseg.sacked v hv
    exact ⟨i, rfl, hi, hseg.position_sacked hi⟩
  have hmem : ∀ i ∈ w.blocks isn, RxBuffer.Sacked l c i := by
    intro i hi
    obtain ⟨v, hv, rfl⟩ := mem_map.1 hi
    obtain ⟨j, -, hj, hpos⟩ := hblock v hv
    exact hpos ▸ hj
  refine ⟨by simpa [blocks] using hlength, ?_, fun i hi => ?_, fun i hi => ?_⟩
  · rw [blocks, pairwise_map]
    obtain ⟨-, N, hinv⟩ := id hseg
    obtain ⟨lo, hmarked⟩ := hinv.marked
    have hspan := fun j hj => RxBuffer.Sacked.span (i := j) (c := c) (hinv.within hmarked) hj
    refine hapart.imp_of_mem fun {u v} hu hv huv => ?_
    obtain ⟨i, rfl, hi, hposi⟩ := hblock u hu
    obtain ⟨j, rfl, hj, hposj⟩ := hblock v hv
    rw [RxBuffer.Apart, (hspan i hi).2.2.lt (hspan j hj).2.1,
      (hspan j hj).2.2.lt (hspan i hi).2.1] at huv
    rw [Prod.ext_iff] at hposi hposj
    rwa [hposi.1, hposi.2, hposj.1, hposj.2]
  · rw [hseg.position_next]
    exact ⟨(hmem i hi).1, (hmem i hi).2.1⟩
  · rw [hseg.stretches_eq]
    exact (hmem i hi).2.2

/-- In every run whose segments fit, the SACK list is what it has to be. -/
theorem sackList_of_run {maxBuffer : Nat}
    (hrun : Lts.Run (Receive isn) (SackFits isn) (new isn maxBuffer) w) : SackRight isn w :=
  (hrun.invariant (I := SackInv isn) (fun h hfits hstep => h.receive hfits hstep)
    ⟨⟨[], 0, segments_new isn maxBuffer⟩, by simp [new, RxBuffer.new], by simp [new,
    RxBuffer.new]⟩).right

/-- Segments out of order, some of which touch, and one that overlaps two of them. -/
theorem sackList_of_run_example : ∃ w : World, SackRight 0 w ∧
    w.blocks 0 = [(20, 40), (8, 15)] := by
  have hexec : (Lts.execs (SackFits 0) (receive? 0) (new 0 100)
      [.add 20 (replicate 5 7), .add 30 (replicate 10 7), .add 8 (replicate 7 7),
        .add 0 (replicate 4 7), .add 22 (replicate 12 7), .extract 2]).map (·.blocks 0) =
      some [(20, 40), (8, 15)] := by
    decide +kernel
  obtain ⟨w, hw, hblocks⟩ := map_eq_some_iff.1 hexec
  exact ⟨w, sackList_of_run (Lts.run_of_execs id hw), hblocks⟩

/-- A segment that has a stored one inside takes its place, and the block of that one stays in the
list. -/
theorem sackList_fails : ∃ w, Lts.Run (Receive 0) (Receivable 0) (new 0 100) w ∧
    w.blocks 0 = [(10, 40), (20, 30)] ∧ ¬ SackRight 0 w := by
  have hexec : (Lts.execs (Receivable 0) (receive? 0) (new 0 100)
      [.add 20 (replicate 10 7), .add 10 (replicate 30 7)]).map (·.blocks 0) =
      some [(10, 40), (20, 30)] := by
    decide +kernel
  obtain ⟨w, hw, hblocks⟩ := map_eq_some_iff.1 hexec
  refine ⟨w, Lts.run_of_execs id hw, hblocks, fun hright => ?_⟩
  have hapart := hright.apart
  rw [hblocks] at hapart
  simp at hapart

end World

end OranNs3.Tcp
