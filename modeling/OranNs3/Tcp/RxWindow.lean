import OranNs3.Tcp.RxSegments

/-!
# The receive window

The first number that a receive buffer does not accept is the one `m_maxBuffer` above the first byte
that was not extracted, whether the buffer is empty, has data in order, or only data out of order
(`World.Segments.maxRxSequence`). `Add` cuts a segment at `m_maxBuffer` above the first byte that is
stored. That is the same place only where there is data in order: an empty buffer cuts nothing off,
and one that has only data out of order cuts later.
-/

namespace OranNs3.Tcp

open SequenceNumber32 List Option
open Intervals hiding insert

namespace World

variable {isn : Nat} {w w' : World} {l l' : List (Nat × Nat)} {c c' x limit : Nat}
  {call : SegmentCall}

/-! ## What is stored -/

/-- The stretches that are stored, as positions. -/
def stretches (isn : Nat) (w : World) : List (Nat × Nat) :=
  w.rx.data.map fun e => (w.position isn e.1, w.position isn e.1 + e.2.length)

section
variable (h : Segments isn w l c)
include h

theorem Segments.stretches_eq : w.stretches isn = l := by
  obtain ⟨-, N, hinv⟩ := h
  obtain ⟨lo, hmarked⟩ := hinv.marked
  have hdata : blankData w.rx.data = l.map (stored isn (List.replicate N 0)) := hinv.data
  have hmap := congrArg (List.map fun e : Nat × List UInt8 =>
    (w.position isn e.1, w.position isn e.1 + e.2.length)) hdata
  rw [blankData, List.map_map, List.map_map] at hmap
  have hstored : ∀ i ∈ l, (w.position isn (stored isn (List.replicate N 0) i).1,
      w.position isn (stored isn (List.replicate N 0) i).1 +
      (stored isn (List.replicate N 0) i).2.length) = i := by
    intro i hi
    have hpos := hinv.position hmarked (hmarked.stored i hi).1 (hinv.inside i hi).1
    rw [position_blank] at hpos
    have hlen : (slice (List.replicate N 0) i).length = i.2 - i.1 :=
      length_slice (hinv.inside i hi).2
    have hle := (hinv.sorted.1 i hi).le
    simp only [stored, hpos, hlen, Nat.add_sub_cancel' hle]
  calc w.rx.data.map (fun e => (w.position isn e.1, w.position isn e.1 + e.2.length))
    _ = l.map _ := by simpa [Function.comp_def] using hmap
    _ = l.map id := List.map_congr_left hstored
    _ = l := List.map_id l

theorem Segments.sorted : Sorted l := by
  obtain ⟨-, N, hinv⟩ := h
  exact hinv.sorted

theorem Segments.le_of_mem {i : Nat × Nat} (hi : i ∈ l) : w.extracted.length ≤ i.1 := by
  obtain ⟨-, N, hinv⟩ := h
  have hin := (hinv.inside i hi).1
  rwa [blank, length_blank] at hin

theorem Segments.received (x : Nat) : Covers w.offered x ↔ x < w.extracted.length ∨ Covers l x := by
  obtain ⟨-, N, hinv⟩ := h
  have hreceived := hinv.received x
  rwa [blank, length_blank] at hreceived

theorem Segments.covered : w.extracted.length ≤ c ∧
    (∀ x, w.extracted.length ≤ x → x < c → Covers l x) ∧ ∀ i ∈ l, i.2 ≤ c ∨ c < i.1 := by
  obtain ⟨-, N, hinv⟩ := h
  have hle := hinv.le
  have hcov := hinv.covered
  simp only [blank, length_blank] at hle hcov
  exact ⟨hle, hcov, hinv.gap⟩

theorem Segments.size : w.rx.size = Intervals.size l := by
  obtain ⟨-, N, hinv⟩ := h
  exact hinv.size

/-- The first byte that is stored is the first that was not extracted, where that is there;
otherwise nothing is stored in order. -/
theorem Segments.head_cases : (∃ i l', l = i :: l' ∧ i.1 = w.extracted.length ∧ i.1 < c) ∨
    c = w.extracted.length ∧ ∀ i ∈ l, c < i.1 := by
  obtain ⟨hle, hcov, hgap⟩ := h.covered
  rcases hle.eq_or_lt with heq | hlt
  · refine Or.inr ⟨heq.symm, fun i hi => (hgap i hi).resolve_left fun hic => ?_⟩
    have hne := h.sorted.1 i hi
    have hfirst := h.le_of_mem hi
    omega
  · obtain ⟨j, hj, hj1, -⟩ := hcov _ le_rfl hlt
    cases l with
    | nil => simp at hj
    | cons i l =>
      obtain ⟨hne, hafter, -⟩ := sorted_cons.1 h.sorted
      have hfirst := h.le_of_mem (mem_cons_self (a := i) (l := l))
      have hij : i.1 ≤ j.1 := by
        rcases mem_cons.1 hj with rfl | hj
        · exact le_rfl
        · exact hne.le.trans (hafter j hj)
      exact Or.inl ⟨i, l, rfl, by omega, by omega⟩

end

/-! ## The limit -/

/-- There is data in order: the test that `MaxRxSequence` makes. -/
def InOrder (w : World) : Prop := ∃ e ∈ w.rx.data.head?, Gt w.rx.nextRxSeq e.1
deriving Decidable

section
variable (h : Segments isn w l c)
include h

theorem Segments.numbers : w.rx.data.map Prod.fst = l.map fun i => seq isn i.1 := by
  obtain ⟨-, N, hinv⟩ := h
  have hdata : blankData w.rx.data = l.map (stored isn (List.replicate N 0)) := hinv.data
  have hmap := congrArg (List.map Prod.fst) hdata
  rwa [blankData, List.map_map, List.map_map] at hmap

theorem Segments.gt_next {i : Nat × Nat} (hi : i ∈ l) :
    Gt w.rx.nextRxSeq (seq isn i.1) ↔ i.1 < c := by
  rw [h.next]
  obtain ⟨hfin, N, hinv⟩ := h
  obtain ⟨lo, hmarked⟩ := hinv.marked
  have hc : Span lo c := by
    have hfin' : w.blank.rx.gotFin = false := hfin
    simpa [nextPosition, hfin'] using hmarked.next
  exact hc.gt (hmarked.stored i hi).1

theorem Segments.inOrder_iff : w.InOrder ↔ w.extracted.length < c := by
  have hnumbers := h.numbers
  rcases h.head_cases with ⟨i, l', rfl, hi, hic⟩ | ⟨hc, hafter⟩
  · cases hdata : w.rx.data with
    | nil => simp [hdata] at hnumbers
    | cons e rest =>
      have he : e.1 = seq isn i.1 := (cons.inj (by simpa [hdata] using hnumbers)).1
      have hgt := (h.gt_next mem_cons_self).2 hic
      exact iff_of_true ⟨e, by simp [hdata], he ▸ hgt⟩ (by omega)
  · refine iff_of_false (fun ⟨e, he, hgt⟩ => ?_) (by omega)
    cases hdata : w.rx.data with
    | nil => simp [hdata] at he
    | cons e' rest =>
      obtain rfl : e' = e := by simpa [hdata] using he
      cases l with
      | nil => simp [hdata] at hnumbers
      | cons i l =>
        have he : e'.1 = seq isn i.1 := (cons.inj (by simpa [hdata] using hnumbers)).1
        have hic := (h.gt_next mem_cons_self).1 (he ▸ hgt)
        have hci := hafter i mem_cons_self
        omega

theorem Segments.maxRxSequence :
    w.rx.maxRxSequence = seq isn (w.extracted.length + w.rx.maxBuffer) := by
  have hnumbers := h.numbers
  have hnext := h.next
  rw [RxBuffer.maxRxSequence, if_neg (by simp [h.1])]
  rcases h.head_cases with ⟨i, l', rfl, hi, hic⟩ | ⟨hc, hafter⟩
  · cases hdata : w.rx.data with
    | nil => simp [hdata] at hnumbers
    | cons e rest =>
      have he : e.1 = seq isn i.1 := (cons.inj (by simpa [hdata] using hnumbers)).1
      have hgt := (h.gt_next mem_cons_self).2 hic
      dsimp only
      rw [he, if_pos hgt, add_seq, hi]
  · cases hdata : w.rx.data with
    | nil =>
      dsimp only
      rw [hnext, add_seq, hc]
    | cons e rest =>
      cases l with
      | nil => simp [hdata] at hnumbers
      | cons i l =>
        have he : e.1 = seq isn i.1 := (cons.inj (by simpa [hdata] using hnumbers)).1
        have hngt : ¬ Gt w.rx.nextRxSeq (seq isn i.1) := fun hgt => by
          have hic := (h.gt_next mem_cons_self).1 hgt
          have hci := hafter i mem_cons_self
          omega
        dsimp only
        rw [he, if_neg hngt, hnext, add_seq, hc]

theorem Segments.position_maxRxSequence (hmax : w.rx.maxBuffer < 2 ^ 32) :
    w.position isn w.rx.maxRxSequence = w.extracted.length + w.rx.maxBuffer := by
  rw [h.maxRxSequence]
  exact position_seq (by omega) (by omega)

end

/-! ## What is accepted -/

/-- No stored byte is at the position or after it. -/
def StoredBelow (isn : Nat) (w : World) (limit : Nat) : Prop :=
  ∀ e ∈ w.rx.data, w.position isn e.1 + e.2.length ≤ limit
deriving Decidable

theorem Segments.storedBelow_iff (h : Segments isn w l c) : w.StoredBelow isn limit ↔ ∀ x,
    Covers l x → x < limit := by
  have hmap := h.stretches_eq
  have hsorted := h.sorted
  have hends : w.StoredBelow isn limit ↔ ∀ i ∈ l, i.2 ≤ limit := by
    rw [← hmap, stretches, List.forall_mem_map]
    rfl
  rw [hends]
  constructor
  · rintro hall x ⟨i, hi, -, hx⟩
    exact hx.trans_le (hall i hi)
  · intro hall i hi
    have hne := hsorted.1 i hi
    have hlast := hall (i.2 - 1) ⟨i, hi, by omega, by omega⟩
    omega

/-- What the socket checks: the segment begins below the limit. -/
def HeadFits (isn : Nat) (w : World) : SegmentCall → Prop
  | .add k p => w.Receivable isn (.add k p) ∧ Lt (seq isn k) w.rx.maxRxSequence
  | .extract _ => True

/-- The segment ends at the limit or before it, or there is data in order. -/
def TailFits (isn : Nat) (w : World) : SegmentCall → Prop
  | .add k p => k + p.length ≤ w.position isn w.rx.maxRxSequence ∨ w.InOrder
  | .extract _ => True

instance (w : World) : DecidablePred (w.HeadFits isn)
  | .add _ _ => inferInstanceAs (Decidable (_ ∧ _))
  | .extract _ => inferInstanceAs (Decidable True)

instance (w : World) : DecidablePred (w.TailFits isn)
  | .add _ _ => inferInstanceAs (Decidable (_ ∨ _))
  | .extract _ => inferInstanceAs (Decidable True)

theorem HeadFits.receivable (hfits : w.HeadFits isn call) : w.Receivable isn call := by
  cases call with
  | add => exact hfits.1
  | extract => trivial

section
variable (h : Segments isn w l c)
include h

theorem Segments.mem_marks : w.extracted.length ∈ w.marks isn := by
  have hcases := h.head_cases
  obtain ⟨hfin, N, hinv⟩ := h
  have hmarks := hinv.marks_eq
  have hfin' : w.blank.rx.gotFin = false := hfin
  rw [marks_blank, nextPosition, hfin'] at hmarks
  rw [hmarks]
  rcases hcases with ⟨i, l', rfl, hi, -⟩ | ⟨hc, -⟩
  · simp [hi]
  · simp [hc]

theorem Segments.head_lt {k : Nat} {p : List UInt8} (hfits : w.HeadFits isn (.add k p)) :
    k < w.extracted.length + w.rx.maxBuffer := by
  obtain ⟨⟨hnear, -⟩, hlt⟩ := hfits
  rw [h.maxRxSequence] at hlt
  have hbefore : k < w.extracted.length + 2 ^ 31 :=
    hnear k mem_cons_self _ (mem_cons_of_mem _ (mem_cons_of_mem _ h.mem_marks))
  by_contra hge
  have hpos : k < w.extracted.length + w.rx.maxBuffer := (lt_seq (by omega) (by omega)).1 hlt
  omega

theorem Segments.windowEnd {e : Nat} (he : e ∈ w.windowEnd isn) :
    w.extracted.length + w.rx.maxBuffer ≤ e ∧
      (w.InOrder → e = w.extracted.length + w.rx.maxBuffer) ∧
      (¬ w.InOrder → w.extracted.length + w.rx.maxBuffer < e) := by
  rw [h.inOrder_iff]
  obtain ⟨e', he', rfl⟩ := map_eq_some_iff.1 he
  have hmap := h.stretches_eq
  have hfirst : ∃ i ∈ l.head?, i.1 = w.position isn e'.1 := by
    rw [← hmap, stretches, head?_map, he']
    exact ⟨_, rfl, rfl⟩
  obtain ⟨i, hi, hi1⟩ := hfirst
  rcases h.head_cases with ⟨i', l', rfl, hi', hic⟩ | ⟨hc, hafter⟩
  · cases hi
    rw [← hi1]
    omega
  · have hci := hafter i (mem_of_mem_head? hi)
    rw [← hi1]
    omega

theorem Segments.covers_receive (h' : Segments isn w' l' c') (hstep : w.Receive isn call w')
    (hx : Covers l' x) : Covers l x ∨ ∃ k p, call = .add k p ∧ k ≤ x ∧
      x < (w.windowEnd isn).elim (k + p.length) (min (k + p.length)) := by
  obtain ⟨i, hi, hix, -⟩ := id hx
  have hold := h'.le_of_mem hi
  have hoffered := (h'.received x).2 (Or.inr hx)
  cases call with
  | add k p =>
    obtain ⟨⟨rx, r⟩, -, rfl⟩ := map_eq_some_iff.1 hstep
    rw [covers_cons] at hoffered
    rcases hoffered with hnew | hoffered
    · exact Or.inr ⟨k, p, rfl, hnew⟩
    · rcases (h.received x).1 hoffered with hlt | hcov
      · dsimp only at hold
        omega
      · exact Or.inl hcov
  | extract maxSize =>
    obtain ⟨⟨rx, r⟩, -, rfl⟩ := map_eq_some_iff.1 hstep
    rcases (h.received x).1 hoffered with hlt | hcov
    · simp only [length_append] at hold
      omega
    · exact Or.inl hcov

/-- Nothing is stored beyond the limit exactly when the segment fits. -/
theorem Segments.storedBelow_receive (hmax : w.rx.maxBuffer < 2 ^ 32)
    (hbelow : w.StoredBelow isn (w.position isn w.rx.maxRxSequence)) (hfits : w.HeadFits isn call)
    (hstep : w.Receive isn call w') :
    w'.StoredBelow isn (w.position isn w.rx.maxRxSequence) ↔ w.TailFits isn call := by
  obtain ⟨l', c', h'⟩ := h.receive hfits.receivable hstep
  rw [h.storedBelow_iff] at hbelow
  rw [h'.storedBelow_iff]
  rw [h.position_maxRxSequence hmax] at hbelow ⊢
  cases call with
  | extract maxSize =>
    refine iff_of_true (fun x hx => ?_) trivial
    rcases h.covers_receive h' hstep hx with hcov | ⟨k, p, hcall, -⟩
    · exact hbelow x hcov
    · cases hcall
  | add k p =>
    have hhead := h.head_lt hfits
    rw [TailFits, h.position_maxRxSequence hmax]
    constructor
    · intro hall
      by_contra hnot
      obtain ⟨htail, horder⟩ := not_or.1 hnot
      -- the byte at the limit was offered, so it is stored
      obtain ⟨⟨rx, r⟩, -, rfl⟩ := map_eq_some_iff.1 hstep
      have hcut : w.extracted.length + w.rx.maxBuffer < (w.windowEnd isn).elim (k + p.length)
        (min (k + p.length)) := by
        cases hend : w.windowEnd isn with
        | none => simpa using htail
        | some e =>
          have he := (h.windowEnd hend).2.2 horder
          simp only [elim_some, lt_min_iff]
          exact ⟨by omega, he⟩
      have hoffered :
          Covers ((k, (w.windowEnd isn).elim (k + p.length) (min (k + p.length))) :: w.offered)
          (w.extracted.length + w.rx.maxBuffer) := covers_cons.2 (Or.inl ⟨hhead.le, hcut⟩)
      rcases (h'.received _).1 hoffered with hlt | hcov
      · dsimp only at hlt
        omega
      · exact absurd (hall _ hcov) (lt_irrefl _)
    · intro htail x hx
      rcases h.covers_receive h' hstep hx with hcov | ⟨k, p, hcall, hkx, hxt⟩
      · exact hbelow x hcov
      · cases hcall
        cases hend : w.windowEnd isn with
        | none =>
          rw [hend, elim_none] at hxt
          rcases htail with htail | horder
          · omega
          · obtain ⟨e, he, -⟩ := horder
            simp [World.windowEnd, mem_def.1 he] at hend
        | some e =>
          have he := h.windowEnd hend
          rw [hend, elim_some, lt_min_iff] at hxt
          rcases htail with htail | horder
          · omega
          · rw [← he.2.1 horder]
            exact hxt.2

end

/-! ## Runs -/

/-- The invariant of runs whose segments fit. -/
def Bounded (isn maxBuffer : Nat) (w : World) : Prop :=
  (∃ l c, Segments isn w l c) ∧ w.rx.maxBuffer = maxBuffer ∧
    w.StoredBelow isn (w.position isn w.rx.maxRxSequence)

variable {maxBuffer : Nat}

theorem receive_frame (hstep : w.Receive isn call w') :
    w'.rx.maxBuffer = w.rx.maxBuffer ∧ w.extracted.length ≤ w'.extracted.length := by
  cases call with
  | add k p =>
    obtain ⟨⟨rx, r⟩, hadd, rfl⟩ := map_eq_some_iff.1 hstep
    exact ⟨(RxBuffer.add_frame hadd).2, le_rfl⟩
  | extract maxSize =>
    obtain ⟨⟨rx, r⟩, hextract, rfl⟩ := map_eq_some_iff.1 hstep
    exact ⟨(RxBuffer.extract_frame hextract).2.1, by simp⟩

theorem Bounded.receive (hmax : maxBuffer < 2 ^ 32) (h : Bounded isn maxBuffer w)
    (hfits : w.HeadFits isn call ∧ w.TailFits isn call) (hstep : w.Receive isn call w') :
    Bounded isn maxBuffer w' := by
  obtain ⟨⟨l, c, hseg⟩, rfl, hbelow⟩ := h
  obtain ⟨l', c', hseg'⟩ := hseg.receive hfits.1.receivable hstep
  obtain ⟨hlimit, hle⟩ := receive_frame hstep
  refine ⟨⟨l', c', hseg'⟩, hlimit, ?_⟩
  have hbelow' := (hseg.storedBelow_receive hmax hbelow hfits.1 hstep).2 hfits.2
  rw [hseg'.storedBelow_iff] at hbelow' ⊢
  rw [hseg.position_maxRxSequence hmax] at hbelow'
  rw [hseg'.position_maxRxSequence (hlimit ▸ hmax), hlimit]
  intro x hx
  have hlt := hbelow' x hx
  omega

theorem bounded_of_run (hmax : maxBuffer < 2 ^ 32) (hrun : Lts.Run (Receive isn)
    (fun w call => w.HeadFits isn call ∧ w.TailFits isn call) (new isn maxBuffer) w) :
      Bounded isn maxBuffer w :=
  hrun.invariant (I := Bounded isn maxBuffer) (fun h hfits hstep => h.receive hmax hfits hstep)
    ⟨⟨[], 0, segments_new isn maxBuffer⟩, rfl, by simp [StoredBelow, new, RxBuffer.new]⟩

/-- In every run of segments that begin below the limit and fit, no byte at the limit or beyond it
is stored; and the next call whose segment begins below the limit stores none there exactly when it
fits. -/
theorem rxWindow_of_run (hmax : maxBuffer < 2 ^ 32) (hrun : Lts.Run (Receive isn)
      (fun w call => w.HeadFits isn call ∧ w.TailFits isn call) (new isn maxBuffer) w) :
    w.StoredBelow isn (w.position isn w.rx.maxRxSequence) ∧ w.rx.size ≤ maxBuffer ∧
      ∀ call w', w.HeadFits isn call → w.Receive isn call w' →
        (w'.StoredBelow isn (w.position isn w.rx.maxRxSequence) ↔ w.TailFits isn call) := by
  obtain ⟨⟨l, c, hseg⟩, rfl, hbelow⟩ := bounded_of_run hmax hrun
  refine ⟨hbelow, ?_, fun call w' hfits hstep => hseg.storedBelow_receive hmax hbelow hfits hstep⟩
  rw [hseg.storedBelow_iff, hseg.position_maxRxSequence hmax] at hbelow
  have hsize :=
    hseg.sorted.size_le (a := w.extracted.length) (b := w.extracted.length + w.rx.maxBuffer)
      fun i hi => by
    have hne := hseg.sorted.1 i hi
    have hlast := hbelow (i.2 - 1) ⟨i, hi, by omega, by omega⟩
    exact ⟨hseg.le_of_mem hi, by omega⟩
  rw [hseg.size]
  omega

/-- Segments in order and out of order fill a buffer of ten bytes, and one is cut. -/
theorem rxWindow_of_run_example : ∃ w : World, w.StoredBelow 0 (w.position 0 w.rx.maxRxSequence) ∧
    w.rx.size = 10 := by
  have hexec :
    (Lts.execs (fun w call => HeadFits 0 w call ∧ TailFits 0 w call) (receive? 0) (new 0 10)
      [.add 6 [1, 2], .add 0 [3, 4, 5], .add 3 [6, 7, 8], .extract 4, .add 8 (replicate 20 9)]).map
      (·.rx.size) = some 10 := by
    decide +kernel
  obtain ⟨w, hw, hsize⟩ := map_eq_some_iff.1 hexec
  exact ⟨w, (rxWindow_of_run (by decide) (Lts.run_of_execs id hw)).1, hsize⟩

/-- A segment that begins below the limit of an empty buffer is stored to its end; and one that
comes after data out of order is stored beyond the limit too, after which the buffer gets more than
its size. -/
theorem rxWindow_fails :
    (∃ w w', Lts.Run (Receive 0) (HeadFits 0) (new 0 10) w ∧
      w.HeadFits 0 (.add 0 (List.replicate 20 7)) ∧ w.Receive 0 (.add 0 (List.replicate 20 7)) w' ∧
      ¬ w'.StoredBelow 0 (w.position 0 w.rx.maxRxSequence) ∧ w'.rx.size = 20) ∧
    ∃ w, Lts.Run (Receive 0) (HeadFits 0) (new 0 10) w ∧ w.rx.size = 15 := by
  constructor
  · have hexec : (receive? 0 (new 0 10) (.add 0 (replicate 20 7))).map (fun w' =>
        (decide (w'.StoredBelow 0 ((new 0 10).position 0 (new 0 10).rx.maxRxSequence)),
          w'.rx.size)) =
        some (false, 20) := by
      decide +kernel
    obtain ⟨w', hstep, hm⟩ := map_eq_some_iff.1 hexec
    obtain ⟨hbelow, hsize⟩ := Prod.mk.inj hm
    exact ⟨new 0 10, w', .refl _, by decide +kernel, hstep, of_decide_eq_false hbelow, hsize⟩
  · have hexec : (Lts.execs (HeadFits 0) (receive? 0) (new 0 10)
        [.add 5 (replicate 3 7), .add 8 (replicate 7 7), .add 0 (replicate 5 7)]).map
        (·.rx.size) = some 15 := by
      decide +kernel
    obtain ⟨w, hw, hsize⟩ := map_eq_some_iff.1 hexec
    exact ⟨w, Lts.run_of_execs id hw, hsize⟩

end World

end OranNs3.Tcp
