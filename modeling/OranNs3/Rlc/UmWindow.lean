import OranNs3.Lib.Run
import OranNs3.Rlc.UmRx

/-!
# The reception buffer of an UM entity

PDUs of any sequence numbers in any order. The buffer should hold numbers between `VR(UR)` and
`VR(UH)` only (`UmRx.Windowed`). Two places of the code lose this at a wrap of the raw numbers:
`ReassembleOutsideWindow` stops at the first number in the order of the map that is inside of the
window, and the first number from `VR(UR)` on that is missing is searched among raw numbers, where
1024 comes behind 1023 (`Regular` excludes both). `window_of_run` is about runs without these two
cases.
-/

namespace OranNs3.Rlc

open Fallible Keyed List Lts

variable {α : Type} {rx rx' : UmRx α} {u h k i j v b : Nat} {l : List (DataPdu α)}
  {n : SequenceNumber10} {pdu : DataPdu α}

namespace UmRx

/-- The raw sequence numbers of the packets in the buffer. -/
def numbers (rx : UmRx α) : List Nat := rx.rxBuffer.map DataPdu.sequenceNumber

theorem has_iff : rx.has k = true ↔ k ∈ rx.numbers := by
  rw [has, find, numbers]
  cases hf : Keyed.find? DataPdu.sequenceNumber k rx.rxBuffer with
  | none => simpa using Keyed.find?_eq_none.1 hf
  | some pdu => simpa using mem_keys_of_find? hf

/-- Every raw number of the buffer is that of a number in a range. -/
def Between (l : List (DataPdu α)) (u h : Nat) : Prop :=
  ∀ pdu ∈ l, ∃ j, u ≤ j ∧ j < h ∧ pdu.sequenceNumber = j % 1024

theorem Between.mono (hb : Between l u h) {u' h' : Nat} (hu : u' ≤ u) (hh : h ≤ h') :
    Between l u' h' :=
  fun pdu hpdu => by
    obtain ⟨j, h1, h2, h3⟩ := hb pdu hpdu
    exact ⟨j, by omega, by omega, h3⟩

theorem Between.of_mem (hb : Between rx.rxBuffer u h) (hmem : k ∈ rx.numbers) :
    ∃ j, u ≤ j ∧ j < h ∧ k = j % 1024 := by
  obtain ⟨pdu, hpdu, rfl⟩ := mem_map.1 hmem
  exact hb pdu hpdu

/-! ## The walk over the map -/

/-- A PDU is outside of the window of the numbers before `h`. -/
def outside (h : Nat) (pdu : DataPdu α) : Bool := 512 ≤ (h + 1023 - pdu.sequenceNumber) % 1024

theorem isInside_not_outside (rx : UmRx α) (hh : rx.vrUh.value = h % 1024)
    (hsn : pdu.sequenceNumber < 1024) :
    rx.isInsideReorderingWindow (.ofValue pdu.sequenceNumber) = .ok (!outside h pdu) := by
  have hk : (SequenceNumber10.ofValue pdu.sequenceNumber).value =
      (h + 512 + (pdu.sequenceNumber + 1024 - (h + 512) % 1024) % 1024) % 1024 := by
    rw [SequenceNumber10.ofValue]
    dsimp only
    omega
  rw [isInside_eq rx hh hk (by omega) (by omega), outside, ← decide_not]
  exact congrArg Except.ok (decide_eq_decide.2 (by omega))

/-- What only the buffer and the reassembly differ in, and the base of `VR(UH)`. -/
structure SameValues (rx rx' : UmRx α) : Prop where
  vrUr : rx'.vrUr = rx.vrUr
  vrUx : rx'.vrUx = rx.vrUx
  vrUh : rx'.vrUh.value = rx.vrUh.value
  reorderingTimer : rx'.reorderingTimer = rx.reorderingTimer

theorem SameValues.rebase (rx : UmRx α) : SameValues rx rx.rebase := ⟨rfl, rfl, rfl, rfl⟩

theorem SameValues.trans {rx₁ : UmRx α} (hs : SameValues rx rx₁) (hs' : SameValues rx₁ rx') :
    SameValues rx rx' :=
  ⟨hs'.vrUr.trans hs.vrUr, hs'.vrUx.trans hs.vrUx, hs'.vrUh.trans hs.vrUh,
    hs'.reorderingTimer.trans hs.reorderingTimer⟩

theorem spec_reassembleAndDeliver (am : Bool) (r : Reassembler α) (pdu : DataPdu α) :
    Spec (· = RlcError.nullPointer) (fun _ => True) (reassembleAndDeliver am r pdu) := by
  have hsplit : ∀ (bits : List Bool) (lis : List Nat) (data : List α),
      Spec (· = RlcError.nullPointer) (fun _ => True) (splitSdus bits lis data) := by
    intro bits
    induction bits with
    | nil => exact fun _ _ => rfl
    | cons bit bits ih =>
      intro lis data
      cases bit with
      | false => exact trivial
      | true =>
        cases lis with
        | nil => exact rfl
        | cons li lis => exact Spec.map ((ih lis (data.drop li)).imp fun _ _ => trivial)
  refine (hsplit _ _ _).bind fun sdus _ => ?_
  unfold transition
  split
  · trivial
  · trivial
  · split <;> trivial
  · rw [continueSdus]
    split
    · trivial
    · split
      · split
        · trivial
        · split <;> trivial
      · rfl

theorem spec_reassembleOutside : ∀ {l : List (DataPdu α)} (rx : UmRx α), rx.vrUh.value = h % 1024 →
    (∀ pdu ∈ l, pdu.sequenceNumber < 1024) →
    Spec (· = RlcError.nullPointer)
      (fun rx' => SameValues rx rx' ∧ rx'.rxBuffer = l.dropWhile (outside h))
        (reassembleOutside l rx)
  | [], _, _, _ => ⟨⟨rfl, rfl, rfl, rfl⟩, rfl⟩
  | pdu :: l, rx, hh, hl => by
    obtain ⟨hpdu, hl⟩ := forall_mem_cons.1 hl
    rw [reassembleOutside, isInside_not_outside rx hh hpdu, ok_bind, dropWhile_cons]
    cases hout : outside h pdu with
    | false => exact ⟨⟨rfl, rfl, rfl, rfl⟩, rfl⟩
    | true =>
      refine (spec_reassembleAndDeliver false rx.reassembler pdu).bind fun rs _ => ?_
      refine (spec_reassembleOutside { rx.rebase with reassembler := rs } hh hl).imp fun rx' h' =>
        ?_
      exact ⟨(SameValues.rebase rx).trans ⟨h'.1.vrUr, h'.1.vrUx, h'.1.vrUh, h'.1.reorderingTimer⟩,
        h'.2⟩

theorem mem_dropWhile_outside (hordered : Keyed.Ordered DataPdu.sequenceNumber l)
    (hbefore : ∀ p ∈ l, outside h p = true → ∀ q ∈ l, outside h q = false →
      p.sequenceNumber < q.sequenceNumber) :
    pdu ∈ l.dropWhile (outside h) ↔ pdu ∈ l ∧ outside h pdu = false := by
  induction l with
  | nil => simp
  | cons p l ih =>
    obtain ⟨hfirst, hordered⟩ := pairwise_cons.1 hordered
    rw [dropWhile_cons]
    cases hp : outside h p with
    | true =>
      have hrest := ih hordered fun p' hp' hout q hq => hbefore p' (mem_cons_of_mem _ hp') hout q
        (mem_cons_of_mem _ hq)
      rw [if_pos rfl, hrest, mem_cons]
      refine ⟨fun hmem => ⟨.inr hmem.1, hmem.2⟩, fun ⟨hmem, hin⟩ => ⟨hmem.resolve_left ?_, hin⟩⟩
      rintro rfl
      cases hp.symm.trans hin
    | false =>
      rw [if_neg Bool.false_ne_true]
      refine (and_iff_left_of_imp fun hmem => ?_).symm
      by_contra hout
      rw [Bool.not_eq_false] at hout
      rcases mem_cons.1 hmem with rfl | hmem'
      · cases hp.symm.trans hout
      · exact lt_asymm (hfirst pdu hmem') (hbefore pdu hmem hout p mem_cons_self hp)

/-! ## Advancing `VR(UR)` -/

/-- `ReassembleSnInterval`: the packets of the numbers in between leave the buffer. -/
theorem spec_reassembleSnInterval {high : SequenceNumber10} (hhigh : high.Rep b (v + 1024))
    (hbv : b ≤ v + 1024) (hvb : v + 1024 < b + 1024) :
    ∀ (fuel : Nat) {i : Nat} {n : SequenceNumber10} (rx : UmRx α),
      n.Rep b (i + 1024) → b ≤ i + 1024 → i ≤ v → v < i + fuel →
      Keyed.Ordered DataPdu.sequenceNumber rx.rxBuffer →
      Spec (· = RlcError.nullPointer)
        (fun rx' => SameVariables rx rx' ∧ Keyed.Ordered DataPdu.sequenceNumber rx'.rxBuffer ∧
          ∀ pdu, pdu ∈ rx'.rxBuffer ↔ pdu ∈ rx.rxBuffer ∧ ∀ j, i ≤ j → j < v →
            pdu.sequenceNumber ≠ j % 1024) (reassembleSnInterval high fuel n rx)
  | 0, _, _, _, _, _, _, hfuel, _ => by omega
  | fuel + 1, i, n, rx, hn, hbi, hiv, hfuel, hordered => by
    have hcmp : n.lt high = .ok (decide (i + 1024 < v + 1024)) := hn.lt hhigh hbi (by omega) hbv hvb
    rcases lt_or_ge i v with hlt | hge
    · rw [decide_eq_true (by omega)] at hcmp
      rw [reassembleSnInterval, hcmp, ok_bind, if_pos rfl]
      have hvalue : n.value = i % 1024 := by
        rw [hn.value]
        omega
      have hincr : n.incr.Rep b (i + 1 + 1024) := by
        have hrep := hn.incr
        rwa [add_right_comm] at hrep
      -- the packet of the first number
      have hfirst : Spec (· = RlcError.nullPointer)
          (fun rx₁ => SameVariables rx rx₁ ∧
            rx₁.rxBuffer = erase DataPdu.sequenceNumber (i % 1024) rx.rxBuffer)
          (rx.reassembleSn n.value) := by
        rw [hvalue, reassembleSn, find]
        cases hf : Keyed.find? DataPdu.sequenceNumber (i % 1024) rx.rxBuffer with
        | none => exact ⟨SameVariables.refl, (erase_of_notMem (find?_eq_none.1 hf)).symm⟩
        | some pdu =>
          exact Spec.map ((spec_reassembleAndDeliver false rx.reassembler pdu).imp fun rs _ =>
            ⟨⟨rfl, rfl, rfl, rfl⟩, rfl⟩)
      refine hfirst.bind fun rx₁ h₁ => ?_
      obtain ⟨hsame₁, hbuffer⟩ := h₁
      refine (spec_reassembleSnInterval hhigh hbv hvb fuel _ hincr (by omega) hlt (by omega)
        (hbuffer ▸ hordered.erase)).imp fun rx' h' => ?_
      obtain ⟨hsame, hordered', hmem⟩ := h'
      refine ⟨hsame₁.trans hsame, hordered', fun pdu => ?_⟩
      rw [hmem, hbuffer, mem_erase, and_assoc]
      refine and_congr_right fun _ => ⟨fun hall j h1 h2 => ?_, fun hall => ⟨hall i le_rfl hlt, ?_⟩⟩
      · obtain ⟨hne, hrest⟩ := hall
        rcases eq_or_lt_of_le h1 with rfl | h1
        · exact hne
        · exact hrest j h1 h2
      · exact fun j h1 h2 => hall j (by omega) h2
    · rw [decide_eq_false (by omega)] at hcmp
      rw [reassembleSnInterval, hcmp, ok_bind, if_neg Bool.false_ne_true]
      refine ⟨SameVariables.refl, hordered, fun pdu => ?_⟩
      rw [and_iff_left]
      intro j h1 h2
      omega

theorem firstAbsent_spec (hlt : ∀ k ∈ rx.numbers, k < 1024) : ∀ (fuel : Nat) {i : Nat}, i ≤ 1024 →
    1024 < i + fuel → ∃ sn, rx.firstAbsent fuel i = .ok sn ∧ i ≤ sn ∧ sn ≤ 1024 ∧ sn ∉ rx.numbers ∧
      ∀ k, i ≤ k → k < sn → k ∈ rx.numbers
  | 0, i, hi, hfuel => by omega
  | fuel + 1, i, hi, hfuel => by
    rw [firstAbsent]
    split
    · next hhas =>
      have hmem := has_iff.1 hhas
      have hlti := hlt i hmem
      obtain ⟨sn, hok, hle, hsn, hnot, hall⟩ :=
        firstAbsent_spec hlt fuel (i := i + 1) hlti (by omega)
      refine ⟨sn, hok, by omega, hsn, hnot, fun k h1 h2 => ?_⟩
      rcases eq_or_lt_of_le h1 with rfl | h1
      · exact hmem
      · exact hall k h1 h2
    · next hnot =>
      exact ⟨i, rfl, le_rfl, hi, fun hmem => hnot (has_iff.2 hmem), fun k h1 h2 => by omega⟩

/-- `VR(UR)` moves behind PDUs that have been received, and these leave the buffer; they do not go
on from 1023 to 0. -/
theorem spec_advanceVrUr (hordered : Keyed.Ordered DataPdu.sequenceNumber rx.rxBuffer)
    (hbetween : Between rx.rxBuffer u h) (huh : u ≤ h) (hhu : h ≤ u + 512)
    (hUr : rx.vrUr.Rep b (u + 1024)) (hb : b ≤ u + 1024) (hroom : u % 1024 ∈ rx.numbers → h < b)
    (hwrap : ¬ (0 ∈ rx.numbers ∧ ∀ k < 1024, u % 1024 ≤ k → k ∈ rx.numbers)) :
    Spec (· = RlcError.nullPointer) (fun rx' => ∃ u', u ≤ u' ∧ u' ≤ h ∧ rx'.vrUr.value = u' % 1024 ∧
        Keyed.Ordered DataPdu.sequenceNumber rx'.rxBuffer ∧ Between rx'.rxBuffer (u' + 1) h ∧
        rx'.vrUh = rx.vrUh ∧ rx'.vrUx = rx.vrUx ∧ rx'.reorderingTimer = rx.reorderingTimer)
      rx.advanceVrUr := by
  have hvalue : rx.vrUr.value = u % 1024 := by
    rw [hUr.value]
    omega
  have hlt : ∀ k ∈ rx.numbers, k < 1024 := fun k hk => by
    obtain ⟨j, -, -, rfl⟩ := hbetween.of_mem hk
    exact Nat.mod_lt _ (by decide)
  have hraw : ∀ {j : Nat}, u ≤ j → j ≤ h → j % 1024 ∈ rx.numbers → j < h := fun {j} h1 h2 hmem => by
    obtain ⟨i, h3, h4, h5⟩ := hbetween.of_mem hmem
    omega
  rw [advanceVrUr, hvalue]
  by_cases hmem : u % 1024 ∈ rx.numbers
  · rw [if_pos (has_iff.2 hmem)]
    obtain ⟨sn, hok, hle, hsn, hnot, hall⟩ := firstAbsent_spec hlt umLoopFuel (i := u % 1024 + 1)
      (by omega) (by rw [umLoopFuel]; omega)
    rw [hok, ok_bind]
    have hu' : sn % 1024 = (u + (sn - u % 1024)) % 1024 := by omega
    -- the numbers that are found go on without a wrap
    have hrun : ∀ k, u % 1024 ≤ k → k < sn → k ∈ rx.numbers := fun k h1 h2 => by
      rcases eq_or_lt_of_le h1 with rfl | h1
      · exact hmem
      · exact hall k h1 h2
    have hbelow : ∀ d, u % 1024 + d ≤ sn → u + d ≤ h := by
      intro d
      induction d with
      | zero => exact fun _ => huh
      | succ d ih =>
        intro hd
        have hle := ih (by omega)
        have hmod : u % 1024 + d = (u + d) % 1024 := by omega
        have hlt := hraw (j := u + d) (by omega) hle
          (hmod ▸ hrun (u % 1024 + d) (by omega) (by omega))
        omega
    have hu'h : u + (sn - u % 1024) ≤ h := hbelow _ (by omega)
    have hnew : (rx.vrUr.assign sn).Rep b (u + (sn - u % 1024) + 1024) := hUr.assign (by omega)
    have hroom' := hroom hmem
    have habsent : (u + (sn - u % 1024)) % 1024 ∉ rx.numbers := by
      rw [← hu']
      rcases eq_or_lt_of_le hsn with rfl | hsn
      · exact fun hzero => hwrap ⟨hzero, fun k h1 h2 => hrun k h2 h1⟩
      · rwa [Nat.mod_eq_of_lt hsn]
    refine (spec_reassembleSnInterval hnew (by omega) (by omega) umLoopFuel
      { rx with vrUr := rx.vrUr.assign sn } hUr hb (by omega) (by rw [umLoopFuel]; omega)
      hordered).imp fun rx' h' => ?_
    obtain ⟨hsame, hordered', hbuffer⟩ := h'
    refine ⟨u + (sn - u % 1024), by omega, hu'h, ?_, hordered', fun pdu hpdu => ?_, hsame.vrUh,
      hsame.vrUx, hsame.reorderingTimer⟩
    · rw [hsame.vrUr]
      exact hu'
    · obtain ⟨hpdu, hout⟩ := (hbuffer pdu).1 hpdu
      obtain ⟨j, h1, h2, h3⟩ := hbetween pdu hpdu
      refine ⟨j, ?_, h2, h3⟩
      have hne : j ≠ u + (sn - u % 1024) := by
        rintro rfl
        exact habsent (h3 ▸ mem_map_of_mem hpdu)
      have hge : ¬ j < u + (sn - u % 1024) := fun hlt => hout j h1 hlt h3
      omega
  · rw [if_neg fun hhas => hmem (has_iff.1 hhas)]
    refine ⟨u, le_rfl, huh, hvalue, hordered, fun pdu hpdu => ?_, rfl, rfl, rfl⟩
    obtain ⟨j, h1, h2, h3⟩ := hbetween pdu hpdu
    have hne : j ≠ u := by
      rintro rfl
      exact hmem (h3 ▸ mem_map_of_mem hpdu)
    exact ⟨j, by omega, h2, h3⟩

/-! ## The steps -/

/-- A new number is behind the end of the window. -/
def Ahead (rx : UmRx α) (sn : Nat) : Prop := (sn + 1024 - rx.vrUh.value) % 1024 < 512
deriving Decidable

variable (outOfOrderDelivery : Bool)

/-- The numbers that the walk over the map finds behind a new one: if PDUs are delivered out of
order and the new one is the first in the map, it is gone by then. -/
def seen (rx : UmRx α) (sn : Nat) : List Nat :=
  if outOfOrderDelivery = true ∧ ∀ k ∈ rx.numbers, sn < k then rx.numbers else sn :: rx.numbers

/-- The numbers in the buffer before `VR(UR)` is advanced, and others that fall out of the window.
-/
def received (rx : UmRx α) (sn : Nat) : List Nat :=
  if (sn + 1024 - rx.vrUh.value) % 1024 < 512 then rx.seen outOfOrderDelivery sn
    else sn :: rx.numbers

/-- `VR(UR)` before it is advanced. -/
def movedVrUr (rx : UmRx α) (sn : Nat) : Nat :=
  if (sn + 1024 - rx.vrUr.value) % 1024 < 512 then rx.vrUr.value else (sn + 1024 - 511) % 1024

/-- No packet that falls out of the window stands behind one that stays, in the order of the map. -/
def WalkEnds (rx : UmRx α) (sn : Nat) : Prop :=
  rx.Ahead sn → ∀ k ∈ rx.numbers, 512 ≤ (sn + 1024 - k) % 1024 →
    ∀ k' ∈ rx.seen outOfOrderDelivery sn, (sn + 1024 - k') % 1024 < 512 → k < k'
deriving Decidable

/-- The numbers that have been received from `VR(UR)` on do not go from 1023 to 0. -/
def NoWrap (rx : UmRx α) (sn : Nat) : Prop :=
  ¬ (0 ∈ rx.received outOfOrderDelivery sn ∧
    ∀ k < 1024, rx.movedVrUr sn ≤ k → k ∈ rx.received outOfOrderDelivery sn)

instance (d : Bool) (rx : UmRx α) (sn : Nat) : Decidable (rx.NoWrap d sn) :=
  inferInstanceAs (Decidable ¬ _)

/-- The receiving side at `VR(UR) = u` and `VR(UH) = h`. -/
structure Windowed (rx : UmRx α) (u h : Nat) : Prop where
  ordered : Keyed.Ordered DataPdu.sequenceNumber rx.rxBuffer
  between : Between rx.rxBuffer (u + 1) h
  start : 1024 ≤ u
  le : u ≤ h
  h_le : h ≤ u + 512
  timed : Timed rx u h

theorem mem_placePdu (hnew : pdu.sequenceNumber ∉ rx.numbers) {p : DataPdu α} :
    p ∈ (rx.placePdu pdu).rxBuffer ↔ p = pdu ∨ p ∈ rx.rxBuffer :=
  (insert_perm hnew).mem_iff.trans mem_cons

theorem mem_numbers_placePdu (hnew : pdu.sequenceNumber ∉ rx.numbers) :
    k ∈ (rx.placePdu pdu).numbers ↔ k ∈ pdu.sequenceNumber :: rx.numbers :=
  ((insert_perm hnew).map DataPdu.sequenceNumber).mem_iff

/-- What is left after the walk of out-of-order delivery: the new packet is taken out if it is
outside of the window and the first one. -/
theorem dropWhile_placePdu (hordered : Keyed.Ordered DataPdu.sequenceNumber rx.rxBuffer)
    (hinside : ∀ p ∈ rx.rxBuffer, outside h p = false) (hnew : pdu.sequenceNumber ∉ rx.numbers) :
    (rx.placePdu pdu).rxBuffer.dropWhile (outside h) =
      if outside h pdu = true ∧ ∀ k ∈ rx.numbers, pdu.sequenceNumber < k then rx.rxBuffer
      else (rx.placePdu pdu).rxBuffer := by
  have hplaced : Ordered DataPdu.sequenceNumber (rx.placePdu pdu).rxBuffer := hordered.insert
  cases hl : (rx.placePdu pdu).rxBuffer with
  | nil =>
    have hmem := (mem_placePdu hnew (p := pdu)).2 (.inl rfl)
    rw [hl] at hmem
    cases hmem
  | cons q l =>
    rw [hl] at hplaced
    obtain ⟨hfirst, hrest⟩ := pairwise_cons.1 hplaced
    have hperm : (q :: l).Perm (pdu :: rx.rxBuffer) := hl ▸ insert_perm hnew
    rw [dropWhile_cons]
    by_cases hq : q = pdu
    · subst hq
      have hl' : l = rx.rxBuffer := Ordered.eq_of_perm hrest hordered (Perm.cons_inv hperm)
      have hall : ∀ k ∈ rx.numbers, q.sequenceNumber < k := fun k hk => by
        obtain ⟨p, hp, rfl⟩ := mem_map.1 hk
        exact hfirst p (hl' ▸ hp)
      cases hout : outside h q with
      | false => rw [if_neg Bool.false_ne_true, if_neg fun hand => Bool.false_ne_true hand.1]
      | true =>
        rw [if_pos rfl, if_pos ⟨rfl, hall⟩, hl']
        cases hb : rx.rxBuffer with
        | nil => rfl
        | cons p b =>
          have hp := hinside p (hb ▸ mem_cons_self)
          rw [dropWhile_cons, hp, if_neg Bool.false_ne_true]
    · have hqmem : q ∈ rx.rxBuffer := by
        have hmem := hperm.mem_iff.1 mem_cons_self
        exact (mem_cons.1 hmem).resolve_left hq
      rw [hinside q hqmem, if_neg Bool.false_ne_true, if_neg]
      rintro ⟨-, hall⟩
      have hpdu : pdu ∈ q :: l := hperm.mem_iff.2 mem_cons_self
      have hlt := hfirst pdu ((mem_cons.1 hpdu).resolve_left fun h => hq h.symm)
      exact lt_asymm hlt (hall _ (mem_map_of_mem hqmem))

theorem exists_number (hh : 1024 ≤ h) {sn : Nat} (hsn : sn < 1024) :
    ∃ x, h ≤ x + 512 ∧ x < h + 512 ∧ x % 1024 = sn :=
  ⟨h - 512 + (sn + 1024 - (h - 512) % 1024) % 1024, by omega, by omega, by omega⟩

section
variable (hw : Windowed rx u h)
include hw

theorem Windowed.lt : ∀ p ∈ rx.rxBuffer, p.sequenceNumber < 1024 := fun p hp => by
  obtain ⟨j, -, -, hj⟩ := hw.between p hp
  omega

theorem Windowed.bases {x : Nat} (hsn : pdu.sequenceNumber = x % 1024) :
    rx.setBases.vrUr.Rep (h + 512) (u + 1024) ∧ rx.setBases.vrUh.Rep (h + 512) (h + 1024) ∧
      ((SequenceNumber10.ofValue pdu.sequenceNumber).setModulusBase rx.windowBase).Rep (h + 512)
        (x + 1024) := by
  refine ⟨rep_windowBase hw.timed.vrUh (hw.timed.vrUr.trans (Nat.add_mod_right u 1024).symm),
    rep_rebase hw.timed.vrUh, rep_windowBase hw.timed.vrUh ?_⟩
  rw [SequenceNumber10.ofValue, hsn]
  dsimp only
  omega

theorem Windowed.isDiscarded {x : Nat} (hlo : h ≤ x + 512) (hhi : x < h + 512)
    (hsn : pdu.sequenceNumber = x % 1024) :
    rx.setBases.isDiscarded
      ((SequenceNumber10.ofValue pdu.sequenceNumber).setModulusBase rx.windowBase) =
        .ok (decide (u < x ∧ x < h ∧ pdu.sequenceNumber ∈ rx.numbers ∨ x < u)) := by
  obtain ⟨hUr, hUh, hn⟩ := hw.bases hsn
  have hle := hw.le
  have hhu := hw.h_le
  have hlow : rx.setBases.windowBase.Rep (h + 512) (h + 512) :=
    ⟨windowBase_value rx.setBases hw.timed.vrUh, hUh.base⟩
  have hvalue : ((SequenceNumber10.ofValue pdu.sequenceNumber).setModulusBase rx.windowBase).value =
      pdu.sequenceNumber := by
    rw [hn.value]
    omega
  rw [UmRx.isDiscarded, hUr.lt hn (by omega) (by omega) (by omega) (by omega), ok_bind,
    hn.lt hUh (by omega) (by omega) (by omega) (by omega),
    hlow.le hn (by omega) (by omega) (by omega) (by omega),
    hn.lt hUr (by omega) (by omega) (by omega) (by omega), hvalue]
  have hhas : rx.setBases.has pdu.sequenceNumber = decide (pdu.sequenceNumber ∈ rx.numbers) := by
    rw [Bool.eq_iff_iff, decide_eq_true_iff]
    exact has_iff
  rw [hhas]
  by_cases hmem : pdu.sequenceNumber ∈ rx.numbers
  · rcases lt_or_ge u x with h1 | h1
    · rcases lt_or_ge x h with h2 | h2
      · simp [hmem, h1, h2, ok_bind]
      · simp [hmem, h1, ok_bind, not_lt.2 h2, not_lt.2 h1.le, hlo]
    · simp [hmem, ok_bind, not_lt.2 h1, hlo]
  · rcases lt_or_ge u x with h1 | h1
    · by_cases h2 : x < h <;> simp [hmem, h1, h2, ok_bind, not_lt.2 h1.le, hlo]
    · simp [hmem, ok_bind, not_lt.2 h1, hlo]

/-- What a new packet leaves in the buffer, where PDUs are delivered out of order or not. -/
theorem Windowed.place (outOfOrderDelivery : Bool) (hsn : pdu.sequenceNumber < 1024)
    (hnew : pdu.sequenceNumber ∉ rx.numbers) :
    Spec (· = RlcError.nullPointer)
      (fun rx₁ => SameValues rx.setBases rx₁ ∧ Keyed.Ordered DataPdu.sequenceNumber rx₁.rxBuffer ∧
        (∀ p ∈ rx₁.rxBuffer, p = pdu ∨ p ∈ rx.rxBuffer) ∧ (outside h pdu = true →
          ∀ k ∈ rx₁.numbers, k ∈ rx.seen outOfOrderDelivery pdu.sequenceNumber))
      (if outOfOrderDelivery then (rx.setBases.placePdu pdu).reassembleOutsideWindow
        else .ok (rx.setBases.placePdu pdu)) := by
  have hmem : ∀ p ∈ (rx.placePdu pdu).rxBuffer, p = pdu ∨ p ∈ rx.rxBuffer :=
    fun p hp => (mem_placePdu hnew).1 hp
  have hnumbers : ∀ k ∈ (rx.placePdu pdu).numbers, k ∈ pdu.sequenceNumber :: rx.numbers :=
    fun k hk => (mem_numbers_placePdu hnew).1 hk
  cases outOfOrderDelivery with
  | false => exact ⟨⟨rfl, rfl, rfl, rfl⟩, hw.ordered.insert, hmem, fun _ => hnumbers⟩
  | true =>
    have hlt : ∀ p ∈ (rx.setBases.placePdu pdu).rxBuffer, p.sequenceNumber < 1024 := fun p hp => by
      rcases hmem p hp with rfl | hp
      · exact hsn
      · exact hw.lt p hp
    have hinside : ∀ p ∈ rx.rxBuffer, outside h p = false := fun p hp => by
      obtain ⟨j, h1, h2, h3⟩ := hw.between p hp
      have hhu := hw.h_le
      rw [outside, decide_eq_false_iff_not]
      omega
    rw [if_pos rfl]
    refine (spec_reassembleOutside (rx.setBases.placePdu pdu) hw.timed.vrUh hlt).imp fun rx₁ h₁ =>
      ?_
    obtain ⟨hsame, hbuffer⟩ := h₁
    have hdrop : rx₁.rxBuffer = (rx.placePdu pdu).rxBuffer.dropWhile (outside h) := hbuffer
    rw [dropWhile_placePdu hw.ordered hinside hnew] at hdrop
    refine ⟨⟨hsame.vrUr, hsame.vrUx, hsame.vrUh, hsame.reorderingTimer⟩, ?_, fun p hp => ?_,
      fun hout k hk => ?_⟩
    · rw [hdrop]
      split
      · exact hw.ordered
      · exact hw.ordered.insert
    · rw [hdrop] at hp
      split at hp
      · exact .inr hp
      · exact hmem p hp
    · rw [numbers, hdrop] at hk
      rw [seen]
      by_cases hfirst : ∀ k ∈ rx.numbers, pdu.sequenceNumber < k
      · rw [if_pos ⟨hout, hfirst⟩] at hk
        rw [if_pos ⟨rfl, hfirst⟩]
        exact hk
      · rw [if_neg fun hand => hfirst hand.2] at hk
        rw [if_neg fun hand => hfirst hand.2]
        exact hnumbers k hk

end

/-- Before `VR(UR) = u` is advanced: a PDU of that number can be in the buffer. -/
structure Placed (rx : UmRx α) (u h : Nat) : Prop where
  ordered : Keyed.Ordered DataPdu.sequenceNumber rx.rxBuffer
  between : Between rx.rxBuffer u h
  start : 1024 ≤ u
  le : u ≤ h
  h_le : h ≤ u + 512
  vrUr : ∃ b, rx.vrUr.Rep b (u + 1024) ∧ b ≤ u + 1024 ∧ (u % 1024 ∈ rx.numbers → h < b)
  vrUh : rx.vrUh.value = h % 1024
  timer : rx.reorderingTimer = true → ∃ x, x ≤ h ∧ h < x + 1024 ∧ rx.vrUx.value = x % 1024

theorem Placed.advance (hp : Placed rx u h)
    (hwrap : ¬ (0 ∈ rx.numbers ∧ ∀ k < 1024, u % 1024 ≤ k → k ∈ rx.numbers)) :
    Spec (· = RlcError.nullPointer) (fun rx' => ∃ u', Windowed rx' u' h)
      (rx.advanceVrUr >>= fun rx =>
        rx.timerBases.stopReorderingTimer >>= startReorderingTimer) := by
  obtain ⟨b, hUr, hb, hroom⟩ := hp.vrUr
  refine (spec_advanceVrUr hp.ordered hp.between hp.le hp.h_le hUr hb hroom hwrap).bind
    fun rx₁ h₁ => ?_
  obtain ⟨u', hu, hle, hUr', hordered, hbetween, hUh, hUx, htimer⟩ := h₁
  have hh := hp.h_le
  refine (timer_timed hle (by omega) hUr' (hUh ▸ hp.vrUh) fun hpending => ?_).mono
    (fun _ => False.elim) fun rx' h' => ?_
  · rw [hUx]
    exact hp.timer (htimer ▸ hpending)
  · refine ⟨u', ?_, ?_, hp.start.trans hu, hle, by omega, h'.1⟩
    · rw [h'.2.1]
      exact hordered
    · rw [h'.2.1]
      exact hbetween

/-- The window moves behind the number `x`. -/
theorem Windowed.moveWindow (hw : Windowed rx u h) (rx₁ : UmRx α) {x : Nat} (hlo : h ≤ x)
    (hhi : x < h + 512) (hsn : pdu.sequenceNumber = x % 1024) (hn : n.Rep (h + 512) (x + 1024))
    (hsame : SameValues rx.setBases rx₁)
    (hordered : Keyed.Ordered DataPdu.sequenceNumber rx₁.rxBuffer)
    (hmem : ∀ p ∈ rx₁.rxBuffer, p = pdu ∨ p ∈ rx.rxBuffer)
    (hends : ∀ k ∈ rx.numbers, 512 ≤ (pdu.sequenceNumber + 1024 - k) % 1024 →
      ∀ k' ∈ rx₁.numbers, (pdu.sequenceNumber + 1024 - k') % 1024 < 512 → k < k') :
    Spec (· = RlcError.nullPointer)
      (fun rx₂ => ∃ u', u' % 1024 = rx.movedVrUr pdu.sequenceNumber ∧ Placed rx₂ u' (x + 1) ∧
        ∀ k ∈ rx₂.numbers, k ∈ rx₁.numbers) (rx₁.moveWindow n) := by
  have hle := hw.le
  have hhu := hw.h_le
  have hstart := hw.start
  have hnext : (n.add 1).value = (x + 1) % 1024 := by
    rw [hn.add.value]
    omega
  have hlt : ∀ p ∈ rx₁.rxBuffer, p.sequenceNumber < 1024 := fun p hp => by
    rcases hmem p hp with rfl | hp
    · omega
    · exact hw.lt p hp
  have hUr : rx₁.vrUr.Rep (h + 512) (u + 1024) := by
    rw [hsame.vrUr]
    exact (hw.bases hsn).1
  have hvalue : rx₁.vrUr.value = u % 1024 := by
    rw [hUr.value]
    omega
  have hbefore : ∀ p ∈ rx₁.rxBuffer, outside (x + 1) p = true → ∀ q ∈ rx₁.rxBuffer,
      outside (x + 1) q = false → p.sequenceNumber < q.sequenceNumber := fun p hp hpo q hq hqi => by
    have hpl := hlt p hp
    have hql := hlt q hq
    rw [outside, decide_eq_true_iff] at hpo
    rw [outside, decide_eq_false_iff_not] at hqi
    have hpb : p ∈ rx.rxBuffer := (hmem p hp).resolve_left fun heq => by
      rw [heq, hsn] at hpo
      omega
    exact hends _ (mem_map_of_mem hpb) (by omega) _ (mem_map_of_mem hq) (by omega)
  rw [UmRx.moveWindow]
  refine (spec_reassembleOutside { rx₁ with vrUh := n.add 1 } hnext hlt).bind fun rx₂ h₂ => ?_
  obtain ⟨hsame₂, hbuffer⟩ := h₂
  have hmem₂ : ∀ p, p ∈ rx₂.rxBuffer ↔ p ∈ rx₁.rxBuffer ∧ outside (x + 1) p = false := fun p => by
    rw [hbuffer]
    exact mem_dropWhile_outside hordered hbefore
  have hordered₂ : Ordered DataPdu.sequenceNumber rx₂.rxBuffer :=
    hordered.sublist (hbuffer ▸ dropWhile_sublist _)
  -- what stays is above the old `VR(UR)` and in the new window
  have hbetween : ∀ p ∈ rx₂.rxBuffer, ∃ j, u ≤ j ∧ x + 1 ≤ j + 512 ∧ j < x + 1 ∧
      p.sequenceNumber = j % 1024 ∧ (j = u → x = u) := fun p hp => by
    obtain ⟨hp₁, hin⟩ := (hmem₂ p).1 hp
    rcases hmem p hp₁ with rfl | hpb
    · exact ⟨x, by omega, by omega, by omega, hsn, id⟩
    · obtain ⟨j, h1, h2, h3⟩ := hw.between p hpb
      rw [outside, decide_eq_false_iff_not, h3] at hin
      exact ⟨j, by omega, by omega, by omega, h3, fun hj => by omega⟩
  have hnumbers : ∀ k ∈ rx₂.numbers, k ∈ rx₁.numbers := fun k hk => by
    obtain ⟨p, hp, rfl⟩ := mem_map.1 hk
    exact mem_map_of_mem ((hmem₂ p).1 hp).1
  have hUr₂ : rx₂.vrUr = rx₁.vrUr := hsame₂.vrUr
  have hUh₂ : rx₂.vrUh.value = (x + 1) % 1024 := hsame₂.vrUh.trans hnext
  have htimer : rx₂.reorderingTimer = true → ∃ y, y ≤ x + 1 ∧ x + 1 < y + 1024 ∧
    rx₂.vrUx.value = y % 1024 :=
    fun hpending => by
      rw [hsame₂.reorderingTimer] at hpending
      obtain ⟨y, h1, h2, -, h3, -⟩ := hw.timed.timer (hsame.reorderingTimer.symm.trans hpending)
      refine ⟨y, by omega, by omega, ?_⟩
      have hUx : rx₂.vrUx.value = rx.vrUx.value := congrArg _ (hsame₂.vrUx.trans hsame.vrUx)
      rw [hUx, h3.value]
      omega
  have hmoved : rx.movedVrUr pdu.sequenceNumber = (if x < u + 512 then u else x + 1 - 512) %
    1024 := by
    rw [movedVrUr, hw.timed.vrUr, hsn]
    split <;> split <;> omega
  refine Spec.map ?_
  rw [hUr₂, isInside_below rx₂ hUh₂ hvalue (by omega) (by omega), spec_ok, umWindowSize]
  rcases lt_or_ge x (u + 512) with hin | hout
  · rw [decide_eq_true (by omega), if_pos rfl]
    rw [if_pos hin] at hmoved
    refine ⟨u, hmoved.symm, ⟨hordered₂, fun p hp => ?_, hstart, by omega, by omega, ?_, hUh₂,
      htimer⟩, hnumbers⟩
    · obtain ⟨j, h1, h2, h3, h4, -⟩ := hbetween p hp
      exact ⟨j, h1, h3, h4⟩
    · refine ⟨h + 512, hUr₂ ▸ hUr, by omega, fun hmemu => ?_⟩
      obtain ⟨p, hp, hpu⟩ := mem_map.1 hmemu
      obtain ⟨j, h1, h2, h3, h4, h5⟩ := hbetween p hp
      have hx := h5 (by omega)
      omega
  · rw [decide_eq_false (by omega), if_neg Bool.false_ne_true]
    rw [if_neg (not_lt.2 hout)] at hmoved
    refine ⟨x + 1 - 512, hmoved.symm, ⟨hordered₂, fun p hp => ?_, by omega, by omega, by omega, ?_,
      hUh₂, htimer⟩, hnumbers⟩
    · obtain ⟨j, h1, h2, h3, h4, -⟩ := hbetween p hp
      exact ⟨j, by omega, h3, h4⟩
    · have hval := windowBase_value rx₂ hUh₂
      refine ⟨x + 1 + 512, ⟨hval.trans (by omega), hval⟩, by omega, fun _ => by omega⟩

/-- A PDU is received, in a window that holds its number or moves behind it. -/
theorem Windowed.receive (hw : Windowed rx u h) (outOfOrderDelivery : Bool)
    (hsn : pdu.sequenceNumber < 1024) (hends : rx.WalkEnds outOfOrderDelivery pdu.sequenceNumber)
    (hwrap : rx.NoWrap outOfOrderDelivery pdu.sequenceNumber) :
    Spec (· = RlcError.nullPointer) (fun rx' => ∃ u' h', Windowed rx' u' h')
      (rx.doReceivePdu outOfOrderDelivery pdu) := by
  have hle := hw.le
  have hhu := hw.h_le
  have hstart := hw.start
  obtain ⟨x, hlo, hhi, hx⟩ := exists_number (hw.start.trans hw.le) hsn
  have hsnx := hx.symm
  obtain ⟨hUr, hUh, hn⟩ := hw.bases hsnx
  rw [doReceivePdu, hw.isDiscarded hlo hhi hsnx, ok_bind]
  by_cases hdiscard : u < x ∧ x < h ∧ pdu.sequenceNumber ∈ rx.numbers ∨ x < u
  · rw [decide_eq_true hdiscard, if_pos rfl]
    refine ⟨u, h, hw.ordered, hw.between, hw.start, hw.le, hw.h_le, hw.timed.vrUr, hw.timed.vrUh,
    fun hpending => ?_⟩
    obtain ⟨y, h1, h2, -, h3, -⟩ := hw.timed.timer hpending
    exact ⟨y, h1, h2, hUr, h3, hUh⟩
  · have hnew : pdu.sequenceNumber ∉ rx.numbers := fun hmem => by
      obtain ⟨j, h1, h2, h3⟩ := hw.between.of_mem hmem
      exact hdiscard (.inl ⟨by omega, by omega, hmem⟩)
    rw [decide_eq_false hdiscard, if_neg Bool.false_ne_true, acceptPdu]
    refine (hw.place outOfOrderDelivery hsn hnew).bind fun rx₁ h₁ => ?_
    obtain ⟨hsame, hordered, hmem, hseen⟩ := h₁
    have hUh₁ : rx₁.vrUh.value = h % 1024 := hsame.vrUh.trans hw.timed.vrUh
    have hUr₁ : rx₁.vrUr.Rep (h + 512) (u + 1024) := hsame.vrUr ▸ hUr
    have hinside := isInside_eq rx₁ hUh₁ hn.value (by omega) (by omega)
    rcases lt_or_ge x h with hin | hout
    · -- the window stays
      rw [decide_eq_true (by omega)] at hinside
      rw [hinside, ok_bind, if_pos rfl, ok_bind]
      have hreceived : rx.received outOfOrderDelivery pdu.sequenceNumber =
        pdu.sequenceNumber :: rx.numbers := by
        rw [received, hw.timed.vrUh, if_neg (by omega)]
      have hmoved : rx.movedVrUr pdu.sequenceNumber = u % 1024 := by
        rw [movedVrUr, hw.timed.vrUr, if_pos (by omega)]
      have hplaced : Placed rx₁.rebase u h := by
        refine ⟨hordered, fun p hp => ?_, hstart, hle, hhu,
          ⟨h + 512, hUr₁, by omega, fun _ => by omega⟩, hUh₁, fun hpending => ?_⟩
        · rcases hmem p hp with rfl | hp
          · exact ⟨x, by omega, hin, hsnx⟩
          · exact hw.between.mono (Nat.le_succ u) le_rfl p hp
        · obtain ⟨y, h1, h2, -, h3, -⟩ := hw.timed.timer (hsame.reorderingTimer.symm.trans hpending)
          refine ⟨y, h2, by omega, ?_⟩
          rw [rebase, hsame.vrUx]
          exact h3.value.trans (Nat.add_mod_right y 1024)
      refine (hplaced.advance fun hall => hwrap ?_).imp fun rx' h' => ⟨h'.choose, h, h'.choose_spec⟩
      have hsub : ∀ k ∈ rx₁.rebase.numbers, k ∈ pdu.sequenceNumber :: rx.numbers := fun k hk => by
        obtain ⟨p, hp, rfl⟩ := mem_map.1 hk
        rcases hmem p hp with rfl | hp
        · exact mem_cons_self
        · exact mem_cons_of_mem _ (mem_map_of_mem hp)
      rw [hreceived, hmoved]
      exact ⟨hsub 0 hall.1, fun k h1 h2 => hsub k (hall.2 k h1 h2)⟩
    · -- the window moves
      rw [decide_eq_false (by omega)] at hinside
      rw [hinside, ok_bind, if_neg Bool.false_ne_true]
      have hahead : rx.Ahead pdu.sequenceNumber := by
        rw [Ahead, hw.timed.vrUh]
        omega
      have houtside : outside h pdu = true := by
        rw [outside, decide_eq_true_iff]
        omega
      have hreceived : rx.received outOfOrderDelivery pdu.sequenceNumber =
          rx.seen outOfOrderDelivery pdu.sequenceNumber := if_pos hahead
      refine (hw.moveWindow rx₁.rebase hout hhi hsnx hn (hsame.trans (.rebase rx₁)) hordered hmem
        fun k hk h1 k' hk' h2 => hends hahead k hk h1 k' (hseen houtside k' hk') h2).bind
        fun rx₂ h₂ => ?_
      obtain ⟨u', hmoved, hplaced, hnumbers⟩ := h₂
      refine (hplaced.advance fun hall => hwrap ?_).imp fun rx' h' =>
        ⟨h'.choose, x + 1, h'.choose_spec⟩
      have hsub : ∀ k ∈ rx₂.numbers, k ∈ rx.seen outOfOrderDelivery pdu.sequenceNumber :=
        fun k hk => hseen houtside k (hnumbers k hk)
      rw [hreceived, ← hmoved]
      exact ⟨hsub 0 hall.1, fun k h1 h2 => hsub k (hall.2 k h1 h2)⟩

theorem Windowed.firstMissing (hw : Windowed rx u h) :
    ∀ (fuel : Nat) {i : Nat} {n : SequenceNumber10},
    n.Rep (h + 512) (i + 1024) → u ≤ i → i ≤ h → h < i + fuel →
      ∃ y n', rx.firstMissing fuel n = .ok n' ∧ n'.Rep (h + 512) (y + 1024) ∧ i ≤ y ∧ y ≤ h ∧
        y % 1024 ∉ rx.numbers
  | 0, i, n, hn, hui, hih, hfuel => by omega
  | fuel + 1, i, n, hn, hui, hih, hfuel => by
    have hvalue : n.value = i % 1024 := by
      rw [hn.value]
      omega
    have hhu := hw.h_le
    rw [UmRx.firstMissing]
    split
    · next hhas =>
      have hmem : i % 1024 ∈ rx.numbers := hvalue ▸ has_iff.1 hhas
      obtain ⟨j, h1, h2, h3⟩ := hw.between.of_mem hmem
      have hincr : n.incr.Rep (h + 512) (i + 1 + 1024) := by
        have hrep := hn.incr
        rwa [add_right_comm] at hrep
      obtain ⟨y, n', hok, hrep, hy, hyh, hnot⟩ :=
        hw.firstMissing fuel hincr (by omega) (by omega) (by omega)
      exact ⟨y, n', hok, hrep, by omega, hyh, hnot⟩
    · next hhas =>
      exact ⟨i, n, rfl, hn, le_rfl, hih, fun hmem => hhas (has_iff.2 (hvalue ▸ hmem))⟩

theorem Windowed.expire (hw : Windowed rx u h) (hpending : rx.reorderingTimer = true) :
    Spec (· = RlcError.nullPointer) (fun rx' => ∃ u' h', Windowed rx' u' h')
      rx.expireReorderingTimer := by
  have hhu := hw.h_le
  obtain ⟨x, hux, hxh, hUr, hUx, hUh⟩ := hw.timed.timer hpending
  obtain ⟨y, n, hok, hn, hxy, hyh, hnot⟩ :=
    hw.firstMissing umLoopFuel hUx hux.le hxh (by rw [umLoopFuel]; omega)
  rw [expireReorderingTimer, hok, ok_bind]
  refine (spec_reassembleSnInterval hn (by omega) (by omega) umLoopFuel
    { rx with vrUr := n, reorderingTimer := false } hUr (by omega) (by omega)
    (by rw [umLoopFuel]; omega) hw.ordered).bind
    fun rx₁ h₁ => ?_
  obtain ⟨hsame, hordered, hmem⟩ := h₁
  have hbetween : Between rx₁.rxBuffer (y + 1) h := fun p hp => by
    obtain ⟨hp, hleft⟩ := (hmem p).1 hp
    obtain ⟨j, h1, h2, h3⟩ := hw.between p hp
    have hne : j ≠ y := by
      rintro rfl
      exact hnot (h3 ▸ mem_map_of_mem hp)
    have hge : ¬ j < y := fun hlt => hleft j (by omega) hlt h3
    exact ⟨j, by omega, h2, h3⟩
  have hUr₁ : rx₁.vrUr.Rep (h + 512) (y + 1024) := hsame.vrUr ▸ hn
  have hUh₁ : rx₁.vrUh.Rep (h + 512) (h + 1024) := hsame.vrUh ▸ hUh
  refine (startReorderingTimer_timed rx₁ hyh (by omega) hUr₁ hUh₁ fun htimer => ?_).mono
    (fun _ => False.elim) fun rx' h' => ?_
  · exact Bool.noConfusion (hsame.reorderingTimer.symm.trans htimer)
  · obtain ⟨htimed, hbuffer, -⟩ := h'
    exact ⟨y, h, hbuffer ▸ hordered, hbuffer ▸ hbetween, hw.start.trans (by omega), hyh, by omega,
    htimed⟩

/-! ## Runs -/

/-- What happens to the receiving side; sequence numbers have 10 bits. -/
inductive Action (α : Type) where
  | receive (pdu : DataPdu α) (hsn : pdu.sequenceNumber < 1024)
  | expire

/-- The code on an action; the timer expires only while it is pending. -/
def act (rx : UmRx α) : Action α → Except RlcError (UmRx α)
  | .receive pdu _ => rx.doReceivePdu outOfOrderDelivery pdu
  | .expire => if rx.reorderingTimer then rx.expireReorderingTimer else .ok rx

/-- The steps of the receiving side. -/
def Step (rx : UmRx α) (a : Action α) (rx' : UmRx α) : Prop :=
  rx.act outOfOrderDelivery a = .ok rx'

theorem step_of_toOption {outOfOrderDelivery : Bool} {a : Action α}
    (h : (rx.act outOfOrderDelivery a).toOption = some rx') : Step outOfOrderDelivery rx a rx' :=
  ok_of_toOption h

/-- The steps that do not lose the order of the numbers at a wrap. -/
def Regular (rx : UmRx α) : Action α → Prop
  | .receive pdu _ =>
    rx.WalkEnds outOfOrderDelivery pdu.sequenceNumber ∧
      rx.NoWrap outOfOrderDelivery pdu.sequenceNumber
  | .expire => True

instance (rx : UmRx α) : DecidablePred (rx.Regular outOfOrderDelivery)
  | .receive _ _ => inferInstanceAs (Decidable (_ ∧ _))
  | .expire => .isTrue trivial

/-- Every packet of the buffer is strictly between `VR(UR)` and `VR(UH)`, counted from `VR(UR)`, and
inside of the reordering window. -/
def InWindow (rx : UmRx α) : Prop :=
  ∀ pdu ∈ rx.rxBuffer, 0 < (pdu.sequenceNumber + 1024 - rx.vrUr.value) % 1024 ∧
    (pdu.sequenceNumber + 1024 - rx.vrUr.value) % 1024 < (rx.vrUh.value + 1024 - rx.vrUr.value) %
    1024 ∧
    rx.isInsideReorderingWindow (.ofValue pdu.sequenceNumber) = .ok true

theorem Windowed.inWindow (hw : Windowed rx u h) : rx.InWindow := fun pdu hpdu => by
  obtain ⟨j, h1, h2, h3⟩ := hw.between pdu hpdu
  have hhu := hw.h_le
  have hinside := isInside_not_outside rx hw.timed.vrUh (hw.lt pdu hpdu)
  rw [outside, decide_eq_false (by omega)] at hinside
  rw [hw.timed.vrUr, hw.timed.vrUh, h3]
  exact ⟨by omega, by omega, h3 ▸ hinside⟩

theorem Windowed.act (hw : Windowed rx u h) {outOfOrderDelivery : Bool} {a : Action α}
    (hok : rx.Regular outOfOrderDelivery a) :
    Spec (· = RlcError.nullPointer) (fun rx' => ∃ u' h', Windowed rx' u' h')
      (rx.act outOfOrderDelivery a) := by
  cases a with
  | receive pdu hsn => exact hw.receive outOfOrderDelivery hsn hok.1 hok.2
  | expire =>
    rw [UmRx.act]
    split
    · next hpending => exact hw.expire hpending
    · exact ⟨u, h, hw⟩

theorem windowed_initial : Windowed ({} : UmRx α) 1024 1024 :=
  ⟨ordered_nil, fun _ hp => absurd hp not_mem_nil, le_rfl, le_rfl, by omega, rfl, rfl,
    fun h => Bool.noConfusion h⟩

/-- In a run whose steps do not lose the order of the numbers at a wrap, the packets that wait stay
strictly between `VR(UR)` and `VR(UH)`, and the next such step is not stopped. -/
theorem window_of_run (outOfOrderDelivery : Bool)
    (hrun : Lts.Run (Step outOfOrderDelivery) (Regular outOfOrderDelivery) ({} : UmRx α) rx) :
    rx.InWindow ∧ ∀ a e, rx.Regular outOfOrderDelivery a → rx.act outOfOrderDelivery a = .error e →
      e = .nullPointer := by
  have hwindowed : ∃ u h, Windowed rx u h :=
    Run.invariant (I := fun rx => ∃ u h, Windowed rx u h)
      (fun ⟨_, _, hw⟩ hok hstep => (hw.act hok).ok hstep) ⟨1024, 1024, windowed_initial⟩ hrun
  obtain ⟨u, h, hw⟩ := hwindowed
  exact ⟨hw.inWindow, fun a e hok herr => (hw.act hok).error herr⟩

/-- A PDU that holds one SDU of one byte. -/
def onePdu (sn : Nat) (hsn : sn < 1024) : Action Nat :=
  .receive ⟨sn, ⟨true, true⟩, [false], [], [1]⟩ hsn

/-- PDUs 1 and 3 are received, and the timer that waits for 0 expires: 3 still waits for 2. -/
theorem window_of_run_example : ∃ rx : UmRx Nat, rx.numbers = [3] ∧ rx.vrUr.value = 2 ∧
    rx.InWindow := by
  have hx : (execs (Regular false) (fun rx a => (rx.act false a).toOption) ({} : UmRx Nat)
      [onePdu 1 (by decide), onePdu 3 (by decide), .expire]).map (fun rx =>
        (rx.numbers, rx.vrUr.value)) =
      some ([3], 2) := by decide
  obtain ⟨rx, hrx, heq⟩ := Option.map_eq_some_iff.1 hx
  exact ⟨rx, congrArg Prod.fst heq, congrArg Prod.snd heq,
    (window_of_run false (run_of_execs step_of_toOption hrx)).1⟩

/-- PDU 0 is missing. Behind 1020, 400 moves the window so that 511 falls out of it, but 400 stands
before it in the map. Where 511 and 1022 wait until the timer expires, 0 comes before 1023: `VR(UR)`
stops at 0. -/
theorem window_fails :
    (¬ ∀ rx : UmRx Nat, Lts.Run (Step false) Lts.anyStep {} rx → rx.InWindow) ∧
      ∃ rx : UmRx Nat, Lts.Run (Step false) Lts.anyStep {} rx ∧ rx.vrUr.value ∈ rx.numbers := by
  constructor
  · intro hall
    have hx : (execs anyStep (fun rx a => (rx.act false a).toOption) ({} : UmRx Nat)
        [onePdu 511 (by decide), onePdu 1020 (by decide), onePdu 400 (by decide)]).map
        (fun rx => (rx.numbers, rx.vrUr.value, rx.vrUh.value)) =
          some ([400, 511, 1020], 913, 401) := by decide
    obtain ⟨rx, hrx, heq⟩ := Option.map_eq_some_iff.1 hx
    obtain ⟨hnumbers, hUr, hUh⟩ : rx.numbers = _ ∧ rx.vrUr.value = _ ∧ rx.vrUh.value = _ := by
      simpa using heq
    have hmem : 511 ∈ rx.numbers := hnumbers ▸ by decide
    obtain ⟨pdu, hpdu, hsn⟩ := mem_map.1 hmem
    have hbetween := (hall rx (run_of_execs step_of_toOption hrx) pdu hpdu).2.1
    rw [hUr, hUh, hsn] at hbetween
    exact absurd hbetween (by decide)
  · have hx : (execs anyStep (fun rx a => (rx.act false a).toOption) ({} : UmRx Nat)
        [onePdu 511 (by decide), onePdu 1022 (by decide), .expire, onePdu 0 (by decide),
        onePdu 1023 (by decide)]).map
        (fun rx => (rx.numbers, rx.vrUr.value)) = some ([0], 0) := by decide +kernel
    obtain ⟨rx, hrx, heq⟩ := Option.map_eq_some_iff.1 hx
    obtain ⟨hnumbers, hUr⟩ : rx.numbers = _ ∧ rx.vrUr.value = _ := by simpa using heq
    refine ⟨rx, run_of_execs step_of_toOption hrx, ?_⟩
    rw [hnumbers, hUr]
    exact mem_cons_self

end UmRx

end OranNs3.Rlc
