import OranNs3.Rlc.Am
import Mathlib.Algebra.BigOperators.Group.Finset.Piecewise

/-!
# The transmitting side of an AM entity

The state variables of the transmitting window in numbers without wrapping (`TxAt`): the PDUs that
are not acknowledged lie between `VT(A)` and `VT(S)`, at most 512 of them, each in one of the two
buffers, and the sizes of the three buffers are counted modulo `2 ^ 32`. Each of the places that
move a PDU from one buffer to the other has a lemma on the slots (`Slots`) and one on the sizes; the
loops have a rule each (`spec_statusLoop`, `pollLoop_ok`, `retxLoop_outcome`), in which any property
of the buffers goes along.
-/

namespace OranNs3.Rlc

open Fallible Finset Function List Lts

variable {α : Type}

/-! ## Slots -/

section slots
variable {B T X : Nat → RetxPdu α} {e : RetxPdu α} {v a s : Nat} {pdu : AmPdu α}

/-- The size of the PDU in a slot. -/
def slotSize (e : RetxPdu α) : Nat := (e.pdu.map AmPdu.size).getD 0

theorem slotSize_none (h : e.pdu = none) : slotSize e = 0 := by
  rw [slotSize, h]
  rfl

theorem slotSize_some (h : e.pdu = some pdu) : slotSize e = pdu.size := by
  rw [slotSize, h]
  rfl

/-- The sizes of the PDUs in the slots. -/
def stored (B : Nat → RetxPdu α) : Nat := ∑ v ∈ Finset.range 1024, slotSize (B v)

theorem stored_empty : stored (fun _ => ({} : RetxPdu α)) = 0 := sum_eq_zero fun _ _ => rfl

theorem stored_update (hv : v < 1024) :
    stored (Function.update B v e) + slotSize (B v) = stored B + slotSize e := by
  have hmem : v ∈ Finset.range 1024 := Finset.mem_range.2 hv
  have hB := sum_update_of_mem hmem (fun w => slotSize (B w)) (slotSize (B v))
  have hB' := sum_update_of_mem hmem (fun w => slotSize (B w)) (slotSize e)
  have hself : update (fun w => slotSize (B w)) v (slotSize (B v)) =
      fun w => slotSize (B w) := update_eq_self v _
  have hcomp : (fun w => slotSize (update B v e w)) =
      update (fun w => slotSize (B w)) v (slotSize e) := by
    funext w
    by_cases hw : w = v
    · subst hw
      simp
    · simp [hw]
  rw [hself] at hB
  rw [stored, hcomp, hB', stored, hB]
  omega

theorem stored_fill (hv : v < 1024) (hnone : (B v).pdu = none) (he : e.pdu = some pdu) :
    stored (Function.update B v e) = stored B + pdu.size := by
  have h := stored_update (B := B) (e := e) hv
  rwa [slotSize_none hnone, slotSize_some he, add_zero] at h

theorem stored_clear (hv : v < 1024) (hsome : (B v).pdu = some pdu) (he : e.pdu = none) :
    stored B = stored (Function.update B v e) + pdu.size := by
  have h := stored_update (B := B) (e := e) hv
  rw [slotSize_some hsome, slotSize_none he, add_zero] at h
  exact h.symm

theorem exists_of_stored (h : 0 < stored B) : ∃ v, (B v).pdu ≠ none := by
  by_contra hno
  have hzero : stored B = 0 := by
    refine Finset.sum_eq_zero fun v _ => ?_
    have hv : (B v).pdu = none := by
      by_contra hv
      exact hno ⟨v, hv⟩
    exact slotSize_none hv
  omega

/-- A PDU is in at most one of two buffers, at a sequence number of the window. -/
structure Slots (T X : Nat → RetxPdu α) (a s : Nat) : Prop where
  one : ∀ v, (T v).pdu = none ∨ (X v).pdu = none
  inside : ∀ v, (T v).pdu ≠ none ∨ (X v).pdu ≠ none → ∃ j, a ≤ j ∧ j < s ∧ v = j % 1024

section
variable (h : Slots T X a s)
include h

theorem Slots.symm : Slots X T a s :=
  ⟨fun v => (h.one v).symm, fun v hv => h.inside v hv.symm⟩

theorem Slots.move (hsome : (T v).pdu ≠ none) :
    Slots (Function.update T v {}) (Function.update X v e) a s := by
  refine ⟨fun w => ?_, fun w hw => ?_⟩
  · by_cases hwv : w = v
    · subst hwv
      exact .inl (by rw [update_self])
    · rw [update_of_ne hwv, update_of_ne hwv]
      exact h.one w
  · by_cases hwv : w = v
    · subst hwv
      exact h.inside w (.inl hsome)
    · rw [update_of_ne hwv, update_of_ne hwv] at hw
      exact h.inside w hw

theorem Slots.clear (he : e.pdu = none) : Slots (Function.update T v e) X a s := by
  refine ⟨fun w => ?_, fun w hw => ?_⟩
  · by_cases hwv : w = v
    · subst hwv
      exact .inl (by rw [update_self, he])
    · rw [update_of_ne hwv]
      exact h.one w
  · by_cases hwv : w = v
    · subst hwv
      rw [update_self, he] at hw
      exact h.inside w (.inr (hw.resolve_left fun hne => hne rfl))
    · rw [update_of_ne hwv] at hw
      exact h.inside w hw

theorem Slots.next_empty (hs : s < a + amWindowSize) :
    (T (s % 1024)).pdu = none ∧ (X (s % 1024)).pdu = none := by
  rw [amWindowSize] at hs
  constructor
  · by_contra hne
    obtain ⟨j, h1, h2, h3⟩ := h.inside _ (.inl hne)
    omega
  · by_contra hne
    obtain ⟨j, h1, h2, h3⟩ := h.inside _ (.inr hne)
    omega

theorem Slots.store (hle : a ≤ s) (hs : s < a + amWindowSize) :
    Slots (Function.update T (s % 1024) e) X a (s + 1) := by
  refine ⟨fun w => ?_, fun w hw => ?_⟩
  · by_cases hwv : w = s % 1024
    · subst hwv
      exact .inr (h.next_empty hs).2
    · rw [update_of_ne hwv]
      exact h.one w
  · by_cases hwv : w = s % 1024
    · exact ⟨s, hle, Nat.lt_succ_self s, hwv⟩
    · rw [update_of_ne hwv] at hw
      obtain ⟨j, h1, h2, h3⟩ := h.inside w hw
      exact ⟨j, h1, h2.trans (Nat.lt_succ_self s), h3⟩

theorem Slots.advance (hT : (T (a % 1024)).pdu = none)
    (hX : (X (a % 1024)).pdu = none) : Slots T X (a + 1) s := by
  refine ⟨h.one, fun w hw => ?_⟩
  obtain ⟨j, h1, h2, rfl⟩ := h.inside w hw
  refine ⟨j, Nat.lt_of_le_of_ne h1 ?_, h2, rfl⟩
  rintro rfl
  rw [hT, hX] at hw
  exact hw.elim (fun h => h rfl) fun h => h rfl

end

end slots

/-! ## The window -/

section window
variable {c : AmConfig} {tx : AmTx α} {a s j now bytes : Nat} {pdu : AmPdu α} {n : SequenceNumber10}

/-- The transmitting side at `VT(A) = a` and `VT(S) = s`. -/
structure TxAt (tx : AmTx α) (a s : Nat) : Prop where
  vtA : tx.vtA.Rep a a
  vtS : tx.vtS.Rep a s
  vtMs : tx.vtMs.Rep a (a + amWindowSize)
  le : a ≤ s
  le_add : s ≤ a + amWindowSize
  slots : Slots tx.txedBuffer tx.retxBuffer a s
  txon : SizeOk tx.txonBuffer tx.txonBufferSize
  txed : tx.txedBufferSize = stored tx.txedBuffer % 2 ^ 32
  retx : tx.retxBufferSize = stored tx.retxBuffer % 2 ^ 32

theorem txAt_init : TxAt ({} : AmTx α) 0 0 where
  vtA := ⟨rfl, rfl⟩
  vtS := ⟨rfl, rfl⟩
  vtMs := ⟨rfl, rfl⟩
  le := le_rfl
  le_add := Nat.zero_le _
  slots := ⟨fun _ => .inl rfl, fun _ h => absurd rfl (h.elim id id)⟩
  txon := rfl
  txed := by
    rw [stored_empty]
    rfl
  retx := by
    rw [stored_empty]
    rfl

/-- What the tests of the window read. -/
structure SameWindow (tx tx' : AmTx α) : Prop where
  vtA : tx'.vtA = tx.vtA
  vtS : tx'.vtS = tx.vtS
  vtMs : tx'.vtMs = tx.vtMs
  txonBuffer : tx'.txonBuffer = tx.txonBuffer
  txonBufferSize : tx'.txonBufferSize = tx.txonBufferSize

theorem TxAt.change {tx' : AmTx α} (h : TxAt tx a s) (hsame : SameWindow tx tx')
    (hslots : Slots tx'.txedBuffer tx'.retxBuffer a s)
    (htxed : tx'.txedBufferSize = stored tx'.txedBuffer % 2 ^ 32)
    (hretx : tx'.retxBufferSize = stored tx'.retxBuffer % 2 ^ 32) : TxAt tx' a s where
  vtA := hsame.vtA ▸ h.vtA
  vtS := hsame.vtS ▸ h.vtS
  vtMs := hsame.vtMs ▸ h.vtMs
  le := h.le
  le_add := h.le_add
  slots := hslots
  txon := by
    rw [hsame.txonBuffer, hsame.txonBufferSize]
    exact h.txon
  txed := htxed
  retx := hretx

theorem TxAt.startPoll (h : TxAt tx a s) : TxAt (startPoll tx) a s :=
  h.change ⟨rfl, rfl, rfl, rfl, rfl⟩ h.slots h.txed h.retx

theorem TxAt.stopPoll (h : TxAt tx a s) (v : Nat) : TxAt (stopPoll tx v) a s := by
  rw [Rlc.stopPoll]
  split
  · exact h.change ⟨rfl, rfl, rfl, rfl, rfl⟩ h.slots h.txed h.retx
  · exact h

theorem mod_lt (j : Nat) : j % 1024 < 1024 := Nat.mod_lt j (Nat.succ_pos 1023)

theorem TxAt.moveToRetx (h : TxAt tx a s) (hpdu : (tx.txedBuffer (j % 1024)).pdu = some pdu) :
    TxAt (moveToRetx tx (j % 1024) pdu) a s := by
  have hne : (tx.txedBuffer (j % 1024)).pdu ≠ none := by
    rw [hpdu]
    exact Option.some_ne_none _
  have hnone := (h.slots.one (j % 1024)).resolve_left hne
  refine h.change ⟨rfl, rfl, rfl, rfl, rfl⟩ (h.slots.move hne) ?_ ?_
  · have hclear := stored_clear (e := {}) (mod_lt j) hpdu rfl
    exact sub32_mod (h.txed.trans (congrArg (· % 2 ^ 32) hclear))
  · have hfill := stored_fill (e := { tx.txedBuffer (j % 1024) with pdu := some pdu })
      (mod_lt j) hnone rfl
    exact (add32_mod h.retx).trans (congrArg (· % 2 ^ 32) hfill.symm)

theorem TxAt.moveToTxed (h : TxAt tx a s) (hpdu : (tx.retxBuffer (j % 1024)).pdu = some pdu) :
    TxAt (moveToTxed tx now (j % 1024) pdu) a s := by
  have hne : (tx.retxBuffer (j % 1024)).pdu ≠ none := by
    rw [hpdu]
    exact Option.some_ne_none _
  have hnone := (h.slots.one (j % 1024)).resolve_right hne
  refine h.change ⟨rfl, rfl, rfl, rfl, rfl⟩ (h.slots.symm.move hne).symm ?_ ?_
  · have hfill := stored_fill
      (e := ⟨some pdu, ((tx.retxBuffer (j % 1024)).retxCount + 1) % 2 ^ 16, now⟩)
      (mod_lt j) hnone rfl
    exact (add32_mod h.txed).trans (congrArg (· % 2 ^ 32) hfill.symm)
  · have hclear := stored_clear (e := {}) (mod_lt j) hpdu rfl
    exact sub32_mod (h.retx.trans (congrArg (· % 2 ^ 32) hclear))

theorem TxAt.ackSn (h : TxAt tx a s) :
    ∃ tx', ackSn tx (j % 1024) = .ok tx' ∧ TxAt tx' a s ∧
      (tx'.txedBuffer (j % 1024)).pdu = none ∧ (tx'.retxBuffer (j % 1024)).pdu = none ∧
      (∀ v, v ≠ j % 1024 → tx'.txedBuffer v = tx.txedBuffer v ∧
        tx'.retxBuffer v = tx.retxBuffer v) ∧ SameWindow tx tx' := by
  rw [Rlc.ackSn]
  cases hT : (tx.txedBuffer (j % 1024)).pdu with
  | none =>
    cases hX : (tx.retxBuffer (j % 1024)).pdu with
    | none => exact ⟨tx, rfl, h, hT, hX, fun _ _ => ⟨rfl, rfl⟩, rfl, rfl, rfl, rfl, rfl⟩
    | some pdu =>
      refine ⟨_, rfl, h.change ⟨rfl, rfl, rfl, rfl, rfl⟩ (h.slots.symm.clear rfl).symm h.txed ?_,
        hT, ?_, fun v hv => ⟨rfl, update_of_ne hv _ _⟩, rfl, rfl, rfl, rfl, rfl⟩
      · have hclear := stored_clear (e := {}) (mod_lt j) hX rfl
        exact sub32_mod (h.retx.trans (congrArg (· % 2 ^ 32) hclear))
      · show (update tx.retxBuffer (j % 1024) {} (j % 1024)).pdu = none
        rw [update_self]
  | some pdu =>
    cases hX : (tx.retxBuffer (j % 1024)).pdu with
    | some pdu' =>
      have hone := h.slots.one (j % 1024)
      rw [hT, hX] at hone
      simp at hone
    | none =>
      refine ⟨_, rfl, h.change ⟨rfl, rfl, rfl, rfl, rfl⟩ (h.slots.clear rfl) ?_ h.retx, ?_, hX,
        fun v hv => ⟨update_of_ne hv _ _, rfl⟩, rfl, rfl, rfl, rfl, rfl⟩
      · have hclear := stored_clear
          (e := { tx.txedBuffer (j % 1024) with pdu := none, waitingSince := 0 }) (mod_lt j) hT rfl
        exact sub32_mod (h.txed.trans (congrArg (· % 2 ^ 32) hclear))
      · show (update tx.txedBuffer (j % 1024)
          { tx.txedBuffer (j % 1024) with pdu := none, waitingSince := 0 } (j % 1024)).pdu = none
        rw [update_self]

theorem TxAt.advanceVtA (h : TxAt tx a s) (hlt : a < s) (hT : (tx.txedBuffer (a % 1024)).pdu = none)
    (hX : (tx.retxBuffer (a % 1024)).pdu = none) : TxAt (advanceVtA tx) (a + 1) s where
  vtA := h.vtA.incr.setModulusBase h.vtA.incr
  vtS := h.vtS.setModulusBase h.vtA.incr
  vtMs := h.vtA.incr.add.setModulusBase h.vtA.incr
  le := hlt
  le_add := h.le_add.trans (Nat.add_le_add_right (Nat.le_succ a) _)
  slots := h.slots.advance hT hX
  txon := h.txon
  txed := h.txed
  retx := h.retx

end window

/-! ## Opportunities -/

section opportunity
variable {c : AmConfig} {tx : AmTx α} {a s j now bytes : Nat} {pdu : AmPdu α} {n : SequenceNumber10}

/-- A poll, if one is due. -/
def pollIf (polls : Bool) (tx : AmTx α) : AmTx α := if polls then startPoll tx else tx

variable {polls : Bool}

theorem pollIf_txed : (pollIf polls tx).txedBuffer = tx.txedBuffer := by
  cases polls <;> rfl

theorem pollIf_retx : (pollIf polls tx).retxBuffer = tx.retxBuffer := by
  cases polls <;> rfl

theorem TxAt.pollIf (h : TxAt tx a s) (polls : Bool) : TxAt (pollIf polls tx) a s := by
  cases polls with
  | false => exact h
  | true => exact h.startPoll

/-- At an opportunity a new PDU is built: nothing is to be sent again, SDUs wait, and the window is
not full. -/
def BuildsPdu (tx : AmTx α) : Prop :=
  tx.retxBufferSize = 0 ∧ 0 < tx.txonBufferSize ∧ tx.vtS.eq tx.vtMs = false
deriving Decidable

/-- What an opportunity can do: nothing; send a PDU again; or send a new PDU with the data field
that the loop takes from the buffer. -/
inductive Outcome (tx : AmTx α) (a s now bytes : Nat) : AmTx α × Option (AmPdu α) → Prop
  | nothing : Outcome tx a s now bytes (tx, none)
  | resent {i pdu polls} : a ≤ i → i < s → (tx.retxBuffer (i % 1024)).pdu = some pdu →
    Outcome tx a s now bytes
      (moveToTxed (pollIf polls tx) now (i % 1024) pdu, some { pdu with pollingBit := polls })
  | fresh {first txonBuffer fi polls b} : BuildsPdu tx → s < a + amWindowSize →
    tx.txonBuffer = first :: txonBuffer →
    b = buildDataField (bytes - 4) first txonBuffer tx.txonBufferSize → 7 ≤ bytes →
    framingInfoOf b.dataField = .ok fi →
    Outcome tx a s now bytes
      (storeTxed (pollIf polls (takeDataField tx b)) now (s % 1024) ⟨pduOf (s % 1024) b fi, polls⟩,
        some ⟨pduOf (s % 1024) b fi, polls⟩)

theorem retxLoop_outcome (h : TxAt tx a s) : ∀ (fuel : Nat) {j : Nat} {n : SequenceNumber10},
    n.Rep a j → a ≤ j → (∃ i, j ≤ i ∧ i < s ∧ (tx.retxBuffer (i % 1024)).pdu ≠ none) →
      s ≤ j + fuel →
    ∃ r, retxLoop c tx now bytes fuel n = .ok r ∧ Outcome tx a s now bytes r
  | 0, j, n, _, _, hex, hfuel => by
    obtain ⟨i, h1, h2, -⟩ := hex
    omega
  | fuel + 1, j, n, hn, hj, hex, hfuel => by
    have hw : amWindowSize = 512 := rfl
    have hle := h.le_add
    obtain ⟨i, h1, h2, h3⟩ := hex
    rw [retxLoop, hn.lt h.vtS hj (by omega) h.le (by omega), ok_bind,
      if_pos (decide_eq_true (h1.trans_lt h2)), hn.value]
    cases hX : (tx.retxBuffer (j % 1024)).pdu with
    | none =>
      have hij : j ≠ i := by
        rintro rfl
        exact h3 hX
      exact retxLoop_outcome h fuel hn.incr (by omega) ⟨i, by omega, h2, h3⟩ (by omega)
    | some pdu =>
      simp only
      split
      · obtain ⟨polls, hpolls⟩ : ∃ polls, retxPolls tx pdu = .ok polls := by
          rw [retxPolls]
          split
          · exact ⟨true, rfl⟩
          · rw [h.vtS.ge h.vtMs h.le (by omega) (by omega) (by omega)]
            exact ⟨_, rfl⟩
        rw [retransmit, hpolls]
        exact ⟨_, rfl, .resent hj (h1.trans_lt h2) hX⟩
      · exact ⟨_, rfl, .nothing⟩

/-- An opportunity that is not for a STATUS PDU fails only where it is too small, or where a data
field has no segment. -/
theorem TxAt.outcome (c : AmConfig) (now bytes : Nat) (h : TxAt tx a s) :
    Spec (fun e => e = .txOpportunity ∧ bytes < 7 ∨ e = .nullPointer ∧ ∃ first txonBuffer,
        tx.txonBuffer = first :: txonBuffer ∧ 7 ≤ bytes ∧
        framingInfoOf (buildDataField (bytes - 4) first txonBuffer tx.txonBufferSize).dataField =
          .error e) (Outcome tx a s now bytes) (amTxOpportunity c tx now bytes) := by
  have hw : amWindowSize = 512 := rfl
  have hle := h.le
  have hadd := h.le_add
  rw [amTxOpportunity]
  split
  · next hretx =>
    obtain ⟨v, hv⟩ := exists_of_stored (B := tx.retxBuffer) (by
      rw [h.retx] at hretx
      exact Nat.pos_of_ne_zero fun h0 => by rw [h0] at hretx; exact absurd hretx (by decide))
    obtain ⟨i, h1, h2, rfl⟩ := h.slots.inside v (.inr hv)
    rw [h.vtA.lt h.vtS le_rfl (by omega) hle (by omega), ok_bind,
      if_pos (decide_eq_true (h1.trans_lt h2))]
    have hloop : ∃ r, retxLoop c tx now bytes amLoopFuel tx.vtA = .ok r ∧
      Outcome tx a s now bytes r :=
      retxLoop_outcome h amLoopFuel h.vtA le_rfl ⟨i, h1, h2, hv⟩ (by rw [amLoopFuel]; omega)
    obtain ⟨r, hr, hout⟩ := hloop
    rw [hr]
    exact hout
  · next hretx =>
    split
    · next htxon =>
      split
      · next hbytes => exact .inl ⟨rfl, hbytes⟩
      · next hbytes =>
        rw [h.vtS.le h.vtMs hle (by omega) (by omega) (by omega), ok_bind,
          if_pos (decide_eq_true hadd)]
        split
        · exact .nothing
        · next hwindow =>
          have hbuilds : BuildsPdu tx :=
            ⟨Nat.eq_zero_of_not_pos hretx, htxon, Bool.eq_false_iff.2 hwindow⟩
          rw [h.vtS.eq h.vtMs (by omega) (by omega)] at hwindow
          have hlt : s < a + amWindowSize :=
            Nat.lt_of_le_of_ne hadd fun heq => hwindow (decide_eq_true heq)
          split
          · exact .nothing
          · next first txonBuffer htxon =>
            simp only [sendNewPdu]
            rw [h.vtS.lt h.vtMs hle (by omega) (by omega) (by omega), ok_bind,
              if_pos (decide_eq_true hlt), h.vtS.ge h.vtA hle (by omega) le_rfl (by omega), ok_bind,
              if_pos (decide_eq_true hle), h.vtS.value]
            cases hfi : framingInfoOf
                (buildDataField (bytes - 4) first txonBuffer tx.txonBufferSize).dataField with
            | error e =>
              have he : e = .nullPointer := by
                rw [framingInfoOf] at hfi
                split at hfi
                · cases hfi
                · exact (Except.error.inj hfi).symm
              subst he
              exact .inr ⟨rfl, first, txonBuffer, htxon, Nat.le_of_not_lt hbytes, hfi⟩
            | ok fi =>
              rw [ok_bind, finishNewPdu]
              refine Spec.map ?_
              rw [newPduPolls]
              split
              · show Outcome tx a s now bytes (storeTxed (Rlc.pollIf true _) _ _ _, _)
                exact Outcome.fresh hbuilds hlt htxon rfl (Nat.le_of_not_lt hbytes) hfi
              · have hS : (takeDataField tx (buildDataField (bytes - 4) first txonBuffer
                    tx.txonBufferSize)).vtS.Rep a (s + 1) := h.vtS.incr
                have hMs : (takeDataField tx (buildDataField (bytes - 4) first txonBuffer
                    tx.txonBufferSize)).vtMs.Rep a (a + amWindowSize) := h.vtMs
                rw [hS.ge hMs (by omega) (by omega) (by omega) (by omega)]
                exact Outcome.fresh hbuilds hlt htxon rfl (Nat.le_of_not_lt hbytes) hfi
    · exact .nothing

/-- A header that is added changes nothing at the transmitting side. -/
theorem passPdu_ok {r r' : AmTx α × Option (AmPdu α)} (h : passPdu r = .ok r') : r' = r := by
  rw [passPdu] at h
  split at h
  · exact (Except.ok.inj h).symm
  · next pdu _ =>
    cases hcheck : checkHeader (amHeaderLength pdu.extensionBits.length) pdu.data.length with
    | error e =>
      rw [hcheck] at h
      cases h
    | ok u =>
      rw [hcheck] at h
      exact (Except.ok.inj h).symm

/-- A new PDU takes one more sequence number. -/
theorem TxAt.store {first : TxPdu α} {txonBuffer : List (TxPdu α)} {b : Build α}
    {pdu : AmPdu α} (h : TxAt tx a s) (hlt : s < a + amWindowSize)
    (htxon : tx.txonBuffer = first :: txonBuffer)
    (hb : b = buildDataField (bytes - 4) first txonBuffer tx.txonBufferSize) (hbytes : 7 ≤ bytes) :
    TxAt (storeTxed (Rlc.pollIf polls (takeDataField tx b)) now (s % 1024) pdu) a (s + 1) := by
  have hsize := h.txon
  rw [htxon] at hsize
  have hbuild := buildDataField_bytes (show 0 < bytes - 4 by omega) hsize
  rw [← hb] at hbuild
  have htake : ∀ polls, (Rlc.pollIf polls (takeDataField tx b)).vtA = tx.vtA ∧
      (Rlc.pollIf polls (takeDataField tx b)).vtS = tx.vtS.incr ∧
      (Rlc.pollIf polls (takeDataField tx b)).vtMs = tx.vtMs ∧
      (Rlc.pollIf polls (takeDataField tx b)).txonBuffer = b.txBuffer ∧
      (Rlc.pollIf polls (takeDataField tx b)).txonBufferSize = b.txBufferSize ∧
      (Rlc.pollIf polls (takeDataField tx b)).txedBufferSize = tx.txedBufferSize ∧
      (Rlc.pollIf polls (takeDataField tx b)).retxBufferSize = tx.retxBufferSize := by
    intro polls
    cases polls <;> exact ⟨rfl, rfl, rfl, rfl, rfl, rfl, rfl⟩
  obtain ⟨hA, hS, hMs, hbuf, hbufSize, htxed, hretx⟩ := htake polls
  have hnone := (h.slots.next_empty hlt).1
  exact
    { vtA := by simp only [storeTxed, hA]; exact h.vtA
      vtS := by simp only [storeTxed, hS]; exact h.vtS.incr
      vtMs := by simp only [storeTxed, hMs]; exact h.vtMs
      le := h.le.trans (Nat.le_succ s)
      le_add := hlt
      slots := by
        simp only [storeTxed, pollIf_txed, pollIf_retx]
        exact h.slots.store h.le hlt
      txon := by
        simp only [storeTxed, hbuf, hbufSize]
        exact hbuild.2
      txed := by
        simp only [storeTxed, htxed, pollIf_txed]
        have hfill :=
          stored_fill (B := tx.txedBuffer) (e := ⟨some pdu, 0, now⟩) (mod_lt s) hnone rfl
        exact (add32_mod h.txed).trans (congrArg (· % 2 ^ 32) hfill.symm)
      retx := by
        simp only [storeTxed, hretx, pollIf_retx]
        exact h.retx }

theorem Outcome.txAt {r : AmTx α × Option (AmPdu α)} (hout : Outcome tx a s now bytes r)
    (h : TxAt tx a s) : ∃ s', TxAt r.1 a s' := by
  cases hout with
  | nothing => exact ⟨s, h⟩
  | resent _ _ hX => exact ⟨s, (h.pollIf _).moveToTxed (by rwa [pollIf_retx])⟩
  | fresh _ hlt htxon hb hbytes hfi => exact ⟨s + 1, h.store hlt htxon hb hbytes⟩

end opportunity

/-! ## STATUS PDUs and the poll timer -/

section status
variable {c : AmConfig} {tx : AmTx α} {a s j k : Nat} {st : StatusPdu} {E : RlcError → Prop}
  {I : Nat → (Nat → RetxPdu α) → (Nat → RetxPdu α) → Prop}

theorem stopPoll_buffers {v : Nat} : (stopPoll tx v).txedBuffer = tx.txedBuffer ∧
    (stopPoll tx v).retxBuffer = tx.retxBuffer := by
  rw [stopPoll]
  split
  · exact ⟨rfl, rfl⟩
  · exact ⟨rfl, rfl⟩

theorem TxAt.nackSn (h : TxAt tx a s) : Spec (· = .assertion) (fun tx' => TxAt tx' a s)
    (nackSn tx (j % 1024)) := by
  rw [Rlc.nackSn]
  split
  · next pdu hpdu => exact h.moveToRetx hpdu
  · split
    · exact h
    · exact rfl

/-- `I`, a property of the buffers when the loop of a STATUS PDU has come to a number, goes on to
the next. -/
structure StatusRule (st : StatusPdu) (s k : Nat) (E : RlcError → Prop)
    (I : Nat → (Nat → RetxPdu α) → (Nat → RetxPdu α) → Prop) : Prop where
  nack : ∀ {a j : Nat} {tx : AmTx α}, TxAt tx a s → I j tx.txedBuffer tx.retxBuffer → a ≤ j →
    j < k → j < s → j % 1024 ∈ st.nackSnList →
    Spec E (fun tx' => I (j + 1) tx'.txedBuffer tx'.retxBuffer) (nackSn tx (j % 1024))
  ack : ∀ {a j : Nat} {tx tx' : AmTx α}, TxAt tx a s → I j tx.txedBuffer tx.retxBuffer → a ≤ j →
    j < k → j < s → j % 1024 ∉ st.nackSnList → ackSn tx (j % 1024) = .ok tx' →
    I (j + 1) tx'.txedBuffer tx'.retxBuffer

/-- The rule of the loop over the sequence numbers below the acknowledged one. -/
theorem spec_statusLoop (hrule : StatusRule st s k E I) :
    ∀ (fuel : Nat) {a j : Nat} {tx : AmTx α} {sn ack : SequenceNumber10} {inc : Bool}, TxAt tx a s →
      I j tx.txedBuffer tx.retxBuffer → sn.Rep a j → ack.Rep a k → a ≤ j → j ≤ s → a ≤ k →
        k < a + 1024 → (inc = true → a = j) → s < j + fuel →
      Spec E (fun tx' => ∃ a' j', TxAt tx' a' s ∧ a ≤ a' ∧ I j' tx'.txedBuffer tx'.retxBuffer ∧
          a' ≤ j' ∧ j' ≤ s ∧ (k ≤ j' ∨ s ≤ j')) (statusLoop st fuel tx sn ack inc)
  | 0, _, _, _, _, _, _, _, _, _, _, _, hj, _, _, _, hfuel => absurd hfuel (Nat.not_lt.2 hj)
  | fuel + 1, a, j, tx, sn, ack, inc, h, hI, hsn, hack', haj, hj, hk, hka, hinc, hfuel => by
    have hw : amWindowSize = 512 := rfl
    have hadd := h.le_add
    rw [statusLoop, hsn.lt hack' haj (by omega) hk hka, ok_bind]
    split
    · next hjk =>
      have hjk := of_decide_eq_true hjk
      rw [hsn.lt h.vtS haj (by omega) h.le (by omega), ok_bind]
      split
      · next hjs =>
        have hjs := of_decide_eq_true hjs
        have hstop := h.stopPoll (j % 1024)
        have hIstop : I j (stopPoll tx (j % 1024)).txedBuffer
          (stopPoll tx (j % 1024)).retxBuffer := by
          rwa [stopPoll_buffers.1, stopPoll_buffers.2]
        rw [hsn.value]
        split
        · next hmem =>
          refine ((hrule.nack hstop hIstop haj hjk hjs hmem).also fun tx' htx' =>
            hstop.nackSn.ok htx').bind fun tx' htx' => ?_
          exact spec_statusLoop hrule fuel htx'.2 htx'.1 hsn.incr hack' (by omega) hjs hk hka
            (fun h => Bool.noConfusion h) (by omega)
        · next hmem =>
          obtain ⟨tx', htx', hat, hT, hX, -, -⟩ := hstop.ackSn (j := j)
          have hI' := hrule.ack hstop hIstop haj hjk hjs hmem htx'
          rw [htx', ok_bind]
          split
          · next hincr =>
            obtain rfl := hinc hincr
            have hadv := hat.advanceVtA hjs hT hX
            refine (spec_statusLoop hrule fuel hadv hI'
              (hsn.setModulusBase hat.vtA.incr).incr (hack'.setModulusBase hat.vtA.incr) le_rfl hjs
              hjk
              (by omega) (fun _ => rfl) (by omega)).imp fun tx₂ htx₂ => ?_
            obtain ⟨a', j', h1, h2, h3⟩ := htx₂
            exact ⟨a', j', h1, (Nat.le_succ a).trans h2, h3⟩
          · exact spec_statusLoop hrule fuel hat hI' hsn.incr hack' (by omega) hjs hk hka
              (fun h => Bool.noConfusion h) (by omega)
      · next hjs =>
        exact ⟨a, j, h, le_rfl, hI, haj, hj,
          .inr (Nat.le_of_not_lt fun h => hjs (decide_eq_true h))⟩
    · next hjk =>
      exact ⟨a, j, h, le_rfl, hI, haj, hj, .inl (Nat.le_of_not_lt fun h => hjk (decide_eq_true h))⟩

theorem spec_receiveStatusPdu (st : StatusPdu) (h : TxAt tx a s) (hsn : st.ackSn % 1024 = k % 1024)
    (hk : a ≤ k) (hka : k < a + 1024)
    (hrule : StatusRule st s k E I) (hI : I a tx.txedBuffer tx.retxBuffer) :
    Spec E (fun tx' => ∃ a' j', TxAt tx' a' s ∧ a ≤ a' ∧ I j' tx'.txedBuffer tx'.retxBuffer ∧
        a' ≤ j' ∧ j' ≤ s ∧ (k ≤ j' ∨ s ≤ j')) (receiveStatusPdu tx st) := by
  have hw : amWindowSize = 512 := rfl
  have hadd := h.le_add
  have hbases : TxAt { tx with vtA := tx.vtA.setModulusBase tx.vtA,
                               vtS := tx.vtS.setModulusBase tx.vtA, vtMs :=
                                 tx.vtMs.setModulusBase tx.vtA } a s :=
    { h with
      vtA := h.vtA.setModulusBase h.vtA
      vtS := h.vtS.setModulusBase h.vtA
      vtMs := h.vtMs.setModulusBase h.vtA }
  exact spec_statusLoop hrule amLoopFuel hbases hI (h.vtA.setModulusBase h.vtA) ⟨hsn,
    h.vtA.value⟩ le_rfl h.le hk hka (fun _ => rfl) (by rw [amLoopFuel]; omega)

/-- `I` goes along the loop over the PDUs that are not acknowledged. -/
structure PollRule (a s : Nat) (I : Nat → (Nat → RetxPdu α) → (Nat → RetxPdu α) → Prop) : Prop where
  move : ∀ {j : Nat} {tx : AmTx α} {pdu : AmPdu α}, TxAt tx a s → I j tx.txedBuffer tx.retxBuffer →
    a ≤ j → j < s → (tx.txedBuffer (j % 1024)).pdu = some pdu →
    I (j + 1) (moveToRetx tx (j % 1024) pdu).txedBuffer (moveToRetx tx (j % 1024) pdu).retxBuffer
  skip : ∀ {j : Nat} {tx : AmTx α}, TxAt tx a s → I j tx.txedBuffer tx.retxBuffer → a ≤ j → j < s →
    (tx.txedBuffer (j % 1024)).pdu = none → I (j + 1) tx.txedBuffer tx.retxBuffer

theorem pollLoop_ok (hrule : PollRule a s I) :
    ∀ (fuel : Nat) {j : Nat} {tx : AmTx α} {sn : SequenceNumber10}, TxAt tx a s →
      I j tx.txedBuffer tx.retxBuffer → sn.Rep a j → a ≤ j → j ≤ s → s < j + fuel →
      ∃ tx', pollLoop fuel tx sn = .ok tx' ∧ TxAt tx' a s ∧ I s tx'.txedBuffer tx'.retxBuffer
  | 0, _, _, _, _, _, _, _, hj, hfuel => absurd hfuel (Nat.not_lt.2 hj)
  | fuel + 1, j, tx, sn, h, hI, hsn, haj, hj, hfuel => by
    have hw : amWindowSize = 512 := rfl
    have hadd := h.le_add
    rw [pollLoop, hsn.lt h.vtS haj (by omega) h.le (by omega), ok_bind]
    split
    · next hjs =>
      have hjs := of_decide_eq_true hjs
      rw [hsn.value]
      split
      · next pdu hpdu =>
        exact pollLoop_ok hrule fuel (h.moveToRetx hpdu) (hrule.move h hI haj hjs hpdu) hsn.incr
          (by omega) hjs (by omega)
      · next hnone =>
        exact pollLoop_ok hrule fuel h (hrule.skip h hI haj hjs hnone) hsn.incr (by omega) hjs
          (by omega)
    · next hjs =>
      have hjs : s ≤ j := Nat.le_of_not_lt fun h => hjs (decide_eq_true h)
      obtain rfl := Nat.le_antisymm hj hjs
      exact ⟨tx, rfl, h, hI⟩

theorem TxAt.expirePoll (h : TxAt tx a s) (hrule : PollRule a s I)
    (hI : ∀ j, I j tx.txedBuffer tx.retxBuffer) :
    ∃ tx', amExpirePollRetransmitTimer tx = .ok tx' ∧ TxAt tx' a s ∧
      I s tx'.txedBuffer tx'.retxBuffer := by
  have hw : amWindowSize = 512 := rfl
  have hadd := h.le_add
  have hexpired : TxAt { tx with
    pollRetransmitTimerJustExpired := true, pollRetransmitTimer := false } a s :=
    h.change ⟨rfl, rfl, rfl, rfl, rfl⟩ h.slots h.txed h.retx
  rw [amExpirePollRetransmitTimer, h.vtS.le h.vtMs h.le (by omega) (by omega) (by omega), ok_bind,
    if_pos (decide_eq_true hadd)]
  split
  · exact pollLoop_ok hrule amLoopFuel hexpired (hI a) h.vtA le_rfl h.le (by rw [amLoopFuel]; omega)
  · exact ⟨_, rfl, hexpired, hI s⟩

end status

/-! ## Runs -/

section runs
variable {c : AmConfig} {s t : Am α} {tx : AmTx α}

theorem TxAt.submit {a n now : Nat} {p : List α} (h : TxAt tx a n) :
    TxAt (amTransmitPdcpPdu c tx now p) a n := by
  rw [amTransmitPdcpPdu]
  split
  · refine
      { h with
        txon := ?_ }
    have hbytes : (bufferBytes (tx.txonBuffer ++ [⟨⟨p, .fullSdu⟩, now⟩])).length =
        (bufferBytes tx.txonBuffer).length + p.length := by
      simp [bufferBytes]
    exact (add32_mod h.txon).trans (congrArg (· % 2 ^ 32) hbytes.symm)
  · exact { h with txon := h.txon }

theorem Am.report_tx : s.report.tx = s.tx := by
  simp only [Am.report]
  split <;> rfl

/-- A STATUS PDU of any content keeps the window; the one assertion that it can trip is that on a
PDU that is reported as missing after it was acknowledged. -/
theorem TxAt.receiveStatus {a n : Nat} {st : StatusPdu} (h : TxAt tx a n) :
    Spec (· = .assertion) (fun tx' => ∃ a', TxAt tx' a' n) (receiveStatusPdu tx st) := by
  obtain ⟨k, hsn, hk, hka⟩ : ∃ k, st.ackSn % 1024 = k % 1024 ∧ a ≤ k ∧ k < a + 1024 :=
    ⟨a + (st.ackSn + 1024 - a % 1024) % 1024, by omega, by omega, by omega⟩
  refine (spec_receiveStatusPdu (I := fun _ _ _ => True) st h hsn hk hka ⟨fun h _ _ _ _ _ => ?_,
    fun _ _ _ _ _ _ _ => trivial⟩ trivial).imp fun tx' htx' => ?_
  · exact h.nackSn.imp fun _ _ => trivial
  · obtain ⟨a', -, h1, -⟩ := htx'
    exact ⟨a', h1⟩

/-- Every action of the entity keeps the window. -/
theorem txAt_step {a : AmAction α} (hs : ∃ a n, TxAt s.tx a n) (hst : AmStep c s a t) :
    ∃ a n, TxAt t.tx a n := by
  obtain ⟨va, vs, h⟩ := hs
  obtain ⟨o, ho⟩ := hst
  cases a with
  | wait ns =>
    cases ho
    exact ⟨va, vs, h⟩
  | transmitPdcpPdu p =>
    cases ho
    refine ⟨va, vs, ?_⟩
    show TxAt (Am.report _).tx va vs
    rw [Am.report_tx]
    exact h.submit
  | notifyTxOpportunity bytes =>
    rw [Am.act, Am.notifyTxOpportunity] at ho
    split at ho
    · cases ho
    · split at ho
      · cases hsend : sendStatusPdu s.rx bytes with
        | error e =>
          rw [hsend] at ho
          cases ho
        | ok r =>
          rw [hsend] at ho
          cases ho
          exact ⟨va, vs, h⟩
      · cases hopp : amTxOpportunity c s.tx s.now bytes with
        | error e =>
          rw [hopp] at ho
          cases ho
        | ok r =>
          rw [hopp, ok_bind] at ho
          cases hpass : passPdu r with
          | error e =>
            rw [hpass] at ho
            cases ho
          | ok r' =>
            rw [hpass, passPdu_ok hpass] at ho
            cases ho
            obtain ⟨s', hs'⟩ := ((h.outcome _ _ _).ok hopp).txAt h
            exact ⟨va, s', hs'⟩
  | receivePdu pdu =>
    rw [Am.act, Am.receivePdu.eq_def] at ho
    cases pdu with
    | data pdu =>
      simp only at ho
      cases hrx : receiveDataPdu s.rx pdu with
      | error e =>
        rw [hrx] at ho
        cases ho
      | ok rx =>
        rw [hrx] at ho
        cases ho
        refine ⟨va, vs, ?_⟩
        show TxAt (if _ then _ else _ : Am α).tx va vs
        split
        · rw [Am.report_tx]
          exact h
        · exact h
    | status st =>
      simp only at ho
      cases htx : receiveStatusPdu s.tx st with
      | error e =>
        rw [htx] at ho
        cases ho
      | ok tx =>
        rw [htx] at ho
        cases ho
        obtain ⟨a', h1⟩ := h.receiveStatus.ok htx
        exact ⟨a', vs, h1⟩
  | expireReorderingTimer =>
    rw [Am.act] at ho
    split at ho
    · cases hrx : expireReorderingTimer s.rx with
      | error e =>
        rw [hrx] at ho
        cases ho
      | ok rx =>
        rw [hrx] at ho
        cases ho
        exact ⟨va, vs, h⟩
    · cases ho
      exact ⟨va, vs, h⟩
  | expirePollRetransmitTimer =>
    rw [Am.act] at ho
    split at ho
    · obtain ⟨tx', htx', h1, -⟩ := h.expirePoll (I := fun _ _ _ => True)
        ⟨fun _ _ _ _ _ => trivial, fun _ _ _ _ _ => trivial⟩ fun _ => trivial
      rw [htx'] at ho
      cases ho
      refine ⟨va, vs, ?_⟩
      rw [Am.report_tx]
      exact h1
    · cases ho
      exact ⟨va, vs, h⟩
  | expireStatusProhibitTimer =>
    cases ho
    exact ⟨va, vs, h⟩
  | expireBsrTimer =>
    cases ho
    refine ⟨va, vs, ?_⟩
    split
    · rw [Am.expireBsrTimer]
      split
      · show TxAt (Am.report s).tx va vs
        rw [Am.report_tx]
        exact h
      · exact h
    · exact h

/-- The window is in order relative to `VT(A)`, the PDUs in it are in at most one of the two
buffers, and the three counters are the sizes of the buffers. -/
structure TxInvariant (tx : AmTx α) : Prop where
  window : ∃ a s, tx.vtA.Rep a a ∧ tx.vtS.Rep a s ∧ tx.vtMs.Rep a (a + amWindowSize) ∧ a ≤ s ∧
    s ≤ a + amWindowSize ∧ Slots tx.txedBuffer tx.retxBuffer a s
  txon : tx.txonBufferSize = (tx.txonBuffer.map (·.pdu.size)).sum
  txed : tx.txedBufferSize = stored tx.txedBuffer
  retx : tx.retxBufferSize = stored tx.retxBuffer

/-- The packets of each buffer are together smaller than the counters can count. -/
structure Fits (tx : AmTx α) : Prop where
  txon : (tx.txonBuffer.map (·.pdu.size)).sum < 2 ^ 32
  txed : stored tx.txedBuffer < 2 ^ 32
  retx : stored tx.retxBuffer < 2 ^ 32

/-- In every state of the entity, the transmitting side is in order and its sizes are right if and
only if the packets of each buffer are together smaller than `2 ^ 32` bytes. -/
theorem transmitter_of_run (c : AmConfig) (s : Am α) (hrun : Lts.Run (AmStep c) Lts.anyStep {} s) :
    (∃ a n, TxAt s.tx a n) ∧ (TxInvariant s.tx ↔ Fits s.tx) := by
  have hinv : ∃ a n, TxAt s.tx a n :=
    Run.invariant (I := fun s : Am α => ∃ a n, TxAt s.tx a n) (fun hs _ hst => txAt_step hs hst)
      ⟨0, 0, txAt_init⟩ hrun
  refine ⟨hinv, ?_⟩
  obtain ⟨a, n, h⟩ := hinv
  have hbytes : (bufferBytes s.tx.txonBuffer).length = (s.tx.txonBuffer.map (·.pdu.size)).sum := by
    rw [bufferBytes, length_flatMap]
    rfl
  have htxon := h.txon
  rw [SizeOk, hbytes] at htxon
  constructor
  · intro hinv
    exact
      { txon := by rw [← hinv.txon, htxon]; exact Nat.mod_lt _ (Nat.two_pow_pos 32)
        txed := by rw [← hinv.txed, h.txed]; exact Nat.mod_lt _ (Nat.two_pow_pos 32)
        retx := by rw [← hinv.retx, h.retx]; exact Nat.mod_lt _ (Nat.two_pow_pos 32) }
  · intro hfits
    exact
      { window := ⟨a, n, h.vtA, h.vtS, h.vtMs, h.le, h.le_add, h.slots⟩
        txon := by rw [htxon, Nat.mod_eq_of_lt hfits.txon]
        txed := by rw [h.txed, Nat.mod_eq_of_lt hfits.txed]
        retx := by rw [h.retx, Nat.mod_eq_of_lt hfits.retx] }

/-- A PDU of 7 bytes waits for its acknowledgement. -/
theorem transmitter_one_pdu : ∃ s : Am Nat, Lts.Run (AmStep {}) Lts.anyStep {} s ∧
    s.tx.txedBufferSize = 7 ∧ TxInvariant s.tx := by
  have hrun : ∃ s : Am Nat, execs anyStep (fun s a => ((s.act {} a).map (·.1)).toOption) {}
      [.transmitPdcpPdu [1, 2, 3], .notifyTxOpportunity 7] = some s ∧ s.tx.txedBufferSize = 7 ∧
      s.tx.txonBuffer = [] ∧ s.tx.retxBuffer = (fun _ => {}) ∧
      s.tx.txedBuffer = update (fun _ => {}) 0
        ⟨some ⟨⟨0, ⟨true, true⟩, [false], [], [1, 2, 3]⟩, true⟩, 0, 0⟩ := by
    refine ⟨_, rfl, rfl, rfl, rfl, rfl⟩
  obtain ⟨s, hs, hsize, htxon, hretx, htxed⟩ := hrun
  have hstep : ∀ {s : Am Nat} {a t}, ((s.act {} a).map (·.1)).toOption = some t →
    AmStep {} s a t := by
    intro s a t h
    have hok := ok_of_toOption h
    cases hact : s.act {} a with
    | error e =>
      rw [hact] at hok
      cases hok
    | ok r =>
      rw [hact] at hok
      cases hok
      exact ⟨r.2, hact⟩
  have hrun : Run (AmStep {}) anyStep {} s := run_of_execs hstep hs
  refine ⟨s, hrun, hsize, ((transmitter_of_run {} s hrun).2).2 ⟨?_, ?_, ?_⟩⟩
  · rw [htxon]
    exact Nat.two_pow_pos 32
  · rw [htxed, stored_fill (Nat.succ_pos 1023) rfl rfl, stored_empty]
    decide
  · rw [hretx, stored_empty]
    exact Nat.two_pow_pos 32

theorem submit_many (p : List α) (n : Nat) : ∃ s : Am α,
    Run (AmStep { maxTxBufferSize := 0 }) anyStep {} s ∧
      s.tx.txonBufferSize = n * p.length % 2 ^ 32 ∧
      (s.tx.txonBuffer.map (·.pdu.size)).sum = n * p.length := by
  induction n with
  | zero => exact ⟨{}, Run.refl _, by simp, by simp⟩
  | succ n ih =>
    obtain ⟨s, hrun, hsize, hsum⟩ := ih
    refine ⟨s.transmitPdcpPdu { maxTxBufferSize := 0 } p,
      hrun.snoc (a := .transmitPdcpPdu p) trivial ⟨none, rfl⟩, ?_, ?_⟩
    · show (Am.report _).tx.txonBufferSize = _
      rw [Am.report_tx]
      simp only [amTransmitPdcpPdu, or_true, if_true]
      rw [add32_mod hsize, Nat.succ_mul]
    · show ((Am.report _).tx.txonBuffer.map _).sum = _
      rw [Am.report_tx]
      simp only [amTransmitPdcpPdu, or_true, if_true, map_append, sum_append, hsum]
      simp [Segment.size, Nat.succ_mul]

/-- With an unlimited buffer, a million SDUs of 4096 bytes bring the counter back to zero. -/
theorem counter_wraps : ∃ s : Am Nat, Lts.Run (AmStep { maxTxBufferSize := 0 }) Lts.anyStep {} s ∧
    s.tx.txonBufferSize = 0 ∧ ¬ TxInvariant s.tx := by
  obtain ⟨p, hp⟩ : ∃ p : List Nat, p.length = 4096 := ⟨replicate 4096 0, length_replicate⟩
  obtain ⟨s, hrun, hsize, hsum⟩ := submit_many p (2 ^ 20)
  rw [hp] at hsize hsum
  refine ⟨s, hrun, hsize.trans (by decide), fun hinv => ?_⟩
  have htxon := hinv.txon
  rw [hsize, hsum] at htxon
  exact absurd htxon (by decide)

end runs

end OranNs3.Rlc
