import OranNs3.Lib.Run
import OranNs3.Rlc.Reassembly
import Mathlib.Data.List.Nodup

/-!
# The transmitting side of an UM entity

`NrRlcUm::DoTransmitPdcpPdu` (`nr-rlc-um.cc`), `DoNotifyTxOpportunity` (`nr-rlc-um.cc`),
`DoTransmitBufferStatusReport` and `ExpireBsrTimer`, with the SDUs of the `TxDrop` trace and the
PDUs that were passed to the MAC as logs, and the bytes of all SDUs submitted.

An SDU for which the head of line has waited too long is reported as dropped, and stored all the
same: it is counted twice. As long as no SDU that fits is reported so, the sizes of the packets that
wait stay below `2 ^ 32`, and no PDU has a header that stands in the place of SDUs, the bytes
submitted are those dropped, those in the packets sent and those that wait (`conservation_of_run`).
-/

namespace OranNs3.Rlc

open List

variable {α : Type}

/-- The attributes of the transmitting side; the delay budget comes from the bearer. -/
structure UmConfig where
  maxTxBufferSize : Nat := 100000
  enablePdcpDiscarding : Bool := true
  discardTimerMs : Nat := 0
  packetDelayBudgetMs : Nat := 0
deriving DecidableEq

/-- `BufferStatusReportParameters`, those that an UM entity sets. -/
structure BufferStatusReport where
  txQueueSize : Nat
  txQueueHolDelay : Nat
  expBsrTimer : Bool
deriving DecidableEq

/-- The transmitting side. -/
structure UmTx (α : Type) where
  now : Nat := 0
  txBuffer : List (TxPdu α) := []
  txBufferSize : Nat := 0
  sequenceNumber : SequenceNumber10 := {}
  bsrTimer : Bool := false
  expBsrTimer : Bool := false
  reports : List BufferStatusReport := []
  submitted : List (List α) := []
  dropped : List (List α) := []
  sent : List (DataPdu α) := []
deriving DecidableEq

/-- The time in nanoseconds that the head of line has waited. -/
def holDelay (s : UmTx α) : Nat :=
  match s.txBuffer with
  | [] => 0
  | first :: _ => s.now - first.waitingSince

def getMilliSeconds (ns : Nat) : Nat := ns / 10 ^ 6

def doTransmitBufferStatusReport (s : UmTx α) : UmTx α :=
  { s with
    expBsrTimer := false
    reports := s.reports ++
      [{ txQueueSize :=
          if s.txBuffer.isEmpty then 0 else add32 s.txBufferSize (2 * s.txBuffer.length)
         txQueueHolDelay := getMilliSeconds (holDelay s) % 2 ^ 16
         expBsrTimer := s.expBsrTimer }] }

variable (c : UmConfig)

/-- The test of the head of line, whose delay is stored in 32 bits. -/
def isDiscarded (s : UmTx α) : Bool :=
  c.enablePdcpDiscarding &&
    getMilliSeconds (holDelay s) % 2 ^ 32 >
      (if c.discardTimerMs > 0 then c.discardTimerMs else c.packetDelayBudgetMs)

/-- The size test of a new SDU, in 32 bits. -/
def fits (s : UmTx α) (p : List α) : Bool :=
  add32 s.txBufferSize p.length ≤ c.maxTxBufferSize

/-- A packet in the report of the trace. -/
def txDropTrace (s : UmTx α) (p : List α) : UmTx α := { s with dropped := s.dropped ++ [p] }

/-- A new SDU at the end of the buffer. -/
def storePdu (s : UmTx α) (p : List α) : UmTx α :=
  { s with
    txBuffer := s.txBuffer ++ [⟨⟨p, .fullSdu⟩, s.now⟩]
    txBufferSize := add32 s.txBufferSize p.length }

/-- `DoTransmitPdcpPdu`: a packet that is reported for the head of line is stored too. -/
def doTransmitPdcpPdu (s : UmTx α) (p : List α) : UmTx α :=
  let s := { s with submitted := s.submitted ++ [p] }
  let s :=
    if fits c s p then storePdu (if isDiscarded c s then txDropTrace s p else s) p
    else txDropTrace s p
  { doTransmitBufferStatusReport s with bsrTimer := false }

/-- A PDU passed to the MAC, and the buffer that is left. -/
def sendPdu (s : UmTx α) (b : Build α) (fi : FramingInfo) : UmTx α :=
  { s with
    txBuffer := b.txBuffer
    txBufferSize := b.txBufferSize
    sequenceNumber := s.sequenceNumber.incr
    sent := s.sent ++ [pduOf s.sequenceNumber.value b fi]
    bsrTimer := if b.txBuffer.isEmpty then s.bsrTimer else true }

/-- `DoNotifyTxOpportunity`, with the header that is added to the packet. -/
def doNotifyTxOpportunity (s : UmTx α) (bytes : Nat) : Except RlcError (UmTx α) :=
  if bytes ≤ 2 then .ok s
  else
    match s.txBuffer with
    | [] => .ok s
    | first :: txBuffer =>
      let b := buildDataField (bytes - 2) first txBuffer s.txBufferSize
      framingInfoOf b.dataField >>= fun fi =>
        (checkHeader (pduOf s.sequenceNumber.value b fi).umHeaderLength
          (dataBytes b.dataField).length).map fun _ =>
          sendPdu s b fi

/-- `ExpireBsrTimer`, where the timer is pending. -/
def expireBsrTimer (s : UmTx α) : UmTx α :=
  if s.txBuffer.isEmpty then { s with bsrTimer := false }
  else { doTransmitBufferStatusReport { s with expBsrTimer := true } with bsrTimer := true }

/-! ## Runs -/

/-- What happens at the transmitting side; time may pass before it. -/
inductive UmTxAction (α : Type)
  | wait (ns : Nat)
  | transmitPdcpPdu (p : List α)
  | notifyTxOpportunity (bytes : Nat)
  | expireBsrTimer
deriving DecidableEq

/-- One action. -/
def umTxAct (s : UmTx α) : UmTxAction α → Except RlcError (UmTx α)
  | .wait ns => .ok { s with now := s.now + ns }
  | .transmitPdcpPdu p => .ok (doTransmitPdcpPdu c s p)
  | .notifyTxOpportunity bytes => doNotifyTxOpportunity s bytes
  | .expireBsrTimer => .ok (if s.bsrTimer then expireBsrTimer s else s)

/-- The steps. -/
def UmTxStep (s : UmTx α) (a : UmTxAction α) (t : UmTx α) : Prop :=
  umTxAct c s a = .ok t

/-- An SDU that is stored is not reported as dropped, what waits keeps its size in 32 bits, and the
header of a PDU is shorter than `2 ^ 16` bytes: it has fewer than 43689 length indicators behind 2
bytes. -/
def UmTxGuard (s : UmTx α) : UmTxAction α → Prop
  | .transmitPdcpPdu p =>
    fits c s p = true → isDiscarded c s = false ∧ s.txBufferSize + p.length < 2 ^ 32
  | .notifyTxOpportunity bytes => ¬ Crowded 0 43689 (bytes - 2) s.txBuffer
  | _ => True

instance {c : UmConfig} {s : UmTx α} : (a : UmTxAction α) → Decidable (UmTxGuard c s a)
  | .transmitPdcpPdu _ => inferInstanceAs (Decidable (_ → _))
  | .notifyTxOpportunity _ => inferInstanceAs (Decidable ¬ _)
  | .wait _ | .expireBsrTimer => inferInstanceAs (Decidable True)

/-! ## Conservation -/

section conservation
variable {c : UmConfig} {s t : UmTx α}

/-- The bytes of SDUs in the packets sent. -/
def sentBytes (s : UmTx α) : List α := s.sent.flatMap (·.carried)

/-- The bytes submitted are those dropped, those sent and those that wait, and the last are counted.
-/
structure Conserved (s : UmTx α) : Prop where
  bytes : s.submitted.flatten.Perm (s.dropped.flatten ++ (sentBytes s ++ bufferBytes s.txBuffer))
  size : s.txBufferSize = (bufferBytes s.txBuffer).length
  lt : s.txBufferSize < 2 ^ 32

theorem Conserved.report (h : Conserved s) (b : Bool) :
    Conserved { doTransmitBufferStatusReport s with bsrTimer := b } := ⟨h.bytes, h.size, h.lt⟩

theorem bufferBytes_concat {p : TxPdu α} {l : List (TxPdu α)} :
    bufferBytes (l ++ [p]) = bufferBytes l ++ p.pdu.bytes := by
  simp [bufferBytes]

theorem Conserved.transmit {p : List α} (h : Conserved s)
    (hok : UmTxGuard c s (.transmitPdcpPdu p)) : Conserved (doTransmitPdcpPdu c s p) := by
  have hnew : (s.submitted ++ [p]).flatten.Perm
      (p ++ (s.dropped.flatten ++ (sentBytes s ++ bufferBytes s.txBuffer))) := by
    rw [flatten_append, flatten_singleton]
    exact (perm_append_comm).trans (h.bytes.append_left p)
  rw [doTransmitPdcpPdu]
  refine Conserved.report ?_ false
  split
  · next hfits =>
    obtain ⟨hdisc, hlt⟩ := hok hfits
    have hdisc' : ¬ isDiscarded c { s with submitted := s.submitted ++ [p] } = true :=
      fun hd => Bool.noConfusion (hdisc.symm.trans hd)
    have hadd : add32 s.txBufferSize p.length = s.txBufferSize + p.length := Nat.mod_eq_of_lt hlt
    rw [if_neg hdisc']
    refine ⟨hnew.trans ?_, ?_, ?_⟩
    · simp only [storePdu, bufferBytes_concat]
      refine List.perm_append_comm.trans ?_
      rw [append_assoc, append_assoc]
      exact List.Perm.refl _
    · simp only [storePdu, bufferBytes_concat, length_append, ← h.size]
      exact hadd
    · exact hadd.trans_lt hlt
  · refine ⟨hnew.trans ?_, h.size, h.lt⟩
    simp only [txDropTrace, flatten_append, flatten_singleton, append_assoc]
    exact perm_append_comm_assoc _ _ _

theorem doNotifyTxOpportunity_ok {bytes : Nat} (ht : doNotifyTxOpportunity s bytes = .ok t) :
    t = s ∨ ∃ first txBuffer fi, 2 < bytes ∧ s.txBuffer = first :: txBuffer ∧
      framingInfoOf (buildDataField (bytes - 2) first txBuffer s.txBufferSize).dataField = .ok fi ∧
      t = sendPdu s (buildDataField (bytes - 2) first txBuffer s.txBufferSize) fi := by
  rw [doNotifyTxOpportunity] at ht
  split at ht
  · exact .inl (Except.ok.inj ht).symm
  · next hbytes =>
    split at ht
    · exact .inl (Except.ok.inj ht).symm
    · next first txBuffer hbuffer =>
      obtain ⟨fi, hfi, ht⟩ := Lts.ok_of_bind ht
      generalize checkHeader _ _ = r at ht
      cases r with
      | error e => cases ht
      | ok u => exact .inr ⟨first, txBuffer, fi, Nat.lt_of_not_le hbytes, hbuffer, hfi,
          (Except.ok.inj ht).symm⟩

/-- With fewer than 43689 length indicators, the packet of a PDU has all bytes of its data field. -/
theorem carried_pduOf {first : TxPdu α} {txBuffer : List (TxPdu α)} {room v : Nat} (size : Nat)
    (fi : FramingInfo) (hfew : ¬ Crowded 0 43689 room (first :: txBuffer)) :
    (pduOf v (buildDataField room first txBuffer size) fi).carried =
      dataBytes (buildDataField room first txBuffer size).dataField := by
  rw [← indicators_iff size (Nat.succ_pos _)] at hfew
  rw [DataPdu.carried, overwritten_eq_zero, drop_zero]
  · rfl
  · show 2 + liLength (buildDataField room first txBuffer size).lengthIndicators.length < 2 ^ 16
    rw [liLength]
    omega

theorem Conserved.opportunity {bytes : Nat} (h : Conserved s)
    (hok : UmTxGuard c s (.notifyTxOpportunity bytes))
    (ht : doNotifyTxOpportunity s bytes = .ok t) : Conserved t := by
  obtain rfl | ⟨first, txBuffer, fi, hbytes, hbuffer, -, rfl⟩ := doNotifyTxOpportunity_ok ht
  · exact h
  · have hsize := h.size
    have hlt := h.lt
    rw [hbuffer] at hsize
    have hfew : ¬ Crowded 0 43689 (bytes - 2) (first :: txBuffer) := by
      rw [← hbuffer]
      exact hok
    obtain ⟨hcons, hsize'⟩ := buildDataField_bytes (Nat.sub_pos_of_lt hbytes)
      (hsize.trans (Nat.mod_eq_of_lt (hsize ▸ hlt)).symm)
    have hlen := congrArg List.length hcons
    rw [length_append, ← hsize] at hlen
    rw [SizeOk, Nat.mod_eq_of_lt (by omega)] at hsize'
    refine ⟨?_, hsize', ?_⟩
    · refine h.bytes.trans (Perm.append_left _ ?_)
      simp only [sendPdu, sentBytes, flatMap_append, flatMap_singleton, append_assoc]
      rw [carried_pduOf _ _ hfew, hcons, hbuffer]
    · show (buildDataField (bytes - 2) first txBuffer s.txBufferSize).txBufferSize < 2 ^ 32
      omega

theorem Conserved.step {a : UmTxAction α} (h : Conserved s) (hok : UmTxGuard c s a)
    (hst : UmTxStep c s a t) : Conserved t := by
  cases a with
  | wait ns =>
    cases hst
    exact ⟨h.bytes, h.size, h.lt⟩
  | transmitPdcpPdu p =>
    cases hst
    exact h.transmit hok
  | notifyTxOpportunity bytes => exact h.opportunity hok hst
  | expireBsrTimer =>
    cases hst
    split
    · rw [expireBsrTimer]
      split
      · exact ⟨h.bytes, h.size, h.lt⟩
      · exact ⟨h.bytes, h.size, h.lt⟩
    · exact h

/-- In every run in which no SDU that is stored is reported as dropped, what waits keeps its size in
32 bits, and headers are shorter than `2 ^ 16` bytes, the bytes submitted are those dropped, those
in the packets sent and those of the buffer, whose size is counted. -/
theorem conservation_of_run (c : UmConfig) (s : UmTx α)
    (hrun : Lts.Run (UmTxStep c) (UmTxGuard c) {} s) :
    s.submitted.flatten.length = s.dropped.flatten.length + (sentBytes s).length + s.txBufferSize ∧
      s.txBufferSize = (s.txBuffer.map (·.pdu.size)).sum ∧
      s.submitted.flatten.Perm (s.dropped.flatten ++ (sentBytes s ++ bufferBytes s.txBuffer)) ∧
      (s.submitted.flatten.Nodup → s.dropped.flatten.Disjoint (sentBytes s)) := by
  have h : Conserved s := Lts.Run.invariant (I := Conserved) Conserved.step
    ⟨List.Perm.refl _, rfl, Nat.two_pow_pos 32⟩ hrun
  refine ⟨?_, ?_, h.bytes, fun hnodup => ?_⟩
  · rw [h.bytes.length_eq, length_append, length_append, h.size, Nat.add_assoc]
  · rw [h.size, bufferBytes, length_flatMap]
    rfl
  · have hdisj := disjoint_of_nodup_append (h.bytes.nodup_iff.1 hnodup)
    exact fun b hb hb' => hdisj hb (mem_append_left _ hb')

/-- Two SDUs, one of which is cut, and a third that is too large. -/
theorem conservation_cut_sdu : ∃ s : UmTx Nat,
    Lts.Run (UmTxStep { maxTxBufferSize := 5 }) (UmTxGuard { maxTxBufferSize := 5 }) {} s ∧
      s.sent.map (·.data) = [[0, 1, 2]] ∧ s.dropped = [[5]] ∧ s.txBufferSize = 2 ∧
      s.dropped.flatten.Disjoint (sentBytes s) := by
  have hrun : ∃ s : UmTx Nat, Lts.execs (UmTxGuard { maxTxBufferSize := 5 })
      (fun s a => (umTxAct { maxTxBufferSize := 5 } s a).toOption) {}
      [.transmitPdcpPdu [0, 1, 2, 3, 4], .transmitPdcpPdu [5], .notifyTxOpportunity 5] = some s ∧
      s.sent.map (·.data) = [[0, 1, 2]] ∧ s.dropped = [[5]] ∧ s.txBufferSize = 2 ∧
      s.submitted.flatten.Nodup := by
    refine ⟨_, rfl, ?_, ?_, ?_, ?_⟩ <;> decide
  obtain ⟨s, hs, hsent, hdropped, hsize, hnodup⟩ := hrun
  have hstep : ∀ {s : UmTx Nat} {a t}, (umTxAct { maxTxBufferSize := 5 } s a).toOption = some t →
      UmTxStep { maxTxBufferSize := 5 } s a t := Fallible.ok_of_toOption
  have hrun := Lts.run_of_execs hstep hs
  exact ⟨s, hrun, hsent, hdropped, hsize,
    (conservation_of_run { maxTxBufferSize := 5 } s hrun).2.2.2 hnodup⟩

/-- An SDU behind one that has waited for a millisecond, with a delay budget of none, is reported as
dropped and sent. -/
theorem dropped_and_sent : ∃ s : UmTx Nat, Lts.Run (UmTxStep {}) Lts.anyStep {} s ∧
    s.dropped = [[1]] ∧ s.sent.map (·.data) = [[0, 1]] ∧
    s.submitted.flatten.length ≠
      s.dropped.flatten.length + (sentBytes s).length + s.txBufferSize := by
  have hrun : ∃ s : UmTx Nat, Lts.execs Lts.anyStep (fun s a => (umTxAct {} s a).toOption) {}
      [.transmitPdcpPdu [0], .wait (10 ^ 6), .transmitPdcpPdu [1], .notifyTxOpportunity 9] =
      some s ∧
      s.dropped = [[1]] ∧ s.sent.map (·.data) = [[0, 1]] ∧
      s.submitted.flatten.length ≠
        s.dropped.flatten.length + (sentBytes s).length + s.txBufferSize := by
    refine ⟨_, rfl, ?_, ?_, ?_⟩ <;> decide
  obtain ⟨s, hs, hrest⟩ := hrun
  have hstep : ∀ {s : UmTx Nat} {a t}, (umTxAct {} s a).toOption = some t → UmTxStep {} s a t :=
    Fallible.ok_of_toOption
  exact ⟨s, Lts.run_of_execs hstep hs, hrest⟩

end conservation

end OranNs3.Rlc
