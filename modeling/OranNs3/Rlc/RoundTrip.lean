import OranNs3.Rlc.AmTx
import OranNs3.Rlc.Packet
import OranNs3.Rlc.UmTx

/-!
# From SDUs to SDUs

The SDUs that wait at an entity are sent as PDUs at a sequence of opportunities, and the packets of
these are read and put together again, in order and without loss: for an UM entity (`UmSender`,
`umReceive`) and for an AM entity (`AmSender`, `amReceive`).

As long as no header reaches `2 ^ 16` bytes, the SDUs delivered are those sent completely, and the
rest waits (`roundTrip_of_run`). A longer header is counted wrongly, and stands in the place of the
first SDUs (`header_delivered`).
-/

namespace OranNs3.Rlc

open Fallible List Lts

/-! ## The system -/

/-- A PDU that was sent, with what was offered for it and its packet. -/
structure Sent where
  offered : Nat
  pdu : DataPdu Nat
  packet : List Nat
deriving DecidableEq

/-- The transmitting side of an UM entity, with what it has sent. -/
structure UmSender where
  tx : UmTx Nat
  sent : List Sent := []

variable (s : UmSender)

/-- An opportunity, and the packet of the PDU that is passed to the MAC. -/
def UmSender.opportunity (bytes : Nat) : Except RlcError UmSender :=
  (doNotifyTxOpportunity s.tx bytes).map fun tx =>
    { tx
      sent := s.sent ++ (tx.sent.drop s.tx.sent.length).map fun pdu => ⟨bytes, pdu, umPacket pdu⟩ }

/-- The transmitting side of an AM entity, with what it has sent. -/
structure AmSender where
  tx : AmTx Nat
  sent : List Sent := []

/-- An opportunity at a time. -/
def AmSender.opportunity (c : AmConfig) (s : AmSender) (now bytes : Nat) :
    Except RlcError AmSender :=
  (amTxOpportunity c s.tx now bytes >>= passPdu).map fun r =>
    { tx := r.1
      sent := s.sent ++ r.2.toList.map fun pdu => ⟨bytes, pdu.toDataPdu, amPacket pdu⟩ }

/-- The steps of both. -/
def UmSends (bytes : Nat) (t : UmSender) : Prop := s.opportunity bytes = .ok t

def AmSends (c : AmConfig) (s : AmSender) (a : Nat × Nat) (t : AmSender) : Prop :=
  s.opportunity c a.1 a.2 = .ok t

/-- Opportunities that are large enough. -/
def UmOffers (_ : UmSender) (bytes : Nat) : Prop := 2 < bytes

def AmOffers (_ : AmSender) (a : Nat × Nat) : Prop := 7 ≤ a.2

/-- Opportunities for which the header is shorter than `2 ^ 16` bytes: it has fewer than 43689
length indicators behind 2 bytes, or fewer than 43688 behind 4. -/
def UmShort (bytes : Nat) : Prop :=
  UmOffers s bytes ∧ ¬ Crowded 0 43689 (bytes - 2) s.tx.txBuffer

def AmShort (s : AmSender) (a : Nat × Nat) : Prop :=
  AmOffers s a ∧ ¬ Crowded 0 43688 (a.2 - 4) s.tx.txonBuffer

instance (bytes : Nat) : Decidable (UmShort s bytes) :=
  inferInstanceAs (Decidable ((_ < _) ∧ _))

instance (s : AmSender) (a : Nat × Nat) : Decidable (AmShort s a) :=
  inferInstanceAs (Decidable ((_ ≤ _) ∧ _))

/-- A packet is read and put together by an UM entity. -/
def umReceive (r : Reassembler Nat) (packet : List Nat) : Except RlcError (Reassembler Nat) :=
  umRemoveHeader packet >>= reassembleAndDeliver false r

/-- A packet is read and put together by an AM entity, if it is not a control PDU. -/
def amReceive (r : Reassembler Nat) (packet : List Nat) : Except RlcError (Reassembler Nat) :=
  amRemoveHeader packet >>= fun pdu =>
    match pdu with
    | some pdu => reassembleAndDeliver true r pdu.toDataPdu
    | none => .ok r

/-- What is sent of the SDUs, and what waits: no packet is too long, a length indicator has 11 bits,
and the packets are put together to the SDUs that were sent completely. -/
structure RoundTrip (receive : Reassembler Nat → List Nat → Except RlcError (Reassembler Nat))
    (sdus : List (List Nat)) (v : Nat) (sent : List Sent) (buffer : List (Segment Nat)) : Prop where
  size : ∀ x ∈ sent, x.packet.length ≤ x.offered
  lengthIndicators : ∀ x ∈ sent, ∀ li ∈ x.pdu.lengthIndicators, li ≤ 2047
  delivered : ∃ r p, (sent.map (·.packet)).foldlM receive { expectedSeqNumber := v } = .ok r ∧
    r.delivered = sdus.take p.sdus ∧
    sent.flatMap (·.pdu.data) = (sdus.take p.sdus).flatten ++ p.part ∧
    Buffered sdus p buffer

/-! ## One PDU -/

section step
variable {receive : Reassembler Nat → List Nat → Except RlcError (Reassembler Nat)}
  {sdus : List (List Nat)} {v w : Nat} {sent : List Sent} {buffer buffer' : List (Segment Nat)}
    {p p' : Pos Nat} {x : Sent}

theorem Carries.bytes {α : Type} {sdus : List (List α)} {p p' : Pos α} {cs : List (List α)}
    {l : Bool} (h : Carries sdus p cs l p') :
    (sdus.take p'.sdus).flatten ++ p'.part = (sdus.take p.sdus).flatten ++ p.part ++
    cs.flatten := by
  induction h with
  | last hc hget => simp [take_succ_of_getElem? hget]
  | part hc hd hget => simp
  | more hc hget _ ih =>
    rw [ih, take_succ_of_getElem? hget]
    simp

/-- What is sent comes to a position, at which the reassembler is too, and waits for the number `w`.
-/
structure Kept (receive : Reassembler Nat → List Nat → Except RlcError (Reassembler Nat))
    (sdus : List (List Nat)) (v w : Nat) (sent : List Sent) (buffer : List (Segment Nat)) :
    Prop where
  size : ∀ x ∈ sent, x.packet.length ≤ x.offered
  lengthIndicators : ∀ x ∈ sent, ∀ li ∈ x.pdu.lengthIndicators, li ≤ 2047
  holds : ∃ r p, (sent.map (·.packet)).foldlM receive { expectedSeqNumber := v } = .ok r ∧
    HoldsAll sdus p r ∧ r.expectedSeqNumber = w ∧
    sent.flatMap (·.pdu.data) = (sdus.take p.sdus).flatten ++ p.part ∧
    Buffered sdus p buffer

theorem Kept.roundTrip (h : Kept receive sdus v w sent buffer) :
    RoundTrip receive sdus v sent buffer := by
  obtain ⟨r, p, hr, hholds, -, hdata, hbuf⟩ := h.holds
  exact ⟨h.size, h.lengthIndicators, r, p, hr, hholds.delivered, hdata, hbuf⟩

theorem kept_nil (hne : [] ∉ sdus) : Kept receive sdus v v [] (fullSdus sdus) := by
  refine ⟨forall_mem_nil _, forall_mem_nil _, _, ⟨0, []⟩, rfl,
    ⟨rfl, rfl, fun _ => rfl, fun h => absurd rfl h⟩, rfl, by simp, ?_⟩
  have h := buffered_whole hne (Nat.zero_le _)
  rwa [drop_zero] at h

theorem Kept.snoc (am : Bool) (h : Kept receive sdus v w sent buffer)
    (hpdu : ∀ {p}, Buffered sdus p buffer → ∃ p', IsPdu sdus p x.pdu p' ∧ Buffered sdus p' buffer')
    (hsize : x.packet.length ≤ x.offered) (hok : x.pdu.header.Ok) (hw : x.pdu.sequenceNumber = w)
    (hreceive : ∀ r, receive r x.packet = reassembleAndDeliver am r x.pdu) :
    Kept receive sdus v ((w + 1) % 1024) (sent ++ [x]) buffer' := by
  obtain ⟨r, p, hr, hholds, hexp, hdata, hbuf⟩ := h.holds
  obtain ⟨p', hpdu, hbuf'⟩ := hpdu hbuf
  obtain ⟨r', hr', hholds', hexp'⟩ := hholds.next am hpdu (hw.trans hexp.symm)
  refine ⟨?_, ?_, r', p', ?_, hholds', ?_, ?_, hbuf'⟩
  · exact forall_mem_append.2 ⟨h.size, forall_mem_singleton.2 hsize⟩
  · refine forall_mem_append.2 ⟨h.lengthIndicators, forall_mem_singleton.2 fun li hli => ?_⟩
    exact Nat.le_of_lt_succ (hok.lengthIndicators li hli)
  · rw [map_append, foldlM_append, hr]
    rw [ok_bind, map_singleton, foldlM_cons, hreceive, hr']
    rfl
  · rw [hexp', hw]
  · obtain ⟨cs, hcs, hcs', -⟩ := hpdu.carries
    rw [flatMap_append, flatMap_singleton, hdata, hcs', hcs.bytes]

theorem Buffered.pos {α : Type} {sdus : List (List α)} {p : Pos α} {l : List (Segment α)}
    (hne : [] ∉ sdus) (h : Buffered sdus p l) : ∀ seg ∈ l, 0 < seg.size := by
  intro seg hseg
  cases h with
  | nil => cases hseg
  | cons hd _ =>
    rcases mem_cons.1 hseg with rfl | hseg
    · exact length_pos_of_ne_nil hd
    · obtain ⟨sdu, hsdu, rfl⟩ := mem_map.1 hseg
      refine length_pos_of_ne_nil fun hnil => hne ?_
      have hnil : sdu = [] := hnil
      exact hnil ▸ mem_of_mem_drop hsdu

end step

/-! ## The entities -/

section entities
variable {sdus : List (List Nat)} {v a n bytes : Nat}

/-- An UM entity in the middle of its SDUs. -/
structure UmKept (sdus : List (List Nat)) (v : Nat) (s : UmSender) : Prop where
  kept : Kept umReceive sdus v s.tx.sequenceNumber.value s.sent (s.tx.txBuffer.map (·.pdu))
  number : s.tx.sequenceNumber.value < 1024

/-- An opportunity with a short header sends the next PDU. -/
theorem UmKept.opportunity {s : UmSender} (h : UmKept sdus v s) (hne : [] ∉ sdus)
    (hok : UmShort s bytes) : Spec (fun _ => False) (UmKept sdus v) (s.opportunity bytes) := by
  have hbytes : 2 < bytes := hok.1
  rw [UmSender.opportunity, doNotifyTxOpportunity, if_neg (Nat.not_le.2 hbytes)]
  split
  · rw [Except.map, drop_length]
    show UmKept sdus v { tx := s.tx, sent := s.sent ++ [] }
    rw [append_nil]
    exact h
  · next first txBuffer hbuffer =>
    obtain ⟨r, p, -, -, -, -, hbuf⟩ := h.kept.holds
    rw [hbuffer] at hbuf
    have hpos : 0 < bytes - 2 := by omega
    obtain ⟨fi, -, hfi, -, hheader, -⟩ := hbuf.build s.tx.txBufferSize hne hpos h.number
    have hfew : ¬ Crowded 0 43689 (bytes - 2) (first :: txBuffer) := by
      rw [← hbuffer]
      exact hok.2
    rw [← indicators_iff s.tx.txBufferSize (Nat.succ_pos _)] at hfew
    have hlength := buildDataField_length (bytes - 2) first txBuffer s.tx.txBufferSize
    generalize hb : buildDataField (bytes - 2) first txBuffer s.tx.txBufferSize =
      b at hfi hheader hfew hlength ⊢
    have hshort : (pduOf s.tx.sequenceNumber.value b fi).umHeaderLength < 2 ^ 16 := by
      show 2 + liLength b.lengthIndicators.length < 2 ^ 16
      rw [liLength]
      omega
    obtain ⟨hread, hlen⟩ := umRemoveHeader_packet hheader hshort
    have hsent : (s.tx.sent ++ [pduOf s.tx.sequenceNumber.value b fi]).drop s.tx.sent.length =
        [pduOf s.tx.sequenceNumber.value b fi] := drop_left
    simp only [hfi, ok_bind, DataPdu.checkHeader_um _ hshort, Except.map, sendPdu, hsent,
      map_singleton]
    refine ⟨h.kept.snoc false (fun {q} hq => ?_) ?_ hheader rfl fun r => ?_,
      Nat.mod_lt _ (by omega)⟩
    · rw [hbuffer] at hq
      obtain ⟨fi', p', hfi', hpdu, -, hbuf'⟩ := hq.build s.tx.txBufferSize hne hpos h.number
      rw [hb] at hfi' hpdu hbuf'
      obtain rfl : fi = fi' := Except.ok.inj (hfi.symm.trans hfi')
      exact ⟨p', hpdu, hbuf'⟩
    · show (umPacket _).length ≤ bytes
      rw [hlen]
      show 2 + liLength b.lengthIndicators.length + (dataBytes b.dataField).length ≤ bytes
      omega
    · show umReceive r (umPacket _) = _
      rw [umReceive, hread, ok_bind]

/-- An AM entity in the middle of its SDUs, without PDUs that are to be sent again. -/
structure AmKept (sdus : List (List Nat)) (v a n : Nat) (s : AmSender) : Prop where
  kept : Kept amReceive sdus v (n % 1024) s.sent (s.tx.txonBuffer.map (·.pdu))
  txAt : TxAt s.tx a n
  noRetx : ∀ i, (s.tx.retxBuffer i).pdu = none

/-- An opportunity with a short header sends the next PDU, if the window is not full. -/
theorem AmKept.opportunity {s : AmSender} (h : AmKept sdus v a n s) (c : AmConfig) (now bytes : Nat)
    (hne : [] ∉ sdus) (hok : AmShort s (now, bytes)) :
    Spec (fun _ => False) (fun t => ∃ n, AmKept sdus v a n t) (s.opportunity c now bytes) := by
  have hbytes : 7 ≤ bytes := hok.1
  have hpos : 0 < bytes - 4 := by omega
  obtain ⟨r, p, -, -, -, -, hbuf⟩ := h.kept.holds
  rw [AmSender.opportunity]
  refine Spec.map
    (Spec.bind (Q := Outcome s.tx a n now bytes) ((h.txAt.outcome c now bytes).mono (fun e he => ?_)
    fun _ => id) fun t ht => ?_)
  · rcases he with ⟨-, hlt⟩ | ⟨-, first, txonBuffer, htxon, -, hfi⟩
    · omega
    · rw [htxon] at hbuf
      obtain ⟨fi, -, hfi', -⟩ := hbuf.build s.tx.txonBufferSize hne hpos (mod_lt n)
      rw [hfi'] at hfi
      cases hfi
  · cases ht with
    | nothing =>
      refine ⟨n, ?_, h.txAt, h.noRetx⟩
      show Kept amReceive sdus v (n % 1024) (s.sent ++ []) _
      rw [append_nil]
      exact h.kept
    | resent _ _ hX =>
      rw [h.noRetx] at hX
      cases hX
    | @fresh first txonBuffer fi polls b _ hlt htxon hb _ hfi =>
      rw [htxon] at hbuf
      obtain ⟨fi', -, hfi', -, hheader, -⟩ := hbuf.build s.tx.txonBufferSize hne hpos (mod_lt n)
      have hfew : ¬ Crowded 0 43688 (bytes - 4) (first :: txonBuffer) := by
        rw [← htxon]
        exact hok.2
      rw [← indicators_iff s.tx.txonBufferSize (Nat.succ_pos _), ← hb] at hfew
      have hlength := buildDataField_length (bytes - 4) first txonBuffer s.tx.txonBufferSize
      rw [← hb] at hfi' hheader hlength
      obtain rfl : fi = fi' := Except.ok.inj (hfi.symm.trans hfi')
      obtain ⟨hread, hlen⟩ := amRemoveHeader_packet ⟨pduOf (n % 1024) b fi, polls⟩ hheader (by
        show 4 + liLength b.lengthIndicators.length < 2 ^ 16
        rw [liLength]
        omega)
      rw [passPdu_eq fun am ham => by
        obtain rfl := Option.some.inj ham
        exact ⟨hheader, Nat.lt_of_not_le hfew⟩]
      refine ⟨n + 1, ?_, h.txAt.store hlt htxon hb hbytes, ?_⟩
      · rw [← Nat.mod_add_mod]
        have hbuffer : (storeTxed (pollIf polls (takeDataField s.tx b)) now (n % 1024)
            ⟨pduOf (n % 1024) b fi, polls⟩).txonBuffer = b.txBuffer := by
          cases polls <;> rfl
        show Kept amReceive sdus v _ _
          ((storeTxed (pollIf polls (takeDataField s.tx b)) now (n % 1024) ⟨pduOf (n % 1024) b fi,
          polls⟩).txonBuffer.map (·.pdu))
        rw [hbuffer]
        refine h.kept.snoc true (fun {q} hq => ?_) ?_ hheader rfl fun r => ?_
        · rw [htxon] at hq
          obtain ⟨fi', p', hfi', hpdu, -, hbuf'⟩ := hq.build s.tx.txonBufferSize hne hpos (mod_lt n)
          rw [← hb] at hfi' hpdu hbuf'
          obtain rfl : fi = fi' := Except.ok.inj (hfi.symm.trans hfi')
          exact ⟨p', hpdu, hbuf'⟩
        · show (amPacket _).length ≤ bytes
          rw [hlen]
          show 4 + liLength b.lengthIndicators.length + (dataBytes b.dataField).length ≤ bytes
          omega
        · show amReceive r (amPacket _) = _
          rw [amReceive, hread, ok_bind]
      · intro i
        simp only [storeTxed, pollIf_retx]
        exact h.noRetx i

end entities

/-! ## Runs -/

/-- In every run of opportunities for which headers are shorter than `2 ^ 16` bytes, from a queue of
SDUs that are not empty, packets fit in what is offered, are put together to the SDUs that were sent
completely, and no such opportunity fails. The AM entity has nothing to send again. -/
theorem roundTrip_of_run (sdus : List (List Nat)) (hne : [] ∉ sdus) :
    (∀ (tx : UmTx Nat) (s : UmSender), tx.txBuffer.map (·.pdu) = fullSdus sdus →
      tx.sequenceNumber.value < 1024 → Lts.Run UmSends UmShort { tx } s →
      RoundTrip umReceive sdus tx.sequenceNumber.value s.sent (s.tx.txBuffer.map (·.pdu)) ∧
        ∀ bytes, UmShort s bytes → ∃ t, UmSends s bytes t) ∧
    (∀ (c : AmConfig) (tx : AmTx Nat) (a n : Nat) (s : AmSender), tx.txonBuffer.map (·.pdu) =
      fullSdus sdus → TxAt tx a n → (∀ i, (tx.retxBuffer i).pdu = none) →
        Lts.Run (AmSends c) AmShort { tx } s →
      RoundTrip amReceive sdus (n % 1024) s.sent (s.tx.txonBuffer.map (·.pdu)) ∧
        ∀ x, AmShort s x → ∃ t, AmSends c s x t) := by
  constructor
  · intro tx s hqueue hv hrun
    have hstart : UmKept sdus tx.sequenceNumber.value { tx } := by
      refine ⟨?_, hv⟩
      rw [hqueue]
      exact kept_nil hne
    have h : UmKept sdus tx.sequenceNumber.value s := Run.invariant
      (I := UmKept sdus tx.sequenceNumber.value) (fun hs hok hst => (hs.opportunity hne hok).ok hst)
      hstart hrun
    refine ⟨h.kept.roundTrip, fun bytes hok => ?_⟩
    cases ht : s.opportunity bytes with
    | error e => exact ((h.opportunity hne hok).error ht).elim
    | ok t => exact ⟨t, ht⟩
  · intro c tx a n s hqueue hat hretx hrun
    have hstart : ∃ m, AmKept sdus (n % 1024) a m { tx } := by
      refine ⟨n, ?_, hat, hretx⟩
      rw [hqueue]
      exact kept_nil hne
    have h : ∃ m, AmKept sdus (n % 1024) a m s := Run.invariant
      (I := fun s => ∃ m, AmKept sdus (n % 1024) a m s)
      (fun hs hok hst => hs.elim fun m hs => (hs.opportunity c _ _ hne hok).ok hst) hstart hrun
    obtain ⟨m, h⟩ := h
    refine ⟨h.kept.roundTrip, fun x hok => ?_⟩
    have hspec := h.opportunity c x.1 x.2 hne hok
    cases ht : s.opportunity c x.1 x.2 with
    | error e => exact (hspec.error ht).elim
    | ok t => exact ⟨t, ht⟩

/-- An UM entity at which SDUs wait. -/
def waiting (sdus : List (List Nat)) : UmTx Nat where
  txBuffer := sdus.map fun sdu => ⟨⟨sdu, .fullSdu⟩, 0⟩
  txBufferSize := (sdus.map (·.length)).sum

/-- An AM entity at which SDUs wait. -/
def amWaiting (sdus : List (List Nat)) : AmTx Nat :=
  sdus.foldl (amTransmitPdcpPdu {} · 0) {}

/-- Two SDUs in two PDUs, with a length indicator in the first of them. -/
theorem roundTrip_two_sdus :
    (∃ s : UmSender, Lts.Run UmSends UmShort { tx := waiting [[1, 2], [3, 4, 5]] } s ∧
      s.sent.map (·.packet.length) = [8, 3] ∧
      RoundTrip umReceive [[1, 2], [3, 4, 5]] 0 s.sent (s.tx.txBuffer.map (·.pdu))) ∧
    ∃ s : AmSender, Lts.Run (AmSends {}) AmShort { tx := amWaiting [[1, 2], [3, 4, 5]] } s ∧
      s.sent.map (·.packet.length) = [10, 5] ∧
      RoundTrip amReceive [[1, 2], [3, 4, 5]] 0 s.sent (s.tx.txonBuffer.map (·.pdu)) := by
  have hne : [] ∉ [[1, 2], [3, 4, 5]] := by decide
  obtain ⟨hum, ham⟩ := roundTrip_of_run [[1, 2], [3, 4, 5]] hne
  constructor
  · have hrun : ∃ s, execs UmShort (fun s bytes => (s.opportunity bytes).toOption)
        { tx := waiting [[1, 2], [3, 4, 5]] } [8, 9] = some s ∧
        s.sent.map (·.packet.length) = [8, 3] :=
      ⟨_, rfl, by decide⟩
    obtain ⟨s, hs, hlengths⟩ := hrun
    have hrun : Run UmSends UmShort { tx := waiting [[1, 2], [3, 4, 5]] } s :=
      run_of_execs ok_of_toOption hs
    exact ⟨s, hrun, hlengths, (hum _ s rfl (by decide) hrun).1⟩
  · have hrun : ∃ s, execs AmShort (fun s a => (s.opportunity {} a.1 a.2).toOption)
        { tx := amWaiting [[1, 2], [3, 4, 5]] } [(0, 10), (0, 7)] = some s ∧
          s.sent.map (·.packet.length) = [10, 5] :=
      ⟨_, rfl, by decide⟩
    obtain ⟨s, hs, hlengths⟩ := hrun
    have hrun : Run (AmSends {}) AmShort { tx := amWaiting [[1, 2], [3, 4, 5]] } s :=
      run_of_execs ok_of_toOption hs
    have hat : TxAt (amTransmitPdcpPdu {} (amTransmitPdcpPdu {} {} 0 [1, 2]) 0 [3, 4, 5]) 0 0 :=
      txAt_init.submit.submit
    exact ⟨s, hrun, hlengths, (ham {} _ 0 0 s rfl hat (fun _ => rfl) hrun).1⟩

/-! ## A header that is too long -/

/-- From a queue of 43691 SDUs of two bytes, an opportunity of 200000 bytes takes them all, with a
header of 65537 bytes that is counted as 1; its next two bytes are delivered as the first SDU. -/
theorem header_delivered : ∃ (sdus : List (List Nat)) (tx : UmTx Nat) (s : UmSender), [] ∉ sdus ∧
    tx.txBuffer.map (·.pdu) = fullSdus sdus ∧ tx.sequenceNumber.value < 1024 ∧
    Lts.Run UmSends UmOffers { tx } s ∧
    ¬ RoundTrip umReceive sdus tx.sequenceNumber.value s.sent (s.tx.txBuffer.map (·.pdu)) := by
  obtain ⟨n, hn⟩ : ∃ n, n = 43690 := ⟨_, rfl⟩
  have hqueue : (waiting (replicate (n + 1) [9, 9])).txBuffer.map (·.pdu) =
      fullSdus (replicate (n + 1) [9, 9]) := by
    rw [waiting, map_map]
    rfl
  obtain ⟨first, rest, hbuffer⟩ : ∃ first rest,
    (waiting (replicate (n + 1) [9, 9])).txBuffer = first :: rest :=
    ⟨_, _, rfl⟩
  rw [hbuffer] at hqueue
  generalize htx : waiting (replicate (n + 1) [9, 9]) = tx at hbuffer
  have hnumber : tx.sequenceNumber.value = 0 := by
    rw [← htx]
    rfl
  have hsent : tx.sent = [] := by
    rw [← htx]
    rfl
  obtain ⟨fi, hfi, hfirst, hheader, hlis, hdata⟩ := build_short_sdus n (200000 - 2) first rest
    tx.txBufferSize (by omega) (by rw [liLength]; omega) hqueue
  generalize hb : buildDataField (200000 - 2) first rest tx.txBufferSize =
    b at hfi hheader hlis hdata
  have hcount : b.lengthIndicators.length = 43690 := by rw [hlis, length_replicate, hn]
  have hlength : (pduOf 0 b fi).umHeaderLength = 65537 := by
    show 2 + liLength b.lengthIndicators.length = 65537
    rw [hcount, liLength]
  have hcheck : checkHeader (pduOf 0 b fi).umHeaderLength (dataBytes b.dataField).length =
    .ok () := by
    rw [hlength, checkHeader, if_neg (by omega), if_neg (by omega)]
  obtain ⟨data, hread⟩ := umRemoveHeader_overlong hheader hcount
  have hopportunity : UmSends { tx } 200000
      { tx := sendPdu tx b fi, sent := [⟨200000, pduOf 0 b fi, umPacket (pduOf 0 b fi)⟩] } := by
    rw [UmSends, UmSender.opportunity, doNotifyTxOpportunity, if_neg (by omega), hbuffer]
    simp only [hb, hfi, ok_bind, hnumber, hcheck, Except.map, sendPdu, hsent, nil_append,
      length_nil, drop_zero, map_singleton]
  have hoffers : UmOffers { tx } 200000 := show 2 < 200000 by omega
  have hrun := Run.snoc (Run.refl _) hoffers hopportunity
  refine ⟨replicate (n + 1) [9, 9], tx, _, fun hmem => ?_, ?_, ?_, hrun, fun hround => ?_⟩
  · cases eq_of_mem_replicate hmem
  · rw [hbuffer]
    exact hqueue
  · rw [hnumber]
    omega
  · obtain ⟨r, p, hr, hdelivered, -⟩ := hround.delivered
    obtain ⟨r', hr', hmem⟩ := reassemble_first { expectedSeqNumber := 0 }
      { pduOf 0 b fi with data := (0 &&& 0xFF) :: data } false hheader rfl rfl rfl hfirst
      (hlis.trans (by rw [hn, replicate_succ]) : _ = 2 :: replicate 43689 2)
    rw [map_singleton, foldlM_cons, umReceive, hread, ok_bind, hnumber] at hr
    obtain ⟨r'', hr'', hr⟩ := ok_of_bind hr
    cases hr
    obtain rfl := Except.ok.inj (hr'.symm.trans hr'')
    -- the second byte is that of the sequence number
    rw [hdelivered] at hmem
    have hhead := eq_of_mem_replicate (mem_of_mem_take hmem)
    exact absurd (cons.inj hhead).1 (show (0 &&& 0xFF : Nat) ≠ 9 by decide)

end OranNs3.Rlc
