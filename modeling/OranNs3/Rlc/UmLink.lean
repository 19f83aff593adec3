import OranNs3.Rlc.Packet
import OranNs3.Rlc.UmRx
import OranNs3.Rlc.UmTx

/-!
# Two UM entities

A transmitting and a receiving `NrRlcUm`, where SDUs are delivered in order, with a channel of
packets in bytes that delivers or loses the first one.

As long as fewer than 512 packets in a row are lost, none arrives while a packet that falls out of
the reordering window stands behind it in the map, and no header reaches `2 ^ 16` bytes
(`LinkInOrder`), the SDUs delivered are accepted ones in their order (`delivered_sublist_of_run`).
Where a packet does stand behind, it stays in the buffer, and is put together a whole turn of the
sequence numbers late (`delivered_late`).
-/

namespace OranNs3.Rlc.UmLink

open Fallible List Lts

/-! ## The system -/

/-- Two entities, the packets in flight, how many were lost since the last one was delivered, and
the SDUs that were stored for transmission. -/
structure State where
  sender : UmTx Nat := {}
  receiver : UmRx Nat := {}
  channel : List (List Nat) := []
  lost : Nat := 0
  accepted : List (List Nat) := []
deriving DecidableEq

/-- What happens: an action at the transmitting entity, the delivery or the loss of the first
packet, or the expiry of the reordering timer. -/
inductive Action
  | sender (a : UmTxAction Nat)
  | deliver
  | lose
  | expireReorderingTimer

/-- The SDU that an action stores. -/
def accepts (c : UmConfig) (s : UmTx Nat) : UmTxAction Nat → List (List Nat)
  | .transmitPdcpPdu p => if fits c s p then [p] else []
  | .wait _ | .notifyTxOpportunity _ | .expireBsrTimer => []

variable (rx : UmRx Nat)

/-- A packet is read and received. -/
def receivePacket (packet : List Nat) : Except RlcError (UmRx Nat) :=
  umRemoveHeader packet >>= rx.doReceivePdu false

/-- One action. -/
def act (c : UmConfig) (l : State) : Action → Except RlcError State
  | .sender a =>
    (umTxAct c l.sender a).map fun t =>
      { l with
        sender := t
        channel := l.channel ++ (t.sent.drop l.sender.sent.length).map umPacket
        accepted := l.accepted ++ accepts c l.sender a }
  | .deliver =>
    match l.channel with
    | [] => .ok l
    | packet :: channel =>
      (receivePacket l.receiver packet).map fun receiver =>
        { l with receiver, channel, lost := 0 }
  | .lose =>
    match l.channel with
    | [] => .ok l
    | _ :: channel => .ok { l with channel, lost := l.lost + 1 }
  | .expireReorderingTimer =>
    if l.receiver.reorderingTimer then
      l.receiver.expireReorderingTimer.map fun receiver => { l with receiver }
    else .ok l

/-- The steps. -/
def LinkStep (c : UmConfig) (l : State) (a : Action) (l' : State) : Prop := act c l a = .ok l'

/-- SDUs are not empty, and fewer than 512 packets in a row are lost. -/
def LinkOk (l : State) : Action → Prop
  | .sender (.transmitPdcpPdu p) => p ≠ []
  | .lose => l.lost + 1 < umWindowSize
  | _ => True

/-- No packet that falls out of the window stands behind one that arrives. -/
def ArrivesInOrder : List (List Nat) → Prop
  | [] => True
  | packet :: _ => ∀ pdu ∈ (umRemoveHeader packet).toOption, rx.InOrder pdu.sequenceNumber

/-- The header of a PDU is shorter than `2 ^ 16` bytes: it has fewer than 43689 length indicators
behind 2 bytes. -/
def SendsShort (tx : UmTx Nat) : Action → Prop
  | .sender (.notifyTxOpportunity bytes) => ¬ Crowded 0 43689 (bytes - 2) tx.txBuffer
  | _ => True

/-- The same actions, where packets arrive in order and headers are short. -/
def LinkInOrder (l : State) (a : Action) : Prop :=
  LinkOk l a ∧ (a matches .deliver → ArrivesInOrder l.receiver l.channel) ∧ SendsShort l.sender a

instance (l : State) : DecidablePred (LinkOk l)
  | .sender (.transmitPdcpPdu p) => inferInstanceAs (Decidable (p ≠ []))
  | .lose => inferInstanceAs (Decidable (_ < _))
  | .sender (.wait _) | .sender (.notifyTxOpportunity _) | .sender .expireBsrTimer | .deliver
  | .expireReorderingTimer => inferInstanceAs (Decidable True)

instance : DecidablePred (ArrivesInOrder rx)
  | [] => inferInstanceAs (Decidable True)
  | _ :: _ => inferInstanceAs (Decidable (∀ _ ∈ _, _))

instance (tx : UmTx Nat) : DecidablePred (SendsShort tx)
  | .sender (.notifyTxOpportunity _) => inferInstanceAs (Decidable ¬ _)
  | .sender (.wait _) | .sender (.transmitPdcpPdu _) | .sender .expireBsrTimer | .deliver | .lose
  | .expireReorderingTimer => inferInstanceAs (Decidable True)

instance (l : State) (a : Action) : Decidable (LinkInOrder l a) :=
  inferInstanceAs (Decidable (_ ∧ _))

/-- The PDU of a header with fewer than 43689 length indicators is found in its packet. -/
theorem umRemoveHeader_short {pdu : DataPdu Nat} (h : pdu.header.Ok)
    (hfew : pdu.lengthIndicators.length < 43689) : umRemoveHeader (umPacket pdu) = .ok pdu :=
  (umRemoveHeader_packet h (by
  rw [DataPdu.umHeaderLength, liLength]
  omega)).1

/-! ## The transmitting side -/

section sending
variable {c : UmConfig} {tx : UmTx Nat} {accepted : List (List Nat)} {pos : Nat → Pos Nat}
  {P : Nat → DataPdu Nat} {s : Nat}

/-- The transmitting side and the stream of its PDUs, all with short headers. -/
structure Sending (tx : UmTx Nat) (accepted : List (List Nat)) (pos : Nat → Pos Nat)
    (P : Nat → DataPdu Nat) (s : Nat) : Prop where
  stream : Stream accepted (tx.txBuffer.map (·.pdu)) pos P s
  number : tx.sequenceNumber.value = s % 1024
  short : ∀ j, j < s → (P j).lengthIndicators.length < 43689

/-- What an action at the transmitting side comes to: at most one more PDU. -/
def Sends (tx : UmTx Nat) (accepted : List (List Nat)) (pos : Nat → Pos Nat) (P : Nat → DataPdu Nat)
    (s : Nat) (accepted' : List (List Nat)) (tx' : UmTx Nat) : Prop :=
  ∃ pos' P' n, Extends accepted pos P s accepted' pos' P' (s + n) ∧
    Sending tx' accepted' pos' P' (s + n) ∧ tx'.sent.drop tx.sent.length = (List.range' s n).map P'

theorem doTransmitPdcpPdu_same (c : UmConfig) (tx : UmTx Nat) (p : List Nat) :
    (doTransmitPdcpPdu c tx p).sent = tx.sent ∧
    (doTransmitPdcpPdu c tx p).sequenceNumber = tx.sequenceNumber := by
  rw [doTransmitPdcpPdu]
  split
  · split <;> exact ⟨rfl, rfl⟩
  · exact ⟨rfl, rfl⟩

section
variable (h : Sending tx accepted pos P s)
include h

theorem Sending.transmit {p : List Nat} (hp : p ≠ []) :
    Sends tx accepted pos P s (accepted ++ accepts c tx (.transmitPdcpPdu p))
      (doTransmitPdcpPdu c tx p) := by
  have hfits : fits c { tx with submitted := tx.submitted ++ [p] } p = fits c tx p := rfl
  rw [accepts, doTransmitPdcpPdu]
  simp only [hfits]
  split
  · refine ⟨pos, P, 0, ⟨prefix_append accepted [p], Nat.le_add_right s 0, fun _ _ => rfl,
      fun _ _ => rfl⟩, ⟨?_, ?_, h.short⟩, ?_⟩
    · have hstream := h.stream.submit hp
      split
      · simpa [doTransmitBufferStatusReport, storePdu, txDropTrace] using hstream
      · simpa [doTransmitBufferStatusReport, storePdu] using hstream
    · split
      · exact h.number
      · exact h.number
    · split
      · simp [doTransmitBufferStatusReport, storePdu, txDropTrace]
      · simp [doTransmitBufferStatusReport, storePdu]
  · rw [append_nil]
    exact ⟨pos, P, 0, .refl, ⟨h.stream, h.number, h.short⟩, by simp [doTransmitBufferStatusReport,
    txDropTrace]⟩

theorem Sending.opportunity {bytes : Nat} (hshort : ¬ Crowded 0 43689 (bytes - 2) tx.txBuffer) :
    Spec (fun _ => False) (Sends tx accepted pos P s accepted)
      (doNotifyTxOpportunity tx bytes) := by
  have hnone : Sends tx accepted pos P s accepted tx := ⟨pos, P, 0, .refl, h, by simp⟩
  rw [doNotifyTxOpportunity]
  split
  · exact hnone
  · next hbytes =>
    split
    · exact hnone
    · next first txBuffer hbuffer =>
      have hstream := h.stream
      rw [hbuffer] at hstream hshort
      rw [← indicators_iff tx.txBufferSize (Nat.succ_pos _)] at hshort
      have hcheck : ∀ fi size, checkHeader (pduOf tx.sequenceNumber.value
          (buildDataField (bytes - 2) first txBuffer tx.txBufferSize) fi).umHeaderLength size =
          .ok () := by
        refine fun fi size => DataPdu.checkHeader_um size ?_
        show 2 + liLength
          (buildDataField (bytes - 2) first txBuffer tx.txBufferSize).lengthIndicators.length <
          2 ^ 16
        rw [liLength]
        omega
      obtain ⟨fi, hfi, pos', hstream', hpos⟩ := hstream.build tx.txBufferSize
        (Nat.sub_pos_of_lt (Nat.lt_of_not_le hbytes)) h.number
      simp only [hfi, ok_bind, hcheck]
      refine ⟨pos', _, 1, ⟨prefix_refl _, Nat.le_add_right s 1, hpos, fun j hj => ?_⟩,
        ⟨hstream', ?_, fun j hj => ?_⟩, ?_⟩
      · exact Function.update_of_ne hj.ne _ _
      · show (tx.sequenceNumber.value + 1) % 1024 = (s + 1) % 1024
        rw [h.number, Nat.mod_add_mod]
      · rcases Nat.lt_succ_iff_lt_or_eq.1 hj with hlt | rfl
        · rw [Function.update_of_ne hlt.ne]
          exact h.short j hlt
        · rw [Function.update_self]
          exact Nat.lt_of_not_le hshort
      · simp [sendPdu]

theorem Sending.act {a : UmTxAction Nat}
    (ha : ∀ p, a = .transmitPdcpPdu p → p ≠ []) (hshort : SendsShort tx (.sender a)) :
    Spec (fun _ => False) (Sends tx accepted pos P s (accepted ++ accepts c tx a))
      (umTxAct c tx a) := by
  cases a with
  | wait ns =>
    rw [accepts, append_nil]
    exact ⟨pos, P, 0, .refl, ⟨h.stream, h.number, h.short⟩, by simp⟩
  | transmitPdcpPdu p => exact h.transmit (ha p rfl)
  | notifyTxOpportunity bytes =>
    rw [accepts, append_nil]
    exact h.opportunity hshort
  | expireBsrTimer =>
    rw [accepts, append_nil, umTxAct]
    refine ⟨pos, P, 0, .refl, ?_⟩
    split
    · rw [expireBsrTimer]
      split
      · exact ⟨⟨h.stream, h.number, h.short⟩, by simp⟩
      · exact ⟨⟨h.stream, h.number, h.short⟩, by simp [doTransmitBufferStatusReport]⟩
    · exact ⟨h, by simp⟩

end

end sending

/-! ## Runs -/

section runs
variable {c : UmConfig} {l : State} {a : Action} {pos : Nat → Pos Nat} {P : Nat → DataPdu Nat}
  {s u h n : Nat} {sdus : List (List Nat)} {txBuffer : List (Segment Nat)}

/-- What has been put together before the `r`-th PDU. -/
def Held (sdus : List (List Nat)) (pos : Nat → Pos Nat) (r : Nat) (rs : Reassembler Nat) : Prop :=
  Holds sdus (pos r) rs ∧ rs.expectedSeqNumber = r % 1024

theorem reassembles_of_stream (hstream : Stream sdus txBuffer pos P s) :
    UmRx.Reassembles P (Held sdus pos) s := by
  intro r j rs hrj hjr hjs hrs
  rw [umWindowSize] at hjr
  have hnum := hstream.number j hjs
  have hstep : ∃ rs', reassembleAndDeliver false rs (P j) = .ok rs' ∧ Holds sdus (pos (j + 1)) rs' ∧
      rs'.expectedSeqNumber = ((P j).sequenceNumber + 1) % 1024 := by
    by_cases hj : j = r
    · subst hj
      exact hrs.1.next (hstream.pdu j hjs) (hnum.trans hrs.2.symm)
    · refine hrs.1.gap (hstream.mono hrj hjs.le) (hstream.pdu j hjs) ?_
      rw [hnum, hrs.2]
      omega
  obtain ⟨rs', hok, hholds, hexp⟩ := hstep
  rw [hok]
  refine ⟨hholds, ?_⟩
  rw [hexp, hnum]
  omega

/-- The state of the system in numbers without wrapping: `s` PDUs have been sent, and the last of
them that was received is the one before `h`. -/
structure Linked (l : State) (pos : Nat → Pos Nat) (P : Nat → DataPdu Nat) (s u h n : Nat) :
    Prop where
  sending : Sending l.sender l.accepted pos P s
  receiving : UmRx.At P (Held l.accepted pos) l.receiver u h
  sent : s = h + l.lost + n
  channel : l.channel = (List.range' (h + l.lost) n).map fun j => umPacket (P j)
  lost : l.lost < umWindowSize

/-- The system is in such a state. -/
def IsLinked (l : State) : Prop := ∃ pos P s u h n, Linked l pos P s u h n

theorem Linked.sender (hl : Linked l pos P s u h n) {a : UmTxAction Nat}
    (hok : LinkOk l (.sender a)) (hshort : SendsShort l.sender (.sender a)) :
    Spec (fun _ => False) IsLinked (act c l (.sender a)) := by
  refine Spec.map ((hl.sending.act (c := c) (fun p hp => ?_) hshort).imp fun t ht => ?_)
  · subst hp
    exact hok
  obtain ⟨pos', P', k, hext, hsending, hsent⟩ := ht
  have hle : h ≤ s := by
    rw [hl.sent, add_assoc]
    exact Nat.le_add_right _ _
  refine ⟨pos', P', s + k, u, h, n + k, hsending, ?_, ?_, ?_, hl.lost⟩
  · refine hl.receiving.imp (fun j hj => hext.pdu j (hj.trans_le hle)) fun r rs hr hrs =>
      ⟨?_, hrs.2⟩
    rw [hext.pos r (hr.trans hle)]
    exact hrs.1.mono hext.sdus (hl.sending.stream.le (hr.trans hle))
  · rw [hl.sent, add_assoc]
  · have hkeep : (range' (h + l.lost) n).map (fun j => umPacket (P' j)) =
        (range' (h + l.lost) n).map fun j => umPacket (P j) := by
      refine map_congr_left fun j hj => ?_
      rw [hext.pdu j (by have := mem_range'_1.1 hj; rw [hl.sent]; omega)]
    rw [hsent, hl.channel, ← hkeep, map_map, hl.sent, ← range'_append_1, map_append]
    rfl

theorem Linked.deliver (hl : Linked l pos P s u h n) (hok : ArrivesInOrder l.receiver l.channel) :
    Spec (fun _ => False) IsLinked (act c l .deliver) := by
  have hchannel := hl.channel
  rw [act]
  cases n with
  | zero =>
    rw [hchannel]
    exact ⟨pos, P, s, u, h, 0, hl⟩
  | succ n =>
    rw [range'_succ, map_cons] at hchannel
    have hks : h + l.lost < s := by
      rw [hl.sent]
      omega
    have hread := umRemoveHeader_short (hl.sending.stream.header _ hks) (hl.sending.short _ hks)
    have hnum := hl.sending.stream.number _ hks
    rw [hchannel, ArrivesInOrder, hread] at hok
    have hin : l.receiver.InOrder ((h + l.lost) % 1024) := by
      rw [← hnum]
      exact hok _ rfl
    rw [hchannel]
    simp only [receivePacket, hread, ok_bind]
    refine Spec.map ((hl.receiving.receive (reassembles_of_stream hl.sending.stream) hks
      (Nat.le_add_right _ _) (Nat.add_lt_add_left hl.lost h) hnum hin).imp fun rx hrx => ?_)
    obtain ⟨u', hat⟩ := hrx
    refine ⟨pos, P, s, u', h + l.lost + 1, n, hl.sending, hat, ?_, rfl, Nat.succ_pos 511⟩
    rw [hl.sent]
    show h + l.lost + (n + 1) = h + l.lost + 1 + 0 + n
    omega

theorem Linked.lose (hl : Linked l pos P s u h n) (hok : l.lost + 1 < umWindowSize) :
    Spec (fun _ => False) IsLinked (act c l .lose) := by
  have hchannel := hl.channel
  rw [act]
  cases n with
  | zero =>
    rw [hchannel]
    exact ⟨pos, P, s, u, h, 0, hl⟩
  | succ n =>
    rw [range'_succ, map_cons] at hchannel
    rw [hchannel]
    refine ⟨pos, P, s, u, h, n, hl.sending, hl.receiving, ?_, rfl, hok⟩
    rw [hl.sent]
    show h + l.lost + (n + 1) = h + (l.lost + 1) + n
    omega

theorem IsLinked.act (hl : IsLinked l) (hok : LinkInOrder l a) :
    Spec (fun _ => False) IsLinked (UmLink.act c l a) := by
  obtain ⟨pos, P, s, u, h, n, hl⟩ := hl
  cases a with
  | sender a => exact hl.sender hok.1 hok.2.2
  | deliver => exact hl.deliver (hok.2.1 rfl)
  | lose => exact hl.lose hok.1
  | expireReorderingTimer =>
    rw [UmLink.act]
    split
    · next hpending =>
      have hle : h ≤ s := by
        rw [hl.sent, add_assoc]
        exact Nat.le_add_right _ _
      refine Spec.map
        ((hl.receiving.expire (reassembles_of_stream hl.sending.stream) hle hpending).imp
        fun rx hrx => ?_)
      obtain ⟨u', hat⟩ := hrx
      exact ⟨pos, P, s, u', h, n, hl.sending, hat, hl.sent, hl.channel, hl.lost⟩
    · exact ⟨pos, P, s, u, h, n, hl⟩

theorem isLinked_init : IsLinked {} := by
  refine ⟨fun _ => ⟨0, []⟩, fun _ => ⟨0, ⟨true, true⟩, [], [], []⟩, 0, 0, 0, 0,
    ⟨?_, rfl, fun j hj => absurd hj (Nat.not_lt_zero j)⟩,
    UmRx.at_init ⟨⟨?_, rfl, fun h => ReassemblingState.noConfusion h⟩, rfl⟩, rfl, rfl,
      Nat.succ_pos 511⟩
  · exact ⟨not_mem_nil, rfl, fun j hj => absurd hj (Nat.not_lt_zero j),
      fun j hj => absurd hj (Nat.not_lt_zero j), fun j hj => absurd hj (Nat.not_lt_zero j), .nil⟩
  · exact Sublist.refl _

/-- In every run of the two entities in which packets arrive in order and headers are shorter than
`2 ^ 16` bytes, the SDUs delivered are accepted ones, in the order in which they were accepted, and
no action trips an assertion. -/
theorem delivered_sublist_of_run (c : UmConfig) (l : State)
    (hrun : Lts.Run (LinkStep c) LinkInOrder {} l) :
    List.Sublist l.receiver.reassembler.delivered l.accepted ∧
      ∀ a, LinkInOrder l a → ∃ l', act c l a = .ok l' := by
  have hinv : IsLinked l :=
    Run.invariant (I := IsLinked) (fun hl hok hst => (hl.act hok).ok hst) isLinked_init hrun
  refine ⟨?_, fun a hok => ?_⟩
  · obtain ⟨pos, P, s, u, h, n, hl⟩ := hinv
    obtain ⟨r, B, hw⟩ := hl.receiving.waiting
    exact hw.holds.1.delivered.trans (take_sublist _ _)
  · cases hact : act c l a with
    | error e => exact ((hinv.act hok).error hact).elim
    | ok l' => exact ⟨l', rfl⟩

/-- Of three SDUs the second is lost; the third waits for the reordering timer. -/
theorem delivered_after_timer : ∃ l : State, Lts.Run (LinkStep {}) LinkInOrder {} l ∧
    l.accepted = [[1, 2], [3], [4]] ∧ l.receiver.reassembler.delivered = [[1, 2], [4]] ∧
    List.Sublist l.receiver.reassembler.delivered l.accepted := by
  have hrun : ∃ l : State, execs LinkInOrder (fun l a => (act {} l a).toOption) {}
      [.sender (.transmitPdcpPdu [1, 2]), .sender (.notifyTxOpportunity 4), .deliver,
        .sender (.transmitPdcpPdu [3]), .sender (.notifyTxOpportunity 4), .lose,
        .sender (.transmitPdcpPdu [4]), .sender (.notifyTxOpportunity 4), .deliver,
        .expireReorderingTimer] = some l ∧
      l.accepted = [[1, 2], [3], [4]] ∧ l.receiver.reassembler.delivered = [[1, 2], [4]] :=
    ⟨_, rfl, rfl, rfl⟩
  obtain ⟨l, hl, haccepted, hdelivered⟩ := hrun
  have hstep : ∀ {l a l'}, (act {} l a).toOption = some l' → LinkStep {} l a l' := ok_of_toOption
  have hrun := run_of_execs hstep hl
  exact ⟨l, hrun, haccepted, hdelivered, (delivered_sublist_of_run {} l hrun).1⟩

/-! ## A packet that is left behind -/

/-- The PDU of an SDU of one byte. -/
def bytePdu (v b : Nat) : DataPdu Nat := ⟨v, ⟨true, true⟩, [false], [], [b]⟩

/-- A run reaches a state where nothing waits at the transmitting side, whose next PDU is the
`v`-th. -/
structure Idle (v : Nat) (rx : UmRx Nat) (lost : Nat) (channel accepted : List (List Nat))
    (l : State) : Prop where
  run : Lts.Run (LinkStep {}) LinkOk {} l
  txBuffer : l.sender.txBuffer = []
  txBufferSize : l.sender.txBufferSize = 0
  number : l.sender.sequenceNumber.value = v
  receiver : l.receiver = rx
  lost : l.lost = lost
  channel : l.channel = channel
  accepted : l.accepted = accepted

section late
variable {l : State} {v k n b : Nat} {rx rx' : UmRx Nat} {acc : List (List Nat)}

/-- The transmitting side sends an SDU of one byte. -/
theorem send_byte {tx : UmTx Nat} (htx : tx.txBuffer = []) (hsize : tx.txBufferSize = 0) (b : Nat) :
    fits {} tx [b] = true ∧
      ∃ t, doNotifyTxOpportunity (doTransmitPdcpPdu {} tx [b]) 3 = .ok t ∧ t.txBuffer = [] ∧
        t.txBufferSize = 0 ∧ t.sequenceNumber.value = (tx.sequenceNumber.value + 1) % 1024 ∧
        t.sent = tx.sent ++ [bytePdu tx.sequenceNumber.value b] := by
  have hfits : fits {} tx [b] = true := by
    rw [fits, hsize]
    rfl
  have hdiscard : isDiscarded {} tx = false := by
    simp [isDiscarded, holDelay, htx, getMilliSeconds]
  have hstored : doTransmitPdcpPdu {} tx [b] = { doTransmitBufferStatusReport
      (storePdu { tx with submitted := tx.submitted ++ [[b]] } [b]) with bsrTimer := false } := by
    have hfits' : fits {} { tx with submitted := tx.submitted ++ [[b]] } [b] = true := hfits
    have hdiscard' : isDiscarded {} { tx with submitted := tx.submitted ++ [[b]] } = false :=
      hdiscard
    rw [doTransmitPdcpPdu]
    simp only [hfits', hdiscard', if_true, Bool.false_eq_true, if_false]
  obtain ⟨hsent, hnumber⟩ := doTransmitPdcpPdu_same {} tx [b]
  have hbuffer : (doTransmitPdcpPdu {} tx [b]).txBuffer = [⟨⟨[b], .fullSdu⟩, tx.now⟩] := by
    rw [hstored]
    show tx.txBuffer ++ [_] = _
    rw [htx]
    rfl
  have hone : (doTransmitPdcpPdu {} tx [b]).txBufferSize = 1 := by
    rw [hstored]
    show add32 tx.txBufferSize 1 = 1
    rw [hsize]
    rfl
  have hbuild : buildDataField 1 ⟨⟨[b], .fullSdu⟩, tx.now⟩ [] 1 =
      { firstSegment := none
        nextSegmentSize := 0
        nextSegmentId := 2
        dataField := [⟨[b], .fullSdu⟩]
        extensionBits := [false]
        txBuffer := []
        txBufferSize := 0 } := by
    simp [buildDataField, buildLoop, takeLast, Segment.size, sub32]
  rw [doNotifyTxOpportunity, if_neg (by decide), hbuffer, hone]
  refine ⟨hfits,
    sendPdu (doTransmitPdcpPdu {} tx [b]) (buildDataField 1 ⟨⟨[b], .fullSdu⟩, tx.now⟩ [] 1) ⟨true,
    true⟩, ?_, ?_, ?_, ?_, ?_⟩
  · have hcheck :
      checkHeader (bytePdu (doTransmitPdcpPdu {} tx [b]).sequenceNumber.value b).umHeaderLength 1 =
        .ok () := DataPdu.checkHeader_um 1 (by decide : 2 + liLength 0 < 2 ^ 16)
    show (framingInfoOf (buildDataField 1 ⟨⟨[b], .fullSdu⟩, tx.now⟩ [] 1).dataField >>= _) = _
    rw [hbuild]
    exact congrArg (Except.map _) hcheck
  · simp only [hbuild, sendPdu]
  · simp only [hbuild, sendPdu]
  · show ((doTransmitPdcpPdu {} tx [b]).sequenceNumber.value + 1) % 1024 = _
    rw [hnumber]
  · simp only [hbuild, sendPdu]
    rw [hsent, hnumber]
    rfl

theorem Idle.send (hl : Idle v rx k [] acc l) (b : Nat) :
    ∃ l', Idle ((v + 1) % 1024) rx k [umPacket (bytePdu v b)] (acc ++ [[b]]) l' := by
  obtain ⟨hfits, t, hok, htx, hsize, hnumber, hsent'⟩ := send_byte hl.txBuffer hl.txBufferSize b
  have hsent := (doTransmitPdcpPdu_same {} l.sender [b]).1
  have htransmit : LinkStep {} l (.sender (.transmitPdcpPdu [b]))
      { l with
        sender := doTransmitPdcpPdu {} l.sender [b]
        accepted := l.accepted ++ [[b]] } := by
    rw [LinkStep, act, umTxAct, Except.map, hsent, drop_length, map_nil, append_nil, accepts,
      if_pos hfits]
  have hopportunity : LinkStep {} { l with
        sender := doTransmitPdcpPdu {} l.sender [b]
        accepted := l.accepted ++ [[b]] } (.sender (.notifyTxOpportunity 3))
      { l with
        sender := t
        channel := [umPacket (bytePdu v b)]
        accepted := l.accepted ++ [[b]] } := by
    rw [LinkStep, act, umTxAct, hok, Except.map, hsent', hsent, drop_left, hl.channel, hl.number,
      accepts, append_nil, nil_append, map_singleton]
  have hstored : LinkOk l (.sender (.transmitPdcpPdu [b])) := cons_ne_nil b []
  have hrun := hl.run.snoc hstored htransmit
  refine ⟨_, hrun.snoc (a := .sender (.notifyTxOpportunity 3)) trivial hopportunity, htx, hsize, ?_,
    hl.receiver, hl.lost, rfl, congrArg (· ++ [[b]]) hl.accepted⟩
  rw [← hl.number]
  exact hnumber

theorem Idle.lose {packet : List Nat} (hl : Idle v rx k [packet] acc l)
    (hk : k + 1 < umWindowSize) : ∃ l', Idle v rx (k + 1) [] acc l' := by
  have hstep : LinkStep {} l .lose { l with channel := [], lost := l.lost + 1 } := by
    rw [LinkStep, act, hl.channel]
  have hok : LinkOk l .lose := by
    rw [LinkOk, hl.lost]
    exact hk
  exact ⟨_, hl.run.snoc hok hstep, hl.txBuffer, hl.txBufferSize, hl.number, hl.receiver,
    congrArg (· + 1) hl.lost, rfl, hl.accepted⟩

theorem Idle.deliver (hl : Idle v rx k [umPacket (bytePdu n b)] acc l) (hn : n < 1024)
    (hok : rx.doReceivePdu false (bytePdu n b) = .ok rx') : ∃ l', Idle v rx' 0 [] acc l' := by
  have hread : umRemoveHeader (umPacket (bytePdu n b)) = .ok (bytePdu n b) :=
    umRemoveHeader_short ⟨FramingInfo.bits_lt _, hn, rfl, forall_mem_nil _⟩ (Nat.succ_pos _)
  have hstep : LinkStep {} l .deliver { l with receiver := rx', channel := [], lost := 0 } := by
    rw [LinkStep, act, hl.channel]
    simp only [receivePacket, hread, ok_bind, hl.receiver, hok, Except.map]
  exact ⟨_, hl.run.snoc (a := .deliver) trivial hstep, hl.txBuffer, hl.txBufferSize, hl.number, rfl,
    rfl, rfl, hl.accepted⟩

theorem Idle.expire (hl : Idle v rx k [] acc l) (hpending : rx.reorderingTimer = true)
    (hok : rx.expireReorderingTimer = .ok rx') : ∃ l', Idle v rx' k [] acc l' := by
  have hstep : LinkStep {} l .expireReorderingTimer { l with receiver := rx' } := by
    rw [LinkStep, act, hl.receiver, if_pos hpending, hok]
    rfl
  exact ⟨_, hl.run.snoc (a := .expireReorderingTimer) trivial hstep, hl.txBuffer, hl.txBufferSize,
    hl.number, rfl, hl.lost, hl.channel, hl.accepted⟩

theorem Idle.sendLost : ∀ {n v k : Nat} {acc : List (List Nat)} {l : State}, Idle v rx k [] acc l →
    v < 1024 → k + n < umWindowSize →
    ∃ l', Idle ((v + n) % 1024) rx (k + n) [] (acc ++ replicate n [0]) l'
  | 0, v, k, acc, l, hl, hv, _ => by
    rw [Nat.add_zero, Nat.mod_eq_of_lt hv, replicate_zero, append_nil]
    exact ⟨l, hl⟩
  | n + 1, v, k, acc, l, hl, hv, hk => by
    obtain ⟨l₁, h₁⟩ := hl.send 0
    obtain ⟨l₂, h₂⟩ := h₁.lose (by omega)
    obtain ⟨l', h'⟩ := h₂.sendLost (n := n) (Nat.mod_lt _ (Nat.succ_pos _)) (by omega)
    refine ⟨l', ?_⟩
    rw [Nat.mod_add_mod, append_assoc, add_assoc, add_assoc, Nat.add_comm 1 n] at h'
    exact h'

theorem Idle.sendAfter (hl : Idle v rx 0 [] acc l) (hv : v < 1024) (hn : n < umWindowSize)
    (hok : rx.doReceivePdu false (bytePdu ((v + n) % 1024) b) = .ok rx') :
    ∃ l', Idle ((v + n + 1) % 1024) rx' 0 [] (acc ++ replicate n [0] ++ [[b]]) l' := by
  obtain ⟨l₁, h₁⟩ := hl.sendLost (n := n) hv (by rwa [Nat.zero_add])
  obtain ⟨l₂, h₂⟩ := h₁.send b
  obtain ⟨l', h'⟩ := h₂.deliver (Nat.mod_lt _ (Nat.succ_pos _)) hok
  rw [Nat.mod_add_mod] at h'
  exact ⟨l', h'⟩

/-- Packet 1022 falls out of the window with packet 510 of the next turn, but stands behind it in
the map, and is put together after packet 1021 of that turn. -/
theorem delivered_late : ∃ l : State, Lts.Run (LinkStep {}) LinkOk {} l ∧
    ¬ List.Sublist l.receiver.reassembler.delivered l.accepted := by
  have hrx : (({} : UmRx Nat).doReceivePdu false (bytePdu 511 0) >>= fun rx =>
      rx.doReceivePdu false (bytePdu 1022 1) >>= fun rx =>
        rx.doReceivePdu false (bytePdu 510 0) >>= fun rx =>
          rx.doReceivePdu false (bytePdu 1021 2) >>= fun rx =>
            (if rx.reorderingTimer then rx.expireReorderingTimer else .error .assertion) >>=
              fun rx =>
              .ok rx.reassembler.delivered) = .ok [[0], [0], [2], [1]] := by decide +kernel
  obtain ⟨rx₁, h₁, hrx⟩ := ok_of_bind hrx
  obtain ⟨rx₂, h₂, hrx⟩ := ok_of_bind hrx
  obtain ⟨rx₃, h₃, hrx⟩ := ok_of_bind hrx
  obtain ⟨rx₄, h₄, hrx⟩ := ok_of_bind hrx
  obtain ⟨rx₅, h₅, hrx⟩ := ok_of_bind hrx
  have hdelivered : rx₅.reassembler.delivered = [[0], [0], [2], [1]] := Except.ok.inj hrx
  split at h₅
  · next hpending =>
    have hstart : Idle 0 {} 0 [] [] {} := ⟨.refl _, rfl, rfl, rfl, rfl, rfl, rfl, rfl⟩
    obtain ⟨l₁, hl₁⟩ := hstart.sendAfter (n := 511) (by decide) (by decide) h₁
    obtain ⟨l₂, hl₂⟩ := hl₁.sendAfter (n := 510) (by decide) (by decide) h₂
    obtain ⟨l₃, hl₃⟩ := hl₂.sendAfter (n := 511) (by decide) (by decide) h₃
    obtain ⟨l₄, hl₄⟩ := hl₃.sendAfter (n := 510) (by decide) (by decide) h₄
    obtain ⟨l, hl⟩ := hl₄.expire hpending h₅
    refine ⟨l, hl.run, fun hsub => ?_⟩
    -- apart from the SDUs [0], two are delivered, in the wrong order
    rw [hl.receiver, hl.accepted, hdelivered] at hsub
    have hfilter := hsub.filter fun sdu => decide (sdu ≠ [0])
    simp only [filter_append, filter_replicate] at hfilter
    exact absurd hfilter (by decide)
  · cases h₅

end late

end runs

end OranNs3.Rlc.UmLink
