import OranNs3.Lib.Channel
import OranNs3.Rlc.AmRx
import OranNs3.Rlc.AmTx
import OranNs3.Rlc.Packet
import Mathlib.Data.Set.BooleanAlgebra
import Mathlib.Order.CompletePartialOrder

/-!
# Two AM entities

A transmitting and a receiving `NrRlcAm` (`Am`) with a channel for the data PDUs and one for the
STATUS PDUs, both of packets in bytes: any packet may be lost, and the rest is delivered in order.

The invariant (`Linked`) numbers the PDUs without wrapping. The sender holds every PDU that it does
not know to be received (`Sending`), the receiver has delivered what is whole before `VR(R)`
(`Receiving`), a data PDU in flight is not so old that the window could have wrapped round to it
(`DataInFlight`), and what STATUS PDUs in flight report ascends (`Channel.Ascends`). As long as no
header reaches `2 ^ 16` bytes (`LinkShort`), what is delivered is always a prefix of the accepted
SDUs (`delivered_prefix_of_run`). Bytes of a longer header are delivered in the place of an SDU
(`am_header_delivered`).
-/

namespace OranNs3.Rlc

open Fallible Function List Option

/-! ## The system -/

/-- Two entities and the packets in flight. -/
structure AmLink where
  sender : Am Nat := {}
  receiver : Am Nat := {}
  dataChannel : List (List Nat) := []
  statusChannel : List (List Nat) := []

/-- What happens: an action at one of the entities, the delivery of the first packet of a channel,
or the loss of any. -/
inductive LinkAction
  | sender (a : AmAction Nat)
  | receiver (a : AmAction Nat)
  | deliverData
  | deliverStatus
  | loseData (i : Nat)
  | loseStatus (i : Nat)

/-- A packet is read and received by an entity. -/
def Am.receivePacket (s : Am Nat) (packet : List Nat) : Except RlcError (Am Nat) :=
  readPacket packet >>= s.receivePdu

/-- The packet of an output, if there is one, at the end of a channel. -/
def sendPacket (channel : List (List Nat)) (o : Option (AmOutput Nat)) : List (List Nat) :=
  channel ++ (o.map AmOutput.packet).toList

/-- One action. -/
def AmLink.act (c : AmConfig) (l : AmLink) : LinkAction → Except RlcError AmLink
  | .sender a =>
    (l.sender.act c a).map fun r =>
      { l with sender := r.1, dataChannel := sendPacket l.dataChannel r.2 }
  | .receiver a =>
    (l.receiver.act c a).map fun r =>
      { l with receiver := r.1, statusChannel := sendPacket l.statusChannel r.2 }
  | .deliverData =>
    match l.dataChannel with
    | [] => .ok l
    | packet :: dataChannel =>
      (l.receiver.receivePacket packet).map fun receiver =>
        { l with receiver, dataChannel }
  | .deliverStatus =>
    match l.statusChannel with
    | [] => .ok l
    | packet :: statusChannel =>
      (l.sender.receivePacket packet).map fun sender =>
        { l with sender, statusChannel }
  | .loseData i => .ok { l with dataChannel := l.dataChannel.eraseIdx i }
  | .loseStatus i => .ok { l with statusChannel := l.statusChannel.eraseIdx i }

/-- The steps. -/
def LinkStep (c : AmConfig) (l : AmLink) (a : LinkAction) (l' : AmLink) : Prop := l.act c a = .ok l'

/-- The actions at the transmitting entity: opportunities are of at least 7 bytes, SDUs are not
empty, and PDUs come over the channel only. -/
def SenderOk : AmAction Nat → Prop
  | .notifyTxOpportunity bytes => 7 ≤ bytes
  | .transmitPdcpPdu p => p ≠ []
  | .receivePdu _ => False
  | _ => True

/-- The actions at the receiving entity, at which no SDUs are submitted. -/
def ReceiverOk : AmAction Nat → Prop
  | .notifyTxOpportunity bytes => 7 ≤ bytes
  | .transmitPdcpPdu _ => False
  | .receivePdu _ => False
  | _ => True

/-- The actions of the system. -/
def LinkOk (_ : AmLink) : LinkAction → Prop
  | .sender a => SenderOk a
  | .receiver a => ReceiverOk a
  | _ => True

/-- The header of a new PDU is shorter than `2 ^ 16` bytes: it has fewer than 43688 length
indicators behind 4 bytes. -/
def SendsShort (tx : AmTx Nat) : LinkAction → Prop
  | .sender (.notifyTxOpportunity bytes) => BuildsPdu tx →
    ¬ Crowded 0 43688 (bytes - 4) tx.txonBuffer
  | _ => True

/-- The same actions, where headers are shorter than `2 ^ 16` bytes. -/
def LinkShort (l : AmLink) (a : LinkAction) : Prop := LinkOk l a ∧ SendsShort l.sender.tx a

instance : DecidablePred SenderOk
  | .notifyTxOpportunity _ => inferInstanceAs (Decidable (_ ≤ _))
  | .transmitPdcpPdu p => inferInstanceAs (Decidable (p ≠ []))
  | .receivePdu _ => inferInstanceAs (Decidable False)
  | .wait _ | .expireReorderingTimer | .expirePollRetransmitTimer | .expireStatusProhibitTimer
  | .expireBsrTimer => inferInstanceAs (Decidable True)

instance : DecidablePred ReceiverOk
  | .notifyTxOpportunity _ => inferInstanceAs (Decidable (_ ≤ _))
  | .transmitPdcpPdu _ | .receivePdu _ => inferInstanceAs (Decidable False)
  | .wait _ | .expireReorderingTimer | .expirePollRetransmitTimer | .expireStatusProhibitTimer
  | .expireBsrTimer => inferInstanceAs (Decidable True)

instance (l : AmLink) : DecidablePred (LinkOk l)
  | .sender a => inferInstanceAs (Decidable (SenderOk a))
  | .receiver a => inferInstanceAs (Decidable (ReceiverOk a))
  | .deliverData | .deliverStatus | .loseData _ | .loseStatus _ => inferInstanceAs (Decidable True)

instance (tx : AmTx Nat) : DecidablePred (SendsShort tx)
  | .sender (.notifyTxOpportunity _) => inferInstanceAs (Decidable (_ → _))
  | .sender (.wait _) | .sender (.transmitPdcpPdu _) | .sender (.receivePdu _) | .sender
      .expireReorderingTimer
  | .sender .expirePollRetransmitTimer | .sender .expireStatusProhibitTimer | .sender
      .expireBsrTimer | .receiver _
  | .deliverData | .deliverStatus | .loseData _ | .loseStatus _ => inferInstanceAs (Decidable True)

instance (l : AmLink) (a : LinkAction) : Decidable (LinkShort l a) :=
  inferInstanceAs (Decidable (_ ∧ _))

/-! ## The transmitting side -/

section sending
variable {P : Nat → DataPdu Nat} {pos : Nat → Pos Nat} {a s : Nat} {lo got : Set Nat}
  {T X T' X' : Nat → RetxPdu Nat} {tx : AmTx Nat} {c : AmConfig} {now bytes : Nat}

/-- The buffers hold the PDUs from `VT(A)` on, apart from those known to be received. -/
structure Holding (P : Nat → DataPdu Nat) (a s : Nat) (lo : Set Nat) (T X : Nat → RetxPdu Nat) :
    Prop where
  below : ∀ j, j < a → j ∈ lo
  pdu : ∀ j, a ≤ j → j < s → ∀ p, (T (j % 1024)).pdu = some p ∨ (X (j % 1024)).pdu = some p →
    p.toDataPdu = P j
  empty : ∀ j, a ≤ j → j < s → (T (j % 1024)).pdu = none → (X (j % 1024)).pdu = none → j ∈ lo

section
variable (h : Holding P a s lo T X)
include h

theorem Holding.change
    (hpdu : ∀ v p, (T' v).pdu = some p ∨ (X' v).pdu = some p → (T v).pdu = some p ∨
      (X v).pdu = some p)
    (hempty : ∀ v, (T' v).pdu = none → (X' v).pdu = none → (T v).pdu = none ∧ (X v).pdu = none) :
    Holding P a s lo T' X' where
  below := h.below
  pdu j hj hlt p hp := h.pdu j hj hlt p (hpdu _ p hp)
  empty j hj hlt hT hX := h.empty j hj hlt (hempty _ hT hX).1 (hempty _ hT hX).2

variable {v : Nat}

theorem Holding.move {p : AmPdu Nat} {e : RetxPdu Nat}
    (hp : (T v).pdu = some p) (he : e.pdu = some p) :
    Holding P a s lo (Function.update T v {}) (Function.update X v e) := by
  refine h.change (fun w q hq => ?_) fun w hT hX => ?_
  · by_cases hw : w = v
    · subst hw
      rw [update_self, update_self, he] at hq
      rw [hp]
      exact .inl (hq.resolve_left (fun h => by cases h))
    · rwa [update_of_ne hw, update_of_ne hw] at hq
  · by_cases hw : w = v
    · subst hw
      rw [update_self, he] at hX
      cases hX
    · rw [update_of_ne hw] at hT hX
      exact ⟨hT, hX⟩

theorem Holding.symm : Holding P a s lo X T :=
  h.change (fun _ _ hp => hp.symm) fun _ hT hX => ⟨hX, hT⟩

theorem Holding.raise (hle : lo ≤ got) : Holding P a s got T X where
  below j hj := hle (h.below j hj)
  pdu := h.pdu
  empty j hj hlt hT hX := hle (h.empty j hj hlt hT hX)

theorem Holding.ack {j : Nat} (hs : s ≤ a + amWindowSize) (haj : a ≤ j)
    (hjs : j < s) (hj : j ∈ lo) (hT : (T' (j % 1024)).pdu = none) (hX : (X' (j % 1024)).pdu = none)
    (hkeep : ∀ v, v ≠ j % 1024 → T' v = T v ∧ X' v = X v) : Holding P a s lo T' X' := by
  rw [amWindowSize] at hs
  refine ⟨h.below, fun i hi hlt p hp => ?_, fun i hi hlt hT' hX' => ?_⟩
  · by_cases hij : i % 1024 = j % 1024
    · rw [hij, hT, hX] at hp
      exact hp.elim (fun h => by cases h) fun h => by cases h
    · rw [(hkeep _ hij).1, (hkeep _ hij).2] at hp
      exact h.pdu i hi hlt p hp
  · by_cases hij : i % 1024 = j % 1024
    · obtain rfl : i = j := by omega
      exact hj
    · rw [(hkeep _ hij).1] at hT'
      rw [(hkeep _ hij).2] at hX'
      exact h.empty i hi hlt hT' hX'

theorem Holding.store {p : AmPdu Nat} {e : RetxPdu Nat}
    (hslots : Slots T X a s) (hs : s < a + amWindowSize) (he : e.pdu = some p) :
    Holding (Function.update P s p.toDataPdu) a (s + 1) lo (Function.update T (s % 1024) e) X := by
  have hempty := (hslots.next_empty hs).2
  rw [amWindowSize] at hs
  refine ⟨h.below, fun j hj hlt q hq => ?_, fun j hj hlt hT hX => ?_⟩
  · rcases Nat.lt_succ_iff_lt_or_eq.1 hlt with hlt' | rfl
    · rw [update_of_ne (by omega : j % 1024 ≠ s % 1024)] at hq
      rw [update_of_ne hlt'.ne]
      exact h.pdu j hj hlt' q hq
    · rw [update_self, he, hempty] at hq
      rw [update_self]
      cases hq.resolve_right (fun h => by cases h)
      rfl
  · rcases Nat.lt_succ_iff_lt_or_eq.1 hlt with hlt' | rfl
    · rw [update_of_ne (by omega : j % 1024 ≠ s % 1024)] at hT
      exact h.empty j hj hlt' hT hX
    · rw [update_self, he] at hT
      cases hT

end

/-- The transmitting side: its window, the stream of its PDUs, all with short headers, and those
that it holds. -/
structure Sending (tx : AmTx Nat) (pos : Nat → Pos Nat) (P : Nat → DataPdu Nat) (a s : Nat)
    (lo : Set Nat) : Prop where
  txAt : TxAt tx a s
  stream : Stream tx.accepted (tx.txonBuffer.map (·.pdu)) pos P s
  short : ∀ j, j < s → (P j).lengthIndicators.length < 43688
  holding : Holding P a s lo tx.txedBuffer tx.retxBuffer

theorem Sending.submit {p : List Nat} (c : AmConfig) (now : Nat) (h : Sending tx pos P a s lo)
    (hp : p ≠ []) : Sending (amTransmitPdcpPdu c tx now p) pos P a s lo ∧
      tx.accepted <+: (amTransmitPdcpPdu c tx now p).accepted := by
  have hat : TxAt (amTransmitPdcpPdu c tx now p) a s := h.txAt.submit
  rw [amTransmitPdcpPdu] at hat ⊢
  split at hat
  · next hfits =>
    rw [if_pos hfits]
    refine ⟨⟨hat, ?_, h.short, h.holding⟩, prefix_append tx.accepted [p]⟩
    have hstream := h.stream.submit hp
    rw [map_append]
    exact hstream
  · next hfits =>
    rw [if_neg hfits]
    exact ⟨⟨hat, h.stream, h.short, h.holding⟩, prefix_refl _⟩

/-- An opportunity for data sends a PDU that is held, and builds it if it is new. -/
theorem Sending.opportunity (h : Sending tx pos P a s lo) (hbytes : 7 ≤ bytes)
    (hshort : BuildsPdu tx → ¬ Crowded 0 43688 (bytes - 4) tx.txonBuffer) :
    Spec (fun _ => False)
      (fun r => ∃ pos' P' s', Extends tx.accepted pos P s r.1.accepted pos' P' s' ∧
        Sending r.1 pos' P' a s' lo ∧
        ∀ pdu, r.2 = some pdu → ∃ j, a ≤ j ∧ j < s' ∧ pdu.toDataPdu = P' j)
      (amTxOpportunity c tx now bytes) := by
  refine (h.txAt.outcome c now bytes).mono (fun e he => ?_) fun r hout => ?_
  · rcases he with ⟨-, hlt⟩ | ⟨-, first, txonBuffer, htxon, -, hfi⟩
    · exact absurd hlt (not_lt.2 hbytes)
    · have hstream := h.stream
      rw [htxon] at hstream
      obtain ⟨fi, hok, -⟩ := hstream.build tx.txonBufferSize (show 0 < bytes - 4 by omega) rfl
      rw [hok] at hfi
      cases hfi
  · cases hout with
    | nothing => exact ⟨pos, P, s, .refl, h, fun pdu hpdu => by cases hpdu⟩
    | @resent i pdu polls hai his hX =>
      have hheld : Holding P a s lo (moveToTxed (pollIf polls tx) now (i % 1024) pdu).txedBuffer
          (moveToTxed (pollIf polls tx) now (i % 1024) pdu).retxBuffer := by
        simp only [moveToTxed, pollIf_txed, pollIf_retx]
        exact (h.holding.symm.move hX rfl).symm
      have hsame : (pollIf polls tx).accepted = tx.accepted ∧
          (pollIf polls tx).txonBuffer = tx.txonBuffer := by
        cases polls <;> exact ⟨rfl, rfl⟩
      refine ⟨pos, P, s, ?_, ⟨?_, ?_, h.short, hheld⟩, fun pdu' hpdu' => ?_⟩
      · show Extends tx.accepted pos P s (pollIf polls tx).accepted pos P s
        rw [hsame.1]
        exact .refl
      · exact (h.txAt.pollIf polls).moveToTxed (by rwa [pollIf_retx])
      · show Stream (pollIf polls tx).accepted ((pollIf polls tx).txonBuffer.map _) pos P s
        rw [hsame.1, hsame.2]
        exact h.stream
      · obtain rfl := some.inj hpdu'
        exact ⟨i, hai, his, h.holding.pdu i hai his pdu (.inr hX)⟩
    | @fresh first txonBuffer fi polls b hbuilds hlt htxon hb hbytes' hfi =>
      have hstream := h.stream
      have hfew := hshort hbuilds
      rw [htxon] at hstream hfew
      rw [← indicators_iff tx.txonBufferSize (Nat.succ_pos _), ← hb] at hfew
      obtain ⟨fi', hok, pos', hbuilt, hpos⟩ :=
        hstream.build tx.txonBufferSize (show 0 < bytes - 4 by omega) rfl
      rw [← hb] at hok hbuilt
      obtain rfl : fi = fi' := Except.ok.inj (hfi.symm.trans hok)
      have hsame : (pollIf polls (takeDataField tx b)).accepted = tx.accepted ∧
          (pollIf polls (takeDataField tx b)).txonBuffer = b.txBuffer := by
        cases polls <;> exact ⟨rfl, rfl⟩
      refine ⟨pos', update P s (pduOf (s % 1024) b fi), s + 1, ?_, ⟨?_, ?_, fun j hj => ?_, ?_⟩,
        fun pdu hpdu => ?_⟩
      · refine ⟨?_, Nat.le_succ s, hpos, fun j hj => update_of_ne hj.ne _ _⟩
        show tx.accepted <+: (pollIf polls (takeDataField tx b)).accepted
        rw [hsame.1]
      · exact h.txAt.store hlt htxon hb hbytes'
      · show Stream (pollIf polls (takeDataField tx b)).accepted
          ((pollIf polls (takeDataField tx b)).txonBuffer.map _) _ _ _
        rw [hsame.1, hsame.2]
        exact hbuilt
      · rcases Nat.lt_succ_iff_lt_or_eq.1 hj with hlt' | rfl
        · rw [update_of_ne hlt'.ne]
          exact h.short j hlt'
        · rw [update_self]
          exact Nat.lt_of_not_le hfew
      · simp only [storeTxed, pollIf_txed, pollIf_retx]
        exact h.holding.store (p := ⟨pduOf (s % 1024) b fi, polls⟩) h.txAt.slots hlt rfl
      · obtain rfl := some.inj hpdu
        refine ⟨s, h.txAt.le, Nat.lt_succ_self s, ?_⟩
        rw [update_self]

/-- The SDUs that wait and those that were accepted are the same. -/
structure SameSdus (tx tx' : AmTx Nat) : Prop where
  accepted : tx'.accepted = tx.accepted
  txonBuffer : tx'.txonBuffer = tx.txonBuffer

theorem SameSdus.trans {tx tx' tx'' : AmTx Nat} (h : SameSdus tx tx') (h' : SameSdus tx' tx'') :
    SameSdus tx tx'' := ⟨h'.accepted.trans h.accepted, h'.txonBuffer.trans h.txonBuffer⟩

theorem stopPoll_sdus : SameSdus tx (stopPoll tx v) := by
  rw [stopPoll]
  split
  · exact ⟨rfl, rfl⟩
  · exact ⟨rfl, rfl⟩

theorem nackSn_sdus : Spec (fun _ => True) (SameSdus tx) (nackSn tx v) := by
  rw [nackSn]
  split
  · exact ⟨rfl, rfl⟩
  · split
    · exact ⟨rfl, rfl⟩
    · trivial

theorem ackSn_sdus : Spec (fun _ => True) (SameSdus tx) (ackSn tx v) := by
  rw [ackSn]
  split
  · trivial
  · exact ⟨rfl, rfl⟩
  · exact ⟨rfl, rfl⟩
  · exact ⟨rfl, rfl⟩

variable {st : StatusPdu}

theorem statusLoop_sdus : ∀ {fuel : Nat} {tx : AmTx Nat} {sn ack : SequenceNumber10}
    {inc : Bool}, Spec (fun _ => True) (SameSdus tx) (statusLoop st fuel tx sn ack inc)
  | 0, _, _, _, _ => trivial
  | fuel + 1, tx, sn, ack, inc => by
    have hany : ∀ {x : Except RlcError Bool}, Spec (fun _ => True) (fun _ => True) x := by
      intro x
      cases x <;> trivial
    rw [statusLoop]
    refine hany.bind fun below _ => ?_
    split
    · refine hany.bind fun sent _ => ?_
      split
      · split
        · refine nackSn_sdus.bind fun tx₁ h₁ => ?_
          exact statusLoop_sdus.imp fun tx₂ h₂ => (stopPoll_sdus.trans h₁).trans h₂
        · refine ackSn_sdus.bind fun tx₁ h₁ => ?_
          split
          · have hadvance : SameSdus tx₁ (advanceVtA tx₁) := ⟨rfl, rfl⟩
            exact statusLoop_sdus.imp fun tx₂ h₂ =>
              ((stopPoll_sdus.trans h₁).trans hadvance).trans h₂
          · exact statusLoop_sdus.imp fun tx₂ h₂ => (stopPoll_sdus.trans h₁).trans h₂
      · exact ⟨rfl, rfl⟩
    · exact ⟨rfl, rfl⟩

theorem receiveStatusPdu_sdus : Spec (fun _ => True) (SameSdus tx) (receiveStatusPdu tx st) :=
  statusLoop_sdus.imp fun _ h => ⟨h.accepted, h.txonBuffer⟩

theorem pollLoop_sdus : ∀ {fuel : Nat} {tx : AmTx Nat} {sn : SequenceNumber10},
    Spec (fun _ => True) (SameSdus tx) (pollLoop fuel tx sn)
  | 0, _, _ => trivial
  | fuel + 1, tx, sn => by
    rw [pollLoop]
    cases sn.lt tx.vtS with
    | error e => trivial
    | ok below =>
      rw [ok_bind]
      split
      · split
        · exact pollLoop_sdus.imp fun _ h => ⟨h.accepted, h.txonBuffer⟩
        · exact pollLoop_sdus
      · exact ⟨rfl, rfl⟩

theorem amExpirePollRetransmitTimer_sdus :
    Spec (fun _ => True) (SameSdus tx) (amExpirePollRetransmitTimer tx) := by
  rw [amExpirePollRetransmitTimer]
  cases tx.vtS.le tx.vtMs with
  | error e => trivial
  | ok below =>
    rw [ok_bind]
    split
    · split
      · exact pollLoop_sdus.imp fun _ h => ⟨h.accepted, h.txonBuffer⟩
      · exact ⟨rfl, rfl⟩
    · trivial

theorem Sending.change {tx' : AmTx Nat} {a' : Nat} (h : Sending tx pos P a s lo)
    (hsame : SameSdus tx tx') (hat : TxAt tx' a' s)
    (hheld : Holding P a' s got tx'.txedBuffer tx'.retxBuffer) : Sending tx' pos P a' s got := by
  refine ⟨hat, ?_, h.short, hheld⟩
  rw [hsame.accepted, hsame.txonBuffer]
  exact h.stream

theorem Sending.expirePoll (h : Sending tx pos P a s lo) :
    ∃ tx', amExpirePollRetransmitTimer tx = .ok tx' ∧ Sending tx' pos P a s lo ∧
      SameSdus tx tx' := by
  obtain ⟨tx', hok, hat, hheld⟩ := h.txAt.expirePoll (I := fun _ => Holding P a s lo)
    ⟨fun _ hI _ _ hpdu => hI.move hpdu rfl, fun _ hI _ _ _ => hI⟩ fun _ => h.holding
  have hsame := amExpirePollRetransmitTimer_sdus.ok hok
  exact ⟨tx', hok, h.change hsame hat hheld, hsame⟩

/-! ## STATUS PDUs -/

/-- What a STATUS PDU reports, when `got` has been received: it acknowledges up to a number above
the first one that is missing, and its NACKs are those that are missing below. -/
def Reports (s : Nat) (got : Set Nat) (st : StatusPdu) : Prop :=
  ∃ r k, (∀ j, j < r → j ∈ got) ∧ r ∉ got ∧ r ≤ k ∧ k ≤ s ∧ k ≤ r + amWindowSize ∧
    st.ackSn = k % 1024 ∧ ∀ v, v ∈ st.nackSnList ↔ ∃ j, r ≤ j ∧ j < k ∧ j ∉ got ∧ v = j % 1024

theorem Reports.mono {s' : Nat} (h : Reports s got st) (hs : s ≤ s') : Reports s' got st := by
  obtain ⟨r, k, h1, h2, h3, h4, h5⟩ := h
  exact ⟨r, k, h1, h2, h3, h4.trans hs, h5⟩

theorem Reports.header_ok (h : Reports s got st) : st.Ok := by
  obtain ⟨r, k, -, -, -, -, -, hack, hnacks⟩ := h
  refine ⟨?_, fun n hn => ?_⟩
  · rw [hack]
    exact mod_lt k
  · obtain ⟨j, -, -, -, rfl⟩ := (hnacks n).1 hn
    exact mod_lt j

/-- A report that is not older than what the sender knows: no PDU that it reports as missing has
been given up, and what is not held after it has been received. -/
theorem Sending.receiveStatus (h : Sending tx pos P a s lo) (hle : lo ≤ got)
    (hst : Reports s got st) :
    ∃ tx' a', receiveStatusPdu tx st = .ok tx' ∧ Sending tx' pos P a' s got ∧ SameSdus tx tx' := by
  obtain ⟨r, k, hbelow, hmiss, hrk, hks, hkr, hack, hnacks⟩ := hst
  have hadd := h.txAt.le_add
  have hheld := h.holding.raise hle
  have har : a ≤ r := by
    by_contra hlt
    exact hmiss (hheld.below r (Nat.lt_of_not_le hlt))
  have hw : amWindowSize = 512 := rfl
  have hspec := spec_receiveStatusPdu (E := fun _ => False)
    (I := fun j T X => a ≤ j ∧ Holding P a s got T X) (k := k) st h.txAt (by rw [hack]; omega)
    (har.trans hrk) (by omega) ⟨fun {a' j tx₁} _ hI _ hjk hjs hmem => ?_,
      fun {a' j tx₁ tx₂} hat hI _ hjk hjs hmem hok => ?_⟩ ⟨le_rfl, hheld⟩
  · have hfinal := hspec.also fun tx' hok => receiveStatusPdu_sdus.ok hok
    cases hrun : receiveStatusPdu tx st with
    | error e => exact (hfinal.error hrun).elim
    | ok tx' =>
      obtain ⟨⟨a', j', hat, haa', ⟨-, hI⟩, -, -, -⟩, hsame⟩ := hfinal.ok hrun
      refine ⟨tx', a', rfl, h.change hsame hat ⟨fun j hj => ?_, ?_, ?_⟩, hsame⟩
      · -- between the old and the new `VT(A)` nothing is held
        rcases lt_or_ge j a with hlt | hge
        · exact hheld.below j hlt
        · have hle' := hat.le
          have hoff : ∀ i, a' ≤ i → i < s → j % 1024 ≠ i % 1024 := fun i _ _ => by omega
          refine hI.empty j hge (by omega) ?_ ?_
          · by_contra hne
            obtain ⟨i, h1, h2, h3⟩ := hat.slots.inside _ (.inl hne)
            exact hoff i h1 h2 h3
          · by_contra hne
            obtain ⟨i, h1, h2, h3⟩ := hat.slots.inside _ (.inr hne)
            exact hoff i h1 h2 h3
      · exact fun j hj hlt => hI.pdu j (haa'.trans hj) hlt
      · exact fun j hj hlt => hI.empty j (haa'.trans hj) hlt
  · obtain ⟨haj, hI⟩ := hI
    obtain ⟨i, hri, hik, hi, hij⟩ := (hnacks _).1 hmem
    obtain rfl : j = i := by omega
    rw [nackSn]
    cases hT : (tx₁.txedBuffer (j % 1024)).pdu with
    | some pdu => exact ⟨haj.trans (Nat.le_succ j), hI.move hT rfl⟩
    | none =>
      cases hX : (tx₁.retxBuffer (j % 1024)).pdu with
      | some pdu => exact ⟨haj.trans (Nat.le_succ j), hI⟩
      | none => exact absurd (hI.empty j haj hjs hT hX) hi
  · obtain ⟨haj, hI⟩ := hI
    have hgot : j ∈ got := by
      rcases lt_or_ge j r with hlt | hge
      · exact hbelow j hlt
      · by_contra hno
        exact hmem ((hnacks _).2 ⟨j, hge, hjk, hno, rfl⟩)
    obtain ⟨tx', hok', -, hT, hX, hkeep, -⟩ := hat.ackSn (j := j)
    obtain rfl : tx₂ = tx' := Except.ok.inj (hok.symm.trans hok')
    exact ⟨haj.trans (Nat.le_succ j), hI.ack hadd haj hjs hgot hT hX hkeep⟩

end sending

/-! ## The receiving side -/

section receiving
variable {P P' : Nat → DataPdu Nat} {pos pos' : Nat → Pos Nat} {s s' r h j : Nat}
  {sdus sdus' : List (List Nat)} {txBuffer : List (Segment Nat)} {rx : AmRx Nat} {pdu : AmPdu Nat}

/-- The PDUs that have been received. -/
def received (rx : AmRx Nat) (r : Nat) : Set Nat :=
  { j | j < r ∨ j < r + amWindowSize ∧ rx.rxonBuffer (j % 1024) ≠ none }

/-- The receiving side: its window, and PDUs of the stream in its buffer; all before `VR(R)` has
been put together. -/
structure Receiving (rx : AmRx Nat) (sdus : List (List Nat)) (pos : Nat → Pos Nat)
    (P : Nat → DataPdu Nat) (s r h : Nat) : Prop where
  rxAt : ∃ ms x, RxAt rx r ms h x
  le : h ≤ s
  pdu : ∀ j, r < j → j < h → ∀ p, rx.rxonBuffer (j % 1024) = some p → p.toDataPdu = P j
  holds : HoldsAll sdus (pos r) rx.reassembler
  expected : rx.reassembler.expectedSeqNumber = r % 1024

section
variable (hr : Receiving rx sdus pos P s r h)
include hr

theorem Receiving.r_le : r ≤ h := by
  obtain ⟨ms, x, hrx⟩ := hr.rxAt
  exact hrx.le_ms.trans hrx.ms_le

theorem Receiving.missing : r ∉ received rx r := by
  obtain ⟨ms, x, hrx⟩ := hr.rxAt
  have hh := hrx.h_le
  rw [amWindowSize] at hh
  rintro (hlt | ⟨-, hne⟩)
  · exact absurd hlt (lt_irrefl r)
  · obtain ⟨k, h1, h2, h3⟩ := hrx.buffer _ hne
    omega

theorem Receiving.extend (hstream : Stream sdus txBuffer pos P s)
    (hext : Extends sdus pos P s sdus' pos' P' s') : Receiving rx sdus' pos' P' s' r h := by
  have hrs : r ≤ s := hr.r_le.trans hr.le
  refine ⟨hr.rxAt, hr.le.trans hext.le, fun j hj hlt p hp => ?_, ?_, hr.expected⟩
  · rw [hext.pdu j (hlt.trans_le hr.le)]
    exact hr.pdu j hj hlt p hp
  · rw [hext.pos r hrs]
    exact hr.holds.mono hext.sdus (hstream.le hrs)

end

theorem requestStatus_buffer : (requestStatus rx pdu).rxonBuffer = rx.rxonBuffer ∧
    (requestStatus rx pdu).reassembler = rx.reassembler := by
  rw [requestStatus]
  split
  · exact ⟨rfl, rfl⟩
  · exact ⟨rfl, rfl⟩

/-- A PDU of the stream is received: it is old, or it is placed in the window. -/
theorem Receiving.data (pdu : AmPdu Nat) (hr : Receiving rx sdus pos P s r h)
    (hstream : Stream sdus txBuffer pos P s) (hjs : j < s) (hpdu : pdu.toDataPdu = P j)
    (hs : s ≤ r + amWindowSize) (hold : h ≤ j + amWindowSize) :
    ∃ rx' r' h', receiveDataPdu rx pdu = .ok rx' ∧ Receiving rx' sdus pos P s r' h' ∧
      (h' = h ∨ h' = j + 1) ∧ r ≤ r' ∧ received rx r ⊆ received rx' r' := by
  have hw : amWindowSize = 512 := rfl
  obtain ⟨ms, x, hrx⟩ := hr.rxAt
  have hrh := hr.r_le
  have hsn : pdu.sequenceNumber = j % 1024 := by
    rw [hpdu]
    exact hstream.number j hjs
  rcases lt_or_ge j r with hlt | hge
  · -- one that was received before: its number stands for one behind the window
    have hout := receiveDataPdu_outside pdu (k := j + 1024) hrx (by omega) (by omega) (by omega)
    refine ⟨_, r, h, hout, ⟨⟨ms, x, (hrx.requestStatus pdu).windowBases⟩, hr.le, ?_, ?_, ?_⟩,
      .inl rfl, le_rfl, ?_⟩
    · simp only [AmRx.windowBases, requestStatus_buffer.1]
      exact hr.pdu
    · simp only [AmRx.windowBases, requestStatus_buffer.2]
      exact hr.holds
    · simp only [AmRx.windowBases, requestStatus_buffer.2]
      exact hr.expected
    · simp only [received, AmRx.windowBases, requestStatus_buffer.1]
      exact le_rfl
  · have hin : j < r + amWindowSize := by omega
    have hplaced : ∀ i, r ≤ i → i < r + amWindowSize → ∀ p, placed rx pdu j (i % 1024) = some p →
        i < s ∧ p.toDataPdu = P i := by
      intro i hi hlt p hp
      have hbuffer : rx.rxonBuffer (i % 1024) = some p → i < s ∧ p.toDataPdu = P i := by
        intro hb
        obtain ⟨k, h1, h2, h3⟩ := hrx.buffer (i % 1024) (by rw [hb]; exact some_ne_none p)
        have hh := hrx.h_le
        obtain rfl : i = k := by omega
        exact ⟨h2.trans_le hr.le, hr.pdu i h1 h2 p hb⟩
      rw [placed] at hp
      split at hp
      · next heq =>
        obtain rfl : i = j := by omega
        rcases or_eq_some_iff.1 hp with hb | ⟨-, hb⟩
        · exact hbuffer hb
        · rw [← some.inj hb]
          exact ⟨hjs, hpdu⟩
      · exact hbuffer hp
    have hspec := spec_receiveDataPdu (E := fun _ => False) (k := j)
      (Q := fun i rs => HoldsAll sdus (pos i) rs ∧ rs.expectedSeqNumber = i % 1024) pdu hrx
      (by omega) hge hin
      (fun i p rs hi hlt hp hrs => ?_) ⟨hr.holds, hr.expected⟩
    · cases hrun : receiveDataPdu rx pdu with
      | error e => exact (hspec.error hrun).elim
      | ok rx' =>
        obtain ⟨r', hmoved, hholds, hexp⟩ := hspec.ok hrun
        obtain ⟨ms', h', x', hrx', htop⟩ := hmoved.rxAt
        have hle := hmoved.le
        have hle' : h' ≤ s := by
          rcases htop with rfl | rfl
          · exact hr.le
          · exact hjs
        refine ⟨rx', r', h', rfl, ⟨⟨ms', x', hrx'⟩, hle', fun i hi hlt p hp => ?_, hholds, hexp⟩,
          htop, hle, fun i hi => ?_⟩
        · rw [hmoved.kept i hi.le (by omega)] at hp
          exact (hplaced i (by omega) (by omega) p hp).2
        · rcases hi with hlt | ⟨hlt, hne⟩
          · exact .inl (hlt.trans_le hle)
          · rcases lt_or_ge i r' with hlt' | hge'
            · exact .inl hlt'
            · refine .inr ⟨by omega, ?_⟩
              rw [hmoved.kept i hge' (by omega), placed]
              split
              · cases hb : rx.rxonBuffer (i % 1024) with
                | none => exact absurd hb hne
                | some p => exact some_ne_none p
              · exact hne
    · obtain ⟨his, hp⟩ := hplaced i hi hlt p hp
      obtain ⟨rs', h1, h2, h3⟩ := hrs.1.next true (hstream.pdu i his) (by
        rw [hrs.2]
        exact hstream.number i his)
      rw [hp, h1]
      refine ⟨h2, ?_⟩
      rw [h3, hstream.number i his]
      omega

theorem Receiving.expire (hr : Receiving rx sdus pos P s r h) (htimer : rx.reorderingTimer = true) :
    ∃ rx', expireReorderingTimer rx = .ok rx' ∧ Receiving rx' sdus pos P s r h ∧
      received rx' r = received rx r := by
  obtain ⟨ms, x, hrx⟩ := hr.rxAt
  obtain ⟨rx', ms', x', hok, hrx', hbuf, hrs⟩ := hrx.expire htimer
  refine ⟨rx', hok, ⟨⟨ms', x', hrx'⟩, hr.le, ?_, ?_, ?_⟩, ?_⟩
  · rw [hbuf]
    exact hr.pdu
  · rw [hrs]
    exact hr.holds
  · rw [hrs]
    exact hr.expected
  · rw [received, hbuf]
    rfl

theorem Receiving.status {bytes : Nat} (hr : Receiving rx sdus pos P s r h) (hbytes : 7 ≤ bytes) :
    ∃ rx' st, sendStatusPdu rx bytes = .ok (rx', st) ∧ Receiving rx' sdus pos P s r h ∧
      received rx' r = received rx r ∧ Reports s (received rx r) st := by
  have hw : amWindowSize = 512 := rfl
  obtain ⟨ms, x, hrx⟩ := hr.rxAt
  have hms := hrx.ms_le
  have hh := hrx.h_le
  have hsize := hrx.size
  obtain ⟨k, nacks, hok, hrk, hkm, hnacks⟩ := buildStatusPdu_eq hrx bytes
  rw [sendStatusPdu, if_neg (by omega), hok]
  refine ⟨_, _, rfl, ⟨⟨ms, x, { hrx with size := Nat.zero_le 4 }⟩, hr.le, hr.pdu, hr.holds,
    hr.expected⟩, rfl, r, k, fun j hj => .inl hj, hr.missing, hrk,
    (hkm.trans hms).trans hr.le, by omega, rfl, fun v => ?_⟩
  rw [hnacks v]
  have hiff : ∀ j, r ≤ j → j < k → (rx.rxonBuffer (j % 1024) = none ↔ j ∉ received rx r) := by
    intro j hj hlt
    constructor
    · rintro hnone (hlt' | ⟨-, hne⟩)
      · exact absurd hlt' (not_lt.2 hj)
      · exact hne hnone
    · intro hno
      by_contra hne
      exact hno (.inr ⟨by omega, hne⟩)
  constructor
  · rintro ⟨j, h1, h2, h3, h4⟩
    exact ⟨j, h1, h2, (hiff j h1 h2).1 h3, h4⟩
  · rintro ⟨j, h1, h2, h3, h4⟩
    exact ⟨j, h1, h2, (hiff j h1 h2).2 h3, h4⟩

end receiving

/-! ## The entities -/

section entities
variable {P : Nat → DataPdu Nat} {pos : Nat → Pos Nat} {a s r h : Nat} {lo : Set Nat}
  {sdus : List (List Nat)} {c : AmConfig} {e : Am Nat} {action : AmAction Nat}

theorem Am.report_rx {α : Type} {s : Am α} : s.report.rx = s.rx := by
  simp only [Am.report]
  split <;> rfl

theorem Am.expireBsrTimer_same : (if e.bsrTimer then e.expireBsrTimer else e).tx = e.tx ∧
    (if e.bsrTimer then e.expireBsrTimer else e).rx = e.rx := by
  rw [Am.expireBsrTimer]
  split
  · split
    · exact ⟨Am.report_tx, Am.report_rx⟩
    · exact ⟨rfl, rfl⟩
  · exact ⟨rfl, rfl⟩

/-- An action at the transmitting entity, whose receiving side is not used. -/
theorem Sending.act (h : Sending e.tx pos P a s lo) (hrx : e.rx = {}) (hok : SenderOk action)
    (hshort : SendsShort e.tx (.sender action)) :
    Spec (fun _ => False) (fun r => r.1.rx = {} ∧
        ∃ pos' P' s', Extends e.tx.accepted pos P s r.1.tx.accepted pos' P' s' ∧
        Sending r.1.tx pos' P' a s' lo ∧
        ∀ o, r.2 = some o → ∃ pdu j, o = .data pdu ∧ a ≤ j ∧ j < s' ∧ pdu.toDataPdu = P' j)
      (e.act c action) := by
  have hnone : ∀ o : AmOutput Nat, none = some o →
      ∃ pdu j, o = .data pdu ∧ a ≤ j ∧ j < s ∧ pdu.toDataPdu = P j := fun o ho => by cases ho
  cases action with
  | wait ns => exact ⟨hrx, pos, P, s, .refl, h, hnone⟩
  | transmitPdcpPdu p =>
    obtain ⟨hsend, hacc⟩ := h.submit c e.now hok
    refine ⟨?_, pos, P, s, ?_⟩
    · show (Am.report _).rx = {}
      rw [Am.report_rx]
      exact hrx
    · show Extends _ _ _ _ (Am.report _).tx.accepted _ _ _ ∧ Sending (Am.report _).tx _ _ _ _ _ ∧ _
      rw [Am.report_tx]
      exact ⟨⟨hacc, le_rfl, fun _ _ => rfl, fun _ _ => rfl⟩, hsend, hnone⟩
  | notifyTxOpportunity bytes =>
    have hbytes : 7 ≤ bytes := hok
    have hdue : ¬ e.rx.statusDue = true := by
      rw [hrx]
      exact Bool.false_ne_true
    rw [Am.act, Am.notifyTxOpportunity, if_neg (by omega), if_neg hdue]
    refine Spec.map (Spec.bind (h.opportunity hbytes hshort) fun r hr => ?_)
    obtain ⟨pos', P', s', hext, hsend, hout⟩ := hr
    have hpass : passPdu r = .ok r := passPdu_eq fun am ham => by
      obtain ⟨j, -, hj, hpdu⟩ := hout am ham
      rw [hpdu]
      exact ⟨hsend.stream.header j hj, hsend.short j hj⟩
    rw [hpass]
    refine ⟨hrx, pos', P', s', hext, hsend, fun o ho => ?_⟩
    obtain ⟨pdu, hpdu, rfl⟩ := map_eq_some_iff.1 ho
    obtain ⟨j, h1, h2, h3⟩ := hout pdu hpdu
    exact ⟨pdu, j, rfl, h1, h2, h3⟩
  | receivePdu pdu => exact hok.elim
  | expireReorderingTimer =>
    rw [Am.act, hrx]
    exact ⟨hrx, pos, P, s, .refl, h, hnone⟩
  | expirePollRetransmitTimer =>
    rw [Am.act]
    split
    · obtain ⟨tx', hok', hsend, hsame⟩ := h.expirePoll
      rw [hok']
      refine ⟨?_, pos, P, s, ?_⟩
      · show (Am.report _).rx = {}
        rw [Am.report_rx]
        exact hrx
      · show Extends _ _ _ _ (Am.report _).tx.accepted _ _ _ ∧ Sending (Am.report _).tx _ _ _ _ _ ∧
          _
        rw [Am.report_tx, hsame.accepted]
        exact ⟨.refl, hsend, hnone⟩
    · exact ⟨hrx, pos, P, s, .refl, h, hnone⟩
  | expireStatusProhibitTimer =>
    refine ⟨?_, pos, P, s, .refl, h, hnone⟩
    show { e.rx with statusProhibitTimer := false } = ({} : AmRx Nat)
    rw [hrx]
  | expireBsrTimer =>
    have hsame := Am.expireBsrTimer_same (e := e)
    refine ⟨hsame.2.trans hrx, pos, P, s, ?_, ?_, hnone⟩
    · show Extends _ _ _ _ (if e.bsrTimer then e.expireBsrTimer else e).tx.accepted _ _ _
      rw [hsame.1]
      exact .refl
    · show Sending (if e.bsrTimer then e.expireBsrTimer else e).tx _ _ _ _ _
      rw [hsame.1]
      exact h

/-- An action at the receiving entity, whose transmitting side is not used. -/
theorem Receiving.act (hr : Receiving e.rx sdus pos P s r h) (htx : e.tx = {})
    (hok : ReceiverOk action) :
    Spec (fun _ => False) (fun r' => r'.1.tx = {} ∧ Receiving r'.1.rx sdus pos P s r h ∧
        received r'.1.rx r = received e.rx r ∧
        ∀ o, r'.2 = some o → ∃ st, o = .status st ∧ Reports s (received e.rx r) st)
      (e.act c action) := by
  have hnone : ∀ o : AmOutput Nat, none = some o →
      ∃ st, o = .status st ∧ Reports s (received e.rx r) st := fun o ho => by cases ho
  cases action with
  | wait ns => exact ⟨htx, hr, rfl, hnone⟩
  | transmitPdcpPdu p => exact hok.elim
  | notifyTxOpportunity bytes =>
    have hbytes : 7 ≤ bytes := hok
    rw [Am.act, Am.notifyTxOpportunity, if_neg (by omega)]
    split
    · obtain ⟨rx', st, hok', hr', hrec, hst⟩ := hr.status hbytes
      rw [hok']
      refine ⟨htx, hr', hrec, fun o ho => ?_⟩
      obtain rfl := some.inj ho
      exact ⟨st, rfl, hst⟩
    · rw [htx]
      exact ⟨rfl, hr, rfl, hnone⟩
  | receivePdu pdu => exact hok.elim
  | expireReorderingTimer =>
    rw [Am.act]
    split
    · next htimer =>
      obtain ⟨rx', hok', hr', hrec⟩ := hr.expire htimer
      rw [hok']
      exact ⟨htx, hr', hrec, hnone⟩
    · exact ⟨htx, hr, rfl, hnone⟩
  | expirePollRetransmitTimer =>
    rw [Am.act, htx]
    exact ⟨htx, hr, rfl, hnone⟩
  | expireStatusProhibitTimer =>
    obtain ⟨ms, x, hrx⟩ := hr.rxAt
    exact ⟨htx, ⟨⟨ms, x, { hrx with size := hrx.size }⟩, hr.le, hr.pdu, hr.holds, hr.expected⟩, rfl,
      hnone⟩
  | expireBsrTimer =>
    have hsame := Am.expireBsrTimer_same (e := e)
    refine ⟨hsame.1.trans htx, ?_, ?_, hnone⟩
    · show Receiving (if e.bsrTimer then e.expireBsrTimer else e).rx _ _ _ _ _ _
      rw [hsame.2]
      exact hr
    · show received (if e.bsrTimer then e.expireBsrTimer else e).rx r = _
      rw [hsame.2]

end entities

/-! ## Packets in flight -/

section flight
variable {P P' : Nat → DataPdu Nat} {s s' h h' j : Nat} {fs : List (Nat × Bool)}
  {channel : List (List Nat)}

/-- The packet of the `j`-th PDU, with its polling bit. -/
def packetOf (P : Nat → DataPdu Nat) (f : Nat × Bool) : List Nat :=
  AmOutput.packet (.data ⟨P f.1, f.2⟩)

/-- The data PDUs in flight: none of them, and none behind it, is more than a window older than what
has been received. -/
structure DataInFlight (P : Nat → DataPdu Nat) (s h : Nat) (fs : List (Nat × Bool))
    (channel : List (List Nat)) : Prop where
  packets : channel = fs.map (packetOf P)
  sent : ∀ f ∈ fs, f.1 < s
  recent : ∀ f ∈ fs, h ≤ f.1 + amWindowSize
  spread : fs.Pairwise fun f g => f.1 + 1 ≤ g.1 + amWindowSize

section
variable (hfs : DataInFlight P s h fs channel)
include hfs

theorem DataInFlight.extend (hs : s ≤ s')
    (hP : ∀ j, j < s → P' j = P j) : DataInFlight P' s' h fs channel := by
  refine ⟨?_, fun f hf => (hfs.sent f hf).trans_le hs, hfs.recent, hfs.spread⟩
  rw [hfs.packets]
  refine map_congr_left fun f hf => ?_
  rw [packetOf, packetOf, hP f.1 (hfs.sent f hf)]

theorem DataInFlight.send {polls : Bool} (hj : j < s) (hs : s ≤ j + amWindowSize) (hh : h ≤ s) :
    DataInFlight P s h (fs ++ [(j, polls)]) (channel ++ [packetOf P (j, polls)]) := by
  refine ⟨?_, fun f hf => ?_, fun f hf => ?_, ?_⟩
  · rw [hfs.packets, map_append]
    rfl
  · rcases mem_append.1 hf with hf | hf
    · exact hfs.sent f hf
    · obtain rfl := mem_singleton.1 hf
      exact hj
  · rcases mem_append.1 hf with hf | hf
    · exact hfs.recent f hf
    · obtain rfl := mem_singleton.1 hf
      exact hh.trans hs
  · refine pairwise_append.2 ⟨hfs.spread, pairwise_singleton _ _, fun f hf g hg => ?_⟩
    obtain rfl := mem_singleton.1 hg
    exact (Nat.succ_le_of_lt (hfs.sent f hf)).trans hs

theorem DataInFlight.lose (i : Nat) : DataInFlight P s h (fs.eraseIdx i) (channel.eraseIdx i) := by
  have hsub : Sublist (fs.eraseIdx i) fs := eraseIdx_sublist fs i
  refine ⟨?_, fun f hf => hfs.sent f (hsub.subset hf), fun f hf => hfs.recent f (hsub.subset hf),
    hfs.spread.sublist hsub⟩
  rw [hfs.packets, eraseIdx_map]

end

theorem DataInFlight.receive {f : Nat × Bool} (hfs : DataInFlight P s h (f :: fs) channel)
    (hh : h' = h ∨ h' = f.1 + 1) : DataInFlight P s h' fs (fs.map (packetOf P)) := by
  obtain ⟨hfirst, hspread⟩ := pairwise_cons.1 hfs.spread
  refine ⟨rfl, fun g hg => hfs.sent g (mem_cons_of_mem f hg), fun g hg => ?_, hspread⟩
  rcases hh with rfl | rfl
  · exact hfs.recent g (mem_cons_of_mem f hg)
  · exact hfirst g hg

end flight

/-! ## Runs -/

section runs
variable {c : AmConfig} {l : AmLink} {action : LinkAction}

/-- The state of the system in numbers without wrapping. -/
structure Linked (l : AmLink) (pos : Nat → Pos Nat) (P : Nat → DataPdu Nat) (a s r h : Nat)
    (lo : Set Nat) (fs : List (Nat × Bool)) (sts : List StatusPdu) : Prop where
  sending : Sending l.sender.tx pos P a s lo
  senderRx : l.sender.rx = {}
  receiving : Receiving l.receiver.rx l.sender.tx.accepted pos P s r h
  receiverTx : l.receiver.tx = {}
  data : DataInFlight P s h fs l.dataChannel
  statusPackets : l.statusChannel = sts.map fun st => AmOutput.packet (.status st)
  status : Channel.Ascends (Reports s) lo sts (received l.receiver.rx r)

variable {pos P a s r h lo fs sts}

theorem Linked.window (hl : Linked l pos P a s r h lo fs sts) : a ≤ r ∧ s ≤ r + amWindowSize := by
  have har : a ≤ r := by
    by_contra hlt
    exact hl.receiving.missing (hl.status.le (hl.sending.holding.below r (Nat.lt_of_not_le hlt)))
  exact ⟨har, hl.sending.txAt.le_add.trans (Nat.add_le_add_right har _)⟩

/-- The system is in such a state. -/
def IsLinked (l : AmLink) : Prop := ∃ pos P a s r h lo fs sts, Linked l pos P a s r h lo fs sts

section
variable (hl : Linked l pos P a s r h lo fs sts)
include hl

theorem Linked.sender {action : AmAction Nat}
    (hok : SenderOk action) (hshort : SendsShort l.sender.tx (.sender action)) :
    Spec (fun _ => False) IsLinked (l.act c (.sender action)) := by
  refine Spec.map ((hl.sending.act (c := c) hl.senderRx hok hshort).imp fun e he => ?_)
  obtain ⟨hrx, pos', P', s', hext, hsend, hout⟩ := he
  have hreceiving := hl.receiving.extend hl.sending.stream hext
  have hdata := hl.data.extend hext.le hext.pdu
  have hstatus := hl.status.imp fun _ _ hst => hst.mono hext.le
  cases ho : e.2 with
  | none =>
    refine ⟨pos', P', a, s', r, h, lo, fs, sts, hsend, hrx, hreceiving, hl.receiverTx, ?_,
      hl.statusPackets, hstatus⟩
    rw [sendPacket, map_none, toList_none, append_nil]
    exact hdata
  | some o =>
    obtain ⟨pdu, j, rfl, haj, hjs, hpdu⟩ := hout o ho
    refine ⟨pos', P', a, s', r, h, lo, fs ++ [(j, pdu.pollingBit)], sts, hsend, hrx, hreceiving,
      hl.receiverTx, ?_, hl.statusPackets, hstatus⟩
    have hpacket : AmOutput.packet (.data pdu) = packetOf P' (j, pdu.pollingBit) := by
      rw [packetOf, ← hpdu]
    rw [sendPacket, map_some, toList_some, hpacket]
    exact hdata.send hjs (hsend.txAt.le_add.trans (Nat.add_le_add_right haj _)) hreceiving.le

theorem Linked.receiver {action : AmAction Nat} (hok : ReceiverOk action) :
    Spec (fun _ => False) IsLinked (l.act c (.receiver action)) := by
  refine Spec.map ((hl.receiving.act (c := c) hl.receiverTx hok).imp fun e he => ?_)
  obtain ⟨htx, hreceiving, hrec, hout⟩ := he
  cases ho : e.2 with
  | none =>
    refine ⟨pos, P, a, s, r, h, lo, fs, sts, hl.sending, hl.senderRx, hreceiving, htx, hl.data, ?_,
      ?_⟩
    · rw [sendPacket, map_none, toList_none, append_nil]
      exact hl.statusPackets
    · show Channel.Ascends (Reports s) lo sts (received e.1.rx r)
      rw [hrec]
      exact hl.status
  | some o =>
    obtain ⟨st, rfl, hst⟩ := hout o ho
    refine ⟨pos, P, a, s, r, h, lo, fs, sts ++ [st], hl.sending, hl.senderRx, hreceiving, htx,
      hl.data, ?_, ?_⟩
    · rw [sendPacket, hl.statusPackets, map_append]
      rfl
    · show Channel.Ascends (Reports s) lo (sts ++ [st]) (received e.1.rx r)
      rw [hrec]
      exact hl.status.send hst

theorem Linked.deliverData : Spec (fun _ => False) IsLinked (l.act c .deliverData) := by
  cases fs with
  | nil =>
    have hempty : l.dataChannel = [] := hl.data.packets
    rw [AmLink.act, hempty]
    exact ⟨pos, P, a, s, r, h, lo, [], sts, hl⟩
  | cons f fs =>
    have hpackets : l.dataChannel = packetOf P f :: fs.map (packetOf P) := hl.data.packets
    have hf : f.1 < s := hl.data.sent f mem_cons_self
    have hread : readPacket (packetOf P f) = .ok (.data ⟨P f.1, f.2⟩) :=
      readPacket_data ⟨P f.1, f.2⟩ (hl.sending.stream.header f.1 hf) (by
        have hfew := hl.sending.short f.1 hf
        show 4 + liLength (P f.1).lengthIndicators.length < 2 ^ 16
        rw [liLength]
        omega)
    obtain ⟨rx', r', h', hok, hreceiving, htop, -, hrec⟩ := hl.receiving.data ⟨P f.1, f.2⟩
      hl.sending.stream hf rfl hl.window.2 (hl.data.recent f mem_cons_self)
    rw [AmLink.act, hpackets]
    simp only [Am.receivePacket, hread, ok_bind, Am.receivePdu, hok]
    refine ⟨pos, P, a, s, r', h', lo, fs, sts, hl.sending, hl.senderRx, hreceiving, ?_,
      hl.data.receive htop, hl.statusPackets, hl.status.raise hrec⟩
    show (if _ then _ else _ : Am Nat).tx = {}
    split
    · rw [Am.report_tx]
      exact hl.receiverTx
    · exact hl.receiverTx

theorem Linked.deliverStatus : Spec (fun _ => False) IsLinked (l.act c .deliverStatus) := by
  cases sts with
  | nil =>
    have hempty : l.statusChannel = [] := hl.statusPackets
    rw [AmLink.act, hempty]
    exact ⟨pos, P, a, s, r, h, lo, fs, [], hl⟩
  | cons st sts =>
    have hpackets : l.statusChannel =
        AmOutput.packet (.status st) :: sts.map fun st => AmOutput.packet (.status st) :=
          hl.statusPackets
    obtain ⟨got, hle, hst, hstatus⟩ := hl.status
    obtain ⟨tx', a', hok, hsend, hsame⟩ := hl.sending.receiveStatus hle hst
    rw [AmLink.act, hpackets]
    simp only [Am.receivePacket, readPacket_status hst.header_ok, ok_bind, Am.receivePdu, hok]
    refine ⟨pos, P, a', s, r, h, got, fs, sts, hsend, hl.senderRx, ?_, hl.receiverTx, hl.data, rfl,
      hstatus⟩
    show Receiving l.receiver.rx tx'.accepted pos P s r h
    rw [hsame.accepted]
    exact hl.receiving

end

theorem IsLinked.act (hl : IsLinked l) (hok : LinkShort l action) :
    Spec (fun _ => False) IsLinked (l.act c action) := by
  obtain ⟨pos, P, a, s, r, h, lo, fs, sts, hl⟩ := hl
  cases action with
  | sender action => exact hl.sender hok.1 hok.2
  | receiver action => exact hl.receiver hok.1
  | deliverData => exact hl.deliverData
  | deliverStatus => exact hl.deliverStatus
  | loseData i =>
    exact ⟨pos, P, a, s, r, h, lo, fs.eraseIdx i, sts, hl.sending, hl.senderRx, hl.receiving,
      hl.receiverTx, hl.data.lose i, hl.statusPackets, hl.status⟩
  | loseStatus i =>
    refine ⟨pos, P, a, s, r, h, lo, fs, sts.eraseIdx i, hl.sending, hl.senderRx, hl.receiving,
      hl.receiverTx, hl.data, ?_, hl.status.lose⟩
    show l.statusChannel.eraseIdx i = _
    rw [hl.statusPackets, eraseIdx_map]

theorem isLinked_init : IsLinked {} := by
  refine ⟨fun _ => ⟨0, []⟩, fun _ => ⟨0, ⟨true, true⟩, [], [], []⟩, 0, 0, 0, 0, ∅, [], [],
    ⟨txAt_init, ?_, fun j hj => absurd hj (Nat.not_lt_zero j), ?_⟩, rfl,
    ⟨⟨0, 0, rxAt_init⟩, le_rfl, ?_, ?_, rfl⟩, rfl, ⟨rfl, ?_, ?_, ?_⟩, rfl, ?_⟩
  · exact ⟨not_mem_nil, rfl, fun j hj => absurd hj (Nat.not_lt_zero j),
      fun j hj => absurd hj (Nat.not_lt_zero j), fun j hj => absurd hj (Nat.not_lt_zero j), .nil⟩
  · exact ⟨fun j hj => absurd hj (Nat.not_lt_zero j), fun j _ hj => absurd hj (Nat.not_lt_zero j),
      fun j _ hj => absurd hj (Nat.not_lt_zero j)⟩
  · exact fun j _ hj => absurd hj (Nat.not_lt_zero j)
  · exact ⟨rfl, rfl, fun _ => rfl, fun h => absurd rfl h⟩
  · exact forall_mem_nil _
  · exact forall_mem_nil _
  · exact Pairwise.nil
  · exact Set.empty_subset _

/-- In every run of the two entities in which headers are shorter than `2 ^ 16` bytes, whatever the
channels lose, the SDUs delivered are a prefix of those accepted, and no action trips an assertion.
-/
theorem delivered_prefix_of_run (c : AmConfig) (l : AmLink)
    (hrun : Lts.Run (LinkStep c) LinkShort {} l) :
    l.receiver.rx.reassembler.delivered <+: l.sender.tx.accepted ∧
      ∀ action, LinkShort l action → ∃ l', l.act c action = .ok l' := by
  have hinv : IsLinked l :=
    Lts.Run.invariant (I := IsLinked) (fun hl hok hst => (hl.act hok).ok hst) isLinked_init hrun
  refine ⟨?_, fun action hok => ?_⟩
  · obtain ⟨pos, P, a, s, r, h, lo, fs, sts, hl⟩ := hinv
    rw [hl.receiving.holds.delivered]
    exact take_prefix _ _
  · cases hact : l.act c action with
    | error e => exact ((hinv.act hok).error hact).elim
    | ok l' => exact ⟨l', rfl⟩

/-- The first transmission of an SDU is lost, and the second one acknowledged. -/
theorem delivered_after_loss : ∃ l : AmLink, Lts.Run (LinkStep {}) LinkShort {} l ∧
    l.receiver.rx.reassembler.delivered = [[1, 2, 3]] ∧ l.sender.tx.vtA.value = 1 ∧
    l.receiver.rx.reassembler.delivered <+: l.sender.tx.accepted := by
  have hrun : ∃ l : AmLink, Lts.execs LinkShort (fun l a => (l.act {} a).toOption) {}
      [.sender (.transmitPdcpPdu [1, 2, 3]), .sender (.notifyTxOpportunity 7), .loseData 0,
        .sender .expirePollRetransmitTimer, .sender (.notifyTxOpportunity 7), .deliverData,
        .receiver (.notifyTxOpportunity 7), .deliverStatus] = some l ∧
      l.receiver.rx.reassembler.delivered = [[1, 2, 3]] ∧ l.sender.tx.vtA.value = 1 :=
    ⟨_, rfl, rfl, rfl⟩
  obtain ⟨l, hl, hdelivered, hacked⟩ := hrun
  have hstep : ∀ {l : AmLink} {a l'}, (l.act {} a).toOption = some l' → LinkStep {} l a l' :=
    ok_of_toOption
  have hrun := Lts.run_of_execs hstep hl
  exact ⟨l, hrun, hdelivered, hacked, (delivered_prefix_of_run {} l hrun).1⟩

/-! ## A header that is too long -/

/-- An unlimited buffer takes any number of SDUs of two bytes. -/
theorem submit_short_sdus (n : Nat) : ∃ e : Am Nat,
    Lts.Run (LinkStep { maxTxBufferSize := 0 }) LinkOk {} { sender := e } ∧ e.now = 0 ∧ e.rx = {} ∧
      e.tx = { txonBuffer := replicate n ⟨⟨[9, 9], .fullSdu⟩, 0⟩
               txonBufferSize := 2 * n % 2 ^ 32
               accepted := replicate n [9, 9] } := by
  induction n with
  | zero => exact ⟨{}, Lts.Run.refl _, rfl, rfl, rfl⟩
  | succ n ih =>
    obtain ⟨e, hrun, hnow, hrx, htx⟩ := ih
    have hstep : LinkStep { maxTxBufferSize := 0 } { sender := e }
      (.sender (.transmitPdcpPdu [9, 9]))
        { sender := e.transmitPdcpPdu { maxTxBufferSize := 0 } [9, 9] } := rfl
    have hok : LinkOk { sender := e } (.sender (.transmitPdcpPdu [9, 9])) := cons_ne_nil _ _
    refine ⟨_, hrun.snoc hok hstep, ?_, ?_, ?_⟩
    · show (Am.report _).now = 0
      rw [Am.report]
      split <;> exact hnow
    · show (Am.report _).rx = _
      rw [Am.report_rx]
      exact hrx
    · show (Am.report _).tx = _
      rw [Am.report_tx]
      show amTransmitPdcpPdu { maxTxBufferSize := 0 } e.tx e.now [9, 9] = _
      rw [hnow, htx, amTransmitPdcpPdu, if_pos (.inr rfl)]
      simp only [add32_mod rfl, length_cons, length_nil, ← replicate_succ', Nat.mul_succ]

/-- The first opportunity sends all of them. -/
theorem amTxOpportunity_first {tx : AmTx Nat} {first : TxPdu Nat} {rest : List (TxPdu Nat)}
    {fi : FramingInfo} {bytes : Nat} (c : AmConfig) (accepted : List (List Nat))
    (hbytes : 7 ≤ bytes)
    (htx : tx = { txonBuffer := first :: rest, txonBufferSize := tx.txonBufferSize, accepted })
    (hsize : 0 < tx.txonBufferSize)
    (hfi : framingInfoOf (buildDataField (bytes - 4) first rest tx.txonBufferSize).dataField =
      .ok fi) :
    ∃ tx', amTxOpportunity c tx 0 bytes =
      .ok (tx', some ⟨pduOf 0 (buildDataField (bytes - 4) first rest tx.txonBufferSize) fi, true⟩) ∧
        tx'.accepted = accepted := by
  generalize tx.txonBufferSize = size at htx hsize hfi ⊢
  subst htx
  have hroom : ¬ bytes < 7 := by omega
  simp only [amTxOpportunity, gt_iff_lt, lt_irrefl, if_false, hsize, if_true, hroom]
  exact ⟨_, by
    show (framingInfoOf _ >>= _) = _
    rw [hfi]
    rfl, rfl⟩

/-- The first PDU is put together. -/
theorem receiveDataPdu_first {pdu : AmPdu Nat} {rs : Reassembler Nat} (hsn : pdu.sequenceNumber = 0)
    (hrs : reassembleAndDeliver true {} pdu.toDataPdu = .ok rs) :
    ∃ rx, receiveDataPdu {} pdu = .ok rx ∧ rx.reassembler = rs := by
  have hspec := spec_receiveDataPdu (E := fun _ => False) (k := 0)
    (Q := fun j rs' => rs' = if j = 0 then {} else rs) pdu rxAt_init (by rw [hsn]) le_rfl
    (by decide)
    (fun j p rs' _ hj hp hrs' => ?_) rfl
  · cases hrun : receiveDataPdu {} pdu with
    | error e => exact (hspec.error hrun).elim
    | ok rx =>
      obtain ⟨r', hmoved, hrs'⟩ := hspec.ok hrun
      refine ⟨rx, rfl, hrs'.trans (if_neg ?_)⟩
      rintro rfl
      -- the PDU would still stand at the lower edge of the window
      obtain ⟨ms, h, x, hat, -⟩ := hmoved.rxAt
      have hkept := hmoved.kept 0 le_rfl (by decide)
      obtain ⟨k, hk, hkh, hk'⟩ := hat.buffer (0 % 1024) (by
        rw [hkept]
        exact some_ne_none pdu)
      have hh := hat.h_le
      rw [amWindowSize] at hh
      omega
  · rw [amWindowSize] at hj
    by_cases hzero : j = 0
    · subst hzero
      obtain rfl := some.inj (show some pdu = some p from hp)
      rw [hrs', if_pos rfl, hrs]
      rfl
    · rw [placed, if_neg (by omega)] at hp
      cases hp

theorem receivePdu_first (pdu : AmPdu Nat) {rs : Reassembler Nat} (hsn : pdu.sequenceNumber = 0)
    (hrs : reassembleAndDeliver true {} pdu.toDataPdu = .ok rs) :
    ∃ e, Am.receivePdu {} (.data pdu) = .ok e ∧ e.rx.reassembler = rs := by
  obtain ⟨rx, hrx, hrs'⟩ := receiveDataPdu_first hsn hrs
  have h := congrArg (Except.map fun rx =>
    { (if pdu.pollingBit && !({} : Am Nat).rx.statusProhibitTimer then
        Am.report { rx := requestStatus {} pdu }
      else {} : Am Nat) with rx }) hrx
  exact ⟨_, h, hrs'⟩

/-- From a queue of 43690 SDUs of two bytes, an opportunity of 200000 bytes takes them all, with a
header of 65538 bytes that is counted as 2; its next two bytes are delivered as the first SDU. -/
theorem am_header_delivered : ∃ l : AmLink,
    Lts.Run (LinkStep { maxTxBufferSize := 0 }) LinkOk {} l ∧
    ¬ l.receiver.rx.reassembler.delivered <+: l.sender.tx.accepted := by
  obtain ⟨n, hn⟩ : ∃ n, n = 43689 := ⟨_, rfl⟩
  obtain ⟨e, hrun, hnow, hrx, htx⟩ := submit_short_sdus (n + 1)
  have hsize : e.tx.txonBufferSize = 2 * (n + 1) := by
    rw [htx]
    exact Nat.mod_eq_of_lt (by omega)
  -- the data field, with a length indicator for each SDU but the last
  obtain ⟨fi, hfi, hfirst, hheader, hlis, hdata⟩ := build_short_sdus n (200000 - 4)
    ⟨⟨[9, 9], .fullSdu⟩, 0⟩ (replicate n ⟨⟨[9, 9], .fullSdu⟩, 0⟩) e.tx.txonBufferSize (by omega)
    (by rw [liLength]; omega) (by rw [← replicate_succ, map_replicate, fullSdus, map_replicate])
  obtain ⟨tx', hopp, haccepted⟩ := amTxOpportunity_first { maxTxBufferSize := 0 }
    (replicate (n + 1) [9, 9]) (show 7 ≤ 200000 by omega) (by rw [htx]; rfl) (by omega) hfi
  generalize buildDataField (200000 - 4) ⟨⟨[9, 9], .fullSdu⟩,
    0⟩ (replicate n ⟨⟨[9, 9], .fullSdu⟩, 0⟩)
    e.tx.txonBufferSize = b at hopp hheader hlis hdata
  generalize hpdu : (⟨pduOf 0 b fi, true⟩ : AmPdu Nat) = pdu at hopp
  have hok : pdu.toDataPdu.header.Ok := by rw [← hpdu]; exact hheader
  have hlis : pdu.lengthIndicators = replicate n 2 := by rw [← hpdu]; exact hlis
  have hcount : pdu.lengthIndicators.length = 43689 := by rw [hlis, length_replicate, hn]
  have hli : pdu.lengthIndicators = 2 :: replicate 43688 2 := by rw [hlis, hn, replicate_succ]
  have hzero : pdu.sequenceNumber = 0 := by rw [← hpdu]; rfl
  have hfirst' : pdu.framingInfo.firstByte = true := by rw [← hpdu]; exact hfirst
  have hlength : amHeaderLength pdu.extensionBits.length = 65538 := by
    rw [amHeaderLength_pdu hok, hcount, liLength]
  have hlong : 2 * n ≤ pdu.data.length := by rw [← hpdu]; exact hdata
  have hpass : passPdu (tx', some pdu) = .ok (tx', some pdu) := by
    rw [passPdu]
    simp only [hlength]
    rw [checkHeader, if_neg (by omega), if_neg (by omega)]
    rfl
  have hnotify : e.notifyTxOpportunity { maxTxBufferSize := 0 } 200000 =
    .ok ({ e with tx := tx' }, some (.data pdu)) := by
    have hdue : ¬ e.rx.statusDue = true := by
      rw [hrx]
      exact Bool.false_ne_true
    rw [Am.notifyTxOpportunity, if_neg (by omega), if_neg hdue, hnow, hopp, ok_bind, hpass]
    rfl
  have hsend : LinkStep { maxTxBufferSize := 0 } { sender := e }
    (.sender (.notifyTxOpportunity 200000))
      { sender := { e with tx := tx' }, dataChannel := [amPacket pdu] } := by
    rw [LinkStep, AmLink.act, Am.act, hnotify]
    rfl
  have hoffers : LinkOk { sender := e } (.sender (.notifyTxOpportunity 200000)) :=
    show 7 ≤ 200000 by omega
  -- the receiver drops the two bytes that are counted
  obtain ⟨data, hread⟩ := amRemoveHeader_overlong hok hcount
  obtain ⟨rs, hrs, hmem⟩ := reassemble_first {}
    { pdu.toDataPdu with data := 0x80 :: 0x00 :: data } true hok rfl rfl hzero hfirst' hli
  obtain ⟨receiver, hreceive, hrs'⟩ :=
    receivePdu_first { pdu with data := 0x80 :: 0x00 :: data } hzero hrs
  have hdeliver : LinkStep { maxTxBufferSize := 0 }
      { sender := { e with tx := tx' }, dataChannel := [amPacket pdu] } .deliverData
      { sender := { e with tx := tx' }, receiver } := by
    rw [LinkStep, AmLink.act]
    simp only [Am.receivePacket, readPacket, hread, ok_bind, hreceive]
    rfl
  refine ⟨_, (hrun.snoc hoffers hsend).snoc (a := .deliverData) trivial hdeliver, fun hprefix => ?_⟩
  have hsdu : [0x80, 0x00] ∈ tx'.accepted := by
    refine hprefix.subset ?_
    show [0x80, 0x00] ∈ receiver.rx.reassembler.delivered
    rw [hrs']
    exact hmem
  rw [haccepted] at hsdu
  exact absurd (eq_of_mem_replicate hsdu) (by decide)

end runs

end OranNs3.Rlc
