import OranNs3.Lib.Run
import OranNs3.Rlc.Reassembly

/-!
# An AM entity

`NrRlcAm` (`nr-rlc-am.cc`). The transmitting side has the SDUs that wait (`txonBuffer`), and for
each sequence number a slot for a PDU that waits for its acknowledgement (`txedBuffer`) and one for
a PDU that is to be sent again (`retxBuffer`); the receiving side has the PDUs received out of
sequence (`rxonBuffer`), complete ones, since PDUs are not segmented again. Both have the state
variables of their window, and the sizes of the buffers are counted by hand in 32 bits. The loops
over sequence numbers run on fuel: 1024 iterations come round to the first number, and in the loops
that test for this it is the assertion.
-/

namespace OranNs3.Rlc

variable {α : Type}

/-- An AM data PDU: the fields of `NrRlcAmHeader` that vary, and the data field. PDU segments are
not sent, and received as PDUs. -/
structure AmPdu (α : Type) extends DataPdu α where
  pollingBit : Bool
deriving DecidableEq

/-- The number of bytes of the header of a data PDU by its extension bits. -/
def amHeaderLength : Nat → Nat
  | 0 => 4
  | 1 => 4
  | n + 2 => amHeaderLength (n + 1) + if (n + 2) % 2 = 1 then 1 else 2

/-- `GetSize` of a PDU with its header, for which the room is as long as the header counts in 16
bits. -/
def AmPdu.size (pdu : AmPdu α) : Nat :=
  amHeaderLength pdu.extensionBits.length % 2 ^ 16 + pdu.data.length

/-- A STATUS PDU. -/
structure StatusPdu where
  ackSn : Nat
  nackSnList : List Nat
deriving DecidableEq

/-- `m_windowSize`. -/
def amWindowSize : Nat := 512

/-- The iterations of a loop over all sequence numbers. -/
def amLoopFuel : Nat := 1025

/-! ## The receiving side -/

/-- The receiving side, with the requests for STATUS PDUs. -/
structure AmRx (α : Type) where
  rxonBuffer : Nat → Option (AmPdu α) := fun _ => none
  vrR : SequenceNumber10 := {}
  vrMr : SequenceNumber10 := ⟨amWindowSize, 0⟩
  vrX : SequenceNumber10 := {}
  vrMs : SequenceNumber10 := {}
  vrH : SequenceNumber10 := {}
  reorderingTimer : Bool := false
  statusPduRequested : Bool := false
  statusPduBufferSize : Nat := 0
  statusProhibitTimer : Bool := false
  reassembler : Reassembler α := {}

variable (rx : AmRx α)

/-- Whether the PDU of a sequence number has been received. -/
def AmRx.has (n : SequenceNumber10) : Bool := (rx.rxonBuffer n.value).isSome

/-- The bases that `IsInsideReceivingWindow` sets. -/
def AmRx.windowBases : AmRx α :=
  { rx with
    vrR := rx.vrR.setModulusBase rx.vrR
    vrMr := rx.vrMr.setModulusBase rx.vrR }

variable (seqNumber : SequenceNumber10)

/-- `IsInsideReceivingWindow`, after these. -/
def isInsideReceivingWindow : Except RlcError Bool :=
  rx.vrR.le (seqNumber.setModulusBase rx.vrR) >>= fun low =>
    if low then (seqNumber.setModulusBase rx.vrR).lt rx.vrMr else .ok false

/-- A PDU placed in the reception buffer, if there is none of its sequence number. -/
def placePdu (pdu : AmPdu α) (seqNumber : SequenceNumber10) : AmRx α :=
  { rx with
    rxonBuffer := fun v =>
      if v = seqNumber.value then (rx.rxonBuffer v).or (some pdu) else rx.rxonBuffer v }

/-- `VR(H)` behind a PDU. -/
def updateVrH : Except RlcError (AmRx α) :=
  (seqNumber.ge rx.vrH).map fun above => if above then { rx with vrH := seqNumber.add 1 } else rx

/-- The first sequence number from one on whose PDU has not been received. -/
def firstMissing (rx : AmRx α) (first : Nat) : Nat → SequenceNumber10 →
    Except RlcError SequenceNumber10
  | 0, _ => .error .infiniteLoop
  | fuel + 1, n =>
    if rx.has n then
      if n.incr.value = first then .error .infiniteLoop else firstMissing rx first fuel n.incr
    else .ok n

/-- `VR(MS)` over the PDUs received from a sequence number on. -/
def updateVrMs (from_ : SequenceNumber10) : Except RlcError (AmRx α) :=
  (firstMissing rx from_.value amLoopFuel from_).map fun vrMs => { rx with vrMs }

/-- `VR(R)` past a PDU that has been delivered. -/
def popVrR (reassembler : Reassembler α) : AmRx α :=
  { rx with
    reassembler
    rxonBuffer := fun v => if v = rx.vrR.value then none else rx.rxonBuffer v
    vrR := rx.vrR.incr.setModulusBase rx.vrR.incr
    vrX := rx.vrX.setModulusBase rx.vrR.incr
    vrMs := rx.vrMs.setModulusBase rx.vrR.incr
    vrH := rx.vrH.setModulusBase rx.vrR.incr }

/-- The loop that delivers PDUs in sequence. -/
def deliverLoop (first : Nat) : Nat → AmRx α → Except RlcError (AmRx α)
  | 0, _ => .error .infiniteLoop
  | fuel + 1, rx =>
    match rx.rxonBuffer rx.vrR.value with
    | none => .ok rx
    | some pdu =>
      reassembleAndDeliver true rx.reassembler pdu.toDataPdu >>= fun reassembler =>
        if rx.vrR.incr.value = first then .error .infiniteLoop
        else deliverLoop first fuel (popVrR rx reassembler)

/-- The delivery when the PDU of `VR(R)` has come. -/
def deliverInSequence : Except RlcError (AmRx α) :=
  if seqNumber.eq rx.vrR && rx.has seqNumber then
    (deliverLoop rx.vrR.value amLoopFuel rx).map fun rx =>
      { rx with vrMr := rx.vrR.add amWindowSize }
  else .ok rx

/-- Whether `t-Reordering` is stopped. -/
def stopReorderingTimer : Except RlcError (AmRx α) :=
  if rx.reorderingTimer then
    if rx.vrX.eq rx.vrR then .ok { rx with reorderingTimer := false }
    else
      (isInsideReceivingWindow rx.windowBases rx.vrX).map fun inside =>
        { rx.windowBases with reorderingTimer := inside || rx.vrX.eq rx.vrMr }
  else .ok rx

/-- Whether `t-Reordering` is started. -/
def startReorderingTimer : Except RlcError (AmRx α) :=
  if rx.reorderingTimer then .ok rx
  else
    (rx.vrH.gt rx.vrR).map fun above =>
      if above then { rx with reorderingTimer := true, vrX := rx.vrH } else rx

/-- The actions on a PDU inside of the window. -/
def acceptPdu (pdu : AmPdu α) (seqNumber : SequenceNumber10) : Except RlcError (AmRx α) :=
  updateVrH (placePdu rx pdu seqNumber) seqNumber >>= fun rx =>
    updateVrMs rx rx.vrMs >>= fun rx =>
      deliverInSequence rx seqNumber >>= fun rx =>
        stopReorderingTimer rx >>= startReorderingTimer

/-- The request of a polling bit. -/
def requestStatus (pdu : AmPdu α) : AmRx α :=
  if pdu.pollingBit then { rx with statusPduRequested := true, statusPduBufferSize := 4 } else rx

/-- `DoReceivePdu` of a data PDU. -/
def receiveDataPdu (pdu : AmPdu α) : Except RlcError (AmRx α) :=
  let seqNumber := (SequenceNumber10.ofValue pdu.sequenceNumber).setModulusBase rx.vrR
  isInsideReceivingWindow (requestStatus rx pdu).windowBases seqNumber >>= fun inside =>
    if inside then acceptPdu (requestStatus rx pdu).windowBases pdu seqNumber
    else .ok (requestStatus rx pdu).windowBases

def expireReorderingTimer : Except RlcError (AmRx α) :=
  updateVrMs { rx with reorderingTimer := false } rx.vrX >>= fun rx =>
    (rx.vrH.gt rx.vrMs).map fun above =>
      if above then { rx with reorderingTimer := true, vrX := rx.vrH, statusPduRequested := true }
      else { rx with statusPduRequested := true }

/-- The length of the header of a STATUS PDU by its NACKs. -/
def statusHeaderLength : Nat → Nat
  | 0 => 2
  | n + 1 => statusHeaderLength n + if (n + 1) % 2 = 0 then 1 else 2

/-- `OneMoreNackWouldFitIn`, of a size in 16 bits. -/
def oneMoreNackWouldFitIn (nacks bytes : Nat) : Bool :=
  if nacks % 2 = 0 then statusHeaderLength nacks < bytes
  else (statusHeaderLength nacks : Int) < (bytes : Int) - 1

/-- The loop of the NACKs. -/
def nackLoop (rx : AmRx α) (bytes : Nat) :
    Nat → SequenceNumber10 → List Nat → Except RlcError (SequenceNumber10 × List Nat)
  | 0, _, _ => .error .infiniteLoop
  | fuel + 1, sn, nacks =>
    sn.lt rx.vrMs >>= fun below =>
      if below && oneMoreNackWouldFitIn nacks.length (bytes % 2 ^ 16) then
        nackLoop rx bytes fuel sn.incr (if rx.has sn then nacks else nacks ++ [sn.value])
      else .ok (sn, nacks)

/-- The loop that finds the sequence number to acknowledge. -/
def ackLoop (rx : AmRx α) : Nat → SequenceNumber10 → Except RlcError SequenceNumber10
  | 0, _ => .error .infiniteLoop
  | fuel + 1, sn =>
    sn.lt rx.vrMs >>= fun below => if below && rx.has sn then ackLoop rx fuel sn.incr else .ok sn

/-- The STATUS PDU for an opportunity. -/
def buildStatusPdu (bytes : Nat) : Except RlcError StatusPdu :=
  nackLoop rx bytes amLoopFuel rx.vrR [] >>= fun r =>
    ackLoop rx amLoopFuel r.1 >>= fun sn =>
      sn.le rx.vrMs >>= fun below =>
        if below then .ok ⟨sn.value, r.2⟩ else .error .assertion

/-- Whether an opportunity is for a STATUS PDU. -/
def AmRx.statusDue : Bool := rx.statusPduRequested && !rx.statusProhibitTimer

/-- The opportunity for a STATUS PDU. -/
def sendStatusPdu (bytes : Nat) : Except RlcError (AmRx α × StatusPdu) :=
  if bytes < rx.statusPduBufferSize then .error .txOpportunity
  else
    (buildStatusPdu rx bytes).map fun pdu =>
      ({ rx with
          statusPduRequested := false
          statusPduBufferSize := 0
          statusProhibitTimer := true }, pdu)

/-! ## The transmitting side -/

/-- The attributes of the transmitting side. -/
structure AmConfig where
  maxTxBufferSize : Nat := 10 * 1024
  txOpportunityForRetxAlwaysBigEnough : Bool := false
deriving DecidableEq

/-- `RetxPdu`. -/
structure RetxPdu (α : Type) where
  pdu : Option (AmPdu α) := none
  retxCount : Nat := 0
  waitingSince : Nat := 0
deriving DecidableEq

/-- `m_pollPdu`. -/
def pollPdu : Nat := 1

/-- `m_pollByte`. -/
def pollByte : Nat := 50

/-- The transmitting side, with the SDUs that were accepted and those of the `TxDrop` trace. -/
structure AmTx (α : Type) where
  txonBuffer : List (TxPdu α) := []
  txonBufferSize : Nat := 0
  txedBuffer : Nat → RetxPdu α := fun _ => {}
  txedBufferSize : Nat := 0
  retxBuffer : Nat → RetxPdu α := fun _ => {}
  retxBufferSize : Nat := 0
  vtA : SequenceNumber10 := {}
  vtMs : SequenceNumber10 := ⟨amWindowSize, 0⟩
  vtS : SequenceNumber10 := {}
  pollSn : SequenceNumber10 := {}
  pduWithoutPoll : Nat := 0
  byteWithoutPoll : Nat := 0
  pollRetransmitTimer : Bool := false
  pollRetransmitTimerJustExpired : Bool := false
  accepted : List (List α) := []
  dropped : List (List α) := []

variable (c : AmConfig)

/-- The part of `DoTransmitPdcpPdu` before the report. -/
def amTransmitPdcpPdu (tx : AmTx α) (now : Nat) (p : List α) : AmTx α :=
  if add32 tx.txonBufferSize p.length ≤ c.maxTxBufferSize ∨ c.maxTxBufferSize = 0 then
    { tx with
      txonBuffer := tx.txonBuffer ++ [⟨⟨p, .fullSdu⟩, now⟩]
      txonBufferSize := add32 tx.txonBufferSize p.length
      accepted := tx.accepted ++ [p] }
  else { tx with dropped := tx.dropped ++ [p] }

variable (tx : AmTx α)

/-- A poll: the timer is started or restarted. -/
def startPoll : AmTx α :=
  { tx with
    pollRetransmitTimerJustExpired := false
    pduWithoutPoll := 0
    byteWithoutPoll := 0
    pollSn := tx.vtS.sub 1
    pollRetransmitTimer := true }

variable (v : Nat)

/-- A PDU that is to be sent again. -/
def moveToRetx (pdu : AmPdu α) : AmTx α :=
  { tx with
    retxBuffer := Function.update tx.retxBuffer v { tx.txedBuffer v with pdu := some pdu }
    retxBufferSize := add32 tx.retxBufferSize pdu.size
    txedBuffer := Function.update tx.txedBuffer v {}
    txedBufferSize := sub32 tx.txedBufferSize pdu.size }

/-- A PDU that has been sent again. -/
def moveToTxed (now v : Nat) (pdu : AmPdu α) : AmTx α :=
  { tx with
    txedBuffer := Function.update tx.txedBuffer v
      ⟨some pdu, ((tx.retxBuffer v).retxCount + 1) % 2 ^ 16, now⟩
    txedBufferSize := add32 tx.txedBufferSize pdu.size
    retxBuffer := Function.update tx.retxBuffer v {}
    retxBufferSize := sub32 tx.retxBufferSize pdu.size }

/-- The polling bit of a PDU that is sent again. -/
def retxPolls (pdu : AmPdu α) : Except RlcError Bool :=
  if tx.txonBuffer.isEmpty && tx.retxBufferSize = pdu.size then .ok true
  else (tx.vtS.ge tx.vtMs).map (· || tx.pollRetransmitTimerJustExpired)

/-- A PDU is sent again, with a new polling bit. -/
def retransmit (now v : Nat) (pdu : AmPdu α) : Except RlcError (AmTx α × AmPdu α) :=
  (retxPolls tx pdu).map fun polls =>
    (moveToTxed (if polls then startPoll tx else tx) now v pdu, { pdu with pollingBit := polls })

/-- The loop that finds the first PDU to be sent again. -/
def retxLoop (c : AmConfig) (tx : AmTx α) (now bytes : Nat) :
    Nat → SequenceNumber10 → Except RlcError (AmTx α × Option (AmPdu α))
  | 0, _ => .error .infiniteLoop
  | fuel + 1, sn =>
    sn.lt tx.vtS >>= fun below =>
      if below then
        match (tx.retxBuffer sn.value).pdu with
        | some pdu =>
          if pdu.size ≤ bytes ∨ c.txOpportunityForRetxAlwaysBigEnough = true then
            (retransmit tx now sn.value pdu).map fun r => (r.1, some r.2)
          else .ok (tx, none)
        | none => retxLoop c tx now bytes fuel sn.incr
      else .error .noPduForRetx

/-- The polling bit of a new PDU. -/
def newPduPolls : Except RlcError Bool :=
  if tx.pduWithoutPoll ≥ pollPdu ∨ tx.byteWithoutPoll ≥ pollByte ∨
      (tx.txonBuffer.isEmpty ∧ tx.retxBufferSize = 0) then .ok true
  else (tx.vtS.ge tx.vtMs).map (· || tx.pollRetransmitTimerJustExpired)

/-- A new PDU waits for its acknowledgement. -/
def storeTxed (now v : Nat) (pdu : AmPdu α) : AmTx α :=
  { tx with
    txedBufferSize := add32 tx.txedBufferSize pdu.size
    txedBuffer := Function.update tx.txedBuffer v ⟨some pdu, 0, now⟩ }

/-- The transmitting side when the data field of a new PDU has been taken. -/
def takeDataField (b : Build α) : AmTx α :=
  { tx with
    txonBuffer := b.txBuffer
    txonBufferSize := b.txBufferSize
    vtS := tx.vtS.incr
    pduWithoutPoll := add32 tx.pduWithoutPoll 1
    byteWithoutPoll := add32 tx.byteWithoutPoll (dataBytes b.dataField).length }

/-- A new PDU with a sequence number that has been tested. -/
def finishNewPdu (now v : Nat) (b : Build α) (fi : FramingInfo) :
    Except RlcError (AmTx α × Option (AmPdu α)) :=
  (newPduPolls (takeDataField tx b)).map fun polls =>
    (storeTxed (if polls then startPoll (takeDataField tx b) else takeDataField tx b) now v
      ⟨pduOf v b fi, polls⟩, some ⟨pduOf v b fi, polls⟩)

/-- A new PDU. -/
def sendNewPdu (now bytes : Nat) (first : TxPdu α) (txonBuffer : List (TxPdu α)) :
    Except RlcError (AmTx α × Option (AmPdu α)) :=
  let b := buildDataField (bytes - 4) first txonBuffer tx.txonBufferSize
  tx.vtS.lt tx.vtMs >>= fun below =>
    if below then
      tx.vtS.ge tx.vtA >>= fun above =>
        if above then framingInfoOf b.dataField >>= finishNewPdu tx now tx.vtS.value b
        else .error .window
    else .error .window

/-- An opportunity that is not for a STATUS PDU. -/
def amTxOpportunity (tx : AmTx α) (now bytes : Nat) : Except RlcError (AmTx α × Option (AmPdu α)) :=
  if tx.retxBufferSize > 0 then
    tx.vtA.lt tx.vtS >>= fun sent =>
      if sent then retxLoop c tx now bytes amLoopFuel tx.vtA else .error .assertion
  else if tx.txonBufferSize > 0 then
    if bytes < 7 then .error .txOpportunity
    else
      tx.vtS.le tx.vtMs >>= fun below =>
        if below then
          if tx.vtS.eq tx.vtMs then .ok (tx, none)
          else
            match tx.txonBuffer with
            | [] => .ok (tx, none)
            | first :: txonBuffer => sendNewPdu tx now bytes first txonBuffer
        else .error .assertion
  else .ok (tx, none)

/-- The header of the PDU that is passed to the MAC, if there is one, is added to its packet. -/
def passPdu (r : AmTx α × Option (AmPdu α)) : Except RlcError (AmTx α × Option (AmPdu α)) :=
  match r.2 with
  | none => .ok r
  | some pdu => (checkHeader (amHeaderLength pdu.extensionBits.length) pdu.data.length).map fun _ =>
    r

/-- A sequence number that a STATUS PDU reports as missing. -/
def nackSn : Except RlcError (AmTx α) :=
  match (tx.txedBuffer v).pdu with
  | some pdu => .ok (moveToRetx tx v pdu)
  | none => if (tx.retxBuffer v).pdu.isSome then .ok tx else .error .assertion

/-- A sequence number that a STATUS PDU acknowledges. -/
def ackSn : Except RlcError (AmTx α) :=
  match (tx.txedBuffer v).pdu, (tx.retxBuffer v).pdu with
  | some _, some _ => .error .assertion
  | some pdu, none =>
    .ok { tx with
      txedBufferSize := sub32 tx.txedBufferSize pdu.size
      txedBuffer := Function.update tx.txedBuffer v
        { tx.txedBuffer v with pdu := none, waitingSince := 0 } }
  | none, some pdu =>
    .ok { tx with
      retxBufferSize := sub32 tx.retxBufferSize pdu.size
      retxBuffer := Function.update tx.retxBuffer v {} }
  | none, none => .ok tx

/-- The poll timer is stopped by its sequence number. -/
def stopPoll : AmTx α :=
  if tx.pollRetransmitTimer && v = tx.pollSn.value then { tx with pollRetransmitTimer := false }
    else tx

/-- `VT(A)` past a sequence number that has been acknowledged. -/
def advanceVtA : AmTx α :=
  { tx with
    vtA := tx.vtA.incr.setModulusBase tx.vtA.incr
    vtMs := (tx.vtA.incr.add amWindowSize).setModulusBase tx.vtA.incr
    vtS := tx.vtS.setModulusBase tx.vtA.incr }

/-- The loop over the sequence numbers that a STATUS PDU acknowledges or reports as missing. -/
def statusLoop (st : StatusPdu) :
    Nat → AmTx α → SequenceNumber10 → SequenceNumber10 → Bool → Except RlcError (AmTx α)
  | 0, _, _, _, _ => .error .infiniteLoop
  | fuel + 1, tx, sn, ack, incrementVtA =>
    sn.lt ack >>= fun below =>
      if below then
        sn.lt tx.vtS >>= fun sent =>
          if sent then
            if sn.value ∈ st.nackSnList then
              nackSn (stopPoll tx sn.value) sn.value >>= fun tx =>
                statusLoop st fuel tx sn.incr ack false
            else
              ackSn (stopPoll tx sn.value) sn.value >>= fun tx =>
                if incrementVtA then
                  statusLoop st fuel (advanceVtA tx) (sn.setModulusBase tx.vtA.incr).incr
                    (ack.setModulusBase tx.vtA.incr) true
                else statusLoop st fuel tx sn.incr ack false
          else .ok tx
      else .ok tx

/-- `DoReceivePdu` of a STATUS PDU. -/
def receiveStatusPdu (st : StatusPdu) : Except RlcError (AmTx α) :=
  statusLoop st amLoopFuel
    { tx with
      vtA := tx.vtA.setModulusBase tx.vtA
      vtS := tx.vtS.setModulusBase tx.vtA
      vtMs := tx.vtMs.setModulusBase tx.vtA }
    (tx.vtA.setModulusBase tx.vtA) ((SequenceNumber10.ofValue st.ackSn).setModulusBase tx.vtA) true

/-- The loop that moves all PDUs that wait. -/
def pollLoop : Nat → AmTx α → SequenceNumber10 → Except RlcError (AmTx α)
  | 0, _, _ => .error .infiniteLoop
  | fuel + 1, tx, sn =>
    sn.lt tx.vtS >>= fun below =>
      if below then
        match (tx.txedBuffer sn.value).pdu with
        | some pdu => pollLoop fuel (moveToRetx tx sn.value pdu) sn.incr
        | none => pollLoop fuel tx sn.incr
      else .ok tx

/-- `ExpirePollRetransmitTimer` before the report. -/
def amExpirePollRetransmitTimer : Except RlcError (AmTx α) :=
  tx.vtS.le tx.vtMs >>= fun below =>
    if below then
      if (tx.txonBufferSize = 0 ∧ tx.retxBufferSize = 0) ∨ tx.vtS.eq tx.vtMs = true then
        pollLoop amLoopFuel
          { tx with pollRetransmitTimerJustExpired := true, pollRetransmitTimer := false } tx.vtA
      else .ok { tx with pollRetransmitTimerJustExpired := true, pollRetransmitTimer := false }
    else .error .assertion

/-! ## The entity -/

/-- `BufferStatusReportParameters`, those that an AM entity sets. -/
structure AmBufferStatusReport where
  txQueueSize : Nat
  txQueueHolDelay : Nat
  retxQueueSize : Nat
  retxQueueHolDelay : Nat
  statusPduSize : Nat
deriving DecidableEq

/-- An AM entity, with the reports that it has sent. -/
structure Am (α : Type) where
  now : Nat := 0
  tx : AmTx α := {}
  rx : AmRx α := {}
  bsrTimer : Bool := false
  reports : List AmBufferStatusReport := []

/-- What an AM entity passes to the MAC. -/
inductive AmOutput (α : Type)
  | data (pdu : AmPdu α)
  | status (pdu : StatusPdu)

/-- The time in milliseconds since another. -/
def millisecondsSince (now since : Nat) : Nat := (now - since) / 10 ^ 6 % 2 ^ 16

variable (s : Am α)

/-- `DoTransmitBufferStatusReport`. -/
def Am.bufferStatusReport : AmBufferStatusReport where
  txQueueSize := s.tx.txonBufferSize
  txQueueHolDelay :=
    match s.tx.txonBuffer with
    | first :: _ => if s.tx.txonBufferSize > 0 then millisecondsSince s.now first.waitingSince
        else 0
    | [] => 0
  retxQueueSize := add32 s.tx.retxBufferSize s.tx.txedBufferSize
  retxQueueHolDelay :=
    if s.tx.retxBufferSize > 0 then
      millisecondsSince s.now
        (if (s.tx.retxBuffer s.tx.vtA.value).pdu.isSome then
          (s.tx.retxBuffer s.tx.vtA.value).waitingSince
        else (s.tx.txedBuffer s.tx.vtA.value).waitingSince)
    else 0
  statusPduSize := if s.rx.statusDue then s.rx.statusPduBufferSize else 0

/-- The report is sent if a size in it is not zero. -/
def Am.report : Am α :=
  let r := s.bufferStatusReport
  if r.txQueueSize ≠ 0 ∨ r.retxQueueSize ≠ 0 ∨ r.statusPduSize ≠ 0 then
    { s with reports := s.reports ++ [r] }
  else s

/-- `DoTransmitPdcpPdu`. -/
def Am.transmitPdcpPdu (p : List α) : Am α :=
  { Am.report { s with tx := amTransmitPdcpPdu c s.tx s.now p } with bsrTimer := true }

/-- `DoNotifyTxOpportunity`. -/
def Am.notifyTxOpportunity (bytes : Nat) : Except RlcError (Am α × Option (AmOutput α)) :=
  if bytes < 4 then .error .txOpportunity
  else if s.rx.statusDue then
    (sendStatusPdu s.rx bytes).map fun r => ({ s with rx := r.1 }, some (.status r.2))
  else
    (amTxOpportunity c s.tx s.now bytes >>= passPdu).map fun r =>
      ({ s with tx := r.1 }, r.2.map .data)

/-- `DoReceivePdu`: a poll is answered by a report before the PDU is placed. -/
def Am.receivePdu : AmOutput α → Except RlcError (Am α)
  | .data pdu =>
    (receiveDataPdu s.rx pdu).map fun rx =>
      { (if pdu.pollingBit && !s.rx.statusProhibitTimer then
          Am.report { s with rx := requestStatus s.rx pdu }
        else s) with rx }
  | .status pdu => (receiveStatusPdu s.tx pdu).map fun tx => { s with tx }

/-- What happens at an entity; time may pass before it. -/
inductive AmAction (α : Type)
  | wait (ns : Nat)
  | transmitPdcpPdu (p : List α)
  | notifyTxOpportunity (bytes : Nat)
  | receivePdu (pdu : AmOutput α)
  | expireReorderingTimer
  | expirePollRetransmitTimer
  | expireStatusProhibitTimer
  | expireBsrTimer

def Am.expireBsrTimer : Am α :=
  if add32 (add32 s.tx.txonBufferSize s.tx.txedBufferSize) s.tx.retxBufferSize > 0 then
    { s.report with bsrTimer := true }
  else { s with bsrTimer := false }

/-- One action, with what is passed to the MAC; a timer expires only while it runs. -/
def Am.act : AmAction α → Except RlcError (Am α × Option (AmOutput α))
  | .wait ns => .ok ({ s with now := s.now + ns }, none)
  | .transmitPdcpPdu p => .ok (s.transmitPdcpPdu c p, none)
  | .notifyTxOpportunity bytes => s.notifyTxOpportunity c bytes
  | .receivePdu pdu => (s.receivePdu pdu).map (·, none)
  | .expireReorderingTimer =>
    if s.rx.reorderingTimer then
      (expireReorderingTimer s.rx).map fun rx => ({ s with rx }, none)
    else .ok (s, none)
  | .expirePollRetransmitTimer =>
    if s.tx.pollRetransmitTimer then
      (amExpirePollRetransmitTimer s.tx).map fun tx => (Am.report { s with tx }, none)
    else .ok (s, none)
  | .expireStatusProhibitTimer =>
    .ok ({ s with rx := { s.rx with statusProhibitTimer := false } }, none)
  | .expireBsrTimer => .ok (if s.bsrTimer then s.expireBsrTimer else s, none)

/-- The steps of an entity. -/
def AmStep (a : AmAction α) (t : Am α) : Prop :=
  ∃ o, s.act c a = .ok (t, o)

end OranNs3.Rlc
