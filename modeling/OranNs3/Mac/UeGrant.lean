import Mathlib.Algebra.Ring.Nat
import OranNs3.Lib.Fallible
import OranNs3.Lib.Keyed

/-!
# How the MAC of a UE uses a grant

`SendNewData` of `NrUeMac` (`nr-ue-mac.cc`) fills the transport block of a grant for new data: first
with the status PDUs of the RLC entities, then with retransmissions, then with new data;
`SendBufferStatusReport` adds a short BSR. The parts share one budget of bytes, `m_ulDciTotalUsed`.
An RLC entity answers an opportunity with at most one PDU that fits it (`Rlc`); the PDU gets a
subheader of two or three bytes. The buffers are those that the RLC entities reported, in the order
of the map of the reports.

The data and the report leave the bytes of the subheaders and of the BSR out of what they hand out,
the status PDUs do not (`GrantBudget`, the module after this one).
-/

namespace OranNs3

open Fallible List

namespace UeGrant

/-! ## Data -/

/-- How the MAC stops: on an assertion, on `NS_ABORT_MSG_IF`, on a key or an index that is not
there, on a grant that it does not have. -/
inductive MacError
  | assertion
  | abort
  | outOfRange
  | nullPointer
deriving DecidableEq

/-- `BufferStatusReportParameters` (`nr-mac-sap.h`), an element of `m_ulBsrReceived`. -/
structure BufferStatus where
  lcid : Nat
  txQueueSize : Nat
  retxQueueSize : Nat
  statusPduSize : Nat
deriving DecidableEq

/-- An element of `m_lcInfoMap`. -/
structure LcInfo where
  lcid : Nat
  logicalChannelGroup : Nat
deriving DecidableEq

/-- `DciInfoElementTdma` of a grant. -/
structure UlDci where
  harqProcess : Nat
  ndi : Nat
  rv : Nat
  tbSize : Nat
deriving DecidableEq

/-- The RLC entities: the size of the PDU with which the entity of a logical channel answers an
opportunity of so many bytes, after so many others. -/
structure Rlc where
  pdu : Nat → Nat → Nat → Option Nat
  le : ∀ {k lcid bytes size : Nat}, pdu k lcid bytes = some size → size ≤ bytes

/-- Entities that use every opportunity to the last byte. -/
def Rlc.full : Rlc where
  pdu _ _ bytes := some bytes
  le h := (Option.some.inj h).ge

/-- What the MAC reads while it uses a grant. -/
structure Context where
  lcInfoMap : List LcInfo
  rnti : Nat
  numHarqProcess : Nat
  dci : UlDci

/-- What it writes: `m_ulDciTotalUsed`, the opportunities given, and the bytes of those that were
given for data. -/
structure Tx where
  ulDciTotalUsed : Nat
  opportunities : Nat
  dataBytes : List Nat
deriving DecidableEq

/-- `ProcessUlDci` starts with nothing used. -/
def Tx.init : Tx := ⟨0, 0, []⟩

/-! ## Opportunities -/

/-- The bytes of a PDU with its subheader `NrMacHeaderVs`, which holds the size in 16 bits. -/
def subPduSize (size : Nat) : Nat := size + if 127 < size % 2 ^ 16 then 3 else 2

variable (c : Context)

/-- `DoTransmitPdu`; `SetLcId` of the subheader takes LCIDs up to 32. -/
def transmitPdu (lcid size : Nat) (t : Tx) : Except MacError Tx :=
  if 32 < lcid then .error .assertion
  else
    let used := t.ulDciTotalUsed + subPduSize size
    if used ≤ c.dci.tbSize then .ok { t with ulDciTotalUsed := used } else .error .assertion

variable (rlc : Rlc)

/-- `NotifyTxOpportunity` of the RLC entity of a logical channel. -/
def notifyTxOpportunity (lcid bytes : Nat) (t : Tx) : Except MacError Tx :=
  match Keyed.find? LcInfo.lcid lcid c.lcInfoMap with
  | none => .error .outOfRange
  | some _ =>
    let t' := { t with opportunities := t.opportunities + 1 }
    match rlc.pdu t.opportunities lcid bytes with
    | none => .ok t'
    | some size => transmitPdu c lcid size t'

/-! ## Status PDUs -/

/-- The loop of `SendNewStatusData`: the reports, and whether a status PDU was sent. -/
def statusLoop (c : Context) (rlc : Rlc) :
    List BufferStatus → Tx → Except MacError (List BufferStatus × Tx × Bool)
  | [], t => .ok ([], t, false)
  | b :: bs, t =>
    if 0 < b.statusPduSize ∧ t.ulDciTotalUsed + b.statusPduSize ≤ c.dci.tbSize then do
      let t ← notifyTxOpportunity c rlc b.lcid b.statusPduSize t
      let (bs, t, _) ← statusLoop c rlc bs t
      .ok ({ b with statusPduSize := 0 } :: bs, t, true)
    else do
      let (bs, t, sent) ← statusLoop c rlc bs t
      .ok (b :: bs, t, sent)

variable (bs : List BufferStatus)

def sendNewStatusData (t : Tx) : Except MacError (List BufferStatus × Tx) := do
  let (bs', t, sent) ← statusLoop c rlc bs t
  if (bs.any fun b => 0 < b.statusPduSize) && !sent then .error .abort else .ok (bs', t)

/-! ## Data -/

/-- The loop of `SendRetxData` and of `SendTxData`: every logical channel is given the same bytes.
-/
def dataLoop (c : Context) (rlc : Rlc) (usefulTbs bytesPerLcId : Nat)
    (take : Nat → BufferStatus → BufferStatus) :
    List BufferStatus → Tx → Except MacError (List BufferStatus × Tx)
  | [], t => .ok ([], t)
  | b :: bs, t =>
    if t.ulDciTotalUsed + bytesPerLcId ≤ usefulTbs then do
      let t ← notifyTxOpportunity c rlc b.lcid bytesPerLcId
        { t with dataBytes := t.dataBytes ++ [bytesPerLcId] }
      let (bs, t) ← dataLoop c rlc usefulTbs bytesPerLcId take bs t
      .ok (take bytesPerLcId b :: bs, t)
    else do
      let (bs, t) ← dataLoop c rlc usefulTbs bytesPerLcId take bs t
      .ok (b :: bs, t)

namespace BufferStatus

/-- The bytes of an opportunity, taken from the retransmissions. -/
def takeRetx (bytes : Nat) (b : BufferStatus) : BufferStatus :=
  { b with retxQueueSize := b.retxQueueSize - min bytes b.retxQueueSize }

/-- The same for new data. -/
def takeTx (bytes : Nat) (b : BufferStatus) : BufferStatus :=
  { b with txQueueSize := b.txQueueSize - min bytes b.txQueueSize }

end BufferStatus

def sendRetxData (usefulTbs activeLcsRetx : Nat) (bs : List BufferStatus)
    (t : Tx) : Except MacError (List BufferStatus × Tx) :=
  if activeLcsRetx = 0 then .ok (bs, t)
  else dataLoop c rlc usefulTbs (usefulTbs / activeLcsRetx) .takeRetx bs t

def sendTxData (usefulTbs activeTx : Nat) (bs : List BufferStatus)
    (t : Tx) : Except MacError (List BufferStatus × Tx) :=
  if activeTx = 0 then .ok (bs, t)
  else dataLoop c rlc usefulTbs (usefulTbs / activeTx) .takeTx bs t

/-- What `SendNewData` does with what is left for data, first for the retransmissions and then for
new data: five bytes are kept for the BSR, three for each subheader, and seven at least for each
PDU. -/
def dataPhase (active : Nat)
    (send : Nat → List BufferStatus → Tx → Except MacError (List BufferStatus × Tx))
    (bs : List BufferStatus) (t : Tx) : Except MacError (List BufferStatus × Tx) :=
  if t.ulDciTotalUsed + 5 ≤ c.dci.tbSize then
    let usefulTbs := c.dci.tbSize - t.ulDciTotalUsed - 5
    if 0 < active ∧ 0 < usefulTbs then
      if usefulTbs < active * 10 then .ok (bs, t) else send (usefulTbs - active * 3) bs t
    else .ok (bs, t)
  else .error .assertion

def sendNewData (t : Tx) : Except MacError (List BufferStatus × Tx) :=
  if c.dci.harqProcess < c.numHarqProcess then do
    let (bs, t) ← sendNewStatusData c rlc bs t
    let activeLcsRetx := bs.countP fun b => 0 < b.retxQueueSize
    let activeLcsTx := bs.countP fun b => 0 < b.txQueueSize
    let (bs, t) ← dataPhase c activeLcsRetx (fun usefulTbs =>
      sendRetxData c rlc usefulTbs activeLcsRetx) bs t
    dataPhase c activeLcsTx (fun usefulTbs => sendTxData c rlc usefulTbs activeLcsTx) bs t
  else .error .outOfRange

/-! ## The report -/

/-- The loop of `SendBufferStatusReport` for one logical channel: what it adds to its group. -/
def addToQueue (queue : List Nat) (b : BufferStatus) : Except MacError (List Nat) :=
  match Keyed.find? LcInfo.lcid b.lcid c.lcInfoMap with
  | none => .error .assertion
  | some i =>
    if b.lcid = 0 ∧ ¬(b.txQueueSize = 0 ∧ b.retxQueueSize = 0 ∧ b.statusPduSize = 0) then
      .error .assertion
    else match queue[i.logicalChannelGroup]? with
      | none => .error .outOfRange
      | some q =>
        let q := (q + b.txQueueSize + b.retxQueueSize + b.statusPduSize) % 2 ^ 32
        let q := if q = 0 then q else (q + 5) % 2 ^ 32
        let q := if 0 < b.txQueueSize then (q + 3) % 2 ^ 32 else q
        let q := if 0 < b.retxQueueSize then (q + 3) % 2 ^ 32 else q
        .ok (queue.set i.logicalChannelGroup q)

/-- `SendBufferStatusReport`: the short BSR, a subheader and the levels of the four
groups, has five bytes. -/
def sendBufferStatusReport (t : Tx) : Except MacError (Tx × Option (List Nat)) :=
  if c.rnti = 0 ∨ bs = [] then .ok (t, none)
  else do
    let queue ← bs.foldlM (addToQueue c) [0, 0, 0, 0]
    let used := t.ulDciTotalUsed + 5
    if used ≤ c.dci.tbSize then .ok ({ t with ulDciTotalUsed := used }, some queue)
    else .error .assertion

/-! ## What is left of the reports -/

variable {c : Context} {rlc : Rlc}

/-- What is left of a report: no size grows. -/
structure Reduced (b b' : BufferStatus) : Prop where
  lcid : b'.lcid = b.lcid
  tx : b'.txQueueSize ≤ b.txQueueSize
  retx : b'.retxQueueSize ≤ b.retxQueueSize
  status : b'.statusPduSize ≤ b.statusPduSize

theorem Reduced.refl (b : BufferStatus) : Reduced b b := ⟨rfl, le_rfl, le_rfl, le_rfl⟩

theorem Reduced.trans {b b' b'' : BufferStatus} (h : Reduced b b') (h' : Reduced b' b'') :
    Reduced b b'' :=
  ⟨h'.lcid.trans h.lcid, h'.tx.trans h.tx, h'.retx.trans h.retx, h'.status.trans h.status⟩

theorem reduced_takeRetx (bytes : Nat) (b : BufferStatus) : Reduced b (b.takeRetx bytes) :=
  ⟨rfl, le_rfl, Nat.sub_le _ _, le_rfl⟩

theorem reduced_takeTx (bytes : Nat) (b : BufferStatus) : Reduced b (b.takeTx bytes) :=
  ⟨rfl, Nat.sub_le _ _, le_rfl, le_rfl⟩

theorem reduced_trans {bs bs' bs'' : List BufferStatus} (h : Forall₂ Reduced bs bs')
    (h' : Forall₂ Reduced bs' bs'') : Forall₂ Reduced bs bs'' := by
  induction h generalizing bs'' with
  | nil =>
    cases h'
    exact .nil
  | cons hb _ ih =>
    cases h' with
    | cons hb' htail => exact .cons (hb.trans hb') (ih htail)

variable {t : Tx}

theorem spec_notifyTxOpportunity_error {lcid bytes : Nat} :
    Spec (· ≠ .nullPointer) (fun _ => True) (notifyTxOpportunity c rlc lcid bytes t) := by
  unfold notifyTxOpportunity transmitPdu
  split
  · nofun
  · dsimp only
    split
    · trivial
    · split
      · nofun
      · split <;> first | trivial | nofun

theorem reduced_statusLoop :
    ∀ {bs : List BufferStatus} {t : Tx},
      Spec (· ≠ .nullPointer) (fun r => Forall₂ Reduced bs r.1) (statusLoop c rlc bs t)
  | [], _ => .nil
  | b :: bs, t => by
    rw [statusLoop]
    split
    · refine spec_notifyTxOpportunity_error.bind fun t' _ => ?_
      exact reduced_statusLoop.bind fun r hr => .cons ⟨rfl, le_rfl, le_rfl, Nat.zero_le _⟩ hr
    · exact reduced_statusLoop.bind fun r hr => .cons (Reduced.refl b) hr

theorem reduced_dataLoop {usefulTbs bytesPerLcId : Nat} {take : Nat → BufferStatus → BufferStatus}
    (htake : ∀ b, Reduced b (take bytesPerLcId b)) :
    ∀ {bs : List BufferStatus} {t : Tx},
      Spec (· ≠ .nullPointer) (fun r => Forall₂ Reduced bs r.1)
        (dataLoop c rlc usefulTbs bytesPerLcId take bs t)
  | [], _ => .nil
  | b :: bs, t => by
    rw [dataLoop]
    split
    · refine spec_notifyTxOpportunity_error.bind fun t' _ => ?_
      exact (reduced_dataLoop htake).bind fun r hr => .cons (htake b) hr
    · exact (reduced_dataLoop htake).bind fun r hr => .cons (Reduced.refl b) hr

variable {bs : List BufferStatus}

theorem reduced_dataPhase {active : Nat}
    {send : Nat → List BufferStatus → Tx → Except MacError (List BufferStatus × Tx)}
    (hsend : ∀ usefulTbs, Spec (· ≠ .nullPointer) (fun r => Forall₂ Reduced bs r.1)
      (send usefulTbs bs t)) :
    Spec (· ≠ .nullPointer) (fun r => Forall₂ Reduced bs r.1) (dataPhase c active send bs t) := by
  have hsame : Forall₂ Reduced bs bs := forall₂_same.2 fun b _ => Reduced.refl b
  unfold dataPhase
  split
  · dsimp only
    split
    · split
      · exact hsame
      · exact hsend _
    · exact hsame
  · nofun

theorem reduced_sendNewStatusData :
    Spec (· ≠ .nullPointer) (fun r => Forall₂ Reduced bs r.1) (sendNewStatusData c rlc bs t) := by
  unfold sendNewStatusData
  refine reduced_statusLoop.bind fun ⟨bs₁, t₁, sent⟩ hred => ?_
  dsimp only
  split
  · nofun
  · exact hred

theorem reduced_sendRetxData {usefulTbs active : Nat} :
    Spec (· ≠ .nullPointer) (fun r => Forall₂ Reduced bs r.1)
      (sendRetxData c rlc usefulTbs active bs t) := by
  unfold sendRetxData
  split
  · exact forall₂_same.2 fun b _ => Reduced.refl b
  · exact reduced_dataLoop (reduced_takeRetx _)

theorem reduced_sendTxData {usefulTbs active : Nat} :
    Spec (· ≠ .nullPointer) (fun r => Forall₂ Reduced bs r.1)
      (sendTxData c rlc usefulTbs active bs t) := by
  unfold sendTxData
  split
  · exact forall₂_same.2 fun b _ => Reduced.refl b
  · exact reduced_dataLoop (reduced_takeTx _)

theorem reduced_sendNewData :
    Spec (· ≠ .nullPointer) (fun r => Forall₂ Reduced bs r.1) (sendNewData c rlc bs t) := by
  unfold sendNewData
  split
  · refine reduced_sendNewStatusData.bind fun ⟨bs₁, t₁⟩ hred₁ => ?_
    refine (reduced_dataPhase fun _ => reduced_sendRetxData).bind fun ⟨bs₂, t₂⟩ hred₂ => ?_
    refine (reduced_dataPhase fun _ => reduced_sendTxData).imp fun r hred₃ => ?_
    exact reduced_trans hred₁ (reduced_trans hred₂ hred₃)
  · nofun

theorem spec_sendBufferStatusReport_error :
    Spec (· ≠ .nullPointer) (fun _ => True) (sendBufferStatusReport c bs t) := by
  unfold sendBufferStatusReport
  split
  · trivial
  · refine (Spec.foldlM_mem (P := fun _ => True) (fun _ _ => ?_) trivial).bind fun q _ => ?_
    · unfold addToQueue
      split
      · nofun
      · split
        · nofun
        · split <;> first | trivial | nofun
    · dsimp only
      split <;> first | trivial | nofun

end UeGrant

end OranNs3
