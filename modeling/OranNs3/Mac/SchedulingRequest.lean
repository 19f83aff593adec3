import Mathlib.Algebra.Order.BigOperators.Group.List
import Mathlib.Algebra.Order.Group.Nat
import OranNs3.Mac.UeGrant
import OranNs3.Sched.HarqVector

/-!
# The scheduling requests of a UE

`NrUeMac` (`nr-ue-mac.cc`) keeps a state for its scheduling requests: `INACTIVE` while nothing waits
to be sent, `TO_SEND` after a buffer status report of an RLC entity, and `ACTIVE` from the slot in
which it sends the request until a grant leaves nothing to be sent.

A request is not sent while the RNTI is 0, and the state becomes `ACTIVE` all the same; `DoReset`
leaves the state as it is, and so does a new RNTI. In each case the gNB knows nothing of the UE, and
no further report makes it send a request. In `ACTIVE`, a report after a timeout reads the last
grant, which need not exist. Where none of this happens, the state is right in every run
(`informed_of_run`).
-/

namespace OranNs3.UeGrant

open Fallible List

/-! ## The MAC -/

/-- `SrBsrMachine`. -/
inductive SrBsrMachine
  | inactive
  | toSend
  | active
deriving DecidableEq

/-- `NrUeMac`, and the RNTIs with which a scheduling request or a BSR was sent since the last reset.
-/
structure NrUeMac where
  lcInfoMap : List LcInfo
  numHarqProcess : Nat
  rnti : Nat
  ulDci : Option UlDci
  ulBsrReceived : List BufferStatus
  srState : SrBsrMachine
  sent : List Nat
deriving DecidableEq

namespace NrUeMac

/-- The MAC when it is constructed, with its attribute `NumHarqProcess`, which is 16 where it is not
set. -/
def init (numHarqProcess : Nat) : NrUeMac where
  lcInfoMap := []
  numHarqProcess := numHarqProcess
  rnti := 65535
  ulDci := none
  ulBsrReceived := []
  srState := .inactive
  sent := []

variable (m : NrUeMac)

/-- What it reads while it uses a grant. -/
def context (dci : UlDci) : Context := ⟨m.lcInfoMap, m.rnti, m.numHarqProcess, dci⟩

/-- `m_ulBsrReceived` with a report: it replaces the one of its logical channel, or is inserted. -/
def storeReport (order : Shuffle) (b : BufferStatus) : NrUeMac :=
  { m with
    ulBsrReceived :=
      if b.lcid ∈ m.ulBsrReceived.map BufferStatus.lcid then
        Keyed.modify BufferStatus.lcid b.lcid (fun _ => b) m.ulBsrReceived
      else order.app (b :: m.ulBsrReceived) }

/-- `DoTransmitBufferStatusReport`. -/
def transmitBufferStatusReport (order : Shuffle) (b : BufferStatus)
    (expBsrTimer : Bool) : Except MacError NrUeMac :=
  let m := m.storeReport order b
  match m.srState with
  | .inactive => .ok { m with srState := .toSend }
  | .toSend => .ok m
  | .active =>
    if expBsrTimer then
      match m.ulDci with
      | none => .error .nullPointer
      | some dci =>
        if (0 < dci.harqProcess ∧ dci.rv = 3) ∨
          dci.harqProcess = 0 then .ok { m with srState := .toSend }
        else .ok m
    else .ok m

def sendSr : NrUeMac := if m.rnti = 0 then m else { m with sent := m.rnti :: m.sent }

/-- `DoSlotIndication`. -/
def slotIndication : NrUeMac :=
  if m.srState = .toSend then { m.sendSr with srState := .active } else m

variable (bs : List BufferStatus)

/-- `GetTotalBufSize`. -/
def totalBufSize : Nat :=
  bs.foldl (fun ret b => (ret + (b.txQueueSize + b.retxQueueSize + b.statusPduSize)) % 2 ^ 32) 0

/-- The reports after a BSR was sent, or none. -/
def afterBsr (bsr : Option (List Nat)) : NrUeMac :=
  { m with
    ulBsrReceived := bs
    sent := if bsr.isSome then m.rnti :: m.sent else m.sent }

/-- `ProcessUlDci`. A retransmission sends the packets of the HARQ process, and a
BSR. -/
def processUlDci (rlc : Rlc) (dci : UlDci) : Except MacError NrUeMac :=
  let m := { m with ulDci := some dci }
  let c := m.context dci
  if dci.ndi = 0 then
    if dci.harqProcess < m.numHarqProcess then do
      let (_, bsr) ← sendBufferStatusReport c m.ulBsrReceived .init
      .ok (m.afterBsr m.ulBsrReceived bsr)
    else .error .outOfRange
  else if dci.ndi = 1 then do
    let (bs, t) ← sendNewData c rlc m.ulBsrReceived .init
    let (t, bsr) ← sendBufferStatusReport c bs t
    let m := m.afterBsr bs bsr
    if totalBufSize bs = 0 then
      let m := { m with srState := .inactive }
      -- an empty PDU where nothing was used
      if t.ulDciTotalUsed = 0 then do
        let _ ← transmitPdu c 3 0 t
        .ok m
      else .ok m
    else .ok m
  else .ok m

/-- `RecvRaResponse`, in which the RRC, notified of the success, may have the RLC entities report
what they have to send. What SRB 0 reported is sent with the grant of the response. -/
def recvRaResponse (rnti : Nat) (dci : UlDci)
    (reports : List (Shuffle × BufferStatus × Bool)) (rlc : Rlc) : Except MacError NrUeMac := do
  let m ← reports.foldlM (fun m r => m.transmitBufferStatusReport r.1 r.2.1 r.2.2)
    { m with rnti, ulDci := some dci }
  if (Keyed.find? LcInfo.lcid 0 m.lcInfoMap).isSome then
    match Keyed.find? BufferStatus.lcid 0 m.ulBsrReceived with
    | none => .ok m
    | some b =>
      if 0 < b.txQueueSize then
        if b.txQueueSize < dci.tbSize then do
          let _ ← notifyTxOpportunity (m.context dci) rlc 0 dci.tbSize .init
          .ok { m with ulBsrReceived := Keyed.erase BufferStatus.lcid 0 m.ulBsrReceived }
        else .error .assertion
      else .ok m
  else .error .assertion

/-- `DoReset`. -/
def reset : NrUeMac :=
  { m with
    lcInfoMap := m.lcInfoMap.filter fun i => i.lcid = 0
    rnti := 0
    ulBsrReceived := []
    sent := [] }

def addLc (i : LcInfo) : Except MacError NrUeMac :=
  if i.lcid ∈ m.lcInfoMap.map LcInfo.lcid then .error .assertion
  else .ok { m with lcInfoMap := i :: m.lcInfoMap }

/-- `DoRemoveLc`. -/
def removeLc (lcid : Nat) : Except MacError NrUeMac :=
  if lcid ∈ m.lcInfoMap.map LcInfo.lcid then
    .ok { m with
      lcInfoMap := Keyed.erase LcInfo.lcid lcid m.lcInfoMap
      ulBsrReceived := Keyed.erase BufferStatus.lcid lcid m.ulBsrReceived }
  else .error .assertion

end NrUeMac

/-- What happens to the MAC. `SetRnti` stands also for the RNTI of a random access without
contention. -/
inductive SrAction
  | report (order : Shuffle) (b : BufferStatus) (expBsrTimer : Bool)
  | slotIndication
  | ulDci (rlc : Rlc) (dci : UlDci)
  | raResponse (rnti : Nat) (dci : UlDci) (reports : List (Shuffle × BufferStatus × Bool))
      (rlc : Rlc)
  | reset
  | setRnti (rnti : Nat)
  | addLc (i : LcInfo)
  | removeLc (lcid : Nat)

namespace NrUeMac

variable (m : NrUeMac)

/-- One step. -/
def step : SrAction → Except MacError NrUeMac
  | .report order b expBsrTimer => m.transmitBufferStatusReport order b expBsrTimer
  | .slotIndication => .ok m.slotIndication
  | .ulDci rlc dci => m.processUlDci rlc dci
  | .raResponse rnti dci reports rlc => m.recvRaResponse rnti dci reports rlc
  | .reset => .ok m.reset
  | .setRnti rnti => .ok { m with rnti }
  | .addLc i => m.addLc i
  | .removeLc lcid => m.removeLc lcid

/-! ## The state and what it says -/

/-- The bytes that were reported and not sent. -/
def pending (bs : List BufferStatus) : Nat :=
  (bs.map fun b => b.txQueueSize + b.retxQueueSize + b.statusPduSize).sum

/-- `ACTIVE`: the cell got a request or a BSR with the RNTI of the UE. `INACTIVE`: nothing is to be
sent. -/
structure Informed : Prop where
  active : m.srState = .active → m.rnti ∈ m.sent
  inactive : m.srState = .inactive → pending m.ulBsrReceived = 0

/-- What must not happen. -/
def Guard : SrAction → Prop
  | .report _ _ expBsrTimer => ¬(expBsrTimer = true ∧ m.srState = .active ∧ m.ulDci = none)
  | .slotIndication => m.srState = .toSend → m.rnti ≠ 0
  | .ulDci _ dci => dci.ndi = 1 → pending m.ulBsrReceived < 2 ^ 32
  | .raResponse rnti _ _ _ => m.srState = .active → rnti ∈ m.sent
  | .reset => m.srState ≠ .active
  | .setRnti rnti => m.srState = .active → rnti ∈ m.sent
  | .addLc _ | .removeLc _ => True

instance : DecidablePred m.Guard
  | .report _ _ _ => inferInstanceAs (Decidable ¬ _)
  | .slotIndication => inferInstanceAs (Decidable (_ → _))
  | .ulDci _ _ => inferInstanceAs (Decidable (_ → _))
  | .raResponse _ _ _ _ => inferInstanceAs (Decidable (_ → _))
  | .reset => inferInstanceAs (Decidable (_ ≠ _))
  | .setRnti _ => inferInstanceAs (Decidable (_ → _))
  | .addLc _ | .removeLc _ => inferInstanceAs (Decidable True)

theorem totalBufSize_eq (bs : List BufferStatus) : totalBufSize bs = pending bs % 2 ^ 32 := by
  have hfold : ∀ (bs : List BufferStatus) (ret : Nat), ret < 2 ^ 32 →
      bs.foldl (fun ret b => (ret + (b.txQueueSize + b.retxQueueSize + b.statusPduSize)) % 2 ^ 32)
        ret = (ret + pending bs) % 2 ^ 32 := by
    intro bs
    induction bs with
    | nil => exact fun ret hret => (Nat.mod_eq_of_lt hret).symm
    | cons b bs ih =>
      intro ret _
      rw [foldl_cons, ih _ (Nat.mod_lt _ (by decide)), Nat.mod_add_mod, Nat.add_assoc]
      rfl
  rw [totalBufSize, hfold bs 0 (by decide), Nat.zero_add]

theorem pending_reduced {bs bs' : List BufferStatus} (h : Forall₂ Reduced bs bs') :
    pending bs' ≤ pending bs := by
  induction h with
  | nil => exact le_rfl
  | cons hb _ ih =>
    have htx := hb.tx
    have hretx := hb.retx
    have hstatus := hb.status
    simp only [pending, map_cons, sum_cons] at ih ⊢
    omega

theorem pending_erase (lcid : Nat) (bs : List BufferStatus) :
    pending (Keyed.erase BufferStatus.lcid lcid bs) ≤ pending bs :=
  (List.filter_sublist.map _).sum_le_sum fun _ _ => Nat.zero_le _

/-! ## Steps -/

variable {m : NrUeMac}

section
variable (h : m.Informed)
include h

theorem spec_transmitBufferStatusReport {order : Shuffle} {b : BufferStatus} {exp : Bool}
    (hdci : ¬(exp = true ∧ m.srState = .active ∧ m.ulDci = none)) :
    Spec (· ≠ .nullPointer) (fun t => t.Informed ∧ t.ulDci = m.ulDci)
      (m.transmitBufferStatusReport order b exp) := by
  have hstate : (m.storeReport order b).srState = m.srState := rfl
  have hulDci : (m.storeReport order b).ulDci = m.ulDci := rfl
  unfold transmitBufferStatusReport
  dsimp only
  rw [hstate, hulDci]
  cases hsr : m.srState with
  | inactive => exact ⟨⟨nofun, nofun⟩, rfl⟩
  | toSend =>
    refine ⟨⟨fun ha => ?_, fun hi => ?_⟩, rfl⟩
    · exact nomatch hsr.symm.trans ha
    · exact nomatch hsr.symm.trans hi
  | active =>
    have hsame : (m.storeReport order b).Informed :=
      ⟨fun _ => h.active hsr, fun hi => nomatch hsr.symm.trans hi⟩
    dsimp only
    split
    · next hexp =>
      cases hd : m.ulDci with
      | none => exact absurd ⟨hexp, hsr, hd⟩ hdci
      | some dci =>
        dsimp only
        split
        · exact ⟨⟨nofun, nofun⟩, rfl⟩
        · exact ⟨hsame, hd⟩
    · exact ⟨hsame, rfl⟩

theorem informed_slotIndication (hrnti : m.srState = .toSend → m.rnti ≠ 0) :
    m.slotIndication.Informed := by
  unfold slotIndication
  split
  · next hsr =>
    refine ⟨fun _ => ?_, nofun⟩
    rw [sendSr, if_neg (hrnti hsr)]
    exact mem_cons_self
  · exact h

theorem Informed.afterBsr {bs : List BufferStatus} (bsr : Option (List Nat))
    (hle : pending bs ≤ pending m.ulBsrReceived) : (m.afterBsr bs bsr).Informed := by
  refine ⟨fun ha => ?_, fun hi => ?_⟩
  · have hmem := h.active ha
    dsimp only [NrUeMac.afterBsr]
    split
    · exact mem_cons_of_mem _ hmem
    · exact hmem
  · have := h.inactive hi
    dsimp only [NrUeMac.afterBsr]
    omega

theorem spec_processUlDci {rlc : Rlc} {dci : UlDci}
    (hpending : dci.ndi = 1 → pending m.ulBsrReceived < 2 ^ 32) :
    Spec (· ≠ .nullPointer) Informed (m.processUlDci rlc dci) := by
  have h' : ({ m with ulDci := some dci } : NrUeMac).Informed := ⟨h.active, h.inactive⟩
  unfold processUlDci
  dsimp only
  split
  · split
    · exact spec_sendBufferStatusReport_error.bind fun r _ => h'.afterBsr r.2 le_rfl
    · nofun
  · split
    · next hndi =>
      refine reduced_sendNewData.bind fun ⟨bs, t⟩ hred => ?_
      refine spec_sendBufferStatusReport_error.bind fun ⟨t', bsr⟩ _ => ?_
      have hle := pending_reduced hred
      have hinformed := h'.afterBsr bsr hle
      dsimp only
      split
      · next hzero =>
        -- without a wrap, nothing is pending
        have hnone : pending bs = 0 := by
          have hlt := hpending hndi
          rw [totalBufSize_eq] at hzero
          dsimp only at hle
          omega
        split
        · refine (Spec.mono (Q := fun _ => True) ?_ (fun _ => id) fun _ => id).bind fun t'' _ => ?_
          · unfold transmitPdu
            split
            · nofun
            · dsimp only
              split <;> first | trivial | nofun
          · exact ⟨nofun, fun _ => hnone⟩
        · exact ⟨nofun, fun _ => hnone⟩
      · exact hinformed
    · exact h'

theorem spec_recvRaResponse {rnti : Nat} {dci : UlDci}
    {reports : List (Shuffle × BufferStatus × Bool)} {rlc : Rlc}
    (hrnti : m.srState = .active → rnti ∈ m.sent) :
    Spec (· ≠ .nullPointer) Informed (m.recvRaResponse rnti dci reports rlc) := by
  have h' : ({ m with rnti, ulDci := some dci } : NrUeMac).Informed := ⟨hrnti, h.inactive⟩
  unfold recvRaResponse
  refine (Spec.foldlM_mem (P := fun m => m.Informed ∧ m.ulDci = some dci) (fun {m r} _ hm => ?_)
    ⟨h', rfl⟩).bind fun m' hm' => ?_
  · refine (spec_transmitBufferStatusReport hm.1 fun hnone => ?_).imp fun t ht =>
      ⟨ht.1, ht.2.trans hm.2⟩
    exact nomatch hm.2.symm.trans hnone.2.2
  · split
    · split
      · exact hm'.1
      · split
        · split
          · refine spec_notifyTxOpportunity_error.bind fun t _ => ⟨hm'.1.active, fun hi => ?_⟩
            have := hm'.1.inactive hi
            have := pending_erase 0 m'.ulBsrReceived
            dsimp only
            omega
          · exact spec_error.2 (by decide)
        · exact hm'.1
    · exact spec_error.2 (by decide)

theorem spec_step {a : SrAction} (hg : m.Guard a) :
    Spec (· ≠ .nullPointer) Informed (m.step a) := by
  cases a with
  | report order b exp => exact (spec_transmitBufferStatusReport h hg).imp fun t ht => ht.1
  | slotIndication => exact informed_slotIndication h hg
  | ulDci rlc dci => exact spec_processUlDci h hg
  | raResponse rnti dci reports rlc => exact spec_recvRaResponse h hg
  | reset => exact ⟨fun ha => absurd ha hg, fun _ => rfl⟩
  | setRnti rnti => exact ⟨hg, h.inactive⟩
  | addLc i =>
    simp only [step, addLc]
    split
    · nofun
    · exact ⟨h.active, h.inactive⟩
  | removeLc lcid =>
    simp only [step, removeLc]
    split
    · refine ⟨h.active, fun hi => ?_⟩
      have := h.inactive hi
      have := pending_erase lcid m.ulBsrReceived
      dsimp only
      omega
    · nofun

end

/-! ## Runs -/

/-- The runs from the MAC that is constructed. -/
def Runs (numHarqProcess : Nat) (ok : NrUeMac → SrAction → Prop) (m : NrUeMac) : Prop :=
  Lts.Run (fun m a m' => m.step a = .ok m') ok (.init numHarqProcess) m

/-- In a run that keeps to the guard, the state says what is the case, and no step that the guard
allows reads a grant that there is not. -/
theorem informed_of_run {numHarqProcess : Nat} (h : Runs numHarqProcess Guard m) :
    m.Informed ∧ ∀ a, m.Guard a → m.step a ≠ .error .nullPointer := by
  have hinformed : m.Informed :=
    Lts.Run.invariant (I := Informed) (fun hI hg hst => (spec_step hI hg).ok hst)
      ⟨(fun ha => nomatch (show SrBsrMachine.inactive = .active from ha)), fun _ => rfl⟩ h
  refine ⟨hinformed, fun a hg herr => ?_⟩
  exact (spec_step hinformed hg).error herr rfl

/-- A UE with RNTI 1 reports 100 bytes, sends a request, and then the bytes with the grant that it
gets. -/
theorem informed_of_run_grant : ∃ m : NrUeMac, m.sent = [1, 1] ∧ m.srState = .inactive ∧
    m.Informed := by
  obtain ⟨m, hm, hsent, hsr⟩ : ∃ m, Lts.execs Guard (fun m a => (m.step a).toOption) (init 16)
      [.addLc ⟨3, 1⟩, .setRnti 1, .report .id ⟨3, 100, 0, 0⟩ false, .slotIndication,
        .ulDci .full ⟨0, 1, 0, 200⟩] = some m ∧ m.sent = [1, 1] ∧ m.srState = .inactive :=
    ⟨_, rfl, rfl, rfl⟩
  exact ⟨m, hsent, hsr, (informed_of_run (Lts.run_of_execs ok_of_toOption hm)).1⟩

/-- After a reset, before it has an RNTI, a UE sends no request but takes it for sent. -/
theorem request_swallowed : ¬∀ m, Runs 16 Lts.anyStep m →
    m.Informed ∧ ∀ a, m.step a ≠ .error .nullPointer := by
  intro h
  obtain ⟨m, hm, hrnti, hsr⟩ : ∃ m, Lts.execs Lts.anyStep (fun m a => (m.step a).toOption) (init 16)
      [.reset, .report .id ⟨3, 100, 0, 0⟩ false, .slotIndication] = some m ∧
        m.rnti ∉ m.sent ∧ m.srState = .active :=
    ⟨_, rfl, by decide, rfl⟩
  exact hrnti ((h m (Lts.run_of_execs ok_of_toOption hm)).1.active hsr)

end NrUeMac

end OranNs3.UeGrant
