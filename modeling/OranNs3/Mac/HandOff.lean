import OranNs3.Ra.Model
import OranNs3.Sched.Known
import Mathlib.Data.Finset.Card

/-!
# The hand-off from the MAC of the gNB to its scheduler

`NrGnbMac` (`nr-gnb-mac.cc`) collects what it receives in one list for each kind of message, and
hands the lists to the scheduler at the next slot indication of the matching direction; preambles
wait for the next UL slot. Requests are recorded with the RNTIs that the scheduler knows when it
gets them. Inputs are the T-C-RNTIs of the RRC, the beams of the UEs and what the scheduler's
triggers take; a CQI is the RNTI of its UE, a MAC control element its RNTI and type.

`DoRemoveUe` clears none of the lists, and the list of SRs that the scheduler keeps need not grow as
much as the one that it gets. `handOff_of_run` is about the runs where this does no harm.
-/

namespace OranNs3

open Fallible Finset List Lts

/-! ## The MAC -/

/-- Where the MAC stops: on an assertion of its own, or on one of the scheduler, of which the one on
the size of the list of SRs is set apart. -/
inductive HandOffError
  | mac
  | srListSize
  | sched (e : SchedError)
deriving DecidableEq

/-- The scheduler stops on an RNTI that it does not know, or on the size of the list of SRs. -/
def HandOffError.Forbidden (e : HandOffError) : Prop := e = .srListSize ∨ e = .sched .missingUe
deriving Decidable

/-- The attributes of the scheduler that the reports read. -/
structure HandOffConfig where
  sched : SchedConfig
  fixedMcsDl : Bool := false
  cqiTimersThreshold : Nat
  slotPeriod : Nat

/-- `MacCeElement::MacCeType_e`. -/
inductive MacCeType
  | bsr
  | crnti
  | phr
deriving DecidableEq

/-- `MacCeElement`. -/
structure MacCeElement where
  rnti : Nat
  macCeType : MacCeType
deriving DecidableEq

/-- The RNTIs of a request to the scheduler, and those that it knows then. -/
structure Request where
  rntis : List Nat
  known : List Nat
deriving DecidableEq

/-- `NrGnbMac` with its scheduler: of the maps over RNTIs the keys, of `m_receivedRachPreambleCount`
the preambles that it counts. -/
structure NrGnbMac where
  dlCqiReceived : List Nat := []
  srRntiList : List Nat := []
  ulCeReceived : List MacCeElement := []
  dlHarqInfoReceived : List HarqInfo := []
  ulHarqInfoReceived : List HarqInfo := []
  rlcAttached : List Nat := []
  miDlHarqProcessesPackets : List Nat := []
  allocatedNcRaPreambleMap : List NcRaPreambleInfo := []
  receivedRachPreambles : List Nat := []
  rapIdRntiMap : List (Nat × Nat) := []
  sched : Sched := .init
  requests : List Request := []
deriving DecidableEq

/-- A call of the scheduler. -/
def onSched {β : Type} (x : Except SchedError β) : Except HandOffError β := x.mapError .sched

/-- `DoSchedDlCqiInfoReq`: the UEs are looked up. -/
def doSchedDlCqiInfoReq (c : HandOffConfig) (s : Sched) (rntis : List Nat) :
    Except SchedError Unit :=
  if c.fixedMcsDl then .ok ()
  else if c.cqiTimersThreshold < c.slotPeriod then .error .assertion
  else rntis.forM fun rnti => (findUe s.ueMap rnti).map fun _ => ()

/-- `DoSchedUlMacCtrlInfoReq` with `BSRReceivedFromUe`: the UEs of the BSRs
are looked up. -/
def doSchedUlMacCtrlInfoReq (s : Sched) (ces : List MacCeElement) : Except SchedError Unit :=
  ces.forM fun ce =>
    if ce.macCeType = .bsr then (findUe s.ueMap ce.rnti).map fun _ => () else .ok ()

namespace NrGnbMac

variable (c : HandOffConfig) (m : NrGnbMac)

/-- A request to the scheduler. -/
def request (rntis : List Nat) : NrGnbMac :=
  { m with requests := m.requests ++ [⟨rntis, m.sched.rntis⟩] }

def doAddUe (rnti : Nat) (beam : BeamId) (order : Shuffle) : Except HandOffError NrGnbMac :=
  if rnti ∈ m.rlcAttached then .error .mac
  else
    .ok { m with
      rlcAttached := rnti :: m.rlcAttached
      sched := doCschedUeConfigReq c.sched m.sched rnti beam order
      miDlHarqProcessesPackets := m.miDlHarqProcessesPackets.insert rnti }

/-- The RNTI for which a preamble was allocated. -/
def reserved (preambleId : Nat) : Option Nat :=
  (Keyed.find? NcRaPreambleInfo.preambleId preambleId m.allocatedNcRaPreambleMap).map
    NcRaPreambleInfo.rnti

def doRemoveUe (rnti : Nat) : Except HandOffError NrGnbMac :=
  (onSched (doCschedUeReleaseReq m.sched rnti)).map fun s =>
    { m with
      sched := s
      miDlHarqProcessesPackets := m.miDlHarqProcessesPackets.filter (· ≠ rnti)
      rlcAttached := m.rlcAttached.filter (· ≠ rnti)
      allocatedNcRaPreambleMap := m.allocatedNcRaPreambleMap.filter fun i => i.rnti ≠ rnti
      receivedRachPreambles := m.receivedRachPreambles.filter fun id => m.reserved id ≠ some rnti }

/-- `DoDlHarqFeedback`; an ACK clears the packets of its process. -/
def doDlHarqFeedback (f : HarqInfo) : Except HandOffError NrGnbMac :=
  if f.rnti ∈ m.miDlHarqProcessesPackets then
    if f.isReceivedOk ∧ c.sched.numHarqProcess ≤ f.harqProcessId then .error .mac
    else .ok { m with dlHarqInfoReceived := m.dlHarqInfoReceived ++ [f] }
  else .error .mac

/-- The loop of `ProcessRaPreambles`: the accesses that are answered. Allocating a
T-C-RNTI adds its UE. -/
def raLoop (c : HandOffConfig) (allocate : Nat → Option Nat) (beam : Nat → BeamId)
    (order : Shuffle) : List Nat → NrGnbMac → Except HandOffError (NrGnbMac × List Rar)
  | [], m => .ok (m, [])
  | id :: ids, m =>
    if 1 < m.receivedRachPreambles.count id then raLoop c allocate beam order ids m
    else
      match m.reserved id, allocate id with
      | some rnti, _ => (raLoop c allocate beam order ids m).map fun r => (r.1, ⟨id, rnti⟩ :: r.2)
      | none, none => (raLoop c allocate beam order ids m).map fun r => (r.1, ⟨id, 0⟩ :: r.2)
      | none, some rnti =>
        m.doAddUe c rnti (beam rnti) order >>= fun m =>
          (raLoop c allocate beam order ids m).map fun r => (r.1, ⟨id, rnti⟩ :: r.2)

/-- The preambles received, in the order of the map. -/
def receivedIds : List Nat := m.receivedRachPreambles.dedup.insertionSort (· ≤ ·)

/-- `ProcessRaPreambles`, with `DoSchedDlRachInfoReq` of the scheduler. -/
def processRaPreambles (allocate : Nat → Option Nat) (beam : Nat → BeamId)
    (order : Shuffle) (m : NrGnbMac) : Except HandOffError NrGnbMac :=
  (raLoop c allocate beam order m.receivedIds m).map fun r =>
    { r.1 with
      receivedRachPreambles := []
      rapIdRntiMap := r.2.foldl GnbMac.insertRapId r.1.rapIdRntiMap
      sched := { r.1.sched with rachList := r.2.map fun rar => ⟨rar.rnti, 144⟩ } }

/-- The CQIs of `DoSlotDlIndication`. -/
def reportDlCqi : Except HandOffError NrGnbMac :=
  (onSched (doSchedDlCqiInfoReq c m.sched m.dlCqiReceived)).map fun _ =>
    { m.request m.dlCqiReceived with dlCqiReceived := [] }

/-- The beams of the UEs that are attached. -/
def configureUes (beam : Nat → BeamId) (order : Shuffle) (m : NrGnbMac) : NrGnbMac :=
  { m with
    sched := (order.app m.rlcAttached).foldl
      (fun s rnti => doCschedUeConfigReq c.sched s rnti (beam rnti) order) m.sched }

/-- The trigger of `DoSlotDlIndication`. -/
def triggerDl (inp : DlTrigger) (m : NrGnbMac) : Except HandOffError NrGnbMac :=
  (onSched (doSchedDlTriggerReq c.sched m.sched { inp with harqInfoList :=
    m.dlHarqInfoReceived })).map
    fun r =>
      { m.request (m.dlHarqInfoReceived.map (·.rnti)) with dlHarqInfoReceived := [], sched := r.1 }

def doSlotDlIndication (inp : DlTrigger) (beam : Nat → BeamId) (order : Shuffle)
    (m : NrGnbMac) : Except HandOffError NrGnbMac :=
  m.reportDlCqi c >>= fun m => (m.configureUes c beam order).triggerDl c inp

/-- The SRs of `DoSlotUlIndication`. -/
def reportSr : Except HandOffError NrGnbMac :=
  ((doSchedUlSrInfoReq m.sched m.srRntiList).mapError fun _ => .srListSize).map fun s =>
    { m.request m.srRntiList with srRntiList := [], sched := s }

/-- The BSRs of `DoSlotUlIndication`. -/
def reportMacCe : Except HandOffError NrGnbMac :=
  if m.ulCeReceived.isEmpty then .ok m
  else
    (onSched (doSchedUlMacCtrlInfoReq m.sched m.ulCeReceived)).map fun _ =>
      { m.request (m.ulCeReceived.map (·.rnti)) with ulCeReceived := [] }

/-- The trigger of `DoSlotUlIndication`. -/
def triggerUl (inp : UlTrigger) (m : NrGnbMac) : Except HandOffError NrGnbMac :=
  (onSched (doSchedUlTriggerReq c.sched m.sched { inp with harqInfoList :=
    m.ulHarqInfoReceived })).map
    fun r =>
      { m.request (m.ulHarqInfoReceived.map (·.rnti)) with ulHarqInfoReceived := [], sched := r.1 }

def doSlotUlIndication (inp : UlTrigger) (allocate : Nat → Option Nat)
    (beam : Nat → BeamId) (order : Shuffle) (m : NrGnbMac) : Except HandOffError NrGnbMac :=
  (if m.receivedRachPreambles.isEmpty then .ok m else m.processRaPreambles c allocate beam order)
    >>= fun m => m.reportSr >>= fun m => m.reportMacCe >>= fun m => m.triggerUl c inp

end NrGnbMac

/-- What happens at the MAC: control messages, as the component carrier manager hands them back,
preambles, calls of the RRC, and slot indications. -/
inductive MacAction
  | receiveSr (rnti : Nat)
  | receiveDlCqi (rnti : Nat)
  | receiveDlHarq (f : HarqInfo)
  | receiveUlHarq (f : HarqInfo)
  | receiveMacCe (ce : MacCeElement)
  | receiveRachPreamble (raId : Nat)
  | allocateNcRaPreamble (info : NcRaPreambleInfo)
  | addUe (rnti : Nat) (beam : BeamId) (order : Shuffle)
  | removeUe (rnti : Nat)
  | slotDl (inp : DlTrigger) (beam : Nat → BeamId) (order : Shuffle)
  | slotUl (inp : UlTrigger) (allocate : Nat → Option Nat) (beam : Nat → BeamId) (order : Shuffle)

namespace NrGnbMac

/-- One action. -/
def act (c : HandOffConfig) (m : NrGnbMac) : MacAction → Except HandOffError NrGnbMac
  | .receiveSr rnti => .ok { m with srRntiList := m.srRntiList ++ [rnti] }
  | .receiveDlCqi rnti =>
    if rnti = 0 then .error .mac else .ok { m with dlCqiReceived := m.dlCqiReceived ++ [rnti] }
  | .receiveDlHarq f => m.doDlHarqFeedback c f
  | .receiveUlHarq f => .ok { m with ulHarqInfoReceived := m.ulHarqInfoReceived ++ [f] }
  | .receiveMacCe ce => .ok { m with ulCeReceived := m.ulCeReceived ++ [ce] }
  | .receiveRachPreamble raId =>
    .ok { m with receivedRachPreambles := m.receivedRachPreambles ++ [raId % 256] }
  | .allocateNcRaPreamble info =>
    .ok { m with
      allocatedNcRaPreambleMap :=
        info :: Keyed.erase NcRaPreambleInfo.preambleId info.preambleId m.allocatedNcRaPreambleMap }
  | .addUe rnti beam order => m.doAddUe c rnti beam order
  | .removeUe rnti => m.doRemoveUe rnti
  | .slotDl inp beam order => m.doSlotDlIndication c inp beam order
  | .slotUl inp allocate beam order => m.doSlotUlIndication c inp allocate beam order

/-- The steps. -/
def Step (c : HandOffConfig) (m : NrGnbMac) (a : MacAction) (m' : NrGnbMac) : Prop :=
  m.act c a = .ok m'

/-- The RNTIs of what waits in the MAC. -/
def pending (m : NrGnbMac) : List Nat :=
  m.dlCqiReceived ++ m.srRntiList ++ m.ulCeReceived.map (·.rnti) ++ m.dlHarqInfoReceived.map
    (·.rnti) ++ m.ulHarqInfoReceived.map (·.rnti)

end NrGnbMac

/-- The RNTIs of what waits in the scheduler. -/
def Sched.pending (s : Sched) : List Nat :=
  s.srList ++ s.dlHarqToRetransmit.map (·.rnti) ++ s.ulHarqToRetransmit.map (·.rnti)

/-- SRs that the scheduler does not have make up for those that are repeated. -/
def SrsFit (srList rntis : List Nat) : Prop :=
  rntis.length ≤ srList.length + (rntis.toFinset \ srList.toFinset).card
deriving Decidable

/-- Messages are from UEs that are attached; a UE is removed when it is attached and nothing of it
waits; and at a UL slot the SRs are not repeated too often. -/
def HandOffOk (m : NrGnbMac) : MacAction → Prop
  | .receiveSr rnti => rnti ∈ m.rlcAttached
  | .receiveDlCqi rnti => rnti ∈ m.rlcAttached
  | .receiveUlHarq f => f.rnti ∈ m.rlcAttached
  | .receiveMacCe ce => ce.rnti ∈ m.rlcAttached
  | .removeUe rnti => rnti ∈ m.rlcAttached ∧ rnti ∉ m.pending ∧ rnti ∉ m.sched.pending
  | .slotUl _ _ _ _ => SrsFit m.sched.srList m.srRntiList
  | _ => True

instance (m : NrGnbMac) : DecidablePred (HandOffOk m)
  | .receiveSr _ | .receiveDlCqi _ => inferInstanceAs (Decidable (_ ∈ _))
  | .receiveUlHarq _ => inferInstanceAs (Decidable (_ ∈ _))
  | .receiveMacCe _ => inferInstanceAs (Decidable (_ ∈ _))
  | .removeUe _ => inferInstanceAs (Decidable (_ ∧ _))
  | .slotUl _ _ _ _ => inferInstanceAs (Decidable (SrsFit m.sched.srList m.srRntiList))
  | .receiveDlHarq _ | .receiveRachPreamble _ | .allocateNcRaPreamble _ | .addUe _ _ _
  | .slotDl _ _ _ => inferInstanceAs (Decidable True)

/-! ## The requests -/

section requests
variable {c : HandOffConfig} {m m' : NrGnbMac} {s : Sched} {rntis : List Nat}

theorem length_mergeSr : ∀ {rntis srList : List Nat},
    (mergeSr srList rntis).length = srList.length + (rntis.toFinset \ srList.toFinset).card
  | [], srList => by
    rw [toFinset_nil, empty_sdiff, card_empty]
    rfl
  | r :: rntis, srList => by
    have hstep : mergeSr srList (r :: rntis) =
        mergeSr (if r ∈ srList then srList else srList ++ [r]) rntis := rfl
    rw [hstep, toFinset_cons]
    by_cases hr : r ∈ srList
    · rw [if_pos hr, length_mergeSr, insert_sdiff_of_mem _ (mem_toFinset.2 hr)]
    · -- one more of the list, and one less that it does not have
      have hr' : r ∉ srList.toFinset := fun h => hr (mem_toFinset.1 h)
      have hnew : (srList ++ [r]).toFinset = insert r srList.toFinset := by
        ext x
        simp
      have hins : insert r (rntis.toFinset \ srList.toFinset) =
          insert r ((rntis.toFinset \ srList.toFinset).erase r) := by
        ext x
        by_cases hx : x = r <;> simp [hx]
      rw [if_neg hr, length_mergeSr, hnew, sdiff_insert, insert_sdiff_of_notMem _ hr', hins,
        card_insert_of_notMem (notMem_erase r _), length_append, length_singleton]
      omega

theorem spec_onSched {β : Type} {E : SchedError → Prop} {E' : HandOffError → Prop} {Q : β → Prop}
    {x : Except SchedError β} (h : Spec E Q x) (hE : ∀ e, E e → E' (.sched e)) :
    Spec E' Q (onSched x) := by
  cases x with
  | ok a => exact h
  | error e => exact hE e h

theorem not_forbidden {e : SchedError} (h : e ≠ .missingUe) :
    ¬ (HandOffError.sched e).Forbidden := by
  rintro (h' | h')
  · cases h'
  · exact h (HandOffError.sched.inj h')

theorem forM_lookups {γ : Type} {f : γ → Except SchedError Unit} : ∀ {l : List γ},
    (∀ x ∈ l, f x = .ok ()) → l.forM f = .ok ()
  | [], _ => rfl
  | x :: l, h => by
    rw [forM_eq_forM, forM_cons, h x mem_cons_self]
    exact forM_lookups fun y hy => h y (mem_cons_of_mem x hy)

theorem lookup_ok {rnti : Nat} (h : rnti ∈ s.rntis) :
    ((findUe s.ueMap rnti).map fun _ => ()) = .ok () := by
  obtain ⟨u, hu⟩ := Keyed.exists_find? h
  rw [findUe, hu]
  rfl

theorem spec_doSchedDlCqiInfoReq (h : ∀ r ∈ rntis, r ∈ s.rntis) :
    Spec (· = .assertion) (fun _ => True) (doSchedDlCqiInfoReq c s rntis) := by
  rw [doSchedDlCqiInfoReq]
  split
  · trivial
  · split
    · rfl
    · rw [forM_lookups fun r hr => lookup_ok (h r hr)]
      trivial

theorem doSchedUlMacCtrlInfoReq_ok {ces : List MacCeElement} (h : ∀ ce ∈ ces, ce.rnti ∈ s.rntis) :
    doSchedUlMacCtrlInfoReq s ces = .ok () := by
  refine forM_lookups fun ce hce => ?_
  split
  · exact lookup_ok (h ce hce)
  · rfl

/-- What is handed over is known. -/
def Request.Ok (q : Request) : Prop := ∀ r ∈ q.rntis, r ∈ q.known

/-- Between the actions everything that waits is of UEs that the scheduler knows. -/
structure HandOffInv (c : HandOffConfig) (m : NrGnbMac) : Prop where
  sched : SchedOk c.sched m.sched
  lists : ListsKnown m.sched
  attached : ∀ r ∈ m.rlcAttached, r ∈ m.sched.rntis
  packets : ∀ r ∈ m.miDlHarqProcessesPackets, r ∈ m.sched.rntis
  pending : ∀ r ∈ m.pending, r ∈ m.sched.rntis
  requests : ∀ q ∈ m.requests, q.Ok

theorem HandOffInv.next (h : HandOffInv c m) (hsched : SchedOk c.sched m'.sched)
    (hlists : ListsKnown m'.sched) (hrntis : ∀ r ∈ m.sched.rntis, r ∈ m'.sched.rntis)
    (hattached : m'.rlcAttached = m.rlcAttached)
    (hpackets : m'.miDlHarqProcessesPackets = m.miDlHarqProcessesPackets)
    (hpending : ∀ r ∈ m'.pending, r ∈ m.pending) (hrequests : ∀ q ∈ m'.requests, q.Ok) :
    HandOffInv c m' where
  sched := hsched
  lists := hlists
  attached r hr := hrntis r (h.attached r (hattached ▸ hr))
  packets r hr := hrntis r (h.packets r (hpackets ▸ hr))
  pending r hr := hrntis r (h.pending r (hpending r hr))
  requests := hrequests

theorem HandOffInv.request (h : HandOffInv c m) (hrntis : ∀ r ∈ rntis, r ∈ m.sched.rntis) :
    ∀ q ∈ (m.request rntis).requests, q.Ok := by
  intro q hq
  rcases List.mem_append.1 hq with hq | hq
  · exact h.requests q hq
  · obtain rfl := List.mem_singleton.1 hq
    exact hrntis

theorem mem_pending {r : Nat} : r ∈ m.pending ↔ r ∈ m.dlCqiReceived ∨ r ∈ m.srRntiList ∨
    r ∈ m.ulCeReceived.map (·.rnti) ∨ r ∈ m.dlHarqInfoReceived.map (·.rnti) ∨
    r ∈ m.ulHarqInfoReceived.map (·.rnti) := by
  simp only [NrGnbMac.pending, mem_append, or_assoc]

theorem HandOffInv.config (h : HandOffInv c m) (rnti : Nat) (beam : BeamId) (order : Shuffle) :
    SchedOk c.sched (doCschedUeConfigReq c.sched m.sched rnti beam order) ∧
      ListsKnown (doCschedUeConfigReq c.sched m.sched rnti beam order) :=
  ⟨h.sched.ueConfig rnti beam order,
    h.lists.step (c := .ueConfig rnti beam order) h.sched trivial ⟨[], rfl⟩⟩

end requests

/-! ## The actions -/

section actions
variable {c : HandOffConfig} {m m' : NrGnbMac} {beam : Nat → BeamId} {order : Shuffle}
  {allocate : Nat → Option Nat}

/-- A step keeps the invariant, and does not stop on an RNTI or on the size of the list. -/
abbrev Kept (c : HandOffConfig) (x : Except HandOffError NrGnbMac) : Prop :=
  Spec (fun e => ¬ e.Forbidden) (HandOffInv c) x

theorem mac_not_forbidden : ¬ HandOffError.mac.Forbidden := by decide

theorem HandOffInv.receive (h : HandOffInv c m) {r : Nat} (hr : r ∈ m.sched.rntis)
    (hsched : m'.sched = m.sched) (hattached : m'.rlcAttached = m.rlcAttached)
    (hpackets : m'.miDlHarqProcessesPackets = m.miDlHarqProcessesPackets)
    (hpending : ∀ x ∈ m'.pending, x ∈ m.pending ∨ x = r) (hrequests : m'.requests = m.requests) :
    HandOffInv c m' where
  sched := hsched ▸ h.sched
  lists := hsched ▸ h.lists
  attached x hx := hsched ▸ h.attached x (hattached ▸ hx)
  packets x hx := hsched ▸ h.packets x (hpackets ▸ hx)
  pending x hx := by
    rw [hsched]
    rcases hpending x hx with hx | rfl
    · exact h.pending x hx
    · exact hr
  requests q hq := h.requests q (hrequests ▸ hq)

theorem HandOffInv.addUe (h : HandOffInv c m) (rnti : Nat) (b : BeamId) (order : Shuffle) :
    Kept c (m.doAddUe c rnti b order) := by
  rw [NrGnbMac.doAddUe]
  split
  · exact mac_not_forbidden
  · obtain ⟨hsched, hlists⟩ := h.config rnti b order
    refine ⟨hsched, hlists, fun r hr => ?_, fun r hr => ?_, fun r hr =>
    rntis_ueConfig (.inr (h.pending r hr)), h.requests⟩
    · rcases mem_cons.1 hr with rfl | hr
      · exact rntis_ueConfig (.inl rfl)
      · exact rntis_ueConfig (.inr (h.attached r hr))
    · rcases mem_insert_iff.1 hr with rfl | hr
      · exact rntis_ueConfig (.inl rfl)
      · exact rntis_ueConfig (.inr (h.packets r hr))

theorem HandOffInv.removeUe (h : HandOffInv c m) {rnti : Nat} (hatt : rnti ∈ m.rlcAttached)
    (hmac : rnti ∉ m.pending) (hsched : rnti ∉ m.sched.pending) : Kept c (m.doRemoveUe rnti) := by
  simp only [Sched.pending, List.mem_append, List.mem_map, not_or, not_exists, not_and] at hsched
  obtain ⟨⟨hsr, hdl⟩, hul⟩ := hsched
  have hcall : CallKnown m.sched (.ueRelease rnti) := ⟨hsr, hdl, hul⟩
  obtain ⟨u, hu⟩ := Keyed.exists_find? (h.attached rnti hatt)
  have hrelease : doCschedUeReleaseReq m.sched rnti =
      .ok { m.sched with ueMap := Keyed.erase UeInfo.rnti rnti m.sched.ueMap } := by
    rw [doCschedUeReleaseReq, findUe, hu]
    rfl
  have hstep : Sched.Step c.sched m.sched (.ueRelease rnti)
      { m.sched with ueMap := Keyed.erase UeInfo.rnti rnti m.sched.ueMap } := by
    refine ⟨[], ?_⟩
    rw [Sched.call, hrelease]
    rfl
  have hkeep : ∀ r ∈ m.sched.rntis, r ≠ rnti →
      r ∈ (Keyed.erase UeInfo.rnti rnti m.sched.ueMap).map UeInfo.rnti := fun r hr hne =>
    Keyed.mem_keys_erase.2 ⟨hr, hne⟩
  rw [NrGnbMac.doRemoveUe, hrelease]
  refine ⟨h.sched.step hstep, h.lists.step h.sched hcall hstep, fun r hr => ?_, fun r hr => ?_,
    fun r hr => ?_, h.requests⟩
  · obtain ⟨hr, hne⟩ := List.mem_filter.1 hr
    exact hkeep r (h.attached r hr) (of_decide_eq_true hne)
  · obtain ⟨hr, hne⟩ := List.mem_filter.1 hr
    exact hkeep r (h.packets r hr) (of_decide_eq_true hne)
  · refine hkeep r (h.pending r hr) fun heq => ?_
    rw [heq] at hr
    exact hmac hr

theorem spec_raLoop : ∀ {ids : List Nat} {m : NrGnbMac}, HandOffInv c m →
    Spec (fun e => ¬ e.Forbidden) (fun r => HandOffInv c r.1 ∧ r.1.pending = m.pending ∧
      r.1.sched.srList = m.sched.srList ∧ r.1.srRntiList = m.srRntiList)
      (NrGnbMac.raLoop c allocate beam order ids m)
  | [], m, h => ⟨h, rfl, rfl, rfl⟩
  | id :: ids, m, h => by
    rw [NrGnbMac.raLoop]
    split
    · exact spec_raLoop h
    · split
      · exact Spec.map (spec_raLoop h)
      · exact Spec.map (spec_raLoop h)
      · next rnti _ _ =>
        have hsame : ∀ m', m.doAddUe c rnti (beam rnti) order = .ok m' → m'.pending = m.pending ∧
            m'.sched.srList = m.sched.srList ∧ m'.srRntiList = m.srRntiList := by
          intro m' hm'
          rw [NrGnbMac.doAddUe] at hm'
          split at hm'
          · cases hm'
          · cases hm'
            refine ⟨rfl, ?_, rfl⟩
            show (doCschedUeConfigReq _ _ _ _ _).srList = _
            unfold doCschedUeConfigReq
            split <;> rfl
        refine ((h.addUe rnti (beam rnti) order).also hsame).bind fun m' hm' =>
          Spec.map ((spec_raLoop hm'.1).imp fun r hr => ?_)
        obtain ⟨-, h1, h2, h3⟩ := hm'
        exact ⟨hr.1, hr.2.1.trans h1, hr.2.2.1.trans h2, hr.2.2.2.trans h3⟩

section
variable (h : HandOffInv c m)
include h

theorem HandOffInv.processRaPreambles :
    Spec (fun e => ¬ e.Forbidden) (fun m' => HandOffInv c m' ∧ m'.sched.srList = m.sched.srList ∧
      m'.srRntiList = m.srRntiList) (m.processRaPreambles c allocate beam order) := by
  refine Spec.map ((spec_raLoop h).imp fun r hr => ?_)
  obtain ⟨hinv, -, hsr, hrntis⟩ := hr
  refine ⟨?_, hsr, hrntis⟩
  exact ⟨⟨hinv.sched.ues, hinv.sched.beams⟩, ⟨hinv.lists.sr, hinv.lists.dl, hinv.lists.ul⟩,
    hinv.attached, hinv.packets, hinv.pending, hinv.requests⟩

theorem HandOffInv.reportDlCqi : Kept c (m.reportDlCqi c) := by
  have hrntis : ∀ r ∈ m.dlCqiReceived, r ∈ m.sched.rntis := fun r hr =>
    h.pending r (mem_pending.2 (.inl hr))
  refine Spec.map ((spec_onSched (spec_doSchedDlCqiInfoReq hrntis) fun e he => ?_).imp
    fun _ _ => ?_)
  · exact not_forbidden (by rw [he]; decide)
  · refine h.next h.sched h.lists (fun _ => id) rfl rfl (fun r hr => ?_) (h.request hrntis)
    rw [mem_pending] at hr ⊢
    exact hr.imp (fun hr => absurd hr not_mem_nil) id

theorem HandOffInv.configureUes : HandOffInv c (m.configureUes c beam order) := by
  have hloop : ∀ l : List Nat, ∀ {m : NrGnbMac}, HandOffInv c m → HandOffInv c { m with
      sched := l.foldl (fun s rnti => doCschedUeConfigReq c.sched s rnti (beam rnti) order) m.sched
        } := by
    intro l
    induction l with
    | nil => exact fun h => h
    | cons rnti l ih =>
      intro m h
      obtain ⟨hsched, hlists⟩ := h.config rnti (beam rnti) order
      exact ih (m := { m with sched := doCschedUeConfigReq c.sched m.sched rnti (beam rnti) order })
        (h.next hsched hlists (fun _ h => rntis_ueConfig (.inr h)) rfl rfl (fun _ => id) h.requests)
  exact hloop _ h

theorem HandOffInv.triggerDl (inp : DlTrigger) : Kept c (m.triggerDl c inp) := by
  have hrntis : ∀ r ∈ m.dlHarqInfoReceived.map (·.rnti), r ∈ m.sched.rntis := fun r hr =>
    h.pending r (mem_pending.2 (.inr (.inr (.inr (.inl hr)))))
  have hknown : ∀ f ∈ m.dlHarqInfoReceived, f.rnti ∈ m.sched.rntis := fun f hf =>
    hrntis f.rnti (mem_map_of_mem hf)
  have hspec : Spec (FeedbackErr True) _
      (doSchedDlTriggerReq c.sched m.sched { inp with harqInfoList := m.dlHarqInfoReceived }) :=
    spec_dlTrigger h.sched (fun _ => h.lists.dl) fun _ => hknown
  refine Spec.map ((spec_onSched hspec fun e he => not_forbidden he.ne_missingUe).imp
    fun r hr => ?_)
  have hkeys : r.1.rntis = m.sched.rntis := hr.1.place.keys
  refine h.next hr.1.ok (h.lists.triggered hknown (forall_mem_nil _) hr.1) (fun x hx => hkeys ▸ hx)
    rfl rfl (fun x hx => ?_) (h.request hrntis)
  rw [mem_pending] at hx ⊢
  rcases hx with hx | hx | hx | hx | hx
  · exact .inl hx
  · exact .inr (.inl hx)
  · exact .inr (.inr (.inl hx))
  · exact absurd hx not_mem_nil
  · exact .inr (.inr (.inr (.inr hx)))

theorem HandOffInv.reportSr (hfit : SrsFit m.sched.srList m.srRntiList) : Kept c m.reportSr := by
  have hrntis : ∀ r ∈ m.srRntiList, r ∈ m.sched.rntis := fun r hr =>
    h.pending r (mem_pending.2 (.inr (.inl hr)))
  have hok : doSchedUlSrInfoReq m.sched m.srRntiList =
      .ok { m.sched with srList := mergeSr m.sched.srList m.srRntiList } := by
    rw [doSchedUlSrInfoReq, if_pos]
    rw [length_mergeSr]
    exact hfit
  have hstep : Sched.Step c.sched m.sched (.srInfo m.srRntiList)
      { m.sched with srList := mergeSr m.sched.srList m.srRntiList } := by
    refine ⟨[], ?_⟩
    rw [Sched.call, hok]
    rfl
  rw [NrGnbMac.reportSr, hok]
  refine h.next (h.sched.step hstep) (h.lists.step (c := .srInfo m.srRntiList) h.sched hrntis hstep)
    (fun _ => id) rfl rfl (fun r hr => ?_) (h.request hrntis)
  rw [mem_pending] at hr ⊢
  exact hr.imp id (Or.imp (fun hr => absurd hr not_mem_nil) id)

theorem HandOffInv.reportMacCe : Kept c m.reportMacCe := by
  have hrntis : ∀ r ∈ m.ulCeReceived.map (·.rnti), r ∈ m.sched.rntis := fun r hr =>
    h.pending r (mem_pending.2 (.inr (.inr (.inl hr))))
  rw [NrGnbMac.reportMacCe]
  split
  · exact h
  · rw [doSchedUlMacCtrlInfoReq_ok fun ce hce => hrntis ce.rnti (mem_map_of_mem hce)]
    refine h.next h.sched h.lists (fun _ => id) rfl rfl (fun r hr => ?_) (h.request hrntis)
    rw [mem_pending] at hr ⊢
    exact hr.imp id (Or.imp id (Or.imp (fun hr => absurd hr not_mem_nil) id))

theorem HandOffInv.triggerUl (inp : UlTrigger) : Kept c (m.triggerUl c inp) := by
  have hrntis : ∀ r ∈ m.ulHarqInfoReceived.map (·.rnti), r ∈ m.sched.rntis := fun r hr =>
    h.pending r (mem_pending.2 (.inr (.inr (.inr (.inr hr)))))
  have hknown : ∀ f ∈ m.ulHarqInfoReceived, f.rnti ∈ m.sched.rntis := fun f hf =>
    hrntis f.rnti (mem_map_of_mem hf)
  have hspec : Spec (FeedbackErr True) _
      (doSchedUlTriggerReq c.sched m.sched { inp with harqInfoList := m.ulHarqInfoReceived }) :=
    spec_ulTrigger h.sched (fun _ => h.lists.sr) (fun _ => h.lists.ul) fun _ => hknown
  refine Spec.map ((spec_onSched hspec fun e he => not_forbidden he.ne_missingUe).imp
    fun r hr => ?_)
  have hkeys : r.1.rntis = m.sched.rntis := hr.place.keys
  refine h.next hr.ok (h.lists.triggered (forall_mem_nil _) hknown hr) (fun x hx => hkeys ▸ hx) rfl
    rfl (fun x hx => ?_) (h.request hrntis)
  rw [mem_pending] at hx ⊢
  rcases hx with hx | hx | hx | hx | hx
  · exact .inl hx
  · exact .inr (.inl hx)
  · exact .inr (.inr (.inl hx))
  · exact .inr (.inr (.inr (.inl hx)))
  · exact absurd hx not_mem_nil

theorem HandOffInv.slotUl (hfit : SrsFit m.sched.srList m.srRntiList)
    (inp : UlTrigger) : Kept c (m.doSlotUlIndication c inp allocate beam order) := by
  have hpreambles : Spec (fun e => ¬ e.Forbidden) (fun m' => HandOffInv c m' ∧
      m'.sched.srList = m.sched.srList ∧ m'.srRntiList = m.srRntiList)
      (if m.receivedRachPreambles.isEmpty then .ok m
        else m.processRaPreambles c allocate beam order) := by
    split
    · exact ⟨h, rfl, rfl⟩
    · exact h.processRaPreambles
  refine hpreambles.bind fun m' hm' => ?_
  obtain ⟨hm', hsr, hrntis⟩ := hm'
  rw [← hsr, ← hrntis] at hfit
  exact (hm'.reportSr hfit).bind fun _ h => h.reportMacCe.bind fun _ h => h.triggerUl inp

/-- Every action that meets the condition. -/
theorem HandOffInv.act {a : MacAction} (ha : HandOffOk m a) : Kept c (m.act c a) := by
  cases a with
  | receiveSr rnti =>
    refine h.receive (h.attached rnti ha) rfl rfl rfl (fun x hx => ?_) rfl
    rw [mem_pending] at hx ⊢
    simp only [List.mem_append, List.mem_singleton] at hx
    tauto
  | receiveDlCqi rnti =>
    rw [NrGnbMac.act]
    split
    · exact mac_not_forbidden
    · refine h.receive (h.attached rnti ha) rfl rfl rfl (fun x hx => ?_) rfl
      rw [mem_pending] at hx ⊢
      simp only [List.mem_append, List.mem_singleton] at hx
      tauto
  | receiveDlHarq f =>
    rw [NrGnbMac.act, NrGnbMac.doDlHarqFeedback]
    split
    · next hmem =>
      split
      · exact mac_not_forbidden
      · refine h.receive (h.packets f.rnti hmem) rfl rfl rfl (fun x hx => ?_) rfl
        rw [mem_pending] at hx ⊢
        simp only [List.map_append, List.map_cons, List.map_nil, List.mem_append,
          List.mem_singleton] at hx
        tauto
    · exact mac_not_forbidden
  | receiveUlHarq f =>
    refine h.receive (h.attached f.rnti ha) rfl rfl rfl (fun x hx => ?_) rfl
    rw [mem_pending] at hx ⊢
    simp only [List.map_append, List.map_cons, List.map_nil, List.mem_append,
      List.mem_singleton] at hx
    tauto
  | receiveMacCe ce =>
    refine h.receive (h.attached ce.rnti ha) rfl rfl rfl (fun x hx => ?_) rfl
    rw [mem_pending] at hx ⊢
    simp only [List.map_append, List.map_cons, List.map_nil, List.mem_append,
      List.mem_singleton] at hx
    tauto
  | receiveRachPreamble raId =>
    exact h.next h.sched h.lists (fun _ => id) rfl rfl (fun _ => id) h.requests
  | allocateNcRaPreamble info =>
    exact h.next h.sched h.lists (fun _ => id) rfl rfl (fun _ => id) h.requests
  | addUe rnti b order => exact h.addUe rnti b order
  | removeUe rnti => exact h.removeUe ha.1 ha.2.1 ha.2.2
  | slotDl inp beam order => exact h.reportDlCqi.bind fun _ h => h.configureUes.triggerDl inp
  | slotUl inp allocate beam order => exact h.slotUl ha inp

end

theorem handOffInv_init : HandOffInv c {} where
  sched := schedOk_init
  lists := listsKnown_init
  attached := forall_mem_nil _
  packets := forall_mem_nil _
  pending := forall_mem_nil _
  requests := forall_mem_nil _

/-- The RNTIs that were handed over were known, and the next action does not stop the scheduler on
an RNTI or on the size of the list of SRs. -/
structure HandOffSafe (c : HandOffConfig) (ok : NrGnbMac → MacAction → Prop) (m : NrGnbMac) :
    Prop where
  known : ∀ q ∈ m.requests, ∀ r ∈ q.rntis, r ∈ q.known
  runs : ∀ a, ok m a → ∀ e, m.act c a = .error e → ¬ e.Forbidden

/-- In every run whose actions meet the condition. -/
theorem handOff_of_run (c : HandOffConfig) (m : NrGnbMac)
    (hrun : Lts.Run (NrGnbMac.Step c) HandOffOk {} m) : HandOffSafe c HandOffOk m := by
  have hinv : HandOffInv c m :=
    Run.invariant (I := HandOffInv c) (fun h ha hst => (h.act ha).ok hst) handOffInv_init hrun
  exact ⟨hinv.requests, fun a ha e he => (hinv.act ha).error he⟩

/-- A scheduler with two HARQ processes for each UE, and slots of a millisecond. -/
def HandOffConfig.small : HandOffConfig where
  sched := .small
  cqiTimersThreshold := 10 ^ 9
  slotPeriod := 10 ^ 6

/-- A DL slot in which no UE has bytes to send. -/
def MacAction.idleDl : MacAction :=
  .slotDl { DlTrigger.busy [] with buffered := fun _ => 0 } (fun _ => ⟨0, 0⟩) .id

/-- A UL slot in which no UE has bytes to send. -/
def MacAction.idleUl : MacAction := .slotUl (.idle []) (fun _ => none) (fun _ => ⟨0, 0⟩) .id

/-- A UE asks to be scheduled and reports a CQI, and is removed after the slots. -/
theorem handOff_example : ∃ m, Lts.Run (NrGnbMac.Step .small) HandOffOk {} m ∧
    m.requests = [⟨[1], [1]⟩, ⟨[], [1]⟩, ⟨[1], [1]⟩, ⟨[], [1]⟩] ∧ m.sched.rntis = [] ∧
    HandOffSafe .small HandOffOk m := by
  have hrun : ((execs HandOffOk (fun m a => (m.act .small a).toOption) {}
      [.addUe 1 ⟨0, 0⟩ .id, .receiveSr 1, .receiveDlCqi 1, .idleDl, .idleUl, .removeUe 1]).map
      fun m =>
        (m.requests, m.sched.rntis)) =
      some ([⟨[1], [1]⟩, ⟨[], [1]⟩, ⟨[1], [1]⟩, ⟨[], [1]⟩], []) := by decide
  obtain ⟨m, hm, hv⟩ := Option.map_eq_some_iff.1 hrun
  have hstep : ∀ {m a m'}, (NrGnbMac.act .small m a).toOption = some m' →
    NrGnbMac.Step .small m a m' :=
    ok_of_toOption
  have hsafe := run_of_execs hstep hm
  exact ⟨m, hsafe, congrArg Prod.fst hv, congrArg Prod.snd hv, handOff_of_run .small m hsafe⟩

/-- A UE asks twice before the next UL slot, which then stops on the size of the list; a UE is
removed after it reported a CQI, and the next DL slot stops. -/
theorem handOff_stops :
    (∃ m, Lts.Run (NrGnbMac.Step .small) Lts.anyStep {} m ∧
      m.act .small .idleUl = .error .srListSize ∧ ¬ HandOffSafe .small Lts.anyStep m) ∧
    ∃ m, Lts.Run (NrGnbMac.Step .small) Lts.anyStep {} m ∧
      m.act .small .idleDl = .error (.sched .missingUe) ∧ ¬ HandOffSafe .small Lts.anyStep m := by
  have hstep : ∀ {m a m'}, (NrGnbMac.act .small m a).toOption = some m' →
    NrGnbMac.Step .small m a m' :=
    ok_of_toOption
  have hstop : ∀ (as : List MacAction) {a : MacAction} {e : HandOffError}, e.Forbidden →
      ((execs anyStep (fun m a => (m.act .small a).toOption) ({} : NrGnbMac) as).map fun m =>
        decide (m.act .small a = .error e)) = some true →
      ∃ m, Run (NrGnbMac.Step .small) anyStep {} m ∧ m.act .small a = .error e ∧
        ¬ HandOffSafe .small anyStep m := by
    intro as a e he hrun
    obtain ⟨m, hm, hact⟩ := Option.map_eq_some_iff.1 hrun
    have hact := of_decide_eq_true hact
    exact ⟨m, run_of_execs hstep hm, hact, fun hsafe => hsafe.runs a trivial e hact he⟩
  refine ⟨hstop [.addUe 1 ⟨0, 0⟩ .id, .receiveSr 1, .receiveSr 1] (.inl rfl) ?_,
    hstop [.addUe 1 ⟨0, 0⟩ .id, .receiveDlCqi 1, .removeUe 1] (.inr rfl) ?_⟩
  · decide
  · decide

end actions

end OranNs3
