import OranNs3.Rrc.Bearers
import OranNs3.Rrc.SnStatus

/-!
# The RRC of one UE

The handlers of a handover on an RRC that has one context (`Rrc.One`), where they are called in the
state in which they belong: they succeed, and the module says what they do to the context and what
they send. A context that is removed leaves nothing behind (`Rrc.Removed`): the pending timeouts
were its own.
-/

namespace OranNs3

open Fallible EventQueue List

/-- What is sent and needs no answer: no X2 message, no message that the UE completes, no request to
switch the path. -/
def RrcOut.silent : RrcOut → Bool
  | .ue _ .connectionReconfiguration | .ue _ (.handover _) => false
  | .ue _ _ => true
  | .x2 _ _ => false
  | .s1 (.pathSwitchRequest ..) => false
  | .s1 _ => true

namespace Rrc

open UeManager

variable {r r' r₁ : Rrc} {u u' : UeManager} {n cellId : Nat}

/-- An RRC with one context, to which all pending timeouts belong. -/
structure One (r : Rrc) (u : UeManager) : Prop where
  map : r.ueMap = [u]
  rnti : u.rnti ≠ 0
  cell : u.componentCarrierId < r.cfg.cellIds.length
  srs : u.srsConfigurationIndex = 0 ∨ u.srsConfigurationIndex ∈ r.srs.used
  owned : ∀ e ∈ r.queue.pending, timeoutOf u.state = some e.ev.kind ∧ e.ev.rnti = u.rnti ∧
    u.timeouts e.ev.kind = some e.uid

/-- An RRC without contexts. -/
structure Zero (r : Rrc) : Prop where
  map : r.ueMap = []
  pending : r.queue.pending = []

theorem Zero.findUe (h : Zero r) (rnti : Nat) : r.findUe rnti = none := by
  rw [Rrc.findUe, h.map]
  rfl

namespace One

section
variable (h : One r u)
include h

theorem findUe : r.findUe u.rnti = some u := by
  rw [Rrc.findUe, h.map, Keyed.find?_cons, if_pos rfl]

theorem getUeManager : r.getUeManager u.rnti = .ok u :=
  getUeManager_eq h.rnti h.findUe

theorem congr (hm : r'.ueMap = r.ueMap) (hcfg : r'.cfg = r.cfg) (hsrs : r'.srs = r.srs)
    (hq : ∀ e ∈ r'.queue.pending, e ∈ r.queue.pending) : One r' u where
  map := hm.trans h.map
  rnti := h.rnti
  cell := hcfg ▸ h.cell
  srs := hsrs ▸ h.srs
  owned := fun e he => h.owned e (hq e he)

theorem send (out : List RrcOut) : One (r.send out) u :=
  h.congr rfl rfl rfl fun _ he => he

theorem cancel (kind : TimeoutKind) : One (r.cancel kind u) u :=
  h.congr rfl rfl rfl fun _ he => (mem_cancel.1 he).1

theorem pending_cancel {kind : TimeoutKind} (hs : timeoutOf u.state = some kind) :
    (r.cancel kind u).queue.pending = [] := by
  refine eq_nil_iff_forall_not_mem.2 fun e he => ?_
  obtain ⟨he, hne⟩ := mem_cancel.1 he
  obtain ⟨hkind, -, ht⟩ := h.owned e he
  rw [hs] at hkind
  rw [← Option.some.inj hkind] at ht
  exact hne ht

theorem pending_of_not_timed (hs : timeoutOf u.state = none) : r.queue.pending = [] := by
  refine eq_nil_iff_forall_not_mem.2 fun e he => ?_
  have hkind := (h.owned e he).1
  rw [hs] at hkind
  cases hkind

theorem setUe (hsame : u.Same u') (hsrs : u'.srsConfigurationIndex = u.srsConfigurationIndex)
    (hs : r.queue.pending = [] ∨ timeoutOf u'.state = timeoutOf u.state) : One (r.setUe u') u' where
  map := by
    change Keyed.modify UeManager.rnti u'.rnti (fun _ => u') r.ueMap = [u']
    rw [h.map, Keyed.modify_cons, if_pos hsame.rnti.symm]
    rfl
  rnti := hsame.rnti ▸ h.rnti
  cell := hsame.componentCarrierId ▸ h.cell
  srs := hsrs ▸ h.srs
  owned := by
    intro e he
    rcases hs with hnil | hs
    · rw [show (r.setUe u').queue = r.queue from rfl, hnil] at he
      cases he
    · obtain ⟨hkind, hr, ht⟩ := h.owned e he
      exact ⟨hs.trans hkind, hr.trans hsame.rnti.symm, by rw [hsame.timeouts]; exact ht⟩

theorem spec_componentCarrierToCellId :
    ∃ cellId, r.componentCarrierToCellId u.componentCarrierId = .ok cellId := by
  rw [componentCarrierToCellId, getElem?_eq_getElem h.cell]
  exact ⟨_, rfl⟩

end

end One

/-! ## Removal -/

/-- The context was removed; what was sent needs no answer. -/
structure Removed (r r' : Rrc) : Prop extends Zero r' where
  cfg : r'.cfg = r.cfg
  out : ∃ l, r'.out = r.out ++ l ∧ ∀ o ∈ l, o.silent = true

theorem Removed.after (h : Removed r' r₁) (hcfg : r'.cfg = r.cfg) {l : List RrcOut}
    (hout : r'.out = r.out ++ l) (hl : ∀ o ∈ l, o.silent = true) : Removed r r₁ where
  toZero := h.toZero
  cfg := h.cfg.trans hcfg
  out := by
    obtain ⟨l', hl', hs⟩ := h.out
    exact ⟨l ++ l', by rw [hl', hout, append_assoc], forall_mem_append.2 ⟨hl, hs⟩⟩

theorem One.removeUe (h : One r u) : Spec Never (Removed r) (r.removeUe u.rnti) := by
  unfold Rrc.removeUe
  rw [h.findUe]
  change Spec _ _ (r.releaseSrs u >>= _)
  have hsrs : Spec Never (fun _ => True) (r.releaseSrs u) := by
    unfold releaseSrs
    split
    · trivial
    · next hne =>
      rw [SrsIndices.removeSrsConfigurationIndex, if_pos (h.srs.resolve_left hne)]
      trivial
  refine hsrs.bind fun srs _ => ⟨⟨?_, ?_⟩, rfl, ?_⟩
  · change Keyed.erase UeManager.rnti u.rnti r.ueMap = []
    rw [h.map]
    simp [Keyed.erase]
  · refine eq_nil_iff_forall_not_mem.2 fun e he => ?_
    obtain ⟨he, hne⟩ := ((cleared_cancelPendingEvents r u).mem_iff e).1 he
    exact hne e.ev.kind (h.owned e he).2.2
  · change ∃ l, (if r.cfg.epc then r.out ++ [.s1 (.ueContextRelease u.rnti)] else r.out) =
      r.out ++ l ∧ _
    split
    · exact ⟨_, rfl, by simp [RrcOut.silent]⟩
    · exact ⟨[], (append_nil _).symm, forall_mem_nil _⟩

theorem One.sendRrcConnectionRelease (h : One r u) (hs : u.state ≠ .handoverJoining) :
    Spec Never (Removed r) (r.sendRrcConnectionRelease u) := by
  unfold Rrc.sendRrcConnectionRelease recvIdealUeContextRemoveRequest
  have h' := h.send [.ue u.rnti .connectionRelease]
  rw [h'.findUe]
  change Spec _ _ (notifySource _ u >>= _)
  rw [notifySource, if_neg hs]
  change Spec _ _ (Rrc.removeUe _ u.rnti)
  unfold releaseIndications
  split
  · refine (h'.send _).removeUe.imp fun r' hr' => hr'.after rfl (append_assoc _ _ _) ?_
    refine forall_mem_append.2 ⟨by simp [RrcOut.silent], fun o ho => ?_⟩
    obtain ⟨d, -, rfl⟩ := mem_map.1 ho
    rfl
  · exact h'.removeUe.imp fun r' hr' => hr'.after rfl rfl (by simp [RrcOut.silent])

/-! ## The source of a handover -/

/-- The RRC has the context `u'` after a handler; its TEIDs are what they were. -/
structure Becomes (r r' : Rrc) (u' : UeManager) : Prop where
  one : One r' u'
  cfg : r'.cfg = r.cfg
  teids : r'.x2uTeidInfoMap = r.x2uTeidInfoMap

/-- The context stays in its state, with its bearers in order. -/
def Carries (r : Rrc) (u : UeManager) (n : Nat) (r' : Rrc) : Prop :=
  ∃ u', Becomes r r' u' ∧ u.Kept u' ∧ u'.state = u.state ∧ u'.BearersOk n ∧ r'.out = r.out

/-- The context is connected, with its bearers in order; at most a reconfiguration was sent. -/
def Serves (r : Rrc) (u : UeManager) (n : Nat) (r' : Rrc) : Prop :=
  ∃ p, u.Connected n p ∧ Becomes r r' p.1 ∧ r'.out = r.out ++ p.2

namespace One

section
variable (h : One r u)
include h

theorem sendHandoverRequest (hs : u.state = .connectedNormally)
    (hown : cellId ∉ r.cfg.cellIds) (hx2 : r.cfg.hasX2Interface cellId = true) :
    Spec Never (fun r' => ∃ u', Becomes r r' u' ∧ u'.state = .handoverPreparation ∧
        u'.rnti = u.rnti ∧ u'.targetCellId = cellId ∧ u'.drbMap = u.drbMap ∧
        u'.drbsToBeStarted = u.drbsToBeStarted ∧ r'.out = r.out ++
          [.x2 cellId (.handoverRequest u.rnti cellId u.imsi u.getErabList)])
      (r.sendHandoverRequest u.rnti cellId) := by
  have hlt := h.cell
  have hcell : r.componentCarrierToCellId u.componentCarrierId =
      .ok r.cfg.cellIds[u.componentCarrierId] := by
    rw [componentCarrierToCellId, getElem?_eq_getElem hlt]
  have hne : cellId ≠ r.cfg.cellIds[u.componentCarrierId] := fun heq =>
    hown (heq ▸ getElem_mem hlt)
  rw [Rrc.sendHandoverRequest, h.getUeManager]
  change Spec _ _ (r.prepareHandover u cellId)
  simp only [prepareHandover, hs, hcell, bind, Except.bind]
  rw [if_neg hne, sendX2_eq hx2]
  exact ⟨_, ⟨(h.send _).setUe ⟨rfl, rfl, rfl⟩ rfl (.inl (h.pending_of_not_timed (by rw [hs]; rfl))),
    rfl, rfl⟩, rfl, rfl, rfl, rfl, rfl, rfl⟩

theorem recvHandoverRequestAck (hs : u.state = .handoverPreparation) {new : Nat}
    {admitted : List Nat} {command : HandoverCommand}
    (hack : r.Acceptable u cellId admitted command) (erabIds : Nat → Nat) :
    Spec Never (fun r' => ∃ u', Becomes r r' u' ∧ u'.state = .handoverLeaving ∧ u'.rnti = u.rnti ∧
        u'.targetCellId = cellId ∧ u'.targetX2apId = new ∧ u'.drbMap = u.drbMap ∧
        u'.drbsToBeStarted = u.drbsToBeStarted ∧
        r'.out = r.out ++ [.ue u.rnti (.handover command), .x2 cellId
          (.snStatusTransfer u.rnti new (u.statusTransferItems erabIds))])
      (r.recvHandoverRequestAck cellId u.rnti new admitted command erabIds) := by
  rw [recvHandoverRequestAck_eq h.getUeManager hack]
  have hnil := h.pending_of_not_timed (by rw [hs]; rfl)
  refine ⟨(r.leave u command).2.setTarget new cellId, ⟨⟨?_, h.rnti, h.cell, h.srs, ?_⟩, rfl, rfl⟩,
    rfl, rfl, rfl, rfl, rfl, rfl, ?_⟩
  · change Keyed.modify UeManager.rnti u.rnti (fun _ => _) r.ueMap = [_]
    rw [h.map, Keyed.modify_cons, if_pos rfl]
    rfl
  · intro e he
    rcases mem_schedule.1 he with rfl | he
    · exact ⟨rfl, rfl, by simp [leave, Rrc.schedule, setTarget, EventQueue.entry,
        EventQueue.handle]⟩
    · rw [show (r.send [.ue u.rnti (.handover command)]).queue = r.queue from rfl, hnil] at he
      cases he
  · simp [leave, Rrc.send, Rrc.schedule, Rrc.setUe]

theorem commit_connected (hkept : u.Kept u') (hb : u'.BearersOk n) (hnil : r.queue.pending = []) :
    Spec Never (Serves r u n) (r.commit (u'.switchToConnectedNormally r.cfg)) := by
  have hconn := hb.switchToConnectedNormally r.cfg
  cases hx : u'.switchToConnectedNormally r.cfg with
  | error e => exact absurd (hconn.error hx) id
  | ok p =>
    have hp := hconn.ok hx
    have hkept' := hkept.trans hp.kept
    refine ⟨p, ⟨hkept', hp.state, hp.bearers, ?_⟩,
      ⟨(h.setUe hkept'.toSame hkept'.srs (.inl hnil)).send _, rfl, rfl⟩, rfl⟩
    exact hkept.rnti ▸ hp.out

theorem recvHandoverPreparationFailure_prepared (hs : u.state = .handoverPreparation)
    (hb : u.BearersOk n) (hc : u.targetCellId = cellId) :
    Spec Never (Serves r u n) (r.recvHandoverPreparationFailure cellId u.rnti) := by
  rw [Rrc.recvHandoverPreparationFailure, h.findUe]
  dsimp only
  rw [hs]
  dsimp only
  rw [if_pos hc.symm]
  exact h.commit_connected (.refl u) hb (h.pending_of_not_timed (by rw [hs]; rfl))

section
variable (hs : u.state = .handoverLeaving)
include hs

theorem recvHandoverPreparationFailure_leaving (hc : u.targetCellId = cellId) :
    Spec Never (Removed r) (r.recvHandoverPreparationFailure cellId u.rnti) := by
  rw [Rrc.recvHandoverPreparationFailure, h.findUe]
  dsimp only
  rw [hs]
  dsimp only
  rw [if_pos hc.symm]
  have hrel := (h.cancel .handoverLeaving).sendRrcConnectionRelease (by rw [hs]; decide)
  exact hrel.imp fun r' hr' => ⟨hr'.toZero, hr'.cfg, hr'.out⟩

theorem recvUeContextRelease : Spec Never (Removed r) (r.recvUeContextRelease u.rnti) := by
  rw [Rrc.recvUeContextRelease, h.findUe]
  dsimp only
  rw [if_pos hs]
  exact (h.cancel .handoverLeaving).removeUe.imp fun r' hr' => ⟨hr'.toZero, hr'.cfg, hr'.out⟩

theorem timeout_leaving (hx2 : r.cfg.hasX2Interface u.targetCellId = true) :
    Spec Never (Removed (r.send [.x2 u.targetCellId (.handoverCancel u.rnti u.targetX2apId)]))
      (r.timeout ⟨.handoverLeaving, u.rnti⟩) := by
  rw [timeout, h.getUeManager]
  change Spec _ _ (if timeoutOf u.state ≠ some .handoverLeaving then _ else
    r.sendX2 u.targetCellId _ >>= fun r => r.sendRrcConnectionRelease u)
  rw [if_neg (by rw [hs]; decide), sendX2_eq hx2]
  exact (h.send _).sendRrcConnectionRelease (by rw [hs]; decide)

theorem sendData_leaving (hx2 : r.cfg.hasX2Interface u.targetCellId = true) {bid : Nat} {d : Drb}
    (hd : u.findDrb bid = some d) (p : Packet) :
    r.sendData u.rnti bid p = .ok (r.send [.x2 u.targetCellId (.ueData d.gtpTeid p)]) := by
  simp only [sendData, h.getUeManager, hs, hd, bind, Except.bind]
  exact sendX2_eq hx2 _

end

theorem sendData_local (hb : u.BearersOk n)
    (hs : u.state = .handoverPreparation ∨ u.state = .connectedNormally ∨
      u.state = .connectionReconfiguration ∨ u.state = .handoverPathSwitch ∨
      u.state = .handoverJoining) (bid : Nat) (p : Packet) :
    Spec Never (Carries r u n) (r.sendData u.rnti bid p) := by
  have hset : ∀ u' : UeManager, u.Kept u' → u'.state = u.state → u'.BearersOk n →
      Carries r u n (r.setUe u') := fun u' hkept hs' hb' =>
    ⟨u', ⟨h.setUe hkept.toSame hkept.srs (.inr (by rw [hs'])), rfl, rfl⟩, hkept, hs', hb', rfl⟩
  have hpacket : Spec Never (Carries r u n) (u.sendPacket bid >>= fun u' => .ok (r.setUe u')) :=
    (hb.sendPacket bid).bind fun u' hu' => hset u' hu'.1 hu'.2.1 hu'.2.2
  rw [sendData, h.getUeManager]
  rcases hs with hs | hs | hs | hs | hs
  all_goals simp only [hs, bind, Except.bind]
  case inr.inr.inr.inr =>
    exact hset _ ⟨⟨rfl, rfl, rfl⟩, ⟨rfl, rfl⟩, ⟨rfl, rfl⟩, rfl, rfl⟩ hs.symm (hb.of_eq rfl rfl)
  all_goals exact hpacket

end

/-! ## The target of a handover -/

section
variable (h : One r u)
include h

/-- The status of the source's bearers, whose items name bearers of the context. -/
theorem recvSnStatusTransfer (hb : u.BearersOk n) {items : List StatusTransferItem}
    (hitems : ∀ i ∈ items, 1 ≤ i.erabId % 256 ∧ i.erabId % 256 ≤ n) :
    Spec Never (Carries r u n) (r.recvSnStatusTransfer u.rnti items) := by
  rw [Rrc.recvSnStatusTransfer, h.findUe]
  have hx := hb.recvSnStatusTransfer hitems
  dsimp only
  cases hv : u.recvSnStatusTransfer items with
  | error e => exact absurd (hx.error hv) id
  | ok u' =>
    obtain ⟨hkept, hs, hb'⟩ := hx.ok hv
    exact ⟨u', ⟨h.setUe hkept.toSame hkept.srs (.inr (by rw [hs])), rfl, rfl⟩, hkept, hs, hb', rfl⟩

/-- The source cancels while the context joins. -/
theorem recvHandoverCancel (hs : u.state = .handoverJoining) :
    Spec Never (fun r' => Becomes r r' u ∧ ∃ l, r'.out = r.out ++ l ∧ ∀ o ∈ l, o.silent = true)
      (r.recvHandoverCancel u.rnti) := by
  rw [Rrc.recvHandoverCancel, h.findUe]
  dsimp only
  rw [if_pos hs]
  have hcancel := h.cancel .handoverJoining
  unfold releaseIndications
  split
  · refine ⟨⟨hcancel.send _, rfl, rfl⟩, _, rfl, fun o ho => ?_⟩
    obtain ⟨d, -, rfl⟩ := mem_map.1 ho
    rfl
  · exact ⟨⟨hcancel, rfl, rfl⟩, [], (append_nil _).symm, nofun⟩

theorem recvUeData (hb : u.BearersOk n)
    (hs : u.state = .connectedNormally ∨ u.state = .connectionReconfiguration ∨
      u.state = .handoverPathSwitch ∨ u.state = .handoverJoining) {teid : Nat} {i : X2uTeidInfo}
    (hi : Keyed.find? X2uTeidInfo.gtpTeid teid r.x2uTeidInfoMap = some i) (hr : i.rnti = u.rnti)
    (p : Packet) : Spec Never (Carries r u n) (r.recvUeData teid p) := by
  rw [Rrc.recvUeData, hi]
  dsimp only
  rw [hr]
  exact h.sendData_local hb (.inr hs) _ p

theorem completed_joining (hb : u.BearersOk n) (hs : u.state = .handoverJoining)
    (hepc : r.cfg.epc = true) :
    Spec Never (fun r' => ∃ u' cellId l, Becomes r r' u' ∧ u.Kept u' ∧
        u'.state = .handoverPathSwitch ∧ u'.BearersOk n ∧
        r'.out = r.out ++ [.s1 (.pathSwitchRequest u.rnti cellId u'.imsi l)])
      (r.recvRrcConnectionReconfigurationCompleted u.rnti) := by
  have hcancel := h.cancel .handoverJoining
  have hnil : (r.cancel .handoverJoining u).queue.pending = [] := h.pending_cancel (by rw [hs]; rfl)
  have hepc' : (r.cancel .handoverJoining u).cfg.epc = true := hepc
  obtain ⟨cellId, hcell⟩ := hcancel.spec_componentCarrierToCellId
  have hbuf := hb.sendPacketBuffer
  rw [recvRrcConnectionReconfigurationCompleted, h.getUeManager]
  cases hv : u.sendPacketBuffer with
  | error e => exact absurd (hbuf.error hv) id
  | ok u' =>
    obtain ⟨hkept, -, hb'⟩ := hbuf.ok hv
    rw [← hkept.componentCarrierId] at hcell
    simp only [hs, hv, bind, Except.bind, hcell]
    rw [if_pos hepc']
    have hkept' := hkept.trans (kept_switchToState u' .handoverPathSwitch)
    exact ⟨u'.switchToState .handoverPathSwitch, cellId, _,
      ⟨(hcancel.send _).setUe hkept'.toSame hkept'.srs (.inl hnil), rfl, rfl⟩, hkept', rfl,
      hb'.of_eq rfl rfl, rfl⟩

theorem completed_connected (hb : u.BearersOk n)
    (hs : u.state = .connectedNormally ∨ u.state = .connectionReconfiguration) :
    Spec Never (Serves r u n) (r.recvRrcConnectionReconfigurationCompleted u.rnti) := by
  rw [recvRrcConnectionReconfigurationCompleted, h.getUeManager]
  rcases hs with hs | hs
  · simp only [hs, bind, Except.bind]
    exact ⟨(u, []), ⟨.refl u, .inl hs, hb, nofun⟩, ⟨h, rfl, rfl⟩, (append_nil _).symm⟩
  · have hstart := hb.startDataRadioBearers
    cases hv : u.startDataRadioBearers with
    | error e => exact absurd (hstart.error hv) id
    | ok v =>
      obtain ⟨hkept, hs', hb'⟩ := hstart.ok hv
      have hkept' : u.Kept { v with needPhyMacConfiguration := false } :=
        ⟨⟨hkept.rnti, hkept.componentCarrierId, hkept.timeouts⟩, hkept.source, hkept.target,
          hkept.srs, hkept.teids⟩
      simp only [hs, hv, bind, Except.bind]
      exact h.commit_connected hkept' (hb'.of_eq rfl rfl) (h.pending_of_not_timed (by rw [hs]; rfl))

/-- The path was switched: the source is told, and the UE is connected. -/
theorem pathSwitchRequestAcknowledge (hb : u.BearersOk n)
    (hs : u.state = .handoverPathSwitch) (hsource : u.sourceCellId ∉ r.cfg.cellIds)
    (hx2 : r.cfg.hasX2Interface u.sourceCellId = true) :
    Spec Never (Serves (r.send [.x2 u.sourceCellId (.ueContextRelease u.sourceX2apId u.rnti)]) u n)
      (r.pathSwitchRequestAcknowledge u.rnti) := by
  rw [Rrc.pathSwitchRequestAcknowledge, h.getUeManager]
  simp only [hs, bind, Except.bind]
  rw [sendUeContextRelease, if_neg hsource, sendX2_eq hx2]
  exact (h.send _).commit_connected (.refl u) hb (h.pending_of_not_timed (by rw [hs]; rfl))

theorem timeout_joining (hs : u.state = .handoverJoining)
    (hx2 : r.cfg.hasX2Interface u.sourceCellId = true) :
    Spec Never (Removed (r.send [.x2 u.sourceCellId (.handoverPreparationFailure u.sourceX2apId)]))
      (r.timeout ⟨.handoverJoining, u.rnti⟩) := by
  rw [timeout, h.getUeManager]
  change Spec _ _ (if timeoutOf u.state ≠ some .handoverJoining then _ else
    r.sendHoPrepFail u >>= fun r => r.removeUe u.rnti)
  rw [if_neg (by rw [hs]; decide), sendHoPrepFail, sendX2_eq hx2]
  exact (h.send _).removeUe

end

end One

/-! ## The request -/

/-- The last index allocated is known, so that it can be given back. -/
def SrsListed (r : Rrc) : Prop :=
  r.srs.last = 0 ∨ r.srs.last ∈ r.srs.used ∨ r.srs.last ∈ r.srs.unused

theorem SrsListed.getNewSrsConfigurationIndex (h : SrsListed r) :
    Spec Never (fun p => p.2 = 0 ∨ p.2 ∈ p.1.used) (r.srs.getNewSrsConfigurationIndex false) := by
  unfold SrsIndices.getNewSrsConfigurationIndex
  cases hunused : r.srs.unused with
  | nil =>
    rcases h with h | h | h
    · exact .inl h
    · exact .inr (mem_insert_iff.2 (.inr h))
    · rw [hunused] at h
      cases h
  | cons i unused => exact .inr (mem_insert_iff.2 (.inl rfl))

theorem Zero.findRnti (h : Zero r) (k rnti : Nat) :
    ∃ v, v ≠ 0 ∧ r.findRnti (k + 2) rnti = some v := by
  rw [Rrc.findRnti]
  split
  · next hok => exact ⟨rnti, hok.1, rfl⟩
  · next hne =>
    have hzero : rnti = 0 := by
      by_contra h0
      exact hne ⟨h0, h.findUe rnti⟩
    subst hzero
    exact ⟨1, Nat.one_ne_zero, by rw [Rrc.findRnti, if_pos ⟨by decide, h.findUe _⟩]⟩

/-- A context that was just added, for a handover. -/
structure Joins (r r' : Rrc) (u : UeManager) : Prop where
  one : One r' u
  cfg : r'.cfg = r.cfg
  out : r'.out = r.out
  state : u.state = .handoverJoining

theorem Zero.addUe (h : Zero r) (hsrs : SrsListed r) {cc : Nat} (hcc : cc < r.cfg.cellIds.length) :
    Spec Never (fun p => Joins r p.1 p.2 ∧ p.1.x2uTeidInfoMap = r.x2uTeidInfoMap ∧ p.2.Adding 0 ∧
      p.2.caSupportConfigured = false) (r.addUe .handoverJoining cc false) := by
  have hcand : ∃ k, r.rntiCandidates = k + 2 := by
    unfold rntiCandidates
    split
    · exact ⟨65534, rfl⟩
    · exact ⟨65532, rfl⟩
  obtain ⟨k, hk⟩ := hcand
  obtain ⟨rnti, hne, hrnti⟩ := h.findRnti k ((r.lastAllocatedRnti + 1) % 65536)
  have hindex := hsrs.getNewSrsConfigurationIndex
  unfold Rrc.addUe
  rw [hk, hrnti]
  cases hnew : r.srs.getNewSrsConfigurationIndex false with
  | error e => exact absurd (hindex.error hnew) id
  | ok p =>
    have hp := hindex.ok hnew
    have hcell : ∀ r' : Rrc, r'.cfg = r.cfg →
        ∃ cellId, r'.componentCarrierToCellId cc = .ok cellId := fun r' hcfg => by
      rw [componentCarrierToCellId, hcfg, getElem?_eq_getElem hcc]
      exact ⟨_, rfl⟩
    simp only [UeManager.timeoutOf, bind, Except.bind]
    obtain ⟨cellId, hc⟩ := hcell (schedule { r with lastAllocatedRnti := rnti, srs := p.1 }
      .handoverJoining { UeManager.new rnti .handoverJoining cc with srsConfigurationIndex :=
      p.2 }).1 rfl
    rw [hc]
    refine ⟨⟨⟨?_, hne, hcc, hp, ?_⟩, rfl, rfl, rfl⟩, rfl, ⟨rfl, rfl, ?_, nofun, nofun⟩, rfl⟩
    · exact congrArg (_ :: ·) h.map
    · intro e he
      rcases mem_schedule.1 he with rfl | he
      · exact ⟨rfl, rfl, by simp [Rrc.schedule, EventQueue.entry, EventQueue.handle]⟩
      · rw [show ({ r with lastAllocatedRnti := rnti, srs := p.1 } : Rrc).queue = r.queue from rfl,
          h.pending] at he
        cases he
    · intro i
      simp only [Rrc.schedule, UeManager.new, map_nil, not_mem_nil, false_iff]
      omega

/-- The RRC refused a handover. -/
structure Refuses (r : Rrc) (sourceCellId old : Nat) (r' : Rrc) : Prop extends Zero r' where
  cfg : r'.cfg = r.cfg
  out : ∃ l, r'.out = r.out ++ .x2 sourceCellId (.handoverPreparationFailure old) :: l ∧
    ∀ o ∈ l, o.silent = true

/-- The RRC accepted a handover of a UE with some bearers. -/
structure Accepts (r : Rrc) (sourceCellId old : Nat) (items : List ErabToBeSetupItem) (r' : Rrc)
    (v : UeManager) : Prop where
  one : One r' v
  cfg : r'.cfg = r.cfg
  state : v.state = .handoverJoining
  source : v.sourceCellId = sourceCellId ∧ v.sourceX2apId = old
  bearers : v.BearersOk items.length
  teids : TeidsOf r' v.rnti (items.map ErabToBeSetupItem.gtpTeid)
  out : ∃ cellId preamble, r'.out = r.out ++ [.x2 sourceCellId
    (.handoverRequestAck old v.rnti (items.map ErabToBeSetupItem.erabId) ⟨cellId, v.rnti, preamble,
      if 1 < r.cfg.cellIds.length then some (r.cfg.cellIds.length - 1) else none⟩)]

/-- A request for a UE whose bearers are numbered from 1 on and have TEIDs of their own. -/
theorem Zero.recvHandoverRequest (h : Zero r) (hsrs : SrsListed r) (hteids : r.x2uTeidInfoMap = [])
    {sourceCellId old imsi : Nat} {bearers : List ErabToBeSetupItem}
    (hpdcp : ∀ b, (r.newRlc b).pdcp? ≠ none) (hx2 : r.cfg.hasX2Interface sourceCellId = true)
    (hcell : cellId ∈ r.cfg.cellIds)
    (hids : bearers.map ErabToBeSetupItem.erabId = range' 1 bearers.length)
    (hlen : bearers.length ≤ 31) (hnodup : (bearers.map ErabToBeSetupItem.gtpTeid).Nodup)
    (maxSrsReached : Bool) (preamble : Option Nat) :
    Spec Never
      (fun r' => Refuses r sourceCellId old r' ∨ ∃ v, Accepts r sourceCellId old bearers r' v)
      (r.recvHandoverRequest sourceCellId old cellId imsi bearers maxSrsReached preamble) := by
  unfold Rrc.recvHandoverRequest
  split
  · rw [sendX2_eq hx2]
    exact .inl ⟨⟨h.map, h.pending⟩, rfl, [], rfl, nofun⟩
  · next haccept =>
    have hmax : maxSrsReached = false := by
      by_contra hm
      exact haccept (by rw [Bool.eq_true_of_not_eq_false hm, Bool.or_true])
    have hcc : r.cfg.cellIds.idxOf cellId < r.cfg.cellIds.length := idxOf_lt_length_iff.2 hcell
    rw [cellToComponentCarrierId, if_pos hcell, hmax]
    refine (h.addUe hsrs hcc).bind fun p hp => ?_
    obtain ⟨r₁, u⟩ := p
    obtain ⟨hjoins, hteids₁, hadding, hca⟩ := hp
    have hsource : (u.setSource sourceCellId old imsi).Adding 0 :=
      ⟨hadding.last, hadding.state, hadding.bearers.of_eq rfl rfl⟩
    cases preamble with
    | none =>
      have hone : One (r₁.setUe (u.setSource sourceCellId old imsi))
        (u.setSource sourceCellId old imsi) :=
        hjoins.one.setUe ⟨rfl, rfl, rfl⟩ rfl (.inr rfl)
      change Spec _ _ (sendHoPrepFail _ (u.setSource sourceCellId old imsi) >>= _)
      rw [sendHoPrepFail, sendX2_eq (by rw [← hjoins.cfg] at hx2; exact hx2)]
      refine (hone.send _).removeUe.imp fun r' hr' =>
        .inl ⟨hr'.toZero, hr'.cfg.trans hjoins.cfg, ?_⟩
      obtain ⟨l, hl, hsilent⟩ := hr'.out
      refine ⟨l, ?_, hsilent⟩
      rw [hl, ← hjoins.out]
      exact append_assoc _ [_] l
    | some preamble =>
      have hpdcp₁ : ∀ b, (r₁.newRlc b).pdcp? ≠ none := fun b => by
        have hb := hpdcp b
        unfold newRlc at hb ⊢
        rwa [hjoins.cfg]
      have hnodup₁ : (bearers.map ErabToBeSetupItem.gtpTeid ++
          r₁.x2uTeidInfoMap.map X2uTeidInfo.gtpTeid).Nodup := by
        rwa [hteids₁, hteids, map_nil, append_nil]
      have hnone : TeidsOf { r₁ with x2uTeidInfoMap := r₁.x2uTeidInfoMap }
          (u.setSource sourceCellId old imsi).rnti [] := nofun
      have hsetup := spec_setupBearers_ok (r := r₁) hpdcp₁ hsource (by rwa [Nat.zero_add])
        (by rwa [Nat.zero_add]) hnodup₁ hnone
      refine hsetup.bind fun p hp => ?_
      obtain ⟨r₂, u₂⟩ := p
      obtain ⟨⟨teids, rfl, hall⟩, hadd, hkept⟩ := hp
      rw [Nat.zero_add] at hadd
      obtain ⟨hadd', hkept'⟩ := hadd.getRrcConnectionReconfigurationForHandover r₁.cfg
      have hsCells :=
        sCells_getRrcConnectionReconfigurationForHandover r₁.cfg (hkept.carriers.trans hca)
      have hsame : u.Same (u₂.getRrcConnectionReconfigurationForHandover r₁.cfg).1 :=
        (same_setSource u _ _ _).trans (hkept.toSame.trans hkept'.toSame)
      have hone : One { r₁ with x2uTeidInfoMap := teids } u :=
        hjoins.one.congr rfl rfl rfl fun _ he => he
      have hone' := hone.setUe hsame (hkept'.srs.trans hkept.srs)
        (.inr (by rw [hadd'.state, hjoins.state]))
      obtain ⟨physCellId, hcell₁⟩ : ∃ c, ({ r₁ with x2uTeidInfoMap := teids } :
          Rrc).componentCarrierToCellId (r.cfg.cellIds.idxOf cellId) = .ok c := by
        rw [componentCarrierToCellId, show ({ r₁ with x2uTeidInfoMap := teids } : Rrc).cfg =
          r.cfg from
          hjoins.cfg, getElem?_eq_getElem hcc]
        exact ⟨_, rfl⟩
      dsimp only
      rw [hcell₁]
      change Spec _ _ (Rrc.sendX2 _ _ _)
      rw [sendX2_eq (by rw [← hjoins.cfg] at hx2; exact hx2)]
      refine .inr ⟨_, hone'.send _, hjoins.cfg, hadd'.state, ?_, hadd'.bearers, ?_, ?_⟩
      · exact ⟨hkept'.source.1.trans hkept.source.1, hkept'.source.2.trans hkept.source.2⟩
      · rw [hsame.rnti]
        intro t ht
        exact hall t (mem_append_left _ ht)
      · refine ⟨physCellId, preamble, ?_⟩
        rw [← hjoins.out, ← hjoins.cfg, ← hsCells]
        rfl

end Rrc

end OranNs3
