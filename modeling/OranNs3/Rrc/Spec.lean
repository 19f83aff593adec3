import OranNs3.Lib.Fallible
import OranNs3.Rrc.Model

/-!
# What the calls of the RRC do to its contexts

Every handler of `NrGnbRrc` is a sequence of a few kinds of changes of the contexts and of the queue
of timeouts (`Rrc.Change`): a context is created with its timeout, changes within the states of one
timeout, moves to other states with another timer, or is removed with all its timeouts. The module
proves this once for all calls (`does_call`, `does_timeout`). Three handlers can do something else
(`Rrc.isStray`): `RecvHandoverRequestAck` and `RecvRrcConnectionReestablishmentComplete` do not look
at the state, and `RecvHandoverCancel` stops a timer and stays in its state.
-/

namespace OranNs3

open Fallible Keyed

/-! ## Changes -/

/-- What the methods of a context leave as it is. -/
structure UeManager.Same (u u' : UeManager) : Prop where
  rnti : u'.rnti = u.rnti
  componentCarrierId : u'.componentCarrierId = u.componentCarrierId
  timeouts : u'.timeouts = u.timeouts

namespace UeManager.Same

variable {u u' u'' : UeManager}

theorem refl (u : UeManager) : u.Same u := ⟨rfl, rfl, rfl⟩

theorem trans (h : u.Same u') (h' : u'.Same u'') : u.Same u'' :=
  ⟨h'.rnti.trans h.rnti, h'.componentCarrierId.trans h.componentCarrierId,
    h'.timeouts.trans h.timeouts⟩

end UeManager.Same

namespace Rrc

/-- The queue after the timer of the context's state, if it has one, is stopped. -/
def stopped (q : EventQueue Timeout) (u : UeManager) : EventQueue Timeout :=
  match UeManager.timeoutOf u.state with
  | none => q
  | some kind => q.cancel (u.timeouts kind)

/-- How the timers follow when a context `u` becomes `u'` and the queue `q` becomes `q'`. -/
inductive Rearmed (cfg : RrcConfig) (q : EventQueue Timeout) (u u' : UeManager) :
    EventQueue Timeout → Prop
  | same (ht : u'.timeouts = u.timeouts)
      (hs : UeManager.timeoutOf u'.state = UeManager.timeoutOf u.state) : Rearmed cfg q u u' q
  | stop (ht : u'.timeouts = u.timeouts) (hs : UeManager.timeoutOf u'.state = none) :
      Rearmed cfg q u u' (stopped q u)
  | start (kind : TimeoutKind) (hs : UeManager.timeoutOf u'.state = some kind)
      (ht : u'.timeouts = Function.update u.timeouts kind (stopped q u).handle) :
      Rearmed cfg q u u' ((stopped q u).schedule (cfg.timeoutDuration kind) ⟨kind, u.rnti⟩)

/-- The queue `q'` is `q` without the timeouts of the context. -/
structure Cleared (q q' : EventQueue Timeout) (u : UeManager) : Prop where
  now_eq : q'.now = q.now
  uid_eq : q'.uid = q.uid
  mem_iff : ∀ e, e ∈ q'.pending ↔ e ∈ q.pending ∧ ∀ kind, u.timeouts kind ≠ some e.uid

/-- A change of the contexts and their timeouts; `stray` says whether there are others than the
kinds named above. -/
inductive Change (stray : Prop) (r r' : Rrc) : Prop
  | keep (hm : r'.ueMap = r.ueMap) (hq : r'.queue = r.queue)
  | set (u u' : UeManager) (hu : r.findUe u.rnti = some u) (hr : u'.rnti = u.rnti)
      (hc : u'.componentCarrierId = u.componentCarrierId)
      (hm : r'.ueMap = Keyed.modify UeManager.rnti u.rnti (fun _ => u') r.ueMap)
      (hq : Rearmed r.cfg r.queue u u' r'.queue)
  | add (u : UeManager) (kind : TimeoutKind) (hu : r.findUe u.rnti = none) (hne : u.rnti ≠ 0)
      (hc : u.componentCarrierId < r.cfg.cellIds.length)
      (hs : UeManager.timeoutOf u.state = some kind)
      (ht : u.timeouts = Function.update (fun _ => none) kind r.queue.handle)
      (hm : r'.ueMap = u :: r.ueMap)
      (hq : r'.queue = r.queue.schedule (r.cfg.timeoutDuration kind) ⟨kind, u.rnti⟩)
  | remove (u : UeManager) (hu : r.findUe u.rnti = some u)
      (hm : r'.ueMap = Keyed.erase UeManager.rnti u.rnti r.ueMap)
      (hq : Cleared r.queue r'.queue u)
  | stray (hs : stray) (hm : ∀ u' ∈ r'.ueMap, ∃ u ∈ r.ueMap, u'.rnti = u.rnti ∧
      u'.componentCarrierId = u.componentCarrierId)

/-- A sequence of changes, of an RRC that keeps its configuration. -/
def Changes (stray : Prop) : Rrc → Rrc → Prop :=
  Relation.ReflTransGen fun r r' => r'.cfg = r.cfg ∧ Change stray r r'

variable {stray : Prop} {r r₁ r₂ : Rrc} {u u' : UeManager}

theorem Changes.refl (r : Rrc) : Changes stray r r := Relation.ReflTransGen.refl

theorem Changes.trans (h : Changes stray r r₁) (h' : Changes stray r₁ r₂) : Changes stray r r₂ :=
  Relation.ReflTransGen.trans h h'

theorem Changes.one (hcfg : r₁.cfg = r.cfg) (h : Change stray r r₁) : Changes stray r r₁ :=
  Relation.ReflTransGen.single ⟨hcfg, h⟩

theorem Changes.keep (hcfg : r₁.cfg = r.cfg) (hm : r₁.ueMap = r.ueMap) (hq : r₁.queue = r.queue) :
    Changes stray r r₁ :=
  .one hcfg (.keep hm hq)

/-- What every change keeps, a sequence of changes keeps. -/
theorem Changes.invariant {I : Rrc → Prop}
    (hstep : ∀ {r r' : Rrc}, I r → r'.cfg = r.cfg → Change stray r r' → I r') (h0 : I r)
    (h : Changes stray r r₁) : I r₁ := by
  induction h with
  | refl => exact h0
  | tail _ hst ih => exact hstep ih hst.1 hst.2

/-- A computation makes only such changes where it succeeds. -/
abbrev Does (stray : Prop) (r : Rrc) (x : Except RrcError Rrc) : Prop :=
  Spec (fun _ => True) (Changes stray r) x

/-! ## Methods of a context -/

theorem spec_startDataRadioBearers (u : UeManager) :
    Spec (fun _ => True) (fun u' => u.Same u' ∧ u'.state = u.state) u.startDataRadioBearers := by
  unfold UeManager.startDataRadioBearers
  split
  · exact ⟨⟨rfl, rfl, rfl⟩, rfl⟩
  · trivial

theorem spec_pendingStart (u : UeManager) :
    Spec (fun _ => True) (fun u' => u.Same u' ∧ u'.state = u.state) u.pendingStart := by
  unfold UeManager.pendingStart
  split
  · exact spec_startDataRadioBearers u
  · exact ⟨.refl u, rfl⟩

theorem same_switchToState (u : UeManager) (s : UeState) : u.Same (u.switchToState s) :=
  ⟨rfl, rfl, rfl⟩

theorem same_setSource (u : UeManager) (cellId x2apId imsi : Nat) :
    u.Same (u.setSource cellId x2apId imsi) :=
  ⟨rfl, rfl, rfl⟩

variable (cfg : RrcConfig)

theorem same_buildRrcConnectionReconfiguration (u : UeManager) :
    u.Same (u.buildRrcConnectionReconfiguration cfg).1 ∧
      (u.buildRrcConnectionReconfiguration cfg).1.state = u.state := by
  unfold UeManager.buildRrcConnectionReconfiguration
  split <;> exact ⟨⟨rfl, rfl, rfl⟩, rfl⟩

theorem spec_scheduleRrcConnectionReconfiguration (u : UeManager) :
    Spec (fun _ => True)
      (fun p => u.Same p.1 ∧ UeManager.timeoutOf p.1.state = UeManager.timeoutOf u.state)
      (u.scheduleRrcConnectionReconfiguration cfg) := by
  unfold UeManager.scheduleRrcConnectionReconfiguration
  split
  case h_9 hs =>
    obtain ⟨⟨h1, h2, h3⟩, -⟩ := same_buildRrcConnectionReconfiguration cfg
      { u with pendingRrcConnectionReconfiguration := false }
    exact ⟨⟨h1, h2, h3⟩, by rw [hs]; rfl⟩
  case h_10 => trivial
  all_goals
    next hs => exact ⟨⟨rfl, rfl, rfl⟩, rfl⟩

theorem spec_switchToConnectedNormally (u : UeManager) :
    Spec (fun _ => True) (fun p => u.Same p.1 ∧ UeManager.timeoutOf p.1.state = none)
      (u.switchToConnectedNormally cfg) := by
  have hfirst : Spec (fun _ => True)
      (fun p => u.Same p.1 ∧ UeManager.timeoutOf p.1.state = none)
      ((u.switchToState .connectedNormally).pendingReconfiguration cfg) := by
    unfold UeManager.pendingReconfiguration
    split
    · refine (spec_scheduleRrcConnectionReconfiguration cfg _).imp fun p hp => ⟨?_, hp.2⟩
      exact (same_switchToState u _).trans hp.1
    · exact ⟨same_switchToState u _, rfl⟩
  refine hfirst.bind fun p hp => ?_
  refine (spec_pendingStart p.1).bind fun u' hu' => ?_
  exact ⟨hp.1.trans hu'.1, by rw [hu'.2]; exact hp.2⟩

theorem spec_sendPacket (u : UeManager) (bid : Nat) :
    Spec (fun _ => True) (fun u' => u.Same u' ∧ u'.state = u.state) (u.sendPacket bid) := by
  unfold UeManager.sendPacket
  split
  · exact ⟨.refl u, rfl⟩
  · split
    · trivial
    · exact ⟨⟨rfl, rfl, rfl⟩, rfl⟩

theorem spec_sendPacketBuffer (u : UeManager) :
    Spec (fun _ => True) (fun u' => u.Same u' ∧ u'.state = u.state) u.sendPacketBuffer := by
  have hloop := Spec.foldlM_mem (E := fun _ => True) (l := u.packetBuffer)
    (f := fun u p => u.sendPacket p.1) (P := fun u' => u.Same u' ∧ u'.state = u.state)
    (fun _ h => (spec_sendPacket _ _).imp fun _ h' => ⟨h.1.trans h'.1, h'.2.trans h.2⟩)
    ⟨.refl u, rfl⟩
  exact hloop.bind fun u' h => ⟨h.1.trans ⟨rfl, rfl, rfl⟩, h.2⟩

theorem spec_recvSnStatusTransfer (u : UeManager) (items : List StatusTransferItem) :
    Spec (fun _ => True) (fun u' => u.Same u' ∧ u'.state = u.state)
      (u.recvSnStatusTransfer items) := by
  refine Spec.foldlM_mem (P := fun u' => u.Same u' ∧ u'.state = u.state) (fun {u' i} _ h => ?_)
    ⟨.refl u, rfl⟩
  unfold UeManager.recvStatusTransferItem
  split
  · trivial
  · split
    · trivial
    · exact ⟨h.1.trans ⟨rfl, rfl, rfl⟩, h.2⟩

/-! ## Operations of the RRC -/

theorem spec_getUeManager (r : Rrc) (rnti : Nat) :
    Spec (fun _ => True) (fun u => u.rnti = rnti ∧ r.findUe rnti = some u)
      (r.getUeManager rnti) := by
  unfold getUeManager
  split
  · trivial
  · split
    · trivial
    · next hu => exact ⟨key_of_find? hu, hu⟩

theorem getUeManager_eq {rnti : Nat} (hne : rnti ≠ 0) (hu : r.findUe rnti = some u) :
    r.getUeManager rnti = .ok u := by
  rw [getUeManager, if_neg hne, hu]

theorem does_sendX2 (r : Rrc) (cellId : Nat) (m : X2Message) :
    Spec (fun _ => True) (fun r' => r' = r.send [.x2 cellId m]) (r.sendX2 cellId m) := by
  unfold sendX2
  split
  · rfl
  · trivial

theorem changes_send (r : Rrc) (out : List RrcOut) : Changes stray r (r.send out) :=
  .keep rfl rfl rfl

variable {q : EventQueue Timeout}

theorem changes_setUe (hu : r.findUe u.rnti = some u) (h : u.rnti = u'.rnti)
    (hc : u'.componentCarrierId = u.componentCarrierId) (hcfg : r₁.cfg = r.cfg)
    (hm : r₁.ueMap = r.ueMap) (hq : r₁.queue = q) (ht : Rearmed r.cfg r.queue u u' q) :
    Changes stray r (r₁.setUe u') :=
  .one hcfg (.set u u' hu h.symm hc (by rw [setUe, hm, h]) (hq ▸ ht))

theorem findUe_setUe (hu : r.findUe u.rnti = some u) (h : u'.rnti = u.rnti) :
    (r.setUe u').findUe u'.rnti = some u' := by
  rw [findUe, setUe, find?_modify_self (fun _ _ => rfl), h]
  exact congrArg (Option.map fun _ => u') hu

theorem changes_setUe_same (hu : r.findUe u.rnti = some u) (h : u.Same u')
    (hs : UeManager.timeoutOf u'.state = UeManager.timeoutOf u.state) :
    Changes stray r (r.setUe u') :=
  changes_setUe hu h.rnti.symm h.componentCarrierId rfl rfl rfl (.same h.timeouts hs)

/-- A method of a context, applied by the RRC. -/
theorem does_commit {x : Except RrcError (UeManager × List RrcOut)} {Q : UeManager → Prop}
    (hx : Spec (fun _ => True) (fun p => u.Same p.1 ∧ Q p.1) x)
    (hset : ∀ u', u.Same u' → Q u' → Changes stray r (r₁.setUe u')) :
    Does stray r (r₁.commit x) := by
  cases x with
  | error e => trivial
  | ok p => exact (hset p.1 hx.1 hx.2).trans (changes_send _ _)

theorem findRnti_spec (r : Rrc) {rnti' : Nat} :
    ∀ {n rnti : Nat}, rnti < 65536 → r.findRnti n rnti = some rnti' → rnti' ≠ 0 ∧ rnti' < 65536 ∧
      r.findUe rnti' = none
  | 0, _, _, h => nomatch h
  | n + 1, rnti, hlt, h => by
    rw [findRnti] at h
    split at h
    · next hok =>
      cases h
      exact ⟨hok.1, hlt, hok.2⟩
    · exact findRnti_spec r (Nat.mod_lt _ (by decide)) h

theorem spec_componentCarrierToCellId (r : Rrc) (i : Nat) :
    Spec (fun _ => True) (fun _ => i < r.cfg.cellIds.length) (r.componentCarrierToCellId i) := by
  unfold componentCarrierToCellId
  split
  · trivial
  · next hi => exact (List.getElem?_eq_some_iff.1 hi).1

/-- A context was added for a new RNTI, the last one that was allocated. -/
structure Adds (r : Rrc) (s : UeState) (maxSrs : Bool) (p : Rrc × UeManager) : Prop where
  ueMap : p.1.ueMap = p.2 :: r.ueMap
  last : p.1.lastAllocatedRnti = p.2.rnti
  ne_zero : p.2.rnti ≠ 0
  lt : p.2.rnti < 65536
  new : p.2.rnti ∉ r.ueMap.map UeManager.rnti
  state : p.2.state = s
  srs : r.srs.getNewSrsConfigurationIndex maxSrs = .ok (p.1.srs, p.2.srsConfigurationIndex)
  first : r.findRnti r.rntiCandidates ((r.lastAllocatedRnti + 1) % 65536) = some p.2.rnti

theorem Adds.findUe {s : UeState} {maxSrs : Bool} {p : Rrc × UeManager} (h : r.Adds s maxSrs p) :
    p.1.findUe p.2.rnti = some p.2 := by
  simp [Rrc.findUe, h.ueMap]

/-- `AddUe` adds a context for a new RNTI. -/
theorem spec_addUe (stray : Prop) (r : Rrc) (s : UeState) (cc : Nat) (maxSrs : Bool) :
    Spec (fun _ => True) (fun p => Changes stray r p.1 ∧ r.Adds s maxSrs p)
      (r.addUe s cc maxSrs) := by
  unfold addUe
  cases hrnti : r.findRnti r.rntiCandidates ((r.lastAllocatedRnti + 1) % 65536) with
  | none => trivial
  | some rnti =>
    cases hsrs : r.srs.getNewSrsConfigurationIndex maxSrs with
    | error e => trivial
    | ok p =>
      cases hkind : UeManager.timeoutOf s with
      | none => trivial
      | some kind =>
        obtain ⟨hne, hlt, hnew⟩ := findRnti_spec r (Nat.mod_lt _ (by decide)) hrnti
        refine (spec_componentCarrierToCellId _ cc).bind fun _ hcc => ?_
        exact ⟨.one rfl (.add _ kind hnew hne hcc hkind rfl rfl rfl), rfl, rfl, hne, hlt,
          find?_eq_none.1 hnew, rfl, hsrs, hrnti⟩

/-- The timer of the context is stopped. -/
theorem cleared_cancelPendingEvents (r : Rrc) (u : UeManager) :
    Cleared r.queue (r.cancelPendingEvents u).queue u where
  now_eq := rfl
  uid_eq := rfl
  mem_iff := by
    intro e
    simp only [cancelPendingEvents, cancel, EventQueue.mem_cancel]
    constructor
    · rintro ⟨⟨⟨⟨⟨he, h1⟩, h2⟩, h3⟩, h4⟩, h5⟩
      refine ⟨he, fun kind => ?_⟩
      cases kind <;> assumption
    · rintro ⟨he, h⟩
      exact ⟨⟨⟨⟨⟨he, h _⟩, h _⟩, h _⟩, h _⟩, h _⟩

/-- Nothing but what was sent has changed, or one timer of the context was stopped. -/
structure Halted (r : Rrc) (u : UeManager) (r₁ : Rrc) : Prop where
  cfg_eq : r₁.cfg = r.cfg
  ueMap_eq : r₁.ueMap = r.ueMap
  queue_eq : r₁.queue = r.queue ∨ ∃ kind, r₁.queue = r.queue.cancel (u.timeouts kind)

namespace Halted

theorem refl (r : Rrc) (u : UeManager) : Halted r u r := ⟨rfl, rfl, .inl rfl⟩

theorem send (h : Halted r u r₁) (out : List RrcOut) : Halted r u (r₁.send out) :=
  ⟨h.cfg_eq, h.ueMap_eq, h.queue_eq⟩

theorem cancel (r : Rrc) (u : UeManager) (kind : TimeoutKind) : Halted r u (r.cancel kind u) :=
  ⟨rfl, rfl, .inr ⟨kind, rfl⟩⟩

theorem findUe (h : Halted r u r₁) (rnti : Nat) : r₁.findUe rnti = r.findUe rnti := by
  rw [Rrc.findUe, h.ueMap_eq]
  rfl

theorem cleared (h : Halted r u r₁) : Cleared r.queue (r₁.cancelPendingEvents u).queue u := by
  have hc := cleared_cancelPendingEvents r₁ u
  obtain hq | ⟨kind, hq⟩ := h.queue_eq
  · rw [hq] at hc
    exact hc
  · refine ⟨by rw [hc.now_eq, hq]; rfl, by rw [hc.uid_eq, hq]; rfl, fun e => ?_⟩
    rw [hc.mem_iff, hq, EventQueue.mem_cancel]
    constructor
    · exact fun he => ⟨he.1.1, he.2⟩
    · exact fun he => ⟨⟨he.1, he.2 kind⟩, he.2⟩

end Halted

theorem ueMap_removeUe (r : Rrc) (rnti : Nat) :
    Spec (fun _ => True) (fun r' => r'.ueMap = Keyed.erase UeManager.rnti rnti r.ueMap)
      (r.removeUe rnti) := by
  unfold removeUe
  split
  · trivial
  · next u _ =>
    cases r.releaseSrs u with
    | error e => trivial
    | ok srs => rfl

/-- `RemoveUe` removes the context and clears its timer. -/
theorem does_removeUe (hu : r.findUe u.rnti = some u) (h : Halted r u r₁) :
    Does stray r (r₁.removeUe u.rnti) := by
  unfold removeUe
  rw [h.findUe, hu]
  change Does stray r (r₁.releaseSrs u >>= _)
  cases r₁.releaseSrs u with
  | error e => trivial
  | ok srs =>
    refine .one h.cfg_eq (.remove u hu ?_ h.cleared)
    change Keyed.erase UeManager.rnti u.rnti r₁.ueMap = _
    rw [h.ueMap_eq]

/-! ## Leaving the cell -/

theorem Does.after {x : Except RrcError Rrc} (h : Changes stray r r₁) (hx : Does stray r₁ x) :
    Does stray r x :=
  hx.imp fun _ hr => h.trans hr

theorem Halted.sendX2 (h : Halted r u r₁) (cellId : Nat) (m : X2Message) :
    Spec (fun _ => True) (Halted r u) (r₁.sendX2 cellId m) :=
  (does_sendX2 r₁ cellId m).imp fun _ hr' => hr' ▸ h.send _

theorem Halted.releaseIndications (h : Halted r u r₁) : Halted r u (r₁.releaseIndications u) := by
  unfold Rrc.releaseIndications
  split
  · exact h.send _
  · exact h

theorem does_recvIdealUeContextRemoveRequest (hu : r.findUe u.rnti = some u) (h : Halted r u r₁) :
    Does stray r (r₁.recvIdealUeContextRemoveRequest u.rnti) := by
  unfold recvIdealUeContextRemoveRequest
  rw [h.findUe, hu]
  have hnotify : Spec (fun _ => True) (Halted r u) (r₁.notifySource u) := by
    unfold notifySource
    split
    · exact h.sendX2 _ _
    · exact h
  exact hnotify.bind fun r' hr' => does_removeUe hu hr'.releaseIndications

theorem does_sendRrcConnectionRelease (hu : r.findUe u.rnti = some u) (h : Halted r u r₁) :
    Does stray r (r₁.sendRrcConnectionRelease u) :=
  does_recvIdealUeContextRemoveRequest hu (h.send _)

theorem does_timeout_of_halted {t : Timeout} (hu : r.findUe u.rnti = some u) (h : Halted r u r₁)
    (hr : t.rnti = u.rnti) : Does stray r (r₁.timeout t) := by
  unfold timeout
  refine (spec_getUeManager r₁ t.rnti).bind fun v hv => ?_
  obtain rfl : u = v := by
    have hv := hv.2
    rw [h.findUe, hr, hu] at hv
    exact Option.some.inj hv
  rw [hr]
  split
  · trivial
  · split
    · exact does_removeUe hu h
    · exact does_removeUe hu h
    · exact does_removeUe hu h
    · exact (h.sendX2 _ _).bind fun r' hr' => does_removeUe hu hr'
    · exact (h.sendX2 _ _).bind fun r' hr' => does_sendRrcConnectionRelease hu hr'

/-- A timeout makes such changes only. -/
theorem does_timeout (r : Rrc) (t : Timeout) : Does stray r (r.timeout t) := by
  cases hu : r.findUe t.rnti with
  | none =>
    have herr : r.getUeManager t.rnti = .error .unknownRnti := by
      rw [getUeManager, hu]
      exact ite_self _
    rw [timeout, herr]
    trivial
  | some u =>
    have hr : u.rnti = t.rnti := key_of_find? hu
    exact does_timeout_of_halted (hr ▸ hu) (.refl r u) hr.symm

/-! ## Messages of the UE and of the core network -/

theorem does_allocateTemporaryCellRnti (r : Rrc) (cc : Nat) (maxSrs : Bool) :
    Does stray r (r.allocateTemporaryCellRnti cc maxSrs) := by
  unfold allocateTemporaryCellRnti
  split
  · exact .refl r
  · exact (spec_addUe stray r _ cc maxSrs).bind fun p hp => hp.1

theorem Rearmed.restart {cfg : RrcConfig} {k kind : TimeoutKind}
    (hk : UeManager.timeoutOf u.state = some k) (hs : UeManager.timeoutOf u'.state = some kind)
    (ht : u'.timeouts = Function.update u.timeouts kind (q.cancel (u.timeouts k)).handle) :
    Rearmed cfg q u u'
      ((q.cancel (u.timeouts k)).schedule (cfg.timeoutDuration kind) ⟨kind, u.rnti⟩) := by
  have hstop : stopped q u = q.cancel (u.timeouts k) := by rw [stopped, hk]
  rw [← hstop] at ht ⊢
  exact .start kind hs ht

theorem Rearmed.halt {cfg : RrcConfig} {k : TimeoutKind}
    (hk : UeManager.timeoutOf u.state = some k) (hs : UeManager.timeoutOf u'.state = none)
    (ht : u'.timeouts = u.timeouts) : Rearmed cfg q u u' (q.cancel (u.timeouts k)) := by
  have hstop : stopped q u = q.cancel (u.timeouts k) := by rw [stopped, hk]
  rw [← hstop]
  exact .stop ht hs

theorem does_recvRrcConnectionRequest (r : Rrc) (rnti imsi : Nat) :
    Does stray r (r.recvRrcConnectionRequest rnti imsi) := by
  unfold recvRrcConnectionRequest
  refine (spec_getUeManager r rnti).bind ?_
  rintro u ⟨rfl, hu⟩
  split
  · next hs =>
    have hk : UeManager.timeoutOf u.state = some .connectionRequest := by rw [hs]; rfl
    change Does stray r (if _ then _ else _)
    split
    · exact changes_setUe hu rfl rfl rfl rfl rfl (.restart hk rfl rfl)
    · exact changes_setUe hu rfl rfl rfl rfl rfl (.restart hk rfl rfl)
  · trivial

theorem does_commit_connected {k : TimeoutKind} (hu : r.findUe u.rnti = some u)
    (hk : UeManager.timeoutOf u.state = some k) (h : u.Same u') :
    Does stray r ((r.cancel k u).commit (u'.switchToConnectedNormally r.cfg)) := by
  refine does_commit (u := u) (Q := fun u => UeManager.timeoutOf u.state = none)
    ((spec_switchToConnectedNormally r.cfg u').imp fun p hp => ⟨h.trans hp.1, hp.2⟩)
    fun u'' hsame hs => ?_
  exact changes_setUe hu hsame.rnti.symm hsame.componentCarrierId rfl rfl rfl
    (.halt hk hs hsame.timeouts)

theorem does_commit_connected_none (hu : r.findUe u.rnti = some u)
    (hk : UeManager.timeoutOf u.state = none) (h : u.Same u') :
    Does stray r (r.commit (u'.switchToConnectedNormally r.cfg)) := by
  refine does_commit (u := u) (Q := fun u => UeManager.timeoutOf u.state = none)
    ((spec_switchToConnectedNormally r.cfg u').imp fun p hp => ⟨h.trans hp.1, hp.2⟩)
    fun u'' hsame hs => ?_
  exact changes_setUe_same hu hsame (hs.trans hk.symm)

theorem same_forceReconfiguration (u : UeManager) : u.Same (u.forceReconfiguration cfg) := by
  unfold UeManager.forceReconfiguration
  split <;> exact ⟨rfl, rfl, rfl⟩

theorem does_recvRrcConnectionSetupCompleted (r : Rrc) (rnti : Nat) :
    Does stray r (r.recvRrcConnectionSetupCompleted rnti) := by
  unfold recvRrcConnectionSetupCompleted
  refine (spec_getUeManager r rnti).bind ?_
  rintro u ⟨rfl, hu⟩
  split
  · next hs =>
    have hk : UeManager.timeoutOf u.state = some .connectionSetup := by rw [hs]; rfl
    have hforce := same_forceReconfiguration r.cfg u
    change Does stray r (if _ then _ else _)
    split
    · have hsame := hforce.trans (same_switchToState _ .attachRequest)
      exact changes_setUe hu hsame.rnti.symm hsame.componentCarrierId rfl rfl rfl
        (.halt hk rfl hsame.timeouts)
    · exact does_commit_connected hu hk hforce
  · trivial

theorem does_initialContextSetupRequest (r : Rrc) (rnti : Nat) :
    Does stray r (r.initialContextSetupRequest rnti) := by
  unfold initialContextSetupRequest
  refine (spec_getUeManager r rnti).bind ?_
  rintro u ⟨rfl, hu⟩
  split
  · next hs => exact does_commit_connected_none hu (by rw [hs]; rfl) (.refl u)
  · trivial

theorem does_recvRrcConnectionReconfigurationCompleted (r : Rrc) (rnti : Nat) :
    Does stray r (r.recvRrcConnectionReconfigurationCompleted rnti) := by
  unfold recvRrcConnectionReconfigurationCompleted
  refine (spec_getUeManager r rnti).bind ?_
  rintro u ⟨rfl, hu⟩
  split
  · next hs =>
    refine (spec_startDataRadioBearers u).bind fun u' hu' => ?_
    exact does_commit_connected_none hu (by rw [hs]; rfl) (hu'.1.trans ⟨rfl, rfl, rfl⟩)
  · exact .refl r
  · exact .refl r
  · next hs =>
    have hk : UeManager.timeoutOf u.state = some .handoverJoining := by rw [hs]; rfl
    refine (spec_sendPacketBuffer u).bind fun u' hu' => ?_
    refine (spec_componentCarrierToCellId _ _).bind fun cellId _ => ?_
    change Does stray r (if _ then _ else _)
    split
    · have hsame := hu'.1.trans (same_switchToState u' .handoverPathSwitch)
      exact changes_setUe hu hsame.rnti.symm hsame.componentCarrierId rfl rfl rfl
        (.halt hk rfl hsame.timeouts)
    · trivial
  · trivial

theorem does_recvRrcConnectionReestablishmentRequest (r : Rrc) (rnti : Nat) :
    Does stray r (r.recvRrcConnectionReestablishmentRequest rnti) := by
  unfold recvRrcConnectionReestablishmentRequest
  refine (spec_getUeManager r rnti).bind ?_
  rintro u ⟨rfl, hu⟩
  split
  · next hs =>
    exact changes_setUe hu rfl rfl rfl rfl rfl (.same rfl (by rw [hs]; rfl))
  · next hs =>
    have hk : UeManager.timeoutOf u.state = some .handoverLeaving := by rw [hs]; rfl
    exact changes_setUe hu rfl rfl rfl rfl rfl (.halt hk rfl rfl)
  · trivial

/-- What the setup of bearers leaves alone. -/
structure SetsUp (r : Rrc) (u : UeManager) (p : Rrc × UeManager) : Prop where
  cfg : p.1.cfg = r.cfg
  ueMap : p.1.ueMap = r.ueMap
  queue : p.1.queue = r.queue
  last : p.1.lastAllocatedRnti = r.lastAllocatedRnti
  same : u.Same p.2
  timeouts : UeManager.timeoutOf p.2.state = UeManager.timeoutOf u.state

theorem SetsUp.trans {p q : Rrc × UeManager} (h : r.SetsUp u p) (h' : p.1.SetsUp p.2 q) :
    r.SetsUp u q :=
  ⟨h'.cfg.trans h.cfg, h'.ueMap.trans h.ueMap, h'.queue.trans h.queue, h'.last.trans h.last,
    h.same.trans h'.same, h'.timeouts.trans h.timeouts⟩

/-- A bearer is set up in the context only. -/
theorem spec_setupDataRadioBearer (r : Rrc) (u : UeManager) (bearer : EpsBearer)
    (bearerId gtpTeid : Nat) :
    Spec (fun _ => True) (r.SetsUp u) (r.setupDataRadioBearer u bearer bearerId gtpTeid) := by
  unfold setupDataRadioBearer
  cases u.findDrbid 32 ((u.lastAllocatedDrbid + 1) % 32) with
  | none => trivial
  | some drbid =>
    change Spec _ _ (if _ then _ else if _ then _ else _)
    split
    · trivial
    · split
      · trivial
      · refine (spec_scheduleRrcConnectionReconfiguration r.cfg _).bind fun p hp => ?_
        exact ⟨rfl, rfl, rfl, rfl, ⟨hp.1.rnti, hp.1.componentCarrierId, hp.1.timeouts⟩, hp.2⟩

theorem does_dataRadioBearerSetupRequest (r : Rrc) (rnti : Nat) (bearer : EpsBearer)
    (bearerId gtpTeid : Nat) :
    Does stray r (r.dataRadioBearerSetupRequest rnti bearer bearerId gtpTeid) := by
  unfold dataRadioBearerSetupRequest
  refine (spec_getUeManager r rnti).bind ?_
  rintro u ⟨rfl, hu⟩
  refine (spec_setupDataRadioBearer r u bearer bearerId gtpTeid).bind fun p hp => ?_
  exact changes_setUe hu hp.same.rnti.symm hp.same.componentCarrierId hp.cfg hp.ueMap hp.queue
    (.same hp.same.timeouts hp.timeouts)

theorem does_sendReleaseDataRadioBearer (r : Rrc) (imsi rnti bearerId : Nat) :
    Does stray r (r.sendReleaseDataRadioBearer imsi rnti bearerId) := by
  unfold sendReleaseDataRadioBearer
  split
  · exact .refl r
  · next u hu =>
    obtain rfl : u.rnti = rnti := key_of_find? hu
    split
    · trivial
    · split
      · refine Changes.trans ?_ (changes_send _ _)
        exact changes_setUe hu rfl rfl rfl rfl rfl (.same rfl rfl)
      · trivial

theorem does_updateConfig (r : Rrc) (rnti : Nat) : Does stray r (r.updateConfig rnti) := by
  unfold updateConfig
  refine (spec_getUeManager r rnti).bind ?_
  rintro u ⟨rfl, hu⟩
  refine does_commit (u := u)
    (Q := fun u' => UeManager.timeoutOf u'.state = UeManager.timeoutOf u.state)
    ((spec_scheduleRrcConnectionReconfiguration r.cfg _).imp fun p hp =>
      ⟨⟨hp.1.rnti, hp.1.componentCarrierId, hp.1.timeouts⟩, hp.2⟩) fun u' hsame hs => ?_
  exact changes_setUe_same hu hsame hs

theorem does_sendData (r : Rrc) (rnti bid : Nat) (p : Packet) :
    Does stray r (r.sendData rnti bid p) := by
  unfold sendData
  refine (spec_getUeManager r rnti).bind ?_
  rintro u ⟨rfl, hu⟩
  have hpacket : Does stray r (do .ok (r.setUe (← u.sendPacket bid))) := by
    refine (spec_sendPacket u bid).bind fun u' hu' => ?_
    exact changes_setUe_same hu hu'.1 (by rw [hu'.2])
  split
  · exact .refl r
  · exact .refl r
  · exact hpacket
  · exact hpacket
  · exact hpacket
  · exact hpacket
  · exact hpacket
  · exact changes_setUe_same hu ⟨rfl, rfl, rfl⟩ rfl
  · split
    · trivial
    · exact (does_sendX2 r _ _).imp fun r' hr' => hr' ▸ changes_send r _
  · trivial

/-! ## Handover -/

theorem does_prepareHandover (hu : r.findUe u.rnti = some u) (cellId : Nat) :
    Does stray r (r.prepareHandover u cellId) := by
  unfold prepareHandover
  split
  · next hs =>
    refine (spec_componentCarrierToCellId r _).bind fun own _ => ?_
    change Does stray r (if _ then _ else _)
    split
    · trivial
    · refine (does_sendX2 r _ _).bind fun r' hr' => ?_
      subst hr'
      exact changes_setUe hu rfl rfl rfl rfl rfl (.same rfl (by rw [hs]; rfl))
  · trivial

theorem does_sendHandoverRequest (r : Rrc) (rnti cellId : Nat) :
    Does stray r (r.sendHandoverRequest rnti cellId) := by
  unfold sendHandoverRequest
  refine (spec_getUeManager r rnti).bind ?_
  rintro u ⟨rfl, hu⟩
  exact does_prepareHandover hu cellId

theorem does_triggerHandover (r : Rrc) (rnti cellId : Nat) (forbidden : Bool) :
    Does stray r (r.triggerHandover rnti cellId forbidden) := by
  unfold triggerHandover
  refine (spec_getUeManager r rnti).bind ?_
  rintro u ⟨rfl, hu⟩
  split
  · exact .refl r
  · exact does_prepareHandover hu cellId

theorem spec_setupBearers (r : Rrc) (u : UeManager) (bearers : List ErabToBeSetupItem) :
    Spec (fun _ => True) (r.SetsUp u) (r.setupBearers u bearers) :=
  Spec.foldlM_mem (P := r.SetsUp u) (fun _ h =>
    (spec_setupDataRadioBearer _ _ _ _ _).imp fun _ h' => h.trans h')
    ⟨rfl, rfl, rfl, rfl, .refl u, rfl⟩

/-- A handover request adds a context, and removes it where no preamble is left. -/
theorem does_recvHandoverRequest (r : Rrc) (sourceCellId old targetCellId imsi : Nat)
    (bearers : List ErabToBeSetupItem) (maxSrs : Bool) (preamble : Option Nat) :
    Does stray r
      (r.recvHandoverRequest sourceCellId old targetCellId imsi bearers maxSrs preamble) := by
  unfold recvHandoverRequest
  split
  · exact (does_sendX2 r _ _).imp fun r' hr' => hr' ▸ changes_send r _
  · cases r.cellToComponentCarrierId targetCellId with
    | error e => trivial
    | ok cc =>
      refine (spec_addUe stray r _ cc maxSrs).bind fun p hp => ?_
      obtain ⟨hadd, hnew⟩ := hp
      have hu := hnew.findUe
      cases preamble with
      | none =>
        refine Does.after hadd ?_
        refine Does.after (changes_setUe_same hu (same_setSource _ sourceCellId old imsi) rfl) ?_
        have hu' := findUe_setUe hu (same_setSource p.2 sourceCellId old imsi).rnti
        exact (Halted.sendX2 (.refl _ _) _ _).bind fun r' hr' => does_removeUe hu' hr'
      | some raPreambleId =>
        refine Does.after hadd ?_
        refine (spec_setupBearers p.1 _ bearers).bind fun p' hp' => ?_
        refine (spec_componentCarrierToCellId _ _).bind fun cellId _ => ?_
        obtain ⟨hbuild, hstate⟩ := same_buildRrcConnectionReconfiguration p'.1.cfg p'.2
        have hset : Changes stray p.1 (p'.1.setUe
            (p'.2.buildRrcConnectionReconfiguration p'.1.cfg).1) :=
          changes_setUe hu (hbuild.rnti.trans hp'.same.rnti).symm
            (hbuild.componentCarrierId.trans hp'.same.componentCarrierId) hp'.cfg hp'.ueMap
            hp'.queue
            (.same (hbuild.timeouts.trans hp'.same.timeouts) (by rw [hstate]; exact hp'.timeouts))
        refine Does.after hset ?_
        exact (does_sendX2 _ _ _).imp fun r' hr' => hr' ▸ changes_send _ _

/-- Whether the RNTI has a context with a timer. -/
def timed (r : Rrc) (rnti : Nat) : Bool :=
  (r.findUe rnti).any fun u => (UeManager.timeoutOf u.state).isSome

/-- Whether the RNTI has a context that joins. -/
def joining (r : Rrc) (rnti : Nat) : Bool :=
  (r.findUe rnti).any fun u => decide (u.state = .handoverJoining)

/-- The calls that meet a context in a state whose timer they disregard. -/
def isStray (r : Rrc) : RrcCall → Bool
  | .recvRrcConnectionReestablishmentComplete rnti => r.timed rnti
  | .recvX2 _ _ (.handoverRequestAck old _ _ _) => r.timed old
  | .recvX2 _ _ (.handoverCancel _ new) => r.joining new
  | _ => false

theorem timeoutOf_of_not_timed {rnti : Nat} (hu : r.findUe rnti = some u)
    (h : ¬ r.timed rnti = true) : UeManager.timeoutOf u.state = none := by
  simpa [timed, hu] using h

theorem changes_setUe_stray (hs : stray) (hu : r.findUe u.rnti = some u) (h : u'.rnti = u.rnti)
    (hc : u'.componentCarrierId = u.componentCarrierId) (hcfg : r₁.cfg = r.cfg)
    (hm : r₁.ueMap = r.ueMap) : Changes stray r (r₁.setUe u') := by
  refine .one hcfg (.stray hs ?_)
  change ∀ v ∈ Keyed.modify UeManager.rnti u'.rnti (fun _ => u') r₁.ueMap, _
  rw [hm]
  refine forall_modify (fun v hv => ⟨v, hv, rfl, rfl⟩) fun v hv _ => ?_
  exact ⟨u, Keyed.mem_of_find? hu, h, hc⟩

theorem does_recvHandoverRequestAck (r : Rrc) (targetCellId old new : Nat) (admitted : List Nat)
    (command : HandoverCommand) (erabIds : Nat → Nat) :
    Does (r.timed old = true) r
      (r.recvHandoverRequestAck targetCellId old new admitted command erabIds) := by
  unfold recvHandoverRequestAck
  refine (spec_getUeManager r old).bind ?_
  rintro u ⟨rfl, hu⟩
  change Does _ r (if _ then _ else if _ then _ else _)
  split
  · trivial
  · split
    · trivial
    · refine (does_sendX2 _ _ _).imp fun r' hr' => hr' ▸ Changes.trans ?_ (changes_send _ _)
      by_cases ht : r.timed u.rnti = true
      · exact changes_setUe_stray ht hu rfl rfl rfl rfl
      · have hk := timeoutOf_of_not_timed hu ht
        refine changes_setUe hu rfl rfl rfl rfl rfl ?_
        have hstop : stopped r.queue u = r.queue := by rw [stopped, hk]
        have harm : Rearmed r.cfg r.queue u ((r.schedule .handoverLeaving
            (u.switchToState .handoverLeaving)).2.setTarget new targetCellId) _ :=
          .start .handoverLeaving rfl (by rw [hstop]; rfl)
        rw [hstop] at harm
        exact harm

theorem does_recvRrcConnectionReestablishmentComplete (r : Rrc) (rnti : Nat) :
    Does (r.timed rnti = true) r (r.recvRrcConnectionReestablishmentComplete rnti) := by
  unfold recvRrcConnectionReestablishmentComplete
  refine (spec_getUeManager r rnti).bind ?_
  rintro u ⟨rfl, hu⟩
  by_cases ht : r.timed u.rnti = true
  · refine does_commit (u := u) (Q := fun _ => True)
      ((spec_switchToConnectedNormally r.cfg u).imp fun p hp => ⟨hp.1, trivial⟩)
      fun u' hsame _ => ?_
    exact changes_setUe_stray ht hu hsame.rnti hsame.componentCarrierId rfl rfl
  · exact does_commit_connected_none hu (timeoutOf_of_not_timed hu ht) (.refl u)

theorem does_recvHandoverPreparationFailure (r : Rrc) (targetCellId old : Nat) :
    Does stray r (r.recvHandoverPreparationFailure targetCellId old) := by
  unfold recvHandoverPreparationFailure
  split
  · exact .refl r
  · next u hu =>
    obtain rfl : u.rnti = old := key_of_find? hu
    split
    · next hs =>
      split
      · exact does_commit_connected_none hu (by rw [hs]; rfl) (.refl u)
      · trivial
    · split
      · exact does_sendRrcConnectionRelease hu (.cancel r u _)
      · trivial
    · trivial

theorem does_recvSnStatusTransfer (r : Rrc) (new : Nat) (items : List StatusTransferItem) :
    Does stray r (r.recvSnStatusTransfer new items) := by
  unfold recvSnStatusTransfer
  split
  · exact .refl r
  · next u hu =>
    obtain rfl : u.rnti = new := key_of_find? hu
    have hspec := spec_recvSnStatusTransfer u items
    cases hx : u.recvSnStatusTransfer items with
    | error e => trivial
    | ok u' =>
      obtain ⟨hsame, hs⟩ := hspec.ok hx
      exact changes_setUe_same hu hsame (by rw [hs])

theorem does_recvUeContextRelease (r : Rrc) (old : Nat) :
    Does stray r (r.recvUeContextRelease old) := by
  unfold recvUeContextRelease
  split
  · exact .refl r
  · next u hu =>
    obtain rfl : u.rnti = old := key_of_find? hu
    split
    · exact does_removeUe hu (.cancel r u _)
    · trivial

theorem does_recvHandoverCancel (r : Rrc) (new : Nat) :
    Does (r.joining new = true) r (r.recvHandoverCancel new) := by
  unfold recvHandoverCancel
  split
  · exact .refl r
  · next u hu =>
    split
    · next hs =>
      have hj : r.joining new = true := by simp [joining, hu, hs]
      have hh := (Halted.cancel r u .handoverJoining).releaseIndications
      refine .one hh.cfg_eq (.stray hj fun v hv => ?_)
      rw [hh.ueMap_eq] at hv
      exact ⟨v, hv, rfl, rfl⟩
    · trivial

theorem does_recvUeData (r : Rrc) (gtpTeid : Nat) (p : Packet) :
    Does stray r (r.recvUeData gtpTeid p) := by
  unfold recvUeData
  split
  · trivial
  · exact does_sendData r _ _ p

theorem findUe_recvUeContextRelease (hu : r.findUe u.rnti = some u)
    (hs : u.state = .handoverPathSwitch) (old : Nat) :
    Spec (fun _ => True) (fun r' => r'.findUe u.rnti = some u) (r.recvUeContextRelease old) := by
  unfold recvUeContextRelease
  split
  · exact hu
  · next v hv =>
    split
    · next hleave =>
      have hne : u.rnti ≠ old := by
        rintro rfl
        rw [hu] at hv
        cases hv
        rw [hs] at hleave
        cases hleave
      refine (ueMap_removeUe _ old).imp fun r' hr' => ?_
      rw [findUe, hr', find?_erase_of_ne hne]
      exact hu
    · trivial

theorem spec_sendUeContextRelease (stray : Prop) (hu : r.findUe u.rnti = some u)
    (hs : u.state = .handoverPathSwitch) :
    Spec (fun _ => True) (fun r' => Changes stray r r' ∧ r'.findUe u.rnti = some u)
      (r.sendUeContextRelease u) := by
  unfold sendUeContextRelease
  split
  · exact (does_recvUeContextRelease r _).and (findUe_recvUeContextRelease hu hs _)
  · exact (does_sendX2 r _ _).imp fun r' hr' => hr' ▸ ⟨changes_send r _, hu⟩

theorem does_pathSwitchRequestAcknowledge (r : Rrc) (rnti : Nat) :
    Does stray r (r.pathSwitchRequestAcknowledge rnti) := by
  unfold pathSwitchRequestAcknowledge
  refine (spec_getUeManager r rnti).bind ?_
  rintro u ⟨rfl, hu⟩
  split
  · next hs =>
    refine (spec_sendUeContextRelease stray hu hs).bind fun r' hr' => ?_
    exact Does.after hr'.1 (does_commit_connected_none hr'.2 (by rw [hs]; rfl) (.refl u))
  · trivial

/-- What the calls do. -/
theorem does_call (r : Rrc) (c : RrcCall) : Does (r.isStray c = true) r (r.call c) := by
  cases c with
  | allocateTemporaryCellRnti => exact does_allocateTemporaryCellRnti r _ _
  | recvRrcConnectionRequest => exact does_recvRrcConnectionRequest r _ _
  | recvRrcConnectionSetupCompleted => exact does_recvRrcConnectionSetupCompleted r _
  | recvRrcConnectionReconfigurationCompleted =>
    exact does_recvRrcConnectionReconfigurationCompleted r _
  | recvRrcConnectionReestablishmentRequest =>
    exact does_recvRrcConnectionReestablishmentRequest r _
  | recvRrcConnectionReestablishmentComplete =>
    exact does_recvRrcConnectionReestablishmentComplete r _
  | recvIdealUeContextRemoveRequest rnti =>
    change Does _ r (r.recvIdealUeContextRemoveRequest rnti)
    cases hu : r.findUe rnti with
    | none =>
      rw [recvIdealUeContextRemoveRequest, hu]
      exact .refl r
    | some u =>
      obtain rfl : u.rnti = rnti := key_of_find? hu
      exact does_recvIdealUeContextRemoveRequest hu (.refl r u)
  | initialContextSetupRequest => exact does_initialContextSetupRequest r _
  | dataRadioBearerSetupRequest => exact does_dataRadioBearerSetupRequest r _ _ _ _
  | sendReleaseDataRadioBearer => exact does_sendReleaseDataRadioBearer r _ _ _
  | pathSwitchRequestAcknowledge => exact does_pathSwitchRequestAcknowledge r _
  | updateConfig => exact does_updateConfig r _
  | sendData => exact does_sendData r _ _ _
  | sendHandoverRequest => exact does_sendHandoverRequest r _ _
  | triggerHandover => exact does_triggerHandover r _ _ _
  | recvX2 remoteCellId inp m =>
    cases m with
    | handoverRequest => exact does_recvHandoverRequest r _ _ _ _ _ _ _
    | handoverRequestAck => exact does_recvHandoverRequestAck r _ _ _ _ _ _
    | handoverPreparationFailure => exact does_recvHandoverPreparationFailure r _ _
    | snStatusTransfer => exact does_recvSnStatusTransfer r _ _
    | ueContextRelease => exact does_recvUeContextRelease r _
    | handoverCancel => exact does_recvHandoverCancel r _
    | ueData => exact does_recvUeData r _ _

end Rrc

end OranNs3
