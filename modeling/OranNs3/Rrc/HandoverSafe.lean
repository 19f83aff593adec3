import OranNs3.Rrc.Handover
import OranNs3.Rrc.OneUe

/-!
# Safety of a handover

A handover races with two timers. Its invariant (`Handover.Inv`) follows what the source knows: it
waits for the answer, which is not yet sent or under way; it got the refusal and serves the UE
again; or it sent the UE away (`Handover.Left`), and each message under way fits the stage of the
target.

The invariant holds in every run in which the timers and the UE do not cross a message that the
other side cannot stand any more (`Handover.Guard`), and while it holds no handler fails
(`Handover.act_ne_error_of_run`). Otherwise a `HANDOVER CANCEL` reaches a target that the UE has
joined already, and a forwarded packet a target that has given up (`Handover.timers_cross`).
-/

namespace OranNs3

open Fallible EventQueue List Option

/-- A `HANDOVER CANCEL`. -/
def X2Message.isCancel : X2Message → Bool
  | .handoverCancel .. => true
  | _ => false

/-- A forwarded packet. -/
def X2Message.isUeData : X2Message → Bool
  | .ueData .. => true
  | _ => false

/-- What the source takes for the status of a bearer names one. -/
def UeManager.NamesBearers (u : UeManager) (erabIds : Nat → Nat) : Prop :=
  ∀ i ∈ u.statusTransferItems erabIds, i.erabId % 256 ∈ u.drbMap.map Drb.drbIdentity

namespace Handover

open UeManager Rrc

/-! ## The conditions -/

/-- What a message may meet at the source: the status of its bearers can be sent, and the cell that
refuses is the one that it asked. -/
def MayReach (s : Handover) (inp : X2Input) : X2Message → Prop
  | .handoverRequestAck old _ _ _ => ∀ u ∈ s.source.findUe old, u.NamesBearers inp.erabIds
  | .handoverPreparationFailure old => ∀ u ∈ s.source.findUe old,
    u.state = .handoverPreparation → u.targetCellId = s.target.firstCell
  | _ => True

/-- No timer runs out while the message that it races with is under way, and nothing is sent to a
target that has given up. -/
def Guard (s : Handover) : HandoverAction → Prop
  | .toSource inp => ∀ m ∈ s.toSource.head?, s.MayReach inp m
  | .completed k => ∀ e ∈ s.radio[k]?, e.1 = .target →
    (s.target.findUe e.2).isSome = true ∧ ∀ m ∈ s.toTarget, m.isCancel = false
  | .timer .source => ∀ v ∈ s.target.ueMap, v.state = .handoverJoining
  | .timer .target => ∀ m ∈ s.toTarget, m.isUeData = false
  | .data rnti _ _ => ∀ u ∈ s.source.findUe rnti, u.state = .handoverLeaving →
    s.target.ueMap.isEmpty = false
  | .toTarget _ | .pathSwitchAcknowledge _ | .advance _ => True

instance (s : Handover) (inp : X2Input) (m : X2Message) : Decidable (s.MayReach inp m) :=
  match m with
  | .handoverRequestAck old _ _ _ =>
    inferInstanceAs (Decidable (∀ u ∈ s.source.findUe old,
      ∀ i ∈ u.statusTransferItems inp.erabIds, i.erabId % 256 ∈ u.drbMap.map Drb.drbIdentity))
  | .handoverPreparationFailure _ => inferInstanceAs (Decidable (∀ _ ∈ _, _))
  | .handoverRequest .. | .snStatusTransfer .. | .ueContextRelease .. | .handoverCancel ..
  | .ueData .. => inferInstanceAs (Decidable True)

instance (s : Handover) (a : HandoverAction) : Decidable (s.Guard a) :=
  match a with
  | .toSource _ => inferInstanceAs (Decidable (∀ _ ∈ _, _))
  | .completed _ => inferInstanceAs (Decidable (∀ _ ∈ _, _))
  | .timer .source => inferInstanceAs (Decidable (∀ _ ∈ _, _))
  | .timer .target => inferInstanceAs (Decidable (∀ _ ∈ _, _))
  | .data _ _ _ => inferInstanceAs (Decidable (∀ _ ∈ _, _))
  | .toTarget _ | .pathSwitchAcknowledge _ | .advance _ => inferInstanceAs (Decidable True)

/-! ## What stays during a handover -/

/-- The configurations of two gNBs that can hand over a UE, the UE's RNTI at the source, the cell
that it is handed over to and the TEIDs of its bearers. -/
structure Setting where
  source : RrcConfig
  target : RrcConfig
  rnti : Nat
  cellId : Nat
  teids : List Nat
  source_ne_nil : source.cellIds ≠ []
  toTarget : source.x2Interfaces = [target.cellIds]
  toSource : target.x2Interfaces = [source.cellIds]
  cell : cellId ∈ target.cellIds
  foreign : ∀ c ∈ source.cellIds, c ∉ target.cellIds
  carriers : target.cellIds.length = 1 ∨ target.cellIds.length = source.cellIds.length
  epc : target.epc = true
  mapping : target.epsBearerToRlcMapping ≠ .rlcSmAlways
  few : teids.length ≤ 31
  nodup : teids.Nodup

variable (c : Setting)

/-- A gNB without the context. -/
structure Gone (cfg : RrcConfig) (r : Rrc) : Prop extends Zero r where
  cfg : r.cfg = cfg
  out : r.out = []

/-- The source with the context. -/
structure Sends (r : Rrc) (u : UeManager) : Prop where
  one : One r u
  cfg : r.cfg = c.source
  out : r.out = []
  rnti : u.rnti = c.rnti
  bearers : u.BearersOk c.teids.length
  teids : u.drbMap.map Drb.gtpTeid = c.teids

variable (new : Nat)

/-- The target with the context. -/
structure Joined (r : Rrc) (v : UeManager) : Prop where
  one : One r v
  cfg : r.cfg = c.target
  out : r.out = []
  rnti : v.rnti = new
  source : v.sourceCellId = c.source.cellIds.headD 0 ∧ v.sourceX2apId = c.rnti
  bearers : v.BearersOk c.teids.length
  teids : TeidsOf r new c.teids

/-! ## Messages under way -/

/-- An acknowledgment that the source accepts. -/
inductive Ack (new : Nat) : X2Message → Prop
  | mk {admitted : List Nat} {command : HandoverCommand} (hlen : admitted.length = c.teids.length)
    (hcarriers : command.sCellToAddModList.any (· + 1 != c.source.cellIds.length) = false)
    (hnew : command.newUeIdentity = new) : Ack new (.handoverRequestAck c.rnti new admitted command)

/-- The answer of the target, while the source waits. -/
inductive Answer : Rrc → List X2Message → Prop
  | refused {t : Rrc} (ht : Gone c.target t) : Answer t [.handoverPreparationFailure c.rnti]
  | accepted {t : Rrc} {v : UeManager} {new : Nat} {m : X2Message} (ht : Joined c new t v)
    (hs : v.state = .handoverJoining) (hm : Ack c new m) : Answer t [m]
  | expired {t : Rrc} {new : Nat} {m : X2Message} (ht : Gone c.target t) (hm : Ack c new m) :
    Answer t [m, .handoverPreparationFailure c.rnti]

/-- A message to the target once the source has sent the UE away. -/
inductive ToTarget (new : Nat) (t : Rrc) : X2Message → Prop
  | snStatusTransfer {old : Nat} {items : List StatusTransferItem}
    (h : ∀ i ∈ items, 1 ≤ i.erabId % 256 ∧ i.erabId % 256 ≤ c.teids.length) :
    ToTarget new t (.snStatusTransfer old new items)
  | ueData {teid : Nat} {p : Packet} (h : teid ∈ c.teids) (ht : t.ueMap ≠ []) :
    ToTarget new t (.ueData teid p)
  | handoverCancel {old : Nat} (h : ∀ v ∈ t.ueMap, v.state = .handoverJoining) :
    ToTarget new t (.handoverCancel old new)

/-- A message to the source once it has sent the UE away. -/
inductive ToSource : X2Message → Prop
  | handoverPreparationFailure : ToSource (.handoverPreparationFailure c.rnti)
  | ueContextRelease {new : Nat} : ToSource (.ueContextRelease c.rnti new)

/-- How far the target is, by the state of its context: what the UE and the core network still
answer. -/
def Stage (radio pathSwitches : List (Side × Nat)) : UeState → Prop
  | .handoverJoining => radio.length ≤ 1 ∧ pathSwitches = []
  | .handoverPathSwitch => radio = [] ∧ pathSwitches = [(.target, new)]
  | .connectedNormally | .connectionReconfiguration => pathSwitches = []
  | _ => False

/-- The target, once the source has sent the UE away. -/
inductive TargetAt (t : Rrc) (radio pathSwitches : List (Side × Nat)) : Prop
  | absent (ht : Gone c.target t) (hp : pathSwitches = [])
  | joined {v : UeManager} (ht : Joined c new t v) (hs : Stage new radio pathSwitches v.state)

/-- The source has sent the UE away. -/
structure Left (s : Handover) : Prop where
  source : Gone c.source s.source ∨ ∃ u, Sends c s.source u ∧ u.state = .handoverLeaving ∧
    u.targetCellId = c.target.cellIds.headD 0 ∧ u.targetX2apId = new
  target : TargetAt c new s.target s.radio s.pathSwitches
  toTarget : ∀ m ∈ s.toTarget, ToTarget c new s.target m
  toSource : ∀ m ∈ s.toSource, ToSource c m
  radio : ∀ e ∈ s.radio, e = (.target, new)

/-- The source waits for an answer. -/
def Waits (r : Rrc) : Prop :=
  ∃ u, Sends c r u ∧ u.state = .handoverPreparation ∧ u.targetCellId = c.cellId

/-- The request. -/
def IsRequest (m : X2Message) : Prop :=
  ∃ imsi items, m = .handoverRequest c.rnti c.cellId imsi items ∧
    items.map ErabToBeSetupItem.erabId = List.range' 1 items.length ∧
    items.map ErabToBeSetupItem.gtpTeid = c.teids

/-- The invariant of a handover. -/
inductive Inv (s : Handover) : Prop
  | requested {m : X2Message} (hs : Waits c s.source) (ht : Gone c.target s.target)
    (hteids : s.target.x2uTeidInfoMap = []) (hsrs : SrsListed s.target) (hm : IsRequest c m)
    (hto : s.toTarget = [m]) (hfrom : s.toSource = []) (hr : s.radio = [])
    (hp : s.pathSwitches = [])
  | answered (hs : Waits c s.source) (ha : Answer c s.target s.toSource) (hto : s.toTarget = [])
    (hr : s.radio = []) (hp : s.pathSwitches = [])
  | returned {u : UeManager} (hs : Sends c s.source u)
    (hc : u.state = .connectedNormally ∨ u.state = .connectionReconfiguration)
    (ht : Gone c.target s.target) (hto : s.toTarget = []) (hfrom : s.toSource = [])
    (hr : ∀ e ∈ s.radio, e = (.source, c.rnti)) (hp : s.pathSwitches = [])
  | left {new : Nat} (h : Left c new s)

variable {c : Setting} {s s' : Handover} {r r' t t' : Rrc} {u v : UeManager} {new : Nat}

/-! ## Sending -/

theorem emit_of_silent (side : Side) (s : Handover) {o : RrcOut} (ho : o.silent = true) :
    emit side s o = s := by
  cases o with
  | x2 => cases ho
  | ue rnti m =>
    cases m with
    | connectionReconfiguration => cases ho
    | handover => cases ho
    | _ => rfl
  | s1 m =>
    cases m with
    | pathSwitchRequest => cases ho
    | _ => rfl

variable {l : List RrcOut}

theorem foldl_emit_silent (side : Side) (s : Handover)
    (hl : ∀ o ∈ l, o.silent = true) : l.foldl (emit side) s = s := by
  induction l with
  | nil => rfl
  | cons o l ih =>
    rw [foldl_cons, emit_of_silent side s (hl o mem_cons_self)]
    exact ih fun o' ho' => hl o' (mem_cons_of_mem _ ho')

variable {rnti : Nat}

theorem foldl_emit_reconfigurations (side : Side) (hl : OnlyReconfiguration rnti l) (s : Handover) :
    ∃ es, (∀ e ∈ es, e = (side, rnti)) ∧
      l.foldl (emit side) s = { s with radio := s.radio ++ es } := by
  induction l generalizing s with
  | nil => exact ⟨[], nofun, by rw [append_nil]; rfl⟩
  | cons o l ih =>
    have ho : o = .ue rnti .connectionReconfiguration := hl o mem_cons_self
    obtain ⟨es, hes, heq⟩ := ih (fun o' ho' => hl o' (mem_cons_of_mem _ ho')) (emit side s o)
    refine ⟨(side, rnti) :: es, forall_mem_cons.2 ⟨rfl, hes⟩, ?_⟩
    rw [foldl_cons, heq, ho]
    simp [emit]

/-! ## RRCs after a handler -/

theorem Gone.of_removed {cfg : RrcConfig} (h : Removed r r') (hcfg : r.cfg = cfg) :
    Gone cfg (drained r') :=
  ⟨⟨h.map, h.pending⟩, h.cfg.trans hcfg, rfl⟩

variable {q : EventQueue Timeout}

theorem Gone.setQueue {cfg : RrcConfig} (h : Gone cfg r)
    (hq : ∀ e ∈ q.pending, e ∈ r.queue.pending) : Gone cfg (r.setQueue q) where
  map := h.map
  pending := eq_nil_iff_forall_not_mem.2 fun e he => by
    have hmem := hq e he
    rw [h.pending] at hmem
    cases hmem
  cfg := h.cfg
  out := h.out

variable {u' : UeManager}

/-- A handler that changed the context of the source. -/
theorem Sends.becomes (h : Sends c r u) (hb : Becomes r r' u')
    (hr : u'.rnti = u.rnti) (hok : u'.BearersOk c.teids.length)
    (ht : u'.drbMap.map Drb.gtpTeid = u.drbMap.map Drb.gtpTeid) : Sends c (drained r') u' where
  one := hb.one.congr rfl rfl rfl fun _ he => he
  cfg := hb.cfg.trans h.cfg
  out := rfl
  rnti := hr.trans h.rnti
  bearers := hok
  teids := ht.trans h.teids

theorem Sends.setQueue (h : Sends c r u)
    (hq : ∀ e ∈ q.pending, e ∈ r.queue.pending) : Sends c (r.setQueue q) u :=
  { h with one := h.one.congr rfl rfl rfl hq }

theorem Joined.becomes {v' : UeManager} (h : Joined c new t v) (hb : Becomes t t' v')
    (hk : v.Kept v') (hok : v'.BearersOk c.teids.length) : Joined c new (drained t') v' where
  one := hb.one.congr rfl rfl rfl fun _ he => he
  cfg := hb.cfg.trans h.cfg
  out := rfl
  rnti := hk.rnti.trans h.rnti
  source := ⟨hk.source.1.trans h.source.1, hk.source.2.trans h.source.2⟩
  bearers := hok
  teids := by
    intro teid hteid
    rw [show (drained t').x2uTeidInfoMap = t.x2uTeidInfoMap from hb.teids]
    exact h.teids teid hteid

theorem Joined.setQueue (h : Joined c new t v)
    (hq : ∀ e ∈ q.pending, e ∈ t.queue.pending) : Joined c new (t.setQueue q) v :=
  { h with one := h.one.congr rfl rfl rfl hq }

theorem Waits.setQueue (h : Waits c r)
    (hq : ∀ e ∈ q.pending, e ∈ r.queue.pending) : Waits c (r.setQueue q) := by
  obtain ⟨u, hu, hs, hc⟩ := h
  exact ⟨u, hu.setQueue hq, hs, hc⟩

theorem Setting.hasX2Interface (c : Setting) {cellId : Nat} (h : cellId ∈ c.target.cellIds) :
    c.source.hasX2Interface cellId = true := by
  simp [RrcConfig.hasX2Interface, c.toTarget, h]

theorem Setting.target_ne_nil (c : Setting) : c.target.cellIds ≠ [] :=
  ne_nil_of_mem c.cell

theorem headD_mem {l : List Nat} (h : l ≠ []) : l.headD 0 ∈ l := by
  cases l with
  | nil => exact absurd rfl h
  | cons a l => exact mem_cons_self

theorem Setting.hasX2Interface_target (c : Setting) :
    c.source.hasX2Interface (c.target.cellIds.headD 0) = true :=
  c.hasX2Interface (headD_mem c.target_ne_nil)

theorem Setting.hasX2Interface_source (c : Setting) :
    c.target.hasX2Interface (c.source.cellIds.headD 0) = true := by
  have hmem := headD_mem c.source_ne_nil
  rw [RrcConfig.hasX2Interface, c.toSource]
  simpa using hmem

theorem Setting.pdcp (c : Setting) (hr : r.cfg = c.target) (b : EpsBearer) :
    (r.newRlc b).pdcp? ≠ none := by
  have hmap := c.mapping
  unfold newRlc
  rw [hr]
  cases hm : c.target.epsBearerToRlcMapping with
  | rlcSmAlways => exact absurd hm hmap
  | rlcUmAlways => nofun
  | rlcAmAlways => nofun
  | perBased => cases b.lossy <;> nofun

theorem Setting.length_eq {items : List ErabToBeSetupItem}
    (h : items.map ErabToBeSetupItem.gtpTeid = c.teids) : items.length = c.teids.length := by
  rw [← h, length_map]

/-- The extension of the handover command is one that the source accepts. -/
theorem Setting.carriers_ok (c : Setting) :
    ((if 1 < c.target.cellIds.length then some (c.target.cellIds.length - 1) else none).any
      (· + 1 != c.source.cellIds.length)) = false := by
  rcases c.carriers with h | h
  · rw [h]
    rfl
  · split
    · simp only [any_some, bne_eq_false_iff_eq]
      omega
    · rfl

/-! ## The request and its answer -/

variable {m : X2Message}

/-- The target handles the request. -/
theorem requested_toTarget (hs : Waits c s.source) (ht : Gone c.target s.target)
    (hteids : s.target.x2uTeidInfoMap = []) (hsrs : SrsListed s.target) (hm : IsRequest c m)
    (hto : s.toTarget = []) (hfrom : s.toSource = []) (hr : s.radio = []) (hp : s.pathSwitches = [])
    (inp : X2Input) :
    Spec Never (Inv c) ((s.target.recvX2 s.source.firstCell inp m).map (s.put .target)) := by
  obtain ⟨imsi, items, rfl, hids, hitems⟩ := hm
  obtain ⟨u, hu, hstate, hcell⟩ := id hs
  have hlen := Setting.length_eq hitems
  have hfirst : s.source.firstCell = c.source.cellIds.headD 0 := by rw [Rrc.firstCell, hu.cfg]
  have hx2 := c.hasX2Interface_source
  have htc := c.cell
  rw [← ht.cfg] at hx2 htc
  rw [hfirst]
  refine Spec.map ((ht.toZero.recvHandoverRequest hsrs hteids (c.pdcp ht.cfg) hx2 htc hids
    (hlen ▸ c.few) (hitems ▸ c.nodup) inp.maxSrsReached inp.raPreambleId).imp fun t' ht' => ?_)
  rcases ht' with hrefuse | ⟨v, hacc⟩
  · obtain ⟨l, hl, hsilent⟩ := hrefuse.out
    rw [ht.out, nil_append] at hl
    have hput : s.put .target t' = { s with target := drained t', toSource := s.toSource ++
        [.handoverPreparationFailure c.rnti] } := by
      rw [put, hl, foldl_cons]
      exact foldl_emit_silent _ _ hsilent
    rw [hput, hfrom]
    exact .answered hs (.refused ⟨⟨hrefuse.map, hrefuse.pending⟩, hrefuse.cfg.trans ht.cfg, rfl⟩)
      hto hr hp
  · obtain ⟨cellId, preamble, hout⟩ := hacc.out
    have hput : s.put .target t' = { s with target := drained t', toSource := s.toSource ++
        [.handoverRequestAck c.rnti v.rnti (items.map ErabToBeSetupItem.erabId) ⟨cellId, v.rnti,
          preamble, if 1 < s.target.cfg.cellIds.length then some (s.target.cfg.cellIds.length - 1)
            else none⟩] } := by
      rw [put, hout, ht.out]
      rfl
    have hjoined : Joined c v.rnti (drained t') v :=
      ⟨hacc.one.congr rfl rfl rfl fun _ he => he, hacc.cfg.trans ht.cfg, rfl, rfl, hacc.source,
        hlen ▸ hacc.bearers, hitems ▸ hacc.teids⟩
    rw [hput, hfrom]
    refine .answered hs (.accepted hjoined hacc.state (.mk ?_ ?_ rfl)) hto hr hp
    · rw [length_map, hlen]
    · rw [ht.cfg]
      exact c.carriers_ok

/-- The source handles the acknowledgment, and sends the UE away. -/
theorem answered_toSource (hs : Waits c s.source) (hm : Ack c new m)
    (ht : Gone c.target s.target ∨ ∃ v, Joined c new s.target v ∧ v.state = .handoverJoining)
    (hto : s.toTarget = []) (hfrom : ∀ m ∈ s.toSource, ToSource c m) (hr : s.radio = [])
    (hp : s.pathSwitches = []) (inp : X2Input)
    (hnames : ∀ u, s.source.findUe c.rnti = some u → u.NamesBearers inp.erabIds) :
    Spec Never (Left c new) ((s.source.recvX2 s.target.firstCell inp m).map (s.put .source)) := by
  obtain @⟨admitted, command, hlen, hcarriers, hnew⟩ := hm
  obtain ⟨u, hu, hstate, -⟩ := hs
  have htcfg : s.target.cfg = c.target := by
    rcases ht with ht | ⟨v, ht, -⟩
    · exact ht.cfg
    · exact ht.cfg
  have hfirst : s.target.firstCell = c.target.cellIds.headD 0 := by rw [Rrc.firstCell, htcfg]
  have hack : s.source.Acceptable u s.target.firstCell admitted command := by
    refine ⟨hlen.trans ?_, by rw [hu.cfg]; exact hcarriers, ?_⟩
    · rw [← hu.teids, length_map]
    · rw [hfirst, hu.cfg]
      exact c.hasX2Interface_target
  change Spec _ _ ((s.source.recvHandoverRequestAck _ c.rnti new admitted command inp.erabIds).map
    _)
  rw [← hu.rnti]
  refine Spec.map ((hu.one.recvHandoverRequestAck hstate hack inp.erabIds).imp fun r' hr' => ?_)
  obtain ⟨u', hb, hs', hrnti, hcell, hnewId, hdrb, hstarted, hout⟩ := hr'
  have hput : s.put .source r' = { s with
      source := drained r'
      toTarget := s.toTarget ++ [.snStatusTransfer u.rnti new (u.statusTransferItems inp.erabIds)]
      radio := s.radio ++ [(.target, new)] } := by
    rw [put, hout, hu.out, ← hnew]
    rfl
  have hitems : ∀ i ∈ u.statusTransferItems inp.erabIds,
      1 ≤ i.erabId % 256 ∧ i.erabId % 256 ≤ c.teids.length := fun i hi =>
    (hu.bearers.ids _).1 (hnames u (hu.rnti ▸ hu.one.findUe) i hi)
  rw [hput, hto, hr]
  refine ⟨.inr ⟨u', hu.becomes hb hrnti (hu.bearers.of_eq hdrb hstarted) (by rw [hdrb]), hs',
    hcell.trans hfirst, hnewId⟩, ?_, ?_, hfrom, ?_⟩
  · rcases ht with ht | ⟨v, hv, hstage⟩
    · exact .absent ht hp
    · exact .joined hv (by rw [hstage]; exact ⟨le_rfl, hp⟩)
  · intro m hm
    obtain rfl := mem_singleton.1 hm
    exact .snStatusTransfer hitems
  · intro e he
    exact mem_singleton.1 he

/-! ## Messages between the source that sent the UE away and the target -/

theorem drained_of_out (h : r.out = []) : drained r = r := by
  cases r
  cases h
  rfl

theorem put_target_self (h : s.target.out = []) : s.put .target s.target = s := by
  rw [put, h, foldl_nil, drained_of_out h]

theorem put_source_self (h : s.source.out = []) : s.put .source s.source = s := by
  rw [put, h, foldl_nil, drained_of_out h]

variable {radio pathSwitches : List (Side × Nat)}

theorem Stage.states {x : UeState} (h : Stage new radio pathSwitches x) :
    x = .connectedNormally ∨ x = .connectionReconfiguration ∨ x = .handoverPathSwitch ∨
      x = .handoverJoining := by
  cases x with
  | handoverJoining => simp
  | handoverPathSwitch => simp
  | connectedNormally => simp
  | connectionReconfiguration => simp
  | _ => exact absurd h id

theorem ToTarget.mono (h : ToTarget c new t m) (hne : t.ueMap ≠ [] → t'.ueMap ≠ [])
    (hj : (∀ v ∈ t.ueMap, v.state = .handoverJoining) →
      ∀ v ∈ t'.ueMap, v.state = .handoverJoining) : ToTarget c new t' m := by
  cases h with
  | snStatusTransfer h => exact .snStatusTransfer h
  | ueData h ht => exact .ueData h (hne ht)
  | handoverCancel h => exact .handoverCancel (hj h)

theorem Left.target_same {v' : UeManager} (h : Left c new s) (hv : s.target.ueMap = [v])
    (hv' : t'.ueMap = [v']) (hs : v'.state = v.state)
    (ht : TargetAt c new t' s.radio s.pathSwitches) : Left c new { s with target := t' } := by
  refine ⟨h.source, ht, fun m hm => (h.toTarget m hm).mono ?_ ?_, h.toSource, h.radio⟩
  · intro _
    rw [hv']
    exact cons_ne_nil _ _
  · intro hj w hw
    rw [hv'] at hw
    rw [mem_singleton.1 hw, hs]
    exact hj v (hv ▸ mem_singleton_self v)

theorem Left.carries (h : Left c new s) (ht : Joined c new s.target v)
    (hs : Stage new s.radio s.pathSwitches v.state) (hc : Carries s.target v c.teids.length t') :
    Left c new (s.put .target t') := by
  obtain ⟨v', hb, hk, hs', hok, hout⟩ := hc
  have hput : s.put .target t' = { s with target := drained t' } := by
    rw [put, hout, ht.out]
    rfl
  have hjoined := ht.becomes hb hk hok
  rw [hput]
  exact h.target_same ht.one.map hb.one.map hs' (.joined hjoined (by rw [hs']; exact hs))

/-- The target handles a message. -/
theorem Left.toTarget_step (h : Left c new s) (hm : ToTarget c new s.target m)
    (remoteCellId : Nat) (inp : X2Input) :
    Spec Never (Left c new) ((s.target.recvX2 remoteCellId inp m).map (s.put .target)) := by
  refine Spec.map ?_
  cases h.target with
  | absent ht hp =>
    have hnone : s.target.findUe new = none := ht.toZero.findUe new
    have hsame : Left c new (s.put .target s.target) := by rwa [put_target_self ht.out]
    cases hm with
    | snStatusTransfer =>
      rw [recvX2, Rrc.recvSnStatusTransfer, hnone]
      exact hsame
    | ueData _ hne => exact absurd ht.map hne
    | handoverCancel =>
      rw [recvX2, Rrc.recvHandoverCancel, hnone]
      exact hsame
  | @joined v ht hs =>
    cases hm with
    | snStatusTransfer hitems =>
      rw [recvX2, ← ht.rnti]
      refine (ht.one.recvSnStatusTransfer ht.bearers hitems).imp fun t' ht' => ?_
      rw [ht.rnti]
      exact h.carries ht hs ht'
    | @ueData teid p hteid =>
      obtain ⟨i, hi, hr⟩ := ht.teids teid hteid
      rw [recvX2]
      exact (ht.one.recvUeData ht.bearers hs.states hi (hr.trans ht.rnti.symm) p).imp fun t' ht' =>
        h.carries ht hs ht'
    | handoverCancel hj =>
      have hjoining : v.state = .handoverJoining := hj v (by rw [ht.one.map]; exact .head _)
      rw [recvX2, ← ht.rnti]
      refine (ht.one.recvHandoverCancel hjoining).imp fun t' ht' => ?_
      obtain ⟨hb, l, hl, hsilent⟩ := ht'
      have hput : s.put .target t' = { s with target := drained t' } := by
        rw [put, hl, ht.out]
        exact foldl_emit_silent _ _ hsilent
      have hjoined := ht.becomes hb (.refl v) ht.bearers
      rw [hput, ht.rnti]
      exact h.target_same ht.one.map hb.one.map rfl (.joined hjoined hs)

/-- The source has removed the context. -/
theorem Left.removed (h : Left c new s) (hcfg : r.cfg = c.source) (hout : r.out = [])
    (hr : Removed r r') : Left c new (s.put .source r') := by
  obtain ⟨l, hl, hsilent⟩ := hr.out
  have hput : s.put .source r' = { s with source := drained r' } := by
    rw [put, hl, hout]
    exact foldl_emit_silent _ _ hsilent
  rw [hput]
  exact ⟨.inl (.of_removed hr hcfg), h.target, h.toTarget, h.toSource, h.radio⟩

theorem TargetAt.cfg (h : TargetAt c new t radio pathSwitches) : t.cfg = c.target := by
  cases h with
  | absent ht => exact ht.cfg
  | joined ht => exact ht.cfg

/-- The source handles a message. -/
theorem Left.toSource_step (h : Left c new s) (hm : ToSource c m) (inp : X2Input) :
    Spec Never (Left c new) ((s.source.recvX2 s.target.firstCell inp m).map (s.put .source)) := by
  refine Spec.map ?_
  rcases h.source with hu | ⟨u, hu, hs, hc, -⟩
  · have hnone : s.source.findUe c.rnti = none := hu.toZero.findUe c.rnti
    have hsame : Left c new (s.put .source s.source) := by rwa [put_source_self hu.out]
    cases hm with
    | handoverPreparationFailure =>
      rw [recvX2, Rrc.recvHandoverPreparationFailure, hnone]
      exact hsame
    | ueContextRelease =>
      rw [recvX2, Rrc.recvUeContextRelease, hnone]
      exact hsame
  · have hfirst : u.targetCellId = s.target.firstCell := by rw [hc, Rrc.firstCell, h.target.cfg]
    cases hm with
    | handoverPreparationFailure =>
      rw [recvX2, ← hu.rnti]
      exact (hu.one.recvHandoverPreparationFailure_leaving hs hfirst).imp fun r' hr' =>
        h.removed hu.cfg hu.out hr'
    | ueContextRelease =>
      rw [recvX2, ← hu.rnti]
      exact (hu.one.recvUeContextRelease hs).imp fun r' hr' => h.removed hu.cfg hu.out hr'

/-! ## The UE and the core network -/

theorem ToTarget.of_not_cancel (h : ToTarget c new t m) (hm : m.isCancel = false)
    (ht : t'.ueMap ≠ []) : ToTarget c new t' m := by
  cases h with
  | snStatusTransfer h => exact .snStatusTransfer h
  | ueData h => exact .ueData h ht
  | handoverCancel => cases hm

theorem ToTarget.not_cancel (h : ToTarget c new t m) (ht : t.ueMap = [v])
    (hs : v.state ≠ .handoverJoining) : m.isCancel = false := by
  cases h with
  | handoverCancel hj => exact absurd (hj v (ht ▸ .head _)) hs
  | _ => rfl

/-- The target moves on, with what the UE, the core network and the source get to do. -/
theorem Left.moves {toSource : List X2Message}
    (h : Left c new s) (hcancel : ∀ m ∈ s.toTarget, m.isCancel = false) (hne : t'.ueMap ≠ [])
    (ht : TargetAt c new t' radio pathSwitches) (hr : ∀ e ∈ radio, e = (.target, new))
    (hfrom : ∀ m ∈ toSource, ToSource c m) :
    Left c new ⟨s.source, t', s.toTarget, toSource, radio, pathSwitches⟩ :=
  ⟨h.source, ht, fun m hm => (h.toTarget m hm).of_not_cancel (hcancel m hm) hne, hfrom, hr⟩

theorem Left.serves {p : UeManager × List RrcOut} {radio : List (Side × Nat)}
    {toSource : List X2Message} (h : Left c new s) (ht : Joined c new s.target v)
    (hcancel : ∀ m ∈ s.toTarget, m.isCancel = false) (hp : v.Connected c.teids.length p)
    (hb : Becomes s.target t' p.1) (hr : ∀ e ∈ radio, e = (.target, new))
    (hfrom : ∀ m ∈ toSource, ToSource c m) :
    Left c new (p.2.foldl (emit .target) ⟨s.source, drained t', s.toTarget, toSource, radio,
      []⟩) := by
  obtain ⟨es, hes, heq⟩ := foldl_emit_reconfigurations .target hp.out
    ⟨s.source, drained t', s.toTarget, toSource, radio, []⟩
  have hjoined := ht.becomes hb hp.kept hp.bearers
  have hstage : Stage new (radio ++ es) [] p.1.state := by
    rcases hp.state with hs | hs
    · rw [hs]
      rfl
    · rw [hs]
      rfl
  rw [heq]
  refine h.moves hcancel ?_ (.joined hjoined hstage) ?_ hfrom
  · rw [hjoined.one.map]
    exact cons_ne_nil _ _
  · rw [ht.rnti] at hes
    exact forall_mem_append.2 ⟨hr, hes⟩

variable {k : Nat}

/-- The UE completes a reconfiguration at the target. -/
theorem Left.completed_step (h : Left c new s) (hk : s.radio[k]? = some (.target, new))
    (hue : (s.target.findUe new).isSome = true) (hcancel : ∀ m ∈ s.toTarget, m.isCancel = false) :
    Spec Never (Left c new) ((s.target.recvRrcConnectionReconfigurationCompleted new).map
      ({ s with radio := s.radio.eraseIdx k }.put .target)) := by
  have hradio : ∀ e ∈ s.radio.eraseIdx k, e = (.target, new) := fun e he =>
    h.radio e (mem_of_mem_eraseIdx he)
  refine Spec.map ?_
  cases h.target with
  | absent ht =>
    rw [ht.toZero.findUe] at hue
    cases hue
  | @joined v ht hs =>
    have hserves : v.state = .connectedNormally ∨ v.state = .connectionReconfiguration →
        s.pathSwitches = [] → Spec Never
          (fun t' => Left c new ({ s with radio := s.radio.eraseIdx k }.put .target t'))
          (s.target.recvRrcConnectionReconfigurationCompleted new) := fun hstate hp => by
      have hx := ht.one.completed_connected ht.bearers hstate
      rw [ht.rnti] at hx
      refine hx.imp fun t' ht' => ?_
      obtain ⟨p, hconn, hb, hout⟩ := ht'
      rw [put, hout, ht.out, nil_append, hp]
      exact h.serves ht hcancel hconn hb hradio h.toSource
    cases hstate : v.state with
    | handoverJoining =>
      rw [hstate] at hs
      obtain ⟨hlen, hp⟩ := hs
      have hepc := c.epc
      rw [← ht.cfg] at hepc
      have hx := ht.one.completed_joining ht.bearers hstate hepc
      rw [ht.rnti] at hx
      refine hx.imp fun t' ht' => ?_
      obtain ⟨v', cellId, l, hb, hkept, hs', hok, hout⟩ := ht'
      have hjoined := ht.becomes hb hkept hok
      have hnil : s.radio.eraseIdx k = [] := by
        have hlt : k < s.radio.length := (List.getElem?_eq_some_iff.1 hk).1
        have := length_eraseIdx_of_lt hlt
        exact length_eq_zero_iff.1 (by omega)
      have hput : { s with radio := s.radio.eraseIdx k }.put .target t' =
          ⟨s.source, drained t', s.toTarget, s.toSource, [], [(.target, new)]⟩ := by
        rw [put, hout, ht.out, hnil, hp]
        rfl
      rw [hput]
      refine h.moves hcancel ?_ (.joined hjoined (by rw [hs']; exact ⟨rfl, rfl⟩)) nofun h.toSource
      rw [hjoined.one.map]
      exact cons_ne_nil _ _
    | handoverPathSwitch =>
      rw [hstate] at hs
      rw [hs.1] at hk
      cases hk
    | connectedNormally =>
      rw [hstate] at hs
      exact hserves (.inl hstate) hs
    | connectionReconfiguration =>
      rw [hstate] at hs
      exact hserves (.inr hstate) hs
    | _ =>
      rw [hstate] at hs
      exact absurd hs id

/-- The core network acknowledges the path switch. -/
theorem Left.pathSwitchAcknowledge_step {e : Side × Nat} (h : Left c new s)
    (hk : s.pathSwitches[k]? = some e) : e = (.target, new) ∧
    Spec Never (Left c new) ((s.target.pathSwitchRequestAcknowledge new).map
      ({ s with pathSwitches := s.pathSwitches.eraseIdx k }.put .target)) := by
  cases h.target with
  | absent ht hp =>
    rw [hp] at hk
    cases hk
  | @joined v ht hs =>
    cases hstate : v.state with
    | handoverPathSwitch =>
      rw [hstate] at hs
      obtain ⟨hr, hp⟩ := hs
      have hlt := (List.getElem?_eq_some_iff.1 hk).1
      rw [hp] at hk hlt
      obtain rfl : k = 0 := by
        rw [length_singleton] at hlt
        omega
      obtain rfl := some.inj hk
      refine ⟨rfl, Spec.map ?_⟩
      have hforeign := c.foreign _ (headD_mem c.source_ne_nil)
      have hx2 := c.hasX2Interface_source
      rw [← ht.cfg, ← ht.source.1] at hforeign hx2
      have hx := ht.one.pathSwitchRequestAcknowledge ht.bearers hstate hforeign hx2
      rw [ht.rnti, ht.source.1, ht.source.2] at hx
      refine hx.imp fun t' ht' => ?_
      obtain ⟨p, hconn, hb, hout⟩ := ht'
      have hcancel : ∀ m ∈ s.toTarget, m.isCancel = false := fun m hm =>
        (h.toTarget m hm).not_cancel ht.one.map (by rw [hstate]; decide)
      have hput : { s with pathSwitches := s.pathSwitches.eraseIdx 0 }.put .target t' =
          p.2.foldl (emit .target) ⟨s.source, drained t', s.toTarget,
            s.toSource ++ [.ueContextRelease c.rnti new], [], []⟩ := by
        rw [put, hout, hp, Rrc.send, ht.out, hr]
        rfl
      rw [hput]
      refine h.serves ht hcancel hconn ⟨hb.one, hb.cfg, hb.teids⟩ (forall_mem_nil _) ?_
      refine forall_mem_append.2 ⟨h.toSource, fun m hm => ?_⟩
      obtain rfl := mem_singleton.1 hm
      exact .ueContextRelease
    | handoverJoining =>
      rw [hstate] at hs
      rw [hs.2] at hk
      cases hk
    | connectedNormally =>
      rw [hstate] at hs
      rw [show s.pathSwitches = [] from hs] at hk
      cases hk
    | connectionReconfiguration =>
      rw [hstate] at hs
      rw [show s.pathSwitches = [] from hs] at hk
      cases hk
    | _ =>
      rw [hstate] at hs
      exact absurd hs id

/-! ## Timers, data and time -/

theorem TargetAt.setQueue
    (h : TargetAt c new t radio pathSwitches) (hq : ∀ e ∈ q.pending, e ∈ t.queue.pending) :
    TargetAt c new (t.setQueue q) radio pathSwitches := by
  cases h with
  | absent ht hp => exact .absent (ht.setQueue hq) hp
  | joined ht hs => exact .joined (ht.setQueue hq) hs

variable {q q' : EventQueue Timeout}

theorem Left.setQueue (h : Left c new s) (hq : ∀ e ∈ q.pending, e ∈ s.source.queue.pending)
    (hq' : ∀ e ∈ q'.pending, e ∈ s.target.queue.pending) :
    Left c new { s with source := s.source.setQueue q, target := s.target.setQueue q' } := by
  refine ⟨?_, h.target.setQueue hq', fun m hm => (h.toTarget m hm).mono id id, h.toSource, h.radio⟩
  rcases h.source with hu | ⟨u, hu, hrest⟩
  · exact .inl (hu.setQueue hq)
  · exact .inr ⟨u, hu.setQueue hq, hrest⟩

variable {e : Scheduled Timeout}

theorem event_of_next? (h : One r u) (hn : r.queue.next? = some (e, q)) {kind : TimeoutKind}
    (hs : ∀ k, timeoutOf u.state = some k → k = kind) : e.ev = ⟨kind, u.rnti⟩ := by
  obtain ⟨hkind, hr, -⟩ := h.owned e (next?_mem hn)
  obtain ⟨ts, uid, kind', rnti'⟩ := e
  obtain rfl := hs kind' hkind
  exact congrArg (Timeout.mk kind') hr

/-- The source gives up while the target joins. -/
theorem Left.timer_source (h : Left c new s)
    (hn : s.source.queue.next? = some (e, q)) (hq' : q'.pending = s.target.queue.pending)
    (hg : ∀ v ∈ s.target.ueMap, v.state = .handoverJoining) :
    Spec Never (Left c new) (((s.source.setQueue q).timeout e.ev).map
      ({ s with target := s.target.setQueue q' }.put .source)) := by
  have hmem : ∀ x ∈ q.pending, x ∈ s.source.queue.pending := fun x hx =>
    ((mem_next? hn).1 hx).1
  rcases h.source with hu | ⟨u, hu, hs, hc, hnew⟩
  · have he := next?_mem hn
    rw [hu.pending] at he
    cases he
  · have hev : e.ev = ⟨.handoverLeaving, u.rnti⟩ := event_of_next? hu.one hn fun k hk => by
      rw [hs] at hk
      exact (some.inj hk).symm
    have hx2 := c.hasX2Interface_target
    rw [← hu.cfg, ← hc] at hx2
    rw [hev]
    refine Spec.map (((hu.setQueue hmem).one.timeout_leaving hs hx2).imp fun r' hr' => ?_)
    obtain ⟨l, hl, hsilent⟩ := hr'.out
    have hput : { s with target := s.target.setQueue q' }.put .source r' = { s with
        source := drained r'
        target := s.target.setQueue q'
        toTarget := s.toTarget ++ [.handoverCancel u.rnti new] } := by
      rw [put, hl, Rrc.send, show (s.source.setQueue q).out = [] from hu.out, hnew]
      exact foldl_emit_silent _ _ hsilent
    rw [hput]
    refine ⟨.inl (.of_removed hr' hu.cfg), h.target.setQueue fun x hx => hq' ▸ hx, ?_, h.toSource,
      h.radio⟩
    refine forall_mem_append.2 ⟨fun m hm => (h.toTarget m hm).mono id id, fun m hm => ?_⟩
    obtain rfl := mem_singleton.1 hm
    exact .handoverCancel hg

theorem Joined.joining_of_next? (h : Joined c new t v) (hn : t.queue.next? = some (e, q))
    (hs : v.state = .connectedNormally ∨ v.state = .connectionReconfiguration ∨
      v.state = .handoverPathSwitch ∨ v.state = .handoverJoining) :
    v.state = .handoverJoining ∧ e.ev = ⟨.handoverJoining, v.rnti⟩ := by
  have hkind := (h.one.owned e (next?_mem hn)).1
  rcases hs with hs | hs | hs | hs
  · rw [hs] at hkind
    cases hkind
  · rw [hs] at hkind
    cases hkind
  · rw [hs] at hkind
    cases hkind
  · refine ⟨hs, event_of_next? h.one hn fun k hk => ?_⟩
    rw [hs] at hk
    exact (some.inj hk).symm

/-- The target gives up: it tells the source. -/
theorem Joined.timeout (h : Joined c new t v)
    (hn : t.queue.next? = some (e, q)) (hjoining : v.state = .handoverJoining) :
    Spec Never (fun t' => Gone c.target (drained t') ∧ ∃ cellId l,
        t'.out = .x2 cellId (.handoverPreparationFailure c.rnti) :: l ∧ ∀ o ∈ l, o.silent = true)
      ((t.setQueue q).timeout e.ev) := by
  have hmem : ∀ x ∈ q.pending, x ∈ t.queue.pending := fun x hx =>
    ((mem_next? hn).1 hx).1
  obtain ⟨-, hev⟩ := h.joining_of_next? hn (.inr (.inr (.inr hjoining)))
  have hx2 := c.hasX2Interface_source
  rw [← h.cfg, ← h.source.1] at hx2
  rw [hev]
  refine ((h.setQueue hmem).one.timeout_joining hjoining hx2).imp fun t' ht' => ?_
  obtain ⟨l, hl, hsilent⟩ := ht'.out
  refine ⟨.of_removed ht' h.cfg, v.sourceCellId, l, ?_, hsilent⟩
  rw [hl, Rrc.send, show (t.setQueue q).out = [] from h.out, h.source.2]
  rfl

theorem put_expired {cellId rnti : Nat}
    (h : t'.out = .x2 cellId (.handoverPreparationFailure rnti) :: l)
    (hl : ∀ o ∈ l, o.silent = true) (s : Handover) :
    s.put .target t' = { s with
      target := drained t'
      toSource := s.toSource ++ [.handoverPreparationFailure rnti] } := by
  rw [put, h, foldl_cons]
  exact foldl_emit_silent _ _ hl

theorem Left.timer_target (h : Left c new s)
    (hn : s.target.queue.next? = some (e, q)) (hq' : q'.pending = s.source.queue.pending)
    (hg : ∀ m ∈ s.toTarget, m.isUeData = false) :
    Spec Never (Left c new) (((s.target.setQueue q).timeout e.ev).map
      ({ s with source := s.source.setQueue q' }.put .target)) := by
  have hmem : ∀ x ∈ q.pending, x ∈ s.target.queue.pending := fun x hx =>
    ((mem_next? hn).1 hx).1
  cases h.target with
  | absent ht =>
    have he := next?_mem hn
    rw [ht.pending] at he
    cases he
  | @joined v ht hs =>
    have hjoining := (ht.joining_of_next? hn hs.states).1
    rw [hjoining] at hs
    refine Spec.map ((ht.timeout hn hjoining).imp fun t' ht' => ?_)
    obtain ⟨hgone, cellId, l, hout, hsilent⟩ := ht'
    rw [put_expired hout hsilent]
    have hleft := h.setQueue (q := q') (fun x hx => hq' ▸ hx) hmem
    refine ⟨hleft.source, .absent hgone hs.2, fun m hm => ?_, ?_, h.radio⟩
    · cases h.toTarget m hm with
      | snStatusTransfer hitems => exact .snStatusTransfer hitems
      | ueData => cases hg _ hm
      | handoverCancel =>
        refine .handoverCancel fun w hw => ?_
        rw [hgone.map] at hw
        cases hw
    · refine forall_mem_append.2 ⟨h.toSource, fun m hm => ?_⟩
      obtain rfl := mem_singleton.1 hm
      exact .handoverPreparationFailure

theorem eq_of_findUe (h : One r u) (hf : r.findUe rnti = some u') : u' = u ∧ rnti = u.rnti := by
  have hmem := Keyed.mem_of_find? hf
  rw [h.map] at hmem
  obtain rfl := mem_singleton.1 hmem
  exact ⟨rfl, (Keyed.key_of_find? hf).symm⟩

variable {rnti bid : Nat}

/-- A packet comes to the source that has sent the UE away. -/
theorem Left.data_step {d : Drb} (h : Left c new s)
    (hf : s.source.findUe rnti = some u') (hd : u'.findDrb bid = some d)
    (hg : u'.state = .handoverLeaving → s.target.ueMap.isEmpty = false) (p : Packet) :
    Spec Never (Left c new) ((s.source.sendData rnti bid p).map (s.put .source)) := by
  rcases h.source with hu | ⟨u, hu, hs, hc, hnew⟩
  · rw [hu.toZero.findUe] at hf
    cases hf
  · obtain ⟨rfl, rfl⟩ := eq_of_findUe hu.one hf
    have hx2 := c.hasX2Interface_target
    rw [← hu.cfg, ← hc] at hx2
    rw [hu.one.sendData_leaving hs hx2 hd p]
    have hput : s.put .source (s.source.send [.x2 u'.targetCellId (.ueData d.gtpTeid p)]) =
        { s with toTarget := s.toTarget ++ [.ueData d.gtpTeid p] } := by
      rw [put, Rrc.send, hu.out]
      exact congrArg (fun r => ({ s with source := r, toTarget := _ } : Handover))
        (drained_of_out hu.out)
    have hteid : d.gtpTeid ∈ c.teids := by
      rw [← hu.teids]
      exact mem_map_of_mem (Keyed.mem_of_find? hd)
    refine Spec.map (x := .ok _) ?_
    rw [spec_ok, hput]
    refine ⟨h.source, h.target, ?_, h.toSource, h.radio⟩
    refine forall_mem_append.2 ⟨h.toTarget, fun m hm => ?_⟩
    obtain rfl := mem_singleton.1 hm
    refine .ueData hteid fun hnil => ?_
    have hempty := hg hs
    rw [hnil] at hempty
    cases hempty

/-- A packet comes to the source that serves the UE. -/
theorem Sends.data_step (hu : Sends c s.source u)
    (hs : u.state = .handoverPreparation ∨ u.state = .connectedNormally ∨
      u.state = .connectionReconfiguration) (hf : s.source.findUe rnti = some u') (p : Packet) :
    Spec Never (fun s' => ∃ r' v, s' = { s with source := r' } ∧ Sends c r' v ∧ v.state = u.state ∧
        v.targetCellId = u.targetCellId) ((s.source.sendData rnti bid p).map (s.put .source)) := by
  obtain ⟨rfl, rfl⟩ := eq_of_findUe hu.one hf
  have hstate : u'.state = .handoverPreparation ∨ u'.state = .connectedNormally ∨
      u'.state = .connectionReconfiguration ∨ u'.state = .handoverPathSwitch ∨
      u'.state = .handoverJoining := by
    rcases hs with hs | hs | hs
    · exact .inl hs
    · exact .inr (.inl hs)
    · exact .inr (.inr (.inl hs))
  refine Spec.map ((hu.one.sendData_local hu.bearers hstate bid p).imp fun r' hr' => ?_)
  obtain ⟨v, hb, hk, hsame, hok, hout⟩ := hr'
  refine ⟨drained r', v, ?_, hu.becomes hb hk.rnti hok hk.teids, hsame, hk.target.1⟩
  rw [put, hout, hu.out]
  rfl

/-- The source serves the UE again. -/
theorem Sends.returned {p : UeManager × List RrcOut} (hu : Sends c s.source u)
    (hp : u.Connected c.teids.length p) (hb : Becomes s.source r' p.1)
    (hout : r'.out = s.source.out ++ p.2) (ht : Gone c.target s.target) (hto : s.toTarget = [])
    (hfrom : s.toSource = []) (hr : ∀ e ∈ s.radio, e = (.source, c.rnti))
    (hps : s.pathSwitches = []) : Inv c (s.put .source r') := by
  obtain ⟨es, hes, heq⟩ :=
    foldl_emit_reconfigurations .source hp.out { s with source := drained r' }
  have hput : s.put .source r' = { s with source := drained r', radio := s.radio ++ es } := by
    rw [put, hout, hu.out]
    exact heq
  rw [hu.rnti] at hes
  rw [hput]
  exact .returned (hu.becomes hb hp.kept.rnti hp.bearers hp.kept.teids) hp.state ht hto hfrom
    (forall_mem_append.2 ⟨hr, hes⟩) hps

/-! ## Every step -/

variable {ms : List X2Message}

theorem Inv.toTarget_step (h : Inv c s)
    (hl : s.toTarget = m :: ms) (inp : X2Input) : Spec Never (Inv c)
      ((s.target.recvX2 s.source.firstCell inp m).map ({ s with toTarget := ms }.put .target)) := by
  cases h with
  | requested hs ht hteids hsrs hm hto hfrom hr hp =>
    obtain ⟨rfl, rfl⟩ := cons.inj (hl.symm.trans hto)
    exact requested_toTarget (s := { s with toTarget := [] }) hs ht hteids hsrs hm rfl hfrom hr hp
      inp
  | answered _ _ hto => cases hl.symm.trans hto
  | returned _ _ _ hto => cases hl.symm.trans hto
  | @left new h =>
    have hall := h.toTarget
    rw [hl] at hall
    obtain ⟨hm, hms⟩ := forall_mem_cons.1 hall
    have hleft : Left c new { s with toTarget := ms } :=
      ⟨h.source, h.target, hms, h.toSource, h.radio⟩
    exact (hleft.toTarget_step hm s.source.firstCell inp).imp fun _ => .left

/-- A message comes to the source. -/
theorem Inv.toSource_step (h : Inv c s)
    (hl : s.toSource = m :: ms) {inp : X2Input} (hg : s.MayReach inp m) : Spec Never (Inv c)
      ((s.source.recvX2 s.target.firstCell inp m).map ({ s with toSource := ms }.put .source)) := by
  cases h with
  | requested _ _ _ _ _ _ hfrom => cases hl.symm.trans hfrom
  | answered hs ha hto hr hp =>
    rw [hl] at ha
    cases ha with
    | refused ht =>
      obtain ⟨u, hu, hstate, -⟩ := hs
      have hc := hg u (hu.rnti ▸ hu.one.findUe) hstate
      have hx := hu.one.recvHandoverPreparationFailure_prepared hstate hu.bearers hc
      rw [hu.rnti] at hx
      refine Spec.map (hx.imp fun r' hr' => ?_)
      obtain ⟨p, hconn, hb, hout⟩ := hr'
      have hnone : ∀ e ∈ s.radio, e = (.source, c.rnti) := by
        rw [hr]
        nofun
      exact hu.returned (s := { s with toSource := [] }) hconn hb hout ht hto rfl hnone hp
    | @accepted v _ _ ht hjoining hm =>
      have hnames : ∀ u, s.source.findUe c.rnti = some u → u.NamesBearers inp.erabIds := by
        cases hm
        exact hg
      exact (answered_toSource (s := { s with toSource := [] }) hs hm (.inr ⟨v, ht, hjoining⟩) hto
        nofun hr hp inp hnames).imp fun _ => .left
    | expired ht hm =>
      have hnames : ∀ u, s.source.findUe c.rnti = some u → u.NamesBearers inp.erabIds := by
        cases hm
        exact hg
      have hfailure : ∀ m ∈ [X2Message.handoverPreparationFailure c.rnti], ToSource c m :=
        fun m hm => by
        obtain rfl := mem_singleton.1 hm
        exact .handoverPreparationFailure
      exact (answered_toSource (s := { s with toSource := [.handoverPreparationFailure c.rnti] }) hs
        hm (.inl ht) hto hfailure hr hp inp hnames).imp fun _ => .left
  | returned _ _ _ _ hfrom => cases hl.symm.trans hfrom
  | @left new h =>
    have hall := h.toSource
    rw [hl] at hall
    obtain ⟨hm, hms⟩ := forall_mem_cons.1 hall
    have hleft : Left c new { s with toSource := ms } :=
      ⟨h.source, h.target, h.toTarget, hms, h.radio⟩
    exact (hleft.toSource_step hm inp).imp fun _ => .left

theorem Inv.completed_step {side : Side} (h : Inv c s)
    (hk : s.radio[k]? = some (side, rnti)) (hg : s.Guard (.completed k)) : Spec Never (Inv c)
      (((s.rrc side).recvRrcConnectionReconfigurationCompleted rnti).map
        ({ s with radio := s.radio.eraseIdx k }.put side)) := by
  have hmem : (side, rnti) ∈ s.radio := mem_of_getElem? hk
  cases h with
  | requested _ _ _ _ _ _ _ hr =>
    rw [hr] at hmem
    cases hmem
  | answered _ _ _ hr =>
    rw [hr] at hmem
    cases hmem
  | @returned u hs hc ht hto hfrom hr hp =>
    obtain ⟨rfl, rfl⟩ := Prod.mk.inj (hr _ hmem)
    have hx := hs.one.completed_connected hs.bearers hc
    rw [hs.rnti] at hx
    refine Spec.map (hx.imp fun r' hr' => ?_)
    obtain ⟨p, hconn, hb, hout⟩ := hr'
    exact hs.returned (s := { s with radio := s.radio.eraseIdx k }) hconn hb hout ht hto hfrom
      (fun e he => hr e (mem_of_mem_eraseIdx he)) hp
  | @left new h =>
    obtain ⟨rfl, rfl⟩ := Prod.mk.inj (h.radio _ hmem)
    obtain ⟨hue, hcancel⟩ := hg _ hk rfl
    exact (h.completed_step hk hue hcancel).imp fun _ => .left

theorem Inv.pathSwitchAcknowledge_step {side : Side} (h : Inv c s)
    (hk : s.pathSwitches[k]? = some (side, rnti)) : Spec Never (Inv c)
      (((s.rrc side).pathSwitchRequestAcknowledge rnti).map
        ({ s with pathSwitches := s.pathSwitches.eraseIdx k }.put side)) := by
  have hmem : (side, rnti) ∈ s.pathSwitches := mem_of_getElem? hk
  cases h with
  | requested _ _ _ _ _ _ _ _ hp =>
    rw [hp] at hmem
    cases hmem
  | answered _ _ _ _ hp =>
    rw [hp] at hmem
    cases hmem
  | returned _ _ _ _ _ _ hp =>
    rw [hp] at hmem
    cases hmem
  | left h =>
    obtain ⟨he, hx⟩ := h.pathSwitchAcknowledge_step hk
    obtain ⟨rfl, rfl⟩ := Prod.mk.inj he
    exact hx.imp fun _ => .left

theorem Answer.setQueue (h : Answer c t ms)
    (hq : ∀ e ∈ q.pending, e ∈ t.queue.pending) : Answer c (t.setQueue q) ms := by
  cases h with
  | refused ht => exact .refused (ht.setQueue hq)
  | accepted ht hs hm => exact .accepted (ht.setQueue hq) hs hm
  | expired ht hm => exact .expired (ht.setQueue hq) hm

theorem Inv.setQueue (h : Inv c s) (hq : ∀ e ∈ q.pending, e ∈ s.source.queue.pending)
    (hq' : ∀ e ∈ q'.pending, e ∈ s.target.queue.pending) :
    Inv c { s with source := s.source.setQueue q, target := s.target.setQueue q' } := by
  cases h with
  | requested hs ht hteids hsrs hm hto hfrom hr hp =>
    exact .requested (hs.setQueue hq) (ht.setQueue hq') hteids hsrs hm hto hfrom hr hp
  | answered hs ha hto hr hp => exact .answered (hs.setQueue hq) (ha.setQueue hq') hto hr hp
  | returned hs hc ht hto hfrom hr hp =>
    exact .returned (hs.setQueue hq) hc (ht.setQueue hq') hto hfrom hr hp
  | left h => exact .left (h.setQueue hq hq')

theorem Waits.pending (h : Waits c r) : r.queue.pending = [] := by
  obtain ⟨u, hu, hs, -⟩ := h
  exact hu.one.pending_of_not_timed (by rw [hs]; rfl)

/-- A timeout of the source. -/
theorem Inv.timer_source (h : Inv c s)
    (hn : s.source.queue.next? = some (e, q)) (hq' : q'.pending = s.target.queue.pending)
    (hg : s.Guard (.timer .source)) : Spec Never (Inv c) (((s.source.setQueue q).timeout e.ev).map
        ({ s with target := s.target.setQueue q' }.put .source)) := by
  have he := next?_mem hn
  cases h with
  | requested hs =>
    rw [hs.pending] at he
    cases he
  | answered hs =>
    rw [hs.pending] at he
    cases he
  | returned hs hc =>
    have hnil := hs.one.pending_of_not_timed (by
      rcases hc with hc | hc
      · rw [hc]
        rfl
      · rw [hc]
        rfl)
    rw [hnil] at he
    cases he
  | left h => exact (h.timer_source hn hq' hg).imp fun _ => .left

theorem Inv.timer_target (h : Inv c s)
    (hn : s.target.queue.next? = some (e, q)) (hq' : q'.pending = s.source.queue.pending)
    (hg : s.Guard (.timer .target)) : Spec Never (Inv c) (((s.target.setQueue q).timeout e.ev).map
        ({ s with source := s.source.setQueue q' }.put .target)) := by
  have hgone : ¬ Gone c.target s.target := fun ht => by
    have he := next?_mem hn
    rw [ht.pending] at he
    cases he
  cases h with
  | requested _ ht => exact absurd ht hgone
  | answered hs ha hto hr hp =>
    generalize hms : s.toSource = ms at ha
    cases ha with
    | refused ht => exact absurd ht hgone
    | expired ht => exact absurd ht hgone
    | accepted ht hjoining hm =>
      refine Spec.map ((ht.timeout hn hjoining).imp fun t' ht' => ?_)
      obtain ⟨ht', cellId, l, hout, hsilent⟩ := ht'
      rw [put_expired hout hsilent]
      exact .answered (hs.setQueue fun x hx => hq' ▸ hx) (.expired ht' hm) hto hr hp
  | returned _ _ ht => exact absurd ht hgone
  | left h => exact (h.timer_target hn hq' hg).imp fun _ => .left

/-- A packet comes to the source. -/
theorem Inv.data_step {d : Drb} {p : Packet} (h : Inv c s)
    (hf : s.source.findUe rnti = some u) (hd : u.findDrb bid = some d)
    (hg : s.Guard (.data rnti bid p)) :
    Spec Never (Inv c) ((s.source.sendData rnti bid p).map (s.put .source)) := by
  cases h with
  | requested hs ht hteids hsrs hm hto hfrom hr hp =>
    obtain ⟨v, hv, hstate, hc⟩ := hs
    refine (hv.data_step (.inl hstate) hf p).imp fun s' hs' => ?_
    obtain ⟨r', w, rfl, hw, hsame, hcell⟩ := hs'
    exact .requested ⟨w, hw, hsame.trans hstate, hcell.trans hc⟩ ht hteids hsrs hm hto hfrom hr hp
  | answered hs ha hto hr hp =>
    obtain ⟨v, hv, hstate, hc⟩ := hs
    refine (hv.data_step (.inl hstate) hf p).imp fun s' hs' => ?_
    obtain ⟨r', w, rfl, hw, hsame, hcell⟩ := hs'
    exact .answered ⟨w, hw, hsame.trans hstate, hcell.trans hc⟩ ha hto hr hp
  | returned hv hc ht hto hfrom hr hp =>
    refine (hv.data_step (.inr hc) hf p).imp fun s' hs' => ?_
    obtain ⟨r', w, rfl, hw, hsame, -⟩ := hs'
    exact .returned hw (by rw [hsame]; exact hc) ht hto hfrom hr hp
  | left h => exact (h.data_step hf hd (hg u hf) p).imp fun _ => .left

/-- Every step that the conditions allow succeeds and keeps the invariant. -/
theorem Inv.step {a : HandoverAction} {x : Except RrcError Handover} (h : Inv c s)
    (hg : s.Guard a) (ha : s.act a = some x) : Spec Never (Inv c) x := by
  cases a with
  | toTarget inp =>
    cases hl : s.toTarget with
    | nil => simp [act, hl] at ha
    | cons m ms =>
      simp only [act, hl, some.injEq] at ha
      rw [← ha]
      exact h.toTarget_step hl inp
  | toSource inp =>
    cases hl : s.toSource with
    | nil => simp [act, hl] at ha
    | cons m ms =>
      simp only [act, hl, some.injEq] at ha
      rw [← ha]
      exact h.toSource_step hl (hg m (by rw [hl]; rfl))
  | completed k =>
    obtain ⟨⟨side, rnti⟩, hk, rfl⟩ := map_eq_some_iff.1 ha
    exact h.completed_step hk hg
  | pathSwitchAcknowledge k =>
    obtain ⟨⟨side, rnti⟩, hk, rfl⟩ := map_eq_some_iff.1 ha
    exact h.pathSwitchAcknowledge_step hk
  | timer side =>
    cases side with
    | source =>
      obtain ⟨⟨e, q⟩, hn, ha⟩ := bind_eq_some_iff.1 ha
      obtain ⟨q', hq', rfl⟩ := map_eq_some_iff.1 ha
      exact h.timer_source hn (advance?_eq_some hq').1 hg
    | target =>
      obtain ⟨⟨e, q⟩, hn, ha⟩ := bind_eq_some_iff.1 ha
      obtain ⟨q', hq', rfl⟩ := map_eq_some_iff.1 ha
      exact h.timer_target hn (advance?_eq_some hq').1 hg
  | data rnti bid p =>
    obtain ⟨d, hd, rfl⟩ := map_eq_some_iff.1 ha
    obtain ⟨u, hf, hd⟩ := bind_eq_some_iff.1 hd
    exact h.data_step hf hd hg
  | advance t =>
    obtain ⟨q, hq, ha⟩ := bind_eq_some_iff.1 ha
    obtain ⟨q', hq', rfl⟩ := map_eq_some_iff.1 ha
    exact h.setQueue (fun e he => (advance?_eq_some hq).1 ▸ he)
      fun e he => (advance?_eq_some hq').1 ▸ he

/-! ## Every run -/

/-- A UE is connected to a source, from which it can be handed over to a cell of a target: the two
have an X2 interface, as many component carriers as each other or one at the target, a core network
and PDCP entities; bearers are numbered from 1 on, and the target has no context yet. -/
structure Prepared (source target : Rrc) (u : UeManager) (cellId : Nat) : Prop where
  one : One source u
  connected : u.state = .connectedNormally
  ids : u.drbMap.map Drb.epsBearerIdentity = List.range' 1 u.drbMap.length
  same : ∀ d ∈ u.drbMap, d.drbIdentity = d.epsBearerIdentity
  pdcp : ∀ d ∈ u.drbMap, d.rlc.pdcp? ≠ none
  started : ∀ i ∈ u.drbsToBeStarted, i ∈ u.drbMap.map Drb.drbIdentity
  few : u.drbMap.length ≤ 31
  nodup : (u.drbMap.map Drb.gtpTeid).Nodup
  idle : Zero target
  teids : target.x2uTeidInfoMap = []
  srs : SrsListed target
  toTarget : source.cfg.x2Interfaces = [target.cfg.cellIds]
  toSource : target.cfg.x2Interfaces = [source.cfg.cellIds]
  cell : cellId ∈ target.cfg.cellIds
  foreign : ∀ i ∈ source.cfg.cellIds, i ∉ target.cfg.cellIds
  carriers : target.cfg.cellIds.length = 1 ∨ target.cfg.cellIds.length = source.cfg.cellIds.length
  epc : target.cfg.epc = true
  mapping : target.cfg.epsBearerToRlcMapping ≠ .rlcSmAlways

namespace Prepared

variable {source target : Rrc} {cellId : Nat}

/-- What stays during the handover. -/
def setting (h : Prepared source target u cellId) : Setting where
  source := source.cfg
  target := target.cfg
  rnti := u.rnti
  cellId := cellId
  teids := u.drbMap.map Drb.gtpTeid
  source_ne_nil := List.ne_nil_of_length_pos (Nat.zero_lt_of_lt h.one.cell)
  toTarget := h.toTarget
  toSource := h.toSource
  cell := h.cell
  foreign := h.foreign
  carriers := h.carriers
  epc := h.epc
  mapping := h.mapping
  few := by
    rw [List.length_map]
    exact h.few
  nodup := h.nodup

theorem bearers (h : Prepared source target u cellId) :
    u.BearersOk (u.drbMap.map Drb.gtpTeid).length := by
  have hids : u.drbMap.map Drb.drbIdentity = range' 1 u.drbMap.length := by
    rw [← h.ids]
    exact map_congr_left h.same
  have hmem : ∀ i, i ∈ u.drbMap.map Drb.drbIdentity ↔ 1 ≤ i ∧ i ≤ u.drbMap.length := fun i => by
    rw [hids, mem_range'_1]
    omega
  rw [length_map]
  exact ⟨hmem, h.pdcp, fun i hi => (hmem i).1 (h.started i hi)⟩

/-- The source requests the handover. -/
theorem spec_start (h : Prepared source target u cellId) :
    Spec Never (Inv h.setting) (start source target u.rnti cellId) := by
  have hu : Sends h.setting (drained source) u :=
    ⟨h.one.congr rfl rfl rfl fun _ he => he, rfl, rfl, rfl, h.bearers, rfl⟩
  have hown : cellId ∉ (drained source).cfg.cellIds := fun hmem => h.foreign cellId hmem h.cell
  have hx2 : (drained source).cfg.hasX2Interface cellId = true := h.setting.hasX2Interface h.cell
  refine Spec.map ((hu.one.sendHandoverRequest h.connected hown hx2).imp fun r' hr' => ?_)
  obtain ⟨u', hb, hs, hrnti, hcell, hdrb, hstarted, hout⟩ := hr'
  have hsends := hu.becomes hb hrnti (hu.bearers.of_eq hdrb hstarted) (by rw [hdrb])
  have hrequest : IsRequest h.setting (.handoverRequest u.rnti cellId u.imsi u.getErabList) := by
    refine ⟨u.imsi, u.getErabList, rfl, ?_, map_map⟩
    have hmap : u.getErabList.map ErabToBeSetupItem.erabId = u.drbMap.map Drb.epsBearerIdentity :=
      map_map
    rw [hmap, h.ids, UeManager.getErabList, length_map]
  rw [put, hout]
  exact .requested ⟨u', hsends, hs, hcell⟩ ⟨⟨h.idle.map, h.idle.pending⟩, rfl, rfl⟩ h.teids h.srs
    hrequest rfl rfl rfl rfl

end Prepared

/-- Whatever the order in which messages, answers, timeouts and packets come, as long as the
conditions hold for every step no handler fails. -/
theorem act_ne_error_of_run {source target : Rrc} {cellId : Nat}
    (h : Prepared source target u cellId) :
    ∃ s₀, start source target u.rnti cellId = .ok s₀ ∧
      ∀ s, Lts.Run Step Guard s₀ s → ∀ a, s.Guard a → ∀ e, s.act a ≠ some (.error e) := by
  have hstart := h.spec_start
  cases hs₀ : start source target u.rnti cellId with
  | error e => exact absurd (hstart.error hs₀) id
  | ok s₀ =>
    refine ⟨s₀, rfl, fun s hrun a hg e he => ?_⟩
    have hinv : Inv h.setting s := Lts.Run.invariant (I := Inv h.setting)
      (fun {s t a} hs hg hst => (hs.step hg hst).ok rfl) (hstart.ok hs₀) hrun
    exact hinv.step hg he

/-- A source with a UE that has one bearer, RLC UM. -/
def sourceOfOne : Rrc := ofUe (.single 1 2) (oneBearer 7 .connectedNormally (.um ⟨4, 6⟩))

/-- A target without UEs. -/
def targetOfOne : Rrc := init (.single 2 1)

theorem prepared_one :
    Prepared sourceOfOne targetOfOne (oneBearer 7 .connectedNormally (.um ⟨4, 6⟩)) 2 where
  one := ⟨rfl, by decide, by decide, .inl rfl, nofun⟩
  connected := rfl
  ids := rfl
  same := by simp [oneBearer]
  pdcp := by simp [oneBearer, Rlc.pdcp?]
  started := nofun
  few := by decide
  nodup := by decide
  idle := ⟨rfl, rfl⟩
  teids := rfl
  srs := .inl rfl
  toTarget := rfl
  toSource := rfl
  cell := by decide
  foreign := by decide
  carriers := .inl rfl
  epc := rfl
  mapping := by decide

/-- The handover of the UE with one bearer. -/
theorem act_ne_error_of_one : ∃ s₀, start sourceOfOne targetOfOne 7 2 = .ok s₀ ∧
    ∀ s, Lts.Run Step Guard s₀ s → ∀ a, s.Guard a → ∀ e, s.act a ≠ some (.error e) :=
  act_ne_error_of_run prepared_one

/-- The conditions leave the handover its way: a packet is forwarded, the UE joins the target, the
path is switched, and the source removes the context. -/
example : ((start sourceOfOne targetOfOne 7 2).toOption.bind fun s₀ => Lts.execs Guard step? s₀
    [.toTarget .plenty, .toSource .plenty, .data 7 1 0, .toTarget .plenty, .completed 0,
      .toTarget .plenty, .pathSwitchAcknowledge 0, .toSource .plenty]).map (fun s =>
        (s.source.ueMap.isEmpty, s.target.ueMap.map UeManager.state)) =
    some (true, [.connectionReconfiguration]) := by
  decide

/-- The error that an action meets after others, if it does. -/
def errorAfter (s₀ : Except RrcError Handover) (as : List HandoverAction) (a : HandoverAction) :
    Option RrcError :=
  s₀.toOption.bind fun s₀ => (Lts.execs Lts.anyStep step? s₀ as).bind fun s =>
    (s.act a).bind fun x =>
    match x with
    | .error e => some e
    | .ok _ => none

theorem run_of_errorAfter {s₀ : Except RrcError Handover} {as : List HandoverAction}
    {a : HandoverAction} {e : RrcError} (h : errorAfter s₀ as a = some e) :
    ∃ s₁ s, s₀ = .ok s₁ ∧ Lts.Run Step Lts.anyStep s₁ s ∧ s.act a = some (.error e) := by
  obtain ⟨s₁, h₁, h⟩ := bind_eq_some_iff.1 h
  obtain ⟨s, hs, h⟩ := bind_eq_some_iff.1 h
  obtain ⟨x, hx, h⟩ := bind_eq_some_iff.1 h
  cases x with
  | error e' =>
    cases h
    exact ⟨s₁, s, ok_of_toOption h₁, Lts.run_of_execs step_of_step? hs, hx⟩
  | ok => cases h

/-- The source gives up after the UE has joined the target, whose state `HANDOVER CANCEL` does not
fit; and the target gives up while a packet is forwarded to it. -/
theorem timers_cross :
    ¬ (∀ s₀, start sourceOfOne targetOfOne 7 2 = .ok s₀ → ∀ s, Lts.Run Step Lts.anyStep s₀ s →
      ∀ a x, s.act a ≠ some (.error (.unexpectedState x))) ∧
    ¬ (∀ s₀, start sourceOfOne targetOfOne 7 2 = .ok s₀ → ∀ s, Lts.Run Step Lts.anyStep s₀ s →
      ∀ a, s.act a ≠ some (.error .unknownTeid)) := by
  constructor
  · intro h
    have herr : errorAfter (start sourceOfOne targetOfOne 7 2) [.toTarget .plenty,
        .toSource .plenty, .completed 0, .timer .source, .toTarget .plenty] (.toTarget .plenty) =
          some (.unexpectedState .handoverPathSwitch) := by
      decide
    obtain ⟨s₀, s, hs₀, hrun, hact⟩ := run_of_errorAfter herr
    exact h s₀ hs₀ s hrun _ _ hact
  · intro h
    have herr : errorAfter (start sourceOfOne targetOfOne 7 2) [.toTarget .plenty,
    .toSource .plenty,
        .data 7 1 0, .timer .target, .toTarget .plenty] (.toTarget .plenty) =
        some .unknownTeid := by
      decide
    obtain ⟨s₀, s, hs₀, hrun, hact⟩ := run_of_errorAfter herr
    exact h s₀ hs₀ s hrun _ hact

end Handover

end OranNs3
