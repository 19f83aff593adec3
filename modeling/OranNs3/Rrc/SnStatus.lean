import OranNs3.Rrc.Spec

/-!
# Continuity of sequence numbers at a handover

With the acknowledgment of a handover the source sends the state of the PDCP entity of each of its
RLC AM bearers, and the target sets its own entities accordingly (`nr-gnb-rrc.cc`). What the
transfer is for is `UeManager.carried`. The items of the message do not name their bearer, since the
source never assigns `erabId`: whatever is in that member decides which bearer is changed, and the
value 0 stops the program. The transfer does what it is for, whatever the member holds, exactly when
there is nothing to transfer (`Rrc.recvX2_snStatus_carried_iff`).
-/

namespace OranNs3

open Fallible List

namespace UeManager

variable {u v : UeManager}

/-- The status of the PDCP entity of the bearer with an EPS bearer identity. -/
def pdcpOf (u : UeManager) (epsBearerIdentity : Nat) : Option PdcpStatus :=
  (Keyed.find? Drb.epsBearerIdentity epsBearerIdentity u.drbMap).bind fun d => d.rlc.pdcp?

/-- A bearer of the target with the sequence numbers that it should get from the source `u`. -/
def carried (u : UeManager) (d : Drb) : Drb :=
  match u.pdcpOf d.epsBearerIdentity with
  | none => d
  | some pdcp => if d.rlc.isAm then { d with rlc := d.rlc.setPdcp pdcp } else d

/-- There is nothing to transfer to the target `v`: no bearer of the source is RLC AM, and what the
target maps to RLC AM nevertheless has the sequence numbers of the source already. -/
structure NothingToTransfer (u v : UeManager) : Prop where
  source : ∀ d ∈ u.drbMap, d.rlc.isAm = false
  target : ∀ d ∈ v.drbMap, d.rlc.isAm = true → ∀ pdcp, u.pdcpOf d.epsBearerIdentity = some pdcp →
    d.rlc.pdcp? = some pdcp

theorem carried_eq_self_iff (d : Drb) : u.carried d = d ↔
    (d.rlc.isAm = true → ∀ pdcp, u.pdcpOf d.epsBearerIdentity = some pdcp →
      d.rlc.pdcp? = some pdcp) := by
  unfold carried
  cases hp : u.pdcpOf d.epsBearerIdentity with
  | none => simp
  | some pdcp =>
    obtain ⟨drbid, eps, bearer, teid, rlc⟩ := d
    cases rlc with
    | sm => simp [Rlc.isAm]
    | um s => simp [Rlc.isAm]
    | am s => simp [Rlc.isAm, Rlc.setPdcp, Rlc.pdcp?, eq_comm]

theorem statusTransferItems_eq_nil (erabIds : Nat → Nat) :
    u.statusTransferItems erabIds = [] ↔ ∀ d ∈ u.drbMap, d.rlc.isAm = false := by
  rw [statusTransferItems, mapIdx_eq_nil_iff, filterMap_eq_nil_iff]
  refine forall₂_congr fun d _ => ?_
  cases d.rlc with
  | sm => simp [Rlc.isAm]
  | um s => simp [Rlc.isAm]
  | am s => simp [Rlc.isAm, Rlc.pdcp?]

theorem recvSnStatusTransfer_zero (hv : ∀ d ∈ v.drbMap, d.drbIdentity ≠ 0)
    (hne : u.statusTransferItems (fun _ => 0) ≠ []) :
    v.recvSnStatusTransfer (u.statusTransferItems fun _ => 0) = .error .unknownDrbid := by
  have hzero : v.findDrb 0 = none := by
    refine Keyed.find?_eq_none.2 fun hmem => ?_
    obtain ⟨d, hd, h0⟩ := mem_map.1 hmem
    exact hv d hd h0
  obtain ⟨i, items, hitems⟩ := exists_cons_of_ne_nil hne
  have hi : i ∈ u.statusTransferItems fun _ => 0 := hitems ▸ mem_cons_self
  have hid : i.erabId = 0 := by
    obtain ⟨j, hj, rfl⟩ := mem_mapIdx.1 hi
    rfl
  rw [hitems, recvSnStatusTransfer, foldlM_cons, recvStatusTransferItem, hid, Nat.zero_mod, hzero]
  rfl

theorem recvSnStatusTransfer_carried_iff (hv : ∀ d ∈ v.drbMap, d.drbIdentity ≠ 0) :
    (∀ erabIds, ∃ v', v.recvSnStatusTransfer (u.statusTransferItems erabIds) = .ok v' ∧
        v'.rnti = v.rnti ∧ v'.drbMap = v.drbMap.map u.carried) ↔ u.NothingToTransfer v := by
  constructor
  · intro h
    obtain ⟨v', hok, -, hmap⟩ := h fun _ => 0
    have hnil : u.statusTransferItems (fun _ => 0) = [] := by
      by_contra hne
      rw [recvSnStatusTransfer_zero hv hne] at hok
      cases hok
    rw [hnil] at hok
    cases hok
    refine ⟨(statusTransferItems_eq_nil _).1 hnil, fun d hd => (carried_eq_self_iff d).1 ?_⟩
    exact map_inj_left.1 (hmap.symm.trans (map_id _).symm) d hd
  · intro h erabIds
    rw [(statusTransferItems_eq_nil erabIds).2 h.source]
    have hmap : v.drbMap.map u.carried = v.drbMap.map id :=
      map_inj_left.2 fun d hd => (carried_eq_self_iff d).2 (h.target d hd)
    exact ⟨v, rfl, rfl, by rw [hmap, map_id]⟩

end UeManager

namespace Rrc

variable {r t : Rrc} {u v : UeManager} {targetCellId old new : Nat} {admitted : List Nat}
  {command : HandoverCommand}

theorem sendX2_eq {cellId : Nat} (h : r.cfg.hasX2Interface cellId = true) (m : X2Message) :
    r.sendX2 cellId m = .ok (r.send [.x2 cellId m]) := by
  rw [sendX2, if_pos h]

/-- What `RecvHandoverRequestAck` checks before it sends the handover command. -/
structure Acceptable (r : Rrc) (u : UeManager) (targetCellId : Nat) (admitted : List Nat)
    (command : HandoverCommand) : Prop where
  bearers : admitted.length = u.drbMap.length
  carriers : command.sCellToAddModList.any (· + 1 != r.cfg.cellIds.length) = false
  x2 : r.cfg.hasX2Interface targetCellId = true

/-- The context that leaves, with the RRC that started its timer. -/
def leave (r : Rrc) (u : UeManager) (command : HandoverCommand) : Rrc × UeManager :=
  (r.send [.ue u.rnti (.handover command)]).schedule .handoverLeaving
    (u.switchToState .handoverLeaving)

theorem recvHandoverRequestAck_eq (hu : r.getUeManager old = .ok u)
    (hack : r.Acceptable u targetCellId admitted command) (erabIds : Nat → Nat) :
    r.recvHandoverRequestAck targetCellId old new admitted command erabIds =
      .ok (((r.leave u command).1.setUe ((r.leave u command).2.setTarget new targetCellId)).send
        [.x2 targetCellId (.snStatusTransfer old new (u.statusTransferItems erabIds))]) := by
  unfold recvHandoverRequestAck
  rw [hu]
  change (if _ then _ else if _ then _ else sendX2 _ _ _) = _
  rw [if_neg (not_not_intro hack.bearers), if_neg (by rw [hack.carriers]; decide)]
  have hx2 : ((r.leave u command).1.setUe
      ((r.leave u command).2.setTarget new targetCellId)).cfg.hasX2Interface targetCellId = true :=
    hack.x2
  exact sendX2_eq hx2 _

/-- The source `r` handles an acknowledgment and sends the status of its context `u`; the target `t`
receives it for its context `v`. Whatever the members that are not assigned hold, the bearers of the
target become what they should become, if and only if there is nothing to transfer. -/
theorem recvX2_snStatus_carried_iff (hu : r.getUeManager old = .ok u)
    (hack : r.Acceptable u targetCellId admitted command) (hv : t.findUe new = some v)
    (hids : ∀ d ∈ v.drbMap, d.drbIdentity ≠ 0) (sourceCellId : Nat) (inp : X2Input) :
    (∀ erabIds, ∃ r' m t' v',
      r.recvHandoverRequestAck targetCellId old new admitted command erabIds = .ok r' ∧
      r'.out = r.out ++ [.ue u.rnti (.handover command), .x2 targetCellId m] ∧
      t.recvX2 sourceCellId inp m = .ok t' ∧
      t'.findUe new = some v' ∧ v'.drbMap = v.drbMap.map u.carried) ↔ u.NothingToTransfer v := by
  have hout : ∀ erabIds, (((r.leave u command).1.setUe
      ((r.leave u command).2.setTarget new targetCellId)).send [.x2 targetCellId
        (.snStatusTransfer old new (u.statusTransferItems erabIds))]).out =
      r.out ++ [.ue u.rnti (.handover command), .x2 targetCellId
        (.snStatusTransfer old new (u.statusTransferItems erabIds))] := by
    intro erabIds
    simp [leave, send, schedule, setUe]
  have hrnti : v.rnti = new := Keyed.key_of_find? hv
  have hlookup : ∀ v' : UeManager, v'.rnti = v.rnti → (t.setUe v').findUe new = some v' := by
    intro v' hr
    have hfind := findUe_setUe (r := t) (u := v) (by rw [hrnti]; exact hv) hr
    rwa [hr, hrnti] at hfind
  rw [← UeManager.recvSnStatusTransfer_carried_iff hids]
  refine forall_congr' fun erabIds => ?_
  rw [recvHandoverRequestAck_eq hu hack]
  constructor
  · rintro ⟨r', m, t', v', hr', hm, ht', hv', hmap⟩
    cases hr'
    obtain rfl : .snStatusTransfer old new (u.statusTransferItems erabIds) = m := by
      rw [hout] at hm
      simpa using hm
    have hsame := spec_recvSnStatusTransfer v (u.statusTransferItems erabIds)
    rw [recvX2, recvSnStatusTransfer, hv] at ht'
    cases hx : v.recvSnStatusTransfer (u.statusTransferItems erabIds) with
    | error e =>
      simp [hx, Except.map] at ht'
    | ok v'' =>
      have hr := (hsame.ok hx).1.rnti
      simp only [hx, Except.map, Except.ok.injEq] at ht'
      rw [← ht', hlookup v'' hr] at hv'
      cases hv'
      exact ⟨v', rfl, hr, hmap⟩
  · rintro ⟨v', hv', hr, hmap⟩
    refine ⟨_, _, t.setUe v', v', rfl, hout erabIds, ?_, hlookup v' hr, hmap⟩
    simp [recvX2, recvSnStatusTransfer, hv, hv', Except.map]

/-- A context with one bearer, which is both DRB 1 and EPS bearer 1. -/
def oneBearer (rnti : Nat) (s : UeState) (rlc : Rlc) : UeManager :=
  { UeManager.new rnti s 0 with drbMap := [⟨1, 1, ⟨9, true⟩, 5, rlc⟩], lastAllocatedDrbid := 1 }

/-- An RRC with one context. -/
def ofUe (cfg : RrcConfig) (u : UeManager) : Rrc := { init cfg with ueMap := [u] }

/-- The handover of a UE whose only bearer is RLC UM: there is nothing to transfer. -/
theorem recvX2_snStatus_carried_um :
    (oneBearer 7 .handoverPreparation (.um ⟨4, 6⟩)).NothingToTransfer
      (oneBearer 3 .handoverJoining (.um ⟨0, 0⟩)) ∧
    ∀ erabIds, ∃ r' m t' v',
      (ofUe (.single 1 2) (oneBearer 7 .handoverPreparation (.um ⟨4, 6⟩))).recvHandoverRequestAck
        2 7 3 [1] ⟨2, 3, 60, none⟩ erabIds = .ok r' ∧
      r'.out = [] ++ [.ue 7 (.handover ⟨2, 3, 60, none⟩), .x2 2 m] ∧
      (ofUe (.single 2 1) (oneBearer 3 .handoverJoining (.um ⟨0, 0⟩))).recvX2 1 .plenty m = .ok t' ∧
      t'.findUe 3 = some v' ∧
      v'.drbMap = (oneBearer 3 .handoverJoining (.um ⟨0, 0⟩)).drbMap.map
        (oneBearer 7 .handoverPreparation (.um ⟨4, 6⟩)).carried := by
  have hnothing : (oneBearer 7 .handoverPreparation (.um ⟨4, 6⟩)).NothingToTransfer
      (oneBearer 3 .handoverJoining (.um ⟨0, 0⟩)) := by
    refine ⟨?_, ?_⟩
    · simp [oneBearer, Rlc.isAm]
    · simp [oneBearer, Rlc.isAm]
  have hu : (ofUe (.single 1 2) (oneBearer 7 .handoverPreparation (.um ⟨4, 6⟩))).getUeManager 7 =
      .ok (oneBearer 7 .handoverPreparation (.um ⟨4, 6⟩)) := rfl
  have hv : (ofUe (.single 2 1) (oneBearer 3 .handoverJoining (.um ⟨0, 0⟩))).findUe 3 =
      some (oneBearer 3 .handoverJoining (.um ⟨0, 0⟩)) := rfl
  refine ⟨hnothing, (recvX2_snStatus_carried_iff hu ⟨rfl, rfl, rfl⟩ hv ?_ 1 .plenty).2 hnothing⟩
  simp [oneBearer]

/-- The handover of a UE whose only bearer is RLC AM, at a source where `erabId` happens to hold 0:
the target looks for a bearer that it does not have, and stops. -/
theorem snStatus_stops : ¬ ∀ erabIds, ∃ r' m t' v',
    (ofUe (.single 1 2) (oneBearer 7 .handoverPreparation (.am ⟨4, 6⟩))).recvHandoverRequestAck
      2 7 3 [1] ⟨2, 3, 60, none⟩ erabIds = .ok r' ∧
    r'.out = [] ++ [.ue 7 (.handover ⟨2, 3, 60, none⟩), .x2 2 m] ∧
    (ofUe (.single 2 1) (oneBearer 3 .handoverJoining (.am ⟨0, 0⟩))).recvX2 1 .plenty m = .ok t' ∧
    t'.findUe 3 = some v' ∧
    v'.drbMap = (oneBearer 3 .handoverJoining (.am ⟨0, 0⟩)).drbMap.map
      (oneBearer 7 .handoverPreparation (.am ⟨4, 6⟩)).carried := by
  intro h
  obtain ⟨r', m, t', v', hr', hm, ht', -⟩ := h fun _ => 0
  obtain rfl : .snStatusTransfer 7 3 [⟨0, 6, 4⟩] = m := by
    cases hr'
    exact (RrcOut.x2.inj (cons.inj (cons.inj hm).2).1).2
  cases ht'

end Rrc

end OranNs3
