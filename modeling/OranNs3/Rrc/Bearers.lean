import OranNs3.Rrc.Spec

/-!
# Contexts whose bearers are in order

The methods of a context that concern its data radio bearers fail where a bearer is missing or has
no PDCP entity, and where identities were not allocated in the same way on both sides of a handover.
A context has its bearers in order (`UeManager.BearersOk`) when their identities are `1, …, n`,
every one has a PDCP entity and those to be started exist. On such a context the methods succeed,
keep it in order and leave the rest of it as it is (`UeManager.Kept`), and the bearers of a
`HANDOVER REQUEST` with identities `1, …, n` and new TEIDs put the context that joins in order
(`spec_setupBearers_ok`).
-/

namespace OranNs3

open Fallible Keyed List

/-- No error. -/
abbrev Never : RrcError → Prop := fun _ => False

namespace UeManager

variable {u u' u'' : UeManager} {n : Nat}

/-- What the methods that concern bearers leave as it is. -/
structure Kept (u u' : UeManager) : Prop extends u.Same u' where
  source : u'.sourceCellId = u.sourceCellId ∧ u'.sourceX2apId = u.sourceX2apId
  target : u'.targetCellId = u.targetCellId ∧ u'.targetX2apId = u.targetX2apId
  srs : u'.srsConfigurationIndex = u.srsConfigurationIndex
  teids : u'.drbMap.map Drb.gtpTeid = u.drbMap.map Drb.gtpTeid

theorem Kept.refl (u : UeManager) : u.Kept u := ⟨.refl u, ⟨rfl, rfl⟩, ⟨rfl, rfl⟩, rfl, rfl⟩

theorem Kept.trans (h : u.Kept u') (h' : u'.Kept u'') : u.Kept u'' where
  toSame := h.toSame.trans h'.toSame
  source := ⟨h'.source.1.trans h.source.1, h'.source.2.trans h.source.2⟩
  target := ⟨h'.target.1.trans h.target.1, h'.target.2.trans h.target.2⟩
  srs := h'.srs.trans h.srs
  teids := h'.teids.trans h.teids

/-- The bearers of a context are in order. -/
structure BearersOk (u : UeManager) (n : Nat) : Prop where
  ids : ∀ i, i ∈ u.drbMap.map Drb.drbIdentity ↔ 1 ≤ i ∧ i ≤ n
  pdcp : ∀ d ∈ u.drbMap, d.rlc.pdcp? ≠ none
  started : ∀ i ∈ u.drbsToBeStarted, 1 ≤ i ∧ i ≤ n

theorem BearersOk.findDrb (h : u.BearersOk n) {i : Nat} (h1 : 1 ≤ i) (hn : i ≤ n) :
    ∃ d, u.findDrb i = some d ∧ d ∈ u.drbMap ∧ d.rlc.pdcp? ≠ none := by
  obtain ⟨d, hd⟩ := exists_find? ((h.ids i).2 ⟨h1, hn⟩)
  exact ⟨d, hd, Keyed.mem_of_find? hd, h.pdcp d (Keyed.mem_of_find? hd)⟩

/-! ## PDCP -/

theorem pdcp?_setPdcp (rlc : Rlc) (s : PdcpStatus) (h : rlc.pdcp? ≠ none) :
    (rlc.setPdcp s).pdcp? ≠ none := by
  cases rlc with
  | sm => exact absurd rfl h
  | um => nofun
  | am => nofun

theorem kept_setPdcp (u : UeManager) (i : Nat) (s : PdcpStatus) : u.Kept (u.setPdcp i s) where
  toSame := ⟨rfl, rfl, rfl⟩
  source := ⟨rfl, rfl⟩
  target := ⟨rfl, rfl⟩
  srs := rfl
  teids := map_modify fun _ _ _ => rfl

theorem BearersOk.setPdcp (h : u.BearersOk n) (i : Nat) (s : PdcpStatus) :
    (u.setPdcp i s).BearersOk n where
  ids := by
    have hmap : (u.setPdcp i s).drbMap.map Drb.drbIdentity = u.drbMap.map Drb.drbIdentity :=
      map_modify fun _ _ _ => rfl
    rw [hmap]
    exact h.ids
  pdcp := forall_modify h.pdcp fun d hd _ => pdcp?_setPdcp _ _ (h.pdcp d hd)
  started := h.started

theorem BearersOk.sendPacket (h : u.BearersOk n) (bid : Nat) :
    Spec Never (fun u' => u.Kept u' ∧ u'.state = u.state ∧ u'.BearersOk n) (u.sendPacket bid) := by
  unfold UeManager.sendPacket
  split
  · exact ⟨.refl u, rfl, h⟩
  · next d hd =>
    split
    · next hnone => exact absurd hnone (h.pdcp d (Keyed.mem_of_find? hd))
    · exact ⟨kept_setPdcp u bid _, rfl, h.setPdcp bid _⟩

theorem BearersOk.sendPacketBuffer (h : u.BearersOk n) :
    Spec Never (fun u' => u.Kept u' ∧ u'.state = u.state ∧ u'.BearersOk n) u.sendPacketBuffer := by
  have hloop := Spec.foldlM_mem (E := Never) (l := u.packetBuffer)
    (f := fun u p => UeManager.sendPacket u p.1)
    (P := fun u' => u.Kept u' ∧ u'.state = u.state ∧ u'.BearersOk n)
    (fun _ h => (h.2.2.sendPacket _).imp fun _ h' =>
      ⟨h.1.trans h'.1, h'.2.1.trans h.2.1, h'.2.2⟩) ⟨.refl u, rfl, h⟩
  refine hloop.bind fun u' hu' => ?_
  obtain ⟨hkept, hs, hok⟩ := hu'
  exact ⟨⟨⟨hkept.rnti, hkept.componentCarrierId, hkept.timeouts⟩, hkept.source, hkept.target,
    hkept.srs, hkept.teids⟩, hs, hok.ids, hok.pdcp, hok.started⟩

theorem BearersOk.recvSnStatusTransfer (h : u.BearersOk n) {items : List StatusTransferItem}
    (hitems : ∀ i ∈ items, 1 ≤ i.erabId % 256 ∧ i.erabId % 256 ≤ n) :
    Spec Never (fun u' => u.Kept u' ∧ u'.state = u.state ∧ u'.BearersOk n)
      (u.recvSnStatusTransfer items) := by
  refine Spec.foldlM_mem (P := fun u' => u.Kept u' ∧ u'.state = u.state ∧ u'.BearersOk n)
    (fun {u' i} hi h => ?_) ⟨.refl u, rfl, h⟩
  obtain ⟨hkept, hs, hok⟩ := h
  obtain ⟨h1, hn⟩ := hitems i hi
  obtain ⟨d, hd, -, hpdcp⟩ := hok.findDrb h1 hn
  unfold UeManager.recvStatusTransferItem
  rw [hd]
  change Spec _ _ (if _ then _ else _)
  split
  · next hnone => exact absurd (Option.isNone_iff_eq_none.1 hnone) hpdcp
  · exact ⟨hkept.trans (kept_setPdcp u' _ _), hs, hok.setPdcp _ _⟩

/-! ## Reconfiguration -/

theorem kept_switchToState (u : UeManager) (s : UeState) : u.Kept (u.switchToState s) :=
  ⟨⟨rfl, rfl, rfl⟩, ⟨rfl, rfl⟩, ⟨rfl, rfl⟩, rfl, rfl⟩

theorem BearersOk.startDataRadioBearers (h : u.BearersOk n) :
    Spec Never (fun u' => u.Kept u' ∧ u'.state = u.state ∧ u'.BearersOk n)
      u.startDataRadioBearers := by
  have hall : (u.drbsToBeStarted.all fun drbid => (u.findDrb drbid).isSome) = true := by
    refine all_eq_true.2 fun i hi => ?_
    obtain ⟨h1, hn⟩ := h.started i hi
    obtain ⟨d, hd, -⟩ := h.findDrb h1 hn
    rw [hd]
    rfl
  rw [UeManager.startDataRadioBearers, if_pos hall]
  exact ⟨⟨⟨rfl, rfl, rfl⟩, ⟨rfl, rfl⟩, ⟨rfl, rfl⟩, rfl, rfl⟩, rfl, h.ids, h.pdcp, nofun⟩

theorem BearersOk.recordDataRadioBearersToBeStarted (h : u.BearersOk n) :
    u.recordDataRadioBearersToBeStarted.BearersOk n where
  ids := h.ids
  pdcp := h.pdcp
  started := by
    intro i hi
    rcases mem_append.1 hi with hi | hi
    · exact h.started i hi
    · exact (h.ids i).1 hi

theorem BearersOk.of_eq (h : u.BearersOk n) (hm : u'.drbMap = u.drbMap)
    (hs : u'.drbsToBeStarted = u.drbsToBeStarted) : u'.BearersOk n :=
  ⟨hm ▸ h.ids, hm ▸ h.pdcp, hs ▸ h.started⟩

/-- What a context sends when it becomes connected: a reconfiguration to its UE, if any. -/
def OnlyReconfiguration (rnti : Nat) (out : List RrcOut) : Prop :=
  ∀ o ∈ out, o = .ue rnti .connectionReconfiguration

/-- A context that becomes connected, with its bearers in order. -/
structure Connected (u : UeManager) (n : Nat) (p : UeManager × List RrcOut) : Prop where
  kept : u.Kept p.1
  state : p.1.state = .connectedNormally ∨ p.1.state = .connectionReconfiguration
  bearers : p.1.BearersOk n
  out : OnlyReconfiguration u.rnti p.2

theorem kept_buildRrcConnectionReconfiguration (cfg : RrcConfig) (u : UeManager) :
    u.Kept (u.buildRrcConnectionReconfiguration cfg).1 ∧
      (u.buildRrcConnectionReconfiguration cfg).1.drbMap = u.drbMap ∧
      (u.buildRrcConnectionReconfiguration cfg).1.drbsToBeStarted = u.drbsToBeStarted := by
  unfold buildRrcConnectionReconfiguration
  split
  · exact ⟨⟨⟨rfl, rfl, rfl⟩, ⟨rfl, rfl⟩, ⟨rfl, rfl⟩, rfl, rfl⟩, rfl, rfl⟩
  · exact ⟨.refl u, rfl, rfl⟩

theorem BearersOk.scheduleRrcConnectionReconfiguration (h : u.BearersOk n) (cfg : RrcConfig)
    (hs : u.state = .connectedNormally) :
    Spec Never (u.Connected n) (u.scheduleRrcConnectionReconfiguration cfg) := by
  unfold UeManager.scheduleRrcConnectionReconfiguration
  split
  case h_9 =>
    obtain ⟨hkept, hm, hst⟩ := kept_buildRrcConnectionReconfiguration cfg
      { u with pendingRrcConnectionReconfiguration := false }
    have hok := (h.of_eq hm hst).recordDataRadioBearersToBeStarted
    refine ⟨⟨⟨hkept.rnti, hkept.componentCarrierId, hkept.timeouts⟩, hkept.source, hkept.target,
      hkept.srs, hkept.teids⟩, .inr rfl, hok.of_eq rfl rfl, fun o ho => ?_⟩
    exact mem_singleton.1 ho
  all_goals simp_all

theorem BearersOk.switchToConnectedNormally (h : u.BearersOk n) (cfg : RrcConfig) :
    Spec Never (u.Connected n) (u.switchToConnectedNormally cfg) := by
  have hfirst : Spec Never (u.Connected n)
      ((u.switchToState .connectedNormally).pendingReconfiguration cfg) := by
    unfold UeManager.pendingReconfiguration
    split
    · have hok : (u.switchToState .connectedNormally).BearersOk n := h.of_eq rfl rfl
      refine (hok.scheduleRrcConnectionReconfiguration cfg rfl).imp fun p hp => ?_
      exact ⟨(kept_switchToState u _).trans hp.kept, hp.state, hp.bearers, hp.out⟩
    · exact ⟨kept_switchToState u _, .inl rfl, h.of_eq rfl rfl, nofun⟩
  refine hfirst.bind fun p hp => ?_
  have hstart : Spec Never (fun u' => p.1.Kept u' ∧ u'.state = p.1.state ∧ u'.BearersOk n)
      p.1.pendingStart := by
    unfold UeManager.pendingStart
    split
    · exact hp.bearers.startDataRadioBearers
    · exact ⟨.refl _, rfl, hp.bearers⟩
  refine hstart.bind fun u' hu' => ?_
  obtain ⟨hkept, hs, hok⟩ := hu'
  exact ⟨hp.kept.trans hkept, by rw [hs]; exact hp.state, hok, hp.out⟩

/-! ## Bearers of a handover request -/

/-- A context to which the first `k` bearers of a handover request were added. -/
structure Adding (u : UeManager) (k : Nat) : Prop where
  last : u.lastAllocatedDrbid = k
  state : u.state = .handoverJoining
  bearers : u.BearersOk k

theorem Adding.findDrbid {k : Nat} (h : u.Adding k) (hk : k < 31) :
    u.findDrbid 32 ((u.lastAllocatedDrbid + 1) % 32) = some (k + 1) := by
  have hmod : (k + 1) % 32 = k + 1 := Nat.mod_eq_of_lt (by omega)
  have hnew : u.findDrb (k + 1) = none := by
    refine Keyed.find?_eq_none.2 fun hmem => ?_
    have := (h.bearers.ids (k + 1)).1 hmem
    omega
  rw [h.last, hmod, UeManager.findDrbid, h.last, if_neg (by omega), if_pos ⟨by omega, hnew⟩]

theorem Adding.add {k : Nat} (h : u.Adding k) (d : Drb) (hd : d.drbIdentity = k + 1)
    (hpdcp : d.rlc.pdcp? ≠ none) : (u.addDataRadioBearerInfo (k + 1) d).Adding (k + 1) where
  last := rfl
  state := h.state
  bearers := by
    have hmem : ∀ d', d' ∈ (u.addDataRadioBearerInfo (k + 1) d).drbMap ↔ d' = d ∨ d' ∈ u.drbMap :=
      fun d' => mem_orderedInsert _
    refine ⟨fun i => ?_, fun d' hd' => ?_, fun i hi => ?_⟩
    · have hold := h.bearers.ids i
      simp only [mem_map, hmem] at hold ⊢
      constructor
      · rintro ⟨d', rfl | hd', rfl⟩
        · omega
        · have := hold.1 ⟨d', hd', rfl⟩
          omega
      · intro hi
        by_cases hik : i = k + 1
        · exact ⟨d, .inl rfl, hd.trans hik.symm⟩
        · obtain ⟨d', hd', rfl⟩ := hold.2 (by omega)
          exact ⟨d', .inr hd', rfl⟩
    · rcases (hmem d').1 hd' with rfl | hd'
      · exact hpdcp
      · exact h.bearers.pdcp d' hd'
    · have := h.bearers.started i hi
      omega

theorem sCells_getRrcConnectionReconfigurationForHandover (cfg : RrcConfig)
    (hu : u.caSupportConfigured = false) :
    (u.getRrcConnectionReconfigurationForHandover cfg).2 =
      if 1 < cfg.cellIds.length then some (cfg.cellIds.length - 1) else none := by
  unfold getRrcConnectionReconfigurationForHandover buildRrcConnectionReconfiguration
  by_cases hc : 1 < cfg.cellIds.length <;> simp [hu, hc]

theorem Adding.getRrcConnectionReconfigurationForHandover {k : Nat} (h : u.Adding k)
    (cfg : RrcConfig) : (u.getRrcConnectionReconfigurationForHandover cfg).1.Adding k ∧
      u.Kept (u.getRrcConnectionReconfigurationForHandover cfg).1 := by
  change (u.buildRrcConnectionReconfiguration cfg).1.Adding k ∧
    u.Kept (u.buildRrcConnectionReconfiguration cfg).1
  unfold UeManager.buildRrcConnectionReconfiguration
  split
  · exact ⟨⟨h.last, h.state, h.bearers.of_eq rfl rfl⟩, ⟨rfl, rfl, rfl⟩, ⟨rfl, rfl⟩, ⟨rfl, rfl⟩, rfl,
      rfl⟩
  · exact ⟨h, .refl u⟩

end UeManager

namespace Rrc

open UeManager

variable {r : Rrc} {u : UeManager} {k : Nat}

/-- What the set-up of bearers leaves of a context that joins. -/
structure JoinKept (u u' : UeManager) : Prop extends u.Same u' where
  source : u'.sourceCellId = u.sourceCellId ∧ u'.sourceX2apId = u.sourceX2apId
  srs : u'.srsConfigurationIndex = u.srsConfigurationIndex
  carriers : u'.caSupportConfigured = u.caSupportConfigured

theorem JoinKept.trans {u u' u'' : UeManager} (h : JoinKept u u') (h' : JoinKept u' u'') :
    JoinKept u u'' :=
  ⟨h.toSame.trans h'.toSame, ⟨h'.source.1.trans h.source.1, h'.source.2.trans h.source.2⟩,
    h'.srs.trans h.srs, h'.carriers.trans h.carriers⟩

theorem scheduleRrcConnectionReconfiguration_of_joining (cfg : RrcConfig)
    (hs : u.state = .handoverJoining) :
    u.scheduleRrcConnectionReconfiguration cfg =
      .ok ({ u with pendingRrcConnectionReconfiguration := true }, []) := by
  unfold UeManager.scheduleRrcConnectionReconfiguration
  split
  case h_7 => rfl
  all_goals simp_all

theorem spec_setupDataRadioBearer_ok (h : u.Adding k) (hk : k < 31) {bearer : EpsBearer}
    {gtpTeid : Nat} (hteid : gtpTeid ∉ r.x2uTeidInfoMap.map X2uTeidInfo.gtpTeid)
    (hpdcp : (r.newRlc bearer).pdcp? ≠ none) :
    Spec Never (fun p => p.1 = { r with
        x2uTeidInfoMap := ⟨gtpTeid, u.rnti, k + 1⟩ :: r.x2uTeidInfoMap } ∧
      p.2.Adding (k + 1) ∧ JoinKept u p.2) (r.setupDataRadioBearer u bearer (k + 1) gtpTeid) := by
  have hadd := h.add ⟨k + 1, k + 1, bearer, gtpTeid, r.newRlc bearer⟩ rfl hpdcp
  have hsched := scheduleRrcConnectionReconfiguration_of_joining r.cfg hadd.state
  unfold setupDataRadioBearer
  rw [h.findDrbid hk]
  change Spec _ _ (if _ then _ else if _ then _ else
    UeManager.scheduleRrcConnectionReconfiguration r.cfg (u.addDataRadioBearerInfo (k + 1) _) >>= _)
  rw [if_neg (fun hne => hne.2 rfl), if_neg (fun hne => hteid hne.2), hsched]
  refine ⟨?_, ⟨hadd.last, hadd.state, hadd.bearers.of_eq rfl rfl⟩, ⟨rfl, rfl, rfl⟩, ⟨rfl, rfl⟩, rfl,
    rfl⟩
  simp [send, h.state]

/-- The TEIDs lead to a context. -/
def TeidsOf (r : Rrc) (rnti : Nat) (teids : List Nat) : Prop :=
  ∀ t ∈ teids, ∃ i, Keyed.find? X2uTeidInfo.gtpTeid t r.x2uTeidInfoMap = some i ∧ i.rnti = rnti

theorem TeidsOf.cons {teids : List X2uTeidInfo} {rnti : Nat} {done : List Nat}
    (h : TeidsOf { r with x2uTeidInfoMap := teids } rnti done) (t i : Nat) :
    TeidsOf { r with x2uTeidInfoMap := ⟨t, rnti, i⟩ :: teids } rnti (t :: done) := by
  intro t' ht'
  rw [Keyed.find?_cons]
  split
  · exact ⟨_, rfl, rfl⟩
  · next hne =>
    rcases List.mem_cons.1 ht' with rfl | ht'
    · exact absurd rfl hne
    · exact h t' ht'

/-- The bearers of a handover request are set up, with their TEIDs. -/
theorem spec_setupBearers_ok (hpdcp : ∀ b, (r.newRlc b).pdcp? ≠ none) :
    ∀ {bs : List ErabToBeSetupItem} {k : Nat} {teids : List X2uTeidInfo} {done : List Nat},
      u.Adding k → bs.map ErabToBeSetupItem.erabId = range' (k + 1) bs.length →
      k + bs.length ≤ 31 →
      (bs.map ErabToBeSetupItem.gtpTeid ++ teids.map X2uTeidInfo.gtpTeid).Nodup →
      TeidsOf { r with x2uTeidInfoMap := teids } u.rnti done →
      Spec Never (fun p => (∃ teids', p.1 = { r with x2uTeidInfoMap := teids' } ∧
          TeidsOf p.1 u.rnti (bs.map ErabToBeSetupItem.gtpTeid ++ done)) ∧
        p.2.Adding (k + bs.length) ∧ JoinKept u p.2)
        (setupBearers { r with x2uTeidInfoMap := teids } u bs) := by
  intro bs
  induction bs generalizing u with
  | nil =>
    intro k teids done h _ _ _ hdone
    exact ⟨⟨teids, rfl, hdone⟩, h, ⟨.refl u, ⟨rfl, rfl⟩, rfl, rfl⟩⟩
  | cons b bs ih =>
    intro k teids done h hids hlen hnodup hdone
    rw [length_cons] at hlen
    rw [map_cons, length_cons, range'_succ] at hids
    obtain ⟨hid, hids⟩ := cons.inj hids
    rw [map_cons, cons_append, nodup_cons, mem_append, not_or] at hnodup
    obtain ⟨⟨hnew, hfresh⟩, hnodup⟩ := hnodup
    have hmod : b.erabId % 256 = k + 1 := by omega
    have hfirst := spec_setupDataRadioBearer_ok (r := { r with x2uTeidInfoMap := teids }) h
      (by omega) hfresh (hpdcp b.erabLevelQosParameters)
    rw [setupBearers, foldlM_cons, hmod]
    refine hfirst.bind fun p hp => ?_
    obtain ⟨r', u'⟩ := p
    obtain ⟨rfl, hadd, hjoin⟩ := hp
    have hdone' : TeidsOf { r with x2uTeidInfoMap := ⟨b.gtpTeid, u.rnti, k + 1⟩ :: teids } u'.rnti
        (b.gtpTeid :: done) := by
      rw [hjoin.rnti]
      exact hdone.cons _ _
    have hteids : (bs.map ErabToBeSetupItem.gtpTeid ++
        ((⟨b.gtpTeid, u.rnti, k + 1⟩ : X2uTeidInfo) :: teids).map X2uTeidInfo.gtpTeid).Nodup := by
      rw [map_cons, nodup_middle, nodup_cons, mem_append, not_or]
      exact ⟨⟨hnew, hfresh⟩, hnodup⟩
    refine (ih hadd hids (by omega) hteids hdone').imp fun p hp => ?_
    obtain ⟨⟨teids', hr, hall⟩, hadd', hjoin'⟩ := hp
    refine ⟨⟨teids', hr, fun t ht => ?_⟩, by rwa [length_cons, Nat.add_comm bs.length, ←
      Nat.add_assoc], hjoin.trans hjoin'⟩
    rw [← hjoin.rnti]
    exact hall t (List.perm_middle.mem_iff.2 ht)

end Rrc

end OranNs3
