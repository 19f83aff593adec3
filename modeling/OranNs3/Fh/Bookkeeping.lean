import OranNs3.Fh.Control
import Mathlib.Tactic.Linarith

/-!
# The bookkeeping of the fronthaul

The three maps of `NrFhControl` agree (`Inv`): the UEs of `m_activeUesPerBwp` are those whose key is
in `m_rntiQueueSize`, and no bandwidth part stays behind without a UE. Three things can break this.
The key of a pair is computed in `int`: up to a sum of 46340 different pairs have different keys
(`cantor_inj`), beyond it wraps; and the keys of the SAP users have 8 bits. And the UEs of a
retransmission are looked for by `find(rnti)` in a map whose keys are bandwidth parts. Where the
steps of a run and the numbers of the bandwidth parts avoid them (`Guard`, `Configured`), the
bookkeeping is exact in every state and no lookup fails (`bookkeeping_of_run`).
-/

namespace OranNs3.Fh

open Fallible Keyed List

/-! ## The pairing -/

section cantor
variable {x1 x2 y1 y2 : Nat}

/-- The pairs whose key is computed without overflow: `46340 * 46341 < 2 ^ 31`. -/
def InRange (x1 x2 : Nat) : Prop := x1 + x2 ≤ 46340
deriving Decidable

theorem cantor_of_half {c : Nat} (hc : (x1 + x2) * (x1 + x2 + 1) = 2 * c) (hlt : 2 * c < 2 ^ 31)
    (hx2 : x2 < 2 ^ 31) : cantor x1 x2 = c + x2 := by
  have hmod : ((2 * c : Nat) : Int).bmod (2 ^ 32) = 2 * (c : Int) := by
    rw [Int.natCast_mul, Int.bmod_eq_of_le]
    · rfl
    · norm_num
      omega
    · norm_num
      omega
  have hdiv : (2 * (c : Int)).tdiv 2 = c := Int.mul_tdiv_cancel_left _ (by decide)
  have hkey : (c : Int) + x2 < 2 ^ 32 := by
    norm_num
    omega
  have hemod : ((c : Int) + x2).emod (2 ^ 32) = c + x2 :=
    Int.emod_eq_of_lt (Int.natCast_nonneg (c + x2)) hkey
  unfold cantor
  rw [hc, hmod, hdiv, hemod]
  exact Int.toNat_natCast (c + x2)

theorem cantor_eq (h : InRange x1 x2) : 2 * cantor x1 x2 = (x1 + x2) * (x1 + x2 + 1) + 2 * x2 := by
  have hsum : x1 + x2 ≤ 46340 := h
  have hle : (x1 + x2) * (x1 + x2 + 1) ≤ 46340 * 46341 :=
    Nat.mul_le_mul hsum (Nat.succ_le_succ hsum)
  obtain ⟨c, hc⟩ : ∃ c, (x1 + x2) * (x1 + x2 + 1) = 2 * c := by
    obtain ⟨c, hc⟩ := Nat.even_mul_succ_self (x1 + x2)
    exact ⟨c, by omega⟩
  rw [cantor_of_half hc (by omega) (by omega), hc]
  ring

theorem cantor_inj (h : InRange x1 x2) (h' : InRange y1 y2) (heq : cantor x1 x2 = cantor y1 y2) :
    x1 = y1 ∧ x2 = y2 := by
  have h1 := cantor_eq h
  have h2 := cantor_eq h'
  -- the sum of a pair is determined by the triangular numbers around its key
  have hsum : ∀ {a b c d : Nat}, (a + b) * (a + b + 1) + 2 * b = (c + d) * (c + d + 1) + 2 * d →
      ¬ a + b < c + d := by
    intro a b c d heq hlt
    have hle : (a + b + 1) * (a + b + 2) ≤ (c + d) * (c + d + 1) :=
      Nat.mul_le_mul hlt (by omega)
    nlinarith
  have hs : x1 + x2 = y1 + y2 := by
    rcases Nat.lt_trichotomy (x1 + x2) (y1 + y2) with hlt | heq' | hgt
    · exact absurd hlt (hsum (by omega))
    · exact heq'
    · exact absurd hgt (hsum (by omega))
  rw [hs] at h1
  omega

end cantor

/-! ## Maps -/

section maps
variable {β : Type} {m : List (Nat × β)} {k k' : Nat} {v : β}

theorem exists_lookupAt (h : k ∈ m.map (·.1)) : ∃ v, lookupAt m k = .ok v := by
  obtain ⟨e, he⟩ := exists_find? h
  exact ⟨e.2, by rw [lookupAt, he]⟩

theorem mem_of_lookupAt (h : lookupAt m k = .ok v) : (k, v) ∈ m := by
  rw [lookupAt] at h
  split at h
  · next e he =>
    cases h
    have hk := key_of_find? he
    exact hk ▸ Keyed.mem_of_find? he
  · cases h

theorem mem_keys_assign : k' ∈ (assign m k v).map (·.1) ↔ k' = k ∨ k' ∈ m.map (·.1) := by
  rw [assign]
  split
  · next hk =>
    have hkeys : (Keyed.modify Prod.fst k (fun e => (e.1, v)) m).map (·.1) = m.map (·.1) :=
      map_modify fun _ _ _ => rfl
    rw [hkeys]
    exact ⟨.inr, fun h => h.elim (fun h => h ▸ hk) id⟩
  · simp [or_comm]

end maps

/-! ## The invariant -/

/-- The numbers of the bandwidth parts. -/
def ids (bwps : List Bwp) : List Nat := bwps.map (·.id)

/-- The bandwidth parts that the control stands: their numbers have 8 bits, and `SfnSf::Add` counts
slots of their numerology. -/
def Configured (bwps : List Bwp) : Prop := ∀ b ∈ bwps, b.id < 2 ^ 8 ∧ b.numerology ≤ 5
deriving Decidable

/-- The maps agree. Of the configuration, the lookups need its entries. -/
structure Inv (bwps : List Bwp) (s : FhControl) : Prop where
  phy : s.fhPhySapUser = bwps.map fun b => (b.id, b.numerology)
  sched : s.fhSchedSapUser = bwps.map fun b => (b.id, b.numRbPerRbg)
  numerology : s.numerologyPerBwp = bwps.map fun b => (b.id, b.numerology)
  waiting : ∀ k, k ∈ s.waitingSlotPerBwp.map (·.1) ↔ k ∈ ids bwps
  waitingSlot : ∀ e ∈ s.waitingSlotPerBwp, ∃ b ∈ bwps, b.id = e.1 ∧ e.2.numerology = b.numerology
  active : s.activeUesPerBwp.Wf
  harq : s.activeHarqUesPerBwp.Wf
  inRange : ∀ {b r}, s.activeUesPerBwp.Has b r → InRange b r
  queue : ∀ {b r}, InRange b r →
    (s.activeUesPerBwp.Has b r ↔ cantor b r ∈ s.rntiQueueSize.map (·.1))
  known : ∀ {b}, b ∈ s.activeUesPerBwp.keys ∨ b ∈ s.activeHarqUesPerBwp.keys → b ∈ ids bwps

/-- An allocation is of a UE that was set active: for a retransmission one with HARQ waiting, whose
RNTI is the number of such a bandwidth part too, for new data one with data waiting. -/
def AllocOk (s : FhControl) (bwpId : Nat) (ueMap : List (Nat × Nat)) (dci : Dci) : Prop :=
  isDlData dci →
    if dci.ndi = 0 then
      s.activeHarqUesPerBwp.Has bwpId dci.rnti ∧ dci.rnti ∈ s.activeHarqUesPerBwp.keys
    else
      InRange bwpId dci.rnti ∧ s.activeUesPerBwp.Has bwpId dci.rnti ∧ dci.rnti ∈ ueMap.map (·.1)
deriving Decidable

section guard
variable (fhThr : Nat → Nat → Nat → Nat → Nat)

/-- The allocations of a slot, each in the state that it finds. -/
def AllocsOk (bwpId : Nat) (ueMap : List (Nat × Nat)) : FhControl → List Dci → Prop
  | _, [] => True
  | s, dci :: allocation => AllocOk s bwpId ueMap dci ∧
    match updateAlloc fhThr s bwpId ueMap dci with
    | .ok t => AllocsOk bwpId ueMap t allocation
    | .error _ => True

/-- The calls that the bookkeeping stands: of bandwidth parts that are configured, with pairs whose
key does not overflow, and allocations as above. -/
def Guard (bwps : List Bwp) (s : FhControl) (a : Action) : Prop :=
  a.bwpId ∈ ids bwps ∧
    match a with
    | .setActiveUe bwpId rnti _ => InRange bwpId rnti
    | .setActiveHarqUes _ _ => True
    | .updateActiveUesMap bwpId allocation ueMap => AllocsOk fhThr bwpId ueMap s allocation
    | .notifyEndSlot bwpId currentSlot =>
      ∀ b ∈ bwps, b.id = bwpId → currentSlot.numerology = b.numerology

/-- The runs of the fronthaul control. -/
def Step (s : FhControl) (a : Action) (t : FhControl) : Prop := act fhThr s a = .ok t

end guard

section steps
variable {fhThr : Nat → Nat → Nat → Nat → Nat} {bwps : List Bwp} {s : FhControl} {bwpId rnti : Nat}

theorem inv_init (hconf : Configured bwps) : Inv bwps (FhControl.init bwps) where
  phy := map_congr_left fun b hb => by rw [Nat.mod_eq_of_lt (hconf b hb).1]
  sched := map_congr_left fun b hb => by rw [Nat.mod_eq_of_lt (hconf b hb).1]
  numerology := rfl
  waiting k := by simp [FhControl.init, ids]
  waitingSlot e he := by
    obtain ⟨b, hb, rfl⟩ := mem_map.1 he
    exact ⟨b, hb, rfl, rfl⟩
  active := SetMap.wf_nil
  harq := SetMap.wf_nil
  inRange h := by simp [SetMap.Has, FhControl.init] at h
  queue _ := by simp [SetMap.Has, FhControl.init]
  known h := by simp [SetMap.keys, FhControl.init] at h

theorem Inv.doSetActiveUe (h : Inv bwps s) (hb : bwpId ∈ ids bwps) (hr : InRange bwpId rnti)
    (bytes : Nat) : Inv bwps (doSetActiveUe s bwpId rnti bytes) where
  phy := h.phy
  sched := h.sched
  numerology := h.numerology
  waiting := h.waiting
  waitingSlot := h.waitingSlot
  active := h.active.emplace
  harq := h.harq
  inRange hhas := by
    rcases SetMap.has_emplace.1 hhas with ⟨rfl, rfl⟩ | hhas
    · exact hr
    · exact h.inRange hhas
  queue hr' := by
    refine SetMap.has_emplace.trans (Iff.trans ?_ mem_keys_assign.symm)
    rw [h.queue hr']
    refine or_congr_left ⟨fun heq => by rw [heq.1, heq.2], fun heq => cantor_inj hr' hr heq⟩
  known hmem := by
    rcases hmem with hmem | hmem
    · have hmem : _ ∈ SetMap.keys (SetMap.emplace bwpId rnti s.activeUesPerBwp) := hmem
      rw [SetMap.keys_emplace] at hmem
      split at hmem
      · exact h.known (.inl hmem)
      · rcases mem_append.1 hmem with hmem | hmem
        · exact h.known (.inl hmem)
        · exact mem_singleton.1 hmem ▸ hb
    · exact h.known (.inr hmem)

theorem Inv.doSetActiveHarqUes (h : Inv bwps s) (hb : bwpId ∈ ids bwps) :
    Inv bwps (doSetActiveHarqUes s bwpId rnti) where
  phy := h.phy
  sched := h.sched
  numerology := h.numerology
  waiting := h.waiting
  waitingSlot := h.waitingSlot
  active := h.active
  harq := h.harq.emplace
  inRange := h.inRange
  queue := h.queue
  known hmem := by
    rcases hmem with hmem | hmem
    · exact h.known (.inl hmem)
    · have hmem : _ ∈ SetMap.keys (SetMap.emplace bwpId rnti s.activeHarqUesPerBwp) := hmem
      rw [SetMap.keys_emplace] at hmem
      split at hmem
      · exact h.known (.inr hmem)
      · rcases mem_append.1 hmem with hmem | hmem
        · exact h.known (.inr hmem)
        · exact mem_singleton.1 hmem ▸ hb

theorem updateTraces_ok (fhThr : Nat → Nat → Nat → Nat → Nat) (h : Inv bwps s)
    (hb : bwpId ∈ ids bwps) (dci : Dci) : ∃ thr rbs, updateTraces fhThr s bwpId dci = .ok { s with
      reqFhDlThrTracedValuePerBwp := thr
      rbsAirTracedValue := rbs } := by
  have hid : ∀ f : Bwp → Nat, (bwps.map fun b => (b.id, f b)).map (·.1) = ids bwps := fun f => by
    simp [ids]
  obtain ⟨rb, hrb⟩ :=
    exists_lookupAt (m := s.fhSchedSapUser) (k := bwpId) (by rw [h.sched, hid]; exact hb)
  obtain ⟨num, hnum⟩ :=
    exists_lookupAt (m := s.fhPhySapUser) (k := bwpId) (by rw [h.phy, hid]; exact hb)
  have hnum' : lookupAt s.numerologyPerBwp bwpId = .ok num := by
    rw [h.numerology, ← h.phy, hnum]
  simp only [updateTraces, getFhThr, hrb, hnum, hnum', bind, Except.bind, ne_eq, not_true_eq_false,
    if_false, pure, Except.pure]
  exact ⟨_, _, rfl⟩

theorem updateRetx_ok (h : Inv bwps s) (hhas : s.activeHarqUesPerBwp.Has bwpId rnti)
    (hkey : rnti ∈ s.activeHarqUesPerBwp.keys) :
    ∃ t, updateRetx s bwpId rnti = .ok t ∧ Inv bwps t ∧ ¬ t.activeHarqUesPerBwp.Has bwpId rnti ∧
      ∀ {b r}, t.activeHarqUesPerBwp.Has b r → s.activeHarqUesPerBwp.Has b r := by
  obtain ⟨ues, hues⟩ := exists_lookupAt hhas.mem_keys
  refine ⟨{ s with activeHarqUesPerBwp := s.activeHarqUesPerBwp.remove bwpId rnti }, ?_,
    { h with
      harq := h.harq.remove
      known := fun hmem => h.known (hmem.imp_right SetMap.mem_keys_of_remove) },
    fun hno => (SetMap.has_remove.1 hno).2 ⟨rfl, rfl⟩, fun hmem => (SetMap.has_remove.1 hmem).1⟩
  rw [updateRetx, if_pos hkey, hues]
  rfl

variable {ueMap : List (Nat × Nat)}

theorem updateNewData_ok (h : Inv bwps s) (hr : InRange bwpId rnti)
    (hhas : s.activeUesPerBwp.Has bwpId rnti) (hue : rnti ∈ ueMap.map (·.1)) :
    ∃ t, updateNewData s bwpId ueMap rnti = .ok t ∧ Inv bwps t ∧
      t.activeHarqUesPerBwp = s.activeHarqUesPerBwp := by
  have hc1 := (h.queue hr).1 hhas
  have hempty : ¬ s.rntiQueueSize.isEmpty := by
    rw [List.isEmpty_iff]
    intro hnil
    rw [hnil] at hc1
    exact absurd hc1 not_mem_nil
  obtain ⟨bytes, hbytes⟩ := exists_lookupAt hc1
  obtain ⟨ues, hues⟩ := exists_lookupAt hhas.mem_keys
  obtain ⟨⟨_, totBuffer⟩, htot⟩ := exists_find? hue
  simp only [updateNewData, if_neg hempty, htot]
  split
  · refine ⟨{ s with rntiQueueSize := assign s.rntiQueueSize (cantor bwpId rnti) totBuffer },
      by rw [hbytes]; rfl, { h with queue := fun hr' => ?_ }, rfl⟩
    rw [h.queue hr', mem_keys_assign]
    exact ⟨.inr, fun hmem => hmem.elim (fun heq => by rwa [heq]) id⟩
  · refine ⟨{ s with
      rntiQueueSize := Keyed.erase Prod.fst (cantor bwpId rnti) s.rntiQueueSize
      activeUesPerBwp := s.activeUesPerBwp.remove bwpId rnti }, by rw [hues]; rfl, { h with
      active := h.active.remove
      inRange := fun hmem => h.inRange (SetMap.has_remove.1 hmem).1
      queue := fun hr' => ?_
      known := fun hmem => h.known (hmem.imp_left SetMap.mem_keys_of_remove) }, rfl⟩
    refine SetMap.has_remove.trans ?_
    rw [h.queue hr']
    refine Iff.trans ?_ Keyed.mem_keys_erase.symm
    refine and_congr_right fun _ => not_congr ⟨fun heq => by rw [heq.1, heq.2], fun heq => ?_⟩
    exact cantor_inj hr' hr heq

/-- One allocation keeps the maps in agreement; a UE that was retransmitted to is removed, and none
is added. -/
theorem updateAlloc_ok (fhThr : Nat → Nat → Nat → Nat → Nat) (h : Inv bwps s)
    (hb : bwpId ∈ ids bwps) {dci : Dci} (hok : AllocOk s bwpId ueMap dci) :
    ∃ t, updateAlloc fhThr s bwpId ueMap dci = .ok t ∧ Inv bwps t ∧
      (isDlData dci → dci.ndi = 0 → ¬ t.activeHarqUesPerBwp.Has bwpId dci.rnti) ∧
      ∀ {b r}, t.activeHarqUesPerBwp.Has b r → s.activeHarqUesPerBwp.Has b r := by
  rw [updateAlloc]
  split
  · next hdl =>
    obtain ⟨thr, rbs, htraces⟩ := updateTraces_ok fhThr h hb dci
    have h' : Inv bwps { s with
        reqFhDlThrTracedValuePerBwp := thr
        rbsAirTracedValue := rbs } := { h with }
    rw [htraces]
    have hok := hok hdl
    by_cases hndi : dci.ndi = 0
    · rw [if_pos hndi] at hok
      obtain ⟨t, ht, hinv, hno, hsub⟩ := updateRetx_ok h' hok.1 hok.2
      exact ⟨t, by simpa [bind, Except.bind, hndi] using ht, hinv, fun _ _ => hno, hsub⟩
    · rw [if_neg hndi] at hok
      obtain ⟨t, ht, hinv, hharq⟩ := updateNewData_ok h' hok.1 hok.2.1 hok.2.2
      refine ⟨t, by simpa [bind, Except.bind, hndi] using ht, hinv, fun _ h0 => absurd h0 hndi, ?_⟩
      rw [hharq]
      exact fun hmem => hmem
  · next hdl => exact ⟨s, rfl, h, fun hdl' => absurd hdl' hdl, fun hmem => hmem⟩

theorem doUpdateActiveUesMap_ok (hb : bwpId ∈ ids bwps) :
    ∀ {allocation : List Dci} {s : FhControl}, Inv bwps s →
      AllocsOk fhThr bwpId ueMap s allocation →
      ∃ t, doUpdateActiveUesMap fhThr s bwpId allocation ueMap = .ok t ∧ Inv bwps t ∧
        (∀ dci ∈ allocation, isDlData dci → dci.ndi = 0 →
          ¬ t.activeHarqUesPerBwp.Has bwpId dci.rnti) ∧
        ∀ {b r}, t.activeHarqUesPerBwp.Has b r → s.activeHarqUesPerBwp.Has b r
  | [], s, h, _ => ⟨s, rfl, h, forall_mem_nil _, fun hmem => hmem⟩
  | dci :: allocation, s, h, hok => by
    obtain ⟨hfirst, hrest⟩ := hok
    obtain ⟨t, ht, hinv, hno, hsub⟩ := updateAlloc_ok fhThr h hb hfirst
    rw [ht] at hrest
    obtain ⟨t', ht', hinv', hno', hsub'⟩ := doUpdateActiveUesMap_ok hb hinv hrest
    refine ⟨t', ?_, hinv', forall_mem_cons.2 ⟨fun hdl h0 hmem => ?_, hno'⟩, fun hmem => ?_⟩
    · rw [doUpdateActiveUesMap] at ht' ⊢
      rw [foldlM_cons, ht]
      exact ht'
    · exact hno hdl h0 (hsub' hmem)
    · exact hsub (hsub' hmem)

theorem doNotifyEndSlot_ok (hconf : Configured bwps) (h : Inv bwps s) (hb : bwpId ∈ ids bwps)
    {currentSlot : Phy.SfnSf}
    (hslot : ∀ b ∈ bwps, b.id = bwpId → currentSlot.numerology = b.numerology) :
    ∃ t, doNotifyEndSlot s bwpId currentSlot = .ok t ∧ Inv bwps t := by
  obtain ⟨waitingSlot, hwait⟩ := exists_lookupAt ((h.waiting bwpId).2 hb)
  obtain ⟨b, hbmem, hbid, hbnum⟩ := h.waitingSlot _ (mem_of_lookupAt hwait)
  have hnum : currentSlot.numerology = waitingSlot.numerology :=
    (hslot b hbmem hbid).trans hbnum.symm
  simp only [doNotifyEndSlot, hwait, hnum, bind, Except.bind, ne_eq, not_true_eq_false, if_false]
  by_cases heq : currentSlot = waitingSlot
  · have hle : waitingSlot.numerology ≤ 5 := hbnum ▸ (hconf b hbmem).2
    obtain ⟨nextSlot, hnext, hnextNum⟩ : ∃ n, waitingSlot.addUint 1 = some n ∧
        n.numerology = waitingSlot.numerology := ⟨_, if_pos hle, rfl⟩
    simp only [if_pos heq, hnext]
    refine ⟨_, rfl, { h with waiting := fun k => ?_, waitingSlot := fun e he => ?_ }⟩
    · refine mem_keys_assign.trans ?_
      rw [h.waiting]
      exact ⟨fun hk => hk.elim (fun hk => hk ▸ hb) id, .inr⟩
    · have he : e ∈ assign s.waitingSlotPerBwp bwpId nextSlot := he
      rw [assign, if_pos ((h.waiting bwpId).2 hb)] at he
      obtain ⟨e', he', rfl⟩ := mem_modify.1 he
      split
      · next hk => exact ⟨b, hbmem, hbid.trans hk.symm, hnextNum.trans hbnum⟩
      · exact h.waitingSlot e' he'
  · exact ⟨s, if_neg heq, h⟩

theorem act_ok (hconf : Configured bwps) (h : Inv bwps s) {a : Action}
    (hok : Guard fhThr bwps s a) : ∃ t, act fhThr s a = .ok t ∧ Inv bwps t ∧
      ∀ bwpId allocation ueMap, a = .updateActiveUesMap bwpId allocation ueMap → ∀ dci ∈ allocation,
        isDlData dci → dci.ndi = 0 → ¬ t.activeHarqUesPerBwp.Has bwpId dci.rnti := by
  obtain ⟨hb, hok⟩ := hok
  cases a with
  | setActiveUe bwpId rnti bytes =>
    exact ⟨_, rfl, h.doSetActiveUe hb hok bytes, fun _ _ _ ha => Action.noConfusion ha⟩
  | setActiveHarqUes bwpId rnti =>
    exact ⟨_, rfl, h.doSetActiveHarqUes hb, fun _ _ _ ha => Action.noConfusion ha⟩
  | updateActiveUesMap bwpId allocation ueMap =>
    obtain ⟨t, ht, hinv, hno, -⟩ := doUpdateActiveUesMap_ok hb h hok
    refine ⟨t, ht, hinv, fun bwpId' allocation' ueMap' ha => ?_⟩
    cases ha
    exact hno
  | notifyEndSlot bwpId currentSlot =>
    obtain ⟨t, ht, hinv⟩ := doNotifyEndSlot_ok hconf h hb hok
    exact ⟨t, ht, hinv, fun _ _ _ ha => Action.noConfusion ha⟩

end steps

/-! ## Runs -/

/-- The bookkeeping is exact. -/
structure Exact (s : FhControl) : Prop where
  queue : ∀ b r, InRange b r →
    (s.activeUesPerBwp.Has b r ↔ cantor b r ∈ s.rntiQueueSize.map (·.1))
  distinct : ∀ b r b' r', s.activeUesPerBwp.Has b r → s.activeUesPerBwp.Has b' r' →
    cantor b r = cantor b' r' → b = b' ∧ r = r'
  nonempty : ∀ e ∈ s.activeUesPerBwp ++ s.activeHarqUesPerBwp, e.2 ≠ []
  count : getNumberActiveBwps s =
    {b | ∃ r, s.activeUesPerBwp.Has b r ∨ s.activeHarqUesPerBwp.Has b r}.ncard

theorem Inv.exact {bwps : List Bwp} {s : FhControl} (hconf : Configured bwps) (h : Inv bwps s) :
    Exact s where
  queue _ _ hr := h.queue hr
  distinct _ _ _ _ h1 h2 heq := cantor_inj (h.inRange h1) (h.inRange h2) heq
  nonempty e he := by
    rcases mem_append.1 he with he | he
    · exact h.active.ne_nil e he
    · exact h.harq.ne_nil e he
  count := by
    have hncard := h.active.ncard_keys h.harq
    have hsub : {b | ∃ r, s.activeUesPerBwp.Has b r ∨ s.activeHarqUesPerBwp.Has b r} ⊆
        (Finset.range (2 ^ 8) : Set Nat) := by
      rintro b ⟨r, hbr⟩
      obtain ⟨bwp, hbwp, rfl⟩ :=
        mem_map.1 (h.known (hbr.imp SetMap.Has.mem_keys SetMap.Has.mem_keys))
      exact Finset.mem_coe.2 (Finset.mem_range.2 (hconf bwp hbwp).1)
    have hle := (Set.ncard_le_ncard hsub (Finset.finite_toSet _)).trans_eq
      ((Set.ncard_coe_finset _).trans (Finset.card_range _))
    rw [getNumberActiveBwps, ← hncard, Nat.mod_eq_of_lt (hle.trans_lt (by decide))]

section decidable

instance decidableAllocsOk {fhThr : Nat → Nat → Nat → Nat → Nat} {bwpId : Nat}
    {ueMap : List (Nat × Nat)} :
    (s : FhControl) → (allocation : List Dci) → Decidable (AllocsOk fhThr bwpId ueMap s allocation)
  | _, [] => isTrue trivial
  | s, dci :: allocation =>
    haveI : Decidable (match updateAlloc fhThr s bwpId ueMap dci with
        | .ok t => AllocsOk fhThr bwpId ueMap t allocation
        | .error _ => True) := by
      split
      · exact decidableAllocsOk _ allocation
      · exact isTrue trivial
    inferInstanceAs (Decidable (_ ∧ _))

instance decidableGuard {fhThr : Nat → Nat → Nat → Nat → Nat} {bwps : List Bwp} (s : FhControl) :
    (a : Action) → Decidable (Guard fhThr bwps s a)
  | .setActiveUe _ _ _ => inferInstanceAs (Decidable (_ ∧ _))
  | .setActiveHarqUes _ _ => inferInstanceAs (Decidable (_ ∧ True))
  | .updateActiveUesMap _ _ _ => inferInstanceAs (Decidable (_ ∧ _))
  | .notifyEndSlot bwpId currentSlot => inferInstanceAs
    (Decidable (_ ∧ ∀ b ∈ bwps, b.id = bwpId → currentSlot.numerology = b.numerology))

end decidable

/-- In every run whose calls are as the guard says, the bookkeeping is exact, and the next such call
ends: no lookup fails, and a UE whose retransmission is allocated has no HARQ waiting afterwards. -/
theorem bookkeeping_of_run (fhThr : Nat → Nat → Nat → Nat → Nat) (bwps : List Bwp)
    (hconf : Configured bwps) (s : FhControl)
    (hrun : Lts.Run (Step fhThr) (Guard fhThr bwps) (FhControl.init bwps) s) :
    Exact s ∧ ∀ a, Guard fhThr bwps s a → ∃ t, act fhThr s a = .ok t ∧
      ∀ bwpId allocation ueMap, a = .updateActiveUesMap bwpId allocation ueMap →
        ∀ dci ∈ allocation, isDlData dci → dci.ndi = 0 →
          ¬ t.activeHarqUesPerBwp.Has bwpId dci.rnti := by
  have hinv : Inv bwps s := by
    refine Lts.Run.invariant (I := Inv bwps) (fun {s t a} hs ha hst => ?_) (inv_init hconf) hrun
    obtain ⟨t', ht', hinv, -⟩ := act_ok hconf hs ha
    have hst : act fhThr s a = .ok t := hst
    rw [ht'] at hst
    cases hst
    exact hinv
  refine ⟨hinv.exact hconf, fun a ha => ?_⟩
  obtain ⟨t, ht, -, hno⟩ := act_ok hconf hinv ha
  exact ⟨t, ht, hno⟩

/-! ## Two cells -/

/-- The throughput at numerology 0 and modulation order 4. -/
def thrOfQam16 (_ _ nRegs dlRank : Nat) : Nat := (12 * 4 * nRegs * dlRank + 32 + 10000 + 240) * 1000

/-- A DL allocation of one RBG. -/
def dlDci (rnti ndi : Nat) : Dci := ⟨rnti, .dl, 1, 2, 5, 1, 100, ndi, 0, .data, 0, [true]⟩

/-- A UE with data in the first of two bandwidth parts and a retransmission in the second, whose
number is its RNTI. -/
def servedCalls : List Action :=
  [.setActiveUe 0 1 100, .setActiveHarqUes 1 1, .updateActiveUesMap 1 [dlDci 1 0] [],
    .notifyEndSlot 1 ⟨0, 0, 0, 0⟩, .updateActiveUesMap 0 [dlDci 1 1] [(1, 40)]]

/-- The bookkeeping of such a run is exact. -/
theorem bookkeeping_two_bwps : ∃ s,
    Lts.Run (Step thrOfQam16) (Guard thrOfQam16 [⟨0, 0, 1⟩, ⟨1, 0, 1⟩])
      (FhControl.init [⟨0, 0, 1⟩, ⟨1, 0, 1⟩]) s ∧
    s.rntiQueueSize = [(cantor 0 1, 40)] ∧ s.activeHarqUesPerBwp = [] ∧ Exact s := by
  have hrun : ∃ s, Lts.execs (Guard thrOfQam16 [⟨0, 0, 1⟩, ⟨1, 0, 1⟩])
      (fun s a => (act thrOfQam16 s a).toOption) (FhControl.init [⟨0, 0, 1⟩, ⟨1, 0, 1⟩])
      servedCalls = some s ∧ s.rntiQueueSize = [(cantor 0 1, 40)] ∧ s.activeHarqUesPerBwp = [] := by
    refine ⟨_, rfl, ?_, ?_⟩ <;> decide
  have hconf : Configured [⟨0, 0, 1⟩, ⟨1, 0, 1⟩] := by decide
  obtain ⟨s, hs, hq, hh⟩ := hrun
  have hstep : ∀ {s a t}, (act thrOfQam16 s a).toOption = some t → Step thrOfQam16 s a t :=
    Fallible.ok_of_toOption
  have hrun := Lts.run_of_execs hstep hs
  exact ⟨s, hrun, hq, hh, (bookkeeping_of_run thrOfQam16 _ hconf s hrun).1⟩

/-- In a cell with one bandwidth part, the retransmission of a UE leaves it among the UEs with HARQ
waiting, and the bandwidth part active with nothing to do. -/
theorem retx_stays_active : ∃ s t,
    Lts.Run (Step thrOfQam16) Lts.anyStep (FhControl.init [⟨0, 0, 1⟩]) s ∧
    s.activeHarqUesPerBwp.Has 0 5 ∧
    act thrOfQam16 s (.updateActiveUesMap 0 [dlDci 5 0] [(5, 0)]) = .ok t ∧
    t.activeHarqUesPerBwp.Has 0 5 ∧ getNumberActiveBwps t = 1 := by
  refine ⟨doSetActiveHarqUes (FhControl.init [⟨0, 0, 1⟩]) 0 5, _,
    (Lts.Run.refl _).snoc (a := Action.setActiveHarqUes 0 5) trivial rfl, by decide, rfl, ?_,
    ?_⟩ <;>
  decide

end OranNs3.Fh
