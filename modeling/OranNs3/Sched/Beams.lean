import Mathlib.Data.List.Dedup
import OranNs3.Sched.Spec

/-!
# The beams of a slot

The maps from beams to the processes and the UEs that are active in a slot, and the order in which
the beams are served. A UE is in the list of one beam, once (`nodup_computeActiveUe`), and a UE that
has an allocation is in none after the exclusion (`excludeAllocated_spec`). Where `GetBeamOrderRR`
does not write out of range, it returns each active beam once (`spec_getBeamOrderRR`).
-/

namespace OranNs3

open Fallible List

namespace BeamMap

variable {γ : Type} {m : BeamMap γ} {b : BeamId} {x : γ} {P : BeamId → γ → Prop}

/-- All the elements of a map. -/
def entries (m : BeamMap γ) : List γ := m.flatMap Prod.snd

/-- A map with distinct beams and no empty list, whose elements belong to their beams. -/
structure Holds (P : BeamId → γ → Prop) (m : BeamMap γ) : Prop where
  nodup : (m.map Prod.fst).Nodup
  nonempty : ∀ q ∈ m, q.2 ≠ []
  elem : ∀ q ∈ m, ∀ x ∈ q.2, P q.1 x

theorem holds_nil : Holds P ([] : BeamMap γ) := ⟨.nil, nofun, nofun⟩

theorem mem_keys_add {b' : BeamId} :
    b' ∈ (add m b x).map Prod.fst ↔ b' = b ∨ b' ∈ m.map Prod.fst := by
  induction m with
  | nil => simp [add]
  | cons q m ih =>
    rw [add]
    split
    · next hq => simp [← hq]
    · simp only [map_cons, mem_cons, ih]
      exact or_left_comm

theorem Holds.add (h : Holds P m) (hx : P b x) : Holds P (add m b x) := by
  induction m with
  | nil => exact ⟨by simp [BeamMap.add], by simp [BeamMap.add], by simp [BeamMap.add, hx]⟩
  | cons q m ih =>
    obtain ⟨hq, hnd⟩ := nodup_cons.1 h.nodup
    obtain ⟨hqe, hne⟩ := forall_mem_cons.1 h.nonempty
    obtain ⟨hqP, hP⟩ := forall_mem_cons.1 h.elem
    have hm := ih ⟨hnd, hne, hP⟩
    rw [BeamMap.add]
    split
    · next hb =>
      refine ⟨h.nodup, forall_mem_cons.2 ⟨by simp, hne⟩, forall_mem_cons.2 ⟨?_, hP⟩⟩
      intro y hy
      rcases mem_append.1 hy with hy | hy
      · exact hqP y hy
      · rw [mem_singleton.1 hy]
        exact hb ▸ hx
    · next hb =>
      refine ⟨nodup_cons.2 ⟨fun hmem => ?_, hm.nodup⟩,
        forall_mem_cons.2 ⟨hqe, hm.nonempty⟩, forall_mem_cons.2 ⟨hqP, hm.elem⟩⟩
      rcases mem_keys_add.1 hmem with heq | hmem
      · exact hb heq
      · exact hq hmem

theorem entries_add : (add m b x).entries.Perm (x :: m.entries) := by
  induction m with
  | nil => simp [add, entries]
  | cons q m ih =>
    rw [add]
    split
    · simp only [entries, flatMap_cons, append_assoc, singleton_append]
      exact perm_middle
    · simp only [entries, flatMap_cons] at ih ⊢
      exact (ih.append_left q.2).trans perm_middle

end BeamMap

variable {cfg : SchedConfig} {known : Prop} {d : DciFormat} {ues : List UeInfo}
  {fs : List HarqInfo} {m : BeamMap (Nat × Nat)} {rnti : Nat} {buffered : Nat → Nat}

/-! ## Active processes -/

/-- The beam of a UE. -/
def InBeam (ues : List UeInfo) (b : BeamId) (rnti : Nat) : Prop :=
  ∃ u, Keyed.find? UeInfo.rnti rnti ues = some u ∧ u.beamId = b

theorem InBeam.unique {b b' : BeamId} (h : InBeam ues b rnti) (h' : InBeam ues b' rnti) :
    b = b' := by
  obtain ⟨u, hu, rfl⟩ := h
  obtain ⟨u', hu', rfl⟩ := h'
  cases hu.symm.trans hu'
  rfl

theorem spec_computeActiveDlHarq (hk : known → ∀ f ∈ fs, f.rnti ∈ ues.map UeInfo.rnti) :
    Spec (Err known) (BeamMap.Holds fun b i => InBeam ues b i.1) (computeActiveDlHarq ues fs) := by
  have hloop : Spec (Err known) (BeamMap.Holds fun b i => InBeam ues b i.1)
      (fs.foldlM (addActiveDlHarq ues) []) := by
    refine Spec.foldlM_mem (fun {m f} hf hm => ?_) BeamMap.holds_nil
    rw [addActiveDlHarq]
    refine (spec_findUe fun h => hk h f hf).bind fun u hu => ?_
    refine spec_get.bind fun q _ => ?_
    cases q with
    | none => exact err_assertion
    | some p =>
      change Spec _ _ (if _ then _ else _)
      split
      · exact hm.add ⟨u, hu, rfl⟩
      · exact err_assertion
  refine hloop.bind fun m hm => ⟨?_, fun q hq => ?_, fun q hq i hi => ?_⟩
  · simpa [sortDlHarq, Function.comp_def] using hm.nodup
  · obtain ⟨q', hq', rfl⟩ := mem_map.1 hq
    intro hnil
    have hperm := (perm_insertionSort (fun a b => numSymOf ues b ≤ numSymOf ues a) q'.2).symm
    rw [show q'.2.insertionSort _ = [] from hnil] at hperm
    exact hm.nonempty q' hq' hperm.eq_nil
  · obtain ⟨q', hq', rfl⟩ := mem_map.1 hq
    exact hm.elem q' hq' i ((perm_insertionSort _ q'.2).mem_iff.1 hi)

theorem spec_computeActiveUlHarq (hk : known → ∀ f ∈ fs, f.rnti ∈ ues.map UeInfo.rnti) :
    Spec (Err known) (fun _ => True) (computeActiveUlHarq ues fs) := by
  refine Spec.foldlM_mem (P := fun _ => True) (fun {m f} hf _ => ?_) trivial
  rw [addActiveUlHarq]
  refine (spec_findUe fun h => hk h f hf).bind fun u _ => ?_
  refine spec_get.bind fun q _ => ?_
  cases q with
  | none => exact err_assertion
  | some p => trivial

/-! ## Active UEs -/

theorem entries_foldl_addActiveUe (d : DciFormat) (buffered : Nat → Nat) (l : List UeInfo)
    (m : BeamMap (Nat × Nat)) :
    (BeamMap.entries (l.foldl (addActiveUe d buffered) m)).Perm
      (BeamMap.entries m ++ (l.filter fun u => 0 < buffered u.rnti && (u.harq d).canInsert).map
        fun u => (u.rnti, buffered u.rnti)) := by
  induction l generalizing m with
  | nil => simp
  | cons u l ih =>
    rw [foldl_cons, addActiveUe]
    split
    · next hu =>
      rw [filter_cons, if_pos hu, map_cons]
      exact (ih _).trans ((BeamMap.entries_add.append_right _).trans List.perm_middle.symm)
    · next hu =>
      rw [filter_cons, if_neg hu]
      exact ih m

theorem nodup_computeActiveUe (h : UesOk cfg ues) (d : DciFormat) (buffered : Nat → Nat)
    (order : Shuffle) :
    ((BeamMap.entries (computeActiveUe d buffered order ues)).map Prod.fst).Nodup := by
  have hperm := entries_foldl_addActiveUe d buffered (order.app ues) []
  refine (hperm.map Prod.fst).nodup_iff.2 ?_
  have hkeys : ((order.app ues).map UeInfo.rnti).Nodup :=
    ((order.perm ues).map UeInfo.rnti).nodup_iff.2 h.nodup
  simpa [BeamMap.entries, Function.comp_def] using hkeys.sublist (List.filter_sublist.map _)

theorem room_computeActiveUe (h : UesOk cfg ues) (order : Shuffle) {x : Nat × Nat}
    (hx : x ∈ BeamMap.entries (computeActiveUe d buffered order ues)) :
    ∃ u, Keyed.find? UeInfo.rnti x.1 ues = some u ∧ (u.harq d).canInsert = true := by
  have hperm := entries_foldl_addActiveUe d buffered (order.app ues) []
  obtain ⟨u, hu, rfl⟩ := mem_map.1 (hperm.mem_iff.1 hx)
  obtain ⟨hmem, hcond⟩ := mem_filter.1 hu
  exact ⟨u, Keyed.find?_of_mem h.nodup ((order.perm ues).mem_iff.1 hmem),
    (Bool.and_eq_true_iff.1 hcond).2⟩

theorem nonempty_computeActiveUe (d : DciFormat) (buffered : Nat → Nat) (order : Shuffle)
    (ues : List UeInfo) : ∀ q ∈ computeActiveUe d buffered order ues, q.2 ≠ [] := by
  have hloop : ∀ (l : List UeInfo) (m : BeamMap (Nat × Nat)), BeamMap.Holds (fun _ _ => True) m →
      BeamMap.Holds (fun _ _ => True) (l.foldl (addActiveUe d buffered) m) := by
    intro l
    induction l with
    | nil => exact fun _ => id
    | cons u l ih =>
      intro m hm
      rw [foldl_cons, addActiveUe]
      split
      · exact ih _ (hm.add trivial)
      · exact ih _ hm
  exact (hloop _ _ BeamMap.holds_nil).nonempty

/-! ## Exclusion -/

theorem excludeRnti_sublist (rnti : Nat) (hne : ∀ q ∈ m, q.2 ≠ []) :
    (BeamMap.entries (excludeRnti rnti m)).Sublist (BeamMap.entries m) ∧
      ∀ q ∈ excludeRnti rnti m, q.2 ≠ [] := by
  induction m with
  | nil => exact ⟨.slnil, nofun⟩
  | cons q m ih =>
    obtain ⟨hq, hm⟩ := forall_mem_cons.1 hne
    simp only [excludeRnti]
    split
    · exact ⟨sublist_append_right _ _, hm⟩
    · next hus =>
      refine ⟨List.eraseP_sublist.append (ih hm).1, forall_mem_cons.2 ⟨?_, (ih hm).2⟩⟩
      simpa using hus

/-- The UE is in no list afterwards. -/
theorem notMem_excludeRnti (hne : ∀ q ∈ m, q.2 ≠ [])
    (hnd : ((BeamMap.entries m).map Prod.fst).Nodup) :
    rnti ∉ (BeamMap.entries (excludeRnti rnti m)).map Prod.fst := by
  induction m with
  | nil => exact nofun
  | cons q m ih =>
    obtain ⟨hq, hm⟩ := forall_mem_cons.1 hne
    rw [BeamMap.entries, flatMap_cons, map_append, nodup_append'] at hnd
    obtain ⟨hqnd, hmnd, hdisj⟩ := hnd
    -- in its own list a UE is removed by the first match, as it is there once
    have hown : rnti ∉ (q.2.eraseP fun u => u.1 == rnti).map Prod.fst := by
      clear hq hdisj
      generalize q.2 = us at hqnd
      induction us with
      | nil => exact nofun
      | cons x us ihus =>
        obtain ⟨hx, hus⟩ := nodup_cons.1 hqnd
        rw [eraseP_cons]
        by_cases hr : x.1 = rnti
        · subst hr
          rwa [beq_self_eq_true, cond_true]
        · rw [beq_false_of_ne hr, cond_false, map_cons, mem_cons, not_or]
          exact ⟨fun heq => hr heq.symm, ihus hus⟩
    simp only [excludeRnti]
    split
    · next hus =>
      intro hmem
      have hall : q.2.eraseP (fun u => u.1 == rnti) = [] := by simpa using hus
      -- the list became empty, so the UE was in it and is in no other
      have hin : rnti ∈ q.2.map Prod.fst := by
        by_contra hnot
        refine hq ?_
        rw [← hall, eraseP_of_forall_not]
        intro x hx hxr
        exact hnot (mem_map.2 ⟨x, hx, by simpa using hxr⟩)
      exact hdisj hin hmem
    · intro hmem
      rw [BeamMap.entries, flatMap_cons, map_append, mem_append] at hmem
      rcases hmem with hmem | hmem
      · exact hown hmem
      · exact ih hm hmnd hmem

theorem excludeAllocated_spec (allocs : List VarTtiAllocInfo) (hne : ∀ q ∈ m, q.2 ≠ [])
    (hnd : ((BeamMap.entries m).map Prod.fst).Nodup) :
    (BeamMap.entries (excludeAllocated allocs m)).Sublist (BeamMap.entries m) ∧
      ∀ a ∈ allocs, a.dci.rnti ∉ (BeamMap.entries (excludeAllocated allocs m)).map Prod.fst := by
  induction allocs generalizing m with
  | nil => exact ⟨.refl _, nofun⟩
  | cons a allocs ih =>
    obtain ⟨hsub, hne'⟩ := excludeRnti_sublist a.dci.rnti hne
    obtain ⟨hsub', hout⟩ := ih hne' (hnd.sublist (hsub.map Prod.fst))
    refine ⟨hsub'.trans hsub, forall_mem_cons.2 ⟨fun hmem => ?_, hout⟩⟩
    exact notMem_excludeRnti hne hnd ((hsub'.map Prod.fst).mem hmem)

/-! ## The order of the beams -/

section Order

variable {rr active : List BeamId}

theorem nodup_enqueueBeams (active : List BeamId) (h : rr.Nodup) :
    (enqueueBeams rr active).Nodup := by
  unfold enqueueBeams
  induction active generalizing rr with
  | nil => exact h
  | cons b active ih =>
    rw [foldl_cons]
    refine ih ?_
    split
    · exact h
    · next hb => exact nodup_append'.2 ⟨h, nodup_singleton b, by simpa using hb⟩

theorem subset_enqueueBeams : ∀ b, b ∈ active ∨ b ∈ rr → b ∈ enqueueBeams rr active := by
  unfold enqueueBeams
  induction active generalizing rr with
  | nil => simp
  | cons a active ih =>
    intro b hb
    rw [foldl_cons]
    refine ih b ?_
    rcases hb with hb | hb
    · rcases mem_cons.1 hb with rfl | hb
      · right
        split
        · assumption
        · simp
      · exact .inl hb
    · right
      split
      · exact hb
      · exact mem_append_left _ hb

/-- What the loop has done after `k` iterations: the queue is rotated, and the active beams among
its first `k` are at their places in the result. -/
structure Ordered (active rr : List BeamId) (k : Nat) (st : List BeamId × List BeamId) : Prop where
  queue : st.1 = rr.drop k ++ rr.take k
  length : st.2.length = active.length
  placed : ∀ i b, i < k → rr[i]? = some b → b ∈ active → st.2[i]? = some b

variable {E : SchedError → Prop}

theorem spec_orderBeam {k : Nat} {st : List BeamId × List BeamId} (h : Ordered active rr k st)
    (hk : k < rr.length) (hE : rr[k] ∈ active → active.length ≤ k → E .outOfRange) :
    Spec E (Ordered active rr (k + 1)) (orderBeam active st k) := by
  have hqueue := h.queue
  rw [drop_eq_getElem_cons hk, cons_append] at hqueue
  have hrotate : rr.drop (k + 1) ++ rr.take k ++ [rr[k]] = rr.drop (k + 1) ++ rr.take (k + 1) := by
    rw [append_assoc, take_append_getElem hk]
  rw [orderBeam, hqueue]
  change Spec _ _ (if _ then if _ then _ else _ else _)
  split
  · next hact =>
    split
    · next hlt =>
      refine ⟨hrotate, by simpa using h.length, fun i b hi hb hbact => ?_⟩
      rcases Nat.lt_succ_iff_lt_or_eq.1 hi with hi | rfl
      · simpa [getElem?_set, Nat.ne_of_gt hi] using h.placed i b hi hb hbact
      · rw [getElem?_eq_getElem hk] at hb
        simpa [getElem?_set, hlt] using hb
    · next hge =>
      rw [h.length, Nat.not_lt] at hge
      exact hE hact hge
  · next hact =>
    refine ⟨hrotate, h.length, fun i b hi hb hbact => ?_⟩
    rcases Nat.lt_succ_iff_lt_or_eq.1 hi with hi | rfl
    · exact h.placed i b hi hb hbact
    · rw [getElem?_eq_getElem hk] at hb
      cases hb
      exact absurd hbact hact

theorem spec_orderBeams {init : List BeamId × List BeamId} (h0 : Ordered active rr 0 init)
    (hE : ∀ k (hk : k < rr.length), rr[k] ∈ active → active.length ≤ k → E .outOfRange) :
    ∀ k, k ≤ rr.length →
      Spec E (Ordered active rr k) ((List.range k).foldlM (orderBeam active) init)
  | 0, _ => h0
  | k + 1, hk => by
    rw [range_succ, foldlM_append]
    refine (spec_orderBeams h0 hE k (Nat.le_of_succ_le hk)).bind fun st hst => ?_
    rw [foldlM_cons]
    exact (spec_orderBeam hst hk (hE k hk)).bind fun st' hst' => hst'

theorem Ordered.eq_take (hact : active.Nodup) (hsub : ∀ b ∈ active, b ∈ rr)
    {st : List BeamId × List BeamId} (h : Ordered active rr rr.length st) :
    st.2 = rr.take active.length ∧ st.2.Perm active := by
  have hplace : ∀ i b, rr[i]? = some b → b ∈ active → st.2[i]? = some b := fun i b hb hba =>
    h.placed i b (List.getElem?_eq_some_iff.1 hb).1 hb hba
  have hfirst : active ⊆ rr.take active.length := by
    intro b hb
    obtain ⟨i, hi, rfl⟩ := mem_iff_getElem.1 (hsub b hb)
    have hlt := (List.getElem?_eq_some_iff.1 (hplace i rr[i] (getElem?_eq_getElem hi) hb)).1
    rw [h.length] at hlt
    exact mem_take_iff_getElem.2 ⟨i, by omega, rfl⟩
  -- the first beams are as many as the active ones, and distinct
  have hperm : active.Perm (rr.take active.length) := by
    refine (subperm_of_subset hact hfirst).perm_of_length_le ?_
    simp
  have hall : ∀ b ∈ rr.take active.length, b ∈ active := fun b hb => hperm.mem_iff.2 hb
  have heq : st.2 = rr.take active.length := by
    refine ext_getElem? fun i => ?_
    by_cases hi : i < active.length
    · have hilt : i < (rr.take active.length).length := hperm.length_eq ▸ hi
      have hmem := hall _ (getElem_mem hilt)
      rw [getElem?_eq_getElem hilt]
      refine hplace i _ ?_ hmem
      rw [← getElem?_eq_getElem hilt, getElem?_take_of_lt hi]
    · rw [getElem?_eq_none (h.length ▸ Nat.le_of_not_lt hi),
        getElem?_eq_none (hperm.length_eq ▸ Nat.le_of_not_lt hi)]
  refine ⟨heq, ?_⟩
  rw [heq]
  exact hperm.symm

/-- `GetBeamOrderRR` ends with the first beams of the queue, which are the active ones, or out of
range; the queue is back at its first beam. -/
theorem spec_getBeamOrderRR_take (hact : active.Nodup)
    (hE : ∀ k (hk : k < (enqueueBeams rr active).length), (enqueueBeams rr active)[k] ∈ active →
      active.length ≤ k → E .outOfRange) :
    Spec E (fun r => r.1 = enqueueBeams rr active ∧
      r.2 = (enqueueBeams rr active).take active.length ∧
        r.2.Perm active) (getBeamOrderRR rr active) := by
  have h0 : Ordered active (enqueueBeams rr active) 0
      (enqueueBeams rr active, replicate active.length default) :=
    ⟨by simp, by simp, by simp⟩
  refine (spec_orderBeams h0 hE _ le_rfl).imp fun st hst => ?_
  obtain ⟨heq, hperm⟩ := hst.eq_take hact fun b hb => subset_enqueueBeams b (.inl hb)
  refine ⟨?_, heq, hperm⟩
  rw [hst.queue]
  simp

theorem spec_getBeamOrderRR (hrr : rr.Nodup) (hact : active.Nodup) :
    Spec (Err known) (fun r => r.1.Nodup ∧ r.2.Nodup ∧ ∀ b ∈ r.2, b ∈ active)
      (getBeamOrderRR rr active) := by
  refine (spec_getBeamOrderRR_take hact fun _ _ _ _ => err_outOfRange).imp fun r hr => ?_
  obtain ⟨hqueue, -, hperm⟩ := hr
  refine ⟨?_, hperm.nodup_iff.2 hact, fun b hb => hperm.mem_iff.1 hb⟩
  rw [hqueue]
  exact nodup_enqueueBeams active hrr

end Order

end OranNs3
