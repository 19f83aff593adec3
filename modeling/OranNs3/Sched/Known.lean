import OranNs3.Sched.OneDci

/-!
# The RNTIs of pending work

The scheduler keeps three lists of pending work by RNTI: scheduling requests, and DL and UL feedback
that could not be retransmitted. A trigger looks the RNTIs up in `m_ueMap` without a check.
`DoCschedUeReleaseReq` removes a UE from the map only, and `DoSchedUlSrInfoReq` stores any RNTI, so
an RNTI of the lists need not be a key (`lists_unknown`). It is one in every run in which a UE is
released only when no list has its RNTI, and scheduling requests and feedback are for UEs of the map
(`lists_known`).
-/

namespace OranNs3

open Fallible Keyed List Lts

variable {cfg : SchedConfig} {s t : Sched}

/-- The keys of `m_ueMap`. -/
def Sched.rntis (s : Sched) : List Nat := s.ueMap.map UeInfo.rnti

/-- Every RNTI of the three lists is a key. -/
structure ListsKnown (s : Sched) : Prop where
  sr : ∀ r ∈ s.srList, r ∈ s.rntis
  dl : ∀ f ∈ s.dlHarqToRetransmit, f.rnti ∈ s.rntis
  ul : ∀ f ∈ s.ulHarqToRetransmit, f.rnti ∈ s.rntis

/-- The condition on a call: no pending work of a UE that is released, and no request or feedback of
a UE that is not in the map. -/
def CallKnown (s : Sched) : SchedCall → Prop
  | .ueRelease rnti => rnti ∉ s.srList ∧ (∀ f ∈ s.dlHarqToRetransmit, f.rnti ≠ rnti) ∧
      ∀ f ∈ s.ulHarqToRetransmit, f.rnti ≠ rnti
  | .srInfo rntis => ∀ r ∈ rntis, r ∈ s.rntis
  | .dlTrigger inp => ∀ f ∈ inp.harqInfoList, f.rnti ∈ s.rntis
  | .ulTrigger inp => ∀ f ∈ inp.harqInfoList, f.rnti ∈ s.rntis
  | _ => True

instance (s : Sched) (c : SchedCall) : Decidable (CallKnown s c) := by
  cases c <;> unfold CallKnown <;> infer_instance

theorem ListsKnown.mono (h : ListsKnown s) (hmap : ∀ r ∈ s.rntis, r ∈ t.rntis)
    (hsr : ∀ r ∈ t.srList, r ∈ s.srList ∨ r ∈ s.rntis)
    (hdl : ∀ f ∈ t.dlHarqToRetransmit, f ∈ s.dlHarqToRetransmit ∨ f.rnti ∈ s.rntis)
    (hul : ∀ f ∈ t.ulHarqToRetransmit, f ∈ s.ulHarqToRetransmit ∨ f.rnti ∈ s.rntis) :
    ListsKnown t where
  sr := fun r hr => hmap r ((hsr r hr).elim (h.sr r) id)
  dl := fun f hf => hmap f.rnti ((hdl f hf).elim (h.dl f) id)
  ul := fun f hf => hmap f.rnti ((hul f hf).elim (h.ul f) id)

theorem ListsKnown.triggered {dlNew ulNew : List HarqInfo} (h : ListsKnown s)
    (hdl : ∀ f ∈ dlNew, f.rnti ∈ s.rntis) (hul : ∀ f ∈ ulNew, f.rnti ∈ s.rntis)
    (ht : Triggered cfg s dlNew ulNew t) : ListsKnown t := by
  refine h.mono (fun r hr => ?_) (fun r hr => .inl (ht.sr r hr)) (fun f hf => ?_) fun f hf => ?_
  · rw [Sched.rntis, ht.place.keys]
    exact hr
  · exact (mem_append.1 (ht.dl f hf)).imp_right (hdl f)
  · exact (mem_append.1 (ht.ul f hf)).imp_right (hul f)

theorem mem_mergeSr {r : Nat} : ∀ {rntis srList : List Nat},
    r ∈ mergeSr srList rntis → r ∈ srList ∨ r ∈ rntis
  | [], _, h => .inl h
  | x :: rntis, srList, h => by
    rw [mergeSr, foldl_cons] at h
    rcases mem_mergeSr h with h | h
    · split at h
      · exact .inl h
      · rcases mem_append.1 h with h | h
        · exact .inl h
        · exact .inr (mem_singleton.1 h ▸ mem_cons_self)
    · exact .inr (mem_cons_of_mem x h)

theorem rntis_ueConfig {rnti r : Nat} {beam : BeamId} {order : Shuffle}
    (h : r = rnti ∨ r ∈ s.rntis) : r ∈ (doCschedUeConfigReq cfg s rnti beam order).rntis := by
  unfold doCschedUeConfigReq
  split
  · rw [Sched.rntis, ((order.perm _).map UeInfo.rnti).mem_iff]
    exact mem_cons.2 h
  · next u hu =>
    have hkeys : (Keyed.modify UeInfo.rnti rnti (fun u => { u with beamId := beam }) s.ueMap).map
        UeInfo.rnti = s.ueMap.map UeInfo.rnti := map_modify fun _ _ _ => rfl
    rw [Sched.rntis, hkeys]
    rcases h with rfl | h
    · exact mem_keys_of_find? hu
    · exact h

/-- Every call that meets the condition keeps the lists known. -/
theorem ListsKnown.step {c : SchedCall} (h : SchedOk cfg s) (hl : ListsKnown s)
    (hc : CallKnown s c) (hst : Sched.Step cfg s c t) : ListsKnown t := by
  obtain ⟨allocs, hcall⟩ := hst
  cases c with
  | ueConfig rnti beam order =>
    cases hcall
    have hlists : (doCschedUeConfigReq cfg s rnti beam order).srList = s.srList ∧
        (doCschedUeConfigReq cfg s rnti beam order).dlHarqToRetransmit = s.dlHarqToRetransmit ∧
        (doCschedUeConfigReq cfg s rnti beam order).ulHarqToRetransmit = s.ulHarqToRetransmit := by
      unfold doCschedUeConfigReq
      split <;> exact ⟨rfl, rfl, rfl⟩
    obtain ⟨hsr, hdl, hul⟩ := hlists
    refine hl.mono (fun _ h => rntis_ueConfig (.inr h)) ?_ ?_ ?_
    · exact fun r hr => .inl (hsr ▸ hr)
    · exact fun f hf => .inl (hdl ▸ hf)
    · exact fun f hf => .inl (hul ▸ hf)
  | ueRelease rnti =>
    obtain ⟨t', ht', heq⟩ := ok_of_bind hcall
    obtain ⟨_, _, ht'⟩ := ok_of_bind ht'
    cases heq
    cases ht'
    obtain ⟨hsr, hdl, hul⟩ := hc
    refine ⟨fun r hr => ?_, fun f hf => ?_, fun f hf => ?_⟩
    · exact mem_keys_erase.2 ⟨hl.sr r hr, fun heq => hsr (heq ▸ hr)⟩
    · exact mem_keys_erase.2 ⟨hl.dl f hf, hdl f hf⟩
    · exact mem_keys_erase.2 ⟨hl.ul f hf, hul f hf⟩
  | srInfo rntis =>
    obtain ⟨t', ht', heq⟩ := ok_of_bind hcall
    cases heq
    unfold doSchedUlSrInfoReq at ht'
    split at ht'
    · cases ht'
      refine ⟨fun r hr => ?_, hl.dl, hl.ul⟩
      exact (mem_mergeSr hr).elim (hl.sr r) (hc r)
    · cases ht'
  | rachInfo reqs =>
    cases hcall
    exact ⟨hl.sr, hl.dl, hl.ul⟩
  | dlTrigger inp =>
    have hspec : Spec (FeedbackErr False) _ (doSchedDlTriggerReq cfg s inp) :=
      spec_dlTrigger h nofun nofun
    exact hl.triggered hc (forall_mem_nil _) (hspec.ok hcall).1
  | ulTrigger inp =>
    have hspec : Spec (FeedbackErr False) _ (doSchedUlTriggerReq cfg s inp) :=
      spec_ulTrigger h nofun nofun nofun
    exact hl.triggered (forall_mem_nil _) hc (hspec.ok hcall)

theorem listsKnown_init : ListsKnown Sched.init := ⟨nofun, nofun, nofun⟩

theorem FeedbackErr.ne_missingUe {e : SchedError} (h : FeedbackErr True e) : e ≠ .missingUe := by
  rintro rfl
  simp [FeedbackErr, Err] at h

/-- The lookups of the next trigger do not fail, when its own feedback is for UEs of the map. -/
def LookupsSucceed (cfg : SchedConfig) (s : Sched) : Prop :=
  (∀ inp : DlTrigger, CallKnown s (.dlTrigger inp) →
    s.call cfg (.dlTrigger inp) ≠ .error .missingUe) ∧
  ∀ inp : UlTrigger, CallKnown s (.ulTrigger inp) →
    s.call cfg (.ulTrigger inp) ≠ .error .missingUe

/-- In every run whose calls meet the condition the lists have only keys of `m_ueMap`, and the
lookups of the next trigger succeed. -/
theorem lists_known (h : Lts.Run (Sched.Step cfg) CallKnown Sched.init s) :
    ListsKnown s ∧ LookupsSucceed cfg s := by
  have hinv : SchedOk cfg s ∧ ListsKnown s := by
    refine Run.invariant (I := fun s => SchedOk cfg s ∧ ListsKnown s)
      (fun {s t c} hs hc hst => ?_) ⟨schedOk_init, listsKnown_init⟩ h
    exact ⟨hs.1.step hst, hs.2.step hs.1 hc hst⟩
  obtain ⟨hok, hl⟩ := hinv
  refine ⟨hl, fun inp hc herr => ?_, fun inp hc herr => ?_⟩
  · have hspec : Spec (FeedbackErr True) _ (doSchedDlTriggerReq cfg s inp) :=
      spec_dlTrigger hok (fun _ => hl.dl) fun _ => hc
    exact (hspec.error herr).ne_missingUe rfl
  · have hspec : Spec (FeedbackErr True) _ (doSchedUlTriggerReq cfg s inp) :=
      spec_ulTrigger hok (fun _ => hl.sr) (fun _ => hl.ul) fun _ => hc
    exact (hspec.error herr).ne_missingUe rfl

/-- A UL slot with the given feedback, in which no UE has bytes to send. -/
def UlTrigger.idle (fs : List HarqInfo) : UlTrigger where
  harqInfoList := fs
  slotType := .ul
  srsRnti := 0
  buffered := fun _ => 0
  symPerBeam := fun _ => 0
  newDci := fun _ => none
  order := .id

/-- A UE asks to be scheduled and its request is served before it is released. -/
theorem lists_known_example : ∃ s,
    Lts.Run (Sched.Step .small) CallKnown Sched.init s ∧ s.srList = [2] ∧ s.rntis = [2] ∧
      ListsKnown s ∧ LookupsSucceed .small s := by
  have hrun : ((execs CallKnown (Sched.step? .small) Sched.init
      [.ueConfig 1 ⟨0, 0⟩ .id, .srInfo [1], .ulTrigger (.idle []), .ueRelease 1,
        .ueConfig 2 ⟨0, 0⟩ .id, .srInfo [2]]).map fun s => (s.srList, s.rntis)) =
      some ([2], [2]) := by decide
  obtain ⟨s, hs, hv⟩ := Option.map_eq_some_iff.1 hrun
  have hsafe : Run (Sched.Step .small) CallKnown Sched.init s :=
    run_of_execs Sched.step_of_step? hs
  exact ⟨s, hsafe, congrArg Prod.fst hv, congrArg Prod.snd hv, lists_known hsafe⟩

/-- A UE is released after it asked to be scheduled: its RNTI stays in `m_srList`, and the next UL
trigger looks it up. -/
theorem lists_unknown : ∃ s, Sched.Reachable .small s ∧ ¬ ListsKnown s ∧
    s.call .small (.ulTrigger (.idle [])) = .error .missingUe := by
  have hrun : ((execs anyStep (Sched.step? .small) Sched.init
      [.ueConfig 1 ⟨0, 0⟩ .id, .srInfo [1], .ueRelease 1]).map fun s =>
        (s.srList, s.rntis, decide (s.call .small (.ulTrigger (.idle [])) = .error .missingUe))) =
      some ([1], [], true) := by decide
  obtain ⟨s, hs, hv⟩ := Option.map_eq_some_iff.1 hrun
  simp only [Prod.mk.injEq, decide_eq_true_eq] at hv
  obtain ⟨hsr, hkeys, herr⟩ := hv
  refine ⟨s, run_of_execs Sched.step_of_step? hs, fun hl => ?_, herr⟩
  have hmem := hl.sr 1 (by simp [hsr])
  rw [hkeys] at hmem
  cases hmem

end OranNs3
