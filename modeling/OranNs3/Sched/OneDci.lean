import OranNs3.Sched.Slots

/-!
# One DCI for each UE, and room for it

In every state that calls of the scheduler reach, the HARQ vectors of the UEs are well formed
(`SchedOk`). So in every DL slot a UE gets at most one DCI for data, over retransmissions and new
data together, and new data always finds an inactive process (`one_dci`).
-/

namespace OranNs3

open Fallible List Lts

variable {cfg : SchedConfig} {s t : Sched}

theorem SchedOk.ueConfig (h : SchedOk cfg s) (rnti : Nat) (beam : BeamId) (order : Shuffle) :
    SchedOk cfg (doCschedUeConfigReq cfg s rnti beam order) := by
  unfold doCschedUeConfigReq
  split
  · next hnone =>
    have hperm := order.perm (⟨rnti, beam, .setMaxSize order cfg.numHarqProcess,
      .setMaxSize order cfg.numHarqProcess⟩ :: s.ueMap)
    refine ⟨⟨?_, fun u hu => ?_⟩, h.beams⟩
    · refine (hperm.map UeInfo.rnti).nodup_iff.2 ?_
      exact nodup_cons.2 ⟨Keyed.find?_eq_none.1 hnone, h.ues.nodup⟩
    · rcases mem_cons.1 (hperm.mem_iff.1 hu) with rfl | hu
      · refine ⟨fun d => ?_, fun d => ?_⟩
        · cases d <;> exact HarqVector.wf_setMaxSize order cfg.num_lt
        · cases d <;> exact HarqVector.forall_setMaxSize order _
      · exact h.ues.ue u hu
  · next u hu =>
    exact ⟨h.ues.modify hu (fun _ => rfl) ⟨(h.ues.find? hu).wf, (h.ues.find? hu).procs⟩, h.beams⟩

theorem SchedOk.step {c : SchedCall} (h : SchedOk cfg s) (hst : Sched.Step cfg s c t) :
    SchedOk cfg t := by
  obtain ⟨allocs, hcall⟩ := hst
  cases c with
  | ueConfig rnti beam order =>
    cases hcall
    exact h.ueConfig rnti beam order
  | ueRelease rnti =>
    obtain ⟨t', ht', heq⟩ := ok_of_bind hcall
    obtain ⟨_, _, ht'⟩ := ok_of_bind ht'
    cases heq
    cases ht'
    refine ⟨⟨Keyed.nodup_erase h.ues.nodup, fun u hu => ?_⟩, h.beams⟩
    exact h.ues.ue u (Keyed.mem_erase.1 hu).1
  | srInfo rntis =>
    obtain ⟨t', ht', heq⟩ := ok_of_bind hcall
    cases heq
    unfold doSchedUlSrInfoReq at ht'
    split at ht'
    · cases ht'
      exact ⟨h.ues, h.beams⟩
    · cases ht'
  | rachInfo reqs =>
    cases hcall
    exact ⟨h.ues, h.beams⟩
  | dlTrigger inp =>
    have hspec : Spec (FeedbackErr False) _ (doSchedDlTriggerReq cfg s inp) :=
      spec_dlTrigger h nofun nofun
    exact (hspec.ok hcall).1.ok
  | ulTrigger inp =>
    have hspec : Spec (FeedbackErr False) _ (doSchedUlTriggerReq cfg s inp) :=
      spec_ulTrigger h nofun nofun nofun
    exact (hspec.ok hcall).ok

theorem schedOk_init : SchedOk cfg Sched.init := ⟨⟨.nil, nofun⟩, .nil⟩

theorem Sched.Reachable.ok (h : Sched.Reachable cfg s) : SchedOk cfg s :=
  Run.invariant (I := SchedOk cfg) (fun hs _ hst => hs.step hst) schedOk_init h

/-- The number of DCIs for data that a slot has for a UE. -/
def dataDcis (allocs : List VarTtiAllocInfo) (rnti : Nat) : Nat :=
  (allocs.filter fun a => a.dci.type == .data && a.dci.rnti == rnti).length

theorem dataDcis_eq (allocs : List VarTtiAllocInfo) (rnti : Nat) :
    dataDcis allocs rnti = (dataRntis allocs).count rnti := by
  rw [dataDcis, dataRntis, count_eq_countP, countP_map, countP_filter, countP_eq_length_filter]
  congr 1
  exact filter_congr fun a _ => Bool.and_comm _ _

/-- The errors about HARQ vectors. -/
def HarqError (e : SchedError) : Prop := e = .noHarqSpace ∨ e = .overwritesActive

theorem FeedbackErr.not_harqError {known : Prop} {e : SchedError} (h : FeedbackErr known e) :
    ¬ HarqError e := by
  rintro (rfl | rfl) <;> simp [FeedbackErr, Err] at h

/-- The used sizes count the active processes, a vector that is not full stores a process in place
of an inactive one, a trigger stops neither because a vector is full nor because an active process
would be overwritten, and a DL slot has at most one DCI for data for each RNTI. -/
structure HarqSafe (cfg : SchedConfig) (s : Sched) : Prop where
  counted : ∀ u ∈ s.ueMap, ∀ d, (u.harq d).usedSize = (u.harq d).count
  inserts : ∀ u ∈ s.ueMap, ∀ d a, (u.harq d).canInsert = true →
    ∃ id w, (u.harq d).find? id = some none ∧ (u.harq d).insert a = .ok (some (id, w)) ∧
      ∀ id', id' ≠ id → w.find? id' = (u.harq d).find? id'
  dl : ∀ inp, Spec (fun e => ¬ HarqError e) (fun r => ∀ rnti, dataDcis r.2 rnti ≤ 1)
    (doSchedDlTriggerReq cfg s inp)
  ul : ∀ inp, Spec (fun e => ¬ HarqError e) (fun _ => True) (doSchedUlTriggerReq cfg s inp)

/-- In every state that is reached, for every slot. -/
theorem one_dci (h : Sched.Reachable cfg s) : HarqSafe cfg s where
  counted := fun u hu d => ((h.ok.ues.ue u hu).wf d).used
  inserts := by
    intro u hu d a hcan
    obtain ⟨id, hfind, hins, -⟩ := ((h.ok.ues.ue u hu).wf d).insert hcan a
    exact ⟨id, _, hfind, hins, fun id' hne => HarqVector.find?_set_of_ne hne⟩
  dl := by
    intro inp
    have hspec : Spec (FeedbackErr False) _ (doSchedDlTriggerReq cfg s inp) :=
      spec_dlTrigger h.ok nofun nofun
    refine hspec.mono (fun e he => he.not_harqError) fun r hr rnti => ?_
    rw [dataDcis_eq]
    exact nodup_iff_count_le_one.1 hr.2 rnti
  ul := by
    intro inp
    have hspec : Spec (FeedbackErr False) _ (doSchedUlTriggerReq cfg s inp) :=
      spec_ulTrigger h.ok nofun nofun nofun
    exact hspec.mono (fun e he => he.not_harqError) fun _ _ => trivial

/-- A DL slot with the given feedback, in which every UE has bytes to send. -/
def DlTrigger.busy (fs : List HarqInfo) : DlTrigger where
  harqInfoList := fs
  slotType := .dl
  totUlSym := 0
  buffered := fun _ => 100
  symPerBeam := fun _ => 2
  newDci := fun _ => some ⟨1, 2, 5, 1, 50, [true], [⟨1, 50⟩]⟩
  fits := fun _ => true
  reshape := fun _ _ _ _ => none
  order := .id

/-- A slot sends new data to a UE; after a NACK the next one retransmits it, and sends no new data,
although there are bytes and room. -/
theorem one_dci_example : ∃ s, Sched.Reachable .small s ∧
    (s.ueMap.map fun u => (u.rnti, u.dlHarq.usedSize, u.dlHarq.canInsert)) = [(1, 1, true)] ∧
    ((doSchedDlTriggerReq .small s (.busy [⟨1, 0, false⟩])).toOption.map
      fun r => r.2.map fun a => (a.dci.type, a.dci.rnti, a.dci.rv)) =
      some [(.ctrl, 0, 0), (.data, 1, 1)] ∧ HarqSafe .small s := by
  have hrun : ((execs anyStep (Sched.step? .small) Sched.init
      [.ueConfig 1 ⟨0, 0⟩ .id, .dlTrigger (.busy [])]).map fun s =>
        ((s.ueMap.map fun u => (u.rnti, u.dlHarq.usedSize, u.dlHarq.canInsert)),
          (doSchedDlTriggerReq .small s (.busy [⟨1, 0, false⟩])).toOption.map
            fun r => r.2.map fun a => (a.dci.type, a.dci.rnti, a.dci.rv))) =
      some ([(1, 1, true)], some [(.ctrl, 0, 0), (.data, 1, 1)]) := by decide
  obtain ⟨s, hs, hv⟩ := Option.map_eq_some_iff.1 hrun
  have hreach : Sched.Reachable .small s := run_of_execs Sched.step_of_step? hs
  exact ⟨s, hreach, congrArg Prod.fst hv, congrArg Prod.snd hv, one_dci hreach⟩

end OranNs3
