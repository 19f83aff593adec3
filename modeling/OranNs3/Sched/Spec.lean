import OranNs3.Lib.Fallible
import OranNs3.Sched.Model

/-!
# What the calls of the scheduler do

One specification for each function of `OranNs3.Sched.Model`, on UEs that are well formed (`UesOk`):
the errors that are left (`Err`), and what the function keeps. A lookup of a UE fails only where an
RNTI is not a key (`known` is the assumption that all are), and neither of the fatal errors about
HARQ vectors is among the errors. Every function keeps the RNTIs and the beams of the UEs
(`SamePlace`), and the retransmissions keep the room in the vectors too (`SameShape`).
-/

namespace OranNs3

open Fallible Keyed List

variable {cfg : SchedConfig} {known : Prop} {d : DciFormat} {ues ues' : List UeInfo} {u : UeInfo}
  {rnti id : Nat} {p : ActiveHarq} {v : HarqVector} {fs : List HarqInfo}

/-! ## Well-formed UEs -/

/-- The errors of a call, besides the fatal one about feedback. -/
def Err (known : Prop) (e : SchedError) : Prop :=
  e = .assertion ∨ e = .outOfRange ∨ e = .missingProcess ∨ (e = .missingUe ∧ ¬known)

theorem err_assertion : Err known .assertion := .inl rfl

theorem err_outOfRange : Err known .outOfRange := .inr (.inl rfl)

theorem err_missingProcess : Err known .missingProcess := .inr (.inr (.inl rfl))

/-- An active process of a UE: its DCI is for the UE and the process, and a process that waits for
its retransmission has one left. -/
structure ProcOk (cfg : SchedConfig) (rnti id : Nat) (p : ActiveHarq) : Prop where
  rnti : p.dci.rnti = rnti
  harqProcess : p.dci.harqProcess = id
  rv : p.dci.rv ≤ maxHarqReTx cfg
  nack : p.status = .receivedFeedback → p.dci.rv < maxHarqReTx cfg

/-- A UE with two well-formed HARQ vectors. -/
structure UeOk (cfg : SchedConfig) (u : UeInfo) : Prop where
  wf : ∀ d, (u.harq d).Wf
  procs : ∀ d, (u.harq d).Forall (ProcOk cfg u.rnti)

/-- The UEs of a scheduler. -/
structure UesOk (cfg : SchedConfig) (ues : List UeInfo) : Prop where
  nodup : (ues.map UeInfo.rnti).Nodup
  ue : ∀ u ∈ ues, UeOk cfg u

@[simp]
theorem UeInfo.rnti_setHarq : (u.setHarq v d).rnti = u.rnti := by cases d <;> rfl

@[simp]
theorem UeInfo.beamId_setHarq : (u.setHarq v d).beamId = u.beamId := by cases d <;> rfl

@[simp]
theorem UeInfo.harq_setHarq : (u.setHarq v d).harq d = v := by cases d <;> rfl

theorem UeInfo.harq_setHarq_of_ne {d' : DciFormat} (h : d' ≠ d) :
    (u.setHarq v d).harq d' = u.harq d' := by
  cases d <;> cases d' <;> first | rfl | exact absurd rfl h

theorem UeOk.setHarq (h : UeOk cfg u) (hv : v.Wf) (hp : v.Forall (ProcOk cfg u.rnti)) :
    UeOk cfg (u.setHarq v d) where
  wf := by
    intro d'
    by_cases hd : d' = d
    · subst hd
      simpa using hv
    · simpa [UeInfo.harq_setHarq_of_ne hd] using h.wf d'
  procs := by
    intro d'
    by_cases hd : d' = d
    · subst hd
      simpa using hp
    · simpa [UeInfo.harq_setHarq_of_ne hd] using h.procs d'

/-- The RNTI and the beam of a UE. -/
def UeInfo.place (u : UeInfo) : Nat × BeamId := (u.rnti, u.beamId)

/-- The same, with the room in the HARQ vectors. -/
def UeInfo.shape (u : UeInfo) : Nat × BeamId × (DciFormat → Bool) :=
  (u.rnti, u.beamId, fun d => (u.harq d).canInsert)

/-- The same UEs in the same beams. -/
def SamePlace (ues ues' : List UeInfo) : Prop := ues'.map UeInfo.place = ues.map UeInfo.place

/-- The same UEs in the same beams, with the same room in their vectors. -/
def SameShape (ues ues' : List UeInfo) : Prop := ues'.map UeInfo.shape = ues.map UeInfo.shape

theorem SameShape.samePlace (h : SameShape ues ues') : SamePlace ues ues' := by
  have hmap := congrArg (List.map fun q : Nat × BeamId × (DciFormat → Bool) => (q.1, q.2.1)) h
  rw [map_map, map_map] at hmap
  exact hmap

theorem SamePlace.keys (h : SamePlace ues ues') : ues'.map UeInfo.rnti = ues.map UeInfo.rnti := by
  have hmap := congrArg (List.map Prod.fst) h
  rw [map_map, map_map] at hmap
  exact hmap

theorem SameShape.find? (h : SameShape ues ues') (hu : Keyed.find? UeInfo.rnti rnti ues = some u) :
    ∃ u', Keyed.find? UeInfo.rnti rnti ues' = some u' ∧
      ∀ d, (u'.harq d).canInsert = (u.harq d).canInsert := by
  obtain ⟨u', hu', hp⟩ := find?_of_map_eq (fun a b hab => (Prod.ext_iff.1 hab).1) h hu
  have hroom : (fun d => (u'.harq d).canInsert) = fun d => (u.harq d).canInsert :=
    (Prod.ext_iff.1 (Prod.ext_iff.1 hp).2).2
  exact ⟨u', hu', fun d => congrFun hroom d⟩

theorem UesOk.find? (h : UesOk cfg ues) (hu : Keyed.find? UeInfo.rnti rnti ues = some u) :
    UeOk cfg u :=
  h.ue u (Keyed.mem_of_find? hu)

theorem UesOk.proc (h : UesOk cfg ues) (hu : Keyed.find? UeInfo.rnti rnti ues = some u)
    (hp : (u.harq d).find? id = some (some p)) : ProcOk cfg rnti id p := by
  have := ((h.find? hu).procs d).find? hp
  rwa [key_of_find? hu] at this

theorem UesOk.modify {f : UeInfo → UeInfo} (h : UesOk cfg ues)
    (hu : Keyed.find? UeInfo.rnti rnti ues = some u) (hr : ∀ u, (f u).rnti = u.rnti)
    (hf : UeOk cfg (f u)) : UesOk cfg (Keyed.modify UeInfo.rnti rnti f ues) where
  nodup := by
    rw [map_modify fun u _ _ => hr u]
    exact h.nodup
  ue := by
    refine forall_modify h.ue fun u' hu' hkey => ?_
    have hfind := find?_of_mem h.nodup hu'
    rw [hkey, hu] at hfind
    cases hfind
    exact hf

theorem UesOk.setVector (h : UesOk cfg ues) (hu : Keyed.find? UeInfo.rnti rnti ues = some u)
    (hv : v.Wf) (hp : v.Forall (ProcOk cfg rnti)) : UesOk cfg (setVector d ues rnti v) := by
  refine h.modify hu (fun _ => UeInfo.rnti_setHarq) ((h.find? hu).setHarq hv ?_)
  rwa [key_of_find? hu]

theorem samePlace_setVector : SamePlace ues (setVector d ues rnti v) :=
  map_modify fun u _ _ => by simp [UeInfo.place]

theorem UesOk.setProcess {q : ActiveHarq} (h : UesOk cfg ues)
    (hu : Keyed.find? UeInfo.rnti rnti ues = some u) (hp : (u.harq d).find? id = some (some p))
    (hq : ProcOk cfg rnti id q) : UesOk cfg (setProcess d ues rnti id q) := by
  refine h.modify hu (fun _ => UeInfo.rnti_setHarq) ?_
  refine (h.find? hu).setHarq (((h.find? hu).wf d).set hp) (((h.find? hu).procs d).set ?_)
  rintro a ⟨⟩
  rwa [key_of_find? hu]

theorem sameShape_setProcess : SameShape ues (setProcess d ues rnti id p) := by
  refine map_modify fun u _ _ => ?_
  simp only [UeInfo.shape, UeInfo.rnti_setHarq, UeInfo.beamId_setHarq, Prod.mk.injEq, true_and]
  funext d'
  by_cases hd : d' = d
  · subst hd
    simp [HarqVector.canInsert, HarqVector.set]
  · rw [UeInfo.harq_setHarq_of_ne hd]

/-! ## Lookups -/

theorem spec_findUe (hk : known → rnti ∈ ues.map UeInfo.rnti) :
    Spec (Err known) (fun u => Keyed.find? UeInfo.rnti rnti ues = some u) (findUe ues rnti) := by
  unfold findUe
  split
  · assumption
  · next hnone =>
    exact .inr (.inr (.inr ⟨rfl, fun h => find?_eq_none.1 hnone (hk h)⟩))

theorem spec_get : Spec (Err known) (fun q => v.find? id = some q) (v.get id) := by
  unfold HarqVector.get
  split
  · assumption
  · exact err_missingProcess

theorem spec_findProcess (hk : known → rnti ∈ ues.map UeInfo.rnti) :
    Spec (Err known)
      (fun q => ∃ u, Keyed.find? UeInfo.rnti rnti ues = some u ∧ (u.harq d).find? id = some q)
      (findProcess d ues rnti id) :=
  (spec_findUe hk).bind fun u hu => spec_get.imp fun _ hq => ⟨u, hu, hq⟩

/-! ## Expiry -/

theorem spec_resetExpiredHARQ {num : Nat} (hv : v.Wf) (hp : v.Forall (ProcOk cfg rnti)) :
    Spec (fun _ => False) (fun w => w.Wf ∧ w.Forall (ProcOk cfg rnti))
      (resetExpiredHARQ num v) := by
  have hloop : Spec (fun _ => False)
      (fun w : HarqVector => w.procs.map Prod.fst = v.procs.map Prod.fst ∧ w.Wf ∧
        w.Forall (ProcOk cfg rnti)) (resetExpiredHARQ num v) := by
    refine Spec.foldlM_mem (fun {w id} hid hw => ?_) ⟨rfl, hv, hp⟩
    obtain ⟨hkeys, hwf, hproc⟩ := hw
    rw [← hkeys] at hid
    obtain ⟨⟨id', q⟩, hq⟩ := exists_find? hid
    have hfind : w.find? id = some q := by simp [HarqVector.find?, hq]
    rw [resetExpiredProcess, HarqVector.get_eq_ok.2 hfind]
    cases q with
    | none => exact ⟨hkeys, hwf, hproc⟩
    | some p =>
      change Spec _ _ (if p.timer < num then _ else _)
      split
      · refine ⟨by rw [HarqVector.keys_set, hkeys], hwf.set hfind, hproc.set ?_⟩
        rintro a ⟨⟩
        have hok := hproc.find? hfind
        exact ⟨hok.rnti, hok.harqProcess, hok.rv, hok.nack⟩
      · obtain ⟨heq, hwf'⟩ := hwf.erase hfind
        rw [heq]
        exact ⟨by rw [← hkeys]; exact HarqVector.keys_set, hwf', hproc.erased⟩
  exact hloop.imp fun w hw => hw.2

theorem spec_resetExpired (h : UesOk cfg ues) :
    Spec (fun _ => False) (fun ues' => UesOk cfg ues' ∧ SamePlace ues ues')
      (resetExpired cfg d ues) := by
  refine (Spec.mapM (T := fun u u' => UeOk cfg u' ∧ u'.place = u.place) fun u hu => ?_).imp
    fun ues' hall => ?_
  · have hu := h.ue u hu
    refine (spec_resetExpiredHARQ (hu.wf d) (hu.procs d)).bind fun w hw => ?_
    exact ⟨hu.setHarq hw.1 hw.2, by simp [UeInfo.place]⟩
  · have hplace : SamePlace ues ues' := by
      clear h
      induction hall with
      | nil => rfl
      | cons hu _ ih => exact congrArg₂ List.cons hu.2 ih
    refine ⟨⟨hplace.keys ▸ h.nodup, fun u' hu' => ?_⟩, hplace⟩
    clear h hplace
    induction hall with
    | nil => cases hu'
    | cons hu _ ih =>
      rcases mem_cons.1 hu' with rfl | hmem
      · exact hu.1
      · exact ih hmem

/-! ## Feedback -/

theorem spec_filterDlFeedback (hk : known → ∀ f ∈ fs, f.rnti ∈ ues.map UeInfo.rnti)
    (dup : List (Nat × Nat)) :
    Spec (Err known) (fun kept => ∀ f ∈ kept, f ∈ fs) (filterDlFeedback ues dup fs) := by
  induction fs generalizing dup with
  | nil => exact fun _ => id
  | cons f fs ih =>
    have hrest : known → ∀ g ∈ fs, g.rnti ∈ ues.map UeInfo.rnti :=
      fun h g hg => hk h g (mem_cons_of_mem f hg)
    have hskip : ∀ dup, Spec (Err known) (fun kept => ∀ g ∈ kept, g ∈ f :: fs)
        (filterDlFeedback ues dup fs) :=
      fun dup => (ih hrest dup).imp fun kept h g hg => mem_cons_of_mem f (h g hg)
    rw [filterDlFeedback]
    refine (spec_findProcess fun h => hk h f mem_cons_self).bind fun q _ => ?_
    cases q with
    | none => exact hskip dup
    | some p =>
      change Spec _ _ (if _ then _ else _)
      split
      · exact hskip dup
      · refine (hskip _).bind fun kept hkept g hg => ?_
        rcases mem_cons.1 hg with rfl | hg
        · exact mem_cons_self
        · exact hkept g hg

theorem spec_filterUlFeedback (hk : known → ∀ f ∈ fs, f.rnti ∈ ues.map UeInfo.rnti) :
    Spec (Err known) (fun kept => ∀ f ∈ kept, f ∈ fs) (filterUlFeedback ues fs) := by
  induction fs with
  | nil => exact fun _ => id
  | cons f fs ih =>
    have hskip : Spec (Err known) (fun kept => ∀ g ∈ kept, g ∈ f :: fs) (filterUlFeedback ues fs) :=
      (ih fun h g hg => hk h g (mem_cons_of_mem f hg)).imp
        fun kept h g hg => mem_cons_of_mem f (h g hg)
    rw [filterUlFeedback]
    refine (spec_findProcess fun h => hk h f mem_cons_self).bind fun q _ => ?_
    cases q with
    | none => exact hskip
    | some p =>
      refine hskip.bind fun kept hkept g hg => ?_
      rcases mem_cons.1 hg with rfl | hg
      · exact mem_cons_self
      · exact hkept g hg

/-- The errors of `ProcessHARQFeedbacks`: those of the lookups, and the fatal one. -/
def FeedbackErr (known : Prop) (e : SchedError) : Prop := Err known e ∨ e = .inactiveProcess

theorem spec_processHARQFeedbacks (h : UesOk cfg ues)
    (hk : known → ∀ f ∈ fs, f.rnti ∈ ues.map UeInfo.rnti) :
    Spec (FeedbackErr known) (fun r => UesOk cfg r.1 ∧ SamePlace ues r.1 ∧ ∀ f ∈ r.2, f ∈ fs)
      (processHARQFeedbacks cfg d ues fs) := by
  induction fs generalizing ues with
  | nil => exact ⟨h, rfl, fun _ => id⟩
  | cons f fs ih =>
    -- the UEs after the element, whatever becomes of its process
    have hrest : ∀ ues', UesOk cfg ues' → SamePlace ues ues' →
        Spec (FeedbackErr known)
          (fun r => UesOk cfg r.1 ∧ SamePlace ues r.1 ∧ ∀ g ∈ r.2, g ∈ f :: fs)
          (processHARQFeedbacks cfg d ues' fs) := by
      intro ues' h' hplace
      refine (ih h' fun hkn g hg => ?_).imp fun r hr => ⟨hr.1, hr.2.1.trans hplace, fun g hg => ?_⟩
      · rw [hplace.keys]
        exact hk hkn g (mem_cons_of_mem f hg)
      · exact mem_cons_of_mem f (hr.2.2 g hg)
    rw [processHARQFeedbacks]
    refine ((spec_findUe fun hkn => hk hkn f mem_cons_self).mono (fun _ => .inl)
      fun _ => id).bind fun u hu => ?_
    refine (spec_get.mono (fun _ => .inl) fun _ => id).bind fun q hq => ?_
    cases q with
    | none => exact .inr rfl
    | some p =>
      have hproc := h.proc hu hq
      change Spec _ _ (if _ then _ else if _ then _ else _)
      split
      · exact .inl err_assertion
      · split
        · obtain ⟨heq, hwf⟩ := ((h.find? hu).wf d).erase hq
          rw [heq]
          refine hrest _ (h.setVector hu hwf ?_) samePlace_setVector
          have hold := (h.find? hu).procs d
          rw [key_of_find? hu] at hold
          exact hold.erased
        · next hnack =>
          have hrv : p.dci.rv ≠ maxHarqReTx cfg := by simp_all
          have hlt : p.dci.rv < maxHarqReTx cfg := Nat.lt_of_le_of_ne hproc.rv hrv
          have hok : ProcOk cfg f.rnti f.harqProcessId { p with status := .receivedFeedback } :=
            ⟨hproc.rnti, hproc.harqProcess, hproc.rv, fun _ => hlt⟩
          refine (hrest _ (h.setProcess hu hq hok) sameShape_setProcess.samePlace).bind
            fun r hr => ?_
          refine ⟨hr.1, hr.2.1, fun g hg => ?_⟩
          rcases mem_cons.1 hg with rfl | hg
          · exact mem_cons_self
          · exact hr.2.2 g hg

end OranNs3
