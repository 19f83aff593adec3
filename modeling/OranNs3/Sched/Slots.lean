import OranNs3.Sched.Beams

/-!
# The slots

The specifications of the two triggers (`spec_dlTrigger`, `spec_ulTrigger`), from those of their
parts. In a DL slot the data DCIs are for distinct UEs: a retransmission is for a UE of the beam
that is served and has none in it (`RetxInv`), beams are served once, and new data is only for UEs
without an allocation. New data finds room in the HARQ vector of its UE, since the active UEs had
room when they were collected, retransmissions keep it, and each UE is served once (`Room`).
-/

namespace OranNs3

open Fallible Keyed List

variable {cfg : SchedConfig} {known : Prop} {d : DciFormat} {ues ues0 : List UeInfo} {u : UeInfo}
  {rnti id : Nat} {p : ActiveHarq} {fs : List HarqInfo} {todo : List Nat}

/-- The UEs that have a DCI for data. -/
def dataRntis (allocs : List VarTtiAllocInfo) : List Nat :=
  (allocs.filter fun a => a.dci.type == .data).map fun a => a.dci.rnti

@[simp]
theorem dataRntis_append (l l' : List VarTtiAllocInfo) :
    dataRntis (l ++ l') = dataRntis l ++ dataRntis l' := by
  simp [dataRntis]

theorem dataRntis_singleton {a : VarTtiAllocInfo} (h : a.dci.type = .data) :
    dataRntis [a] = [a.dci.rnti] := by
  simp [dataRntis, h]

variable {allocs : List VarTtiAllocInfo}

theorem mem_of_mem_dataRntis (h : rnti ∈ dataRntis allocs) : ∃ a ∈ allocs, a.dci.rnti = rnti := by
  obtain ⟨a, ha, rfl⟩ := mem_map.1 h
  exact ⟨a, (mem_filter.1 ha).1, rfl⟩

/-! ## New data -/

/-- The UEs that are still to be served are distinct and have room in their vectors. -/
def Room (d : DciFormat) (todo : List Nat) (ues : List UeInfo) : Prop :=
  todo.Nodup ∧
    ∀ r ∈ todo, ∃ u, Keyed.find? UeInfo.rnti r ues = some u ∧ (u.harq d).canInsert = true

theorem Room.sublist {todo' : List Nat} (h : Room d todo ues) (hsub : todo'.Sublist todo) :
    Room d todo' ues :=
  ⟨h.1.sublist hsub, fun r hr => h.2 r (hsub.mem hr)⟩

theorem Room.sameShape {ues' : List UeInfo} (h : Room d todo ues) (hs : SameShape ues ues') :
    Room d todo ues' := by
  refine ⟨h.1, fun r hr => ?_⟩
  obtain ⟨u, hu, hroom⟩ := h.2 r hr
  obtain ⟨u', hu', heq⟩ := hs.find? hu
  exact ⟨u', hu', by rw [heq d, hroom]⟩

theorem spec_insertNew {n : NewDci} {pdus : List RlcPduInfo} (h : UesOk cfg ues)
    (hroom : Room d (rnti :: todo) ues) :
    Spec (Err known)
      (fun r => UesOk cfg r.1 ∧ SamePlace ues r.1 ∧ Room d todo r.1 ∧ r.2.rnti = rnti ∧
        r.2.type = .data) (insertNew d ues rnti n pdus) := by
  obtain ⟨u, hu, hcan⟩ := hroom.2 rnti mem_cons_self
  have hok := h.find? hu
  obtain ⟨id, hfind, hins, hwf⟩ := (hok.wf d).insert hcan ⟨.waitingFeedback, 0, n.dci d rnti 0, []⟩
  have hfound : findUe ues rnti = .ok u := by simp [findUe, hu]
  rw [insertNew, hfound]
  change Spec _ _ (if (u.harq d).canInsert = true then _ else _)
  rw [if_pos hcan, hins]
  have hself :=
    HarqVector.find?_set_self (p := some ⟨.waitingFeedback, 0, n.dci d rnti 0, []⟩) hfind
  have hproc : ∀ i, ProcOk cfg rnti i ⟨.waitingFeedback, 0, n.dci d rnti i, pdus⟩ :=
    fun i => ⟨rfl, rfl, Nat.zero_le _, fun h => HarqStatus.noConfusion h⟩
  have hold : (u.harq d).Forall (ProcOk cfg rnti) := key_of_find? hu ▸ hok.procs d
  -- the process is stored with id 0 in its DCI, which is corrected at once
  refine ⟨h.setVector hu (hwf.set hself) fun q hq a ha => ?_, samePlace_setVector, ⟨?_, ?_⟩, rfl,
    rfl⟩
  · obtain ⟨r, hr, rfl⟩ := mem_modify.1 hq
    obtain ⟨r', hr', rfl⟩ := mem_modify.1 hr
    by_cases hid : r'.1 = id
    · simp only [hid, if_true, Option.some.injEq] at ha ⊢
      exact ha ▸ hproc id
    · simp only [hid, if_false] at ha ⊢
      exact hold r' hr' a ha
  · exact (nodup_cons.1 hroom.1).2
  · intro r hr
    have hne : r ≠ rnti := fun heq => (nodup_cons.1 hroom.1).1 (heq ▸ hr)
    obtain ⟨u', hu', hcan'⟩ := hroom.2 r (mem_cons_of_mem rnti hr)
    refine ⟨u', ?_, hcan'⟩
    rw [setVector, find?_modify_of_ne (fun _ hk => by rw [UeInfo.rnti_setHarq, hk]) hne]
    exact hu'

theorem spec_scheduleBeams {E : SchedError → Prop} {I : List Nat → DataState → Prop}
    {body : DataState → Nat × Nat → Except SchedError DataState} {symPerBeam : BeamId → Nat}
    (hcount : ∀ {todo st}, I todo st → I todo { st with symStarts := [], allocSym := 0 })
    (hdrop : ∀ {l todo st}, I (l ++ todo) st → I todo st)
    (hbody : ∀ {x todo st}, I (x.1 :: todo) st → Spec E (I todo) (body st x)) :
    ∀ {active : BeamMap (Nat × Nat)} {st : DataState × Nat},
      I (active.entries.map Prod.fst) st.1 →
      Spec E (fun r => I [] r.1) (active.foldlM (scheduleBeams body symPerBeam) st) := by
  intro active st h
  refine Spec.foldlM
    (P := fun (beams : BeamMap (Nat × Nat)) (r : DataState × Nat) =>
      I ((BeamMap.entries beams).map Prod.fst) r.1)
    (fun {beam beams r} hr => ?_) h
  rw [BeamMap.entries, flatMap_cons, map_append] at hr
  rw [scheduleBeams]
  split
  · exact hdrop hr
  · have hues : Spec E (I ((BeamMap.entries beams).map Prod.fst))
        (beam.2.foldlM body { r.1 with symStarts := [], allocSym := 0 }) := by
      refine Spec.foldlM (P := fun (us : List (Nat × Nat)) r =>
        I (us.map Prod.fst ++ (BeamMap.entries beams).map Prod.fst) r)
        (fun hr => hbody hr) (hcount hr)
    exact hues.bind fun r' hr' => hr'

/-- The invariant of `DoScheduleDlData`. -/
structure DlDataInv (cfg : SchedConfig) (ues0 : List UeInfo) (todo : List Nat) (st : DataState) :
    Prop where
  ues : UesOk cfg st.ues
  place : SamePlace ues0 st.ues
  room : Room .dl todo st.ues
  nodup : (dataRntis st.allocs ++ todo).Nodup

variable {inp : DlTrigger}

theorem spec_scheduleDlUe {st : DataState} {x : Nat × Nat}
    (h : DlDataInv cfg ues0 (x.1 :: todo) st) :
    Spec (Err known) (DlDataInv cfg ues0 todo) (scheduleDlUe cfg inp st x) := by
  have hnd := h.nodup
  rw [nodup_middle] at hnd
  rw [scheduleDlUe]
  split
  · exact ⟨h.ues, h.place, h.room.sublist (sublist_cons_self _ _), (nodup_cons.1 hnd).2⟩
  · split
    · refine (spec_insertNew h.ues h.room).bind fun r hr => ?_
      obtain ⟨hues, hplace, hroom, hrnti, htype⟩ := hr
      change Spec _ _ (if _ then _ else _)
      split
      · exact err_assertion
      · refine ⟨hues, hplace.trans h.place, hroom, ?_⟩
        rw [dataRntis_append, dataRntis_singleton htype, hrnti, append_assoc, singleton_append]
        exact nodup_middle.2 hnd
    · exact err_assertion

variable {active : BeamMap (Nat × Nat)}

theorem spec_doScheduleDlData (h : UesOk cfg ues)
    (hroom : Room .dl (active.entries.map Prod.fst) ues)
    (hnd : (dataRntis allocs ++ active.entries.map Prod.fst).Nodup) :
    Spec (Err known) (fun r => DlDataInv cfg ues [] r.1)
      (doScheduleDlData cfg inp active ues allocs) := by
  have hperm : ((BeamMap.entries (inp.order.app active)).map Prod.fst).Perm
      (active.entries.map Prod.fst) := ((inp.order.perm active).flatMap_right _).map _
  refine spec_scheduleBeams (I := DlDataInv cfg ues) (fun h => ⟨h.ues, h.place, h.room, h.nodup⟩)
    (fun {l todo st} h => ?_) spec_scheduleDlUe ⟨h, rfl, ⟨?_, fun r hr => ?_⟩, ?_⟩
  · refine ⟨h.ues, h.place, h.room.sublist (sublist_append_right _ _), ?_⟩
    exact h.nodup.sublist ((sublist_append_right l todo).append_left _)
  · exact hperm.nodup_iff.2 hroom.1
  · exact hroom.2 r (hperm.mem_iff.1 hr)
  · exact (hperm.append_left _).nodup_iff.2 hnd

/-- The invariant of `DoScheduleUlData`. -/
structure UlDataInv (cfg : SchedConfig) (ues0 : List UeInfo) (todo : List Nat) (st : DataState) :
    Prop where
  ues : UesOk cfg st.ues
  place : SamePlace ues0 st.ues
  room : Room .ul todo st.ues

theorem spec_doScheduleUlData {inp : UlTrigger} (h : UesOk cfg ues)
    (hroom : Room .ul (active.entries.map Prod.fst) ues) :
    Spec (Err known) (fun r => UlDataInv cfg ues [] r.1)
      (doScheduleUlData inp active ues allocs) := by
  have hperm : ((BeamMap.entries (inp.order.app active)).map Prod.fst).Perm
      (active.entries.map Prod.fst) := ((inp.order.perm active).flatMap_right _).map _
  refine spec_scheduleBeams (I := UlDataInv cfg ues) (fun h => ⟨h.ues, h.place, h.room⟩)
    (fun h => ⟨h.ues, h.place, h.room.sublist (sublist_append_right _ _)⟩)
    (fun {x todo st} h => ?_) ⟨h, rfl, hperm.nodup_iff.2 hroom.1, fun r hr => ?_⟩
  · rw [scheduleUlUe]
    split
    · exact ⟨h.ues, h.place, h.room.sublist (sublist_cons_self _ _)⟩
    · refine (spec_insertNew h.ues h.room).bind fun r hr => ?_
      change Spec _ _ (if _ then _ else _)
      split
      · exact err_assertion
      · exact ⟨hr.1, hr.2.1.trans h.place, hr.2.2.1⟩
  · exact hroom.2 r (hperm.mem_iff.1 hr)

/-! ## Retransmissions in the DL -/

/-- The invariant of `ScheduleDlHarq`: a data DCI is for one of the UEs `own` of the beam that is
served, or for a UE of none of the beams that are left. -/
structure RetxInv (cfg : SchedConfig) (ues0 : List UeInfo) (fs : List HarqInfo) (rest : List BeamId)
    (own : List Nat) (st : DlHarqState) : Prop where
  ues : UesOk cfg st.ues
  shape : SameShape ues0 st.ues
  retx : ∀ f ∈ st.toRetransmit, f ∈ fs
  nodup : (dataRntis st.allocs).Nodup
  beam : ∀ r ∈ dataRntis st.allocs, r ∈ own ∨ ∀ b ∈ rest, ¬ InBeam ues0 b r

section Retx

variable {inp : DlTrigger} {st : DlHarqState} {b : BeamId} {rest : List BeamId} {i : Nat × Nat}

/-- The invariant while the beam `b` is served. -/
def BeamInv (cfg : SchedConfig) (ues0 : List UeInfo) (fs : List HarqInfo) (b : BeamId)
    (rest : List BeamId) (st : DlHarqState) : Prop :=
  RetxInv cfg ues0 fs (b :: rest) st.allocatedUe st ∧ ∀ r ∈ st.allocatedUe, InBeam ues0 b r

theorem spec_bufferDlHarq {q : ActiveHarq} (h : BeamInv cfg ues0 fs b rest st)
    (hu : Keyed.find? UeInfo.rnti i.1 st.ues = some u)
    (hp : u.dlHarq.find? i.2 = some (some p)) (hq : ProcOk cfg i.1 i.2 q) :
    Spec (Err known) (BeamInv cfg ues0 fs b rest) (bufferDlHarq fs st i q) := by
  have hbuf : Spec (Err known) (fun l => ∀ f ∈ l, f ∈ fs)
      (bufferHARQFeedback fs st.toRetransmit q.dci.rnti q.dci.harqProcess) := by
    unfold bufferHARQFeedback
    split
    · next f hf =>
      intro g hg
      rcases mem_append.1 hg with hg | hg
      · exact h.1.retx g hg
      · exact mem_singleton.1 hg ▸ mem_of_find?_eq_some hf
    · exact err_assertion
  refine hbuf.bind fun l hl => ⟨⟨?_, ?_, hl, h.1.nodup, h.1.beam⟩, h.2⟩
  · exact h.1.ues.setProcess (d := .dl) hu hp hq
  · exact sameShape_setProcess.trans h.1.shape

/-- A retransmission that is allocated is the first of its UE. -/
theorem spec_allocateDlHarq {r : Reshaped} (h : BeamInv cfg ues0 fs b rest st)
    (hi : InBeam ues0 b i.1) (hu : Keyed.find? UeInfo.rnti i.1 st.ues = some u)
    (hp : u.dlHarq.find? i.2 = some (some p)) {q : ActiveHarq} (hq : ProcOk cfg i.1 i.2 q)
    (hrv : q.dci.rv < maxHarqReTx cfg) (hstatus : q.status = .waitingFeedback)
    (hnot : q.dci.rnti ∉ st.allocatedUe) :
    Spec (Err known) (BeamInv cfg ues0 fs b rest) (allocateDlHarq st i q r) := by
  have hrnti : (retransmitted q (r.dci q.dci)).dci.rnti = i.1 := hq.rnti
  rw [hq.rnti] at hnot
  have hnew : ProcOk cfg i.1 i.2 (retransmitted q (r.dci q.dci)) :=
    ⟨hq.rnti, hq.harqProcess, hrv, fun hs => nomatch hstatus.symm.trans hs⟩
  have hkey : known → (retransmitted q (r.dci q.dci)).dci.rnti ∈ st.ues.map UeInfo.rnti :=
    fun _ => hrnti ▸ mem_keys_of_find? hu
  refine (spec_findUe hkey).bind fun _ _ => ?_
  have hfresh : i.1 ∉ dataRntis st.allocs := fun hmem =>
    (h.1.beam i.1 hmem).elim hnot fun hall => hall b mem_cons_self hi
  have hdata : dataRntis (st.allocs ++ [⟨(retransmitted q (r.dci q.dci)).dci,
      (retransmitted q (r.dci q.dci)).rlcPduInfo⟩]) = dataRntis st.allocs ++ [i.1] := by
    rw [dataRntis_append, dataRntis_singleton rfl, hrnti]
  refine ⟨⟨?_, ?_, h.1.retx, ?_, fun s hs => ?_⟩, fun s hs => ?_⟩
  · exact h.1.ues.setProcess (d := .dl) hu hp hnew
  · exact sameShape_setProcess.trans h.1.shape
  · change (dataRntis (st.allocs ++ [_])).Nodup
    rw [hdata]
    exact nodup_append'.2 ⟨h.1.nodup, nodup_singleton _, by simpa using hfresh⟩
  · change s ∈ dataRntis (st.allocs ++ [_]) at hs
    rw [hdata] at hs
    change s ∈ st.allocatedUe ++ [(retransmitted q (r.dci q.dci)).dci.rnti] ∨ _
    rw [hrnti]
    rcases mem_append.1 hs with hs | hs
    · exact (h.1.beam s hs).imp_left fun hown => mem_append_left _ hown
    · exact .inl (mem_append_right _ hs)
  · change s ∈ st.allocatedUe ++ [(retransmitted q (r.dci q.dci)).dci.rnti] at hs
    rw [hrnti] at hs
    rcases mem_append.1 hs with hs | hs
    · exact h.2 s hs
    · exact mem_singleton.1 hs ▸ hi

theorem spec_takeRbgs : ∀ mask bitmask : List Bool,
    Spec (Err known) (fun _ => True) (takeRbgs mask bitmask)
  | _, [] => by simp [takeRbgs]
  | [], _ :: _ => err_outOfRange
  | m :: ms, free :: bitmask => by
    rw [takeRbgs]
    split
    · trivial
    · exact (spec_takeRbgs ms bitmask).bind fun _ _ => trivial

theorem spec_reshapeDci {dci : Dci} :
    Spec (Err known) (fun _ => True) (reshapeDci cfg inp st dci) := by
  unfold reshapeDci
  split
  · trivial
  · exact (spec_takeRbgs _ _).bind fun _ _ => trivial

/-- One process of a beam. -/
theorem spec_scheduleDlProcess (h : BeamInv cfg ues0 fs b rest st) (hi : InBeam ues0 b i.1) :
    Spec (Err known) (BeamInv cfg ues0 fs b rest) (scheduleDlProcess cfg inp fs st i) := by
  have hkey : known → i.1 ∈ st.ues.map UeInfo.rnti := by
    obtain ⟨u, hu, -⟩ := hi
    exact fun _ => h.1.shape.samePlace.keys ▸ mem_keys_of_find? hu
  rw [scheduleDlProcess]
  refine (spec_findProcess hkey).bind fun q hq => ?_
  obtain ⟨u, hu, hq⟩ := hq
  cases q with
  | none => exact err_assertion
  | some p =>
    have hproc := h.1.ues.proc hu hq
    change Spec _ _ (if _ then _ else _)
    split
    · exact err_assertion
    · next hstatus =>
      have hrv := hproc.nack (by simpa using hstatus)
      have hwait : ProcOk cfg i.1 i.2 { p with status := .waitingFeedback, timer := 0 } :=
        ⟨hproc.rnti, hproc.harqProcess, hproc.rv, nofun⟩
      have hbuf : Spec (Err known) (BeamInv cfg ues0 fs b rest)
          (bufferDlHarq fs st i { p with status := .waitingFeedback, timer := 0 }) :=
        spec_bufferDlHarq h hu hq hwait
      dsimp only
      split
      · exact hbuf
      · next hnot =>
        split
        · exact hbuf
        · split
          · exact hbuf
          · refine spec_reshapeDci.bind fun r _ => ?_
            cases r with
            | none => exact hbuf
            | some r =>
              change Spec _ _ (if _ then _ else _)
              split
              · exact spec_bufferDlHarq h hu hq ⟨hproc.rnti, hproc.harqProcess, hproc.rv, nofun⟩
              · exact spec_allocateDlHarq h hi hu hq hwait hrv rfl hnot

variable {n : Nat}

theorem spec_countUsedSymbols : Spec (Err known) (fun _ => True) (countUsedSymbols n allocs) := by
  unfold countUsedSymbols
  split
  · trivial
  · dsimp only
    split
    · exact err_assertion
    · trivial

theorem spec_scheduleDlBeam
    (hactive : BeamMap.Holds (fun b i => InBeam ues0 b i.1) active) (hb : b ∉ rest)
    (h : RetxInv cfg ues0 fs (b :: rest) [] st) :
    Spec (Err known) (RetxInv cfg ues0 fs rest []) (scheduleDlBeam cfg inp fs active n st b) := by
  unfold scheduleDlBeam
  split
  · exact err_outOfRange
  · next beam procs hfind =>
    have hprocs : ∀ i ∈ procs, InBeam ues0 b i.1 := by
      intro i hi
      have := hactive.elem _ (Keyed.mem_of_find? hfind) i hi
      rwa [show beam = b from key_of_find? hfind] at this
    have hloop : Spec (Err known) (BeamInv cfg ues0 fs b rest)
        (procs.foldlM (scheduleDlProcess cfg inp fs) { st with allocatedUe := [] }) :=
      Spec.foldlM_mem (fun hi hst => spec_scheduleDlProcess hst (hprocs _ hi))
        ⟨⟨h.ues, h.shape, h.retx, h.nodup, h.beam⟩, nofun⟩
    refine hloop.bind fun r hr => ?_
    have hdone : RetxInv cfg ues0 fs rest [] r := by
      refine ⟨hr.1.ues, hr.1.shape, hr.1.retx, hr.1.nodup, fun s hs => .inr fun b' hb' hin => ?_⟩
      rcases hr.1.beam s hs with hown | hall
      · exact hb ((hr.2 s hown).unique hin ▸ hb')
      · exact hall b' (mem_cons_of_mem b hb') hin
    split
    · split
      · refine spec_countUsedSymbols.bind fun used _ => ?_
        exact ⟨hdone.ues, hdone.shape, hdone.retx, hdone.nodup, hdone.beam⟩
      · exact ⟨hdone.ues, hdone.shape, hdone.retx, hdone.nodup, hdone.beam⟩
    · exact hdone

theorem spec_scheduleDlHarq {rrBeams : List BeamId} (h : UesOk cfg ues) (hrr : rrBeams.Nodup)
    (hactive : BeamMap.Holds (fun b i => InBeam ues b i.1) active)
    (hallocs : dataRntis allocs = []) :
    Spec (Err known) (fun r => RetxInv cfg ues fs [] [] r.1 ∧ r.2.1.Nodup)
      (scheduleDlHarq cfg inp rrBeams n active ues [] fs allocs) := by
  have hnd : ((inp.order.app active).map Prod.fst).Nodup :=
    ((inp.order.perm active).map Prod.fst).nodup_iff.2 hactive.nodup
  refine (spec_getBeamOrderRR hrr hnd).bind fun r hr => ?_
  obtain ⟨hrr', hbeams, -⟩ := hr
  have hinit : RetxInv cfg ues fs r.2 []
      ⟨ues, [], allocs, n, cfg.dlCtrlSymbols, cfg.dlBitmask, []⟩ :=
    ⟨h, rfl, nofun, by simp [hallocs], by simp [hallocs]⟩
  have hloop : Spec (Err known) (fun st => RetxInv cfg ues fs [] [] st ∧ ([] : List BeamId).Nodup)
      (r.2.foldlM (scheduleDlBeam cfg inp fs active cfg.dlCtrlSymbols)
        ⟨ues, [], allocs, n, cfg.dlCtrlSymbols, cfg.dlBitmask, []⟩) := by
    refine Spec.foldlM (P := fun beams st => RetxInv cfg ues fs beams [] st ∧ beams.Nodup)
      (fun {b beams st} hst => ?_) ⟨hinit, hbeams⟩
    obtain ⟨hb, hnd⟩ := nodup_cons.1 hst.2
    exact (spec_scheduleDlBeam hactive hb hst.1).imp fun st' hst' => ⟨hst', hnd⟩
  refine hloop.bind fun st hst => ?_
  refine spec_countUsedSymbols.bind fun used _ => ?_
  exact ⟨hst.1, hrr'⟩

end Retx

/-! ## Retransmissions in the UL -/

/-- The invariant of `ScheduleUlHarq`. -/
structure UlRetxInv (cfg : SchedConfig) (ues0 : List UeInfo) (fs : List HarqInfo)
    (st : UlHarqState) : Prop where
  ues : UesOk cfg st.ues
  shape : SameShape ues0 st.ues
  retx : ∀ f ∈ st.toRetransmit, f ∈ fs

theorem spec_scheduleUlHarq {st : UlHarqState} {todo : List HarqInfo}
    (hk : known → ∀ f ∈ fs, f.rnti ∈ ues0.map UeInfo.rnti) (hsub : ∀ f ∈ todo, f ∈ fs)
    (h : UlRetxInv cfg ues0 fs st) :
    Spec (Err known) (UlRetxInv cfg ues0 fs) (scheduleUlHarq st todo) := by
  induction todo generalizing st with
  | nil => exact h
  | cons f todo ih =>
    obtain ⟨hf, hsub⟩ := forall_mem_cons.1 hsub
    rw [scheduleUlHarq]
    split
    · exact h
    split
    · exact err_assertion
    have hkey : known → f.rnti ∈ st.ues.map UeInfo.rnti := by
      rw [h.shape.samePlace.keys]
      exact fun hkn => hk hkn f hf
    refine (spec_findProcess hkey).bind fun q hq => ?_
    obtain ⟨u, hu, hq⟩ := hq
    cases q with
    | none => exact err_assertion
    | some p =>
      have hproc := h.ues.proc hu hq
      change Spec _ _ (if _ then _ else _)
      split
      · exact err_assertion
      · next hstatus =>
        have hrv := hproc.nack (by simpa using hstatus)
        dsimp only
        split
        · refine ih hsub ⟨h.ues.setProcess hu hq ?_, sameShape_setProcess.trans h.shape, h.retx⟩
          exact ⟨hproc.rnti, rfl, hrv, nofun⟩
        · refine ih hsub ⟨h.ues.setProcess hu hq ?_, sameShape_setProcess.trans h.shape, ?_⟩
          · exact ⟨hproc.rnti, hproc.harqProcess, hproc.rv, nofun⟩
          · intro g hg
            rcases mem_append.1 hg with hg | hg
            · exact h.retx g hg
            · exact mem_singleton.1 hg ▸ hf

/-! ## The triggers -/

/-- The states that are reached. -/
structure SchedOk (cfg : SchedConfig) (s : Sched) : Prop where
  ues : UesOk cfg s.ueMap
  beams : s.rrBeams.Nodup

/-- What a trigger leaves: the UEs in their beams, and in the lists only what was there or was
received. -/
structure Triggered (cfg : SchedConfig) (s : Sched) (dlNew ulNew : List HarqInfo) (t : Sched) :
    Prop where
  ok : SchedOk cfg t
  place : SamePlace s.ueMap t.ueMap
  sr : ∀ r ∈ t.srList, r ∈ s.srList
  dl : ∀ f ∈ t.dlHarqToRetransmit, f ∈ s.dlHarqToRetransmit ++ dlNew
  ul : ∀ f ∈ t.ulHarqToRetransmit, f ∈ s.ulHarqToRetransmit ++ ulNew

variable {s : Sched}

theorem excluded_spec (h : UesOk cfg ues) (d : DciFormat) (buffered : Nat → Nat) (order : Shuffle)
    (allocs : List VarTtiAllocInfo) :
    Room d ((BeamMap.entries (excludeAllocated allocs (computeActiveUe d buffered order ues))).map
        Prod.fst) ues ∧
      ∀ a ∈ allocs, a.dci.rnti ∉ (BeamMap.entries
        (excludeAllocated allocs (computeActiveUe d buffered order ues))).map Prod.fst := by
  have hnd := nodup_computeActiveUe h d buffered order
  obtain ⟨hsub, hout⟩ :=
    excludeAllocated_spec allocs (nonempty_computeActiveUe d buffered order ues) hnd
  refine ⟨⟨hnd.sublist (hsub.map Prod.fst), fun r hr => ?_⟩, hout⟩
  obtain ⟨x, hx, rfl⟩ := mem_map.1 hr
  exact room_computeActiveUe h order (hsub.mem hx)

theorem dataRntis_prependCtrlSym : dataRntis (prependCtrlSym cfg) = [] := by
  simp [dataRntis, prependCtrlSym, ctrlDci, filter_eq_nil_iff]

theorem dataRntis_appendCtrlSym : dataRntis (appendCtrlSym cfg allocs) = dataRntis allocs := by
  rw [appendCtrlSym, dataRntis_append]
  simp [dataRntis, ctrlDci, filter_eq_nil_iff]

theorem spec_doScheduleDlHarq (h : SchedOk cfg s) (hdl : s.dlHarqToRetransmit = [])
    (hactive : BeamMap.Holds (fun b i => InBeam s.ueMap b i.1) active)
    (hallocs : dataRntis allocs = []) :
    Spec (Err known)
      (fun r => SchedOk cfg r.1 ∧ SameShape s.ueMap r.1.ueMap ∧ r.1.srList = s.srList ∧
        (∀ f ∈ r.1.dlHarqToRetransmit, f ∈ fs) ∧
        r.1.ulHarqToRetransmit = s.ulHarqToRetransmit ∧ (dataRntis r.2.1).Nodup)
      (doScheduleDlHarq cfg s inp fs active allocs n) := by
  unfold doScheduleDlHarq
  split
  · exact ⟨h, rfl, rfl, by simp [hdl], rfl, by simp [hallocs]⟩
  · rw [hdl]
    refine (spec_scheduleDlHarq h.ues h.beams hactive hallocs).bind fun r hr => ?_
    obtain ⟨hretx, hrr⟩ := hr
    change Spec _ _ (if _ then _ else _)
    split
    · exact ⟨⟨hretx.ues, hrr⟩, hretx.shape, rfl, hretx.retx, rfl, hretx.nodup⟩
    · exact err_assertion

theorem spec_scheduleDl (h : SchedOk cfg s) (hdl : s.dlHarqToRetransmit = [])
    (hk : known → ∀ f ∈ fs, f.rnti ∈ s.ueMap.map UeInfo.rnti) :
    Spec (Err known)
      (fun r => Triggered cfg s fs [] r.1 ∧ (dataRntis r.2).Nodup) (scheduleDl cfg s inp fs) := by
  rw [scheduleDl]
  refine (spec_computeActiveDlHarq hk).bind fun active hactive => ?_
  have hallocs : dataRntis (if inp.slotType = .s then appendCtrlSym cfg (prependCtrlSym cfg)
      else prependCtrlSym cfg) = [] := by
    split
    · rw [dataRntis_appendCtrlSym, dataRntis_prependCtrlSym]
    · exact dataRntis_prependCtrlSym
  refine (spec_doScheduleDlHarq h hdl hactive hallocs).bind fun r hr => ?_
  obtain ⟨hok, hshape, hsr, hretx, hul, hnd⟩ := hr
  have hdone : Triggered cfg s fs [] r.1 :=
    ⟨hok, hshape.samePlace, by simp [hsr], by simpa [hdl] using hretx, by simp [hul]⟩
  change Spec _ _ (doScheduleDlNew cfg r.1 inp _ r.2.1 r.2.2)
  unfold doScheduleDlNew
  split
  · obtain ⟨hroom, hout⟩ := excluded_spec h.ues .dl inp.buffered inp.order r.2.1
    have hroom := hroom.sameShape hshape
    refine (spec_doScheduleDlData hok.ues hroom ?_).bind fun q hq => ?_
    · refine nodup_append'.2 ⟨hnd, hroom.1, fun r hr hr' => ?_⟩
      obtain ⟨a, ha, rfl⟩ := mem_of_mem_dataRntis hr
      exact hout a ha hr'
    · change Spec _ _ (if _ then _ else _)
      split
      · refine ⟨⟨⟨hq.ues, hok.beams⟩, hq.place.trans hdone.place, hdone.sr, hdone.dl, hdone.ul⟩, ?_⟩
        simpa using hq.nodup
      · exact err_assertion
  · exact ⟨hdone, hnd⟩

theorem known_append {l l' : List HarqInfo} {keys keys' : List Nat} (heq : keys' = keys)
    (hl : known → ∀ f ∈ l, f.rnti ∈ keys) (hl' : known → ∀ f ∈ l', f.rnti ∈ keys) :
    known → ∀ f ∈ l ++ l', f.rnti ∈ keys' := by
  intro h f hf
  rw [heq]
  rcases mem_append.1 hf with hf | hf
  · exact hl h f hf
  · exact hl' h f hf

theorem spec_dlTrigger (h : SchedOk cfg s)
    (hk : known → ∀ f ∈ s.dlHarqToRetransmit, f.rnti ∈ s.ueMap.map UeInfo.rnti)
    (hk' : known → ∀ f ∈ inp.harqInfoList, f.rnti ∈ s.ueMap.map UeInfo.rnti) :
    Spec (FeedbackErr known)
      (fun r => Triggered cfg s inp.harqInfoList [] r.1 ∧ (dataRntis r.2).Nodup)
      (doSchedDlTriggerReq cfg s inp) := by
  rw [doSchedDlTriggerReq]
  refine ((spec_resetExpired h.ues).mono nofun fun _ => id).bind fun ues hues => ?_
  have hmerged := known_append hues.2.keys hk hk'
  refine ((spec_filterDlFeedback hmerged []).mono (fun _ => .inl) fun _ => id).bind
    fun kept hkept => ?_
  refine (spec_processHARQFeedbacks hues.1 fun hkn f hf => hmerged hkn f (hkept f hf)).bind
    fun r hr => ?_
  obtain ⟨hok, hplace, hrest⟩ := hr
  have hrestKnown : known → ∀ f ∈ r.2, f.rnti ∈ r.1.map UeInfo.rnti := by
    rw [hplace.keys]
    exact fun hkn f hf => hmerged hkn f (hkept f (hrest f hf))
  refine (spec_scheduleDl (s := { s with ueMap := r.1, dlHarqToRetransmit := [] })
    ⟨hok, h.beams⟩ rfl hrestKnown).mono (fun _ => .inl) fun q hq => ?_
  refine ⟨⟨hq.1.ok, hq.1.place.trans (hplace.trans hues.2), hq.1.sr, fun f hf => ?_, hq.1.ul⟩, hq.2⟩
  exact hkept f (hrest f (by simpa using hq.1.dl f hf))

variable {st : UlState}

theorem spec_scheduleSrsSlot {inp : UlTrigger} :
    Spec (Err known) (fun r => r.sched = st.sched) (scheduleSrsSlot cfg inp st) := by
  unfold scheduleSrsSlot
  split
  · split
    · rfl
    · exact err_assertion
  · rfl

theorem sched_scheduleRachList (cfg : SchedConfig) (inp : UlTrigger) (st : UlState) :
    (scheduleRachList cfg inp st).sched = st.sched ∨
      (scheduleRachList cfg inp st).sched = { st.sched with rachList := [] } := by
  unfold scheduleRachList
  split
  · exact .inr rfl
  · exact .inl rfl

section
variable (h : Triggered cfg s [] fs st.sched)
include h

theorem spec_doScheduleUlHarq (hul : st.sched.ulHarqToRetransmit = [])
    (hk : known → ∀ f ∈ fs, f.rnti ∈ s.ueMap.map UeInfo.rnti) :
    Spec (Err known) (fun r => Triggered cfg s [] fs r.sched) (doScheduleUlHarq st fs active) := by
  unfold doScheduleUlHarq
  split
  · exact h
  · rw [← h.place.keys] at hk
    have hinit : UlRetxInv cfg st.sched.ueMap fs ⟨st.sched.ueMap, st.sched.ulHarqToRetransmit,
        st.allocs, st.symAvail, st.sym, 0⟩ := ⟨h.ok.ues, rfl, by simp [hul]⟩
    refine (spec_scheduleUlHarq hk (fun _ => id) hinit).bind fun r hr => ?_
    split
    · refine ⟨⟨hr.ues, h.ok.beams⟩, hr.shape.samePlace.trans h.place, h.sr, h.dl, fun f hf => ?_⟩
      exact mem_append_right _ (hr.retx f hf)
    · exact err_assertion

theorem spec_scheduleSrList (hk : known → ∀ r ∈ s.srList, r ∈ s.ueMap.map UeInfo.rnti) :
    Spec (Err known) (fun r => Triggered cfg s [] fs r.sched) (scheduleSrList st) := by
  have hloop : ∀ l : List Nat, (known → ∀ r ∈ l, r ∈ st.sched.ueMap.map UeInfo.rnti) →
      Spec (Err known) (fun _ => True) (doScheduleUlSr st.sched.ueMap l) := by
    intro l hl
    induction l with
    | nil => trivial
    | cons r l ih =>
      refine Spec.bind (Q := fun _ => True) ?_ fun _ _ => ?_
      · exact (spec_findUe fun hkn => hl hkn r mem_cons_self).bind fun _ _ => trivial
      · exact ih fun hkn r' hr' => hl hkn r' (mem_cons_of_mem r hr')
  unfold scheduleSrList
  split
  · refine (hloop _ fun hkn r hr => ?_).bind fun _ _ => ?_
    · rw [h.place.keys]
      exact hk hkn r (h.sr r hr)
    · exact ⟨⟨h.ok.ues, h.ok.beams⟩, h.place, nofun, h.dl, h.ul⟩
  · exact h

theorem spec_doScheduleUlNew {inp : UlTrigger} :
    Spec (Err known) (fun r => Triggered cfg s [] fs r.1) (doScheduleUlNew inp st) := by
  unfold doScheduleUlNew
  dsimp only
  split
  · obtain ⟨hroom, -⟩ := excluded_spec h.ok.ues .ul inp.buffered inp.order st.allocs
    refine (spec_doScheduleUlData h.ok.ues hroom).bind fun r hr => ?_
    exact ⟨⟨hr.ues, h.ok.beams⟩, hr.place.trans h.place, h.sr, h.dl, h.ul⟩
  · exact h

end

theorem spec_scheduleUl {inp : UlTrigger} (h : SchedOk cfg s) (hul : s.ulHarqToRetransmit = [])
    (hk : known → ∀ f ∈ fs, f.rnti ∈ s.ueMap.map UeInfo.rnti)
    (hsr : known → ∀ r ∈ s.srList, r ∈ s.ueMap.map UeInfo.rnti) :
    Spec (Err known) (fun r => Triggered cfg s [] fs r.1) (scheduleUl cfg s inp fs) := by
  unfold scheduleUl
  split
  · rw [doScheduleUl]
    refine (spec_computeActiveUlHarq hk).bind fun active _ => ?_
    refine spec_scheduleSrsSlot.bind fun st hst => ?_
    have hrach : Triggered cfg s [] fs (scheduleRachList cfg inp st).sched ∧
        (scheduleRachList cfg inp st).sched.ulHarqToRetransmit = [] := by
      rcases sched_scheduleRachList cfg inp st with heq | heq
      · rw [heq, hst]
        exact ⟨⟨h, rfl, fun _ => id, by simp, by simp [hul]⟩, hul⟩
      · rw [heq, hst]
        exact ⟨⟨⟨h.ues, h.beams⟩, rfl, fun _ => id, by simp, by simp [hul]⟩, hul⟩
    refine (spec_doScheduleUlHarq hrach.1 hrach.2 hk).bind fun st hst => ?_
    refine (spec_scheduleSrList hst hsr).bind fun st hst => ?_
    exact spec_doScheduleUlNew hst
  · exact err_assertion

theorem spec_ulTrigger {inp : UlTrigger} (h : SchedOk cfg s)
    (hsr : known → ∀ r ∈ s.srList, r ∈ s.ueMap.map UeInfo.rnti)
    (hk : known → ∀ f ∈ s.ulHarqToRetransmit, f.rnti ∈ s.ueMap.map UeInfo.rnti)
    (hk' : known → ∀ f ∈ inp.harqInfoList, f.rnti ∈ s.ueMap.map UeInfo.rnti) :
    Spec (FeedbackErr known) (fun r => Triggered cfg s [] inp.harqInfoList r.1)
      (doSchedUlTriggerReq cfg s inp) := by
  rw [doSchedUlTriggerReq]
  refine ((spec_resetExpired h.ues).mono nofun fun _ => id).bind fun ues hues => ?_
  have hmerged := known_append hues.2.keys hk hk'
  refine ((spec_filterUlFeedback hmerged).mono (fun _ => .inl) fun _ => id).bind
    fun kept hkept => ?_
  refine (spec_processHARQFeedbacks hues.1 fun hkn f hf => hmerged hkn f (hkept f hf)).bind
    fun r hr => ?_
  obtain ⟨hok, hplace, hrest⟩ := hr
  have hkeys := hplace.keys.trans hues.2.keys
  have hrestKnown : known → ∀ f ∈ r.2, f.rnti ∈ r.1.map UeInfo.rnti := by
    rw [hplace.keys]
    exact fun hkn f hf => hmerged hkn f (hkept f (hrest f hf))
  refine (spec_scheduleUl (s := { s with ueMap := r.1, ulHarqToRetransmit := [] })
    ⟨hok, h.beams⟩ rfl hrestKnown (by rwa [hkeys])).mono (fun _ => .inl) fun q hq => ?_
  refine ⟨hq.ok, hq.place.trans (hplace.trans hues.2), hq.sr, hq.dl, fun f hf => ?_⟩
  exact hkept f (hrest f (by simpa using hq.ul f hf))

end OranNs3
