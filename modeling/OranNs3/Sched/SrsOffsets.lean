import OranNs3.Lib.Fallible
import OranNs3.Sched.HarqVector

/-!
# The SRS offsets

`NrMacSchedulerSrsDefault` hands the offsets of a periodicity to the UEs, and takes them back when a
UE is released. When a UE comes and none is left, the next standard periodicity begins: the offsets
are filled in again, and each UE, with the new one, gets one of them. The offsets of the UEs and
those that are available are always the ones below the periodicity, each once (`SrsSched.Shared`),
so the offsets are what the slots are told apart by (`srsOffsets_of_run`). A call fails for an
unknown RNTI, or where the largest periodicity is used up (`SrsSched.Shared.call`).
-/

namespace OranNs3

open Fallible Keyed List

/-- Where the SRS part of the scheduler stops. -/
inductive SrsError where
  | unknownRnti
  | offsetsGiven
  | nonStandardPeriodicity
  | noOffset
  | noPeriodicity
  deriving DecidableEq

def standardPeriodicity : List Nat :=
  [2, 4, 5, 8, 10, 16, 20, 32, 40, 64, 80, 160, 320, 640, 1280, 2560]

/-- A UE, as far as its SRS. -/
structure SrsUe where
  rnti : Nat
  srsPeriodicity : Nat
  srsOffset : Nat
  deriving DecidableEq

/-- `NrMacSchedulerSrsDefault`. -/
structure SrsDefault where
  periodicity : Nat
  availableOffsetValues : List Nat
  deriving DecidableEq

namespace SrsDefault

variable (s : SrsDefault)

/-- `AddUe`: the offset and the periodicity, where the result is valid. -/
def addUe : Option (Nat × Nat) × SrsDefault :=
  match s.availableOffsetValues.getLast? with
  | none => (none, s)
  | some offset =>
    (some (offset, s.periodicity),
      { s with availableOffsetValues := s.availableOffsetValues.dropLast })

def removeUe (offset : Nat) : SrsDefault :=
  { s with availableOffsetValues := s.availableOffsetValues ++ [offset] }

/-- `SetStartingPeriodicity`, but for the event that shuffles. -/
def setStartingPeriodicity (start : Nat) : Except SrsError SrsDefault :=
  if s.availableOffsetValues ≠ [] then .error .offsetsGiven
  else if start ∉ standardPeriodicity then .error .nonStandardPeriodicity
  else .ok ⟨start, List.range start⟩

/-- `ReassignSrsValue`, in the order in which the map is visited. -/
def reassignSrsValue : SrsDefault → List SrsUe → Except SrsError (SrsDefault × List SrsUe)
  | s, [] => .ok (s, [])
  | s, ue :: ues =>
    match s.addUe with
    | (none, _) => .error .noOffset
    | (some (offset, periodicity), s) => do
      let (s, ues) ← reassignSrsValue s ues
      .ok (s, { ue with srsPeriodicity := periodicity, srsOffset := offset } :: ues)

def increasePeriodicity (ueMap : List SrsUe) : Except SrsError (Bool × SrsDefault × List SrsUe) :=
  let s := { s with availableOffsetValues := [] }
  -- `upper_bound`
  match standardPeriodicity.find? (s.periodicity < ·) with
  | none => .ok (false, s, ueMap)
  | some periodicity => do
    let s ← s.setStartingPeriodicity periodicity
    let (s, ueMap) ← s.reassignSrsValue ueMap
    .ok (true, s, ueMap)

def isMaxSrsReached : Bool := s.periodicity = 2560 ∧ s.availableOffsetValues = []

end SrsDefault

/-- The scheduler, as far as its SRS. -/
structure SrsSched where
  ueMap : List SrsUe
  srs : SrsDefault
  deriving DecidableEq

/-- The calls, and the event that shuffles. The map is a hash table, which an insertion may put in
another order. -/
inductive SrsCall
  | ueConfig (rnti : Nat) (order : Shuffle)
  | ueRelease (rnti : Nat)
  | shuffleOffsets (order : Shuffle)

namespace SrsSched

variable (s : SrsSched)

def doCschedUeConfigReq (rnti : Nat) (order : Shuffle) : Except SrsError SrsSched :=
  match Keyed.find? SrsUe.rnti rnti s.ueMap with
  | some _ => .ok s
  | none =>
    let ueMap := order.app (⟨rnti, 0, 0⟩ :: s.ueMap)
    match s.srs.addUe with
    | (none, srs) => do
      let (ret, srs, ueMap) ← srs.increasePeriodicity ueMap
      if ret then .ok ⟨ueMap, srs⟩ else .error .noPeriodicity
    | (some (offset, periodicity), srs) =>
      .ok ⟨Keyed.modify SrsUe.rnti rnti (fun ue =>
        { ue with srsPeriodicity := periodicity, srsOffset := offset }) ueMap, srs⟩

def doCschedUeReleaseReq (rnti : Nat) : Except SrsError SrsSched :=
  match Keyed.find? SrsUe.rnti rnti s.ueMap with
  | none => .error .unknownRnti
  | some ue => .ok ⟨Keyed.erase SrsUe.rnti rnti s.ueMap, s.srs.removeUe ue.srsOffset⟩

def shuffleOffsets (order : Shuffle) : SrsSched :=
  { s with srs := { s.srs with availableOffsetValues := order.app s.srs.availableOffsetValues } }

/-- One call. -/
def call : SrsCall → Except SrsError SrsSched
  | .ueConfig rnti order => s.doCschedUeConfigReq rnti order
  | .ueRelease rnti => s.doCschedUeReleaseReq rnti
  | .shuffleOffsets order => .ok (s.shuffleOffsets order)

/-- A call that returns. -/
def Step (c : SrsCall) (t : SrsSched) : Prop := s.call c = .ok t

end SrsSched

/-- The offsets of the UEs. -/
def srsOffsets (ues : List SrsUe) : List Nat := ues.map SrsUe.srsOffset

/-- The offsets of the UEs are different ones below the periodicity, those that no UE has are
available, and all UEs have the periodicity. -/
structure SrsOffsets (s : SrsSched) : Prop where
  nodup : (srsOffsets s.ueMap).Nodup
  lt : ∀ ue ∈ s.ueMap, ue.srsOffset < s.srs.periodicity
  disjoint : ∀ ue ∈ s.ueMap, ue.srsOffset ∉ s.srs.availableOffsetValues
  union : ∀ o, o < s.srs.periodicity ↔ o ∈ srsOffsets s.ueMap ∨ o ∈ s.srs.availableOffsetValues
  periodicity : ∀ ue ∈ s.ueMap, ue.srsPeriodicity = s.srs.periodicity

/-- Each offset below the periodicity is with one UE or available. -/
structure SrsSched.Shared (s : SrsSched) : Prop where
  rntis : (s.ueMap.map SrsUe.rnti).Nodup
  offsets : (srsOffsets s.ueMap ++ s.srs.availableOffsetValues).Perm (List.range s.srs.periodicity)
  periodicity : ∀ ue ∈ s.ueMap, ue.srsPeriodicity = s.srs.periodicity
  standard : s.srs.periodicity ∈ standardPeriodicity

variable {s t : SrsSched} {p q : SrsDefault} {ues ues' : List SrsUe} {rnti : Nat} {order : Shuffle}

theorem SrsSched.Shared.sound (h : s.Shared) : SrsOffsets s := by
  have hnodup := h.offsets.nodup_iff.2 nodup_range
  have hmem : ∀ o, o < s.srs.periodicity ↔ o ∈ srsOffsets s.ueMap ∨
    o ∈ s.srs.availableOffsetValues := by
    intro o
    rw [← mem_range, ← h.offsets.mem_iff, mem_append]
  refine ⟨(nodup_append.1 hnodup).1, ?_, ?_, hmem, h.periodicity⟩
  · intro ue hue
    exact (hmem _).2 (.inl (mem_map_of_mem hue))
  · intro ue hue
    exact disjoint_of_nodup_append hnodup (mem_map_of_mem hue)

/-! ## What the calls keep -/

theorem addUe_cases (p : SrsDefault) : p.availableOffsetValues = [] ∧ p.addUe = (none, p) ∨
    ∃ l o, p.availableOffsetValues = l ++ [o] ∧
      p.addUe = (some (o, p.periodicity), ⟨p.periodicity, l⟩) := by
  obtain ⟨periodicity, l⟩ := p
  rcases eq_nil_or_concat l with rfl | ⟨l, o, rfl⟩
  · exact .inl ⟨rfl, rfl⟩
  · exact .inr ⟨l, o, concat_eq_append, by simp [SrsDefault.addUe]⟩

theorem spec_reassignSrsValue (hlen : ues.length ≤ p.availableOffsetValues.length) :
    Spec (fun _ => False) (fun r => r.1.periodicity = p.periodicity ∧
      r.2.map SrsUe.rnti = ues.map SrsUe.rnti ∧
        (srsOffsets r.2 ++ r.1.availableOffsetValues).Perm p.availableOffsetValues ∧
      ∀ ue ∈ r.2, ue.srsPeriodicity = p.periodicity) (p.reassignSrsValue ues) := by
  induction ues generalizing p with
  | nil => exact ⟨rfl, rfl, .rfl, forall_mem_nil _⟩
  | cons ue ues ih =>
    rcases addUe_cases p with ⟨hnil, -⟩ | ⟨l, o, hl, hadd⟩
    · rw [hnil] at hlen
      exact absurd hlen (by simp)
    · rw [SrsDefault.reassignSrsValue, hadd]
      have hlen' : ues.length ≤ l.length := by
        rw [hl] at hlen
        simpa using hlen
      refine (ih (p := ⟨p.periodicity, l⟩) hlen').bind fun r hr => ?_
      obtain ⟨hper, hrntis, hperm, hues⟩ := hr
      refine ⟨hper, congrArg (ue.rnti :: ·) hrntis, ?_, forall_mem_cons.2 ⟨rfl, hues⟩⟩
      rw [hl]
      exact ((hperm.cons o).trans (perm_append_singleton o l).symm)

theorem spec_increasePeriodicity (hp : p.periodicity ∈ standardPeriodicity)
    (hlen : ues.length ≤ p.periodicity + 1) : Spec (fun _ => False) (fun r => if r.1 then
        r.2.2.map SrsUe.rnti = ues.map SrsUe.rnti ∧ r.2.1.periodicity ∈ standardPeriodicity ∧
        (srsOffsets r.2.2 ++ r.2.1.availableOffsetValues).Perm (List.range r.2.1.periodicity) ∧
        ∀ ue ∈ r.2.2, ue.srsPeriodicity = r.2.1.periodicity
      else p.periodicity = 2560) (p.increasePeriodicity ues) := by
  unfold SrsDefault.increasePeriodicity
  dsimp only
  cases hfind : standardPeriodicity.find? (p.periodicity < ·) with
  | none =>
    have hlast : ∀ n ∈ standardPeriodicity, standardPeriodicity.find? (n < ·) = none →
      n = 2560 := by decide
    exact hlast _ hp hfind
  | some next =>
    have hlt : p.periodicity < next := by simpa using find?_some hfind
    have hmem := mem_of_find?_eq_some hfind
    have hset : SrsDefault.setStartingPeriodicity ⟨p.periodicity, []⟩ next = .ok ⟨next,
      List.range next⟩ := by
      rw [SrsDefault.setStartingPeriodicity, if_neg (by simp), if_neg (not_not.2 hmem)]
    dsimp only
    rw [hset, ok_bind]
    have henough : ues.length ≤ (List.range next).length := by
      rw [length_range]
      omega
    have hreassign := spec_reassignSrsValue (p := ⟨next, List.range next⟩) henough
    refine hreassign.bind fun r hr => ?_
    obtain ⟨hper, hrntis, hperm, hues⟩ := hr
    refine ⟨hrntis, hper ▸ hmem, ?_, ?_⟩
    · rw [hper]
      exact hperm
    · rw [hper]
      exact hues

/-- A new UE. -/
theorem SrsSched.Shared.ueConfig (h : s.Shared) :
    Spec (fun e => e = .noPeriodicity ∧ s.srs.isMaxSrsReached) SrsSched.Shared
    (s.doCschedUeConfigReq rnti order) := by
  unfold SrsSched.doCschedUeConfigReq
  cases hfind : Keyed.find? SrsUe.rnti rnti s.ueMap with
  | some ue => exact h
  | none =>
    have hnew := Keyed.find?_eq_none.1 hfind
    have hperm := order.perm (⟨rnti, 0, 0⟩ :: s.ueMap)
    have hrntis : ((order.app (⟨rnti, 0, 0⟩ :: s.ueMap)).map SrsUe.rnti).Nodup :=
      (hperm.map SrsUe.rnti).nodup_iff.2 (List.nodup_cons.2 ⟨hnew, h.rntis⟩)
    rcases addUe_cases s.srs with ⟨hnil, hadd⟩ | ⟨l, o, hl, hadd⟩
    · -- no offset is left: as many UEs as the periodicity has offsets, and the new one
      have hlen : (order.app (⟨rnti, 0, 0⟩ :: s.ueMap)).length ≤ s.srs.periodicity + 1 := by
        have hoffsets := h.offsets.length_eq
        rw [hnil, List.append_nil, srsOffsets, List.length_map, List.length_range] at hoffsets
        rw [hperm.length_eq, List.length_cons, hoffsets]
      simp only [hadd]
      refine ((spec_increasePeriodicity h.standard hlen).mono (fun _ he => he.elim)
        fun _ => id).bind fun r hr => ?_
      split
      · next hret =>
        rw [if_pos hret] at hr
        obtain ⟨hr, hstandard, hoffsets, hper⟩ := hr
        exact ⟨hr ▸ hrntis, hoffsets, hper, hstandard⟩
      · next hret =>
        rw [if_neg hret] at hr
        exact ⟨rfl, by simp [SrsDefault.isMaxSrsReached, hr, hnil]⟩
    · simp only [hadd]
      have hmod : (Keyed.modify SrsUe.rnti rnti (fun ue =>
      { ue with srsPeriodicity := s.srs.periodicity, srsOffset := o })
          (order.app (⟨rnti, 0, 0⟩ :: s.ueMap))).Perm (⟨rnti, s.srs.periodicity,
          o⟩ :: s.ueMap) := by
        refine (hperm.map _).trans ?_
        rw [List.map_cons, if_pos rfl]
        have hsame :=
          Keyed.modify_of_notMem (f := fun ue =>
            { ue with srsPeriodicity := s.srs.periodicity, srsOffset := o }) hnew
        rw [Keyed.modify] at hsame
        rw [hsame]
      refine ⟨(hmod.map SrsUe.rnti).nodup_iff.2 (List.nodup_cons.2 ⟨hnew, h.rntis⟩), ?_, ?_,
        h.standard⟩
      · refine ((hmod.map SrsUe.srsOffset).append_right l).trans ?_
        refine List.Perm.trans ?_ h.offsets
        rw [hl]
        exact List.perm_middle.symm.trans ((List.perm_append_singleton o l).symm.append_left _)
      · intro ue hue
        rcases List.mem_cons.1 (hmod.mem_iff.1 hue) with rfl | hue
        · rfl
        · exact h.periodicity ue hue

theorem SrsSched.Shared.ueRelease (h : s.Shared) :
    Spec (fun e => e = .unknownRnti ∧ rnti ∉ s.ueMap.map SrsUe.rnti)
    SrsSched.Shared (s.doCschedUeReleaseReq rnti) := by
  unfold SrsSched.doCschedUeReleaseReq
  cases hfind : Keyed.find? SrsUe.rnti rnti s.ueMap with
  | none => exact ⟨rfl, find?_eq_none.1 hfind⟩
  | some ue =>
    obtain rfl := key_of_find? hfind
    have hcons := perm_cons_erase (Keyed.mem_of_find? hfind)
    have hperm : s.ueMap.Perm (ue :: Keyed.erase SrsUe.rnti ue.rnti s.ueMap) :=
      hcons.trans ((erase_perm h.rntis hcons).symm.cons ue)
    refine ⟨nodup_erase h.rntis, ?_, fun v hv => h.periodicity v (mem_erase.1 hv).1, h.standard⟩
    refine Perm.trans ?_ h.offsets
    refine Perm.trans ?_ ((hperm.map SrsUe.srsOffset).symm.append_right _)
    rw [SrsDefault.removeUe, ← append_assoc]
    exact perm_append_singleton _ _

theorem SrsSched.Shared.shuffleOffsets (h : s.Shared) : (s.shuffleOffsets order).Shared where
  rntis := h.rntis
  offsets := ((order.perm _).append_left _).trans h.offsets
  periodicity := h.periodicity
  standard := h.standard

theorem SrsSched.Shared.call (h : s.Shared) (c : SrsCall) :
    Spec (fun e => e = .unknownRnti ∨ e = .noPeriodicity ∧ s.srs.isMaxSrsReached) SrsSched.Shared
      (s.call c) := by
  cases c with
  | ueConfig rnti order => exact h.ueConfig.mono (fun _ => .inr) fun _ => id
  | ueRelease rnti => exact h.ueRelease.mono (fun _ he => .inl he.1) fun _ => id
  | shuffleOffsets order => exact h.shuffleOffsets

theorem shared_start {start : Nat} (h : SrsDefault.setStartingPeriodicity ⟨0, []⟩ start = .ok p) :
    SrsSched.Shared ⟨[], p⟩ := by
  rw [SrsDefault.setStartingPeriodicity, if_neg (by simp)] at h
  split at h
  · cases h
  · next hstandard =>
    cases h
    exact ⟨nodup_nil, .rfl, forall_mem_nil _, not_not.1 hstandard⟩

/-- After every run of additions, releases and shuffles, from any starting periodicity, where a
further addition returns unless the largest periodicity is used up. -/
theorem srsOffsets_of_run {start : Nat}
    (h0 : SrsDefault.setStartingPeriodicity ⟨0, []⟩ start = .ok p)
    (h : Lts.Run SrsSched.Step Lts.anyStep ⟨[], p⟩ s) :
    SrsOffsets s ∧ ∀ rnti order, ¬ s.srs.isMaxSrsReached → ∃ t,
      SrsSched.Step s (.ueConfig rnti order) t := by
  have hshared : s.Shared := by
    refine h.invariant (I := SrsSched.Shared) (fun {s t c} hs _ hst => ?_) (shared_start h0)
    exact (hs.call c).ok hst
  refine ⟨hshared.sound, fun rnti order hmax => ?_⟩
  cases hcall : s.call (.ueConfig rnti order) with
  | ok t => exact ⟨t, hcall⟩
  | error e => exact absurd (hshared.ueConfig.error hcall).2 hmax

/-- Two UEs have the two offsets of the first periodicity, the third one gets the next periodicity,
and the first one leaves. -/
theorem srsOffsets_of_run_three : SrsOffsets ⟨[⟨3, 4, 3⟩, ⟨2, 4, 2⟩], ⟨4, [0, 1]⟩⟩ := by
  have h1 : SrsSched.Step ⟨[], ⟨2, [0, 1]⟩⟩ (.ueConfig 1 .id) ⟨[⟨1, 2, 1⟩], ⟨2, [0]⟩⟩ := rfl
  have h2 : SrsSched.Step ⟨[⟨1, 2, 1⟩], ⟨2, [0]⟩⟩ (.ueConfig 2 .id) ⟨[⟨2, 2, 0⟩, ⟨1, 2, 1⟩],
    ⟨2, []⟩⟩ := rfl
  have h3 : SrsSched.Step ⟨[⟨2, 2, 0⟩, ⟨1, 2, 1⟩], ⟨2, []⟩⟩ (.ueConfig 3 .id)
      ⟨[⟨3, 4, 3⟩, ⟨2, 4, 2⟩, ⟨1, 4, 1⟩], ⟨4, [0]⟩⟩ := rfl
  have h4 : SrsSched.Step ⟨[⟨3, 4, 3⟩, ⟨2, 4, 2⟩, ⟨1, 4, 1⟩], ⟨4, [0]⟩⟩ (.ueRelease 1)
      ⟨[⟨3, 4, 3⟩, ⟨2, 4, 2⟩], ⟨4, [0, 1]⟩⟩ := rfl
  exact (srsOffsets_of_run (show SrsDefault.setStartingPeriodicity ⟨0, []⟩ 2 = _ from rfl)
    (((((Lts.Run.refl _).snoc trivial h1).snoc trivial h2).snoc trivial h3).snoc trivial h4)).1

end OranNs3
