import Mathlib.Data.Finset.Lattice.Fold
import OranNs3.Sched.UlTarget

/-!
# The DCIs of the UL with notched RBGs

`CreateUlDci` of `NrMacSchedulerOfdma` (`nr-mac-scheduler-ofdma.cc`) for the RBGs that `AssignULRBG`
gives to a UE. These are RBGs that the mask of the UL allows (`Within`), but the bitmask of a DCI is
made by a function for both directions, which checks them against the mask of the DL. So all goes
well in every run if and only if the latter allows them too (`createUlDci_safe_iff`).
-/

namespace OranNs3.Ofdma

open Fallible List
open Function (update)

/-- What is checked, the division by the number of symbols included. -/
inductive UlDciError
  | sizes
  | outOfRange
  | notched
  | divisionByZero
  | startingPoint
  | noRbg
deriving DecidableEq

/-- The masks that a scheduler is configured with. An empty one allows all RBGs. -/
structure NotchedMasks where
  bandwidthInRbg : Nat
  dlNotchedRbgMask : List Bool
  ulNotchedRbgMask : List Bool
  bandwidth : bandwidthInRbg < 2 ^ 16
  ulSize : ulNotchedRbgMask.length < 2 ^ 16

namespace NotchedMasks

variable (m : NotchedMasks)

/-- The mask of the DL, or all RBGs. -/
def dlBitmask : List Bool :=
  if m.dlNotchedRbgMask = [] then List.replicate m.bandwidthInRbg true else m.dlNotchedRbgMask

/-- `GetUlBitmask`. -/
def ulBitmask : RbgMask where
  bits := if m.ulNotchedRbgMask = [] then List.replicate m.bandwidthInRbg true
    else m.ulNotchedRbgMask
  size := by
    split
    · rw [List.length_replicate]
      exact m.bandwidth
    · exact m.ulSize

/-- One RBG is set in the bitmask. -/
def markRbg (rbgBitmask : List Bool) (rbg : Nat) : Except UlDciError (List Bool) :=
  match m.dlBitmask[rbg]? with
  | none => .error .outOfRange
  | some false => .error .notched
  | some true => if rbg < rbgBitmask.length then .ok (rbgBitmask.set rbg true)
      else .error .outOfRange

/-- `CreateRbgBitmaskFromAllocatedRbgs`. -/
def createRbgBitmask (allocatedRbgs : List Nat) : Except UlDciError (List Bool) :=
  if m.dlBitmask.length = m.bandwidthInRbg then allocatedRbgs.foldlM m.markRbg
    (List.replicate m.bandwidthInRbg false)
  else .error .sizes

/-- The round robin with these masks. -/
def ulConfig (numRbPerRbg : Nat) (calculateTbSize : Nat → Nat → Nat → Nat)
    (symPerBeam : Nat → ActiveUeMap → UlTable → BeamSymbolMap) : RoundRobin :=
  ⟨m.ulBitmask, numRbPerRbg, calculateTbSize, symPerBeam⟩

/-- `CreateUlDci`, which makes none where the block is too small. -/
def createUlDci (numRbPerRbg : Nat) (calculateTbSize : Nat → Nat → Nat → Nat) (spointSym rnti : Nat)
    (ue : UlUe) (maxSym : Nat) : Except UlDciError (Option Dci) :=
  let tbs := calculateTbSize ue.ulMcs ue.ulRank (ue.ulRBG.length * numRbPerRbg)
  if tbs < 12 then .ok none
  else if maxSym = 0 then .error .divisionByZero
  else do
    let rbgBitmask ← m.createRbgBitmask ue.ulRBG
    if spointSym < maxSym then .error .startingPoint
    else if rbgBitmask.count false = m.bandwidthInRbg then .error .noRbg
    else .ok (some {
      rnti
      format := .ul
      symStart := spointSym - maxSym
      numSym := maxSym % 256
      mcs := ue.ulMcs
      rank := ue.ulRank
      tbSize := tbs
      ndi := 1
      rv := 0
      type := .data
      harqProcess := 0
      rbgBitmask })

/-- `DoScheduleUlData` creates a DCI for a UE that has RBGs, in a beam with symbols. -/
def Scheduled (active : ActiveUeMap) (r : UlTable × BeamSymbolMap) (rnti maxSym : Nat) : Prop :=
  ∃ e ∈ active.beams, rnti ∈ e.2.map Prod.fst ∧ maxSym = symOf r.2 e.1 ∧ maxSym ≠ 0 ∧
    (r.1 rnti).ulRBG ≠ []

/-- No check fails, and a DCI has RBGs of the UL only. -/
def UlDciSafe (x : Except UlDciError (Option Dci)) : Prop :=
  ∃ dci, x = .ok dci ∧ ∀ d ∈ dci, ∀ rbg, d.rbgBitmask[rbg]? = some true → rbg ∈ m.ulBitmask.rbgs

/-- The helper of both directions accepts an RBG. -/
def Allowed (rbg : Nat) : Prop :=
  m.dlBitmask.length = m.bandwidthInRbg ∧ m.dlBitmask[rbg]? = some true
deriving Decidable

/-! ## The bitmask -/

variable {m} {rbgs : List Nat} {bits : List Bool} {rbg : Nat}

theorem markRbg_ok (h : m.dlBitmask[rbg]? = some true) (hlt : rbg < bits.length) :
    m.markRbg bits rbg = .ok (bits.set rbg true) := by
  rw [markRbg, h]
  exact if_pos hlt

theorem markRbg_allowed {bits' : List Bool} (h : m.markRbg bits rbg = .ok bits') :
    m.dlBitmask[rbg]? = some true := by
  unfold markRbg at h
  split at h
  · cases h
  · cases h
  · assumption

theorem foldlM_markRbg_ok (h : ∀ rbg ∈ rbgs, m.dlBitmask[rbg]? = some true ∧ rbg < bits.length) :
    ∃ out, rbgs.foldlM m.markRbg bits = .ok out ∧ out.length = bits.length ∧
      ∀ i, out[i]? = some true ↔ bits[i]? = some true ∨ i ∈ rbgs := by
  induction rbgs generalizing bits with
  | nil => exact ⟨bits, rfl, rfl, by simp⟩
  | cons rbg rbgs ih =>
    obtain ⟨⟨hrbg, hlt⟩, hrbgs⟩ := forall_mem_cons.1 h
    have hset : ∀ r ∈ rbgs, m.dlBitmask[r]? = some true ∧ r < (bits.set rbg true).length :=
      fun r hr => by
      rw [length_set]
      exact hrbgs r hr
    obtain ⟨out, hout, hlen, hset⟩ := ih hset
    rw [length_set] at hlen
    refine ⟨out, ?_, hlen, fun i => ?_⟩
    · rw [foldlM_cons, markRbg_ok hrbg hlt]
      exact hout
    · rw [hset, getElem?_set]
      rcases eq_or_ne rbg i with rfl | hne
      · simp [hlt]
      · simp [hne, hne.symm]

theorem foldlM_markRbg_allowed {out : List Bool} (h : rbgs.foldlM m.markRbg bits = .ok out) :
    ∀ rbg ∈ rbgs, m.dlBitmask[rbg]? = some true := by
  induction rbgs generalizing bits with
  | nil => exact fun _ h => absurd h not_mem_nil
  | cons rbg rbgs ih =>
    rw [foldlM_cons] at h
    obtain ⟨bits', hbits, hrest⟩ := Lts.ok_of_bind h
    exact forall_mem_cons.2 ⟨markRbg_allowed hbits, ih hrest⟩

theorem createRbgBitmask_ok (h : ∀ rbg ∈ rbgs, m.Allowed rbg) (hne : rbgs ≠ []) :
    ∃ out, m.createRbgBitmask rbgs = .ok out ∧ out.length = m.bandwidthInRbg ∧ ∀ i,
      out[i]? = some true ↔ i ∈ rbgs := by
  obtain ⟨rbg, hrbg⟩ := exists_mem_of_ne_nil rbgs hne
  have hmask : ∀ r ∈ rbgs, m.dlBitmask[r]? = some true ∧
    r < (replicate m.bandwidthInRbg false).length := fun r hr => by
    obtain ⟨hsize, hr⟩ := h r hr
    rw [length_replicate, ← hsize]
    exact ⟨hr, (List.getElem?_eq_some_iff.1 hr).1⟩
  obtain ⟨out, hout, hlen, hset⟩ := foldlM_markRbg_ok hmask
  rw [length_replicate] at hlen
  refine ⟨out, ?_, hlen, fun i => ?_⟩
  · rw [createRbgBitmask, if_pos (h rbg hrbg).1, hout]
  · rw [hset, getElem?_replicate]
    refine or_iff_right fun h => ?_
    split at h <;> simp at h

theorem createRbgBitmask_allowed {out : List Bool} (h : m.createRbgBitmask rbgs = .ok out) :
    ∀ rbg ∈ rbgs, m.Allowed rbg := by
  unfold createRbgBitmask at h
  split at h
  next hsize => exact fun rbg hrbg => ⟨hsize, foldlM_markRbg_allowed h rbg hrbg⟩
  · cases h

/-! ## One DCI -/

variable {ue : UlUe} {numRbPerRbg spointSym maxSym rnti : Nat}
  {calculateTbSize : Nat → Nat → Nat → Nat}

theorem ulDciSafe_iff (hul : ∀ rbg ∈ ue.ulRBG, rbg ∈ m.ulBitmask.rbgs) (hne : ue.ulRBG ≠ [])
    (hmax : maxSym ≠ 0) (hsym : maxSym ≤ spointSym) :
    m.UlDciSafe (m.createUlDci numRbPerRbg calculateTbSize spointSym rnti ue maxSym) ↔
      calculateTbSize ue.ulMcs ue.ulRank (ue.ulRBG.length * numRbPerRbg) < 12 ∨ ∀ rbg ∈ ue.ulRBG,
        m.Allowed rbg := by
  rw [createUlDci]
  split
  next hsmall => exact iff_of_true ⟨none, rfl, nofun⟩ (.inl hsmall)
  next hlarge =>
    rw [or_iff_right hlarge]
    constructor
    · rintro ⟨dci, hdci, -⟩
      obtain ⟨bits, hbits, -⟩ := Lts.ok_of_bind hdci
      exact createRbgBitmask_allowed hbits
    · intro h
      obtain ⟨out, hout, hlen, hset⟩ := createRbgBitmask_ok h hne
      have hcount : out.count false ≠ m.bandwidthInRbg := by
        obtain ⟨rbg, hrbg⟩ := exists_mem_of_ne_nil _ hne
        have htrue : true ∈ out := mem_of_getElem? ((hset rbg).2 hrbg)
        intro heq
        exact Bool.noConfusion (count_eq_length.1 (heq.trans hlen.symm) true htrue)
      rw [hout, ok_bind, if_neg (Nat.not_lt.2 hsym), if_neg hcount]
      refine ⟨_, rfl, fun d hd rbg hrbg => ?_⟩
      obtain rfl := Option.some.inj hd
      exact hul rbg ((hset rbg).1 hrbg)

/-! ## The RBGs of `AssignULRBG` -/

variable {μ : Type} {cfg : UlConfig μ} {ues : UlTable} {us : List Nat} {b : Nat} {avail : List Nat}
  {s : UlBeam μ}

/-- The UEs have allowed RBGs only. -/
def Within (mask : RbgMask) (us : List Nat) (ues : UlTable) : Prop :=
  ∀ u ∈ us, ∀ rbg ∈ (ues u).ulRBG, rbg ∈ mask.rbgs

theorem Within.assign {u : Nat} (h : Within cfg.ulBitmask us s.ues)
    (hrbg : rbg ∈ cfg.ulBitmask.rbgs) (hu : u ∈ s.ueVector.map Prod.fst) (b : Nat) :
    Within cfg.ulBitmask us (s.assign cfg u rbg b).ues := by
  intro v hv r hr
  rw [UlBeam.assign_ulRBG cfg rbg b v hu] at hr
  split at hr
  next heq =>
    subst heq
    rcases mem_append.1 hr with hr | hr
    · exact h v hv r hr
    · rwa [eq_of_mem_replicate hr]
  · exact h v hv r hr

theorem Within.run (h : Within cfg.ulBitmask us s.ues)
    (havail : ∀ rbg ∈ avail, rbg ∈ cfg.ulBitmask.rbgs) :
    Within cfg.ulBitmask us (assignRbgs cfg b avail s).ues := by
  induction avail generalizing s with
  | nil => exact h
  | cons rbg avail ih =>
    obtain ⟨hrbg, havail⟩ := forall_mem_cons.1 havail
    rw [assignRbgs]
    split
    · exact h
    next u hu =>
      have hsorted : Within cfg.ulBitmask us (s.sort cfg).ues := h
      exact ih (hsorted.assign hrbg (mem_of_nextUe hu) b) havail

theorem within_assignULRBG {symAvail : Nat} {active : ActiveUeMap} {metrics : μ}
    {r : UlTable × BeamSymbolMap} (h : assignULRBG cfg symAvail active ues metrics = .ok r)
    (hempty : ∀ u ∈ us, (ues u).ulRBG = []) : Within cfg.ulBitmask us r.1 := by
  have hspec : Spec (fun _ => True) (fun r => Within cfg.ulBitmask us r.1)
    (assignULRBG cfg symAvail active ues metrics) := by
    refine Spec.map (Spec.foldlM_mem (P := fun r : UlTable × μ => Within cfg.ulBitmask us r.1)
      (fun {r e} _ hr => ?_) ?_)
    · rw [assignBeam]
      split
      · trivial
      · exact Within.run (s := .enter cfg r.1 r.2 e.2 _) hr fun _ => id
    · intro u hu rbg hrbg
      rw [hempty u hu] at hrbg
      exact absurd hrbg not_mem_nil
  exact hspec.ok h

/-! ## One UE alone -/

variable {rr : RoundRobin} {s : UlBeam Unit}

theorem updateUlMetric_eq (rr : RoundRobin) (ue : UlUe) : ue.updateUlMetric rr = 0 ∨
    ue.updateUlMetric rr = rr.calculateTbSize ue.ulMcs ue.ulRank
      (ue.ulRBG.length * rr.numRbPerRbg) := by
  unfold UlUe.updateUlMetric
  split
  · exact .inl rfl
  · exact .inr rfl

theorem assignRbgs_alone {u buf : Nat} (hvector : s.ueVector = [(u, buf)]) (hue : s.ues u = ue)
    (hsize : ue.ulTbSize < max buf 12)
    (hmore : ∀ k ≤ avail.length, rr.calculateTbSize ue.ulMcs ue.ulRank
      ((ue.ulRBG.length + k * b) * rr.numRbPerRbg) < max buf 12) :
    ∃ syms n, (assignRbgs rr.config b avail s).ues u = ⟨ue.ulRBG ++ Pool.spread b avail, syms, n,
      ue.ulMcs, ue.ulRank⟩ := by
  induction avail generalizing s ue with
  | nil => exact ⟨ue.ulSym, ue.ulTbSize, by simp [assignRbgs, hue]⟩
  | cons rbg avail ih =>
    have hsorted : (s.sort rr.config).ueVector = [(u, buf)] := by
      simp only [UlBeam.sort, RoundRobin.config, sortUeVector, hvector]
      rfl
    have hnext : nextUe s.ues [(u, buf)] = some u := by
      rw [nextUe, hue, if_neg (Nat.not_le.2 hsize)]
    have hassigned : ((s.sort rr.config).assign rr.config u rbg b).ues u =
        { ue.assign rbg b with ulTbSize := (ue.assign rbg b).updateUlMetric rr } := by
      rw [assign_roundRobin, Function.update_self, ← hue]
      rfl
    have hvector' : ((s.sort rr.config).assign rr.config u rbg b).ueVector = [(u, buf)] := by
      rw [assign_ueVector rr _ rbg b (by simp [hsorted]), hsorted]
    have hlen : (ue.assign rbg b).ulRBG.length = ue.ulRBG.length + b := by simp [UlUe.assign]
    have hless : (ue.assign rbg b).updateUlMetric rr < max buf 12 := by
      rcases updateUlMetric_eq rr (ue.assign rbg b) with heq | heq <;> rw [heq]
      · exact Nat.lt_of_lt_of_le (Nat.succ_pos 11) (Nat.le_max_right _ _)
      · have hone := hmore 1 (Nat.le_add_left _ _)
        rwa [Nat.one_mul, ← hlen] at hone
    rw [assignRbgs, hsorted, hnext]
    obtain ⟨syms, n', hrun⟩ := ih hvector' hassigned hless fun k hk => by
      have hmore := hmore (k + 1) (Nat.succ_le_succ hk)
      have hsum : ue.ulRBG.length + (k + 1) * b = (ue.assign rbg b).ulRBG.length + k * b := by
        rw [hlen, Nat.succ_mul]
        omega
      rwa [hsum] at hmore
    exact ⟨syms, n', by rw [hrun, Pool.spread_cons, ← append_assoc]; rfl⟩

/-- One UE in one beam, with `buf` bytes to send. -/
def oneUe (buf : Nat) : ActiveUeMap := ⟨[(⟨0, 0⟩, [(1, buf)])], by simp, by simp⟩

/-- All the symbols for the only beam. -/
def oneBeam (symAvail : Nat) (_ : ActiveUeMap) (_ : UlTable) : BeamSymbolMap := [(⟨0, 0⟩, symAvail)]

theorem exists_all_rbgs (m : NotchedMasks) (numRbPerRbg : Nat)
    (calculateTbSize : Nat → Nat → Nat → Nat) (mcs rank sym : Nat) (hrbgs : m.ulBitmask.rbgs ≠ []) :
    ∃ buf syms n r,
      assignULRBG (m.ulConfig numRbPerRbg calculateTbSize oneBeam).config sym (oneUe buf)
        (fun _ => ⟨[], [], 0, mcs, rank⟩) () = .ok r ∧
      symOf r.2 ⟨0, 0⟩ = sym ∧ r.1 1 = ⟨Pool.spread sym m.ulBitmask.rbgs, syms, n, mcs, rank⟩ := by
  let rr := m.ulConfig numRbPerRbg calculateTbSize oneBeam
  let ue : UlUe := ⟨[], [], 0, mcs, rank⟩
  let size := fun k =>
    rr.calculateTbSize ue.ulMcs ue.ulRank ((ue.ulRBG.length + k * sym) * rr.numRbPerRbg)
  let buf := (Finset.range (m.ulBitmask.rbgs.length + 1)).sup size + 1
  have hmore : ∀ k ≤ m.ulBitmask.rbgs.length,
      rr.calculateTbSize ue.ulMcs ue.ulRank ((ue.ulRBG.length + k * sym) * rr.numRbPerRbg) <
      max buf 12 := by
    intro k hk
    have hle : size k ≤ (Finset.range (m.ulBitmask.rbgs.length + 1)).sup size :=
      Finset.le_sup (Finset.mem_range.2 (Nat.lt_succ_of_le hk))
    exact Nat.lt_of_lt_of_le (Nat.lt_succ_of_le hle) (Nat.le_max_left _ _)
  have hsize : ue.ulTbSize < max buf 12 :=
    Nat.lt_of_lt_of_le (Nat.succ_pos 11) (Nat.le_max_right _ _)
  obtain ⟨syms, n, hrun⟩ :=
    assignRbgs_alone (s := .enter rr.config (fun _ => ue) () [(1, buf)] sym) rfl rfl hsize hmore
  refine ⟨buf, syms, n, (_, [(⟨0, 0⟩, sym)]), ?_, rfl, hrun⟩
  have hbeam : assignBeam rr.config sym (fun _ => ue, ()) [(1, buf)] = .ok _ := if_neg hrbgs
  rw [assignULRBG]
  change Except.map _ (assignBeam rr.config sym (fun _ => ue, ()) [(1, buf)] >>= _) = _
  rw [hbeam]
  rfl

/-- Every UE that is scheduled in a run of `AssignULRBG` is safe, in every run with a scheduler. -/
def SafeWith {μ : Type} (m : NotchedMasks) (numRbPerRbg : Nat)
    (calculateTbSize : Nat → Nat → Nat → Nat) (cfg : UlConfig μ) : Prop :=
  ∀ (symAvail : Nat) (active : ActiveUeMap) (ues : UlTable) (metrics : μ)
    (r : UlTable × BeamSymbolMap),
    (∀ e ∈ active.beams, ∀ u ∈ e.2.map Prod.fst, (ues u).ulRBG = []) →
    assignULRBG cfg symAvail active ues metrics = .ok r →
    ∀ rnti maxSym, Scheduled active r rnti maxSym → ∀ spointSym, maxSym ≤ spointSym →
      m.UlDciSafe (m.createUlDci numRbPerRbg calculateTbSize spointSym rnti (r.1 rnti) maxSym)

/-- With every subclass. -/
def AlwaysSafe (m : NotchedMasks) (numRbPerRbg : Nat) (calculateTbSize : Nat → Nat → Nat → Nat) :
    Prop :=
  ∀ (μ : Type) (cfg : UlConfig μ), cfg.ulBitmask = m.ulBitmask →
    m.SafeWith numRbPerRbg calculateTbSize cfg

/-- With the round robin. -/
def RoundRobinSafe (m : NotchedMasks) (numRbPerRbg : Nat)
    (calculateTbSize : Nat → Nat → Nat → Nat) : Prop :=
  ∀ symPerBeam,
    m.SafeWith numRbPerRbg calculateTbSize
    (m.ulConfig numRbPerRbg calculateTbSize symPerBeam).config

theorem alwaysSafe_of_allowed (h : ∀ rbg ∈ m.ulBitmask.rbgs, m.Allowed rbg) :
    m.AlwaysSafe numRbPerRbg calculateTbSize := by
  rintro μ cfg hmask symAvail active ues metrics r hempty hr rnti maxSym ⟨e, he, hrnti, -, hmax,
    hne⟩ spointSym hsym
  have hwithin : Within m.ulBitmask (e.2.map Prod.fst) r.1 :=
    hmask ▸ within_assignULRBG hr (hempty e he)
  refine (ulDciSafe_iff (hwithin rnti hrnti) hne hmax hsym).2 (.inr fun rbg hrbg => ?_)
  exact h rbg (hwithin rnti hrnti rbg hrbg)

/-- For every pair of masks, all UEs of all runs are safe, with every subclass and also with the
round robin alone, if and only if the mask of the DL allows what the mask of the UL allows. -/
theorem createUlDci_safe_iff (m : NotchedMasks) (numRbPerRbg : Nat)
    (calculateTbSize : Nat → Nat → Nat → Nat) (hsize : ∃ mcs rank sym, sym ≠ 0 ∧
      12 ≤ calculateTbSize mcs rank (m.ulBitmask.rbgs.length * sym * numRbPerRbg)) :
    (m.AlwaysSafe numRbPerRbg calculateTbSize ↔ ∀ rbg ∈ m.ulBitmask.rbgs, m.Allowed rbg) ∧
      (m.RoundRobinSafe numRbPerRbg calculateTbSize ↔ ∀ rbg ∈ m.ulBitmask.rbgs, m.Allowed rbg) := by
  have hallowed : m.RoundRobinSafe numRbPerRbg calculateTbSize → ∀ rbg ∈ m.ulBitmask.rbgs,
    m.Allowed rbg := by
    intro h rbg hrbg
    obtain ⟨mcs, rank, sym, hsym, hsize⟩ := hsize
    obtain ⟨buf, syms, n, r, hrun, hbeam, hue⟩ :=
      exists_all_rbgs m numRbPerRbg calculateTbSize mcs rank sym (ne_nil_of_mem hrbg)
    have hmem : ∀ r ∈ Pool.spread sym m.ulBitmask.rbgs, r ∈ m.ulBitmask.rbgs :=
      fun _ => Pool.mem_of_mem_spread
    have hspread : rbg ∈ Pool.spread sym m.ulBitmask.rbgs :=
      (Pool.mem_spread (Nat.pos_of_ne_zero hsym)).2 hrbg
    have hne : (r.1 1).ulRBG ≠ [] := by
      rw [hue]
      exact ne_nil_of_mem hspread
    have hscheduled : Scheduled (oneUe buf) r 1 sym :=
      ⟨_, mem_singleton_self _, mem_singleton_self _, hbeam.symm, hsym, hne⟩
    have hsafe := h oneBeam sym (oneUe buf) _ () r (fun _ _ _ _ => rfl) hrun 1 sym hscheduled sym
      (Nat.le_refl sym)
    rw [hue] at hsafe
    rcases (ulDciSafe_iff hmem (ne_nil_of_mem hspread) hsym (Nat.le_refl sym)).1
      hsafe with hsmall | hall
    · rw [Pool.length_spread] at hsmall
      exact absurd hsmall (Nat.not_lt.2 hsize)
    · exact hall rbg hspread
  exact ⟨⟨fun h => hallowed fun _ => h Unit _ rfl, alwaysSafe_of_allowed⟩,
    hallowed, fun h _ => alwaysSafe_of_allowed h Unit _ rfl⟩

/-- Two RBGs, of which the second one is notched in the DL. -/
def dlNotched : NotchedMasks := ⟨2, [true, false], [], by decide, by decide⟩

/-- Two RBGs, of which the second one is notched in both directions. -/
def bothNotched : NotchedMasks := ⟨2, [true, false], [true, false], by decide, by decide⟩

/-- Where both directions are notched alike, the check never fails. -/
theorem createUlDci_safe_iff_both : bothNotched.AlwaysSafe 1 (fun _ _ n => 12 * n) :=
  (createUlDci_safe_iff bothNotched 1 _ ⟨0, 1, 1, by decide, by decide⟩).1.2 (by decide)

/-- A UE with 100 bytes gets both RBGs, and the second one fails the check. -/
theorem not_createUlDci_safe :
    ¬ ∀ (m : NotchedMasks) (numRbPerRbg : Nat) (calculateTbSize : Nat → Nat → Nat → Nat),
    m.AlwaysSafe numRbPerRbg calculateTbSize := by
  intro h
  obtain ⟨dci, hdci, -⟩ := h dlNotched 1 (fun _ _ n => 12 * n) Unit
    (dlNotched.ulConfig 1 (fun _ _ n => 12 * n) oneBeam).config rfl 1 (oneUe 100)
    (fun _ => ⟨[], [], 0, 0, 1⟩) () _ (fun _ _ _ _ => rfl) rfl 1 1 ⟨_, mem_singleton_self _,
      mem_singleton_self _, rfl, by decide, by decide⟩ 1 (by decide)
  have hnotched : dlNotched.createUlDci 1 (fun _ _ n => 12 * n) 1 1 ⟨[0, 1], [0, 0], 24, 0, 1⟩ 1 =
    .error .notched := by decide
  exact nomatch hnotched.symm.trans hdci

end NotchedMasks

end OranNs3.Ofdma
