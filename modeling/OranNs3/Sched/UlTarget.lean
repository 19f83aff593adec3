import OranNs3.Lib.Fallible
import OranNs3.Sched.OfdmaUl

/-!
# Targets of the UL

In `AssignULRBG` of `NrMacSchedulerOfdmaUlTarget` every RBG of the mask is free or with one UE of
the beam, and each UE notes its RBGs once for every symbol of the beam (`UlShared`). A UE that is
chosen has not reached its target, so no UE ever gets more than its target (`assignULRBG_capped`).
The hooks change transport block sizes only, and the order only permutes (`Alike`).

Without targets it does what `AssignULRBG` of `NrMacSchedulerOfdma` does (`Alike`). In a beam
without symbols only the latter goes on to choose UEs, whose transport block sizes may change; no
later beam has these UEs (`assignULRBG_eq_of_nil`).
-/

namespace OranNs3.Ofdma

open Fallible Function List
open Function (update)

variable {μ : Type} {cfg : UlConfig μ} {ulTargets : List (Nat × Nat)} {b : Nat} {s t : UlBeam μ}
  {ues ues' ues'' : UlTable} {us done mask avail : List Nat} {own : Nat → List Nat}
  {ueVector : List (Nat × Nat)} {u rbg : Nat}

/-! ## The hooks and the order -/

/-- Two tables with the same RBGs and symbols, and also the same transport block sizes but for the
UEs `done`. -/
structure Alike (done : List Nat) (ues ues' : UlTable) : Prop where
  same : ∀ u, ∃ n, ues u = { ues' u with ulTbSize := n }
  eq : ∀ u ∉ done, ues u = ues' u

theorem Alike.refl (done : List Nat) (ues : UlTable) : Alike done ues ues :=
  ⟨fun _ => ⟨_, rfl⟩, fun _ _ => rfl⟩

theorem Alike.trans (h : Alike done ues ues') (h' : Alike done ues' ues'') :
    Alike done ues ues'' := by
  refine ⟨fun u => ?_, fun u hu => (h.eq u hu).trans (h'.eq u hu)⟩
  obtain ⟨n, hn⟩ := h.same u
  obtain ⟨n', hn'⟩ := h'.same u
  exact ⟨n, by rw [hn, hn']⟩

theorem Alike.mono (h : Alike us ues ues') (hus : ∀ u ∈ us, u ∈ done) : Alike done ues ues' :=
  ⟨h.same, fun u hu => h.eq u fun hmem => hu (hus u hmem)⟩

theorem Alike.ulRBG (h : Alike done ues ues') (u : Nat) : (ues u).ulRBG = (ues' u).ulRBG := by
  obtain ⟨n, hn⟩ := h.same u
  rw [hn]

theorem Alike.ulSym (h : Alike done ues ues') (u : Nat) : (ues u).ulSym = (ues' u).ulSym := by
  obtain ⟨n, hn⟩ := h.same u
  rw [hn]

/-- A hook changes the transport block size of its UE. -/
theorem UlBeam.alike_hook (h : UlHook μ) (b : Nat) (s : UlBeam μ) (hu : u ∈ done) :
    Alike done (s.hook h b u).ues s.ues := by
  refine ⟨fun v => ?_, fun v hv => update_of_ne (ne_of_mem_of_not_mem hu hv).symm _ _⟩
  rcases eq_or_ne v u with rfl | hne
  · exact ⟨_, update_self ..⟩
  · exact ⟨_, update_of_ne hne _ _⟩

theorem UlBeam.alike_hooks (h : UlHook μ) (b : Nat) (s : UlBeam μ)
    (hv : ∀ u ∈ ueVector.map Prod.fst, u ∈ done) :
    Alike done (ueVector.foldl (fun s ue => s.hook h b ue.1) s).ues s.ues ∧
      (ueVector.foldl (fun s ue => s.hook h b ue.1) s).ueVector = s.ueVector := by
  induction ueVector generalizing s with
  | nil => exact ⟨.refl _ _, rfl⟩
  | cons e ueVector ih =>
    obtain ⟨he, hv⟩ := forall_mem_cons.1 hv
    obtain ⟨halike, hvector⟩ := ih (s.hook h b e.1) hv
    exact ⟨halike.trans (s.alike_hook h b he), hvector⟩

/-- After an RBG is given to a UE, the hooks change sizes of UEs of the vector only. -/
theorem UlBeam.alike_assign (cfg : UlConfig μ) (rbg b : Nat) (hu : u ∈ s.ueVector.map Prod.fst)
    (hv : ∀ v ∈ s.ueVector.map Prod.fst, v ∈ done) :
    Alike done (s.assign cfg u rbg b).ues (s.note u rbg b).ues ∧
      (s.assign cfg u rbg b).ueVector = s.ueVector := by
  have hothers : ∀ v ∈ (s.ueVector.filter fun ue => ue.1 ≠ u).map Prod.fst, v ∈ done :=
    fun v hmem =>
    hv v (map_subset Prod.fst (filter_subset_self _) hmem)
  obtain ⟨halike, hvector⟩ := UlBeam.alike_hooks cfg.notAssignedUlResources b
    ((s.note u rbg b).hook cfg.assignedUlResources b u) hothers
  exact ⟨halike.trans ((s.note u rbg b).alike_hook _ b (hv u hu)), hvector⟩

/-- The RBGs of all UEs where one is given to a UE. -/
theorem UlBeam.assign_ulRBG (cfg : UlConfig μ) (rbg b v : Nat) (hu : u ∈ s.ueVector.map Prod.fst) :
    ((s.assign cfg u rbg b).ues v).ulRBG = if v = u then (s.ues u).ulRBG ++ replicate b rbg
    else (s.ues v).ulRBG := by
  rw [(UlBeam.alike_assign cfg rbg b hu fun _ => id).1.ulRBG]
  rcases eq_or_ne v u with rfl | hne
  · simp [UlBeam.note, UlUe.assign]
  · simp [UlBeam.note, hne]

theorem UlBeam.sort_perm (cfg : UlConfig μ) (s : UlBeam μ) :
    ((s.sort cfg).ueVector.map Prod.fst).Perm (s.ueVector.map Prod.fst) :=
  (cfg.sort_perm _ _ _).map _

/-- The hooks of the round robin write the metric of the UE that gets the RBG. -/
theorem assign_roundRobin (rr : RoundRobin) (s : UlBeam Unit) (u rbg b : Nat) :
    (s.assign rr.config u rbg b).ues = update s.ues u
      { (s.ues u).assign rbg b with ulTbSize := ((s.ues u).assign rbg b).updateUlMetric rr } := by
  have hkeep : ∀ (s : UlBeam Unit) (v : Nat), s.hook rr.config.notAssignedUlResources b v = s :=
    fun s v => by
    simp [UlBeam.hook, RoundRobin.config]
  rw [UlBeam.assign]
  simp only [hkeep, foldl_fixed]
  simp [UlBeam.hook, UlBeam.note, RoundRobin.config]

theorem assign_ueVector (rr : RoundRobin) (s : UlBeam Unit) (rbg b : Nat)
    (hu : u ∈ s.ueVector.map Prod.fst) : (s.assign rr.config u rbg b).ueVector = s.ueVector :=
  (UlBeam.alike_assign rr.config rbg b hu fun _ => id).2

theorem mem_of_nextUe (h : nextUe ues ueVector = some u) : u ∈ ueVector.map Prod.fst := by
  induction ueVector with
  | nil => cases h
  | cons e ueVector ih =>
    rw [nextUe] at h
    split at h
    · exact mem_cons_of_mem _ (ih h)
    · cases h
      exact mem_cons_self

namespace UlTarget

theorem nextUe_spec (h : nextUe ulTargets ues b ueVector = some u) :
    u ∈ ueVector.map Prod.fst ∧ hasReachedUlTarget ulTargets ues u b = false := by
  induction ueVector with
  | nil => cases h
  | cons e ueVector ih =>
    rw [nextUe] at h
    split at h
    · exact (ih h).imp_left (mem_cons_of_mem _)
    split at h
    · exact (ih h).imp_left (mem_cons_of_mem _)
    next hreached =>
      cases h
      exact ⟨mem_cons_self, Bool.eq_false_iff.2 hreached⟩

/-- The target of a UE. -/
def HasTarget (ulTargets : List (Nat × Nat)) (u t : Nat) : Prop :=
  (Keyed.find? Prod.fst u ulTargets).map Prod.snd = some t

theorem hasReachedUlTarget_eq_false {t : Nat} (h : hasReachedUlTarget ulTargets ues u b = false)
    (ht : HasTarget ulTargets u t) : b ≠ 0 ∧ (ues u).ulRBG.length / b % 2 ^ 32 < t := by
  unfold hasReachedUlTarget at h
  split at h
  · cases h
  next hb =>
    obtain ⟨target, hfind, rfl⟩ := Option.map_eq_some_iff.1 ht
    rw [hfind] at h
    exact ⟨hb, Nat.lt_of_not_le (of_decide_eq_false h)⟩

/-! ## The RBGs of a beam -/

/-- The RBGs `own` of the UEs `us` of a beam with `b` symbols, and those that are free. -/
structure UlShared (ulTargets : List (Nat × Nat)) (mask us : List Nat) (b : Nat)
    (own : Nat → List Nat) (avail : List Nat) (s : UlBeam μ) : Prop where
  shared : Pool.Shared mask us own avail
  rbgs : ∀ u ∈ us, (s.ues u).ulRBG = Pool.spread b (own u)
  capped : ∀ u ∈ us, ∀ t, HasTarget ulTargets u t → (own u).length ≤ t
  vector : (s.ueVector.map Prod.fst).Perm us

theorem UlShared.assign (cfg : UlConfig μ) (h : UlShared ulTargets mask us b own (rbg :: avail) s)
    (hus : us.Nodup) (hmask : mask.length < 2 ^ 16) (hu : u ∈ s.ueVector.map Prod.fst)
    (hreached : hasReachedUlTarget ulTargets s.ues u b = false) :
    UlShared ulTargets mask us b (update own u (own u ++ [rbg])) avail (s.assign cfg u rbg b) := by
  have hvector := (UlBeam.alike_assign cfg rbg b hu fun _ => id).2
  have hmem := h.vector.mem_iff.1 hu
  refine ⟨h.shared.give hus hmem .rfl, fun v hv => ?_, fun v hv t ht => ?_, hvector ▸ h.vector⟩
  · rw [UlBeam.assign_ulRBG cfg rbg b v hu]
    rcases eq_or_ne v u with rfl | hne
    · simp [h.rbgs v hv, Pool.spread_concat]
    · simp [hne, h.rbgs v hv]
  · rcases eq_or_ne v u with rfl | hne
    · obtain ⟨hb, hlt⟩ := hasReachedUlTarget_eq_false hreached ht
      have hle := h.shared.length_le hmem
      rw [h.rbgs v hv, Pool.length_spread, Nat.mul_div_cancel _ (Nat.pos_of_ne_zero hb)] at hlt
      rw [update_self, length_append, length_singleton]
      omega
    · rw [update_of_ne hne]
      exact h.capped v hv t ht

theorem UlShared.run (cfg : UlConfig μ) (h : UlShared ulTargets mask us b own avail s)
    (hus : us.Nodup) (hmask : mask.length < 2 ^ 16) :
    (∃ own' avail', UlShared ulTargets mask us b own' avail' (assignRbgs cfg ulTargets b avail s)) ∧
      ∀ v ∉ us, (assignRbgs cfg ulTargets b avail s).ues v = s.ues v := by
  induction avail generalizing own s with
  | nil => exact ⟨⟨own, [], h⟩, fun _ _ => rfl⟩
  | cons rbg avail ih =>
    have hsorted : UlShared ulTargets mask us b own (rbg :: avail) (s.sort cfg) :=
      ⟨h.shared, h.rbgs, h.capped, (s.sort_perm cfg).trans h.vector⟩
    rw [assignRbgs]
    split
    · exact ⟨⟨own, _, hsorted⟩, fun _ _ => rfl⟩
    next u hu =>
      obtain ⟨hmem, hreached⟩ := nextUe_spec hu
      obtain ⟨hown, hothers⟩ := ih (hsorted.assign cfg hus hmask hmem hreached)
      refine ⟨hown, fun v hv => (hothers v hv).trans ?_⟩
      have halike := (UlBeam.alike_assign cfg rbg b hmem fun v => hsorted.vector.mem_iff.1).1
      exact (halike.eq v hv).trans
        (update_of_ne (ne_of_mem_of_not_mem (hsorted.vector.mem_iff.1 hmem) hv).symm _ _)

/-- What a beam's UEs have in the end: at most their targets, RBGs of the mask, and different ones.
-/
structure Capped (ulTargets : List (Nat × Nat)) (m : RbgMask) (us : List Nat) (b : Nat)
    (ues : UlTable) : Prop where
  length_le : ∀ u ∈ us, ∀ t, HasTarget ulTargets u t → (ues u).ulRBG.length ≤ t * b
  allowed : ∀ u ∈ us, ∀ rbg ∈ (ues u).ulRBG, m.bits[rbg]? = some true
  disjoint : ∀ u ∈ us, ∀ v ∈ us, u ≠ v → (ues u).ulRBG.Disjoint (ues v).ulRBG

theorem Capped.congr {m : RbgMask} (h : Capped ulTargets m us b ues)
    (heq : ∀ u ∈ us, ues' u = ues u) : Capped ulTargets m us b ues' := by
  refine ⟨fun u hu => ?_, fun u hu => ?_, fun u hu v hv => ?_⟩
  · rw [heq u hu]
    exact h.length_le u hu
  · rw [heq u hu]
    exact h.allowed u hu
  · rw [heq u hu, heq v hv]
    exact h.disjoint u hu v hv

theorem UlShared.toCapped {m : RbgMask} (h : UlShared ulTargets m.rbgs us b own avail s) :
    Capped ulTargets m us b s.ues := by
  refine ⟨fun u hu t ht => ?_, fun u hu rbg hrbg => ?_, fun u hu v hv hne => ?_⟩
  · rw [h.rbgs u hu, Pool.length_spread]
    exact Nat.mul_le_mul_right b (h.capped u hu t ht)
  · rw [h.rbgs u hu] at hrbg
    exact m.mem_rbgs.1 (h.shared.mem hu (Pool.mem_of_mem_spread hrbg))
  · rw [h.rbgs u hu, h.rbgs v hv]
    have hdisj := h.shared.disjoint m.nodup_rbgs hu hv hne
    exact fun rbg hrbg hrbg' => hdisj (Pool.mem_of_mem_spread hrbg) (Pool.mem_of_mem_spread hrbg')

theorem spec_assignBeam {m : μ} (hus : (ueVector.map Prod.fst).Nodup)
    (hempty : ∀ u ∈ ueVector.map Prod.fst, (ues u).ulRBG = []) :
    Spec (fun e => e = .assertion ∧ cfg.ulBitmask.rbgs = [])
      (fun r => Capped ulTargets cfg.ulBitmask (ueVector.map Prod.fst) b r.1 ∧
        ∀ u ∉ ueVector.map Prod.fst, r.1 u = ues u)
      (assignBeam cfg ulTargets b (ues, m) ueVector) := by
  unfold assignBeam
  split
  next hnil => exact ⟨rfl, hnil⟩
  · have hstart : UlShared ulTargets cfg.ulBitmask.rbgs (ueVector.map Prod.fst) b
        (fun _ => []) cfg.ulBitmask.rbgs (.enter cfg ues m ueVector b) :=
      ⟨Pool.Shared.start _ _, hempty, fun _ _ _ _ => Nat.zero_le _, .rfl⟩
    obtain ⟨⟨own, avail, h⟩, hothers⟩ := hstart.run cfg hus cfg.ulBitmask.length_rbgs
    exact ⟨h.toCapped, hothers⟩

/-- No UE gets more RBGs than its target, the RBGs are allowed, and no two UEs of a beam share one.
-/
theorem assignULRBG_capped (cfg : UlConfig μ) (ulTargets : List (Nat × Nat)) (symAvail : Nat)
    (active : ActiveUeMap) (ues : UlTable) (metrics : μ)
    (hempty : ∀ e ∈ active.beams, ∀ u ∈ e.2.map Prod.fst, (ues u).ulRBG = []) :
    Spec (fun e => e = .assertion ∧ cfg.ulBitmask.rbgs = []) (fun r => ∀ e ∈ active.beams,
        (∀ u ∈ e.2.map Prod.fst, ∀ t, HasTarget ulTargets u t →
          (r.1 u).ulRBG.length ≤ t * symOf r.2 e.1 ∧ (r.1 u).ulRBG.length / symOf r.2 e.1 ≤ t) ∧
        (∀ u ∈ e.2.map Prod.fst, ∀ rbg ∈ (r.1 u).ulRBG, cfg.ulBitmask.bits[rbg]? = some true) ∧
        ∀ u ∈ e.2.map Prod.fst, ∀ v ∈ e.2.map Prod.fst, u ≠ v →
          (r.1 u).ulRBG.Disjoint (r.1 v).ulRBG)
      (assignULRBG cfg ulTargets symAvail active ues metrics) := by
  let symPerBeam := getSymPerBeam (cfg.symPerBeam symAvail active ues metrics) active
  have hrun := Spec.foldlM_parts (γ := BeamId × List (Nat × Nat)) (b := (ues, metrics))
    (l := active.beams) (g := Prod.fst) (p := fun e => e.2.map Prod.fst) (f := fun r e =>
    assignBeam cfg ulTargets (symOf symPerBeam e.1) r e.2)
    (P := fun e g => ∀ u ∈ e.2.map Prod.fst, (g u).ulRBG = [])
    (R := fun e g => Capped ulTargets cfg.ulBitmask (e.2.map Prod.fst) (symOf symPerBeam e.1) g)
    (fun heq h u hu => by rw [heq u hu, h u hu]) (fun heq h => h.congr heq)
    (fun he h => spec_assignBeam ((nodup_flatMap.1 active.nodup).1 _ he) h) active.nodup hempty
  refine Spec.map (hrun.imp fun ues' h e he => ?_)
  have hc := h.1 e he
  refine ⟨fun u hu t ht => ⟨hc.length_le u hu t ht, ?_⟩, hc.allowed, hc.disjoint⟩
  exact Nat.div_le_of_le_mul (Nat.mul_comm t _ ▸ hc.length_le u hu t ht)

/-- Three RBGs, of which the second one is notched, in a beam of two symbols. -/
def notched : RoundRobin where
  ulBitmask := ⟨[true, false, true, true], by decide⟩
  numRbPerRbg := 1
  calculateTbSize := fun _ _ n => n
  symPerBeam := fun _ _ _ => [(⟨0, 0⟩, 2)]

/-- Two active UEs in that beam. -/
def twoUes : ActiveUeMap := ⟨[(⟨0, 0⟩, [(1, 100), (2, 100)])], by decide, by decide⟩

/-- UEs without RBGs. -/
def noRbgs : UlTable := fun _ => ⟨[], [], 0, 0, 1⟩

/-- The first UE has a target of one RBG, and the other one gets the rest. -/
theorem assignULRBG_capped_two :
    (assignULRBG notched.config [(1, 1)] 2 twoUes noRbgs ()).toOption.map (fun r =>
      ((r.1 1).ulRBG, (r.1 2).ulRBG)) =
        some ([0, 0], [2, 2, 3, 3]) ∧
      Spec (fun e => e = .assertion ∧ notched.ulBitmask.rbgs = [])
        (fun r => ∀ e ∈ twoUes.beams,
          (∀ u ∈ e.2.map Prod.fst, ∀ t, HasTarget [(1, 1)] u t →
            (r.1 u).ulRBG.length ≤ t * symOf r.2 e.1 ∧ (r.1 u).ulRBG.length / symOf r.2 e.1 ≤ t) ∧
          (∀ u ∈ e.2.map Prod.fst, ∀ rbg ∈ (r.1 u).ulRBG, notched.ulBitmask.bits[rbg]? =
            some true) ∧
          ∀ u ∈ e.2.map Prod.fst, ∀ v ∈ e.2.map Prod.fst, u ≠ v →
            (r.1 u).ulRBG.Disjoint (r.1 v).ulRBG)
        (assignULRBG notched.config [(1, 1)] 2 twoUes noRbgs ()) :=
  ⟨by decide +kernel,
    assignULRBG_capped notched.config [(1, 1)] 2 twoUes noRbgs () fun _ _ _ _ => rfl⟩

/-! ## Without targets -/

variable {rr : RoundRobin} {s t : UlBeam Unit}

theorem sort_of_alike (rr : RoundRobin) (h : Alike done s.ues t.ues)
    (hvec : s.ueVector = t.ueVector) :
    (s.sort rr.config).ueVector = (t.sort rr.config).ueVector := by
  simp only [UlBeam.sort, RoundRobin.config, sortUeVector, h.ulRBG, hvec]

theorem nextUe_of_alike (h : Alike done ues ues') (hb : b ≠ 0)
    (hv : ∀ u ∈ ueVector.map Prod.fst, u ∉ done) :
    Ofdma.nextUe ues ueVector = nextUe [] ues' b ueVector := by
  induction ueVector with
  | nil => rfl
  | cons e ueVector ih =>
    obtain ⟨he, hv⟩ := forall_mem_cons.1 hv
    have hreached : hasReachedUlTarget [] ues' e.1 b = false := if_neg hb
    rw [Ofdma.nextUe, UlTarget.nextUe, h.eq e.1 he, hreached, ih hv]
    rfl

theorem assign_of_alike (h : Alike done s.ues t.ues) (hu : u ∉ done) :
    Alike done (s.assign rr.config u rbg b).ues (t.assign rr.config u rbg b).ues := by
  rw [assign_roundRobin, assign_roundRobin, h.eq u hu]
  refine ⟨fun v => ?_, fun v hv => ?_⟩
  · rcases eq_or_ne v u with rfl | hne
    · exact ⟨_, by rw [update_self, update_self]⟩
    · rw [update_of_ne hne, update_of_ne hne]
      exact h.same v
  · rcases eq_or_ne v u with rfl | hne
    · rw [update_self, update_self]
    · rw [update_of_ne hne, update_of_ne hne]
      exact h.eq v hv

theorem run_of_alike (rr : RoundRobin) (avail : List Nat) (h : Alike done s.ues t.ues) (hb : b ≠ 0)
    (hvec : s.ueVector = t.ueVector) (hv : ∀ u ∈ s.ueVector.map Prod.fst, u ∉ done) :
    Alike done (Ofdma.assignRbgs rr.config b avail s).ues
      (assignRbgs rr.config [] b avail t).ues := by
  induction avail generalizing s t with
  | nil => exact h
  | cons rbg avail ih =>
    have hsorted := sort_of_alike rr h hvec
    have hv' : ∀ u ∈ (s.sort rr.config).ueVector.map Prod.fst, u ∉ done := fun u hu =>
      hv u ((s.sort_perm rr.config).mem_iff.1 hu)
    rw [Ofdma.assignRbgs, UlTarget.assignRbgs, ← hsorted, nextUe_of_alike h hb hv']
    split
    · exact h
    next u hu =>
      have hmem := (nextUe_spec hu).1
      have hgive : Alike done ((s.sort rr.config).assign rr.config u rbg b).ues
        ((t.sort rr.config).assign rr.config u rbg b).ues :=
        assign_of_alike (s := s.sort rr.config) (t := t.sort rr.config) h (hv' u hmem)
      have hs := assign_ueVector rr (s.sort rr.config) rbg b hmem
      have ht := assign_ueVector rr (t.sort rr.config) rbg b (hsorted ▸ hmem)
      exact ih hgive (by rw [hs, ht, hsorted]) (by rwa [hs])

/-- In a beam without symbols only the transport block sizes of its UEs change. -/
theorem run_zero_of_alike {s : UlBeam μ} (h : Alike done s.ues ues')
    (hv : ∀ u ∈ s.ueVector.map Prod.fst, u ∈ done) :
    Alike done (Ofdma.assignRbgs cfg 0 avail s).ues ues' := by
  induction avail generalizing s with
  | nil => exact h
  | cons rbg avail ih =>
    have hv' : ∀ u ∈ (s.sort cfg).ueVector.map Prod.fst, u ∈ done :=
      fun u hu => hv u ((s.sort_perm cfg).mem_iff.1 hu)
    rw [Ofdma.assignRbgs]
    split
    · exact h
    next u hu =>
      obtain ⟨halike, hvector⟩ := UlBeam.alike_assign cfg rbg 0 (mem_of_nextUe hu) hv'
      have hnote : ((s.sort cfg).note u rbg 0).ues = s.ues := by
        simp [UlBeam.note, UlBeam.sort, UlUe.assign]
      rw [hnote] at halike
      exact ih (halike.trans h) (by rwa [hvector])

theorem nextUe_zero : nextUe ulTargets ues 0 ueVector = none := by
  induction ueVector with
  | nil => rfl
  | cons e ueVector ih => simp [nextUe, hasReachedUlTarget, ih]

theorem assignRbgs_zero {s : UlBeam μ} : (assignRbgs cfg ulTargets 0 avail s).ues = s.ues := by
  cases avail with
  | nil => rfl
  | cons rbg avail =>
    rw [assignRbgs, nextUe_zero]
    rfl

variable {r r' : UlTable × Unit}

theorem beam_of_alike (h : Alike done r.1 r'.1) (hne : rr.ulBitmask.rbgs ≠ [])
    (hv : ∀ u ∈ ueVector.map Prod.fst, u ∉ done) :
    ∃ t t', Ofdma.assignBeam rr.config b r ueVector = .ok t ∧
      assignBeam rr.config [] b r' ueVector = .ok t' ∧
        Alike (done ++ ueVector.map Prod.fst) t.1 t'.1 := by
  refine ⟨_, _, if_neg hne, if_neg hne, ?_⟩
  rcases Nat.eq_zero_or_pos b with rfl | hb
  · rw [assignRbgs_zero]
    exact run_zero_of_alike (h.mono fun _ => mem_append_left _) fun u hu => mem_append_right _ hu
  · have hrun := run_of_alike rr rr.ulBitmask.rbgs (s := .enter rr.config r.1 r.2 ueVector b)
      (t := .enter rr.config r'.1 r'.2 ueVector b) h (Nat.ne_of_gt hb) rfl hv
    exact hrun.mono fun _ => mem_append_left _

theorem beams_of_alike (rr : RoundRobin) (r r' : UlTable × Unit) {f : BeamId → Nat}
    {beams : BeamMap (Nat × Nat)} (h : Alike done r.1 r'.1)
    (hnd : (done ++ beams.flatMap fun e => e.2.map Prod.fst).Nodup) :
    (∃ e, beams.foldlM (fun t e => Ofdma.assignBeam rr.config (f e.1) t e.2) r = .error e ∧
        beams.foldlM (fun t e => assignBeam rr.config [] (f e.1) t e.2) r' = .error e) ∨
      ∃ t t' done', beams.foldlM (fun t e => Ofdma.assignBeam rr.config (f e.1) t e.2) r = .ok t ∧
        beams.foldlM (fun t e => assignBeam rr.config [] (f e.1) t e.2) r' = .ok t' ∧
          Alike done' t.1 t'.1 := by
  induction beams generalizing done r r' with
  | nil => exact .inr ⟨r, r', done, rfl, rfl, h⟩
  | cons e beams ih =>
    rw [foldlM_cons, foldlM_cons]
    rcases eq_or_ne rr.ulBitmask.rbgs [] with hnil | hne
    · have hl : Ofdma.assignBeam rr.config (f e.1) r e.2 = .error .assertion := if_pos hnil
      have hr : assignBeam rr.config [] (f e.1) r' e.2 = .error .assertion := if_pos hnil
      exact .inl ⟨_, by rw [hl]; rfl, by rw [hr]; rfl⟩
    · rw [flatMap_cons, ← append_assoc] at hnd
      have hdone : ∀ u ∈ e.2.map Prod.fst, u ∉ done := fun u hu hdone =>
        (nodup_append.1 (nodup_append.1 hnd).1).2.2 u hdone u hu rfl
      obtain ⟨t, t', hl, hr, halike⟩ := beam_of_alike (b := f e.1) h hne hdone
      rw [hl, hr]
      exact ih _ _ halike hnd

/-- What a call returns, but for the transport block sizes: the RBGs and symbols of the UEs, and the
symbols of the beams. -/
def allocation (r : UlTable × BeamSymbolMap) : (Nat → List Nat × List Nat) × BeamSymbolMap :=
  (fun u => ((r.1 u).ulRBG, (r.1 u).ulSym), r.2)

/-- With no targets at all, the UEs get what they get from `NrMacSchedulerOfdma`. -/
theorem assignULRBG_nil (cfg : RoundRobin) (symAvail : Nat) (active : ActiveUeMap) (ues : UlTable) :
    (assignULRBG cfg.config [] symAvail active ues ()).map allocation =
      (Ofdma.assignULRBG cfg.config symAvail active ues ()).map allocation := by
  have hrun := beams_of_alike cfg (ues, ()) (ues, ())
    (f := symOf (getSymPerBeam (cfg.symPerBeam symAvail active ues) active))
    (.refl [] ues) active.nodup
  rcases hrun with ⟨e, hl, hr⟩ | ⟨t, t', done', hl, hr, h⟩
  · rw [assignULRBG, Ofdma.assignULRBG]
    dsimp only [RoundRobin.config] at hl hr ⊢
    rw [hl, hr]
  · rw [assignULRBG, Ofdma.assignULRBG]
    dsimp only [RoundRobin.config] at hl hr ⊢
    rw [hl, hr]
    refine congrArg Except.ok (Prod.ext (funext fun u => ?_) rfl)
    exact Prod.ext (h.ulRBG u).symm (h.ulSym u).symm

end UlTarget

end OranNs3.Ofdma
