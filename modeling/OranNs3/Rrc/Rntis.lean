import OranNs3.Rrc.Spec

/-!
# The RNTIs of an RRC

`NrGnbRrc::AddUe` takes the first RNTI after the last one that has no context. So the RNTIs that are
allocated next are known before (`freeRntis`): each allocation takes the first of them and leaves
the others (`Added.free`).
-/

namespace OranNs3.Rrc

open Fallible Keyed List

variable (r : Rrc)

/-- The RNTIs of the contexts. -/
abbrev rntis : List Nat := r.ueMap.map UeManager.rnti

/-- An RNTI that can be allocated. -/
def Free (ρ : Nat) : Prop := ρ ≠ 0 ∧ ρ ∉ r.rntis
deriving Decidable

/-- The RNTIs that can be allocated, those after the last one first. -/
def freeRntis : List Nat :=
  ((range' 1 65536).map fun d => (r.lastAllocatedRnti + d) % 65536).filter fun ρ => r.Free ρ

/-- The loop of `AddUe` finds the first RNTI that can be allocated. -/
theorem findRnti_first (r : Rrc) {ρ : Nat} : ∀ {n last : Nat},
    r.findRnti n ((last + 1) % 65536) = some ρ → ∃ a < n, ρ = (last + (a + 1)) % 65536 ∧ r.Free ρ ∧
      ∀ d < a, ¬ r.Free ((last + (d + 1)) % 65536)
  | 0, _, h => by cases h
  | n + 1, last, h => by
    rw [findRnti] at h
    split at h
    · next hfree =>
      cases h
      exact ⟨0, n.succ_pos, rfl, ⟨hfree.1, Keyed.find?_eq_none.1 hfree.2⟩,
        fun d hd => absurd hd d.not_lt_zero⟩
    · next hused =>
      rw [Nat.mod_add_mod] at h
      obtain ⟨a, ha, hρ, hfree, hbefore⟩ := findRnti_first r h
      refine ⟨a + 1, Nat.succ_lt_succ ha, ?_, hfree, fun d hd => ?_⟩
      · rw [hρ, Nat.add_assoc, Nat.add_comm 1]
      · cases d with
        | zero => exact fun hf => hused ⟨hf.1, Keyed.find?_eq_none.2 hf.2⟩
        | succ d =>
          rw [Nat.add_comm (d + 1), ← Nat.add_assoc]
          exact hbefore d (Nat.lt_of_succ_lt_succ hd)

variable {r r' : Rrc}

/-- Once the first of them is allocated, the others can still be allocated, in the same order. -/
theorem freeRntis_cons {m ρ : Nat} (hm : m ≤ 65536)
    (h : r.findRnti m ((r.lastAllocatedRnti + 1) % 65536) = some ρ)
    (hrntis : r'.rntis = ρ :: r.rntis)
    (hlast : r'.lastAllocatedRnti = ρ) : r.freeRntis = ρ :: r'.freeRntis := by
  obtain ⟨a, ha, hρ, hfree, hbefore⟩ := findRnti_first r h
  obtain ⟨b, hb⟩ : ∃ b, a + (b + 1) = 65536 := ⟨65535 - a, by omega⟩
  have hfree' : ∀ σ, r'.Free σ ↔ r.Free σ ∧ σ ≠ ρ := by
    intro σ
    rw [Free, Free, hrntis, mem_cons, not_or]
    tauto
  -- the RNTIs up to the one that is allocated, and those after it
  have hsplit : r.freeRntis = ρ :: ((range' (a + 2) b).map fun d =>
    (r.lastAllocatedRnti + d) % 65536).filter
      fun σ => r.Free σ := by
    have hnone : ((range' 1 a).map fun d => (r.lastAllocatedRnti + d) % 65536).filter
        (fun σ => r.Free σ) = [] := by
      rw [filter_eq_nil_iff, List.forall_mem_map]
      intro d hd
      rw [mem_range'_1] at hd
      have hd' := hbefore (d - 1) (by omega)
      rw [Nat.sub_add_cancel hd.1] at hd'
      simpa using hd'
    have hrange : range' 1 65536 = range' 1 a ++ range' (1 + a) (b + 1) := by
      rw [range'_append_1, hb]
    rw [freeRntis, hrange, map_append, filter_append, hnone, nil_append, range'_succ, map_cons,
      Nat.add_comm 1 a, ← hρ, filter_cons_of_pos (by simpa using hfree)]
  have hrest : ((range' (1 + b) (a + 1)).map fun d => (ρ + d) % 65536).filter (fun σ => r'.Free σ) =
    [] := by
    rw [filter_eq_nil_iff, List.forall_mem_map]
    intro d hd
    rw [mem_range'_1] at hd
    rw [decide_eq_true_eq, hfree', hρ]
    rintro ⟨hf, hne⟩
    refine hbefore (d - b - 1) ?_ ?_
    · by_contra hlast
      exact hne (by omega)
    · have hsame : (r.lastAllocatedRnti + (d - b - 1 + 1)) % 65536 =
          ((r.lastAllocatedRnti + (a + 1)) % 65536 + d) % 65536 := by omega
      rwa [hsame]
  have hrange : range' 1 65536 = range' 1 b ++ range' (1 + b) (a + 1) := by
    rw [range'_append_1]
    congr 1
    omega
  have hshift : range' (a + 2) b = (range' 1 b).map (a + 1 + ·) := (map_add_range' 1 b 1).symm
  rw [hsplit, freeRntis, hlast, hrange, map_append, filter_append, hrest, append_nil, hshift,
    List.map_map]
  congr 1
  have hmap : (range' 1 b).map ((fun d => (r.lastAllocatedRnti + d) % 65536) ∘ (a + 1 + ·)) =
      (range' 1 b).map fun d => (ρ + d) % 65536 := by
    refine map_congr_left fun d hd => ?_
    show (r.lastAllocatedRnti + (a + 1 + d)) % 65536 = _
    rw [hρ]
    omega
  rw [hmap]
  refine filter_congr fun σ hσ => ?_
  obtain ⟨d, hd, rfl⟩ := mem_map.1 hσ
  rw [mem_range'_1] at hd
  have hne : (ρ + d) % 65536 ≠ ρ := by omega
  rw [decide_eq_decide, hfree']
  exact (and_iff_left hne).symm

/-- A context was added for a new RNTI, the last one that was allocated. -/
structure Added (r r' : Rrc) : Prop where
  rntis : r'.rntis = r'.lastAllocatedRnti :: r.rntis
  free : r.freeRntis = r'.lastAllocatedRnti :: r'.freeRntis

theorem free_of_mem {r : Rrc} {ρ : Nat} (h : ρ ∈ r.freeRntis) : r.Free ρ := by
  simpa using (mem_filter.1 h).2

theorem Added.isFree (h : r.Added r') : r.Free r'.lastAllocatedRnti :=
  free_of_mem (h.free ▸ mem_cons_self)

theorem Adds.added {s : UeState} {maxSrs : Bool} {p : Rrc × UeManager} (h : r.Adds s maxSrs p)
    (hrntis : r'.rntis = p.2.rnti :: r.rntis) (hlast : r'.lastAllocatedRnti = p.2.rnti) :
    r.Added r' := by
  have hcandidates : r.rntiCandidates ≤ 65536 := by
    rw [rntiCandidates]
    split <;> decide
  rw [← hlast] at hrntis
  exact ⟨hrntis, freeRntis_cons hcandidates (hlast ▸ h.first) hrntis rfl⟩

theorem added_allocateTemporaryCellRnti (r : Rrc) (cc : Nat) (maxSrs : Bool) :
    Spec (fun _ => True) (fun r' => if maxSrs then r' = r else r.Added r')
      (r.allocateTemporaryCellRnti cc maxSrs) := by
  unfold allocateTemporaryCellRnti
  split
  · rfl
  · refine (spec_addUe True r .initialRandomAccess cc maxSrs).bind fun p hp => ?_
    exact hp.2.added (by rw [rntis, hp.2.ueMap, map_cons]) hp.2.last

theorem rntis_setUe (r : Rrc) (u : UeManager) : (r.setUe u).rntis = r.rntis := by
  refine map_modify fun v _ hv => ?_
  exact hv.symm

theorem added_recvHandoverRequest (r : Rrc) (sourceCellId old targetCellId imsi : Nat)
    (bearers : List ErabToBeSetupItem) (preambleId : Nat)
    (haccept : r.cfg.admitHandoverRequest = true) :
    Spec (fun _ => True) r.Added
      (r.recvHandoverRequest sourceCellId old targetCellId imsi bearers false
        (some preambleId)) := by
  unfold recvHandoverRequest
  rw [haccept]
  change Spec _ _ (r.cellToComponentCarrierId targetCellId >>= _)
  cases r.cellToComponentCarrierId targetCellId with
  | error e => trivial
  | ok cc =>
    refine (spec_addUe True r .handoverJoining cc false).bind fun p hp => ?_
    refine (spec_setupBearers p.1 (p.2.setSource sourceCellId old imsi) bearers).bind fun p' hp' =>
      ?_
    refine (spec_componentCarrierToCellId _ _).bind fun cellId _ => ?_
    refine (does_sendX2 _ _ _).imp fun r' hr' => ?_
    have hrntis : r'.rntis = p.2.rnti :: r.rntis := by
      rw [hr']
      change ((p'.1.setUe _).rntis) = _
      rw [rntis_setUe, rntis, hp'.ueMap, hp.2.ueMap, map_cons]
    have hlastr : r'.lastAllocatedRnti = p.2.rnti := by
      rw [hr', ← hp.2.last, ← hp'.last]
      rfl
    exact hp.2.added hrntis hlastr

end OranNs3.Rrc
