import OranNs3.Sched.Beams

/-!
# The order of the beams

`GetBeamOrderRR` puts an active beam at the index that it has in the queue, in a result that is as
long as there are active beams. That index is also counted for the beams of the queue that are not
active: where one of them stands before an active beam, the result keeps a default-constructed beam,
and a later beam is written behind its end. So the order is one of all active beams exactly where
the queue has these first (`permutes_iff`). The queue holds the beams as they were first active, and
is where it was after each call (`spec_getBeamOrderRR_take`).
-/

namespace OranNs3

open Fallible List

variable {rr active : List BeamId}

/-- The active beams are the first of the queue. -/
def ActiveFirst (rr active : List BeamId) : Prop :=
  (enqueueBeams rr active).Pairwise fun b c => c ∈ active → b ∈ active
deriving Decidable

theorem ActiveFirst.lt_length (h : ActiveFirst rr active) (hrr : rr.Nodup) {k : Nat}
    (hk : k < (enqueueBeams rr active).length) (hact : (enqueueBeams rr active)[k] ∈ active) :
    k < active.length := by
  have hsub : (enqueueBeams rr active).take (k + 1) ⊆ active := by
    intro b hb
    obtain ⟨i, hi, rfl⟩ := mem_take_iff_getElem.1 hb
    rcases Nat.lt_or_eq_of_le (show i ≤ k by omega) with hik | rfl
    · exact pairwise_iff_getElem.1 h i k (by omega) hk hik hact
    · exact hact
  have hnd : ((enqueueBeams rr active).take (k + 1)).Nodup :=
    (nodup_enqueueBeams active hrr).sublist (take_sublist _ _)
  have hlen := (subperm_of_subset hnd hsub).length_le
  rw [length_take] at hlen
  omega

theorem activeFirst_of_perm (hrr : rr.Nodup)
    (h : ((enqueueBeams rr active).take active.length).Perm active) : ActiveFirst rr active := by
  have hnd := nodup_enqueueBeams active hrr
  refine pairwise_iff_getElem.2 fun i j hi hj hij hact => ?_
  obtain ⟨l, hl, heq⟩ := mem_take_iff_getElem.1 (h.mem_iff.2 hact)
  obtain rfl : l = j := (Nodup.getElem_inj_iff hnd).1 heq
  exact h.mem_iff.1 (mem_take_iff_getElem.2 ⟨i, by omega, rfl⟩)

theorem getBeamOrderRR_iff (hrr : rr.Nodup) (hact : active.Nodup) :
    (∃ rr' order, getBeamOrderRR rr active = .ok (rr', order) ∧ order.Perm active) ↔
    ActiveFirst rr active := by
  constructor
  · rintro ⟨rr', order, hok, -⟩
    obtain ⟨-, horder, hperm⟩ :=
      (spec_getBeamOrderRR_take (E := fun _ => True) hact fun _ _ _ _ => trivial).ok hok
    exact activeFirst_of_perm hrr (horder ▸ hperm)
  · intro h
    have hspec := spec_getBeamOrderRR_take (E := fun _ => False) hact fun k hk hka hle =>
      absurd (h.lt_length hrr hk hka) (Nat.not_lt.2 hle)
    cases hok : getBeamOrderRR rr active with
    | error e => exact (hspec.error hok).elim
    | ok r => exact ⟨r.1, r.2, rfl, (hspec.ok hok).2.2⟩

/-- Every call of a history of calls with these active beams returns a permutation of them. -/
def Permutes : List BeamId → List (List BeamId) → Prop
  | _, [] => True
  | rr, active :: hist => ∃ rr' order, getBeamOrderRR rr active = .ok (rr', order) ∧
      order.Perm active ∧ Permutes rr' hist

/-- In every call of the history the active beams are the first of the queue, which holds the beams
as they were first active. -/
def AlwaysFirst : List BeamId → List (List BeamId) → Prop
  | _, [] => True
  | rr, active :: hist => ActiveFirst rr active ∧ AlwaysFirst (enqueueBeams rr active) hist

theorem permutes_iff_of_nodup {hist : List (List BeamId)} (hrr : rr.Nodup)
    (h : ∀ active ∈ hist, active.Nodup) : Permutes rr hist ↔ AlwaysFirst rr hist := by
  induction hist generalizing rr with
  | nil => exact Iff.rfl
  | cons active hist ih =>
    obtain ⟨hact, hhist⟩ := forall_mem_cons.1 h
    have hih := ih (nodup_enqueueBeams active hrr) hhist
    have hqueue : ∀ {rr' order}, getBeamOrderRR rr active = .ok (rr', order) →
      rr' = enqueueBeams rr active := fun hok =>
      ((spec_getBeamOrderRR_take (E := fun _ => True) hact fun _ _ _ _ => trivial).ok hok).1
    constructor
    · rintro ⟨rr', order, hok, hperm, hrest⟩
      refine ⟨(getBeamOrderRR_iff hrr hact).1 ⟨rr', order, hok, hperm⟩, hih.1 ?_⟩
      rw [← hqueue hok]
      exact hrest
    · rintro ⟨hfirst, hrest⟩
      obtain ⟨rr', order, hok, hperm⟩ := (getBeamOrderRR_iff hrr hact).2 hfirst
      refine ⟨rr', order, hok, hperm, ?_⟩
      rw [hqueue hok]
      exact hih.2 hrest

/-- In every history of calls, all calls return a permutation of the active beams if and only if in
each call no beam of the queue that is not active stands before an active one. -/
theorem permutes_iff (hist : List (List BeamId)) (h : ∀ active ∈ hist, active.Nodup) :
    Permutes [] hist ↔ AlwaysFirst [] hist :=
  permutes_iff_of_nodup List.nodup_nil h

/-- A beam joins another. -/
theorem permutes_iff_two : Permutes [] [[⟨1, 0⟩], [⟨2, 0⟩, ⟨1, 0⟩]] ↔
    AlwaysFirst [] [[⟨1, 0⟩], [⟨2, 0⟩, ⟨1, 0⟩]] :=
  permutes_iff _ (by decide)

/-- A beam is followed by another one: the second call writes behind the end of its result. -/
theorem not_permutes : ¬ Permutes [] [[⟨1, 0⟩], [⟨2, 0⟩]] := by
  rintro ⟨rr, order, hok, -, rr', order', hok', -⟩
  cases show getBeamOrderRR [] [⟨1, 0⟩] = .ok ([⟨1, 0⟩], [⟨1, 0⟩]) from rfl
  cases hok
  cases hok'

end OranNs3
