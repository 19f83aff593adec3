import OranNs3.Repository.Model

/-!
# Which nodes are registered

Two queries derive the same fact. `IsNodeRegistered` takes the last record of a node, by time and
then by the number of the record; `GetLastRegistrationRequests` groups the records of each node and
reads the bare column `registered` beside the maximum of the time, so on a tie it may be of any of
the records with the latest time. They agree, whatever record is chosen, exactly when the records of
the node at its latest time have the same flag (`isNodeRegistered_agrees_iff`).
-/

namespace OranNs3

open List

namespace Repository

variable {r : Repository} {x : Nat} {row row' : RegistrationRow}

/-- The records of a node. -/
def records (r : Repository) (x : Nat) : List RegistrationRow :=
  Sql.group RegistrationRow.nodeid r.db.noderegistration x

/-- The record is one of the node, and none of the node is later. -/
def Latest (r : Repository) (x : Nat) (row : RegistrationRow) : Prop :=
  row ∈ r.records x ∧ ∀ row' ∈ r.records x, row'.simulationtime ≤ row.simulationtime

/-- The records of a node at its latest time have the same flag. -/
def LatestAgree (r : Repository) (x : Nat) : Prop :=
  ∀ row row', r.Latest x row → r.Latest x row' → row.registered = row'.registered

/-- A node is registered when its newest record says so. -/
theorem isNodeRegistered_iff : r.isNodeRegistered x = true ↔ r.active = true ∧ ∃ row,
    Sql.newest? RegistrationRow.simulationtime RegistrationRow.entryid (r.records x) = some row ∧
      row.registered = true := by
  unfold isNodeRegistered
  rw [show Sql.group RegistrationRow.nodeid r.db.noderegistration x = r.records x from rfl]
  cases r.active with
  | false => simp
  | true =>
    cases h : Sql.newest? RegistrationRow.simulationtime RegistrationRow.entryid (r.records x) with
    | none => simp
    | some row => simp

/-- A node is listed when the record picked for it says so. -/
theorem mem_getLastRegistrationRequests {b : Pick} :
    x ∈ (getLastRegistrationRequests b r).map (·.1) ↔ r.active = true ∧ ∃ row,
      b.pick (r.records x) = some row ∧ row.registered = true := by
  unfold getLastRegistrationRequests
  cases r.active with
  | false => simp
  | true =>
    simp only [if_true, map_map, mem_map, mem_insertionSort, mem_filter,
      Sql.mem_groupMax, Function.comp_apply, true_and]
    constructor
    · rintro ⟨row, ⟨hpick, hreg⟩, rfl⟩
      exact ⟨row, hpick, hreg⟩
    · rintro ⟨row, hpick, hreg⟩
      have hx : row.nodeid = x := (Sql.mem_group.1 (b.pick_some hpick).1).2
      subst hx
      exact ⟨row, ⟨hpick, hreg⟩, rfl⟩

theorem Latest.of_newest? (h : Sql.newest? RegistrationRow.simulationtime RegistrationRow.entryid
    (r.records x) = some row) : r.Latest x row :=
  Sql.newest?_eq_some h

theorem Latest.of_pick {b : Pick} (h : b.pick (r.records x) = some row) : r.Latest x row :=
  b.pick_some h

theorem Latest.exists_pick (h : r.Latest x row) : ∃ b : Pick, b.pick (r.records x) = some row :=
  ⟨(Sql.BareMax.first _).choose (r.records x) row h.1 h.2, Sql.BareMax.choose_pick _ h.1 h.2⟩

theorem mem_of_pick {b : Pick} (ha : r.active = true) (h : b.pick (r.records x) = some row) :
    x ∈ (getLastRegistrationRequests b r).map (·.1) ↔ row.registered = true := by
  rw [mem_getLastRegistrationRequests]
  constructor
  · rintro ⟨-, row', h', hreg⟩
    rw [h] at h'
    cases h'
    exact hreg
  · exact fun hreg => ⟨ha, row, h, hreg⟩

/-- `IsNodeRegistered` agrees with `GetLastRegistrationRequests`, whichever record the latter reads
on a tie, exactly if the repository is inactive or the records of the node at its latest time have
the same flag. -/
theorem isNodeRegistered_agrees_iff (r : Repository) (x : Nat) :
    (∀ b : Pick, r.isNodeRegistered x = true ↔
      x ∈ (getLastRegistrationRequests b r).map (·.1)) ↔ (r.active = true → r.LatestAgree x) := by
  constructor
  · intro h ha row row' hrow hrow'
    obtain ⟨b, hb⟩ := hrow.exists_pick
    obtain ⟨b', hb'⟩ := hrow'.exists_pick
    have hiff : row.registered = true ↔ row'.registered = true := by
      rw [← mem_of_pick ha hb, ← mem_of_pick ha hb', ← h b, ← h b']
    exact Bool.eq_iff_iff.2 hiff
  · intro h b
    rw [isNodeRegistered_iff, mem_getLastRegistrationRequests]
    constructor
    · rintro ⟨ha, row, hrow, hreg⟩
      have hlatest := Latest.of_newest? hrow
      obtain ⟨row', hrow'⟩ := b.pick_ne_nil (ne_nil_of_mem hlatest.1)
      refine ⟨ha, row', hrow', ?_⟩
      rw [← h ha row row' hlatest (Latest.of_pick hrow')]
      exact hreg
    · rintro ⟨ha, row, hrow, hreg⟩
      have hlatest := Latest.of_pick hrow
      cases hn : Sql.newest? RegistrationRow.simulationtime RegistrationRow.entryid
          (r.records x) with
      | none =>
        have := hlatest.1
        rw [Sql.newest?_eq_none.1 hn] at this
        cases this
      | some row' =>
        refine ⟨ha, row', rfl, ?_⟩
        rw [← h ha row row' hlatest (Latest.of_newest? hn)]
        exact hreg

/-- A node that is registered and deregistered at the same time: it is not registered, and the first
of its two records lists it. -/
theorem isNodeRegistered_disagrees : ¬ ∀ (history : List (Time × Call)) (b : Pick) (x : Nat),
    (afterHistory history).isNodeRegistered x = true ↔
      x ∈ (getLastRegistrationRequests b (afterHistory history)).map (·.1) := by
  intro h
  have := h [(5, .registerNode .nrUe 0), (5, .deregisterNode 1)] (Sql.BareMax.first _) 1
  exact absurd (this.2 (by decide)) (by decide)

end Repository

end OranNs3
