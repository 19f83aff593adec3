import Mathlib.Data.List.Dedup
import Mathlib.Data.List.MinMax
import Mathlib.Data.List.Sort
import Mathlib.Data.Prod.Lex

/-!
# Tables and queries

A table is the list of its rows in the order of their insertion. This module has the few forms of
statements a program needs that keeps the latest of timed records: a replacing insertion
(`insertOrReplace`), the newest row (`newest?`), and the query for the maximum of one column in each
group of rows (`groupMax`).

In such a query a *bare* column, one that is neither grouped nor aggregated, has its value from a
row of the group in which the maximum is attained; when several rows attain it, from any one of
them. The choice is the parameter `BareMax`, so that what is proved of a query holds for every
choice.
-/

namespace Sql

open List

universe u

variable {ρ : Type u}

/-! ## Insertion -/

/-- Insert a row, deleting the rows it conflicts with. -/
def insertOrReplace (conflicts : ρ → Bool) (row : ρ) (rows : List ρ) : List ρ :=
  rows.filter (fun r => !conflicts r) ++ [row]

variable {rows : List ρ}

theorem mem_insertOrReplace {conflicts : ρ → Bool} {row r : ρ} :
    r ∈ insertOrReplace conflicts row rows ↔ r = row ∨ r ∈ rows ∧ conflicts r = false := by
  rw [insertOrReplace, mem_append, mem_singleton, mem_filter, Bool.not_eq_true']
  exact or_comm

theorem exists_insertOrReplace {κ : Type*} {key : ρ → κ} {k : κ} {conflicts : ρ → Bool} {row : ρ}
    (hkey : ∀ r ∈ rows, conflicts r = true → key r = key row) :
    (∃ r ∈ insertOrReplace conflicts row rows, key r = k) ↔ k = key row ∨ ∃ r ∈ rows,
    key r = k := by
  constructor
  · rintro ⟨r, hr, rfl⟩
    rcases mem_insertOrReplace.1 hr with rfl | ⟨hr, -⟩
    · exact .inl rfl
    · exact .inr ⟨r, hr, rfl⟩
  · rintro (rfl | ⟨r, hr, rfl⟩)
    · exact ⟨row, mem_insertOrReplace.2 (.inl rfl), rfl⟩
    · cases hc : conflicts r with
      | true => exact ⟨row, mem_insertOrReplace.2 (.inl rfl), (hkey r hr hc).symm⟩
      | false => exact ⟨r, mem_insertOrReplace.2 (.inr ⟨hr, hc⟩), rfl⟩

/-! ## The newest row -/

/-- The first row in the order of descending times, and of descending numbers among equal times. -/
def newest? (time entry : ρ → Nat) (rows : List ρ) : Option ρ :=
  rows.argmax fun r => toLex (time r, entry r)

theorem newest?_eq_some {time entry : ρ → Nat} {r : ρ}
    (h : newest? time entry rows = some r) : r ∈ rows ∧ ∀ r' ∈ rows, time r' ≤ time r := by
  refine ⟨argmax_mem h, fun r' hr' => ?_⟩
  rcases (Prod.Lex.toLex_le_toLex).1 (le_of_mem_argmax hr' h) with hlt | ⟨heq, -⟩
  · exact hlt.le
  · exact heq.le

theorem newest?_eq_none {time entry : ρ → Nat} : newest? time entry rows = none ↔ rows = [] :=
  argmax_eq_none

/-! ## The maximum of a column in each group -/

/-- From which row of a group the bare columns have their values: one that attains the maximum. -/
structure BareMax (ρ : Type u) (time : ρ → Nat) where
  pick : List ρ → Option ρ
  pick_some : ∀ {rows r}, pick rows = some r → r ∈ rows ∧ ∀ r' ∈ rows, time r' ≤ time r
  pick_ne_nil : ∀ {rows}, rows ≠ [] → ∃ r, pick rows = some r

namespace BareMax

variable {time : ρ → Nat}

/-- The values of the first row that attains the maximum. -/
def first (time : ρ → Nat) : BareMax ρ time where
  pick := List.argmax time
  pick_some := fun h => ⟨List.argmax_mem h, fun _ hr' => List.le_of_mem_argmax hr' h⟩
  pick_ne_nil := by
    intro rows hne
    cases h : rows.argmax time with
    | none => exact absurd (List.argmax_eq_none.1 h) hne
    | some r => exact ⟨r, rfl⟩

/-- In one group, the values of a given row that attains the maximum. -/
def choose [DecidableEq ρ] (b : BareMax ρ time) (group : List ρ) (row : ρ) (hmem : row ∈ group)
    (hmax : ∀ r ∈ group, time r ≤ time row) : BareMax ρ time where
  pick := fun rows => if rows = group then some row else b.pick rows
  pick_some := by
    intro rows r h
    split at h
    · next heq =>
      cases h
      subst heq
      exact ⟨hmem, hmax⟩
    · exact b.pick_some h
  pick_ne_nil := by
    intro rows hne
    by_cases heq : rows = group
    · exact ⟨row, if_pos heq⟩
    · obtain ⟨r, hr⟩ := b.pick_ne_nil hne
      exact ⟨r, by rw [if_neg heq, hr]⟩

theorem choose_pick [DecidableEq ρ] (b : BareMax ρ time) {group : List ρ} {row : ρ}
    (hmem : row ∈ group) (hmax : ∀ r ∈ group, time r ≤ time row) :
    (b.choose group row hmem hmax).pick group = some row :=
  if_pos rfl

end BareMax

variable {time : ρ → Nat}

/-- The rows of one group. -/
def group (key : ρ → Nat) (rows : List ρ) (k : Nat) : List ρ := rows.filter fun r => key r == k

theorem mem_group {key : ρ → Nat} {k : Nat} {r : ρ} :
    r ∈ group key rows k ↔ r ∈ rows ∧ key r = k := by
  rw [group, mem_filter, beq_iff_eq]

/-- For each group a row that attains the maximum. -/
def groupMax (b : BareMax ρ time) (key : ρ → Nat) (rows : List ρ) : List ρ :=
  (rows.map key).dedup.filterMap fun k => b.pick (group key rows k)

theorem mem_groupMax {b : BareMax ρ time} {key : ρ → Nat} {r : ρ} :
    r ∈ groupMax b key rows ↔ b.pick (group key rows (key r)) = some r := by
  rw [groupMax, mem_filterMap]
  constructor
  · rintro ⟨k, -, hpick⟩
    have hk := (mem_group.1 (b.pick_some hpick).1).2
    rw [hk]
    exact hpick
  · intro hpick
    have hmem := (mem_group.1 (b.pick_some hpick).1).1
    exact ⟨key r, mem_dedup.2 (mem_map_of_mem hmem), hpick⟩

end Sql
