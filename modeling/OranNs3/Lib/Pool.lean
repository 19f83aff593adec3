import Mathlib.Data.List.Nodup
import Mathlib.Data.List.Perm.Basic
import Mathlib.Data.List.Flatten

/-!
# Resources that are handed out

Each of the resources `all` is free, or in the hands of one of `owners` (`Shared`). A free one is
given to an owner, and an owner gives its last one back; both keep that. Where no resource is twice
in `all`, the owners have different ones (`Shared.disjoint`).

An owner may note what it has several times over (`spread`).
-/

namespace Pool

open List

open Function (update)

variable {ι α : Type*} {all avail avail' l : List α} {owners : List ι} {own : ι → List α} {u v : ι}
  {x : α}

/-- Each resource is with one owner or free. -/
def Shared (all : List α) (owners : List ι) (own : ι → List α) (avail : List α) : Prop :=
  (owners.flatMap own ++ avail).Perm all

theorem Shared.start (all : List α) (owners : List ι) : Shared all owners (fun _ => []) all := by
  rw [Shared, flatMap_eq_nil_iff.2 fun _ _ => rfl]
  exact .rfl

theorem Shared.mem_iff (h : Shared all owners own avail) : x ∈ all ↔ (∃ u ∈ owners, x ∈ own u) ∨
    x ∈ avail := by
  rw [← Perm.mem_iff h, mem_append, mem_flatMap]

theorem Shared.mem (h : Shared all owners own avail) (hu : u ∈ owners) (hx : x ∈ own u) : x ∈ all :=
  h.mem_iff.2 (.inl ⟨u, hu, hx⟩)

section Update

variable [DecidableEq ι]

theorem flatMap_perm (hu : u ∈ owners) :
    (owners.flatMap own).Perm (own u ++ (owners.erase u).flatMap own) :=
  (perm_cons_erase hu).flatMap_right own

theorem flatMap_update_perm (hnd : owners.Nodup) (hu : u ∈ owners) :
    (owners.flatMap (update own u l)).Perm (l ++ (owners.erase u).flatMap own) := by
  have hothers : (owners.erase u).flatMap (update own u l) = (owners.erase u).flatMap own := by
    refine flatMap_congr fun v hv => Function.update_of_ne ?_ _ _
    rintro rfl
    exact hnd.not_mem_erase hv
  have hperm : (owners.flatMap (update own u l)).Perm
    (update own u l u ++ (owners.erase u).flatMap (update own u l)) :=
    flatMap_perm hu
  rwa [hothers, Function.update_self] at hperm

section
variable (h : Shared all owners own avail)
include h

/-- A free resource is given to an owner. -/
theorem Shared.give (hnd : owners.Nodup) (hu : u ∈ owners) (hx : avail.Perm (x :: avail')) :
    Shared all owners (update own u (own u ++ [x])) avail' := by
  refine Perm.trans ?_ h
  refine ((flatMap_update_perm hnd hu).append_right _).trans ?_
  refine Perm.trans ?_ ((flatMap_perm hu).append hx).symm
  simp only [append_assoc, singleton_append]
  exact List.perm_middle.symm.append_left _

/-- An owner gives its last resource back. -/
theorem Shared.takeBack (hnd : owners.Nodup) (hu : u ∈ owners) (hown : own u = l ++ [x])
    (hx : avail'.Perm (x :: avail)) : Shared all owners (update own u l) avail' := by
  refine Perm.trans ?_ h
  refine ((flatMap_update_perm hnd hu).append hx).trans ?_
  refine Perm.trans ?_ ((flatMap_perm hu).append_right _).symm
  rw [hown]
  simp only [append_assoc, singleton_append]
  exact List.perm_middle.append_left _

/-- Another owner has other resources. -/
theorem Shared.disjoint (hall : all.Nodup) (hu : u ∈ owners) (hv : v ∈ owners) (hne : u ≠ v) :
    (own u).Disjoint (own v) := by
  have hnd := (nodup_append.1 (h.nodup_iff.2 hall)).1
  rw [(flatMap_perm hu).nodup_iff] at hnd
  refine disjoint_of_subset_right ?_ (disjoint_of_nodup_append hnd)
  exact fun x hx => mem_flatMap.2 ⟨v, (mem_erase_of_ne hne.symm).2 hv, hx⟩

end

end Update

section
variable (h : Shared all owners own avail)
include h

/-- No resource that is free is with an owner. -/
theorem Shared.disjoint_free (hall : all.Nodup) (hu : u ∈ owners) : (own u).Disjoint avail :=
  disjoint_of_subset_left (fun _ hx => mem_flatMap.2 ⟨u, hu, hx⟩)
    (disjoint_of_nodup_append (h.nodup_iff.2 hall))

theorem Shared.nodup (hall : all.Nodup) (hu : u ∈ owners) : (own u).Nodup :=
  (nodup_flatMap.1 (nodup_append.1 (h.nodup_iff.2 hall)).1).1 u hu

theorem Shared.length_le (hu : u ∈ owners) : (own u).length ≤ all.length := by
  rw [← h.length_eq, length_append]
  exact Nat.le_trans (Sublist.length_le (sublist_flatten_of_mem (mem_map_of_mem hu)))
    (Nat.le_add_right _ _)

end

/-! ## What is noted several times over -/

variable (n : Nat)

/-- Each element `n` times. -/
def spread (l : List α) : List α := l.flatMap (List.replicate n)

@[simp]
theorem spread_nil : spread n ([] : List α) = [] := rfl

@[simp]
theorem spread_zero (l : List α) : spread 0 l = [] := flatMap_eq_nil_iff.2 fun _ _ => rfl

theorem spread_cons (x : α) (l : List α) :
    spread n (x :: l) = replicate n x ++ spread n l := rfl

theorem spread_concat (l : List α) (x : α) : spread n (l ++ [x]) = spread n l ++ replicate n x := by
  simp [spread]

theorem length_spread (l : List α) : (spread n l).length = l.length * n := by
  simp [spread, length_flatMap]

theorem mem_of_mem_spread {n : Nat} (hx : x ∈ spread n l) : x ∈ l := by
  obtain ⟨y, hy, hx⟩ := mem_flatMap.1 hx
  exact eq_of_mem_replicate hx ▸ hy

theorem mem_spread {n : Nat} (hn : 0 < n) : x ∈ spread n l ↔ x ∈ l :=
  ⟨mem_of_mem_spread, fun hx => mem_flatMap.2 ⟨x, hx, mem_replicate.2 ⟨Nat.ne_of_gt hn, rfl⟩⟩⟩

theorem count_spread [DecidableEq α] (n : Nat) (hl : l.Nodup) (hx : x ∈ l) :
    (spread n l).count x = n := by
  have hcount : ∀ l : List α, (spread n l).count x = l.count x * n := by
    intro l
    induction l with
    | nil => simp
    | cons y l ih =>
      rw [spread_cons, count_append, ih, count_cons, count_replicate, Nat.add_mul, Nat.add_comm]
      split <;> simp
  rw [hcount, count_eq_one_of_mem hl hx, Nat.one_mul]

end Pool
