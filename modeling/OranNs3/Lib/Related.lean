import Mathlib.Data.List.Perm.Basic

/-!
# Lists related element by element

`List.Forall₂` under the operations by which a family of objects changes: one is replaced, one is
added at the end, one is taken out. The relation may change at the same time, if it is kept by the
other elements.
-/

namespace Related

open List

open List (Forall₂)

variable {α β : Type*} {R R' : α → β → Prop} {xs : List α} {ys : List β} {x : α} {y : β} {i : Nat}

/-- An element and the others. -/
theorem perm_cons_eraseIdx (hi : xs[i]? = some x) : xs.Perm (x :: xs.eraseIdx i) := by
  obtain ⟨hlt, rfl⟩ := List.getElem?_eq_some_iff.1 hi
  exact (getElem_cons_eraseIdx_perm hlt).symm

theorem set_perm_cons_eraseIdx (hi : xs[i]? = some x) (x' : α) :
    (xs.set i x').Perm (x' :: xs.eraseIdx i) :=
  List.set_perm_cons_eraseIdx (List.getElem?_eq_some_iff.1 hi).1 x'

section
variable (h : Forall₂ R xs ys)
include h

/-- At each place both lists have related elements, or none. -/
theorem getElem? (i : Nat) : xs[i]? = none ∧ ys[i]? = none ∨
    ∃ x y, xs[i]? = some x ∧ ys[i]? = some y ∧ R x y := by
  induction h generalizing i with
  | nil => exact .inl ⟨rfl, rfl⟩
  | cons hxy _ ih =>
    cases i with
    | zero => exact .inr ⟨_, _, rfl, rfl, hxy⟩
    | succ i => exact ih i

theorem imp (hall : ∀ x ∈ xs, ∀ y, R x y → R' x y) : Forall₂ R' xs ys := by
  induction h with
  | nil => exact .nil
  | cons hxy _ ih =>
    exact .cons (hall _ mem_cons_self _ hxy) (ih fun x hx => hall x (mem_cons_of_mem _ hx))

/-- One pair is replaced. -/
theorem set (hothers : ∀ x ∈ xs.eraseIdx i, ∀ y, R x y → R' x y) (hxy : R' x y) :
    Forall₂ R' (xs.set i x) (ys.set i y) := by
  induction h generalizing i with
  | nil => exact .nil
  | cons hab h ih =>
    cases i with
    | zero => exact .cons hxy (imp h hothers)
    | succ i =>
      rw [eraseIdx_cons_succ, forall_mem_cons] at hothers
      exact .cons (hothers.1 _ hab) (ih hothers.2)

/-- One pair is taken out. -/
theorem eraseIdx (hothers : ∀ x ∈ xs.eraseIdx i, ∀ y, R x y → R' x y) :
    Forall₂ R' (xs.eraseIdx i) (ys.eraseIdx i) := by
  induction h generalizing i with
  | nil => exact .nil
  | cons hab h ih =>
    cases i with
    | zero => exact imp h hothers
    | succ i =>
      rw [eraseIdx_cons_succ, forall_mem_cons] at hothers
      exact .cons (hothers.1 _ hab) (ih hothers.2)

/-- One pair is added at the end. -/
theorem concat (hall : ∀ x ∈ xs, ∀ y, R x y → R' x y) (hxy : R' x y) :
    Forall₂ R' (xs ++ [x]) (ys ++ [y]) :=
  rel_append (imp h hall) (.cons hxy .nil)

end

theorem map_self {f : α → β} (h : ∀ x ∈ xs, R x (f x)) : Forall₂ R xs (xs.map f) := by
  rw [forall₂_map_right_iff]
  exact forall₂_same.2 h

theorem map_eq {γ : Type*} {f : α → γ} {g : β → γ} (h : Forall₂ (fun x y => g y = f x) xs ys) :
    ys.map g = xs.map f := by
  induction h with
  | nil => rfl
  | cons hxy _ ih => rw [map_cons, map_cons, hxy, ih]

/-- An element has one that it is related to. -/
theorem exists_mem (h : Forall₂ R xs ys) (hx : x ∈ xs) : ∃ y ∈ ys, R x y := by
  induction h with
  | nil => cases hx
  | cons hxy _ ih =>
    rcases mem_cons.1 hx with rfl | hx
    · exact ⟨_, mem_cons_self, hxy⟩
    · obtain ⟨y, hy, hR⟩ := ih hx
      exact ⟨y, mem_cons_of_mem _ hy, hR⟩

end Related
