import Mathlib.Tactic.Common

/-!
# Computations with fuel

A function that is not known to terminate is computed with a number of calls that it may make, and
has no result when it would need more (`f : Nat → Option α`). It *returns* a value when every large
enough number gives it (`Returns`). Where more calls never change a result (`Mono`), one number that
gives a result is enough, and the result is the only one (`Mono.unique`).
-/

namespace Fuel

open Option

variable {α β : Type*} {x y z : Option α} {f g : Nat → Option α} {r r' : α} {n m : Nat}

/-! ## Results that are kept -/

/-- `y` is the result of `x`, where that has one. -/
def Leq (x y : Option α) : Prop := ∀ r, x = some r → y = some r

theorem Leq.refl (x : Option α) : Leq x x := fun _ => id

theorem Leq.trans (h : Leq x y) (h' : Leq y z) : Leq x z := fun r hr => h' r (h r hr)

theorem Leq.none (y : Option α) : Leq Option.none y := fun _ h => by cases h

theorem Leq.bind {k l : α → Option β} (h : Leq x y) (hkl : ∀ a, Leq (k a) (l a)) :
    Leq (x.bind k) (y.bind l) := by
  intro r hr
  obtain ⟨a, ha, hr⟩ := bind_eq_some_iff.1 hr
  exact bind_eq_some_iff.2 ⟨a, h a ha, hkl a r hr⟩

theorem Leq.map (h : Leq x y) (k : α → β) : Leq (x.map k) (y.map k) := by
  intro r hr
  obtain ⟨a, ha, hr⟩ := map_eq_some_iff.1 hr
  exact map_eq_some_iff.2 ⟨a, h a ha, hr⟩

theorem Leq.ite {p : Prop} [Decidable p] {x' y' : Option α} (h : Leq x y) (h' : Leq x' y') :
    Leq (if p then x else x') (if p then y else y') := by
  split
  · exact h
  · exact h'

/-- More calls keep the result. -/
def Mono (f : Nat → Option α) : Prop := ∀ n, Leq (f n) (f (n + 1))

theorem Mono.le (hf : Mono f) (h : n ≤ m) : Leq (f n) (f m) := by
  induction h with
  | refl => exact .refl _
  | step _ ih => exact ih.trans (hf _)

theorem Mono.unique (hf : Mono f) (hn : f n = some r) (hm : f m = some r') : r = r' := by
  have hr := hf.le (Nat.le_max_left n m) r hn
  have hr' := hf.le (Nat.le_max_right n m) r' hm
  exact some.inj (hr.symm.trans hr')

/-! ## Computations that return -/

/-- Every number of calls that is large enough gives the result. -/
def Returns (f : Nat → Option α) (r : α) : Prop := ∃ n, ∀ m, n ≤ m → f m = some r

theorem Returns.const (r : α) : Returns (fun _ => some r) r := ⟨0, fun _ _ => rfl⟩

theorem Returns.exists (h : Returns f r) : ∃ n, f n = some r := by
  obtain ⟨n, hn⟩ := h
  exact ⟨n, hn n (Nat.le_refl n)⟩

theorem Returns.unique (h : Returns f r) (h' : Returns f r') : r = r' := by
  obtain ⟨n, hn⟩ := h
  obtain ⟨m, hm⟩ := h'
  exact some.inj ((hn _ (Nat.le_max_left n m)).symm.trans (hm _ (Nat.le_max_right n m)))

theorem Returns.succ (h : Returns (fun n => f (n + 1)) r) : Returns f r := by
  obtain ⟨n, hn⟩ := h
  refine ⟨n + 1, fun m hm => ?_⟩
  obtain ⟨k, rfl⟩ := Nat.exists_eq_add_of_le hm
  rw [Nat.add_right_comm]
  exact hn (n + k) (Nat.le_add_right n k)

theorem Returns.bind {k : Nat → α → Option β} {s : β} (h : Returns f r)
    (hk : Returns (fun n => k n r) s) : Returns (fun n => (f n).bind (k n)) s := by
  obtain ⟨n, hn⟩ := h
  obtain ⟨m, hm⟩ := hk
  refine ⟨max n m, fun l hl => ?_⟩
  exact bind_eq_some_iff.2
    ⟨r, hn l (Nat.le_trans (Nat.le_max_left n m) hl), hm l (Nat.le_trans (Nat.le_max_right n m) hl)⟩

theorem Returns.of_bind {k : Nat → α → Option β} {s : β} (h : Returns f r)
    (hs : Returns (fun n => (f n).bind (k n)) s) : Returns (fun n => k n r) s := by
  obtain ⟨n, hn⟩ := h
  obtain ⟨m, hm⟩ := hs
  refine ⟨max n m, fun l hl => ?_⟩
  have hbind : (f l).bind (k l) = some s := hm l (Nat.le_trans (Nat.le_max_right n m) hl)
  rwa [hn l (Nat.le_trans (Nat.le_max_left n m) hl)] at hbind

theorem Returns.map (h : Returns f r) (k : α → β) : Returns (fun n => (f n).map k) (k r) := by
  obtain ⟨n, hn⟩ := h
  exact ⟨n, fun m hm => by simp [hn m hm]⟩

theorem Returns.congr (h : Returns f r) (hfg : ∀ n, g n = f n) : Returns g r := by
  obtain ⟨n, hn⟩ := h
  exact ⟨n, fun m hm => (hfg m).trans (hn m hm)⟩

end Fuel
