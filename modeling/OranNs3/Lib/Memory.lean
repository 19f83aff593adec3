import Mathlib.Data.List.Basic

/-!
# Memory as a function of the address

A memory is a function from addresses to values. `slice` reads a stretch of it and `overwrite`
stores a list from an address on. The lemmas say how slices split, and which slices a store changes:
the one it covers becomes the list, one that is disjoint from it stays, and one around it is patched
(`patch`).
-/

namespace Memory

open List

variable {α : Type*} {f g : Nat → α} {p q m n : Nat} {l : List α}

/-- The `n` values from the address `p` on. -/
def slice (f : Nat → α) (p n : Nat) : List α := (List.range' p n).map f

/-- The memory after the values of `l` are stored from the address `p` on. -/
def overwrite (f : Nat → α) (p : Nat) (l : List α) : Nat → α :=
  fun i => if p ≤ i then l[i - p]?.getD (f i) else f i

@[simp] theorem length_slice : (slice f p n).length = n := by simp [slice]

@[simp] theorem slice_zero : slice f p 0 = [] := rfl

theorem getElem?_slice {k : Nat} (h : k < n) : (slice f p n)[k]? = some (f (p + k)) := by
  rw [slice, getElem?_map, getElem?_range' h, Nat.one_mul]
  rfl

theorem slice_append : slice f p m ++ slice f (p + m) n = slice f p (m + n) := by
  rw [slice, slice, slice, ← map_append, range'_append_1]

theorem slice_trans {r : Nat} (h1 : p ≤ q) (h2 : q ≤ r) :
    slice f p (q - p) ++ slice f q (r - q) = slice f p (r - p) := by
  obtain ⟨m, rfl⟩ := Nat.exists_eq_add_of_le h1
  rw [Nat.add_sub_cancel_left, slice_append]
  congr 1
  omega

theorem take_slice : (slice f p n).take m = slice f p (min m n) := by
  rw [slice, slice, ← map_take]
  rcases Nat.le_total n m with h | h
  · rw [take_range'_of_length_le h, Nat.min_eq_right h]
  · rw [take_range'_of_length_ge h, Nat.min_eq_left h]

theorem drop_slice : (slice f p n).drop m = slice f (p + m) (n - m) := by
  rw [slice, slice, ← map_drop, drop_range', Nat.mul_one]

theorem slice_congr (h : ∀ i, p ≤ i → i < p + n → f i = g i) : slice f p n = slice g p n := by
  refine map_congr_left fun i hi => ?_
  obtain ⟨h1, h2⟩ := mem_range'_1.1 hi
  exact h i h1 h2

theorem slice_ext (h : ∀ i < n, f (p + i) = g (q + i)) : slice f p n = slice g q n := by
  refine ext_getElem (by rw [length_slice, length_slice]) fun i h1 _ => ?_
  rw [length_slice] at h1
  simpa [slice] using h i h1

theorem eq_of_slice_eq {i : Nat} (h : slice f p n = slice g p n) (h1 : p ≤ i) (h2 : i < p + n) :
    f i = g i :=
  map_inj_left.1 h i (mem_range'_1.2 ⟨h1, h2⟩)

theorem slice_eq_of_slice_eq {k : Nat} (h : slice f p n = slice g q n) (hm : k + m ≤ n) :
    slice f (p + k) m = slice g (q + k) m := by
  have hpart : ∀ (f : Nat → α) (p : Nat), slice f (p + k) m = ((slice f p n).drop k).take m := by
    intro f p
    rw [drop_slice, take_slice]
    congr 1
    omega
  rw [hpart, hpart, h]

theorem overwrite_of_outside {i : Nat} (h : i < p ∨ p + l.length ≤ i) :
    overwrite f p l i = f i := by
  rw [overwrite]
  split
  · rw [getElem?_eq_none (by omega)]
    rfl
  · rfl

theorem overwrite_of_inside {i : Nat} (h1 : p ≤ i) (h2 : i < p + l.length) :
    overwrite f p l i = l[i - p] := by
  rw [overwrite, if_pos h1, getElem?_eq_getElem (by omega)]
  rfl

theorem slice_overwrite : slice (overwrite f p l) p l.length = l := by
  refine ext_getElem (by simp) fun i h1 h2 => ?_
  simp [slice, overwrite, h2]

theorem slice_overwrite_of_outside (h : q + n ≤ p ∨ p + l.length ≤ q) :
    slice (overwrite f p l) q n = slice f q n :=
  slice_congr fun i h1 h2 => overwrite_of_outside (by omega)

@[simp] theorem overwrite_nil : overwrite f p [] = f := by
  funext i
  simp [overwrite]

theorem overwrite_append {l' : List α} :
    overwrite (overwrite f p l) (p + l.length) l' = overwrite f p (l ++ l') := by
  funext i
  by_cases hp : p ≤ i
  · by_cases hl : i < p + l.length
    · rw [overwrite_of_outside (.inl hl), overwrite, overwrite, if_pos hp, if_pos hp,
        getElem?_append_left (by omega), getElem?_eq_getElem (by omega)]
    · rw [overwrite, if_pos (by omega), overwrite_of_outside (.inr (by omega)), overwrite,
        if_pos hp, getElem?_append_right (by omega), Nat.sub_add_eq]
  · rw [overwrite_of_outside (.inl (by omega)), overwrite_of_outside (.inl (by omega)),
      overwrite_of_outside (.inl (by omega))]

/-- A list with the values from the position `k` on replaced by others. -/
def patch (xs : List α) (k : Nat) (l : List α) : List α := xs.take k ++ l ++ xs.drop (k + l.length)

@[simp] theorem patch_nil {xs : List α} {k : Nat} : patch xs k [] = xs := by simp [patch]

theorem slice_overwrite_of_inside (h1 : q ≤ p) (h2 : p + l.length ≤ q + n) :
    slice (overwrite f p l) q n = patch (slice f q n) (p - q) l := by
  have hfront : p = q + (p - q) := by omega
  have hback : p + l.length = q + (p - q + l.length) := by omega
  calc slice (overwrite f p l) q n
      = slice (overwrite f p l) q (p - q) ++ slice (overwrite f p l) p l.length ++
          slice (overwrite f p l) (p + l.length) (n - (p - q + l.length)) := by
        rw [show slice (overwrite f p l) p l.length = slice (overwrite f p l) (q + (p - q))
          l.length by
            rw [← hfront], slice_append, hback, slice_append]
        congr 1
        omega
    _ = slice f q (p - q) ++ l ++ slice f (p + l.length) (n - (p - q + l.length)) := by
        rw [slice_overwrite, slice_overwrite_of_outside (.inl (by omega)),
          slice_overwrite_of_outside (.inr (Nat.le_refl _))]
    _ = patch (slice f q n) (p - q) l := by
        rw [patch, take_slice, drop_slice, Nat.min_eq_left (by omega), ← hback]

end Memory
