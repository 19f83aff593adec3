import Mathlib.Data.List.Rotate
import Mathlib.Data.Nat.ModEq

/-!
# Rings

A list of fixed length used as a circular queue: `head` is the cell of the first element, and the
element at a distance from it stands in the cell `(head + distance) % length`. The contents are the
list rotated to its head (`contents`). A write at a distance writes the contents there
(`contents_set`); to overwrite the head and to move it by one is to drop the first element and to
put another one at the end (`contents_shift`).
-/

namespace Ring

open List

variable {α : Type*} {cells : List α} {head d : Nat} {a : α}

/-- The elements from the head on. -/
def contents (cells : List α) (head : Nat) : List α := cells.rotate head

@[simp]
theorem length_contents : (contents cells head).length = cells.length := length_rotate cells head

theorem getElem?_contents (hd : d < cells.length) :
    (contents cells head)[d]? = cells[(head + d) % cells.length]? := by
  rw [contents, getElem?_rotate hd, Nat.add_comm]

theorem contents_replicate {n : Nat} : contents (replicate n a) head = replicate n a := by
  refine eq_replicate_iff.2 ⟨by simp, fun b hb => ?_⟩
  exact eq_of_mem_replicate (mem_rotate.1 hb)

theorem index_inj {n i j : Nat} (hi : i < n) (hj : j < n) : (head + i) % n = (head + j) % n ↔
    i = j := by
  refine ⟨fun h => ?_, fun h => h ▸ rfl⟩
  have hmod : i ≡ j [MOD n] := Nat.ModEq.add_left_cancel' head h
  rwa [Nat.ModEq, Nat.mod_eq_of_lt hi, Nat.mod_eq_of_lt hj] at hmod

theorem contents_set (hd : d < cells.length) :
    contents (cells.set ((head + d) % cells.length) a) head = (contents cells head).set d a := by
  refine ext_getElem? fun i => ?_
  rcases Nat.lt_or_ge i cells.length with hi | hi
  · rw [getElem?_contents (by rwa [length_set]), length_set, getElem?_set, getElem?_set,
      getElem?_contents hi, length_contents, if_pos hd,
      if_pos (Nat.mod_lt _ (Nat.zero_lt_of_lt hd))]
    by_cases hdi : d = i
    · rw [if_pos hdi, if_pos (by rw [hdi])]
    · rw [if_neg hdi, if_neg fun h => hdi ((index_inj hd hi).1 h)]
  · rw [getElem?_eq_none (by simpa using hi), getElem?_eq_none (by simpa using hi)]

theorem contents_shift (hhead : head < cells.length) :
    contents (cells.set head a) ((head + 1) % cells.length) = (contents cells head).tail ++
      [a] := by
  have hset : contents (cells.set ((head + 0) % cells.length) a) head = (contents cells head).set 0
    a :=
    contents_set (Nat.zero_lt_of_lt hhead)
  rw [Nat.add_zero, Nat.mod_eq_of_lt hhead] at hset
  have hrotate : contents (cells.set head a) ((head + 1) % cells.length) =
    (contents (cells.set head a) head).rotate 1 := by
    rw [contents, contents, rotate_rotate]
    have hmod := rotate_mod (cells.set head a) (head + 1)
    rwa [length_set] at hmod
  rw [hrotate, hset]
  cases hc : contents cells head with
  | nil =>
    have hlen := congrArg List.length hc
    rw [length_contents, length_nil] at hlen
    omega
  | cons b l => rw [set_cons_zero, rotate_cons_succ, rotate_zero, tail_cons]

end Ring
