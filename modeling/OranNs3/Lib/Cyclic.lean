import Mathlib.Data.List.Count
import Mathlib.Data.Nat.ModEq
import Mathlib.Data.List.Nodup
import Mathlib.Data.List.Range
import Mathlib.Algebra.BigOperators.Group.List.Basic

/-!
# Plans around a cycle

A cycle has `m` positions, and the instants `0, 1, 2, …` go through it again and again. A *table*
says at every position how many instants ahead something is done: its entry `(i, ks)` stands for one
deed for the instant `s + k`, its *target*, for every `k` in `ks`, at every instant `s` of position
`i`.

A table that is filled with one entry for each position `p` of a list, `K p` ahead and at the
position from which `K p` leads to `p`, has every position of the list as the target of exactly one
entry (`targets_fill`), and serves every instant of such a position exactly once (`sum_count_fill`).
The number of instants ahead is found by a search (`firstFrom`).
-/

namespace Cyclic

open List

/-! ## The search -/

section firstFrom
variable {p : Nat → Option Bool} {q : Nat → Prop} {fuel n k j : Nat}

/-- A loop that counts `k` up until the test succeeds, at most `fuel` times. The test may be
undefined. -/
def firstFrom (p : Nat → Option Bool) : Nat → Nat → Option Nat
  | 0, _ => none
  | fuel + 1, k => (p k).bind fun b => if b then some k else firstFrom p fuel (k + 1)

theorem firstFrom_eq_some (hp : ∀ k, ∃ b, p k = some b ∧ (b = true ↔ q k)) :
    ∀ {fuel n j : Nat}, q (n + j) → j < fuel →
      ∃ k, firstFrom p fuel n = some k ∧ n ≤ k ∧ k ≤ n + j ∧ q k ∧ ∀ i, n ≤ i → i < k → ¬ q i
  | 0, _, _, _, hfuel => absurd hfuel (Nat.not_lt_zero _)
  | fuel + 1, n, j, hj, hfuel => by
    obtain ⟨b, hb, hq⟩ := hp n
    cases b with
    | true =>
      refine ⟨n, by simp [firstFrom, hb], le_rfl, Nat.le_add_right n j, hq.1 rfl, fun i h1 h2 => ?_⟩
      exact absurd (h1.trans_lt h2) (lt_irrefl n)
    | false =>
      have hn : ¬ q n := fun h => Bool.noConfusion (hq.2 h)
      cases j with
      | zero => exact absurd hj hn
      | succ j =>
        rw [← Nat.add_assoc, Nat.add_right_comm] at hj
        obtain ⟨k, hk, h1, h2, h3, h4⟩ := firstFrom_eq_some hp hj (Nat.lt_of_succ_lt_succ hfuel)
        refine ⟨k, by simp [firstFrom, hb, hk], by omega, by omega, h3, fun i hi hik => ?_⟩
        rcases Nat.eq_or_lt_of_le hi with rfl | hlt
        · exact hn
        · exact h4 i hlt hik

end firstFrom

/-! ## Tables -/

/-- Offsets by position. The order of the positions is that of their first entries. -/
abbrev Table := List (Nat × List Nat)

namespace Table

variable {m i k s t : Nat} {T : Table}

/-- The offsets at a position: none where the table has no entry. -/
def offsets (T : Table) (i : Nat) : List Nat := ((T.find? fun e => e.1 == i).map (·.2)).getD []

/-- One more offset at a position. -/
def pushBack : Table → Nat → Nat → Table
  | [], i, k => [(i, [k])]
  | (j, ks) :: T, i, k => if j = i then (j, ks ++ [k]) :: T else (j, ks) :: pushBack T i k

/-- The positions that the entries are for, entry by entry. -/
def targets (m : Nat) (T : Table) : List Nat := T.flatMap fun e => e.2.map fun k => (e.1 + k) % m

/-- The table with the offsets of every position in ascending order. -/
def sorted (T : Table) : Table := T.map fun e => (e.1, e.2.mergeSort)

/-- What holds of every entry. -/
def All (P : Nat → Nat → Prop) (T : Table) : Prop := ∀ e ∈ T, ∀ k ∈ e.2, P e.1 k

@[simp]
theorem offsets_cons {j : Nat} {ks : List Nat} :
    offsets ((j, ks) :: T) i = if j = i then ks else offsets T i := by
  by_cases hj : j = i <;> simp [offsets, hj]

theorem offsets_pushBack {j : Nat} :
    offsets (pushBack T i k) j = if i = j then offsets T j ++ [k] else offsets T j := by
  induction T with
  | nil => by_cases h : i = j <;> simp [pushBack, offsets, h]
  | cons e T ih =>
    obtain ⟨j', ks⟩ := e
    rw [pushBack]
    by_cases hi : j' = i
    · subst hi
      by_cases hj : j' = j <;> simp [hj]
    · rw [if_neg hi, offsets_cons, offsets_cons, ih]
      by_cases hj : j' = j
      · have hne : i ≠ j := fun h => hi (hj.trans h.symm)
        simp [hj, hne]
      · simp [hj]

theorem targets_pushBack : (targets m (pushBack T i k)).Perm ((i + k) % m :: targets m T) := by
  induction T with
  | nil => simp [pushBack, targets]
  | cons e T ih =>
    obtain ⟨j, ks⟩ := e
    rw [pushBack]
    split
    · next hj =>
      subst hj
      simp only [targets, flatMap_cons, map_append, map_cons, map_nil,
        append_assoc, singleton_append]
      exact perm_middle
    · simp only [targets, flatMap_cons]
      exact ((ih.append_left _).trans perm_middle)

theorem all_pushBack {P : Nat → Nat → Prop} (h : All P T) (hk : P i k) :
    All P (pushBack T i k) := by
  induction T with
  | nil =>
    intro e he k' hk'
    cases mem_singleton.1 he
    cases mem_singleton.1 hk'
    exact hk
  | cons e T ih =>
    obtain ⟨he, hT⟩ := forall_mem_cons.1 h
    obtain ⟨j, ks⟩ := e
    rw [pushBack]
    split
    · next hj =>
      subst hj
      refine forall_mem_cons.2 ⟨fun k' hk' => ?_, hT⟩
      rcases mem_append.1 hk' with hk' | hk'
      · exact he k' hk'
      · cases mem_singleton.1 hk'
        exact hk
    · exact forall_mem_cons.2 ⟨he, ih hT⟩

theorem offsets_sorted : offsets (sorted T) i = (offsets T i).mergeSort := by
  induction T with
  | nil => simp [sorted, offsets]
  | cons e T ih =>
    obtain ⟨j, ks⟩ := e
    rw [sorted] at ih ⊢
    rw [map_cons, offsets_cons, offsets_cons, ih]
    split <;> rfl

theorem targets_sorted : (targets m (sorted T)).Perm (targets m T) := by
  induction T with
  | nil => exact .rfl
  | cons e T ih =>
    rw [targets, sorted] at ih
    simp only [targets, sorted, map_cons, flatMap_cons]
    exact ((mergeSort_perm e.2 _).map _).append ih

/-! ## Filling a table -/

section fill
variable {ps : List Nat} {ix K : Nat → Nat}

/-- One entry for each position of a list, at `ix p` and `K p` ahead. -/
def fill (ix K : Nat → Nat) (ps : List Nat) (T : Table) : Table :=
  ps.foldl (fun T p => pushBack T (ix p) (K p)) T

@[simp]
theorem fill_nil : fill ix K [] T = T := rfl

theorem fill_concat {p : Nat} :
    fill ix K (ps ++ [p]) T = pushBack (fill ix K ps T) (ix p) (K p) := by
  simp [fill]

theorem offsets_fill : offsets (fill ix K ps []) i = (ps.filter fun p => ix p = i).map K := by
  induction ps using reverseRecOn with
  | nil => simp [offsets]
  | append_singleton ps p ih =>
    rw [fill_concat, offsets_pushBack, ih, filter_append, map_append]
    by_cases hp : ix p = i <;> simp [hp]

theorem targets_fill (hix : ∀ p ∈ ps, (ix p + K p) % m = p) :
    (targets m (fill ix K ps [])).Perm ps := by
  induction ps using reverseRecOn with
  | nil => simp [targets]
  | append_singleton ps p ih =>
    rw [fill_concat]
    refine targets_pushBack.trans ?_
    rw [hix p (by simp)]
    refine ((ih fun q hq => hix q (by simp [hq])).cons p).trans ?_
    simpa using (perm_append_comm : ([p] ++ ps).Perm (ps ++ [p]))

theorem all_fill {P : Nat → Nat → Prop} (hP : ∀ p ∈ ps, P (ix p) (K p)) :
    All P (fill ix K ps []) := by
  induction ps using reverseRecOn with
  | nil => exact forall_mem_nil _
  | append_singleton ps p ih =>
    rw [fill_concat]
    exact all_pushBack (ih fun q hq => hP q (by simp [hq])) (hP p (by simp))

/-- The offset from the instant `s` to the instant `t` stands in the table at the position of `s`
when it is that of the position of `t`. -/
theorem count_offsets_fill (hnodup : ps.Nodup) (hix : ∀ p ∈ ps, (ix p + K p) % m = p)
    (hlt : ∀ p ∈ ps, ix p < m) (hst : s ≤ t) :
    (offsets (fill ix K ps []) (s % m)).count (t - s) =
      if t % m ∈ ps ∧ s + K (t % m) = t then 1 else 0 := by
  rw [offsets_fill, List.count, countP_map, countP_filter]
  have key : ∀ p ∈ ps, ((((· == t - s) ∘ K) p && decide (ix p = s % m)) = true ↔
      (p == t % m && decide (s + K (t % m) = t)) = true) := by
    intro p hp
    simp only [Function.comp_apply, Bool.and_eq_true, beq_iff_eq, decide_eq_true_eq]
    constructor
    · rintro ⟨hK, hi⟩
      have hpt : p = t % m := by
        rw [← hix p hp, hi, hK, Nat.mod_add_mod, Nat.add_sub_cancel' hst]
      exact ⟨hpt, by rw [← hpt, hK, Nat.add_sub_cancel' hst]⟩
    · rintro ⟨hpt, hK⟩
      rw [← hpt] at hK
      refine ⟨by omega, ?_⟩
      have h1 : (ix p + K p) % m = (s + K p) % m := by rw [hix p hp, hK, hpt]
      have h2 : ix p % m = s % m := Nat.ModEq.add_right_cancel' (K p) h1
      rwa [Nat.mod_eq_of_lt (hlt p hp)] at h2
  rw [countP_congr key]
  split
  · next h =>
    simp only [h.2, decide_true, Bool.and_true]
    exact count_eq_one_of_mem hnodup h.1
  · next h =>
    refine countP_eq_zero.2 fun p hp hpt => h ?_
    simp only [Bool.and_eq_true, beq_iff_eq, decide_eq_true_eq] at hpt
    exact ⟨hpt.1 ▸ hp, hpt.2⟩

theorem sum_map_indicator {l : List Nat} {a : Nat} :
    (l.map fun s => if s = a then 1 else 0).sum = l.count a := by
  induction l with
  | nil => rfl
  | cons s l ih => simp [ih, count_cons, Nat.add_comm]

/-- Over the instants from `a` on, every instant whose position is in the list is served once, as
soon as they begin early enough for it. -/
theorem sum_count_fill (ix K : Nat → Nat) (hnodup : ps.Nodup) (hix : ∀ p ∈ ps, (ix p + K p) % m = p)
    (hlt : ∀ p ∈ ps, ix p < m) {a N : Nat} (hstart : a + K (t % m) ≤ t) (hend : t < a + N) :
    ((range' a N).map fun s =>
      (offsets (fill ix K ps []) (s % m)).countP fun k => s + k = t).sum =
      if t % m ∈ ps then 1 else 0 := by
  have hterm : ∀ s, ((offsets (fill ix K ps []) (s % m)).countP fun k => s + k = t) =
      if t % m ∈ ps ∧ s = t - K (t % m) then 1 else 0 := by
    intro s
    rcases Nat.lt_or_ge t s with hst | hst
    · have hne : s ≠ t - K (t % m) := by omega
      rw [if_neg fun h => hne h.2]
      exact countP_eq_zero.2 fun k _ hk => by
        simp only [decide_eq_true_eq] at hk
        omega
    · have hcount : ((offsets (fill ix K ps []) (s % m)).countP fun k => s + k = t) =
          (offsets (fill ix K ps []) (s % m)).count (t - s) := by
        refine countP_congr fun k _ => ?_
        simp only [decide_eq_true_eq, beq_iff_eq]
        omega
      rw [hcount, count_offsets_fill hnodup hix hlt hst]
      have hiff : s + K (t % m) = t ↔ s = t - K (t % m) := by omega
      simp only [hiff]
  simp only [hterm]
  by_cases hmem : t % m ∈ ps
  · simp only [hmem, true_and, if_true]
    have hin : t - K (t % m) ∈ range' a N := by
      rw [mem_range'_1]
      omega
    rw [sum_map_indicator, count_eq_one_of_mem nodup_range' hin]
  · simp [hmem]

end fill

end Table

end Cyclic
