import Mathlib.Data.List.Perm.Lattice
import OranNs3.Ric.Model

/-!
# The collected commands

The lemmas of `m_lmQueryCommands`. What is forwarded (`filterNoop`) is, up to the order, one slot
and the commands of the other slots (`filterNoop_perm`); a completion of a run replaces its slot
(`filterNoop_collect`, `filterNoop_clearSlot`), whatever the slot held before. Each of these maps
has at most one key more than the map it comes from.
-/

namespace OranNs3

open List

namespace RicWorld

variable {m : CommandMap} {k : String × Bool} {cs : List Command} {c : Command}

/-- The commands of the slots other than `k`. -/
def others (m : CommandMap) (k : String × Bool) : List Command :=
  (m.toList.filter fun p => !(k == p.1)).flatMap (·.2)

theorem filter_key (m : CommandMap) (k : String × Bool) :
    (m.toList.filter fun p => k == p.1).flatMap (·.2) = m.getD k [] := by
  have hnd : (m.toList.filter fun p => k == p.1).Nodup := by
    refine Nodup.sublist filter_sublist ?_
    refine (Std.TreeMap.distinct_keys_toList (t := m)).imp ?_
    rintro a b hab rfl
    exact hab Std.ReflCmp.compare_self
  rw [Std.TreeMap.getD_eq_getD_getElem?]
  cases hk : m[k]? with
  | none =>
    have : (m.toList.filter fun p => k == p.1) = [] := by
      refine filter_eq_nil_iff.2 fun p hp hkp => ?_
      rw [beq_iff_eq] at hkp
      have := Std.TreeMap.mem_toList_iff_getElem?_eq_some.1 hp
      rw [← hkp, hk] at this
      cases this
    rw [this]
    rfl
  | some cs =>
    have hp : (m.toList.filter fun p => k == p.1).Perm [(k, cs)] := by
      refine (perm_ext_iff_of_nodup hnd (nodup_singleton _)).2 fun p => ?_
      rw [mem_filter, mem_singleton, beq_iff_eq]
      constructor
      · rintro ⟨hp, rfl⟩
        have := Std.TreeMap.mem_toList_iff_getElem?_eq_some.1 hp
        rw [hk, Option.some_inj] at this
        rw [this]
      · rintro rfl
        exact ⟨Std.TreeMap.mem_toList_iff_getElem?_eq_some.2 hk, rfl⟩
    rw [perm_singleton.1 hp]
    simp

theorem filterNoop_perm (m : CommandMap) (k : String × Bool) :
    (filterNoop m).Perm (m.getD k [] ++ others m k) := by
  have hp := filter_append_perm (fun p : (String × Bool) × List Command => k == p.1) m.toList
  have := (hp.flatMap_right (·.2)).symm
  rw [flatMap_append, filter_key] at this
  exact this

theorem filterNoop_insert (m : CommandMap) (k : String × Bool) (cs : List Command) :
    (filterNoop (m.insert k cs)).Perm (cs ++ others m k) := by
  have := (Std.TreeMap.toList_insert_perm (t := m) (k := k) (v := cs)).flatMap_right (·.2)
  simp only [Bool.not_eq_true, Bool.decide_eq_false] at this
  exact this

theorem filterNoop_clearSlot (m : CommandMap) (k : String × Bool) :
    (filterNoop (clearSlot m k)).Perm (others m k) := by
  unfold clearSlot
  split
  · exact filterNoop_insert m k []
  · next h =>
    have := filterNoop_perm m k
    rwa [Std.TreeMap.getD_eq_fallback_of_contains_eq_false (Bool.eq_false_iff.2 h)] at this

theorem getD_clearSlot (m : CommandMap) (k : String × Bool) : (clearSlot m k).getD k [] = [] := by
  unfold clearSlot
  split
  · exact Std.TreeMap.getD_insert_self
  · next h => exact Std.TreeMap.getD_eq_fallback_of_contains_eq_false (Bool.eq_false_iff.2 h)

/-- The commands of a completed run replace what its slot held. -/
theorem filterNoop_collect (m : CommandMap) (k : String × Bool) (cs : List Command) :
    (filterNoop (appendSlot (clearSlot m k) k cs)).Perm (cs ++ others m k) := by
  have h1 := filterNoop_insert (clearSlot m k) k cs
  have h2 := filterNoop_perm (clearSlot m k) k
  rw [getD_clearSlot, nil_append] at h2
  rw [appendSlot, getD_clearSlot, nil_append]
  exact h1.trans ((h2.symm.trans (filterNoop_clearSlot m k)).append_left cs)

theorem mem_filterNoop_of_others (h : c ∈ others m k) : c ∈ filterNoop m :=
  (filterNoop_perm m k).mem_iff.2 (mem_append_right _ h)

theorem mem_of_mem_collect (h : c ∈ filterNoop (appendSlot (clearSlot m k) k cs)) :
    c ∈ cs ∨ c ∈ filterNoop m := by
  rcases mem_append.1 ((filterNoop_collect m k cs).mem_iff.1 h) with h | h
  · exact .inl h
  · exact .inr (mem_filterNoop_of_others h)

theorem mem_of_mem_clearSlot (h : c ∈ filterNoop (clearSlot m k)) : c ∈ filterNoop m :=
  mem_filterNoop_of_others ((filterNoop_clearSlot m k).mem_iff.1 h)

theorem mem_clearSlot {k' : String × Bool} : k' ∈ clearSlot m k ↔ k' ∈ m := by
  unfold clearSlot
  split
  · next h =>
    rw [Std.TreeMap.mem_insert, Std.LawfulEqCmp.compare_eq_iff_eq]
    constructor
    · rintro (rfl | h')
      · exact h
      · exact h'
    · exact .inr
  · exact Iff.rfl

theorem mem_collect {k' : String × Bool} :
    k' ∈ appendSlot (clearSlot m k) k cs ↔ k = k' ∨ k' ∈ m := by
  rw [appendSlot, Std.TreeMap.mem_insert, Std.LawfulEqCmp.compare_eq_iff_eq, mem_clearSlot]

end RicWorld

end OranNs3
