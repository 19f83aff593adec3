import Mathlib.Data.Set.Card

/-!
# Maps of sets

A map from keys to sets, as the list of its entries: `emplace` adds an element to the set of a key,
and makes the entry if there is none, `remove` takes one away, and the entry with the last one. A
map that is only changed so has no entry with an empty set (`Wf`), and its keys are those that have
an element (`Wf.mem_keys`).
-/

/-- A map from keys to sets. -/
abbrev SetMap (κ α : Type*) := List (κ × List α)

namespace SetMap

open List

variable {κ α : Type*} {m : SetMap κ α} {k k' : κ} {a a' : α}

/-- The keys. -/
def keys (m : SetMap κ α) : List κ := m.map (·.1)

/-- An element of the set of a key. -/
def Has (m : SetMap κ α) (k : κ) (a : α) : Prop := ∃ e ∈ m, e.1 = k ∧ a ∈ e.2

/-- A map without empty sets. -/
structure Wf (m : SetMap κ α) : Prop where
  nodup : (keys m).Nodup
  ne_nil : ∀ e ∈ m, e.2 ≠ []

theorem wf_nil : Wf ([] : SetMap κ α) := ⟨nodup_nil, forall_mem_nil _⟩

theorem Has.mem_keys (h : Has m k a) : k ∈ keys m := by
  obtain ⟨e, he, rfl, -⟩ := h
  exact mem_map_of_mem he

theorem Wf.mem_keys (h : Wf m) : k ∈ keys m ↔ ∃ a, Has m k a := by
  constructor
  · intro hk
    obtain ⟨e, he, rfl⟩ := mem_map.1 hk
    obtain ⟨a, ha⟩ := exists_mem_of_ne_nil _ (h.ne_nil e he)
    exact ⟨a, e, he, rfl, ha⟩
  · rintro ⟨a, ha⟩
    exact ha.mem_keys

variable [DecidableEq κ]

theorem Wf.ncard_keys {m' : SetMap κ α} (h : Wf m) (h' : Wf m') :
    {k | ∃ a, Has m k a ∨ Has m' k a}.ncard = m.length + m'.countP fun e => e.1 ∉ keys m := by
  have hset : {k | ∃ a, Has m k a ∨ Has m' k a} =
      (((keys m ++ (keys m').filter fun k => k ∉ keys m).toFinset : Finset κ) : Set κ) := by
    ext k
    simp only [Set.mem_ofPred_eq, coe_toFinset, mem_append, mem_filter,
      decide_eq_true_eq, h.mem_keys, h'.mem_keys, exists_or]
    tauto
  have hnodup : (keys m ++ (keys m').filter fun k => k ∉ keys m).Nodup :=
    nodup_append.2 ⟨h.nodup, h'.nodup.filter _, fun x hx y hy hxy => by
      have := (mem_filter.1 hy).2
      rw [decide_eq_true_eq] at this
      exact this (hxy ▸ hx)⟩
  rw [hset, Set.ncard_coe_finset, toFinset_card_of_nodup hnodup, length_append,
    ← countP_eq_length_filter, keys, length_map, keys, countP_map]
  rfl

variable [DecidableEq α]

instance (m : SetMap κ α) (k : κ) (a : α) : Decidable (Has m k a) :=
  inferInstanceAs (Decidable (∃ _ ∈ _, _))

/-- One more element in the set of a key. -/
def emplace (k : κ) (a : α) (m : SetMap κ α) : SetMap κ α :=
  (if k ∈ keys m then m else m ++ [(k, [])]).map fun e =>
    if e.1 = k then (e.1, if a ∈ e.2 then e.2 else e.2 ++ [a]) else e

/-- One element less in the set of a key. -/
def remove (k : κ) (a : α) (m : SetMap κ α) : SetMap κ α :=
  (m.map fun e => if e.1 = k then (e.1, e.2.filter (· ≠ a)) else e).filter fun e =>
    ¬ (e.1 = k ∧ e.2 = [])

theorem keys_emplace : keys (emplace k a m) = if k ∈ keys m then keys m else keys m ++ [k] := by
  have hmap : ∀ l : SetMap κ α, keys (l.map fun e =>
      if e.1 = k then (e.1, if a ∈ e.2 then e.2 else e.2 ++ [a]) else e) = keys l := by
    intro l
    rw [keys, map_map]
    refine map_congr_left fun e _ => ?_
    simp only [Function.comp_apply]
    split <;> rfl
  rw [emplace, hmap]
  split
  · rfl
  · simp [keys]

/-- The elements after one more. -/
theorem has_emplace : Has (emplace k a m) k' a' ↔ (k' = k ∧ a' = a) ∨ Has m k' a' := by
  have hset : ∀ s : List α, a' ∈ (if a ∈ s then s else s ++ [a]) ↔ a' = a ∨ a' ∈ s := by
    intro s
    split
    · next h => exact ⟨.inr, fun h' => h'.elim (fun h' => h' ▸ h) id⟩
    · simp [or_comm]
  constructor
  · rintro ⟨e, he, rfl, ha⟩
    obtain ⟨e', he', rfl⟩ := mem_map.1 he
    split at ha
    · next hk =>
      rcases (hset _).1 ha with rfl | ha
      · exact .inl ⟨by rw [if_pos hk, hk], rfl⟩
      · refine .inr ?_
        rw [if_pos hk]
        split at he'
        · exact ⟨e', he', rfl, ha⟩
        · rcases mem_append.1 he' with he' | he'
          · exact ⟨e', he', rfl, ha⟩
          · cases mem_singleton.1 he'
            exact absurd ha not_mem_nil
    · next hk =>
      rw [if_neg hk]
      refine .inr ?_
      split at he'
      · exact ⟨e', he', rfl, ha⟩
      · rcases mem_append.1 he' with he' | he'
        · exact ⟨e', he', rfl, ha⟩
        · cases mem_singleton.1 he'
          exact absurd rfl hk
  · have hmem : ∀ e, e ∈ m → e ∈ (if k ∈ keys m then m else m ++ [(k, [])]) := by
      intro e he
      split
      · exact he
      · exact mem_append_left _ he
    rintro (⟨rfl, rfl⟩ | ⟨e, he, rfl, ha⟩)
    · have hk : ∃ e ∈ (if k' ∈ keys m then m else m ++ [(k', [])]), e.1 = k' := by
        split
        · next h => exact (mem_map.1 h).imp fun e he => he
        · exact ⟨(k', []), by simp, rfl⟩
      obtain ⟨e, he, hek⟩ := hk
      refine ⟨_, mem_map_of_mem he, ?_, ?_⟩
      · rw [if_pos hek, hek]
      · rw [if_pos hek]
        exact (hset _).2 (.inl rfl)
    · refine ⟨_, mem_map_of_mem (hmem e he), ?_, ?_⟩
      · split <;> rfl
      · split
        · exact (hset _).2 (.inr ha)
        · exact ha

theorem Wf.emplace (h : Wf m) : Wf (emplace k a m) := by
  constructor
  · rw [keys_emplace]
    split
    · exact h.nodup
    · next hk => exact nodup_append.2 ⟨h.nodup, nodup_singleton k,
        fun x hx y hy hxy => hk (by
          rw [mem_singleton] at hy
          exact hy ▸ hxy ▸ hx)⟩
  · intro e he
    obtain ⟨e', he', rfl⟩ := mem_map.1 he
    split
    · split
      · next ha => exact ne_nil_of_mem ha
      · simp
    · next hk =>
      split at he'
      · exact h.ne_nil e' he'
      · rcases mem_append.1 he' with he' | he'
        · exact h.ne_nil e' he'
        · cases mem_singleton.1 he'
          exact absurd rfl hk

theorem keys_map_filter : keys (m.map fun e => if e.1 = k then (e.1, e.2.filter (· ≠ a)) else e) =
    keys m := by
  rw [keys, map_map]
  refine map_congr_left fun e _ => ?_
  simp only [Function.comp_apply]
  split <;> rfl

theorem has_remove : Has (remove k a m) k' a' ↔ Has m k' a' ∧ ¬ (k' = k ∧ a' = a) := by
  constructor
  · rintro ⟨e, he, rfl, ha⟩
    obtain ⟨e', he', rfl⟩ := mem_map.1 (mem_of_mem_filter he)
    split at ha
    · next hk =>
      rw [if_pos hk]
      have ha := mem_filter.1 ha
      exact ⟨⟨e', he', rfl, ha.1⟩, fun h => by simpa [h.2] using ha.2⟩
    · next hk =>
      rw [if_neg hk]
      exact ⟨⟨e', he', rfl, ha⟩, fun h => hk h.1⟩
  · rintro ⟨⟨e, he, rfl, ha⟩, hne⟩
    refine ⟨if e.1 = k then (e.1, e.2.filter (· ≠ a)) else e,
      mem_filter.2 ⟨mem_map_of_mem he, ?_⟩, ?_, ?_⟩
    · split
      · next hk =>
        have hmem : a' ∈ e.2.filter (· ≠ a) := by
          rw [mem_filter]
          exact ⟨ha, by simpa using fun h => hne ⟨hk, h⟩⟩
        simp only [decide_eq_true_eq]
        exact fun h => ne_nil_of_mem hmem h.2
      · next hk => simp [hk]
    · split <;> rfl
    · split
      · next hk =>
        rw [mem_filter]
        exact ⟨ha, by simpa using fun h => hne ⟨hk, h⟩⟩
      · exact ha

theorem Wf.remove (h : Wf m) : Wf (remove k a m) := by
  constructor
  · have hkeys := keys_map_filter (m := m) (k := k) (a := a)
    rw [keys] at hkeys
    exact (hkeys ▸ h.nodup : (List.map _ _).Nodup).sublist (List.filter_sublist.map _)
  · intro e he
    rw [SetMap.remove, mem_filter] at he
    obtain ⟨e', he', heq⟩ := mem_map.1 he.1
    by_cases hk : e.1 = k
    · exact fun h' => by simpa [hk, h'] using he.2
    · have hk' : ¬ e'.1 = k := by
        intro hk'
        rw [if_pos hk'] at heq
        exact hk (heq ▸ hk')
      rw [if_neg hk'] at heq
      exact heq ▸ h.ne_nil e' he'

theorem mem_keys_of_remove (h : k' ∈ keys (remove k a m)) : k' ∈ keys m := by
  have hkeys := keys_map_filter (m := m) (k := k) (a := a)
  rw [← hkeys]
  exact (List.filter_sublist.map _).subset h

end SetMap
