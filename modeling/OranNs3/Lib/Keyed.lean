import Mathlib.Data.List.Perm.Basic
import Mathlib.Data.List.Sort
import Mathlib.Data.List.TakeWhile

/-!
# Lists of records with a key

A map whose entries carry their own key, as the list of its entries in the order of its iterators:
`find?` is the lookup, `modify` an assignment to the entry of a key, `erase` its removal. The lemmas
about lookups need distinct keys only where an entry is given by membership. In a map in the order
of its keys (`Ordered`), `insert` adds an entry, or replaces the one of its key; such a map is
determined by its entries (`Ordered.eq_of_perm`). `insertBehind` puts an element behind all up to
its key, which may be repeated.
-/

namespace Keyed

open List

variable {κ α : Type*} [DecidableEq κ] {key : α → κ} {f : α → α} {k k' : κ} {l : List α} {a b : α}

/-- The entry of a key. -/
def find? (key : α → κ) (k : κ) (l : List α) : Option α := l.find? fun a => key a == k

/-- The entries after an assignment to the one of a key. -/
def modify (key : α → κ) (k : κ) (f : α → α) (l : List α) : List α :=
  l.map fun a => if key a = k then f a else a

/-- The entries without the one of a key. -/
def erase (key : α → κ) (k : κ) (l : List α) : List α := l.filter fun a => key a != k

@[simp]
theorem find?_cons : find? key k (a :: l) = if key a = k then some a else find? key k l := by
  by_cases ha : key a = k <;> simp [find?, ha]

@[simp]
theorem modify_cons :
    modify key k f (a :: l) = (if key a = k then f a else a) :: modify key k f l := rfl

theorem modify_of_notMem (h : k ∉ l.map key) : modify key k f l = l := by
  refine (map_congr_left fun a ha => ?_).trans (map_id l)
  exact if_neg fun (heq : key a = k) => h (heq ▸ mem_map_of_mem ha)

theorem key_of_find? (h : find? key k l = some a) : key a = k := by
  simpa using find?_some h

theorem mem_of_find? (h : find? key k l = some a) : a ∈ l := mem_of_find?_eq_some h

theorem find?_eq_none : find? key k l = none ↔ k ∉ l.map key := by
  simp [find?]

theorem exists_find? (h : k ∈ l.map key) : ∃ a, find? key k l = some a :=
  Option.ne_none_iff_exists'.1 fun hnone => find?_eq_none.1 hnone h

theorem mem_keys_of_find? (h : find? key k l = some a) : k ∈ l.map key :=
  mem_map.2 ⟨a, mem_of_find? h, key_of_find? h⟩

theorem find?_of_mem (hl : (l.map key).Nodup) (ha : a ∈ l) : find? key (key a) l = some a := by
  have hkey : key a ∈ l.map key := mem_map_of_mem ha
  obtain ⟨b, hb⟩ := exists_find? hkey
  rw [hb, inj_on_of_nodup_map hl (mem_of_find? hb) ha (key_of_find? hb)]

theorem mem_modify : b ∈ modify key k f l ↔ ∃ a ∈ l, b = if key a = k then f a else a := by
  simp [modify, eq_comm]

theorem forall_modify {P : α → Prop} (h : ∀ a ∈ l, P a) (hf : ∀ a ∈ l, key a = k → P (f a)) :
    ∀ a ∈ modify key k f l, P a := by
  intro b hb
  obtain ⟨a, ha, rfl⟩ := mem_modify.1 hb
  split
  · exact hf a ha ‹_›
  · exact h a ha

theorem map_modify {β : Type*} {g : α → β} (hf : ∀ a ∈ l, key a = k → g (f a) = g a) :
    (modify key k f l).map g = l.map g := by
  rw [modify, map_map]
  refine map_congr_left fun a ha => ?_
  simp only [Function.comp_apply]
  split
  · exact hf a ha ‹_›
  · rfl

theorem find?_modify_self (hf : ∀ a, key a = k → key (f a) = k) :
    find? key k (modify key k f l) = (find? key k l).map f := by
  induction l with
  | nil => rfl
  | cons a l ih =>
    by_cases ha : key a = k
    · simp [ha, hf a ha]
    · simp [ha, ih]

theorem find?_modify_of_ne (hf : ∀ a, key a = k → key (f a) = k) (hne : k' ≠ k) :
    find? key k' (modify key k f l) = find? key k' l := by
  induction l with
  | nil => rfl
  | cons a l ih =>
    by_cases ha : key a = k
    · simp [ha, hf a ha, hne.symm, ih]
    · simp [ha, ih]

theorem find?_of_map_eq {β : Type*} {g : α → β} (hg : ∀ a b, g a = g b → key a = key b) :
    ∀ {l l' : List α} {a : α}, l'.map g = l.map g → find? key k l = some a →
      ∃ b, find? key k l' = some b ∧ g b = g a
  | [], _, _, _, hf => nomatch hf
  | c :: l, [], _, h, _ => nomatch h
  | c :: l, c' :: l', a, h, hf => by
    obtain ⟨hc, hl⟩ := cons.inj h
    rw [find?_cons] at hf ⊢
    rw [hg c' c hc]
    split at hf
    · next hk =>
      cases hf
      exact ⟨c', if_pos hk, hc⟩
    · next hk =>
      rw [if_neg hk]
      exact find?_of_map_eq hg hl hf

theorem mem_erase : a ∈ erase key k l ↔ a ∈ l ∧ key a ≠ k := by
  simp [erase]

theorem mem_keys_erase : k' ∈ (erase key k l).map key ↔ k' ∈ l.map key ∧ k' ≠ k := by
  simp only [mem_map, mem_erase]
  constructor
  · rintro ⟨a, ⟨ha, hne⟩, rfl⟩
    exact ⟨⟨a, ha, rfl⟩, hne⟩
  · rintro ⟨⟨a, ha, rfl⟩, hne⟩
    exact ⟨a, ⟨ha, hne⟩, rfl⟩

theorem nodup_erase (h : (l.map key).Nodup) : ((erase key k l).map key).Nodup :=
  h.sublist (List.filter_sublist.map key)

theorem find?_erase_of_ne (hne : k' ≠ k) : find? key k' (erase key k l) = find? key k' l := by
  induction l with
  | nil => rfl
  | cons a l ih =>
    rw [erase] at ih ⊢
    by_cases ha : key a = k
    · simp [ha, hne.symm, ih]
    · simp [ha, ih]

/-! ## Maps in the order of their keys -/

section ordered
variable {κ α : Type*} [LinearOrder κ] {key : α → κ} {l l' : List α} {a b : α} {k : κ}

/-- The entries stand in the order of their keys. -/
def Ordered (key : α → κ) (l : List α) : Prop := l.Pairwise fun a b => key a < key b

/-- The entries with a new one, which replaces the one of its key. -/
def insert (key : α → κ) (a : α) (l : List α) : List α :=
  (erase key (key a) l).orderedInsert (fun a b => key a ≤ key b) a

theorem ordered_nil : Ordered key ([] : List α) := Pairwise.nil

theorem Ordered.nodup (h : Ordered key l) : (l.map key).Nodup :=
  pairwise_map.2 (h.imp fun hlt => hlt.ne)

theorem Ordered.erase (h : Ordered key l) : Ordered key (erase key k l) := Pairwise.filter _ h

theorem Ordered.eq_of_perm (h : Ordered key l) (h' : Ordered key l') (hp : l.Perm l') : l = l' :=
  hp.eq_of_pairwise (fun _ _ _ _ hab hba => absurd hab (lt_asymm hba)) h h'

theorem insert_perm_erase : (insert key a l).Perm (a :: Keyed.erase key (key a) l) :=
  perm_orderedInsert _ _ _

theorem Ordered.insert (h : Ordered key l) : Ordered key (insert key a l) := by
  have : Std.Total fun a b : α => key a ≤ key b := ⟨fun a b => le_total (key a) (key b)⟩
  have : IsTrans α fun a b : α => key a ≤ key b := ⟨fun _ _ _ => le_trans⟩
  have hle : (Keyed.insert key a l).Pairwise fun a b => key a ≤ key b :=
    Pairwise.orderedInsert a _ (h.erase.imp fun hlt => hlt.le)
  have hnodup : ((Keyed.insert key a l).map key).Nodup := by
    rw [(insert_perm_erase.map key).nodup_iff, map_cons, nodup_cons]
    exact ⟨fun hmem => (mem_keys_erase.1 hmem).2 rfl, h.erase.nodup⟩
  exact hle.imp₂ (fun _ _ hab hne => lt_of_le_of_ne hab hne) (pairwise_map.1 hnodup)

theorem erase_of_notMem (h : k ∉ l.map key) : Keyed.erase key k l = l :=
  filter_eq_self.2 fun a ha => by
    rw [bne_iff_ne]
    rintro rfl
    exact h (mem_map_of_mem ha)

theorem insert_perm (h : key a ∉ l.map key) : (insert key a l).Perm (a :: l) := by
  have hp : (insert key a l).Perm (a :: Keyed.erase key (key a) l) := insert_perm_erase
  rwa [erase_of_notMem h] at hp

theorem foldl_insert_perm {as : List α} (h : ((l ++ as).map key).Nodup) :
    (as.foldl (fun m a => insert key a m) l).Perm (l ++ as) := by
  induction as generalizing l with
  | nil => simp
  | cons a as ih =>
    have hmiddle : (l ++ a :: as).Perm ((a :: l) ++ as) := perm_middle
    have hnodup := (hmiddle.map key).nodup_iff.1 h
    have hnew : key a ∉ l.map key := by
      rw [cons_append, map_cons, map_append, nodup_cons, mem_append, not_or] at hnodup
      exact hnodup.1.1
    have hinsert : (insert key a l ++ as).Perm ((a :: l) ++ as) :=
      (insert_perm hnew).append_right as
    rw [foldl_cons]
    exact (ih ((hinsert.map key).nodup_iff.2 hnodup)).trans (hinsert.trans hmiddle.symm)

theorem erase_perm (hl : (l.map key).Nodup) (hp : l.Perm (a :: l')) :
    (Keyed.erase key (key a) l).Perm l' := by
  have hp' : (Keyed.erase key (key a) l).Perm (Keyed.erase key (key a) (a :: l')) := hp.filter _
  have hcons : Keyed.erase key (key a) (a :: l') = Keyed.erase key (key a) l' := by
    rw [Keyed.erase, filter_cons_of_neg (by simp)]
    rfl
  rwa [hcons, erase_of_notMem (nodup_cons.1 ((hp.map key).nodup_iff.1 hl)).1] at hp'

theorem Ordered.le_of_mem_dropWhile : ∀ {l : List α}, Ordered key l →
    a ∈ l.dropWhile (fun b => decide (key b < k)) → k ≤ key a
  | [], _, ha => absurd ha not_mem_nil
  | b :: l, h, ha => by
    obtain ⟨hfirst, hrest⟩ := pairwise_cons.1 h
    rw [dropWhile_cons] at ha
    by_cases hb : key b < k
    · rw [if_pos (decide_eq_true hb)] at ha
      exact Ordered.le_of_mem_dropWhile hrest ha
    · rw [if_neg fun ht => hb (of_decide_eq_true ht)] at ha
      rcases mem_cons.1 ha with rfl | ha
      · exact le_of_not_gt hb
      · exact (le_of_not_gt hb).trans (hfirst a ha).le

end ordered

/-! ## Lists in the order of a key -/

section sorted
variable {κ α : Type*} [LinearOrder κ] {key : α → κ} {l : List α} {a b : α}

/-- A new element behind those up to its key. -/
def insertBehind (key : α → κ) (a : α) (l : List α) : List α :=
  l.takeWhile (fun b => decide (key b ≤ key a)) ++ a :: l.dropWhile
    (fun b => decide (key b ≤ key a))

theorem mem_insertBehind : b ∈ insertBehind key a l ↔ b = a ∨ b ∈ l := by
  have happend := takeWhile_append_dropWhile (p := fun b => decide (key b ≤ key a)) (l := l)
  have hmem : b ∈ l ↔ b ∈ l.takeWhile (fun b => decide (key b ≤ key a)) ∨
      b ∈ l.dropWhile (fun b => decide (key b ≤ key a)) := by
    rw [← mem_append, happend]
  rw [insertBehind, mem_append, mem_cons, hmem]
  tauto

theorem length_insertBehind : (insertBehind key a l).length = l.length + 1 := by
  have hlength := congrArg List.length
    (takeWhile_append_dropWhile (p := fun b => decide (key b ≤ key a)) (l := l))
  rw [length_append] at hlength
  rw [insertBehind, length_append, length_cons, ← hlength, Nat.add_assoc]

theorem lt_of_mem_dropWhile {k : κ} : ∀ {l : List α}, l.Pairwise (key · ≤ key ·) →
    b ∈ l.dropWhile (fun b => decide (key b ≤ k)) → k < key b
  | [], _, hb => absurd hb not_mem_nil
  | c :: l, h, hb => by
    obtain ⟨hfirst, hrest⟩ := pairwise_cons.1 h
    rw [dropWhile_cons] at hb
    by_cases hc : key c ≤ k
    · rw [if_pos (decide_eq_true hc)] at hb
      exact lt_of_mem_dropWhile hrest hb
    · rw [if_neg fun ht => hc (of_decide_eq_true ht)] at hb
      rcases mem_cons.1 hb with rfl | hb
      · exact lt_of_not_ge hc
      · exact (lt_of_not_ge hc).trans_le (hfirst b hb)

theorem sorted_insertBehind (a : α) (h : l.Pairwise (key · ≤ key ·)) :
    (insertBehind key a l).Pairwise (key · ≤ key ·) := by
  have happend := takeWhile_append_dropWhile (p := fun b => decide (key b ≤ key a)) (l := l)
  have hafter : ∀ b ∈ l.dropWhile (fun b => decide (key b ≤ key a)), key a ≤ key b := fun b hb =>
    (lt_of_mem_dropWhile h hb).le
  rw [← happend] at h
  obtain ⟨hsorted₁, hsorted₂, hsorted₁₂⟩ := pairwise_append.1 h
  refine pairwise_append.2 ⟨hsorted₁, pairwise_cons.2 ⟨hafter, hsorted₂⟩, fun b hb c hc => ?_⟩
  rcases mem_cons.1 hc with rfl | hc
  · exact of_decide_eq_true (mem_takeWhile_imp (p := fun b => decide (key b ≤ key c)) hb)
  · exact hsorted₁₂ b hb c hc

theorem insertBehind_eq_concat (h : ∀ b ∈ l, key b ≤ key a) : insertBehind key a l = l ++ [a] := by
  have hall : ∀ b ∈ l, decide (key b ≤ key a) = true := fun b hb => decide_eq_true (h b hb)
  rw [insertBehind, takeWhile_eq_self_iff.2 hall, dropWhile_eq_nil_iff.2 hall]

end sorted

end Keyed
