import OranNs3.Lib.Keyed

/-!
# Entries moved to new keys

A map as the list of its pairs of a key and a value, whose keys are distinct. Some of its entries
get new keys through a second map: one after the other, an entry is taken out of the map and put
into the second one under its new key, and in the end the entries of the second map are inserted
(`rekey`). Old and new keys may coincide, since no entry is inserted before all are taken out. An
insertion leaves the entry that already has its key, so an entry that is not moved wins over one
that is moved to its key (`get_rekey_new`), and nothing is lost exactly where there is none such
(`rekey_perm`).
-/

namespace Rekey

open Keyed Option

variable {κ β : Type*} [DecidableEq κ] {k k' : κ} {b : β} {m l : List (κ × β)}

/-! ## Lookup, removal and insertion -/

/-- The value of a key. -/
def get (k : κ) (m : List (κ × β)) : Option β := (find? Prod.fst k m).map Prod.snd

/-- `std::map::insert`, which does nothing where the key is taken. -/
def emplace (m : List (κ × β)) (e : κ × β) : List (κ × β) :=
  if e.1 ∈ m.map Prod.fst then m else m ++ [e]

@[simp]
theorem get_nil : get k ([] : List (κ × β)) = none := rfl

theorem get_cons {e : κ × β} : get k (e :: m) = if e.1 = k then some e.2 else get k m := by
  rw [get, find?_cons]
  split <;> rfl

theorem get_append : get k (m ++ l) = (get k m).or (get k l) := by
  induction m with
  | nil => rfl
  | cons e m ih =>
    rw [List.cons_append, get_cons, get_cons, ih]
    split <;> rfl

theorem get_eq_none : get k m = none ↔ k ∉ m.map Prod.fst := by
  rw [get, map_eq_none_iff, find?_eq_none]

theorem mem_keys : k ∈ m.map Prod.fst ↔ ∃ b, get k m = some b := by
  rw [← not_iff_not, ← get_eq_none, ← ne_none_iff_exists', not_not]

theorem mem_of_get (h : get k m = some b) : (k, b) ∈ m := by
  obtain ⟨e, he, rfl⟩ := map_eq_some_iff.1 h
  obtain rfl := key_of_find? he
  exact mem_of_find? he

theorem get_erase : get k (erase Prod.fst k' m) = if k = k' then none else get k m := by
  split
  · next heq =>
    subst heq
    exact get_eq_none.2 fun hmem => (mem_keys_erase.1 hmem).2 rfl
  · next hne => rw [get, find?_erase_of_ne hne, get]

theorem perm_erase : ∀ {m : List (κ × β)}, (m.map Prod.fst).Nodup → get k m = some b →
    m.Perm ((k, b) :: erase Prod.fst k m)
  | (k', b') :: m, hm, h => by
    rw [List.map_cons, List.nodup_cons] at hm
    rw [get_cons] at h
    split at h
    · next heq =>
      have hk : k' = k := heq
      cases h
      subst hk
      have hrest : erase Prod.fst k' m = m := List.filter_eq_self.2 fun e he => by
        simpa using fun heq : e.1 = k' => hm.1 (List.mem_map.2 ⟨e, he, heq⟩)
      rw [erase, List.filter_cons_of_neg (by simp), ← erase, hrest]
    · next hne =>
      rw [erase, List.filter_cons_of_pos (by simpa using hne), ← erase]
      exact ((perm_erase hm.2 h).cons _).trans (List.Perm.swap _ _ _)

theorem get_emplace :
    get k (emplace m (k', b)) = (get k m).or (if k' = k then some b else none) := by
  rw [emplace]
  split
  · next hmem =>
    obtain ⟨c, hc⟩ := mem_keys.1 hmem
    by_cases hk : k' = k
    · subst hk
      simp [hc]
    · simp [hk]
  · rw [get_append, get_cons, get_nil]

theorem nodup_emplace {e : κ × β} (h : (m.map Prod.fst).Nodup) :
    ((emplace m e).map Prod.fst).Nodup := by
  rw [emplace]
  split
  · exact h
  · next hmem =>
    rw [List.map_append, List.map_singleton, List.nodup_append]
    exact ⟨h, List.nodup_singleton _, by
      rintro a ha b hb rfl; exact hmem (List.mem_singleton.1 hb ▸ ha)⟩

theorem get_foldl_emplace : ∀ {l m : List (κ × β)},
    get k (l.foldl emplace m) = (get k m).or (get k l)
  | [], m => by simp
  | (k', b) :: l, m => by
    rw [List.foldl_cons, get_foldl_emplace, get_emplace, get_cons, Option.or_assoc]
    split <;> rfl

theorem nodup_foldl_emplace : ∀ {l m : List (κ × β)}, (m.map Prod.fst).Nodup →
    ((l.foldl emplace m).map Prod.fst).Nodup
  | [], _, h => h
  | _ :: l, _, h => nodup_foldl_emplace (l := l) (nodup_emplace h)

theorem foldl_emplace_sublist : ∀ {l m : List (κ × β)}, (l.foldl emplace m).Sublist (m ++ l)
  | [], m => by simp
  | e :: l, m => by
    refine (foldl_emplace_sublist (l := l)).trans ?_
    rw [emplace]
    split
    · exact (List.Sublist.refl m).append (List.sublist_cons_self e l)
    · rw [List.append_assoc]
      exact List.Sublist.refl _

theorem foldl_emplace_eq : ∀ {l m : List (κ × β)}, ((m ++ l).map Prod.fst).Nodup →
    l.foldl emplace m = m ++ l
  | [], m, _ => by simp
  | e :: l, m, h => by
    rw [List.foldl_cons, emplace, if_neg, foldl_emplace_eq (by simpa using h), List.append_assoc]
    · rfl
    · rw [List.map_append, List.map_cons, List.nodup_append] at h
      exact fun hmem => h.2.2 _ hmem _ List.mem_cons_self rfl

/-! ## Moving entries -/

/-- One entry is taken out and put under its new key into the second map. -/
def take (acc : List (κ × β) × List (κ × β)) (mv : κ × κ) : List (κ × β) × List (κ × β) :=
  match get mv.1 acc.1 with
  | none => acc
  | some b => (erase Prod.fst mv.1 acc.1, emplace acc.2 (mv.2, b))

/-- The map with the entries moved to their new keys. -/
def rekey (mvs : List (κ × κ)) (m : List (κ × β)) : List (κ × β) :=
  (mvs.foldl take (m, [])).2.foldl emplace (mvs.foldl take (m, [])).1

/-- The moves are those of a partial bijection. -/
def Bijective (mvs : List (κ × κ)) : Prop := ∀ p ∈ mvs, ∀ q ∈ mvs, p.1 = q.1 ↔ p.2 = q.2

/-- What the two maps hold after the moves `done`, from the map `m`. -/
structure Taken (m : List (κ × β)) (done : List (κ × κ)) (acc : List (κ × β) × List (κ × β)) :
    Prop where
  rest : ∀ k, get k acc.1 = if k ∈ done.map Prod.fst then none else get k m
  new : ∀ p ∈ done, get p.2 acc.2 = get p.1 m
  other : ∀ k, k ∉ done.map Prod.snd → get k acc.2 = none
  nodup : (acc.1.map Prod.fst).Nodup
  nodupNew : (acc.2.map Prod.fst).Nodup
  perm : ((acc.1 ++ acc.2).map Prod.snd).Perm (m.map Prod.snd)

namespace Taken

variable {mvs done : List (κ × κ)} {acc : List (κ × β) × List (κ × β)} {mv : κ × κ}

theorem start (h : (m.map Prod.fst).Nodup) : Taken m [] (m, []) where
  rest k := by simp
  new := fun _ hp => nomatch hp
  other _ _ := rfl
  nodup := h
  nodupNew := List.nodup_nil
  perm := by simp

theorem rest_snoc (h : Taken m done acc) (k : κ) :
    (if k = mv.1 then none else get k acc.1) =
      if k ∈ (done ++ [mv]).map Prod.fst then none else get k m := by
  rw [h.rest k, List.map_append, List.map_singleton]
  by_cases hk : k = mv.1
  · simp [hk]
  · simp only [hk, List.mem_append, List.mem_singleton, or_false, if_false]

omit [DecidableEq κ] in
theorem notMem_done (hbij : Bijective (done ++ [mv])) (h : mv.1 ∉ done.map Prod.fst) :
    mv.2 ∉ done.map Prod.snd := fun hsnd => by
  obtain ⟨q, hq, hqp⟩ := List.mem_map.1 hsnd
  have hfst := (hbij q (List.mem_append_left _ hq) mv (by simp)).2 hqp
  exact h (List.mem_map.2 ⟨q, hq, hfst⟩)

theorem take_none (h : Taken m done acc) (hbij : Bijective (done ++ [mv]))
    (hget : get mv.1 acc.1 = none) : Taken m (done ++ [mv]) acc where
  rest k := by
    rw [← h.rest_snoc]
    split
    · next heq => rw [heq, hget]
    · rfl
  new p hp := by
    rcases List.mem_append.1 hp with hp | hp
    · exact h.new p hp
    · obtain rfl := List.mem_singleton.1 hp
      by_cases hmem : p.1 ∈ done.map Prod.fst
      · -- the entry was moved before, to the same key
        obtain ⟨q, hq, hqp⟩ := List.mem_map.1 hmem
        have heq := (hbij q (List.mem_append_left _ hq) p (by simp)).1 hqp
        rw [← heq, h.new q hq, hqp]
      · have hrest := h.rest p.1
        rw [hget, if_neg hmem] at hrest
        rw [← hrest]
        exact h.other _ (notMem_done hbij hmem)
  other k hk := h.other k fun hmem => hk (by simp [hmem])
  nodup := h.nodup
  nodupNew := h.nodupNew
  perm := h.perm

theorem take_some (h : Taken m done acc) (hbij : Bijective (done ++ [mv]))
    (hget : get mv.1 acc.1 = some b) :
    Taken m (done ++ [mv]) (erase Prod.fst mv.1 acc.1, emplace acc.2 (mv.2, b)) := by
  have hrest := h.rest mv.1
  rw [hget] at hrest
  have hmem : mv.1 ∉ done.map Prod.fst := fun hmem => by simp [hmem] at hrest
  rw [if_neg hmem] at hrest
  have hnew := h.other _ (notMem_done hbij hmem)
  have hfree := get_eq_none.1 hnew
  refine ⟨fun k => ?_, fun p hp => ?_, fun k hk => ?_, nodup_erase h.nodup,
    nodup_emplace h.nodupNew, ?_⟩
  · rw [get_erase, h.rest_snoc]
  · rw [get_emplace]
    rcases List.mem_append.1 hp with hp | hp
    · have hne : mv.2 ≠ p.2 := fun heq =>
        notMem_done hbij hmem (List.mem_map.2 ⟨p, hp, heq.symm⟩)
      rw [if_neg hne, h.new p hp, or_none]
    · obtain rfl := List.mem_singleton.1 hp
      rw [hnew, if_pos rfl, none_or, hrest]
  · rw [get_emplace, h.other k fun hk' => hk (by simp [hk']), if_neg, none_or]
    rintro rfl
    exact hk (by simp)
  · have hperm := (perm_erase h.nodup hget).map Prod.snd
    refine List.Perm.trans ?_ h.perm
    rw [emplace, if_neg hfree, List.map_append, List.map_append, List.map_append,
      ← List.append_assoc]
    exact List.perm_append_comm.trans ((hperm.append_right _).symm)

theorem step (h : Taken m done acc) (hbij : Bijective (done ++ [mv])) :
    Taken m (done ++ [mv]) (take acc mv) := by
  rw [take]
  split
  · next hget => exact h.take_none hbij hget
  · next b hget => exact h.take_some hbij hget

theorem run : ∀ {mvs done : List (κ × κ)} {acc}, Taken m done acc → Bijective (done ++ mvs) →
    Taken m (done ++ mvs) (mvs.foldl take acc)
  | [], done, acc, h, _ => by simpa using h
  | mv :: mvs, done, acc, h, hbij => by
    have hsplit : done ++ mv :: mvs = (done ++ [mv]) ++ mvs := by simp
    rw [hsplit] at hbij ⊢
    exact run (h.step fun p hp q hq =>
      hbij p (List.mem_append_left _ hp) q (List.mem_append_left _ hq)) hbij

end Taken

section rekey
variable {mvs : List (κ × κ)} {p : κ × κ}

theorem foldl_take_filter : ∀ {mvs : List (κ × κ)} {acc : List (κ × β) × List (κ × β)},
    (∀ k, get k m = none → get k acc.1 = none) →
    mvs.foldl take acc = (mvs.filter fun p => (get p.1 m).isSome).foldl take acc
  | [], _, _ => rfl
  | p :: mvs, acc, h => by
    have hstep : ∀ k, get k m = none → get k (take acc p).1 = none := fun k hk => by
      rw [take]
      split
      · exact h k hk
      · rw [get_erase, h k hk, ite_self]
    rw [List.foldl_cons, foldl_take_filter hstep]
    cases hp : get p.1 m with
    | none =>
      rw [List.filter_cons_of_neg (by simp [hp]), take, h _ hp]
    | some b => rw [List.filter_cons_of_pos (by simp [hp]), List.foldl_cons]

theorem rekey_filter : rekey mvs m = rekey (mvs.filter fun p => (get p.1 m).isSome) m := by
  rw [rekey, rekey, foldl_take_filter (m := m) fun _ => id]

section
variable (h : (m.map Prod.fst).Nodup)
include h

section
variable (hbij : Bijective mvs)
include hbij

theorem taken : Taken m mvs (mvs.foldl take (m, [])) := by
  have hrun : Taken m ([] ++ mvs) (mvs.foldl take (m, [])) := (Taken.start h).run hbij
  simpa using hrun

theorem nodup_rekey : ((rekey mvs m).map Prod.fst).Nodup :=
  nodup_foldl_emplace (taken h hbij).nodup

theorem get_rekey_new (hp : p ∈ mvs) :
    get p.2 (rekey mvs m) = (if p.2 ∈ mvs.map Prod.fst then none else get p.2 m).or
      (get p.1 m) := by
  have ht := taken h hbij
  rw [rekey, get_foldl_emplace, ht.rest, ht.new p hp]

theorem get_rekey_other (hk : k ∉ mvs.map Prod.snd) :
    get k (rekey mvs m) = if k ∈ mvs.map Prod.fst then none else get k m := by
  have ht := taken h hbij
  rw [rekey, get_foldl_emplace, ht.rest, ht.other k hk, or_none]

end

end

/-- No entry that is moved gets the key of one that is not. -/
def Free (mvs : List (κ × κ)) (m : List (κ × β)) : Prop :=
  ∀ p ∈ mvs, p.1 ∈ m.map Prod.fst → p.2 ∈ m.map Prod.fst → p.2 ∈ mvs.map Prod.fst

theorem Free.get_rekey (hfree : Free mvs m) (h : (m.map Prod.fst).Nodup) (hbij : Bijective mvs)
    (hp : p ∈ mvs) (hb : get p.1 m = some b) : get p.2 (rekey mvs m) = some b := by
  rw [get_rekey_new h hbij hp, hb]
  split
  · rfl
  · next hold =>
    have hkey : p.1 ∈ m.map Prod.fst := mem_keys.2 ⟨b, hb⟩
    rw [get_eq_none.2 fun hmem => hold (hfree p hp hkey hmem), none_or]

/-- No value is lost or doubled exactly if no entry loses its place. -/
theorem rekey_perm (h : (m.map Prod.fst).Nodup) (hbij : Bijective mvs) :
    ((rekey mvs m).map Prod.snd).Perm (m.map Prod.snd) ↔ Free mvs m := by
  have ht := taken h hbij
  generalize hacc : mvs.foldl take (m, []) = acc at ht
  have hrekey : rekey mvs m = acc.2.foldl emplace acc.1 := by rw [rekey, hacc]
  rw [hrekey]
  constructor
  · intro hperm p hp hold hnew
    -- as many entries as before: every insertion has found its key free
    have hlen : (acc.2.foldl emplace acc.1).length = (acc.1 ++ acc.2).length := by
      simpa using (hperm.trans ht.perm.symm).length_eq
    have hall := foldl_emplace_sublist.eq_of_length hlen
    have hnodup : ((acc.1 ++ acc.2).map Prod.fst).Nodup := hall ▸ nodup_foldl_emplace ht.nodup
    rw [List.map_append, List.nodup_append] at hnodup
    by_contra hnot
    obtain ⟨b, hb⟩ := mem_keys.1 hold
    obtain ⟨c, hc⟩ := mem_keys.1 hnew
    have h1 : p.2 ∈ acc.1.map Prod.fst := mem_keys.2 ⟨c, by rw [ht.rest, if_neg hnot, hc]⟩
    have h2 : p.2 ∈ acc.2.map Prod.fst := mem_keys.2 ⟨b, by rw [ht.new p hp, hb]⟩
    exact hnodup.2.2 _ h1 _ h2 rfl
  · intro hfree
    have hnodup : ((acc.1 ++ acc.2).map Prod.fst).Nodup := by
      rw [List.map_append, List.nodup_append]
      refine ⟨ht.nodup, ht.nodupNew, ?_⟩
      rintro k h1 _ h2 rfl
      obtain ⟨c, hc⟩ := mem_keys.1 h1
      obtain ⟨b, hb⟩ := mem_keys.1 h2
      have hsnd : k ∈ mvs.map Prod.snd := by
        by_contra hnot
        rw [ht.other k hnot] at hb
        cases hb
      obtain ⟨p, hp, rfl⟩ := List.mem_map.1 hsnd
      rw [ht.new p hp] at hb
      rw [ht.rest] at hc
      split at hc
      · cases hc
      · next hold => exact hold (hfree p hp (mem_keys.2 ⟨b, hb⟩) (mem_keys.2 ⟨c, hc⟩))
    rw [foldl_emplace_eq hnodup]
    exact ht.perm

end rekey

end Rekey
