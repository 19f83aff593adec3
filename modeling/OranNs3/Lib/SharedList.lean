import Mathlib.Algebra.BigOperators.Group.Finset.Piecewise

/-!
# Linked lists that share their tails

Nodes have addresses, and `link` gives the node after a node. Lists are pointers, the roots, to
their first nodes; they may run into each other and share what follows. `Seg` is a stretch of a
list, and `incoming` the number of pointers to a node, from roots and from nodes below a bound.

The nodes of a list that are reached through single pointers are on no other list
(`Seg.not_mem_of_unshared`), so that their links can be changed without harm to others
(`Seg.relink_other`).
-/

namespace SharedList

open Finset Function List

variable {link link' : Nat → Option Nat} {roots : List (Option Nat)} {n a b x : Nat}
  {p q r : Option Nat} {l l' pre : List Nat}

/-! ## Segments -/

/-- The nodes `l` from the pointer `p` on, up to the pointer `q`. -/
inductive Seg (link : Nat → Option Nat) : Option Nat → List Nat → Option Nat → Prop
  | nil (p : Option Nat) : Seg link p [] p
  | cons {a : Nat} {l : List Nat} {q : Option Nat} (hl : Seg link (link a) l q) :
      Seg link (some a) (a :: l) q

namespace Seg

theorem nil_iff : Seg link p [] q ↔ p = q :=
  ⟨fun h => by cases h; rfl, fun h => h ▸ .nil p⟩

theorem cons_iff : Seg link p (a :: l) q ↔ p = some a ∧ Seg link (link a) l q :=
  ⟨fun h => by cases h with | cons hl => exact ⟨rfl, hl⟩, fun ⟨hp, hl⟩ => hp ▸ .cons hl⟩

theorem append_iff : Seg link p (l ++ l') q ↔ ∃ r, Seg link p l r ∧ Seg link r l' q := by
  induction l generalizing p with
  | nil => simp only [nil_append, nil_iff, exists_eq_left']
  | cons a l ih => simp only [cons_append, cons_iff, ih, and_assoc, exists_and_left]

theorem snoc_iff : Seg link p (l ++ [a]) q ↔ Seg link p l (some a) ∧ link a = q := by
  simp only [append_iff, cons_iff, nil_iff]
  exact ⟨fun ⟨r, h, hr, hq⟩ => ⟨hr ▸ h, hq⟩, fun ⟨h, hq⟩ => ⟨_, h, rfl, hq⟩⟩

theorem congr (h : Seg link p l q) (hsame : ∀ a ∈ l, link' a = link a) : Seg link' p l q := by
  induction h with
  | nil => exact .nil _
  | cons hl ih =>
    refine .cons ?_
    rw [hsame _ mem_cons_self]
    exact ih fun a ha => hsame a (mem_cons_of_mem _ ha)

theorem unique (h : Seg link p l none) (h' : Seg link p l' none) : l = l' := by
  induction l generalizing p l' with
  | nil =>
    cases nil_iff.1 h
    cases h'
    rfl
  | cons a l ih =>
    obtain ⟨rfl, hl⟩ := cons_iff.1 h
    cases h' with
    | cons hl' => rw [ih hl hl']

theorem nodup (h : Seg link p l none) : l.Nodup := by
  induction l generalizing p with
  | nil => exact .nil
  | cons a l ih =>
    obtain ⟨rfl, hl⟩ := cons_iff.1 h
    refine nodup_cons.2 ⟨fun ha => ?_, ih hl⟩
    -- the list from the second visit on is the whole list
    obtain ⟨l₁, l₂, rfl⟩ := append_of_mem ha
    obtain ⟨r, -, hr⟩ := append_iff.1 hl
    obtain ⟨rfl, -⟩ := cons_iff.1 hr
    have hlen := congrArg length (h.unique hr)
    simp only [length_cons, length_append] at hlen
    omega

theorem pred_of_mem (h : Seg link p l q) (ha : a ∈ l) : p = some a ∨ ∃ b ∈ l, link b = some a := by
  induction h with
  | nil => cases ha
  | @cons c l q hl ih =>
    rcases mem_cons.1 ha with rfl | ha
    · exact .inl rfl
    · rcases ih ha with hc | ⟨b, hb, hlink⟩
      · exact .inr ⟨c, mem_cons_self, hc⟩
      · exact .inr ⟨b, mem_cons_of_mem _ hb, hlink⟩

end Seg

/-! ## Counting pointers -/

/-- The pointers to a node, from the roots and from the nodes below `n`. -/
def incoming (link : Nat → Option Nat) (roots : List (Option Nat)) (n a : Nat) : Nat :=
  roots.count (some a) + ((Finset.range n).filter (link · = some a)).card

theorem incoming_cons :
    incoming link (p :: roots) n a = (if p = some a then 1 else 0) + incoming link roots n a := by
  rw [incoming, incoming, count_cons]
  simp only [beq_iff_eq]
  omega

theorem incoming_succ : incoming link roots (n + 1) a = incoming link roots n a + if link n =
    some a then 1 else 0 := by
  rw [incoming, incoming, range_add_one, filter_insert]
  split
  · rw [card_insert_of_notMem (by simp), add_assoc]
  · rfl

theorem incoming_perm {roots' : List (Option Nat)} (hp : roots.Perm roots') :
    incoming link roots n a = incoming link roots' n a := by
  rw [incoming, incoming, hp.count_eq]

variable (link roots q) in
theorem incoming_update (hb : b < n) : incoming (Function.update link b q) roots n a +
    (if link b = some a then 1 else 0) = incoming link roots n a + if q = some a then 1 else 0 := by
  have hmem : b ∈ Finset.range n := Finset.mem_range.2 hb
  have hrest : ∑ c ∈ (Finset.range n).erase b, (if update link b q c = some a then 1 else 0) =
      ∑ c ∈ (Finset.range n).erase b, if link c = some a then 1 else 0 :=
    sum_congr rfl fun c hc => by rw [update_of_ne (ne_of_mem_erase hc)]
  simp only [incoming, card_filter]
  rw [← add_sum_erase _ _ hmem,
    ← add_sum_erase (Finset.range n) (fun c => if link c = some a then 1 else 0) hmem, hrest,
    update_self]
  omega

variable (roots) in
theorem incoming_congr (hsame : ∀ b < n, link' b = link b) :
    incoming link' roots n a = incoming link roots n a := by
  rw [incoming, incoming]
  congr 2
  exact filter_congr fun b hb => by rw [hsame b (Finset.mem_range.1 hb)]

theorem incoming_pos (hb : b < n) (hlb : link b = some a) : 0 < incoming link roots n a := by
  have hnode : 0 < ((Finset.range n).filter (link · = some a)).card :=
    card_pos.2 ⟨b, mem_filter.2 ⟨Finset.mem_range.2 hb, hlb⟩⟩
  exact hnode.trans_le (Nat.le_add_left ..)

theorem two_le_incoming (hb : b < n) (hx : x < n) (hbx : b ≠ x) (hlb : link b = some a)
    (hlx : link x = some a) : 2 ≤ incoming link roots n a := by
  have hsub : {b, x} ⊆ (Finset.range n).filter (link · = some a) := by
    intro c hc
    rcases Finset.mem_insert.1 hc with rfl | hc
    · exact mem_filter.2 ⟨Finset.mem_range.2 hb, hlb⟩
    · rw [Finset.mem_singleton.1 hc]
      exact mem_filter.2 ⟨Finset.mem_range.2 hx, hlx⟩
  have hcard := Finset.card_le_card hsub
  rw [Finset.card_pair hbx] at hcard
  exact hcard.trans (Nat.le_add_left ..)

theorem two_le_incoming_root (hp : p ∈ roots) (hpa : p = some a) (hb : b < n)
    (hlb : link b = some a) : 2 ≤ incoming link roots n a := by
  have hroot : 0 < roots.count (some a) := count_pos_iff.2 (hpa ▸ hp)
  have hnode : 0 < ((Finset.range n).filter (link · = some a)).card :=
    card_pos.2 ⟨b, mem_filter.2 ⟨Finset.mem_range.2 hb, hlb⟩⟩
  rw [incoming]
  omega

/-! ## What is not shared -/

theorem Seg.not_mem_of_unshared (h : Seg link p pre r)
    (hone : ∀ a ∈ pre, incoming link (p :: roots) n a ≤ 1) (hpre : ∀ a ∈ pre, a < n)
    (hq : q ∈ roots) (hl : Seg link q l none) (hlt : ∀ a ∈ l, a < n) : ∀ a ∈ pre, a ∉ l := by
  -- a common node has one pointer, so the node before it is common too
  induction pre using reverseRecOn generalizing r with
  | nil => nofun
  | append_singleton pre a ih =>
    obtain ⟨hpre', -⟩ := snoc_iff.1 h
    have ih := ih hpre' (fun b hb => hone b (mem_append_left _ hb))
      (fun b hb => hpre b (mem_append_left _ hb))
    intro b hb
    rcases mem_append.1 hb with hb | hb
    · exact ih b hb
    cases List.mem_singleton.1 hb
    intro ha
    have hle := hone a (mem_append_right _ mem_cons_self)
    refine absurd hle (not_le.2 ?_)
    have hpred : p = some a ∨ ∃ b ∈ pre, link b = some a := by
      rcases eq_nil_or_concat pre with rfl | ⟨pre', b, rfl⟩
      · exact .inl (nil_iff.1 hpre')
      · rw [concat_eq_append] at hpre'
        exact .inr ⟨b, by simp, (snoc_iff.1 hpre').2⟩
    rcases hpred with hpa | ⟨b, hb, hlb⟩ <;> rcases hl.pred_of_mem ha with hqa | ⟨c, hc, hlc⟩
    · rw [incoming_cons, if_pos hpa, incoming]
      have hpos : 0 < roots.count (some a) := count_pos_iff.2 (hqa ▸ hq)
      omega
    · exact two_le_incoming_root mem_cons_self hpa (hlt c hc) hlc
    · exact two_le_incoming_root (mem_cons_of_mem _ hq) hqa (hpre b (mem_append_left _ hb)) hlb
    · have hbc : b ≠ c := fun heq => ih b hb (heq ▸ hc)
      exact two_le_incoming (hpre b (mem_append_left _ hb)) (hlt c hc) hbc hlb hlc

/-! ## Setting a link -/

/-- Where a pointer of a list is stored. -/
inductive Slot
  | root
  | node (a : Nat)

/-- Where the pointer behind a segment is stored. -/
def Slot.last (pre : List Nat) : Slot := pre.getLast?.elim .root .node

@[simp] theorem Slot.last_nil : Slot.last [] = .root := rfl

@[simp] theorem Slot.last_append : Slot.last (pre ++ [a]) = .node a := by simp [last]

/-- The links after the pointer of a slot is set. -/
def Slot.setLink (s : Slot) (link : Nat → Option Nat) (q : Option Nat) : Nat → Option Nat :=
  match s with
  | root => link
  | node a => Function.update link a q

/-- The root after the pointer of a slot is set. -/
def Slot.setRoot (s : Slot) (p q : Option Nat) : Option Nat :=
  match s with
  | root => q
  | node _ => p

theorem Slot.setLink_of_notMem (ha : a ∉ pre) : (Slot.last pre).setLink link q a = link a := by
  rcases eq_nil_or_concat pre with rfl | ⟨pre, b, rfl⟩
  · rfl
  · rw [concat_eq_append] at ha ⊢
    rw [Slot.last_append]
    exact update_of_ne (fun heq => ha (by simp [heq])) ..

theorem Seg.relink (h : Seg link p pre r) (hnodup : pre.Nodup) (q : Option Nat) :
    Seg ((Slot.last pre).setLink link q) ((Slot.last pre).setRoot p q) pre q := by
  rcases eq_nil_or_concat pre with rfl | ⟨pre, a, rfl⟩
  · exact .nil q
  · rw [concat_eq_append] at h hnodup ⊢
    rw [Slot.last_append]
    have ha : ∀ b ∈ pre, b ≠ a := fun b hb heq =>
      disjoint_of_nodup_append hnodup hb (heq ▸ List.mem_singleton_self a)
    refine snoc_iff.2 ⟨(snoc_iff.1 h).1.congr fun b hb => update_of_ne (ha b hb) .., ?_⟩
    exact update_self ..

theorem Seg.relink_other (h : Seg link p l q) (hdisj : ∀ a ∈ pre, a ∉ l) (r : Option Nat) :
    Seg ((Slot.last pre).setLink link r) p l q :=
  h.congr fun b hb => Slot.setLink_of_notMem fun hpre => hdisj b hpre hb

variable (roots) in
theorem Seg.incoming_relink (h : Seg link p pre r) (hlt : ∀ a ∈ pre, a < n) (q : Option Nat) :
    incoming ((Slot.last pre).setLink link q) ((Slot.last pre).setRoot p q :: roots) n x +
      (if r = some x then 1 else 0) = incoming link (p :: roots) n x + if q = some x then 1
      else 0 := by
  rcases eq_nil_or_concat pre with rfl | ⟨pre, a, rfl⟩
  · cases nil_iff.1 h
    change incoming link (q :: roots) n x + _ = _
    rw [incoming_cons, incoming_cons]
    omega
  · rw [concat_eq_append] at h hlt ⊢
    rw [Slot.last_append, ← (snoc_iff.1 h).2]
    exact incoming_update _ _ _ (hlt a (by simp))

end SharedList
