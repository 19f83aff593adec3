import Mathlib.Data.Set.Card
import OranNs3.Lib.Related
import OranNs3.Lib.Run
import OranNs3.Network.PacketTagsShape

/-!
# Tag lists are maps

Each operation of a tag list on a heap with the invariant `Shape`: what it gives, that it keeps the
invariant and the other lists (`Frame`), and what the list is afterwards as a map from types to tags
(`Maps`). `tags_refine` puts the operations together for whole programs: lists that share nodes
behave as maps of their own, and counts stay exact.
-/

namespace OranNs3.Network

open Function List Option

open SharedList (Seg Slot incoming)

variable {Tid Tag : Type} {h h' h₁ : TagHeap Tid} {p p' q : Option Nat} {ps ps' : List (Option Nat)}
  {a b : Nat} {n : TagData Tid} {l : List Nat}

/-! ## The operations -/

section
variable [DecidableEq Tid] {T : TagTypes Tid Tag} {tid : Tid} {tag : Tag} {data : List UInt8}
  {l₁ l₂ : List Nat}

section
variable (hs : Shape h (p :: ps))
include hs

section
variable (hl : Seg h.link p (l₁ ++ a :: l₂) none)
include hl

theorem Shape.remove_found (hl₁ : ∀ b ∈ l₁, h.tidOf b ≠ some tid) (ha : h.item a = some (tid, data))
    (hread : T.deserialize tid data = some tag) : ∃ h' p' l',
    PacketTagList.remove T (h, p) tid = some ((h', p'), some tag) ∧ Shape h' (p' :: ps) ∧
      Frame h h' ps ∧ Seg h'.link p' l' none ∧ l'.map h'.item = (l₁ ++ l₂).map h.item := by
  have htid : h.tidOf a = some tid := by rw [TagHeap.tidOf, ha]; rfl
  obtain ⟨preMerge, h₀, p₀, pre, hrun, hat, hframe, hpre, hrest, hkind⟩ :=
    hs.cowTraverse_found hl hl₁ htid (PacketTagList.removeWriter T)
  have ha₀ : h₀.item a = some (tid, data) := (hrest a mem_cons_self).trans ha
  obtain ⟨n, hn, heq, hlink, -⟩ := TagHeap.exists_node ha₀
  obtain ⟨rfl, rfl⟩ := Prod.mk.inj heq
  have hpost : ∀ x ∈ l₂, h₀.item x = h.item x := fun x hx => hrest x (mem_cons_of_mem _ hx)
  rw [PacketTagList.remove, hrun]
  rcases hkind with ⟨rfl, hone, -⟩ | ⟨rfl, hshared, -⟩
  · obtain ⟨h₁, h₂, p', hset, hfree, hat', hframe', hitem'⟩ := hat.freeNode hone
    rw [hlink] at hset
    have hnot : ∀ x ∈ pre ++ l₂, x ≠ a := fun x hx heq => by
      have hnodup := hat.nodup
      rw [nodup_middle] at hnodup
      exact (nodup_cons.1 hnodup).1 (heq ▸ hx)
    refine ⟨h₂, p', pre ++ l₂, ?_, hat'.shape, hframe.trans hframe', hat'.whole, ?_⟩
    · simp only [PacketTagList.removeWriter, hn, bind_some, hread, hset, if_true, hfree, map_some]
    · rw [map_congr_left fun x hx => hitem' x (hnot x hx), map_append, map_append, hpre,
        map_congr_left hpost]
  · obtain ⟨h₁, h₂, h₃, p', hset, hdec, hinc, hat', hframe', hitem'⟩ := hat.unlink hshared
    rw [hlink] at hset hinc
    refine ⟨h₃, p', pre ++ l₂, ?_, hat'.shape, hframe.trans hframe', hat'.whole, ?_⟩
    · simp only [PacketTagList.removeWriter, hn, bind_some, hread, hset, Bool.false_eq_true,
        if_false, hdec, hinc, map_some]
    · rw [hitem', map_append, map_append, hpre, map_congr_left hpost]

theorem Shape.replace_inPlace
    (hl₁ : ∀ b ∈ l₁, h.tidOf b ≠ some (T.tid tag)) (ha : h.item a = some (T.tid tag, data))
    (hone : ∀ b ∈ l₁ ++ [a], h.countOf b ≤ 1) :
    (PacketTagList.rewrite data (T.serialize tag) = none →
      PacketTagList.replace T (h, p) tag = none) ∧
    ∀ data', PacketTagList.rewrite data (T.serialize tag) = some data' → ∃ h' p' l',
      PacketTagList.replace T (h, p) tag = some ((h', p'), true) ∧ Shape h' (p' :: ps) ∧
        Frame h h' ps ∧
      Seg h'.link p' l' none ∧
      l'.map h'.item = l₁.map h.item ++ some (T.tid tag, data') :: l₂.map h.item := by
  have htid : h.tidOf a = some (T.tid tag) := by rw [TagHeap.tidOf, ha]; rfl
  obtain ⟨preMerge, h₀, p₀, pre, hrun, hat, hframe, hpre, hrest, hkind⟩ :=
    hs.cowTraverse_found hl hl₁ htid (PacketTagList.replaceWriter T tag)
  have ha₀ : h₀.item a = some (T.tid tag, data) := (hrest a mem_cons_self).trans ha
  obtain ⟨n, hn, heq, -, -⟩ := TagHeap.exists_node ha₀
  obtain ⟨hntid, rfl⟩ := Prod.mk.inj heq
  rcases hkind with ⟨rfl, hone₀, -⟩ | ⟨-, -, b, hb, hshared⟩
  swap
  · exact absurd (hone b hb) (Nat.not_le.2 hshared)
  refine ⟨fun hnone => ?_, fun data' hsome => ?_⟩
  · simp [PacketTagList.replace, hrun, PacketTagList.replaceWriter, hn, hnone]
  · obtain ⟨hat', hframe', hitem'⟩ := hat.rewriteNode hone₀ hn data'
    have hnot : ∀ x ∈ pre ++ l₂, x ≠ a := fun x hx heq => by
      have hnodup := hat.nodup
      rw [nodup_middle] at hnodup
      exact (nodup_cons.1 hnodup).1 (heq ▸ hx)
    have hkeep : ∀ {l : List Nat}, (∀ x ∈ l, x ∈ pre ++ l₂) →
        l.map (h₀.set a { n with data := data' }).item = l.map h₀.item := fun hsub =>
      map_congr_left fun x hx => by rw [hitem', update_of_ne (hnot x (hsub x hx))]
    refine ⟨_, p₀, pre ++ a :: l₂, ?_, hat'.shape, hframe.trans hframe', hat'.whole, ?_⟩
    · simp [PacketTagList.replace, hrun, PacketTagList.replaceWriter, hn, hsome]
    · rw [map_append, map_cons, hkeep fun x hx => mem_append_left _ hx,
        hkeep fun x hx => mem_append_right _ hx, hpre, hitem', update_self, hntid,
        map_congr_left fun x hx => hrest x (mem_cons_of_mem _ hx)]

/-- `Replace` of a tag behind a shared node: the list gets a new node. -/
theorem Shape.replace_copy
    (hl₁ : ∀ b ∈ l₁, h.tidOf b ≠ some (T.tid tag)) (ha : h.item a = some (T.tid tag, data))
    (hshared : ∃ b ∈ l₁ ++ [a], 1 < h.countOf b) : ∃ h' p' l',
    PacketTagList.replace T (h, p) tag = some ((h', p'), true) ∧ Shape h' (p' :: ps) ∧
      Frame h h' ps ∧
    Seg h'.link p' l' none ∧
    l'.map h'.item = l₁.map h.item ++ some (T.tid tag, T.serialize tag) :: l₂.map h.item := by
  have htid : h.tidOf a = some (T.tid tag) := by rw [TagHeap.tidOf, ha]; rfl
  obtain ⟨preMerge, h₀, p₀, pre, hrun, hat, hframe, hpre, hrest, hkind⟩ :=
    hs.cowTraverse_found hl hl₁ htid (PacketTagList.replaceWriter T tag)
  have ha₀ : h₀.item a = some (T.tid tag, data) := (hrest a mem_cons_self).trans ha
  obtain ⟨n, hn, -, hlink, -⟩ := TagHeap.exists_node ha₀
  rcases hkind with ⟨-, -, hone⟩ | ⟨rfl, hshared₀, -⟩
  · obtain ⟨b, hb, hlt⟩ := hshared
    exact absurd (hone b hb) (Nat.not_le.2 hlt)
  obtain ⟨h₁, h₃, h₄, p', hdec, hinc, hset, hfresh, hat', hframe', hitem', hnew, -⟩ :=
    hat.copyNode hshared₀ (T.tid tag, T.serialize tag)
  rw [hlink] at hinc
  have hkeep : ∀ {l : List Nat}, (∀ x ∈ l, x ∈ pre ++ a :: l₂) → l.map h₄.item = l.map h₀.item :=
    fun hsub =>
    map_congr_left fun x hx => hitem' x (hat.lt_fresh (hsub x hx)).ne
  refine ⟨h₄, p', pre ++ [h₀.fresh] ++ l₂, ?_, hat'.shape, hframe.trans hframe', hat'.whole, ?_⟩
  · have hcreate : h₁.create ⟨n.next, 1, T.tid tag, T.serialize tag⟩ =
        ((h₁.create ⟨n.next, 1, T.tid tag, T.serialize tag⟩).1, h₀.fresh) := by
      rw [← hfresh]
      rfl
    have hwriter : PacketTagList.replaceWriter T tag false a (Slot.last pre) (h₀, p₀) =
      some ((h₄, p'), ()) := by
      rw [PacketTagList.replaceWriter]
      dsimp only
      rw [hn, bind_some, if_neg Bool.false_ne_true, hdec, bind_some, hcreate]
      dsimp only
      rw [hinc, bind_some, hset]
      rfl
    rw [PacketTagList.replace, hrun, hwriter]
    rfl
  · rw [map_append, map_append, map_singleton, hnew, hkeep fun x hx => mem_append_left _ hx,
      hkeep fun x hx => mem_append_right _ (mem_cons_of_mem _ hx), hpre,
      map_congr_left fun x hx => hrest x (mem_cons_of_mem _ hx), append_assoc, singleton_append]

end

/-- `Add` of a tag of a type that the list does not have. -/
theorem Shape.add_missing (hl : Seg h.link p l none)
    (hmiss : ∀ b ∈ l, h.tidOf b ≠ some (T.tid tag)) : ∃ h' p' l',
    PacketTagList.add T (h, p) tag = some (h', p') ∧ Shape h' (p' :: ps) ∧ Frame h h' ps ∧
    Seg h'.link p' l' none ∧
      l'.map h'.item = some (T.tid tag, T.serialize tag) :: l.map h.item := by
  have hitem : ∀ {q l r}, q ∈ p :: ps → Seg h.link q l r → ∀ x ∈ l, h.item x ≠ none :=
    fun hq hl x hx =>
    hs.item_of_mem hq hl hx
  have hold : ∀ {x}, h.item x ≠ none → x ≠ h.fresh := fun hx => (hs.lt_fresh hx).ne
  have hfind : h.find (T.tid tag) h.fresh p = some none := by
    rw [find_spec hl (hitem mem_cons_self hl) (At.start hs hl).length_le]
    simpa only [some.injEq, find?_eq_none, decide_eq_true_eq] using hmiss
  obtain ⟨hfresh, hhead, hlink', hitem', hcount'⟩ :=
    h.create_spec ⟨p, 1, T.tid tag, T.serialize tag⟩
  have hkeep : ∀ {q l}, q ∈ p :: ps → Seg h.link q l none →
      Seg (h.create ⟨p, 1, T.tid tag, T.serialize tag⟩).1.link q l none ∧
      ∀ x ∈ l, (h.create ⟨p, 1, T.tid tag, T.serialize tag⟩).1.item x = h.item x := by
    intro q l hq hl
    refine ⟨hl.congr fun x hx => ?_, fun x hx => ?_⟩
    · rw [hlink', update_of_ne (hold (hitem hq hl x hx))]
    · rw [hitem', update_of_ne (hold (hitem hq hl x hx))]
  refine ⟨_, some h.fresh, h.fresh :: l, ?_, ⟨fun x hx => ?_, fun x => ?_⟩,
    fun q hq l hl => hkeep (mem_cons_of_mem _ hq) hl, ?_, ?_⟩
  · rw [PacketTagList.add, hfind, bind_some, if_pos rfl]
    rfl
  · rw [hfresh] at hx
    rw [hitem', update_of_ne (by omega)]
    exact hs.fresh x (by omega)
  · -- the pointer of the list is the pointer of the new node now
    have hsame := SharedList.incoming_congr ps (n := h.fresh) (a := x) fun y hy =>
      update_of_ne hy.ne p h.link
    have hroot : h.countOf x = (if p = some x then 1 else 0) + incoming h.link ps h.fresh x := by
      rw [hs.counts, SharedList.incoming_cons]
    rw [hcount', hlink', hfresh, SharedList.incoming_cons, SharedList.incoming_succ, hsame,
      update_self]
    simp only [some.injEq]
    by_cases hx : x = h.fresh
    · subst hx
      rw [hs.countOf_fresh] at hroot
      rw [update_self, if_pos rfl]
      omega
    · rw [update_of_ne hx, if_neg (Ne.symm hx)]
      omega
  · refine SharedList.Seg.cons_iff.2 ⟨rfl, ?_⟩
    rw [hlink', update_self, ← hlink']
    exact (hkeep mem_cons_self hl).1
  · rw [map_cons, map_congr_left (hkeep mem_cons_self hl).2, hitem', update_self]

theorem Shape.add_found (hl : Seg h.link p l none) (ha : a ∈ l)
    (htid : h.tidOf a = some (T.tid tag)) : PacketTagList.add T (h, p) tag = none := by
  rw [PacketTagList.add, find_spec hl (fun x hx => hs.item_of_mem mem_cons_self hl hx)
    (At.start hs hl).length_le, bind_some, if_neg]
  rw [find?_eq_none]
  exact fun hnone => absurd (decide_eq_true htid) (hnone a ha)

end

end

theorem Shape.perm (hs : Shape h ps) (hp : ps.Perm ps') : Shape h ps' where
  fresh := hs.fresh
  counts := fun a => (hs.counts a).trans (SharedList.incoming_perm hp)

theorem Shape.cons_none_iff : Shape h (none :: ps) ↔ Shape h ps := by
  have hsame : ∀ a, incoming h.link (none :: ps) h.fresh a = incoming h.link ps h.fresh a :=
    fun a => by
    rw [SharedList.incoming_cons, if_neg (some_ne_none a).symm, Nat.zero_add]
  exact ⟨fun hs => ⟨hs.fresh, fun a => (hs.counts a).trans (hsame a)⟩,
    fun hs => ⟨hs.fresh, fun a => (hs.counts a).trans (hsame a).symm⟩⟩

theorem Shape.copy (hs : Shape h ps) (hq : q ∈ ps) : ∃ h', PacketTagList.copy h q = some (h', q) ∧
    Shape h' (q :: ps) ∧ Frame h h' ps := by
  obtain ⟨h', hinc, hfresh, hlink, hitem, hcount⟩ :=
    TagHeap.incCount_spec (h := h) (q := q) fun b hb => hs.item_of_root (hb ▸ hq)
  refine ⟨h', by rw [PacketTagList.copy, hinc, map_some], ⟨?_, fun a => ?_⟩,
    fun r _ l hl => ⟨hlink ▸ hl, fun a _ => by rw [hitem]⟩⟩
  · rw [hfresh, hitem]
    exact hs.fresh
  · rw [hcount, hs.counts, hlink, hfresh, SharedList.incoming_cons]
    omega

theorem Shape.release (hs : Shape h (some a :: ps)) : ∃ h', h.decCount a = some h' ∧ Shape h' ps ∧
    Frame h h' ps := by
  obtain ⟨h', hdec, hfresh, hlink, hitem, hcount⟩ :=
    TagHeap.decCount_spec (hs.item_of_root mem_cons_self)
  refine ⟨h', hdec, ⟨?_, fun x => ?_⟩, fun r _ l hl => ⟨hlink ▸ hl, fun a _ => by rw [hitem]⟩⟩
  · rw [hfresh, hitem]
    exact hs.fresh
  · rw [hcount, hs.counts, hlink, hfresh, SharedList.incoming_cons]
    simp only [some.injEq]
    omega

theorem freePrev_decCount {prev : Option Nat} (hfree : PacketTagList.freePrev h prev = some h₁)
    (hn : h₁.nodes a = some n) : h.nodes a = some n ∧
    ∃ h₂, h.decCount a = some h₂ ∧ PacketTagList.freePrev h₂ prev = h₁.decCount a := by
  cases prev with
  | none =>
    cases hfree
    have hdec : h.decCount a = some (h.set a { n with count := n.count - 1 }) :=
      congrArg (Option.map _) hn
    exact ⟨hn, _, hdec, hdec.symm⟩
  | some b =>
    obtain ⟨m, hm, rfl⟩ := map_eq_some_iff.1 hfree
    have hab : a ≠ b := by
      rintro rfl
      simp at hn
    have hn' : h.nodes a = some n := (update_of_ne hab ..).symm.trans hn
    have hmb : (h.set a { n with count := n.count - 1 }).nodes b = some m :=
      (update_of_ne (Ne.symm hab) ..).trans hm
    refine ⟨hn', _, congrArg (Option.map _) hn', ?_⟩
    -- both ways the node is gone and the other one counted down
    rw [PacketTagList.freePrev, TagHeap.free, hmb, TagHeap.decCount, TagHeap.modify, hn, map_some,
      map_some]
    simp only [TagHeap.set, update_comm hab]

/-- The loop of `RemoveAll`: the list lets go of its nodes one after the other, up to the first one
that others point to; the last node it let go is freed behind the loop. -/
theorem Shape.removeLoop (prev : Option Nat) {fuel : Nat}
    (hfree : PacketTagList.freePrev h₁ prev = some h) (hs : Shape h (p :: ps))
    (hl : Seg h.link p l none) (hfuel : l.length ≤ fuel) : ∃ r h',
    PacketTagList.removeLoop fuel h₁ prev p = some r ∧ PacketTagList.freePrev r.1 r.2 = some h' ∧
    Shape h' ps ∧ Frame h h' ps := by
  induction l generalizing h h₁ prev p fuel with
  | nil =>
    cases SharedList.Seg.nil_iff.1 hl
    exact ⟨(h₁, prev), h, by cases fuel <;> rfl, hfree, Shape.cons_none_iff.1 hs, Frame.refl h ps⟩
  | cons a l ih =>
    obtain ⟨rfl, hrest⟩ := SharedList.Seg.cons_iff.1 hl
    obtain ⟨fuel, rfl⟩ :=
      Nat.exists_eq_add_one_of_ne_zero (show fuel ≠ 0 by rw [length_cons] at hfuel; omega)
    obtain ⟨i, hi⟩ := ne_none_iff_exists'.1 (hs.item_of_root mem_cons_self)
    obtain ⟨n, hn, -, hlink, hcount⟩ := TagHeap.exists_node hi
    obtain ⟨hn₁, h₂, hdec, hfree₂⟩ := freePrev_decCount hfree hn
    obtain ⟨h', hdec', hs', hframe'⟩ := hs.release
    rw [hdec'] at hfree₂
    by_cases hshared : n.count - 1 > 0
    · refine ⟨(h₂, prev), h', ?_, hfree₂, hs', hframe'⟩
      rw [PacketTagList.removeLoop, hn₁, bind_some, hdec, bind_some, if_pos hshared]
    · -- the node is freed, now or later
      obtain ⟨h₃, h₄, p', hset, hfree₃, hat, hframe, -⟩ := (At.start hs hl).freeNode (by omega)
      cases hset
      have hfree₄ : h'.free a = some h₄ := by
        obtain ⟨m, hm, rfl⟩ := map_eq_some_iff.1 hdec'
        rw [← hfree₃]
        simp only [TagHeap.free, TagHeap.set, update_self, map_some, update_idem, hn]
      obtain ⟨r, h₅, hloop, hlast, hs₅, hframe₅⟩ := ih (some a) hfree₄ hat.shape hat.back
        (Nat.le_of_succ_le_succ hfuel)
      refine ⟨r, h₅, ?_, hlast, hs₅, hframe.trans hframe₅⟩
      rw [PacketTagList.removeLoop, hn₁, bind_some, hdec, bind_some, if_neg hshared, hfree₂,
        bind_some, ← hlink]
      exact hloop

theorem Shape.removeAll (hs : Shape h (p :: ps)) (hl : Seg h.link p l none) : ∃ h',
    PacketTagList.removeAll (h, p) = some h' ∧ Shape h' ps ∧ Frame h h' ps := by
  obtain ⟨r, h', hloop, hlast, hs', hframe⟩ := hs.removeLoop none rfl hl (At.start hs hl).length_le
  exact ⟨h', by rw [PacketTagList.removeAll, hloop, bind_some, hlast], hs', hframe⟩

theorem Shape.count_eq (hs : Shape h ps) (hn : h.nodes a = some n) :
    n.count = ps.count (some a) + Set.ncard {b | ∃ m, h.nodes b = some m ∧ m.next = some a} := by
  have hset : {b | ∃ m, h.nodes b = some m ∧ m.next = some a} =
      ((Finset.range h.fresh).filter (h.link · = some a) : Set Nat) := by
    ext b
    have hlink : h.link b = some a ↔ ∃ m, h.nodes b = some m ∧ m.next = some a := bind_eq_some_iff
    simp only [Set.mem_ofPred_eq, Finset.coe_filter, Finset.mem_range, ← hlink]
    exact ⟨fun hb => ⟨hs.lt_fresh (hs.item_of_next hb), hb⟩, And.right⟩
  have hcount : h.countOf a = n.count := by simp [TagHeap.countOf, hn]
  rw [hset, Set.ncard_coe_finset, ← hcount, hs.counts, incoming]

/-! ## Maps -/

section
variable {T : TagTypes Tid Tag} {tid : Tid} {tag : Tag} {m : Tid → Option Tag}
  {e e' : Tag × List UInt8} {es e₁ e₂ : List (Tag × List UInt8)}

/-- The item of a tag; there may be bytes behind it, of a tag that was longer. -/
def TagTypes.entry (T : TagTypes Tid Tag) (e : Tag × List UInt8) : Tid × List UInt8 :=
  (T.tid e.1, T.serialize e.1 ++ e.2)

/-- The nodes of a list hold tags, one of a type at most. -/
structure Stores (T : TagTypes Tid Tag) (h : TagHeap Tid) (p : Option Nat)
    (es : List (Tag × List UInt8)) (l : List Nat) : Prop where
  seg : Seg h.link p l none
  items : l.map h.item = es.map fun e => some (T.entry e)
  nodup : (es.map fun e => T.tid e.1).Nodup

theorem tidOf_ne (hitems : l.map h.item = es.map fun e => some (T.entry e))
    (hne : ∀ e ∈ es, T.tid e.1 ≠ tid) : ∀ b ∈ l, h.tidOf b ≠ some tid := by
  intro b hb
  have hmem : h.item b ∈ es.map fun e => some (T.entry e) := hitems ▸ mem_map_of_mem hb
  obtain ⟨e, he, heq⟩ := mem_map.1 hmem
  rw [TagHeap.tidOf, ← heq]
  exact fun htid => hne e he (some.inj htid)

theorem Stores.cut (hst : Stores T h p (e₁ ++ e :: e₂) l) : ∃ l₁ a l₂, l = l₁ ++ a :: l₂ ∧
    l₁.map h.item = (e₁.map fun e => some (T.entry e)) ∧ h.item a = some (T.entry e) ∧
    l₂.map h.item = e₂.map fun e => some (T.entry e) := by
  have hitems := hst.items
  rw [map_append, map_cons] at hitems
  obtain ⟨l₁, l', rfl, h₁, h'⟩ := map_eq_append_iff.1 hitems
  obtain ⟨a, l₂, rfl, ha, h₂⟩ := map_eq_cons_iff.1 h'
  exact ⟨l₁, a, l₂, rfl, h₁, ha, h₂⟩

variable [DecidableEq Tid]

/-- The map of a list of tags. -/
def tagMap (T : TagTypes Tid Tag) (es : List (Tag × List UInt8)) (tid : Tid) : Option Tag :=
  (es.find? fun e => T.tid e.1 = tid).map Prod.fst

/-- A list is a map. -/
def Maps (T : TagTypes Tid Tag) (h : TagHeap Tid) (p : Option Nat) (m : Tid → Option Tag) : Prop :=
  ∃ es l, Stores T h p es l ∧ tagMap T es = m

theorem tagMap_eq_none_iff : tagMap T es tid = none ↔ ∀ e ∈ es, T.tid e.1 ≠ tid := by
  simp [tagMap]

theorem tagMap_eq_some (hm : tagMap T es tid = some tag) : T.tid tag = tid ∧
    ∃ e₁ rest e₂, es = e₁ ++ (tag, rest) :: e₂ ∧ ∀ e ∈ e₁, T.tid e.1 ≠ tid := by
  obtain ⟨⟨_, rest⟩, he, rfl⟩ := map_eq_some_iff.1 hm
  obtain ⟨htid, e₁, e₂, rfl, hne⟩ := find?_eq_some_iff_append.1 he
  exact ⟨of_decide_eq_true htid, e₁, rest, e₂, rfl, fun e he => by simpa using hne e he⟩

theorem tagMap_cons :
    tagMap T (e :: es) = Function.update (tagMap T es) (T.tid e.1) (some e.1) := by
  funext x
  by_cases hx : T.tid e.1 = x
  · simp [tagMap, hx]
  · simp [tagMap, hx, update_of_ne (Ne.symm hx)]

theorem tagMap_append : tagMap T (e₁ ++ e₂) tid = (tagMap T e₁ tid).or (tagMap T e₂ tid) := by
  rw [tagMap, find?_append, map_or]
  rfl

theorem tagMap_replace (he : T.tid e'.1 = T.tid e.1) (hne : ∀ x ∈ e₁, T.tid x.1 ≠ T.tid e.1) :
    tagMap T (e₁ ++ e' :: e₂) = Function.update (tagMap T (e₁ ++ e :: e₂)) (T.tid e.1)
      (some e'.1) := by
  funext x
  by_cases hx : x = T.tid e.1
  · rw [hx, update_self, tagMap_append, tagMap_eq_none_iff.2 hne, none_or, tagMap_cons, he,
      update_self]
  · rw [update_of_ne hx, tagMap_append, tagMap_append, tagMap_cons, tagMap_cons, he,
      update_of_ne hx, update_of_ne hx]

theorem tagMap_remove (hnodup : ((e₁ ++ e :: e₂).map fun e => T.tid e.1).Nodup) :
    tagMap T (e₁ ++ e₂) = Function.update (tagMap T (e₁ ++ e :: e₂)) (T.tid e.1) none := by
  rw [map_append, map_cons, nodup_middle] at hnodup
  funext x
  by_cases hx : x = T.tid e.1
  · rw [hx, update_self, tagMap_eq_none_iff]
    intro e' he' heq
    refine (nodup_cons.1 hnodup).1 ?_
    rw [← map_append, ← heq]
    exact mem_map_of_mem he'
  · rw [update_of_ne hx, tagMap_append, tagMap_append, tagMap_cons, update_of_ne hx]

theorem Maps.frame (hm : Maps T h q m) (hframe : Frame h h' ps) (hq : q ∈ ps) : Maps T h' q m := by
  obtain ⟨es, l, hst, heq⟩ := hm
  obtain ⟨hl, hitem⟩ := hframe q hq l hst.seg
  exact ⟨es, l, ⟨hl, (map_congr_left hitem).trans hst.items, hst.nodup⟩, heq⟩

theorem Maps.peek (hm : Maps T h p m) (hs : Shape h (p :: ps)) (tid : Tid) :
    PacketTagList.peek T (h, p) tid = some (m tid) := by
  obtain ⟨es, l, hst, rfl⟩ := hm
  rw [PacketTagList.peek, find_spec hst.seg (fun x hx => hs.item_of_mem mem_cons_self hst.seg hx)
    (At.start hs hst.seg).length_le, bind_some]
  cases hfind : tagMap T es tid with
  | none =>
    have hmiss := tidOf_ne hst.items (tagMap_eq_none_iff.1 hfind)
    rw [find?_eq_none.2 fun b hb => by simpa using hmiss b hb]
  | some tag =>
    obtain ⟨rfl, e₁, rest, e₂, rfl, hne⟩ := tagMap_eq_some hfind
    obtain ⟨l₁, a, l₂, rfl, h₁, ha, -⟩ := hst.cut
    obtain ⟨n, hn, heq, -⟩ := TagHeap.exists_node ha
    have htid : h.tidOf a = some (T.tid tag) := by rw [TagHeap.tidOf, ha]; rfl
    have hbefore := tidOf_ne h₁ hne
    rw [find?_append, find?_eq_none.2 fun b hb => by simpa using hbefore b hb, none_or,
      find?_cons_of_pos (by simp [htid])]
    dsimp only
    rw [hn, bind_some, (Prod.mk.inj heq).2, T.read_back, map_some]

theorem Maps.remove (hm : Maps T h p m) (hs : Shape h (p :: ps)) (tid : Tid) : ∃ h' p',
    PacketTagList.remove T (h, p) tid = some ((h', p'), m tid) ∧ Shape h' (p' :: ps) ∧
      Frame h h' ps ∧ Maps T h' p' (Function.update m tid none) := by
  obtain ⟨es, l, hst, rfl⟩ := hm
  cases hfind : tagMap T es tid with
  | none =>
    refine ⟨h, p, ?_, hs, Frame.refl h ps, es, l, hst, ?_⟩
    · exact hs.cowTraverse_missing hst.seg (tidOf_ne hst.items (tagMap_eq_none_iff.1 hfind)) _
    · rw [← hfind, update_eq_self]
  | some tag =>
    obtain ⟨rfl, e₁, rest, e₂, rfl, hne⟩ := tagMap_eq_some hfind
    obtain ⟨l₁, a, l₂, rfl, h₁, ha, h₂⟩ := hst.cut
    obtain ⟨h', p', l', hcode, hs', hframe, hl', hitems⟩ :=
      hs.remove_found hst.seg (tidOf_ne h₁ hne) ha (T.read_back tag rest)
    refine ⟨h', p', hcode, hs', hframe, e₁ ++ e₂, l', ⟨hl', ?_, ?_⟩, tagMap_remove hst.nodup⟩
    · rw [hitems, map_append, map_append, h₁, h₂]
    · have hnodup := hst.nodup
      rw [map_append, map_cons, nodup_middle, ← map_append] at hnodup
      exact (nodup_cons.1 hnodup).2

theorem Maps.add (hm : Maps T h p m) (hs : Shape h (p :: ps)) (tag : Tag) :
    (m (T.tid tag) = none ∧ ∃ h' p', PacketTagList.add T (h, p) tag = some (h', p') ∧
      Shape h' (p' :: ps) ∧ Frame h h' ps ∧
        Maps T h' p' (Function.update m (T.tid tag) (some tag))) ∨
    m (T.tid tag) ≠ none ∧ PacketTagList.add T (h, p) tag = none := by
  obtain ⟨es, l, hst, rfl⟩ := hm
  cases hfind : tagMap T es (T.tid tag) with
  | none =>
    have hne := tagMap_eq_none_iff.1 hfind
    obtain ⟨h', p', l', hcode, hs', hframe, hl', hitems⟩ :=
      hs.add_missing hst.seg (tidOf_ne hst.items hne)
    refine .inl ⟨rfl, h', p', hcode, hs', hframe, (tag, []) :: es, l', ⟨hl', ?_, ?_⟩, tagMap_cons⟩
    · rw [hitems, hst.items, map_cons, TagTypes.entry, append_nil]
    · refine nodup_cons.2 ⟨fun hmem => ?_, hst.nodup⟩
      obtain ⟨e, he, heq⟩ := mem_map.1 hmem
      exact hne e he heq
  | some old =>
    obtain ⟨htid, e₁, rest, e₂, rfl, hne⟩ := tagMap_eq_some hfind
    obtain ⟨l₁, a, l₂, rfl, h₁, ha, -⟩ := hst.cut
    refine .inr ⟨some_ne_none old, hs.add_found hst.seg (a := a) (by simp) ?_⟩
    rw [TagHeap.tidOf, ha, map_some, TagTypes.entry, htid]

/-- `Replace`, which fails when the tag is rewritten in place and there is no room for it. -/
theorem Maps.replace (hm : Maps T h p m) (hs : Shape h (p :: ps)) (tag : Tag) :
    (∃ h' p', PacketTagList.replace T (h, p) tag = some ((h', p'), (m (T.tid tag)).isSome) ∧
      Shape h' (p' :: ps) ∧ Frame h h' ps ∧
        Maps T h' p' (Function.update m (T.tid tag) (some tag))) ∨
    PacketTagList.replace T (h, p) tag = none ∧
      ∃ old, T.tid old = T.tid tag ∧ (T.serialize old).length < (T.serialize tag).length := by
  obtain ⟨es, l, hst, rfl⟩ := hm
  cases hfind : tagMap T es (T.tid tag) with
  | none =>
    -- the tag is added
    have hmiss := tidOf_ne hst.items (tagMap_eq_none_iff.1 hfind)
    have htraverse := hs.cowTraverse_missing hst.seg hmiss (PacketTagList.replaceWriter T tag)
    rcases Maps.add ⟨es, l, hst, rfl⟩ hs tag with ⟨-, h', p', hcode, hs', hframe, hm'⟩ | ⟨hsome, -⟩
    · refine .inl ⟨h', p', ?_, hs', hframe, hm'⟩
      simp [PacketTagList.replace, htraverse, hcode]
    · exact absurd hfind hsome
  | some old =>
    obtain ⟨htid, e₁, rest, e₂, rfl, hne⟩ := tagMap_eq_some hfind
    obtain ⟨l₁, a, l₂, rfl, h₁, ha, h₂⟩ := hst.cut
    rw [TagTypes.entry, htid] at ha
    -- the list afterwards, whatever is behind the tag
    have hmaps : ∀ {h' : TagHeap Tid} {p' l'} (rest' : List UInt8), Seg h'.link p' l' none →
        l'.map h'.item = l₁.map h.item ++ some (T.tid tag, T.serialize tag ++ rest') :: l₂.map
        h.item →
        Maps T h' p'
          (Function.update (tagMap T (e₁ ++ (old, rest) :: e₂)) (T.tid tag) (some tag)) := by
      intro h' p' l' rest' hl' hitems
      refine ⟨e₁ ++ (tag, rest') :: e₂, l', ⟨hl', ?_, ?_⟩, ?_⟩
      · rw [hitems, h₁, h₂, map_append, map_cons, TagTypes.entry]
      · have hnodup := hst.nodup
        rw [map_append, map_cons] at hnodup ⊢
        rwa [← htid]
      · rw [← htid]
        exact tagMap_replace htid.symm (htid.symm ▸ hne)
    by_cases hone : ∀ b ∈ l₁ ++ [a], h.countOf b ≤ 1
    · obtain ⟨hnone, hsome⟩ := hs.replace_inPlace hst.seg (tidOf_ne h₁ hne) ha hone
      by_cases hfits : (T.serialize tag).length ≤ (T.serialize old ++ rest).length
      · obtain ⟨h', p', l', hcode, hs', hframe, hl', hitems⟩ := hsome _ (if_pos hfits)
        exact .inl ⟨h', p', hcode, hs', hframe, hmaps _ hl' hitems⟩
      · refine .inr ⟨hnone (if_neg hfits), old, htid, ?_⟩
        rw [length_append] at hfits
        omega
    · simp only [not_forall, not_le, exists_prop] at hone
      obtain ⟨h', p', l', hcode, hs', hframe, hl', hitems⟩ :=
        hs.replace_copy hst.seg (tidOf_ne h₁ hne) ha hone
      exact .inl ⟨h', p', hcode, hs', hframe, hmaps [] hl' (by rw [append_nil, hitems])⟩

end

/-! ## Programs -/

section
variable [DecidableEq Tid] {T : TagTypes Tid Tag} {w w' : TagLists Tid}
  {ms ms' : List (Tid → Option Tag)} {m m' : Tid → Option Tag} {i : Nat}

/-- The lists of a program are maps. -/
structure TagLists.Refines (T : TagTypes Tid Tag) (w : TagLists Tid)
    (ms : List (Tid → Option Tag)) : Prop where
  shape : Shape w.heap w.heads
  maps : List.Forall₂ (Maps T w.heap) w.heads ms

namespace TagLists

section
variable (href : Refines T w ms)
include href

theorem Refines.get (i : Nat) : w.heads[i]? = none ∧ ms[i]? = none ∨
    ∃ p m, w.heads[i]? = some p ∧ ms[i]? = some m ∧ Maps T w.heap p m ∧
      Shape w.heap (p :: w.heads.eraseIdx i) := by
  rcases Related.getElem? href.maps i with hnone | ⟨p, m, hp, hm, hmaps⟩
  · exact .inl hnone
  · exact .inr ⟨p, m, hp, hm, hmaps, href.shape.perm (Related.perm_cons_eraseIdx hp)⟩

theorem Refines.put (hi : w.heads[i]? = some p) (hs : Shape h' (p' :: w.heads.eraseIdx i))
    (hframe : Frame w.heap h' (w.heads.eraseIdx i)) (hm : Maps T h' p' m') :
    Refines T (w.put i (h', p')) (ms.set i m') where
  shape := hs.perm (Related.set_perm_cons_eraseIdx hi p').symm
  maps := Related.set href.maps (fun _ hq _ hmaps => hmaps.frame hframe hq) hm

theorem Refines.push (hs : Shape h' (p' :: w.heads)) (hframe : Frame w.heap h' w.heads)
    (hm : Maps T h' p' m') : Refines T ⟨h', w.heads ++ [p']⟩ (ms ++ [m']) where
  shape := hs.perm (perm_append_singleton p' w.heads).symm
  maps := Related.concat href.maps (fun _ hq _ hmaps => hmaps.frame hframe hq) hm

theorem Refines.erase (hs : Shape h' (w.heads.eraseIdx i))
    (hframe : Frame w.heap h' (w.heads.eraseIdx i)) :
    Refines T ⟨h', w.heads.eraseIdx i⟩ (ms.eraseIdx i) where
  shape := hs
  maps := Related.eraseIdx href.maps fun _ hq _ hmaps => hmaps.frame hframe hq

theorem Refines.assign (hi : w.heads[i]? = some p) {j : Nat} (hj : w.heads[j]? = some q)
    (hm : Maps T w.heap q m) (hs : Shape w.heap (p :: w.heads.eraseIdx i)) {m₀ : Tid → Option Tag}
    (hm₀ : Maps T w.heap p m₀) : ∃ h', PacketTagList.assign (w.heap, p) q = some (h', q) ∧
      Refines T (w.put i (h', q)) (ms.set i m) := by
  rw [PacketTagList.assign]
  by_cases hpq : p = q
  · subst hpq
    exact ⟨w.heap, if_pos rfl, href.put hi hs (Frame.refl _ _) hm⟩
  · rw [if_neg hpq]
    obtain ⟨es, l, hst, -⟩ := hm₀
    have hmem : q ∈ w.heads.eraseIdx i :=
      mem_eraseIdx_iff_getElem?.2 ⟨j, fun hij => hpq (some.inj (hi.symm.trans (hij ▸ hj))), hj⟩
    obtain ⟨h₁, hremove, hs₁, hframe₁⟩ := hs.removeAll hst.seg
    obtain ⟨h₂, hcopy, hs₂, hframe₂⟩ := hs₁.copy hmem
    have hframe := hframe₁.trans hframe₂
    exact ⟨h₂, by rw [hremove, bind_some, hcopy], href.put hi hs₂ hframe (hm.frame hframe hmem)⟩

/-- Each call on tag lists does what it means for maps, and fails when that means nothing. It fails
too when a tag does not fit in the place of another one of its type. -/
theorem Refines.call (c : TagCall Tid Tag) :
    (∃ w' ms' out, w.call T c = some (w', out) ∧ tagMaps T ms c = some (ms', out) ∧
      Refines T w' ms') ∨
    w.call T c = none ∧ (tagMaps T ms c = none ∨
      ∃ old tag, T.tid old = T.tid tag ∧ (T.serialize old).length < (T.serialize tag).length) := by
  cases c with
  | construct =>
    have hmaps : Maps T w.heap none fun _ => none := ⟨[], [], ⟨.nil none, rfl, .nil⟩, rfl⟩
    exact .inl ⟨_, _, _, rfl, rfl,
      href.push (Shape.cons_none_iff.2 href.shape) (Frame.refl _ _) hmaps⟩
  | copy i =>
    rcases href.get i with ⟨hp, hm⟩ | ⟨p, m, hp, hm, hmaps, -⟩
    · exact .inr ⟨by simp [TagLists.call, hp], .inl (by simp [tagMaps, hm])⟩
    · obtain ⟨h', hcode, hs', hframe⟩ := href.shape.copy (mem_of_getElem? hp)
      refine .inl ⟨⟨h', w.heads ++ [p]⟩, ms ++ [m],
        (none, false), by simp [TagLists.call, hp, hcode], by simp [tagMaps, hm], ?_⟩
      exact href.push hs' hframe (hmaps.frame hframe (mem_of_getElem? hp))
  | assign i j =>
    rcases href.get i with ⟨hp, hm⟩ | ⟨p, m₀, hp, hm₀, hmaps₀, hs⟩
    · exact .inr ⟨by simp [TagLists.call, hp], .inl (by simp [tagMaps, hm])⟩
    rcases href.get j with ⟨hq, hm⟩ | ⟨q, m, hq, hm, hmaps, -⟩
    · exact .inr ⟨by simp [TagLists.call, hp, hq], .inl (by simp [tagMaps, hm₀, hm])⟩
    · obtain ⟨h', hcode, href'⟩ := href.assign hp hq hmaps hs hmaps₀
      exact .inl ⟨w.put i (h', q), ms.set i m,
        (none, false), by simp [TagLists.call, hp, hq, hcode], by simp [tagMaps, hm₀, hm], href'⟩
  | destroy i =>
    rcases href.get i with ⟨hp, hm⟩ | ⟨p, m, hp, hm, ⟨es, l, hst, -⟩, hs⟩
    · exact .inr ⟨by simp [TagLists.call, hp], .inl (by simp [tagMaps, hm])⟩
    · obtain ⟨h', hcode, hs', hframe⟩ := hs.removeAll hst.seg
      exact .inl ⟨⟨h', w.heads.eraseIdx i⟩, ms.eraseIdx i,
      (none, false), by simp [TagLists.call, hp, hcode],
        by simp [tagMaps, hm], href.erase hs' hframe⟩
  | add i tag =>
    rcases href.get i with ⟨hp, hm⟩ | ⟨p, m, hp, hm, hmaps, hs⟩
    · exact .inr ⟨by simp [TagLists.call, hp], .inl (by simp [tagMaps, hm])⟩
    rcases hmaps.add hs tag with ⟨hnone, h', p', hcode, hs', hframe, hmaps'⟩ | ⟨hsome, hcode⟩
    · exact .inl ⟨w.put i (h', p'), ms.set i (Function.update m (T.tid tag) (some tag)),
        (none, false),
        by simp [TagLists.call, hp, hcode], by simp [tagMaps, hm, hnone],
          href.put hp hs' hframe hmaps'⟩
    · exact .inr ⟨by simp [TagLists.call, hp, hcode], .inl (by simp [tagMaps, hm, hsome])⟩
  | remove i tid =>
    rcases href.get i with ⟨hp, hm⟩ | ⟨p, m, hp, hm, hmaps, hs⟩
    · exact .inr ⟨by simp [TagLists.call, hp], .inl (by simp [tagMaps, hm])⟩
    obtain ⟨h', p', hcode, hs', hframe, hmaps'⟩ := hmaps.remove hs tid
    exact .inl ⟨w.put i (h', p'), ms.set i (Function.update m tid none), (m tid, (m tid).isSome),
      by simp [TagLists.call, hp, hcode], by simp [tagMaps, hm], href.put hp hs' hframe hmaps'⟩
  | replace i tag =>
    rcases href.get i with ⟨hp, hm⟩ | ⟨p, m, hp, hm, hmaps, hs⟩
    · exact .inr ⟨by simp [TagLists.call, hp], .inl (by simp [tagMaps, hm])⟩
    rcases hmaps.replace hs tag with ⟨h', p', hcode, hs', hframe, hmaps'⟩ | ⟨hcode, old, htid, hlt⟩
    · exact .inl ⟨w.put i (h', p'), ms.set i (Function.update m (T.tid tag) (some tag)),
        (none, (m (T.tid tag)).isSome), by simp [TagLists.call, hp, hcode], by simp [tagMaps, hm],
        href.put hp hs' hframe hmaps'⟩
    · exact .inr ⟨by simp [TagLists.call, hp, hcode], .inr ⟨old, tag, htid, hlt⟩⟩
  | peek i tid =>
    rcases href.get i with ⟨hp, hm⟩ | ⟨p, m, hp, hm, hmaps, hs⟩
    · exact .inr ⟨by simp [TagLists.call, hp], .inl (by simp [tagMaps, hm])⟩
    exact .inl ⟨w, ms, (m tid, (m tid).isSome), by simp [TagLists.call, hp, hmaps.peek hs tid],
      by simp [tagMaps, hm], href⟩

end

theorem refines_new : Refines T TagLists.new [] where
  shape := ⟨fun _ _ => rfl, fun _ => rfl⟩
  maps := .nil

theorem refines_of_outputs {cs : List (TagCall Tid Tag)} {outs : List (Option Tag × Bool)}
    (hcs : Lts.outputs (TagLists.call T) TagLists.new cs = some (w, outs)) :
    ∃ ms, Lts.outputs (tagMaps T) [] cs = some (ms, outs) ∧ Refines T w ms := by
  refine Lts.outputs_simulation (R := fun ms w => Refines T w ms) (fun href hc => ?_) refines_new
    hcs
  rcases href.call _ with ⟨w', ms', out, hcode, hmaps, href'⟩ | ⟨hnone, -⟩
  · cases hcode.symm.trans hc
    exact ⟨ms', hmaps, href'⟩
  · cases hnone.symm.trans hc

end TagLists

/-- Whatever a program does with its tag lists, where the tags of a type have one size: every call
gives what it gives for maps, and counts count pointers. -/
theorem tags_refine
    (hsize : ∀ t t', T.tid t = T.tid t' → (T.serialize t).length = (T.serialize t').length)
    (cs : List (TagCall Tid Tag)) :
    (∀ ms outs, Lts.outputs (tagMaps T) [] cs = some (ms, outs) →
      ∃ w, Lts.outputs (TagLists.call T) TagLists.new cs = some (w, outs)) ∧
    ∀ w outs, Lts.outputs (TagLists.call T) TagLists.new cs = some (w, outs) →
      ∃ ms : List (Tid → Option Tag), Lts.outputs (tagMaps T) [] cs = some (ms, outs) ∧
        (∀ (i : Nat) p, w.heads[i]? = some p → ∃ m, ms[i]? = some m ∧
          ∀ tid, PacketTagList.peek T (w.heap, p) tid = some (m tid)) ∧
        ∀ a n, w.heap.nodes a = some n →
          n.count = w.heads.count (some a) + Set.ncard {b | ∃ m, w.heap.nodes b = some m ∧
            m.next = some a} := by
  refine ⟨fun ms outs hcs => ?_, fun w outs hcs => ?_⟩
  · suffices hsim : ∃ w, Lts.outputs (TagLists.call T) TagLists.new cs = some (w, outs) ∧
      TagLists.Refines T w ms from
      hsim.imp fun _ => And.left
    refine Lts.outputs_simulation (fun href hc => ?_) TagLists.refines_new hcs
    rcases href.call _ with ⟨w', ms', out, hcode, hmaps, href'⟩ | ⟨-, hnone | ⟨old, tag, htid, hlt⟩⟩
    · cases hmaps.symm.trans hc
      exact ⟨w', hcode, href'⟩
    · cases hnone.symm.trans hc
    · exact absurd (hsize old tag htid) hlt.ne
  · obtain ⟨ms, hms, href⟩ := TagLists.refines_of_outputs hcs
    refine ⟨ms, hms, fun i p hp => ?_, fun a n hn => href.shape.count_eq hn⟩
    rcases href.get i with ⟨hnone, -⟩ | ⟨p', m, hp', hm, hmaps, hs⟩
    · cases hnone.symm.trans hp
    · cases hp'.symm.trans hp
      exact ⟨m, hm, hmaps.peek hs⟩

end

/-- `SocketIpTtlTag` and `SocketPriorityTag`. -/
inductive SocketTagId
  | ipTtl
  | priority
  deriving DecidableEq

/-- Both are one byte. -/
def socketTags : TagTypes SocketTagId (SocketTagId × UInt8) where
  tid := Prod.fst
  serialize := fun tag => [tag.2]
  deserialize := fun tid bytes => bytes.head?.map (tid, ·)
  read_back := fun _ _ => rfl

/-- A list and its copy: a tag that both have is replaced in one of them and removed from the other.
-/
theorem tags_refine_example : ∃ w, Lts.outputs (TagLists.call socketTags) TagLists.new [.construct,
      .add 0 (.ipTtl, 3), .add 0 (.priority, 1), .copy 0, .replace 1 (.ipTtl, 9),
        .remove 0 .priority, .peek 0 .ipTtl,
      .peek 1 .priority, .peek 1 .ipTtl, .assign 0 1, .destroy 1, .peek 0 .ipTtl] =
    some (w, [(none, false), (none, false), (none, false), (none, false), (none, true),
      (some (.priority, 1), true), (some (.ipTtl, 3), true), (some (.priority, 1), true),
      (some (.ipTtl, 9), true), (none, false), (none, false), (some (.ipTtl, 9), true)]) :=
  (tags_refine (T := socketTags) (fun _ _ _ => rfl) _).1 _ _ rfl

end OranNs3.Network
