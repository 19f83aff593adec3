import OranNs3.Network.PacketTags

/-!
# Shared tag nodes

The invariant of a heap and its lists (`Shape`): the count of a node is the number of pointers to
it, and no pointer goes nowhere. So the nodes that a list reaches before the first node with a count
above one are on no other list. A list is described by its items, the types and the bytes of its
nodes (`Holds`); an operation changes the items of one list and keeps those of every other
(`Frame`).

`COWTraverse` keeps a place in its list (`At`): the nodes before it are reached by this list only.
What the traversal hands to its writer is `Shape.cowTraverse_found`.
-/

namespace OranNs3.Network

open Function List Option

open SharedList (Seg Slot incoming)

variable {Tid Tag β : Type} {h h' h₁ : TagHeap Tid} {p p' q : Option Nat} {ps : List (Option Nat)}
  {a b : Nat} {n : TagData Tid} {l pre post : List Nat}

/-! ## Nodes -/

namespace TagHeap

/-- The node after a node. -/
def link (h : TagHeap Tid) (a : Nat) : Option Nat := (h.nodes a).bind TagData.next

/-- The type and the bytes of a node. -/
def item (h : TagHeap Tid) (a : Nat) : Option (Tid × List UInt8) :=
  (h.nodes a).map fun n => (n.tid, n.data)

/-- The count of a node; there is none where there is no node. -/
def countOf (h : TagHeap Tid) (a : Nat) : Nat := (h.nodes a).elim 0 TagData.count

theorem nodes_eq_none_iff : h.nodes a = none ↔ h.item a = none := by simp [item]

theorem exists_node {i : Tid × List UInt8} (hi : h.item a = some i) : ∃ n, h.nodes a = some n ∧
    (n.tid, n.data) = i ∧ h.link a = n.next ∧ h.countOf a = n.count := by
  obtain ⟨n, hn, rfl⟩ := map_eq_some_iff.1 hi
  exact ⟨n, hn, rfl, by simp [link, hn], by simp [countOf, hn]⟩

theorem link_set : (h.set a n).link = Function.update h.link a n.next := by
  funext x
  by_cases hx : x = a
  · simp [link, set, hx]
  · simp [link, set, hx]

theorem item_set : (h.set a n).item = Function.update h.item a (some (n.tid, n.data)) := by
  funext x
  by_cases hx : x = a
  · simp [item, set, hx]
  · simp [item, set, hx]

theorem countOf_set : (h.set a n).countOf = Function.update h.countOf a n.count := by
  funext x
  by_cases hx : x = a
  · simp [countOf, set, hx]
  · simp [countOf, set, hx]

theorem set_count (hn : h.nodes a = some n) (c : Nat) :
    (h.set a { n with count := c }).link = h.link ∧
    (h.set a { n with count := c }).item = h.item := by
  rw [link_set, item_set]
  have hlink : h.link a = n.next := by simp [link, hn]
  have hitem : h.item a = some (n.tid, n.data) := by simp [item, hn]
  exact ⟨hlink ▸ update_eq_self .., hitem ▸ update_eq_self ..⟩

theorem incCount_spec (hq : ∀ b, q = some b → h.item b ≠ none) : ∃ h', h.incCount q = some h' ∧
    h'.fresh = h.fresh ∧ h'.link = h.link ∧ h'.item = h.item ∧
    ∀ x, h'.countOf x = h.countOf x + if q = some x then 1 else 0 := by
  cases q with
  | none => exact ⟨h, rfl, rfl, rfl, rfl, fun x => rfl⟩
  | some b =>
    obtain ⟨i, hi⟩ := ne_none_iff_exists'.1 (hq b rfl)
    obtain ⟨n, hn, -, -, hcount⟩ := exists_node hi
    obtain ⟨hlink, hitem⟩ := set_count hn (n.count + 1)
    refine ⟨_, congrArg (Option.map _) hn, rfl, hlink, hitem, fun x => ?_⟩
    rw [countOf_set]
    by_cases hx : x = b
    · simp [hx, hcount]
    · simp [update_of_ne hx, Ne.symm hx]

theorem decCount_spec (ha : h.item a ≠ none) : ∃ h', h.decCount a = some h' ∧
    h'.fresh = h.fresh ∧ h'.link = h.link ∧ h'.item = h.item ∧
    ∀ x, h'.countOf x = h.countOf x - if a = x then 1 else 0 := by
  obtain ⟨i, hi⟩ := ne_none_iff_exists'.1 ha
  obtain ⟨n, hn, -, -, hcount⟩ := exists_node hi
  obtain ⟨hlink, hitem⟩ := set_count hn (n.count - 1)
  refine ⟨_, congrArg (Option.map _) hn, rfl, hlink, hitem, fun x => ?_⟩
  rw [countOf_set]
  by_cases hx : x = a
  · simp [hx, hcount]
  · simp [update_of_ne hx, Ne.symm hx]

theorem create_spec (h : TagHeap Tid) (n : TagData Tid) : (h.create n).1.fresh = h.fresh + 1 ∧
    (h.create n).2 = h.fresh ∧ (h.create n).1.link = Function.update h.link h.fresh n.next ∧
    (h.create n).1.item = Function.update h.item h.fresh (some (n.tid, n.data)) ∧
    (h.create n).1.countOf = Function.update h.countOf h.fresh n.count :=
  ⟨rfl, rfl, link_set, item_set, countOf_set⟩

theorem free_spec (ha : h.item a ≠ none) : ∃ h', h.free a = some h' ∧ h'.fresh = h.fresh ∧
    h'.link = Function.update h.link a none ∧ h'.item = Function.update h.item a none ∧
    h'.countOf = Function.update h.countOf a 0 := by
  obtain ⟨i, hi⟩ := ne_none_iff_exists'.1 ha
  obtain ⟨n, hn, -⟩ := exists_node hi
  refine ⟨_, congrArg (Option.map _) hn, rfl, ?_, ?_, ?_⟩
  all_goals
    funext x
    by_cases hx : x = a
    · simp [link, item, countOf, hx]
    · simp [link, item, countOf, update_of_ne hx]

variable (pre) in
theorem setNext_spec (hpre : ∀ a ∈ pre, h.item a ≠ none) (p q : Option Nat) : ∃ h',
    TagState.setNext (h, p) (Slot.last pre) q = some (h', (Slot.last pre).setRoot p q) ∧
    h'.fresh = h.fresh ∧ h'.link = (Slot.last pre).setLink h.link q ∧ h'.item = h.item ∧
    h'.countOf = h.countOf := by
  rcases eq_nil_or_concat pre with rfl | ⟨pre, a, rfl⟩
  · exact ⟨h, rfl, rfl, rfl, rfl, rfl⟩
  · rw [concat_eq_append] at hpre ⊢
    rw [Slot.last_append]
    obtain ⟨i, hi⟩ := ne_none_iff_exists'.1 (hpre a (by simp))
    obtain ⟨n, hn, rfl, -, hcount⟩ := exists_node hi
    refine ⟨h.set a { n with next := q }, ?_, rfl, link_set, ?_, ?_⟩
    · simp [TagState.setNext, modify, hn, Slot.setRoot]
    · rw [item_set]
      exact hi ▸ update_eq_self ..
    · rw [countOf_set]
      exact hcount ▸ update_eq_self ..

end TagHeap

/-! ## The invariant -/

/-- Counts count pointers, and new addresses are free. -/
structure Shape (h : TagHeap Tid) (ps : List (Option Nat)) : Prop where
  fresh : ∀ a, h.fresh ≤ a → h.item a = none
  counts : ∀ a, h.countOf a = incoming h.link ps h.fresh a

/-- Other lists run through the same nodes, with the same items. -/
def Frame (h h' : TagHeap Tid) (ps : List (Option Nat)) : Prop :=
  ∀ q ∈ ps, ∀ l, Seg h.link q l none → Seg h'.link q l none ∧ ∀ a ∈ l, h'.item a = h.item a

/-- A place in a list: the nodes before it are reached by this list only. -/
structure At (h : TagHeap Tid) (p : Option Nat) (ps : List (Option Nat)) (pre : List Nat)
    (cur : Option Nat) (post : List Nat) : Prop where
  shape : Shape h (p :: ps)
  front : Seg h.link p pre cur
  back : Seg h.link cur post none
  alone : ∀ a ∈ pre, h.countOf a ≤ 1

theorem Frame.refl (h : TagHeap Tid) (ps : List (Option Nat)) : Frame h h ps :=
  fun _ _ _ hl => ⟨hl, fun _ _ => rfl⟩

theorem Frame.trans (h1 : Frame h h₁ ps) (h2 : Frame h₁ h' ps) : Frame h h' ps := by
  intro q hq l hl
  obtain ⟨hl₁, hitem₁⟩ := h1 q hq l hl
  obtain ⟨hl', hitem'⟩ := h2 q hq l hl₁
  exact ⟨hl', fun a ha => (hitem' a ha).trans (hitem₁ a ha)⟩

namespace Shape

theorem item_of_incoming (hs : Shape h ps) (ha : 0 < incoming h.link ps h.fresh a) :
    h.item a ≠ none := by
  intro hnone
  rw [← hs.counts, TagHeap.countOf, TagHeap.nodes_eq_none_iff.2 hnone] at ha
  exact Nat.lt_irrefl 0 ha

theorem lt_fresh (hs : Shape h ps) (ha : h.item a ≠ none) : a < h.fresh :=
  Nat.lt_of_not_le fun hle => ha (hs.fresh a hle)

theorem item_of_root (hs : Shape h ps) (ha : some a ∈ ps) : h.item a ≠ none := by
  refine hs.item_of_incoming ?_
  have hpos : 0 < ps.count (some a) := count_pos_iff.2 ha
  rw [incoming]
  omega

theorem item_of_next (_ : Shape h ps) (hlink : h.link b = some a) : h.item b ≠ none := by
  intro hnone
  rw [TagHeap.link, TagHeap.nodes_eq_none_iff.2 hnone] at hlink
  cases hlink

theorem item_of_link (hs : Shape h ps) (hlink : h.link b = some a) : h.item a ≠ none :=
  hs.item_of_incoming (SharedList.incoming_pos (hs.lt_fresh (hs.item_of_next hlink)) hlink)

theorem countOf_pos_of_link (hs : Shape h ps) (hlink : h.link b = some a) : 0 < h.countOf a := by
  rw [hs.counts]
  exact SharedList.incoming_pos (hs.lt_fresh (hs.item_of_next hlink)) hlink

theorem countOf_fresh (hs : Shape h ps) : h.countOf h.fresh = 0 := by
  rw [TagHeap.countOf, TagHeap.nodes_eq_none_iff.2 (hs.fresh _ le_rfl)]
  rfl

theorem item_of_mem (hs : Shape h ps) (hp : p ∈ ps) (hl : Seg h.link p l q) (ha : a ∈ l) :
    h.item a ≠ none := by
  rcases hl.pred_of_mem ha with heq | ⟨b, -, hlink⟩
  · exact hs.item_of_root (heq ▸ hp)
  · exact hs.item_of_link hlink

end Shape

namespace At

variable {cur : Option Nat}

section
variable (hat : At h p ps pre cur post)
include hat

theorem whole : Seg h.link p (pre ++ post) none :=
  SharedList.Seg.append_iff.2 ⟨cur, hat.front, hat.back⟩

theorem nodup : (pre ++ post).Nodup := hat.whole.nodup

theorem item_ne (ha : a ∈ pre ++ post) : h.item a ≠ none :=
  hat.shape.item_of_mem mem_cons_self hat.whole ha

theorem lt_fresh (ha : a ∈ pre ++ post) : a < h.fresh :=
  hat.shape.lt_fresh (hat.item_ne ha)

theorem length_le : (pre ++ post).length ≤ h.fresh := by
  have hsub : pre ++ post ⊆ List.range h.fresh := fun a ha => mem_range.2 (hat.lt_fresh ha)
  simpa using (subperm_of_subset hat.nodup hsub).length_le

theorem not_mem (hq : q ∈ ps) (hl : Seg h.link q l none) : ∀ a ∈ pre, a ∉ l := by
  refine hat.front.not_mem_of_unshared (fun a ha => ?_) (fun a ha =>
    hat.lt_fresh (mem_append_left _ ha)) hq hl
    fun a ha => hat.shape.lt_fresh (hat.shape.item_of_mem (mem_cons_of_mem _ hq) hl ha)
  exact (hat.shape.counts a).symm.trans_le (hat.alone a ha)

end

theorem advance (hat : At h p ps pre (some a) (a :: post)) (ha : h.countOf a ≤ 1) :
    At h p ps (pre ++ [a]) (h.link a) post where
  shape := hat.shape
  front := SharedList.Seg.snoc_iff.2 ⟨hat.front, rfl⟩
  back := (SharedList.Seg.cons_iff.1 hat.back).2
  alone := fun b hb => (mem_append.1 hb).elim (hat.alone b) fun hb => mem_singleton.1 hb ▸ ha

theorem start (hs : Shape h (p :: ps)) (hl : Seg h.link p l none) : At h p ps [] p l :=
  ⟨hs, .nil p, hl, nofun⟩

end At

/-! ## Searching -/

/-- The type of a node. -/
def TagHeap.tidOf (h : TagHeap Tid) (a : Nat) : Option Tid := (h.item a).map Prod.fst

section
variable [DecidableEq Tid] {tid : Tid} {fuel : Nat} {cur : Option Nat}

theorem find_spec (hl : Seg h.link p l none) (hitem : ∀ a ∈ l, h.item a ≠ none)
    (hfuel : l.length ≤ fuel) :
    h.find tid fuel p = some (l.find? fun a => h.tidOf a = some tid) := by
  induction l generalizing p fuel with
  | nil =>
    cases SharedList.Seg.nil_iff.1 hl
    cases fuel <;> rfl
  | cons a l ih =>
    obtain ⟨rfl, hrest⟩ := SharedList.Seg.cons_iff.1 hl
    obtain ⟨i, hi⟩ := ne_none_iff_exists'.1 (hitem a mem_cons_self)
    obtain ⟨n, hn, rfl, hlink, -⟩ := TagHeap.exists_node hi
    have htid : h.tidOf a = some n.tid := by rw [TagHeap.tidOf, hi]; rfl
    obtain ⟨fuel, rfl⟩ :=
      Nat.exists_eq_add_one_of_ne_zero (show fuel ≠ 0 by rw [length_cons] at hfuel; omega)
    rw [TagHeap.find, hn, bind_some]
    split
    · next heq => rw [find?_cons_of_pos (by simp [htid, heq])]
    · next hne =>
      rw [find?_cons_of_neg (by simp [htid, hne]), ← hlink]
      exact ih hrest (fun b hb => hitem b (mem_cons_of_mem _ hb))
        (by rw [length_cons] at hfuel; omega)

variable (tid) in
/-- The first loop stops at the end, when no node has the type, or at the first node that is shared
or has the type. -/
theorem At.search (hat : At h p ps pre cur post) (hfuel : post.length ≤ fuel) :
    PacketTagList.search h tid fuel (Slot.last pre) cur = some .missing ∧
    (∀ a ∈ post, h.tidOf a ≠ some tid) ∨
    ∃ mid a post', post = mid ++ a :: post' ∧ At h p ps (pre ++ mid) (some a) (a :: post') ∧
      (∀ b ∈ mid, h.tidOf b ≠ some tid) ∧
      (PacketTagList.search h tid fuel (Slot.last pre) cur =
          some (.merge (Slot.last (pre ++ mid)) a) ∧ 1 < h.countOf a ∨
        PacketTagList.search h tid fuel (Slot.last pre) cur =
          some (.target (Slot.last (pre ++ mid)) a) ∧ h.countOf a ≤ 1 ∧ h.tidOf a = some tid) := by
  induction post generalizing pre cur fuel with
  | nil =>
    cases SharedList.Seg.nil_iff.1 hat.back
    exact .inl ⟨by cases fuel <;> rfl, nofun⟩
  | cons a post ih =>
    obtain ⟨rfl, -⟩ := SharedList.Seg.cons_iff.1 hat.back
    obtain ⟨i, hi⟩ := ne_none_iff_exists'.1 (hat.item_ne (a := a) (by simp))
    obtain ⟨n, hn, rfl, hlink, hcount⟩ := TagHeap.exists_node hi
    have htid : h.tidOf a = some n.tid := by rw [TagHeap.tidOf, hi]; rfl
    obtain ⟨fuel, rfl⟩ :=
      Nat.exists_eq_add_one_of_ne_zero (show fuel ≠ 0 by rw [length_cons] at hfuel; omega)
    have hstep : PacketTagList.search h tid (fuel + 1) (Slot.last pre) (some a) =
        if n.count > 1 then some (.merge (Slot.last pre) a)
        else if n.tid = tid then some (.target (Slot.last pre) a)
        else PacketTagList.search h tid fuel (.node a) n.next := by
      rw [PacketTagList.search, hn, bind_some]
    by_cases hshared : n.count > 1
    · rw [if_pos hshared] at hstep
      exact .inr ⟨[], a, post, rfl, by simpa using hat, nofun,
      .inl ⟨by simpa using hstep, hcount ▸ hshared⟩⟩
    rw [if_neg hshared] at hstep
    by_cases heq : n.tid = tid
    · rw [if_pos heq] at hstep
      exact .inr ⟨[], a, post, rfl, by simpa using hat, nofun,
        .inr ⟨by simpa using hstep, by omega, by rw [htid, heq]⟩⟩
    · -- neither: the loop goes on behind the node
      have hne : h.tidOf a ≠ some tid := by simp [htid, heq]
      rw [if_neg heq, ← hlink,
        show Slot.node a = Slot.last (pre ++ [a]) from Slot.last_append.symm] at hstep
      have hlen : post.length ≤ fuel := Nat.le_of_succ_le_succ hfuel
      rw [hstep]
      rcases ih (hat.advance (by omega)) hlen with
        ⟨hmiss, hpost⟩ | ⟨mid, c, post', rfl, hat', hmid, hres⟩
      · exact .inl ⟨hmiss, forall_mem_cons.2 ⟨hne, hpost⟩⟩
      · rw [append_assoc, singleton_append] at hat' hres
        exact .inr ⟨a :: mid, c, post', rfl, hat', forall_mem_cons.2 ⟨hne, hmid⟩, hres⟩

end

/-! ## Changes at a place -/

namespace At

variable (hat : At h p ps pre (some a) (a :: post))
include hat

theorem ne_of_mem (hb : b ∈ pre) : b ≠ a ∧ h.link a ≠ some b := by
  have hdisj := disjoint_of_nodup_append hat.nodup hb
  refine ⟨fun heq => hdisj (heq ▸ mem_cons_self), fun heq => ?_⟩
  have hback := (SharedList.Seg.cons_iff.1 hat.back).2
  rw [heq] at hback
  cases hback with
  | cons hl => exact hdisj (by simp)

theorem link_ne : h.link a ≠ some a := by
  intro heq
  have hback := (SharedList.Seg.cons_iff.1 hat.back).2
  rw [heq] at hback
  cases hback with
  | cons hl => simpa using (nodup_append.1 hat.nodup).2.1

/-- A new node takes the place of a shared one: `count--`, the copy, `count++` behind it, and the
pointer to it. -/
theorem copyNode (hshared : 1 < h.countOf a)
    (i : Tid × List UInt8) : ∃ h₁ h₃ h₄ p', h.decCount a = some h₁ ∧
    (h₁.create ⟨h.link a, 1, i.1, i.2⟩).1.incCount (h.link a) = some h₃ ∧
    TagState.setNext (h₃, p) (Slot.last pre) (some h.fresh) = some (h₄, p') ∧ h₁.fresh = h.fresh ∧
    At h₄ p' ps (pre ++ [h.fresh]) (h.link a) post ∧ Frame h h₄ ps ∧
    (∀ x, x ≠ h.fresh → h₄.item x = h.item x) ∧ h₄.item h.fresh = some i ∧
    ∀ b, h.link a = some b → 1 < h₄.countOf b := by
  have hitem : ∀ x ∈ pre ++ a :: post, h.item x ≠ none := fun x hx => hat.item_ne hx
  have hfresh : ∀ x, h.item x ≠ none → x ≠ h.fresh := fun x hx => (hat.shape.lt_fresh hx).ne
  have ha : h.item a ≠ none := hitem a (by simp)
  obtain ⟨h₁, hdec, hfresh₁, hlink₁, hitem₁, hcount₁⟩ := TagHeap.decCount_spec ha
  obtain ⟨hfresh₂, -, hlink₂, hitem₂, hcount₂⟩ := h₁.create_spec ⟨h.link a, 1, i.1, i.2⟩
  rw [hfresh₁] at hfresh₂ hlink₂ hitem₂ hcount₂
  rw [hlink₁] at hlink₂
  rw [hitem₁] at hitem₂
  dsimp only at hlink₂ hitem₂ hcount₂
  obtain ⟨h₃, hinc, hfresh₃, hlink₃, hitem₃, hcount₃⟩ :=
    TagHeap.incCount_spec (h := (h₁.create ⟨h.link a, 1, i.1, i.2⟩).1) (q := h.link a) (by
      intro b hb
      have hbi := hat.shape.item_of_link hb
      rwa [hitem₂, update_of_ne (hfresh b hbi)])
  rw [hlink₂] at hlink₃
  rw [hitem₂] at hitem₃
  obtain ⟨h₄, hset, hfresh₄, hlink₄, hitem₄, hcount₄⟩ :=
    TagHeap.setNext_spec (h := h₃) pre (by
      intro x hx
      have hxi := hitem x (mem_append_left _ hx)
      rwa [hitem₃, update_of_ne (hfresh x hxi)]) p (some h.fresh)
  rw [hfresh₃, hfresh₂] at hfresh₄
  rw [hlink₃] at hlink₄
  rw [hitem₃] at hitem₄
  have hcount : ∀ x,
    h₄.countOf x = (if x = h.fresh then 1 else h.countOf x - if a = x then 1 else 0) +
      if h.link a = some x then 1 else 0 := by
    intro x
    rw [hcount₄, hcount₃, hcount₂]
    by_cases hx : x = h.fresh
    · rw [hx, update_self, if_pos rfl]
    · rw [update_of_ne hx, hcount₁, if_neg hx]
  -- other segments of old nodes run through the new links
  have hold : ∀ {q r l}, Seg h.link q l r → (∀ x ∈ l, h.item x ≠ none) →
      Seg (Function.update h.link h.fresh (h.link a)) q l r := fun hl hx =>
    hl.congr fun x hxl => update_of_ne (hfresh x (hx x hxl)) ..
  have hfront := hold hat.front fun x hx => hitem x (mem_append_left _ hx)
  have hpre : h.fresh ∉ pre := fun hmem => hfresh _ (hitem _ (mem_append_left _ hmem)) rfl
  refine ⟨h₁, h₃, h₄, _, hdec, hinc, hset, hfresh₁, ⟨⟨fun x hx => ?_, fun x => ?_⟩, ?_, ?_, ?_⟩, ?_,
    ?_, ?_, ?_⟩
  · -- new addresses
    rw [hitem₄, update_of_ne (by omega)]
    exact hat.shape.fresh x (by omega)
  · -- pointers
    have hrelink := hfront.incoming_relink ps (n := h.fresh + 1) (x := x)
      (fun y hy => Nat.lt_succ_of_lt (hat.lt_fresh (mem_append_left _ hy))) (some h.fresh)
    have hsame := SharedList.incoming_congr (p :: ps) (n := h.fresh) (a := x) fun y hy =>
      update_of_ne hy.ne (h.link a) h.link
    have hsucc : incoming (Function.update h.link h.fresh (h.link a)) (p :: ps) (h.fresh + 1) x =
        h.countOf x + if h.link a = some x then 1 else 0 := by
      rw [SharedList.incoming_succ, hsame, update_self, hat.shape.counts]
    rw [hsucc] at hrelink
    rw [hcount, hlink₄, hfresh₄]
    simp only [some.injEq] at hrelink
    by_cases hx : x = h.fresh
    · have hzero : h.countOf x = 0 := hx ▸ hat.shape.countOf_fresh
      have hax : a ≠ x := hx ▸ hfresh a ha
      rw [if_pos hx.symm, if_neg hax, hzero] at hrelink
      rw [if_pos hx]
      omega
    · rw [if_neg (Ne.symm hx)] at hrelink
      rw [if_neg hx]
      by_cases hax : a = x
      · subst hax
        rw [if_pos rfl] at hrelink ⊢
        omega
      · rw [if_neg hax] at hrelink ⊢
        omega
  · -- the segment up to the new node
    rw [hlink₄]
    refine SharedList.Seg.snoc_iff.2 ⟨hfront.relink (nodup_append.1 hat.nodup).1 _, ?_⟩
    rw [Slot.setLink_of_notMem hpre, update_self]
  · -- the rest
    rw [hlink₄]
    refine (hold (SharedList.Seg.cons_iff.1 hat.back).2 fun x hx => hitem x
      (by simp [hx])).relink_other ?_ _
    exact fun x hx hpost => disjoint_of_nodup_append hat.nodup hx (mem_cons_of_mem _ hpost)
  · -- the counts before the place
    intro x hx
    rw [hcount]
    rcases mem_append.1 hx with hx | hx
    · have hne := hat.ne_of_mem hx
      have hxf : x ≠ h.fresh := fun heq => hpre (heq ▸ hx)
      rw [if_neg hxf, if_neg hne.2, if_neg (Ne.symm hne.1)]
      exact hat.alone x hx
    · cases mem_singleton.1 hx
      rw [if_pos rfl, if_neg fun heq => hat.shape.item_of_link heq (hat.shape.fresh _ le_rfl)]
  · -- other lists
    intro q hq l hl
    have hql : ∀ x ∈ l, h.item x ≠ none :=
      fun x hx => hat.shape.item_of_mem (mem_cons_of_mem _ hq) hl hx
    rw [hlink₄]
    refine ⟨(hold hl hql).relink_other (hat.not_mem hq hl) _, fun x hx => ?_⟩
    rw [hitem₄, update_of_ne (hfresh x (hql x hx))]
  · intro x hx
    rw [hitem₄, update_of_ne hx]
  · rw [hitem₄, update_self]
  · -- the next node is shared now
    intro b hb
    have hbi := hat.shape.item_of_link hb
    have hpos := hat.shape.countOf_pos_of_link hb
    have hab : a ≠ b := fun heq => hat.link_ne (heq ▸ hb)
    rw [hcount, if_neg (hfresh b hbi), if_pos hb, if_neg hab]
    omega

theorem skip :
    Seg ((Slot.last pre).setLink h.link (h.link a)) ((Slot.last pre).setRoot p (h.link a)) pre
      (h.link a) ∧
    Seg ((Slot.last pre).setLink h.link (h.link a)) (h.link a) post none ∧
    (∀ q ∈ ps, ∀ l, Seg h.link q l none →
      Seg ((Slot.last pre).setLink h.link (h.link a)) q l none) ∧
    ∀ x, incoming ((Slot.last pre).setLink h.link (h.link a))
      ((Slot.last pre).setRoot p (h.link a) :: ps) h.fresh x + (if a = x then 1 else 0) =
        h.countOf x + if h.link a = some x then 1 else 0 := by
  refine ⟨hat.front.relink (nodup_append.1 hat.nodup).1 _, ?_, fun q hq l hl => ?_, fun x => ?_⟩
  · refine (SharedList.Seg.cons_iff.1 hat.back).2.relink_other ?_ _
    exact fun x hx hpost => disjoint_of_nodup_append hat.nodup hx (mem_cons_of_mem _ hpost)
  · exact hl.relink_other (hat.not_mem hq hl) _
  · have hrelink := hat.front.incoming_relink ps (n := h.fresh) (x := x)
      (fun y hy => hat.lt_fresh (mem_append_left _ hy)) (h.link a)
    rw [← hat.shape.counts] at hrelink
    simp only [some.injEq] at hrelink
    exact hrelink

/-- A shared node is linked around: the pointer behind it, `count--`, and `count++` behind it. -/
theorem unlink (hshared : 1 < h.countOf a) : ∃ h₁ h₂ h₃ p',
    TagState.setNext (h, p) (Slot.last pre) (h.link a) = some (h₁, p') ∧ h₁.decCount a = some h₂ ∧
    h₂.incCount (h.link a) = some h₃ ∧ At h₃ p' ps pre (h.link a) post ∧ Frame h h₃ ps ∧
      h₃.item = h.item := by
  have hitem : ∀ x ∈ pre ++ a :: post, h.item x ≠ none := fun x hx => hat.item_ne hx
  obtain ⟨hfront, hback, hothers, hcounts⟩ := hat.skip
  obtain ⟨h₁, hset, hfresh₁, hlink₁, hitem₁, hcount₁⟩ :=
    TagHeap.setNext_spec _ (fun x hx => hitem x (mem_append_left _ hx)) p (h.link a)
  obtain ⟨h₂, hdec, hfresh₂, hlink₂, hitem₂, hcount₂⟩ :=
    TagHeap.decCount_spec (h := h₁) (a := a) (by rw [hitem₁]; exact hitem a (by simp))
  obtain ⟨h₃, hinc, hfresh₃, hlink₃, hitem₃, hcount₃⟩ :=
    TagHeap.incCount_spec (h := h₂) (q := h.link a) (by
      rw [hitem₂, hitem₁]
      exact fun b hb => hat.shape.item_of_link hb)
  rw [hlink₂, hlink₁] at hlink₃
  rw [hitem₂, hitem₁] at hitem₃
  rw [hfresh₂, hfresh₁] at hfresh₃
  have hcount : ∀ x, h₃.countOf x =
      h.countOf x - (if a = x then 1 else 0) + if h.link a = some x then 1 else 0 := by
    intro x
    rw [hcount₃, hcount₂, hcount₁]
  refine ⟨h₁, h₂, h₃, _, hset, hdec, hinc, ⟨⟨fun x hx => ?_, fun x => ?_⟩, hlink₃ ▸ hfront,
    hlink₃ ▸ hback, ?_⟩,
    fun q hq l hl => ⟨hlink₃ ▸ hothers q hq l hl, fun x _ => by rw [hitem₃]⟩, hitem₃⟩
  · rw [hitem₃]
    exact hat.shape.fresh x (hfresh₃ ▸ hx)
  · have hx := hcounts x
    rw [hcount, hlink₃, hfresh₃]
    by_cases hax : a = x
    · subst hax
      rw [if_pos rfl] at hx ⊢
      omega
    · rw [if_neg hax] at hx ⊢
      omega
  · intro x hx
    have hne := hat.ne_of_mem hx
    rw [hcount, if_neg (Ne.symm hne.1), if_neg hne.2]
    exact hat.alone x hx

/-- A node of this list only is linked around and freed. -/
theorem freeNode (hone : h.countOf a ≤ 1) : ∃ h₁ h₂ p',
    TagState.setNext (h, p) (Slot.last pre) (h.link a) = some (h₁, p') ∧ h₁.free a = some h₂ ∧
    At h₂ p' ps pre (h.link a) post ∧ Frame h h₂ ps ∧ ∀ x, x ≠ a → h₂.item x = h.item x := by
  have hitem : ∀ x ∈ pre ++ a :: post, h.item x ≠ none := fun x hx => hat.item_ne hx
  have hapre : a ∉ pre := fun hmem => (hat.ne_of_mem hmem).1 rfl
  have hapost : a ∉ post := (nodup_cons.1 (nodup_append.1 hat.nodup).2.1).1
  obtain ⟨hfront, hback, hothers, hcounts⟩ := hat.skip
  obtain ⟨h₁, hset, hfresh₁, hlink₁, hitem₁, hcount₁⟩ :=
    TagHeap.setNext_spec _ (fun x hx => hitem x (mem_append_left _ hx)) p (h.link a)
  obtain ⟨h₂, hfree, hfresh₂, hlink₂, hitem₂, hcount₂⟩ :=
    TagHeap.free_spec (h := h₁) (a := a) (by rw [hitem₁]; exact hitem a (by simp))
  rw [hlink₁] at hlink₂
  rw [hitem₁] at hitem₂
  rw [hcount₁] at hcount₂
  rw [hfresh₁] at hfresh₂
  have hsame : ∀ {q r l}, Seg ((Slot.last pre).setLink h.link (h.link a)) q l r → a ∉ l →
    Seg h₂.link q l r :=
    fun {q r l} hl hal => hl.congr fun x hx => by
      rw [hlink₂, update_of_ne (ne_of_mem_of_not_mem hx hal)]
  refine ⟨h₁, h₂, _, hset, hfree, ⟨⟨fun x hx => ?_, fun x => ?_⟩, hsame hfront hapre,
    hsame hback hapost, ?_⟩, fun q hq l hl => ?_, fun x hx => ?_⟩
  · rw [hitem₂]
    by_cases hxa : x = a
    · rw [hxa, update_self]
    · rw [update_of_ne hxa]
      exact hat.shape.fresh x (hfresh₂ ▸ hx)
  · -- the pointer of the freed node is gone too
    have hafresh := hat.lt_fresh (a := a) (by simp)
    have hupdate := SharedList.incoming_update ((Slot.last pre).setLink h.link (h.link a))
      ((Slot.last pre).setRoot p (h.link a) :: ps) none (a := x) hafresh
    rw [Slot.setLink_of_notMem hapre, if_neg (some_ne_none x).symm] at hupdate
    have hx := hcounts x
    rw [hcount₂, hlink₂, hfresh₂]
    by_cases hax : a = x
    · subst hax
      rw [if_pos rfl] at hx
      rw [update_self]
      omega
    · rw [if_neg hax] at hx
      rw [update_of_ne (Ne.symm hax)]
      omega
  · intro x hx
    rw [hcount₂, update_of_ne (ne_of_mem_of_not_mem hx hapre)]
    exact hat.alone x hx
  · -- other lists do not have the node
    have hal : a ∉ l := (hat.advance hone).not_mem hq hl a (by simp)
    refine ⟨hsame (hothers q hq l hl) hal, fun x hx => ?_⟩
    rw [hitem₂, update_of_ne (ne_of_mem_of_not_mem hx hal)]
  · rw [hitem₂, update_of_ne hx]

theorem rewriteNode (hone : h.countOf a ≤ 1) (hn : h.nodes a = some n)
    (data : List UInt8) : At (h.set a { n with data }) p ps pre (some a) (a :: post) ∧
    Frame h (h.set a { n with data }) ps ∧
    (h.set a { n with data }).item = Function.update h.item a (some (n.tid, data)) := by
  have hlink : (h.set a { n with data }).link = h.link := by
    rw [TagHeap.link_set]
    have hold : h.link a = n.next := by simp [TagHeap.link, hn]
    exact hold ▸ update_eq_self ..
  have hcount : (h.set a { n with data }).countOf = h.countOf := by
    rw [TagHeap.countOf_set]
    have hold : h.countOf a = n.count := by simp [TagHeap.countOf, hn]
    exact hold ▸ update_eq_self ..
  have hitem := TagHeap.item_set (h := h) (a := a) (n := { n with data })
  refine ⟨⟨⟨fun x hx => ?_, fun x => ?_⟩, hlink ▸ hat.front, hlink ▸ hat.back, hcount ▸ hat.alone⟩,
    fun q hq l hl => ⟨hlink ▸ hl, fun x hx => ?_⟩, hitem⟩
  · have hafresh : a < h.fresh := hat.lt_fresh (by simp)
    have hx : h.fresh ≤ x := hx
    rw [hitem, update_of_ne (by omega)]
    exact hat.shape.fresh x hx
  · rw [hcount, hlink]
    exact hat.shape.counts x
  · have hal : a ∉ l := (hat.advance hone).not_mem hq hl a (by simp)
    rw [hitem, update_of_ne (ne_of_mem_of_not_mem hx hal)]

end At

/-! ## The traversal -/

/-- Two cuts of a list at elements: one whose elements before the cut fail a test that the other
element passes is the first. -/
theorem append_of_first {P : Nat → Prop} {l₁ l₂ mid post' : List Nat} {c : Nat}
    (heq : l₁ ++ a :: l₂ = mid ++ c :: post') (ha : P a) (hmid : ∀ b ∈ mid, ¬ P b) :
    ∃ l, l₁ = mid ++ l ∧ c :: post' = l ++ a :: l₂ := by
  rcases append_eq_append_iff.1 heq with ⟨as, rfl, has⟩ | ⟨as, rfl, has⟩
  · cases as with
    | nil => exact ⟨[], by simp, has.symm⟩
    | cons x as =>
      obtain ⟨rfl, -⟩ := cons.inj has
      exact absurd ha (hmid a (by simp))
  · exact ⟨as, rfl, has⟩

section
variable [DecidableEq Tid] {tid : Tid} {fuel : Nat} {l₁ l₂ : List Nat}

/-- The nodes before the tag are copied one after the other. -/
theorem At.copyUntil {m : Nat} (hat : At h p ps pre (some m) (l₁ ++ a :: l₂)) (hm : 1 < h.countOf m)
    (hl₁ : ∀ b ∈ l₁, h.tidOf b ≠ some tid) (ha : h.tidOf a = some tid) (hfuel : l₁.length < fuel) :
    ∃ h' p' pre', PacketTagList.copyUntil tid fuel (h, p) (Slot.last pre) m =
      some ((h', p'), Slot.last pre', a) ∧ At h' p' ps pre' (some a) (a :: l₂) ∧ Frame h h' ps ∧
        1 < h'.countOf a ∧
      pre'.map h'.item = (pre ++ l₁).map h.item ∧ ∀ x ∈ a :: l₂, h'.item x = h.item x := by
  induction l₁ generalizing h p pre m fuel with
  | nil =>
    obtain ⟨fuel, rfl⟩ := Nat.exists_eq_add_one_of_ne_zero (Nat.ne_of_gt (Nat.zero_lt_of_lt hfuel))
    obtain ⟨heq, -⟩ := SharedList.Seg.cons_iff.1 hat.back
    cases heq
    obtain ⟨i, hi⟩ := ne_none_iff_exists'.1 (hat.item_ne (a := a) (by simp))
    obtain ⟨n, hn, rfl, -, -⟩ := TagHeap.exists_node hi
    have htid : n.tid = tid := by simpa [TagHeap.tidOf, hi] using ha
    refine ⟨h, p, pre, ?_, hat, Frame.refl h ps, hm, by simp, fun x _ => rfl⟩
    rw [PacketTagList.copyUntil, hn, bind_some, if_pos htid]
  | cons c l₁ ih =>
    obtain ⟨fuel, rfl⟩ := Nat.exists_eq_add_one_of_ne_zero (Nat.ne_of_gt (Nat.zero_lt_of_lt hfuel))
    rw [cons_append] at hat
    obtain ⟨heq, hrest⟩ := SharedList.Seg.cons_iff.1 hat.back
    cases heq
    obtain ⟨i, hi⟩ := ne_none_iff_exists'.1 (hat.item_ne (a := c) (by simp))
    obtain ⟨n, hn, rfl, hlink, hcount⟩ := TagHeap.exists_node hi
    have htid : n.tid ≠ tid := by
      have hc := hl₁ c mem_cons_self
      simpa [TagHeap.tidOf, hi] using hc
    obtain ⟨next, hnext⟩ : ∃ next, h.link c = some next := by
      cases l₁ with
      | nil => exact ⟨a, (SharedList.Seg.cons_iff.1 hrest).1⟩
      | cons b l => exact ⟨b, (SharedList.Seg.cons_iff.1 hrest).1⟩
    -- one round: a copy of `c`, and the next node is shared
    obtain ⟨h₁, h₃, h₄, p', hdec, hinc, hset, hfresh, hat', hframe, hitem, hcopy, hshared⟩ :=
      hat.copyNode hm (n.tid, n.data)
    rw [hnext] at hat' hinc
    have hold : ∀ x ∈ pre ++ c :: (l₁ ++ a :: l₂), h₄.item x = h.item x := fun x hx =>
      hitem x (hat.lt_fresh hx).ne
    obtain ⟨h', p'', pre', hrun, hat'', hframe', hcount', hpre, hrest'⟩ := ih hat'
      (hshared next hnext) (fun b hb => by
        rw [TagHeap.tidOf, hold b (by simp [hb])]
        exact hl₁ b (mem_cons_of_mem _ hb))
      (by rw [TagHeap.tidOf, hold a (by simp)]; exact ha) (Nat.lt_of_succ_lt_succ hfuel)
    refine ⟨h', p'', pre', ?_, hat'', hframe.trans hframe', hcount', hpre.trans ?_, fun x hx => ?_⟩
    · have hcreate : h₁.create { n with count := 1 } =
          ((h₁.create ⟨some next, 1, n.tid, n.data⟩).1, h.fresh) := by
        rw [← hnext, hlink, ← hfresh]
        rfl
      rw [Slot.last_append] at hrun
      rw [PacketTagList.copyUntil, hn, bind_some, if_neg htid, if_pos (hcount ▸ hm), hdec,
        bind_some, hcreate, ← hlink, hnext]
      dsimp only
      rw [bind_some, hinc, bind_some, hset, bind_some]
      exact hrun
    · have hpre₄ : pre.map h₄.item = pre.map h.item := map_congr_left fun x hx =>
        hold x (by simp [hx])
      have hl₄ : l₁.map h₄.item = l₁.map h.item := map_congr_left fun x hx => hold x (by simp [hx])
      simp only [map_append, map_cons, hcopy, hi, hpre₄, hl₄, append_assoc, singleton_append]
    · exact (hrest' x hx).trans (hold x (by simp [mem_cons.1 hx]))

/-- `COWTraverse` on a list with the tag: the writer gets the node with the tag at its place, which
is in the old list if all nodes up to the tag are reached by this list only, and behind copies of
the others if not. -/
theorem Shape.cowTraverse_found (hs : Shape h (p :: ps)) (hl : Seg h.link p (l₁ ++ a :: l₂) none)
    (hl₁ : ∀ b ∈ l₁, h.tidOf b ≠ some tid) (ha : h.tidOf a = some tid) (writer : COWWriter Tid β) :
    ∃ preMerge h' p' pre, PacketTagList.cowTraverse tid writer (h, p) =
        (writer preMerge a (Slot.last pre) (h', p')).map (fun r => (r.1, some r.2)) ∧
      At h' p' ps pre (some a) (a :: l₂) ∧ Frame h h' ps ∧ pre.map h'.item = l₁.map h.item ∧
      (∀ x ∈ a :: l₂, h'.item x = h.item x) ∧
      (preMerge = true ∧ h'.countOf a ≤ 1 ∧ (∀ b ∈ l₁ ++ [a], h.countOf b ≤ 1) ∨
        preMerge = false ∧ 1 < h'.countOf a ∧ ∃ b ∈ l₁ ++ [a], 1 < h.countOf b) := by
  have hstart := At.start hs hl
  rcases hstart.search tid hstart.length_le with ⟨-, hmiss⟩ | ⟨mid, c, post', heq, hat, hmid, hres⟩
  · exact absurd ha (hmiss a (by simp))
  obtain ⟨l, rfl, hpost⟩ := append_of_first (P := fun b => h.tidOf b = some tid) heq ha hmid
  rw [nil_append] at hat hres
  rcases hres with ⟨hsearch, hshared⟩ | ⟨hsearch, hone, htid⟩
  · -- a shared node at the tag or before it: the nodes from it on are copied
    have hfind : h.find tid h.fresh (some c) ≠ some none := by
      rw [find_spec hat.back (fun x hx => hat.item_ne (mem_append_right _ hx))
        ((length_append ▸ Nat.le_add_left ..).trans hat.length_le)]
      simp only [ne_eq, some.injEq, find?_eq_none, decide_eq_true_eq, not_forall, not_not]
      exact ⟨a, by simp [hpost], ha⟩
    obtain ⟨it, hit⟩ : ∃ it, h.find tid h.fresh (some c) = some it := by
      rw [find_spec hat.back (fun x hx => hat.item_ne (mem_append_right _ hx))
        ((length_append ▸ Nat.le_add_left ..).trans hat.length_le)]
      exact ⟨_, rfl⟩
    have hne : it ≠ none := fun heq => hfind (heq ▸ hit)
    have hlen := hat.length_le
    rw [hpost] at hat hlen
    obtain ⟨h', p', pre', hcopy, hat', hframe, hcount, hpre, hrest⟩ :=
      hat.copyUntil hshared (fun b hb => hl₁ b (by simp [hb])) ha
        (show List.length _ < h.fresh by simp at hlen; omega)
    obtain ⟨i, hi⟩ := ne_none_iff_exists'.1 (hat'.item_ne (a := a) (by simp))
    obtain ⟨n, hn, -, -, hncount⟩ := TagHeap.exists_node hi
    refine ⟨false, h', p', pre', ?_, hat', hframe, hpre, hrest, .inr ⟨rfl, hcount, ?_⟩⟩
    · rw [PacketTagList.cowTraverse]
      dsimp only
      rw [← Slot.last_nil, hsearch, bind_some]
      dsimp only
      rw [hit, bind_some, if_neg hne, hcopy, bind_some]
      dsimp only
      rw [hn, bind_some, if_pos (hncount ▸ hcount)]
    · have hc : c ∈ l ++ [a] := by
        cases l with
        | nil => exact (cons.inj hpost).1 ▸ mem_singleton_self c
        | cons x l => exact (cons.inj hpost).1 ▸ mem_cons_self
      rw [append_assoc]
      exact ⟨c, mem_append_right _ hc, hshared⟩
  · -- the tag before any shared node
    have hl : l = [] := by
      cases l with
      | nil => rfl
      | cons x l => exact absurd htid (hl₁ c (by simp [(cons.inj hpost).1]))
    subst hl
    obtain ⟨rfl, rfl⟩ := cons.inj hpost
    rw [append_nil] at hl₁ ⊢
    refine ⟨true, h, p, mid, ?_, hat, Frame.refl h ps, rfl, fun _ _ => rfl,
      .inl ⟨rfl, hone, fun b hb => ?_⟩⟩
    · rw [PacketTagList.cowTraverse]
      dsimp only
      rw [← Slot.last_nil, hsearch, bind_some]
    · rcases mem_append.1 hb with hb | hb
      · exact hat.alone b hb
      · exact mem_singleton.1 hb ▸ hone

theorem Shape.cowTraverse_missing (hs : Shape h (p :: ps)) (hl : Seg h.link p l none)
    (hmiss : ∀ b ∈ l, h.tidOf b ≠ some tid) (writer : COWWriter Tid β) :
    PacketTagList.cowTraverse tid writer (h, p) = some ((h, p), none) := by
  have hstart := At.start hs hl
  rw [PacketTagList.cowTraverse]
  dsimp only
  rw [← Slot.last_nil]
  rcases hstart.search tid hstart.length_le with ⟨hsearch, -⟩ | ⟨mid, c, post', rfl, hat, hmid,
    hres⟩
  · rw [hsearch, bind_some]
  rw [nil_append] at hat hres
  rcases hres with ⟨hsearch, hshared⟩ | ⟨-, -, htid⟩
  · have hfind : h.find tid h.fresh (some c) = some none := by
      rw [find_spec hat.back (fun x hx => hat.item_ne (mem_append_right _ hx))
        ((length_append ▸ Nat.le_add_left ..).trans hat.length_le)]
      simp only [some.injEq, find?_eq_none, decide_eq_true_eq]
      exact fun b hb => hmiss b (mem_append_right _ hb)
    rw [hsearch, bind_some]
    dsimp only
    rw [hfind, bind_some, if_pos rfl]
  · exact absurd htid (hmiss c (by simp))

end

end OranNs3.Network
