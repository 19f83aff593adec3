import OranNs3.Network.PacketTagsRuns

/-!
# Replacing a tag by one of another size

`Replace` writes the new value of a tag that only its list reaches into the node of the old value,
whose size it leaves as it is; the value of a tag behind a shared node gets a node of its own. So
`replace_iff`: the new value is there with its own size if and only if a node that is rewritten has
that size. A longer value does not fit, and behind a shorter one the size of the old one stays.
-/

namespace OranNs3.Network

open List Option

open SharedList (Seg)

variable {Tid Tag : Type} [DecidableEq Tid] {T : TagTypes Tid Tag} {h : TagHeap Tid}
  {p : Option Nat} {ps : List (Option Nat)} {l : List Nat} {tag : Tag}

/-- `Peek` gives the tag, and its node has its size. -/
def PacketTagList.Current (T : TagTypes Tid Tag) (st : TagState Tid) (tag : Tag) : Prop :=
  peek T st (T.tid tag) = some (some tag) ∧
  ∃ a n, st.1.find (T.tid tag) st.1.fresh st.2 = some (some a) ∧ st.1.nodes a = some n ∧
    n.size = (T.serialize tag).length

theorem Shape.current_iff (hs : Shape h (p :: ps)) (hl : Seg h.link p l none) {rest : List UInt8}
    {is₁ is₂ : List (Option (Tid × List UInt8))}
    (hitems : l.map h.item = is₁ ++ some (T.tid tag, T.serialize tag ++ rest) :: is₂)
    (hne : ∀ i ∈ is₁, i.map Prod.fst ≠ some (T.tid tag)) :
    PacketTagList.Current T (h, p) tag ↔ rest = [] := by
  obtain ⟨l₁, l', rfl, h₁, h'⟩ := map_eq_append_iff.1 hitems
  obtain ⟨a, l₂, rfl, ha, -⟩ := map_eq_cons_iff.1 h'
  obtain ⟨n, hn, heq, -⟩ := TagHeap.exists_node ha
  have hdata : n.data = T.serialize tag ++ rest := (Prod.mk.inj heq).2
  have htid : h.tidOf a = some (T.tid tag) := by rw [TagHeap.tidOf, ha]; rfl
  have hbefore : ∀ b ∈ l₁, h.tidOf b ≠ some (T.tid tag) := fun b hb =>
    hne (h.item b) (h₁ ▸ mem_map_of_mem hb)
  have hfind : h.find (T.tid tag) h.fresh p = some (some a) := by
    rw [find_spec hl (fun x hx => hs.item_of_mem mem_cons_self hl hx) (At.start hs hl).length_le,
      find?_append, find?_eq_none.2 fun b hb => by simpa using hbefore b hb, none_or,
      find?_cons_of_pos (by simp [htid])]
  have hpeek : PacketTagList.peek T (h, p) (T.tid tag) = some (some tag) := by
    rw [PacketTagList.peek, hfind, bind_some]
    dsimp only
    rw [hn, bind_some, hdata, T.read_back, map_some]
  have hsize : n.size = (T.serialize tag).length + rest.length := by
    rw [TagData.size, hdata, length_append]
  refine ⟨fun hcurrent => ?_, fun hrest => ⟨hpeek, a, n, hfind, hn, ?_⟩⟩
  · obtain ⟨-, b, m, hb, hm, hlen⟩ := hcurrent
    cases some.inj (hb.symm.trans hfind)
    cases hm.symm.trans hn
    rw [hsize] at hlen
    exact length_eq_zero_iff.1 (by omega)
  · rw [hsize, hrest, length_nil, Nat.add_zero]

/-- The tag is current after `Replace` if and only if the node that is rewritten, if one is, has its
size. -/
theorem Maps.replace_current {m : Tid → Option Tag} (hm : Maps T h p m) (hs : Shape h (p :: ps))
    (tag : Tag) : (∃ st found, PacketTagList.replace T (h, p) tag = some (st, found) ∧
      PacketTagList.Current T st tag) ↔ ∀ l₁ a l₂ n, Seg h.link p (l₁ ++ a :: l₂) none →
        (∀ b ∈ l₁ ++ [a], h.countOf b ≤ 1) → h.nodes a = some n → n.tid = T.tid tag →
          n.size = (T.serialize tag).length := by
  obtain ⟨es, l, hst, rfl⟩ := hm
  cases hfind : tagMap T es (T.tid tag) with
  | none =>
    -- no node is rewritten
    have hmiss := tidOf_ne hst.items (tagMap_eq_none_iff.1 hfind)
    have htraverse := hs.cowTraverse_missing hst.seg hmiss (PacketTagList.replaceWriter T tag)
    obtain ⟨h', p', l', hadd, hs', -, hl', hitems⟩ := hs.add_missing hst.seg hmiss
    have hcode : PacketTagList.replace T (h, p) tag = some ((h', p'), false) := by
      simp [PacketTagList.replace, htraverse, hadd]
    have hcurrent : PacketTagList.Current T (h', p') tag :=
      (hs'.current_iff hl' (show _ = [] ++ some (T.tid tag, T.serialize tag ++ []) :: _ by
        rw [hitems, append_nil, nil_append]) fun i hi => absurd hi not_mem_nil).2 rfl
    refine iff_of_true ⟨_, _, hcode, hcurrent⟩ fun l₁ a l₂ n hseg _ hn htid => ?_
    refine absurd ?_ (hmiss a (hseg.unique hst.seg ▸ by simp))
    simp [TagHeap.tidOf, TagHeap.item, hn, htid]
  | some old =>
    obtain ⟨htid, e₁, rest, e₂, rfl, hne⟩ := tagMap_eq_some hfind
    obtain ⟨l₁, a, l₂, rfl, h₁, ha, h₂⟩ := hst.cut
    rw [TagTypes.entry, htid] at ha
    have hbefore := tidOf_ne h₁ hne
    have hnetype : ∀ i ∈ l₁.map h.item, i.map Prod.fst ≠ some (T.tid tag) :=
      forall_mem_map.2 hbefore
    -- a node with the type is the one that is found
    have hcut : ∀ {l₁' c l₂' n}, Seg h.link p (l₁' ++ c :: l₂') none → h.nodes c = some n →
        n.tid = T.tid tag → l₁' = l₁ ∧ c = a := by
      intro l₁' c l₂' n hseg hn hntid
      have hc : h.tidOf c = some (T.tid tag) := by simp [TagHeap.tidOf, TagHeap.item, hn, hntid]
      obtain ⟨l', rfl, heq⟩ := append_of_first (P := fun b => h.tidOf b = some (T.tid tag))
        (hseg.unique hst.seg) hc hbefore
      cases l' with
      | nil => exact ⟨append_nil l₁, (cons.inj heq).1.symm⟩
      | cons x l' =>
        obtain ⟨rfl, rfl⟩ := cons.inj heq
        have hnodup := hst.nodup
        rw [map_append, map_cons, nodup_middle, ← map_append] at hnodup
        refine absurd hc (tidOf_ne h₂ (fun e he heq => (nodup_cons.1 hnodup).1 ?_) c (by simp))
        exact mem_map.2 ⟨e, mem_append_right _ he, heq.trans htid.symm⟩
    by_cases hone : ∀ b ∈ l₁ ++ [a], h.countOf b ≤ 1
    · obtain ⟨hnone, hsome⟩ := hs.replace_inPlace hst.seg hbefore ha hone
      obtain ⟨n, hn, heq, -⟩ := TagHeap.exists_node ha
      obtain ⟨hntid, hdata⟩ := Prod.mk.inj heq
      -- the condition is about this node
      have hcondition : (∀ l₁ a l₂ n, Seg h.link p (l₁ ++ a :: l₂) none →
          (∀ b ∈ l₁ ++ [a], h.countOf b ≤ 1) → h.nodes a = some n → n.tid = T.tid tag →
          n.size = (T.serialize tag).length) ↔
          (T.serialize old ++ rest).length = (T.serialize tag).length := by
        refine ⟨fun hall => ?_, fun hlen l₁' c l₂' n' hseg _ hn' hntid' => ?_⟩
        · exact hdata ▸ hall l₁ a l₂ n hst.seg hone hn hntid
        · obtain ⟨rfl, rfl⟩ := hcut hseg hn' hntid'
          cases hn.symm.trans hn'
          rw [TagData.size, hdata, hlen]
      rw [hcondition]
      by_cases hfits : (T.serialize tag).length ≤ (T.serialize old ++ rest).length
      · obtain ⟨h', p', l', hcode, hs', -, hl', hitems⟩ := hsome _ (if_pos hfits)
        have hcurrent := hs'.current_iff hl' hitems hnetype
        rw [drop_eq_nil_iff] at hcurrent
        refine ⟨fun hex => ?_, fun hlen => ⟨_, _, hcode, hcurrent.2 hlen.le⟩⟩
        obtain ⟨st, found, hcode', hst'⟩ := hex
        cases hcode.symm.trans hcode'
        exact le_antisymm (hcurrent.1 hst') hfits
      · refine ⟨fun hex => ?_, fun hlen => absurd hlen.ge hfits⟩
        obtain ⟨st, found, hcode, -⟩ := hex
        cases (hnone (if_neg hfits)).symm.trans hcode
    · have hshared := hone
      simp only [not_forall, not_le, exists_prop] at hshared
      obtain ⟨h', p', l', hcode, hs', -, hl', hitems⟩ := hs.replace_copy hst.seg hbefore ha hshared
      have hcurrent : PacketTagList.Current T (h', p') tag :=
        (hs'.current_iff hl' (show _ = _ ++ some (T.tid tag, T.serialize tag ++ []) :: _ by
          rw [hitems, append_nil]) hnetype).2 rfl
      refine iff_of_true ⟨_, _, hcode, hcurrent⟩ fun l₁' c l₂' n hseg hone' hn hntid => ?_
      obtain ⟨rfl, rfl⟩ := hcut hseg hn hntid
      exact absurd hone' hone

/-- `Replace` in any program: the new value is there with its own size if and only if the tag is not
in a node of another size that no other list reaches. -/
theorem replace_iff {cs : List (TagCall Tid Tag)} {w : TagLists Tid}
    {outs : List (Option Tag × Bool)}
    (hcs : Lts.outputs (TagLists.call T) TagLists.new cs = some (w, outs)) {i : Nat}
    (hp : w.heads[i]? = some p) (tag : Tag) :
    (∃ st found, PacketTagList.replace T (w.heap, p) tag = some (st, found) ∧
      PacketTagList.Current T st tag) ↔ ∀ l₁ a l₂ n, Seg w.heap.link p (l₁ ++ a :: l₂) none →
        (∀ b ∈ l₁ ++ [a], w.heap.countOf b ≤ 1) → w.heap.nodes a = some n → n.tid = T.tid tag →
          n.size = (T.serialize tag).length := by
  obtain ⟨ms, -, href⟩ := TagLists.refines_of_outputs hcs
  rcases href.get i with ⟨hnone, -⟩ | ⟨q, m, hq, -, hmaps, hs⟩
  · cases hnone.symm.trans hp
  · cases hq.symm.trans hp
    exact hmaps.replace_current hs tag

/-- `DeviceNameTag`, with names that the byte for their length can count. -/
def deviceNameTags : TagTypes Unit { name : List UInt8 // name.length < 256 } where
  tid := fun _ => ()
  serialize := fun name => UInt8.ofNat name.1.length :: name.1
  deserialize := fun _ bytes => match bytes with
    | [] => none
    | l :: rest =>
      if l.toNat ≤ rest.length then
        some ⟨rest.take l.toNat, (List.length_take_le ..).trans_lt l.toNat_lt⟩
      else none
  read_back := fun name rest => by
    have hlen : (UInt8.ofNat name.1.length).toNat = name.1.length := UInt8.toNat_ofNat_of_lt' name.2
    simp [hlen]

/-- A shared node: the copy of the list gets a longer name. -/
theorem replace_iff_example : ∃ w outs, Lts.outputs (TagLists.call deviceNameTags) TagLists.new
      [.construct, .add 0 ⟨[97], by decide⟩, .copy 0] = some (w, outs) ∧
    ∃ st found, PacketTagList.replace deviceNameTags (w.heap, some 0) ⟨[97, 98], by decide⟩ =
      some (st, found) ∧ PacketTagList.Current deviceNameTags st ⟨[97, 98], by decide⟩ := by
  refine ⟨_, _, rfl, (replace_iff (T := deviceNameTags) (i := 1)
    (show Lts.outputs _ _ [.construct, .add 0 ⟨[97], by decide⟩, .copy 0] = some _ from rfl)
      rfl _).2 fun l₁ a l₂ n hseg hone hn _ => ?_⟩
  have hhead : 0 ∈ l₁ ++ [a] := by
    cases l₁ with
    | nil => exact some.inj (SharedList.Seg.cons_iff.1 hseg).1 ▸ mem_singleton_self _
    | cons b l => exact some.inj (SharedList.Seg.cons_iff.1 hseg).1 ▸ mem_cons_self
  exact absurd (hone 0 hhead) (by decide)

/-- A longer name does not fit into the node of a shorter one. -/
theorem replace_fails : ¬ ∀ (old tag : { name : List UInt8 // name.length < 256 }),
    ∃ w outs, Lts.outputs (TagLists.call deviceNameTags) TagLists.new [.construct, .add 0 old] =
      some (w, outs) ∧ ∃ st found, PacketTagList.replace deviceNameTags (w.heap, some 0) tag =
        some (st, found) ∧ PacketTagList.Current deviceNameTags st tag := by
  intro hall
  obtain ⟨w, outs, hcs, st, found, hcode, -⟩ := hall ⟨[97], by decide⟩ ⟨[97, 98], by decide⟩
  cases hcs
  cases hcode

end OranNs3.Network
