import OranNs3.Rrc.Spec

/-!
# The indices of the sounding reference signal

`GetNewSrsConfigurationIndex` takes an index that was given back, or the next one of a counter, and
notes it in `m_ueSrsConfigurationIndexSet`. With the counter it returns the value before the
increment and notes the one after it: of the first `k` such calls the indices are `0, …, k - 1`, and
the noted ones `1, …, k` (`IndicesOf`). So the set has an index that no UE has as soon as there was
a UE (`Rrc.srsBooks_iff`). All indices but `0`, the one of the first UE, are noted by then for the
next, and are given back: `RemoveUe` passes `0` over, which no later UE gets.
-/

namespace OranNs3

open Lts List

/-- The creations and removals of UE contexts. -/
inductive ContextCall where
  | addUe (s : UeState) (componentCarrierId : Nat) (maxSrsReached : Bool)
  | removeUe (rnti : Nat)
  deriving DecidableEq

/-- One of them. -/
def Rrc.contextCall (r : Rrc) : ContextCall → Except RrcError Rrc
  | .addUe s componentCarrierId maxSrsReached => do
    let (r, _) ← r.addUe s componentCarrierId maxSrsReached
    .ok r
  | .removeUe rnti => r.removeUe rnti

/-- Many of them. -/
def Rrc.contextCalls (r : Rrc) (cs : List ContextCall) : Except RrcError Rrc :=
  cs.foldlM Rrc.contextCall r

/-- The indices that UE contexts hold. -/
def heldIndices (ues : List UeManager) : List Nat := ues.map UeManager.srsConfigurationIndex

/-- The noted indices are those of the UE contexts, which are different and not free, the one of a
UE that is removed is free then, and the removal finds it noted. -/
structure SrsBooks (r : Rrc) : Prop where
  noted : ∀ i, i ∈ r.srs.used ↔ i ∈ heldIndices r.ueMap
  nodup : (heldIndices r.ueMap).Nodup
  disjoint : ∀ i ∈ heldIndices r.ueMap, i ∉ r.srs.unused
  available : ∀ u ∈ r.ueMap, ∀ r', r.removeUe u.rnti = .ok r' →
    u.srsConfigurationIndex ∈ r'.srs.unused
  known : ∀ rnti, r.removeUe rnti ≠ .error .unknownSrsIndex

/-! ## What the calls keep -/

/-- The UE contexts have different RNTIs and different indices. -/
structure DistinctUes (ues : List UeManager) : Prop where
  rntis : (ues.map UeManager.rnti).Nodup
  range : ∀ u ∈ ues, 0 < u.rnti ∧ u.rnti < 65536
  held : (heldIndices ues).Nodup

/-- The books after `k` indices of the counter. -/
structure IndicesOf (k : Nat) (p : SrsIndices) (ues : List UeManager) : Prop where
  distinct : DistinctUes ues
  lt : ∀ i ∈ heldIndices ues, i < k
  free : p.unused.Nodup
  free_lt : ∀ i ∈ p.unused, 0 < i ∧ i < k
  held_iff : ∀ i, 0 < i → i < k → (i ∈ heldIndices ues ↔ i ∉ p.unused)
  noted_iff : ∀ i, i ∈ p.used ↔ (∃ j, 0 < j ∧ j ≤ k ∧ j % 65536 = i) ∧ i ∉ p.unused
  last : p.last = k % 65536
  le : k ≤ 65536
  wrapped : k = 65536 → 0 ∉ heldIndices ues

variable {p : SrsIndices} {ues : List UeManager} {u : UeManager} {r r' : Rrc} {k i : Nat}

theorem indicesOf_nil : IndicesOf 0 ⟨[], [], 0⟩ [] := by
  refine ⟨⟨nodup_nil, forall_mem_nil _, nodup_nil⟩, forall_mem_nil _, nodup_nil,
    forall_mem_nil _, ?_, ?_, rfl, by omega, ?_⟩
  · intro i _ hi
    omega
  · intro i
    simp only [not_mem_nil, false_iff]
    rintro ⟨⟨j, hj, hjk, -⟩, -⟩
    omega
  · intro h
    omega

/-! ### A new UE -/

theorem DistinctUes.cons (h : DistinctUes ues) (hr : 0 < u.rnti ∧ u.rnti < 65536)
    (hnew : u.rnti ∉ ues.map UeManager.rnti) (hi : u.srsConfigurationIndex ∉ heldIndices ues) :
    DistinctUes (u :: ues) where
  rntis := nodup_cons.2 ⟨hnew, h.rntis⟩
  range := forall_mem_cons.2 ⟨hr, h.range⟩
  held := nodup_cons.2 ⟨hi, h.held⟩

theorem DistinctUes.length_lt (h : DistinctUes ues) (hr : 0 < u.rnti ∧ u.rnti < 65536)
    (hnew : u.rnti ∉ ues.map UeManager.rnti) : (heldIndices ues).length < 65535 := by
  have hsub : u.rnti :: ues.map UeManager.rnti ⊆ range' 1 65535 := by
    intro x hx
    rw [mem_range'_1]
    rcases mem_cons.1 hx with rfl | hx
    · omega
    · obtain ⟨v, hv, rfl⟩ := mem_map.1 hx
      have := h.range v hv
      omega
  have hle := (subperm_of_subset (nodup_cons.2 ⟨hnew, h.rntis⟩) hsub).length_le
  rw [length_cons, length_range', length_map] at hle
  rw [heldIndices, length_map]
  omega

theorem IndicesOf.le_length (h : IndicesOf k p ues) (hfree : p.unused = []) {a : Nat} (ha : a ≤ 1)
    (hfirst : a = 0 → 0 ∈ heldIndices ues) : k - a ≤ (heldIndices ues).length := by
  have hsub : range' a (k - a) ⊆ heldIndices ues := by
    intro i hi
    rw [mem_range'_1] at hi
    rcases Nat.eq_zero_or_pos i with rfl | hpos
    · exact hfirst (by omega)
    · refine (h.held_iff i hpos (by omega)).2 ?_
      simp [hfree]
  have hle := (subperm_of_subset nodup_range' hsub).length_le
  rwa [length_range'] at hle

/-- A new UE takes the next index of the counter. -/
theorem IndicesOf.count (h : IndicesOf k p ues) (hfree : p.unused = [])
    (hr : 0 < u.rnti ∧ u.rnti < 65536) (hnew : u.rnti ∉ ues.map UeManager.rnti)
    (hu : u.srsConfigurationIndex = p.last) :
    IndicesOf (k + 1) { p with
      used := p.used.insert ((p.last + 1) % 65536), last := (p.last + 1) % 65536 } (u :: ues) := by
  have hlen := h.distinct.length_lt hr hnew
  have hk := h.le_length hfree (le_refl 1) (by omega)
  have hlast : p.last = k := by
    rw [h.last]
    omega
  have hheld : heldIndices (u :: ues) = k :: heldIndices ues := by
    rw [← hlast, ← hu]
    rfl
  rw [hlast]
  refine ⟨h.distinct.cons hr hnew ?_, ?_, h.free, ?_, ?_, ?_, rfl, by omega, ?_⟩
  · rw [hu, hlast]
    intro hi
    exact absurd (h.lt k hi) (Nat.lt_irrefl k)
  · rw [hheld]
    intro i hi
    rcases mem_cons.1 hi with rfl | hi
    · exact Nat.lt_succ_self i
    · exact Nat.lt_succ_of_lt (h.lt i hi)
  · intro i hi
    exact absurd hi (by simp [hfree])
  · intro i hpos hi
    rw [hheld, mem_cons]
    simp only [hfree, not_mem_nil, not_false_eq_true, iff_true]
    rcases Nat.lt_or_eq_of_le (Nat.le_of_lt_succ hi) with hi | rfl
    · exact .inr ((h.held_iff i hpos hi).2 (by simp [hfree]))
    · exact .inl rfl
  · intro i
    simp only [mem_insert_iff, h.noted_iff, hfree, not_mem_nil, not_false_eq_true, and_true]
    constructor
    · rintro (rfl | ⟨j, hj, hjk, rfl⟩)
      · exact ⟨k + 1, by omega, le_rfl, rfl⟩
      · exact ⟨j, hj, by omega, rfl⟩
    · rintro ⟨j, hj, hjk, rfl⟩
      rcases Nat.lt_or_eq_of_le hjk with hjk | rfl
      · exact .inr ⟨j, hj, by omega, rfl⟩
      · exact .inl rfl
  · rw [hheld]
    intro hwrap hzero
    rcases mem_cons.1 hzero with hzero | hzero
    · omega
    · have := h.le_length hfree (Nat.zero_le 1) fun _ => hzero
      omega

/-- A new UE takes an index that is free. -/
theorem IndicesOf.reuse {free : List Nat} (h : IndicesOf k p ues) (hfree : p.unused = i :: free)
    (hr : 0 < u.rnti ∧ u.rnti < 65536) (hnew : u.rnti ∉ ues.map UeManager.rnti)
    (hu : u.srsConfigurationIndex = i) :
    IndicesOf k { p with used := p.used.insert i, unused := free } (u :: ues) := by
  have hmem : ∀ j, j ∈ p.unused ↔ j = i ∨ j ∈ free := by
    intro j
    rw [hfree, mem_cons]
  obtain ⟨hpos, hlt⟩ := h.free_lt i ((hmem i).2 (.inl rfl))
  obtain ⟨hi, hnodup⟩ := nodup_cons.1 (hfree ▸ h.free)
  have hnot : i ∉ heldIndices ues := by
    intro hheld
    exact (h.held_iff i hpos hlt).1 hheld ((hmem i).2 (.inl rfl))
  have hheld : heldIndices (u :: ues) = i :: heldIndices ues := by
    rw [← hu]
    rfl
  refine ⟨h.distinct.cons hr hnew (hu ▸ hnot), ?_, hnodup, ?_, ?_, ?_, h.last, h.le, ?_⟩
  · rw [hheld]
    exact forall_mem_cons.2 ⟨hlt, h.lt⟩
  · intro j hj
    exact h.free_lt j ((hmem j).2 (.inr hj))
  · intro j hj hjk
    rw [hheld, mem_cons, h.held_iff j hj hjk, hmem]
    constructor
    · rintro (rfl | hj)
      · exact hi
      · exact fun h => hj (.inr h)
    · intro hj
      by_cases hji : j = i
      · exact .inl hji
      · exact .inr fun h => h.elim hji hj
  · intro j
    simp only [mem_insert_iff, h.noted_iff, hmem]
    constructor
    · rintro (rfl | ⟨hj, hfree⟩)
      · exact ⟨⟨j, hpos, hlt.le, Nat.mod_eq_of_lt (Nat.lt_of_lt_of_le hlt h.le)⟩, hi⟩
      · exact ⟨hj, fun h => hfree (.inr h)⟩
    · rintro ⟨hj, hfree⟩
      by_cases hji : j = i
      · exact .inl hji
      · exact .inr ⟨hj, fun h => h.elim hji hfree⟩
  · rw [hheld]
    intro hwrap hzero
    rcases mem_cons.1 hzero with rfl | hzero
    · exact absurd hpos (Nat.lt_irrefl 0)
    · exact h.wrapped hwrap hzero

/-! ### A removal -/

theorem DistinctUes.held_erase (h : DistinctUes ues) (hu : u ∈ ues) :
    i ∈ heldIndices (Keyed.erase UeManager.rnti u.rnti ues) ↔ i ∈ heldIndices ues ∧
      i ≠ u.srsConfigurationIndex := by
  simp only [heldIndices, mem_map, Keyed.mem_erase]
  constructor
  · rintro ⟨v, ⟨hv, hne⟩, rfl⟩
    refine ⟨⟨v, hv, rfl⟩, fun heq => hne ?_⟩
    rw [inj_on_of_nodup_map h.held hv hu heq]
  · rintro ⟨⟨v, hv, rfl⟩, hne⟩
    refine ⟨v, ⟨hv, fun heq => hne ?_⟩, rfl⟩
    rw [inj_on_of_nodup_map h.rntis hv hu heq]

theorem DistinctUes.erase (h : DistinctUes ues) (rnti : Nat) :
    DistinctUes (Keyed.erase UeManager.rnti rnti ues) where
  rntis := Keyed.nodup_erase h.rntis
  range := fun v hv => h.range v (Keyed.mem_erase.1 hv).1
  held := h.held.sublist (List.filter_sublist.map _)

theorem IndicesOf.leaveFirst (h : IndicesOf k p ues) (hu : u ∈ ues)
    (hzero : u.srsConfigurationIndex = 0) :
    IndicesOf k p (Keyed.erase UeManager.rnti u.rnti ues) := by
  have hheld : ∀ j, j ∈ heldIndices (Keyed.erase UeManager.rnti u.rnti ues) ↔ j ∈ heldIndices ues ∧
    j ≠ 0 := by
    intro j
    rw [h.distinct.held_erase hu, hzero]
  refine ⟨h.distinct.erase _, ?_, h.free, h.free_lt, ?_, h.noted_iff, h.last, h.le, ?_⟩
  · intro j hj
    exact h.lt j ((hheld j).1 hj).1
  · intro j hj hjk
    rw [hheld, h.held_iff j hj hjk]
    exact and_iff_left hj.ne'
  · intro _ hj
    exact ((hheld 0).1 hj).2 rfl

theorem IndicesOf.giveBack (h : IndicesOf k p ues) (hu : u ∈ ues)
    (hne : u.srsConfigurationIndex ≠ 0) :
    ∃ p', p.removeSrsConfigurationIndex u.srsConfigurationIndex = .ok p' ∧
      IndicesOf k p' (Keyed.erase UeManager.rnti u.rnti ues) := by
  have hmem : u.srsConfigurationIndex ∈ heldIndices ues := mem_map_of_mem hu
  have hpos := Nat.pos_of_ne_zero hne
  have hlt := h.lt _ hmem
  have hfree := (h.held_iff _ hpos hlt).1 hmem
  have hused : u.srsConfigurationIndex ∈ p.used :=
    (h.noted_iff _).2 ⟨⟨_, hpos, hlt.le, Nat.mod_eq_of_lt (Nat.lt_of_lt_of_le hlt h.le)⟩, hfree⟩
  rw [SrsIndices.removeSrsConfigurationIndex, if_pos hused, if_neg hfree]
  refine ⟨_, rfl, h.distinct.erase _, ?_, ?_, ?_, ?_, ?_, h.last, h.le, ?_⟩
  · intro j hj
    exact h.lt j ((h.distinct.held_erase hu).1 hj).1
  · exact (perm_orderedInsert _ _ _).nodup_iff.2 (nodup_cons.2 ⟨hfree, h.free⟩)
  · intro j hj
    rcases (mem_orderedInsert _).1 hj with rfl | hj
    · exact ⟨hpos, hlt⟩
    · exact h.free_lt j hj
  · intro j hj hjk
    rw [h.distinct.held_erase hu, h.held_iff j hj hjk, mem_orderedInsert, not_or, and_comm]
  · intro j
    simp only [mem_filter, bne_iff_ne, mem_orderedInsert, h.noted_iff, not_or]
    rw [and_assoc, and_comm (a := j ∉ p.unused)]
  · intro hwrap hj
    exact h.wrapped hwrap ((h.distinct.held_erase hu).1 hj).1

/-! ### Runs -/

/-- What a call does. -/
theorem IndicesOf.call (h : IndicesOf k r.srs r.ueMap) {c : ContextCall}
    (hcall : r.contextCall c = .ok r') : IndicesOf k r'.srs r'.ueMap ∨
    IndicesOf (k + 1) r'.srs r'.ueMap := by
  cases c with
  | addUe s cc maxSrs =>
    obtain ⟨⟨r₁, u⟩, hadd, heq⟩ := ok_of_bind hcall
    cases heq
    obtain ⟨hmap, -, hne, hlt, hnew, -, hget⟩ := ((Rrc.spec_addUe True r s cc maxSrs).ok hadd).2
    have hr := And.intro (Nat.pos_of_ne_zero hne) hlt
    rw [hmap]
    unfold SrsIndices.getNewSrsConfigurationIndex at hget
    split at hget
    · next hfree =>
      split at hget
      · cases hget
      · obtain ⟨hsrs, hu⟩ := Prod.mk.inj (Except.ok.inj hget)
        rw [← hsrs]
        exact .inr (h.count hfree hr hnew hu.symm)
    · next i free hfree =>
      obtain ⟨hsrs, hu⟩ := Prod.mk.inj (Except.ok.inj hget)
      rw [← hsrs]
      exact .inl (h.reuse hfree hr hnew hu.symm)
  | removeUe rnti =>
    rw [Rrc.contextCall, Rrc.removeUe] at hcall
    split at hcall
    · cases hcall
    · next u hfind =>
      have hu := Keyed.mem_of_find? hfind
      obtain rfl := Keyed.key_of_find? hfind
      obtain ⟨p', hrelease, heq⟩ := ok_of_bind hcall
      cases heq
      rw [Rrc.releaseSrs] at hrelease
      split at hrelease
      · next hzero =>
        cases hrelease
        exact .inl (h.leaveFirst hu hzero)
      · next hne =>
        obtain ⟨q, hq, hbooks⟩ := h.giveBack hu hne
        rw [hq] at hrelease
        cases hrelease
        exact .inl hbooks

theorem IndicesOf.calls (h : IndicesOf k r.srs r.ueMap) {cs : List ContextCall}
    (hcs : r.contextCalls cs = .ok r') : ∃ k', k ≤ k' ∧ IndicesOf k' r'.srs r'.ueMap := by
  induction cs generalizing r k with
  | nil =>
    cases hcs
    exact ⟨k, le_rfl, h⟩
  | cons c cs ih =>
    obtain ⟨r₁, hc, hcs⟩ := ok_of_bind hcs
    rcases h.call hc with hk | hk
    · exact ih hk hcs
    · obtain ⟨k', hle, hk'⟩ := ih hk hcs
      exact ⟨k', by omega, hk'⟩

/-! ## The bookkeeping -/

theorem IndicesOf.known (h : IndicesOf k r.srs r.ueMap) (rnti : Nat) :
    r.removeUe rnti ≠ .error .unknownSrsIndex := by
  intro hcall
  rw [Rrc.removeUe] at hcall
  split at hcall
  · cases hcall
  · next u hfind =>
    have hu := Keyed.mem_of_find? hfind
    rw [Rrc.releaseSrs] at hcall
    split at hcall
    · cases hcall
    · next hne =>
      obtain ⟨q, hq, -⟩ := h.giveBack hu hne
      rw [hq] at hcall
      cases hcall

theorem IndicesOf.not_books (h : IndicesOf k r.srs r.ueMap) (hk : 0 < k) : ¬ SrsBooks r := by
  intro hbooks
  have hle := h.le
  have hfree : k % 65536 ∉ r.srs.unused := by
    intro hfree
    have := h.free_lt _ hfree
    omega
  have hheld := (hbooks.noted _).1 ((h.noted_iff _).2 ⟨⟨k, hk, le_rfl, rfl⟩, hfree⟩)
  rcases Nat.lt_or_eq_of_le hle with hlt | rfl
  · rw [Nat.mod_eq_of_lt hlt] at hheld
    exact absurd (h.lt k hheld) (Nat.lt_irrefl k)
  · exact h.wrapped rfl hheld

variable {cfg : RrcConfig}

theorem first_contextCall {c : ContextCall} (h : (Rrc.init cfg).contextCall c = .ok r) :
    (∃ s cc maxSrs, c = .addUe s cc maxSrs) ∧ ∃ k, 0 < k ∧ IndicesOf k r.srs r.ueMap := by
  cases c with
  | addUe s cc maxSrs =>
    refine ⟨⟨s, cc, maxSrs, rfl⟩, ?_⟩
    have hstart : IndicesOf 0 (Rrc.init cfg).srs (Rrc.init cfg).ueMap := indicesOf_nil
    rcases hstart.call h with hk | hk
    · exfalso
      obtain ⟨⟨r₁, u⟩, hadd, heq⟩ := ok_of_bind h
      cases heq
      have hmap := ((Rrc.spec_addUe True _ s cc maxSrs).ok hadd).2.ueMap
      rw [hmap] at hk
      exact absurd (hk.lt u.srsConfigurationIndex mem_cons_self) (Nat.not_lt_zero _)
    · exact ⟨1, Nat.one_pos, hk⟩
  | removeUe rnti => cases h

/-- After every sequence of creations and removals, the bookkeeping is right if and only if no UE
context was created: it is wrong from the first one on. -/
theorem Rrc.srsBooks_iff {cs : List ContextCall} (h : (Rrc.init cfg).contextCalls cs = .ok r) :
    SrsBooks r ↔ ∀ s cc maxSrs, ContextCall.addUe s cc maxSrs ∉ cs := by
  cases cs with
  | nil =>
    cases h
    have hstart : IndicesOf 0 (Rrc.init cfg).srs (Rrc.init cfg).ueMap := indicesOf_nil
    refine iff_of_true ⟨fun _ => Iff.rfl, nodup_nil, forall_mem_nil _, forall_mem_nil _,
      hstart.known⟩ ?_
    simp
  | cons c cs =>
    obtain ⟨r₁, hc, hcs⟩ := ok_of_bind h
    obtain ⟨⟨s, cc, maxSrs, rfl⟩, k, hpos, hk⟩ := first_contextCall hc
    obtain ⟨k', hle, hk'⟩ := hk.calls hcs
    refine iff_of_false (hk'.not_books (by omega)) ?_
    intro hno
    exact hno s cc maxSrs mem_cons_self

/-- The first UE comes and goes: the index `1` is noted still. -/
theorem Rrc.srsBooks_iff_one :
    ∃ r, (Rrc.init (.single 1 2)).contextCalls [.addUe .initialRandomAccess 0 false, .removeUe 1] =
      .ok r ∧
    r.srs = ⟨[1], [], 1⟩ ∧ (SrsBooks r ↔
      ∀ s cc maxSrs, ContextCall.addUe s cc maxSrs ∉ [.addUe .initialRandomAccess 0 false,
        .removeUe 1]) :=
  ⟨_, rfl, rfl, Rrc.srsBooks_iff (show (Rrc.init (.single 1 2)).contextCalls _ = _ from rfl)⟩

/-- The first UE has the index `0`, and `1` is noted. -/
theorem Rrc.not_srsBooks : ¬ ∀ cfg cs r, (Rrc.init cfg).contextCalls cs = .ok r → SrsBooks r := by
  intro h
  have hbooks := h (.single 1 2) [.addUe .initialRandomAccess 0 false] _ rfl
  have hheld := (hbooks.noted 1).1 (mem_singleton_self 1)
  exact absurd (mem_singleton.1 hheld) (by decide)

end OranNs3
