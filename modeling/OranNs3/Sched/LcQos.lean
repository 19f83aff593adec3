import Mathlib.Data.List.Flatten
import OranNs3.Sched.LogicalChannels

/-!
# Bytes for logical channels by their bit rates

`NrMacSchedulerLcQos` first serves the active channels with a guaranteed bit rate: with equal shares
where their rates together are at least the transport block, and otherwise each with the bytes of
its rate in a slot, as far as it has as many and they are left. What is left is shared equally by
all active channels. A served channel is looked up by its LC id in LCG 1, and is returned as one of
LCG 1. Where the LC ids of a UE are unique and its channels with a guaranteed bit rate are in LCG 1,
each channel that is returned is an active one, and none is returned twice
(`assignBytesToDlLC_shares`).
-/

namespace OranNs3

open List

/-- The channel has a guaranteed bit rate; `UINT64_MAX` is none. -/
def Lc.isGbr (lc : Lc) : Prop :=
  (lc.resourceType = .qbtDgbr ∨ lc.resourceType = .qbtGbr) ∧ lc.eRabGuaranteedBitrateDl ≠ 2 ^ 64 - 1
deriving Decidable

namespace LcQos

def gbrActiveLCs (ueLCG : UeLcg) : List (Nat × Lc) := ueLCG.active.filter fun c => c.2.isGbr

/-- `sumErabGueanteedBitRate`, in 64 bits. -/
def sumErabGuaranteedBitRate (ueLCG : UeLcg) : Nat :=
  ((gbrActiveLCs ueLCG).map fun c => c.2.eRabGuaranteedBitrateDl / 8).sum % 2 ^ 64

/-- The entries of a list, group by group. -/
def byGroup (ueLCG : UeLcg) (l : List (Nat × Lc)) : List (Nat × Lc) :=
  ueLCG.groups.flatMap fun g => l.filter fun c => c.1 = g.id

/-- The bytes that a channel is to get in a slot: those of its rate, where it has as many.
`slotBytes` is the product of the length of a slot and a rate in bytes, which the code computes in
`double`. -/
def demand (slotBytes : Nat → Nat) (lc : Lc) : Nat :=
  min (slotBytes (lc.eRabGuaranteedBitrateDl / 8)) lc.totalSize

/-- The entry of `AssignedBytesToGbrLCsList` for a channel, and the bytes that are left. -/
def serve (slotBytes : Nat → Nat) (st : List (Nat × Nat) × Nat) (c : Nat × Lc) :
    List (Nat × Nat) × Nat :=
  let bytes := demand slotBytes c.2
  let bytesAssigned := if st.2 ≤ bytes then st.2 else bytes
  (st.1 ++ [(c.2.id, bytesAssigned)], st.2 - bytesAssigned)

/-- `AssignedBytesToGbrLCsList`, and the bytes that are left. -/
def assignedBytesToGbr (ueLCG : UeLcg) (slotBytes : Nat → Nat) (tbs : Nat) :
    List (Nat × Nat) × Nat :=
  let gbr := gbrActiveLCs ueLCG
  if 1 < gbr.length ∧ tbs ≤ sumErabGuaranteedBitRate ueLCG then
    if 0 < tbs then ((byGroup ueLCG gbr).map fun c => (c.2.id, tbs / gbr.length), 0) else ([], tbs)
  else if gbr ≠ [] then (byGroup ueLCG gbr).foldl (serve slotBytes) ([], tbs)
  else ([], tbs)

/-- Bytes added to the first entry of a channel. -/
def addBytes (lcId bytesPerLc : Nat) : List (Nat × Nat) → List (Nat × Nat)
  | [] => []
  | p :: l => if p.1 = lcId then (p.1, (p.2 + bytesPerLc) % 2 ^ 32) :: l else p :: addBytes lcId
      bytesPerLc l

/-- The share of an active channel: added to the entry that it has, or an assignation. -/
def share (bytesPerLc : Nat) (st : List (Nat × Nat) × List Assignation) (c : Nat × Lc) :
    List (Nat × Nat) × List Assignation :=
  if c.2.id ∈ st.1.map Prod.fst ∧ c.1 = 1 then (addBytes c.2.id bytesPerLc st.1, st.2)
  else (st.1, st.2 ++ [⟨c.1, c.2.id, bytesPerLc⟩])

def assignBytesToDlLC (ueLCG : UeLcg) (slotBytes : Nat → Nat) (tbs : Nat) : List Assignation :=
  let gbr := assignedBytesToGbr ueLCG slotBytes tbs
  let st :=
    if ueLCG.active ≠ [] ∧ 0 < gbr.2 then
      (byGroup ueLCG ueLCG.active).foldl (share (gbr.2 / ueLCG.active.length)) (gbr.1, [])
    else (gbr.1, [])
  st.2 ++ st.1.map fun p => ⟨1, p.1, p.2⟩

/-! ## The loops over the groups -/

variable {ueLCG : UeLcg} {slotBytes : Nat → Nat} {tbs left : Nat} {l : List (Nat × Lc)}
  {c : Nat × Lc}

theorem filter_flatMap_group {gs : List Lcg} {f : Lcg → List (Nat × Lc)}
    (hf : ∀ g, ∀ c ∈ f g, c.1 = g.id) (hnd : (gs.map Lcg.id).Nodup) {g : Lcg} (hg : g ∈ gs) :
    (gs.flatMap f).filter (fun c => c.1 = g.id) = f g := by
  induction gs with
  | nil => cases hg
  | cons h gs ih =>
    obtain ⟨hnew, hnd⟩ := nodup_cons.1 hnd
    rw [flatMap_cons, filter_append]
    have hself : (f h).filter (fun c => c.1 = h.id) = f h := filter_eq_self.2 fun c hc =>
      decide_eq_true (hf h c hc)
    rcases mem_cons.1 hg with rfl | hg
    · have hothers : (gs.flatMap f).filter (fun c => c.1 = g.id) = [] := by
        refine filter_eq_nil_iff.2 fun c hc => ?_
        obtain ⟨g', hg', hc⟩ := mem_flatMap.1 hc
        rw [decide_eq_true_eq, hf g' c hc]
        exact fun heq => hnew (heq ▸ mem_map_of_mem hg')
      rw [hself, hothers, append_nil]
    · have hother : (f h).filter (fun c => c.1 = g.id) = [] := by
        refine filter_eq_nil_iff.2 fun c hc => ?_
        rw [decide_eq_true_eq, hf h c hc]
        exact fun heq => hnew (heq ▸ mem_map_of_mem hg)
      rw [hother, nil_append, ih hnd hg]

theorem byGroup_flatMap {f : Lcg → List (Nat × Lc)} (hf : ∀ g, ∀ c ∈ f g, c.1 = g.id) :
    byGroup ueLCG (ueLCG.groups.flatMap f) = ueLCG.groups.flatMap f :=
  flatMap_congr fun _ hg => filter_flatMap_group hf ueLCG.nodup hg

theorem byGroup_active : byGroup ueLCG ueLCG.active = ueLCG.active := by
  refine byGroup_flatMap fun g c hc => ?_
  obtain ⟨lc, -, rfl⟩ := mem_map.1 hc
  rfl

theorem byGroup_gbr : byGroup ueLCG (gbrActiveLCs ueLCG) = gbrActiveLCs ueLCG := by
  rw [gbrActiveLCs, UeLcg.active, filter_flatMap]
  refine byGroup_flatMap fun g c hc => ?_
  obtain ⟨lc, -, rfl⟩ := mem_map.1 (mem_filter.1 hc).1
  rfl

/-! ## The channels with a guaranteed bit rate -/

/-- What the channels get one after the other. -/
def grants (slotBytes : Nat → Nat) : Nat → List (Nat × Lc) → List (Nat × Nat)
  | _, [] => []
  | left, c :: l => (c.2.id, min (demand slotBytes c.2) left) :: grants slotBytes
      (left - demand slotBytes c.2) l

theorem foldl_serve (acc : List (Nat × Nat)) : l.foldl (serve slotBytes) (acc, left) =
    (acc ++ grants slotBytes left l, left - (l.map fun c => demand slotBytes c.2).sum) := by
  induction l generalizing acc left with
  | nil => simp [grants]
  | cons c l ih =>
    have hmin : (if left ≤ demand slotBytes c.2 then left else demand slotBytes c.2) =
      min (demand slotBytes c.2) left := by
      split <;> omega
    have hleft : left - min (demand slotBytes c.2) left = left - demand slotBytes c.2 := by omega
    rw [foldl_cons, serve]
    simp only [hmin, hleft]
    rw [ih, grants, map_cons, sum_cons, Nat.sub_sub, append_assoc, singleton_append]

theorem map_fst_grants : (grants slotBytes left l).map Prod.fst = l.map fun c => c.2.id := by
  induction l generalizing left with
  | nil => rfl
  | cons c l ih => rw [grants, map_cons, ih, map_cons]

theorem sum_grants :
    ((grants slotBytes left l).map Prod.snd).sum +
    (left - (l.map fun c => demand slotBytes c.2).sum) = left := by
  induction l generalizing left with
  | nil => simp [grants]
  | cons c l ih =>
    have hl : ((grants slotBytes (left - demand slotBytes c.2) l).map Prod.snd).sum +
        (left - demand slotBytes c.2 - (l.map fun c => demand slotBytes c.2).sum) =
        left - demand slotBytes c.2 := ih
    rw [grants, map_cons, map_cons, sum_cons, sum_cons, ← Nat.sub_sub]
    omega

/-- The channels are served with equal shares. -/
abbrev Equal (ueLCG : UeLcg) (tbs : Nat) : Prop :=
  1 < (gbrActiveLCs ueLCG).length ∧ tbs ≤ sumErabGuaranteedBitRate ueLCG

theorem assignedBytesToGbr_equal (h : Equal ueLCG tbs) (htbs : 0 < tbs) :
    assignedBytesToGbr ueLCG slotBytes tbs =
    ((gbrActiveLCs ueLCG).map fun c => (c.2.id, tbs / (gbrActiveLCs ueLCG).length), 0) := by
  rw [assignedBytesToGbr, if_pos h, if_pos htbs, byGroup_gbr]

theorem assignedBytesToGbr_serve (h : ¬ Equal ueLCG tbs) : assignedBytesToGbr ueLCG slotBytes tbs =
    (grants slotBytes tbs (gbrActiveLCs ueLCG),
      tbs - ((gbrActiveLCs ueLCG).map fun c => demand slotBytes c.2).sum) := by
  rw [assignedBytesToGbr, if_neg h]
  split
  · rw [byGroup_gbr, foldl_serve, nil_append]
  · next hnil =>
    rw [not_not.1 hnil]
    rfl

theorem sum_equal {n : Nat} : ((l.map fun c => (c.2.id, n)).map Prod.snd).sum = l.length * n := by
  induction l with
  | nil => simp
  | cons c l ih => rw [map_cons, map_cons, sum_cons, ih, length_cons, Nat.add_mul, Nat.one_mul,
      Nat.add_comm]

theorem assignedBytesToGbr_spec (ueLCG : UeLcg) (slotBytes : Nat → Nat) (tbs : Nat) :
    ((assignedBytesToGbr ueLCG slotBytes tbs).1.map Prod.fst).Sublist
    ((gbrActiveLCs ueLCG).map fun c => c.2.id) ∧
    ((assignedBytesToGbr ueLCG slotBytes tbs).1.map Prod.snd).sum +
    (assignedBytesToGbr ueLCG slotBytes tbs).2 ≤ tbs := by
  by_cases h : Equal ueLCG tbs
  · rcases Nat.eq_zero_or_pos tbs with rfl | htbs
    · rw [assignedBytesToGbr, if_pos h, if_neg (Nat.lt_irrefl 0)]
      exact ⟨nil_sublist _, Nat.le_refl 0⟩
    · rw [assignedBytesToGbr_equal h htbs]
      refine ⟨?_, ?_⟩
      · rw [map_map]
        exact .refl _
      · rw [sum_equal]
        exact Nat.mul_div_le _ _
  · rw [assignedBytesToGbr_serve h]
    exact ⟨map_fst_grants ▸ .refl _, sum_grants.le⟩

/-! ## The shares of all active channels -/

variable {bytes : Nat} {list : List (Nat × Nat)} {ret : List Assignation} {lcId : Nat}

theorem map_fst_addBytes : (addBytes lcId bytes list).map Prod.fst = list.map Prod.fst := by
  induction list with
  | nil => rfl
  | cons p list ih =>
    rw [addBytes]
    split
    · rfl
    · rw [map_cons, ih, map_cons]

theorem sum_addBytes_le :
    ((addBytes lcId bytes list).map Prod.snd).sum ≤ (list.map Prod.snd).sum + bytes := by
  induction list with
  | nil => exact Nat.zero_le _
  | cons p list ih =>
    rw [addBytes]
    split
    · have := Nat.mod_le (p.2 + bytes) (2 ^ 32)
      simp only [map_cons, sum_cons]
      omega
    · simp only [map_cons, sum_cons]
      omega

/-- A channel has an entry to which its share is added. -/
def Listed (list : List (Nat × Nat)) (c : Nat × Lc) : Prop := c.2.id ∈ list.map Prod.fst ∧ c.1 = 1
deriving Decidable

theorem listed_addBytes : Listed (addBytes lcId bytes list) c ↔ Listed list c := by
  rw [Listed, Listed, map_fst_addBytes]

theorem share_listed (h : Listed list c) :
    share bytes (list, ret) c = (addBytes c.2.id bytes list, ret) := if_pos h

theorem share_not_listed (h : ¬ Listed list c) :
    share bytes (list, ret) c = (list, ret ++ [⟨c.1, c.2.id, bytes⟩]) := if_neg h

theorem foldl_share : l.foldl (share bytes) (list, ret) =
    (((l.filter fun c => Listed list c).map fun c => c.2.id).foldl
      (fun list lcId => addBytes lcId bytes list) list,
        ret ++ (l.filter fun c => ¬ Listed list c).map fun c => ⟨c.1, c.2.id, bytes⟩) := by
  induction l generalizing list ret with
  | nil => simp
  | cons c l ih =>
    rw [foldl_cons]
    by_cases hc : Listed list c
    · rw [share_listed hc, ih]
      simp [listed_addBytes, hc]
    · rw [share_not_listed hc, ih]
      simp [hc]

theorem map_fst_foldl_addBytes {ids : List Nat} :
    (ids.foldl (fun list lcId => addBytes lcId bytes list) list).map Prod.fst =
    list.map Prod.fst := by
  induction ids generalizing list with
  | nil => rfl
  | cons lcId ids ih => rw [foldl_cons, ih, map_fst_addBytes]

theorem sum_foldl_share_le (l : List (Nat × Lc)) (bytes : Nat)
    (st : List (Nat × Nat) × List Assignation) :
    ((l.foldl (share bytes) st).1.map Prod.snd).sum +
      ((l.foldl (share bytes) st).2.map Assignation.bytes).sum ≤ (st.1.map Prod.snd).sum +
        (st.2.map Assignation.bytes).sum + l.length * bytes := by
  induction l generalizing st with
  | nil => simp
  | cons c l ih =>
    rw [foldl_cons]
    refine Nat.le_trans (ih _) ?_
    rw [length_cons, Nat.add_mul, Nat.one_mul, share]
    split
    · have : ((addBytes c.2.id bytes st.1).map Prod.snd).sum ≤ (st.1.map Prod.snd).sum + bytes :=
        sum_addBytes_le
      dsimp only
      omega
    · rw [map_append, sum_append]
      simp only [map_cons, map_nil, sum_cons, sum_nil]
      omega

/-- The entries and the assignations when all channels have their shares. -/
def shared (ueLCG : UeLcg) (slotBytes : Nat → Nat) (tbs : Nat) :
    List (Nat × Nat) × List Assignation :=
  let gbr := assignedBytesToGbr ueLCG slotBytes tbs
  if 0 < gbr.2 then ueLCG.active.foldl (share (gbr.2 / ueLCG.active.length)) (gbr.1, [])
    else (gbr.1, [])

theorem assignBytesToDlLC_eq : assignBytesToDlLC ueLCG slotBytes tbs =
    (shared ueLCG slotBytes tbs).2 ++ (shared ueLCG slotBytes tbs).1.map fun p =>
    ⟨1, p.1, p.2⟩ := by
  have hst : (if ueLCG.active ≠ [] ∧ 0 < (assignedBytesToGbr ueLCG slotBytes tbs).2 then
      (byGroup ueLCG ueLCG.active).foldl
        (share ((assignedBytesToGbr ueLCG slotBytes tbs).2 / ueLCG.active.length))
        ((assignedBytesToGbr ueLCG slotBytes tbs).1, [])
      else ((assignedBytesToGbr ueLCG slotBytes tbs).1, [])) = shared ueLCG slotBytes tbs := by
    rw [shared, byGroup_active]
    by_cases hnil : ueLCG.active = []
    · rw [hnil]
      simp
    · simp [hnil]
  rw [assignBytesToDlLC]
  simp only [hst]

theorem sum_bytes_le : ((assignBytesToDlLC ueLCG slotBytes tbs).map Assignation.bytes).sum ≤
    tbs := by
  have hgbr : ((assignedBytesToGbr ueLCG slotBytes tbs).1.map Prod.snd).sum +
    (assignedBytesToGbr ueLCG slotBytes tbs).2 ≤ tbs :=
    (assignedBytesToGbr_spec ueLCG slotBytes tbs).2
  have hbytes : ∀ list : List (Nat × Nat),
      (list.map fun p => (⟨1, p.1, p.2⟩ : Assignation)).map Assignation.bytes =
      list.map Prod.snd := by
    intro list
    rw [map_map]
    rfl
  rw [assignBytesToDlLC_eq, map_append, sum_append, hbytes, Nat.add_comm, shared]
  split
  · have hle := sum_foldl_share_le ueLCG.active
      ((assignedBytesToGbr ueLCG slotBytes tbs).2 / ueLCG.active.length)
      ((assignedBytesToGbr ueLCG slotBytes tbs).1, [])
    have hdiv := Nat.mul_div_le (assignedBytesToGbr ueLCG slotBytes tbs).2 ueLCG.active.length
    simp only [map_nil, sum_nil] at hle
    omega
  · simp only [map_nil, sum_nil]
    omega

/-- The LC ids of the UE are unique, and its channels with a guaranteed bit rate are in LCG 1. -/
structure Bearers (ueLCG : UeLcg) : Prop where
  ids : (ueLCG.groups.flatMap fun g => g.lcMap.map Lc.id).Nodup
  gbr : ∀ g ∈ ueLCG.groups, ∀ lc ∈ g.lcMap, lc.isGbr → g.id = 1

theorem Bearers.nodup_active (h : Bearers ueLCG) : (ueLCG.active.map fun c => c.2.id).Nodup := by
  have hsub : (ueLCG.active.map fun c => c.2.id).Sublist
    (ueLCG.groups.flatMap fun g => g.lcMap.map Lc.id) := by
    rw [UeLcg.active, map_flatMap]
    refine List.Sublist.flatMap_right _ fun g _ => ?_
    rw [map_map]
    exact List.filter_sublist.map Lc.id
  exact h.ids.sublist hsub

theorem Bearers.gbr_active (h : Bearers ueLCG) (hc : c ∈ gbrActiveLCs ueLCG) : c ∈ ueLCG.active ∧
    c.1 = 1 := by
  obtain ⟨hactive, hgbr⟩ := mem_filter.1 hc
  refine ⟨hactive, ?_⟩
  obtain ⟨g, hg, hc⟩ := mem_flatMap.1 hactive
  obtain ⟨lc, hlc, rfl⟩ := mem_map.1 hc
  exact h.gbr g hg lc (mem_filter.1 hlc).1 (of_decide_eq_true hgbr)

/-- What is returned when all channels have their shares: the entries are for the same channels as
before, and the other active channels have assignations, or none. -/
theorem shared_spec (ueLCG : UeLcg) (slotBytes : Nat → Nat) (tbs : Nat) :
    (shared ueLCG slotBytes tbs).1.map Prod.fst = (assignedBytesToGbr ueLCG slotBytes tbs).1.map
    Prod.fst ∧
    ∃ others : List (Nat × Lc), others.Sublist (ueLCG.active.filter fun c =>
        ¬ Listed (assignedBytesToGbr ueLCG slotBytes tbs).1 c) ∧
          (shared ueLCG slotBytes tbs).2.map (fun a => (a.lcg, a.lcId)) = others.map fun c =>
            (c.1, c.2.id) := by
  rw [shared]
  split
  · rw [foldl_share]
    refine ⟨map_fst_foldl_addBytes, _, .refl _, ?_⟩
    rw [nil_append, map_map]
    rfl
  · exact ⟨rfl, [], nil_sublist _, rfl⟩

/-- For every UE with unique LC ids and its channels with a guaranteed bit rate in LCG 1: no more
bytes are assigned than there are, no channel is listed twice, and each one that is listed is an
active channel. -/
theorem assignBytesToDlLC_shares (h : Bearers ueLCG) (slotBytes : Nat → Nat) (tbs : Nat) :
    ((assignBytesToDlLC ueLCG slotBytes tbs).map Assignation.bytes).sum ≤ tbs ∧
      ((assignBytesToDlLC ueLCG slotBytes tbs).map Assignation.lcId).Nodup ∧
      ∀ a ∈ assignBytesToDlLC ueLCG slotBytes tbs, ∃ c ∈ ueLCG.active, c.1 = a.lcg ∧
        c.2.id = a.lcId := by
  obtain ⟨hlist, others, hothers, hret⟩ := shared_spec ueLCG slotBytes tbs
  have hserved := (assignedBytesToGbr_spec ueLCG slotBytes tbs).1
  have hids := h.nodup_active
  have hactive : ∀ c ∈ others, c ∈ ueLCG.active ∧
    ¬ Listed (assignedBytesToGbr ueLCG slotBytes tbs).1 c := by
    intro c hc
    obtain ⟨hc, hnot⟩ := mem_filter.1 (hothers.subset hc)
    exact ⟨hc, of_decide_eq_true hnot⟩
  have hgbr : ∀ i ∈ (shared ueLCG slotBytes tbs).1.map Prod.fst, ∃ d ∈ ueLCG.active, d.1 = 1 ∧
    d.2.id = i := by
    intro i hi
    obtain ⟨d, hd, rfl⟩ := mem_map.1 (hserved.subset (hlist ▸ hi))
    exact ⟨d, (h.gbr_active hd).1, (h.gbr_active hd).2, rfl⟩
  have hretIds : (shared ueLCG slotBytes tbs).2.map Assignation.lcId = others.map fun c =>
    c.2.id := by
    have hsnd := congrArg (List.map Prod.snd) hret
    rw [map_map, map_map] at hsnd
    exact hsnd
  rw [assignBytesToDlLC_eq]
  have hsum : ((assignBytesToDlLC ueLCG slotBytes tbs).map Assignation.bytes).sum ≤ tbs :=
    sum_bytes_le
  rw [assignBytesToDlLC_eq] at hsum
  refine ⟨hsum, ?_, fun a ha => ?_⟩
  · rw [map_append, map_map, hretIds]
    refine nodup_append.2 ⟨?_, ?_, ?_⟩
    · exact hids.sublist ((hothers.trans filter_sublist).map _)
    · show ((shared ueLCG slotBytes tbs).1.map Prod.fst).Nodup
      rw [hlist]
      exact hids.sublist (hserved.trans (List.filter_sublist.map _))
    · -- a channel of both has an entry for its share
      rintro i hi j hj rfl
      obtain ⟨c, hc, rfl⟩ := mem_map.1 hi
      have hj : c.2.id ∈ (shared ueLCG slotBytes tbs).1.map Prod.fst := hj
      obtain ⟨d, hd, hone, heq⟩ := hgbr _ hj
      obtain ⟨hcactive, hnot⟩ := hactive c hc
      rw [inj_on_of_nodup_map hids hd hcactive heq] at hone
      exact hnot ⟨hlist ▸ hj, hone⟩
  · rcases mem_append.1 ha with ha | ha
    · have hmem : (a.lcg, a.lcId) ∈ others.map fun c => (c.1, c.2.id) := hret ▸ mem_map_of_mem ha
      obtain ⟨c, hc, heq⟩ := mem_map.1 hmem
      exact ⟨c, (hactive c hc).1, (Prod.mk.inj heq).1, (Prod.mk.inj heq).2⟩
    · obtain ⟨p, hp, rfl⟩ := mem_map.1 ha
      exact hgbr _ (mem_map_of_mem hp)

/-- A UE with two channels of a guaranteed bit rate in LCG 1, and another one. -/
def qosChannels : UeLcg where
  groups := [⟨1, [⟨3, 500, 0, 0, .qbtGbr, 8000⟩, ⟨4, 1000, 0, 0, .qbtDgbr, 80⟩]⟩,
    ⟨2, [⟨5, 300, 0, 0, .qbtNonGbr, 0⟩]⟩]
  nodup := by decide
  channels := by decide

/-- With 100 and 1 bytes for the rates, and 2000 bytes in all, each of the three gets 633 more. -/
theorem assignBytesToDlLC_shares_three :
    ((assignBytesToDlLC qosChannels (fun n => n / 10) 2000).map Assignation.bytes).sum ≤ 2000 ∧
    ((assignBytesToDlLC qosChannels (fun n => n / 10) 2000).map Assignation.lcId).Nodup ∧
    ∀ a ∈ assignBytesToDlLC qosChannels (fun n => n / 10) 2000, ∃ c ∈ qosChannels.active,
      c.1 = a.lcg ∧ c.2.id = a.lcId :=
  assignBytesToDlLC_shares ⟨by decide, by decide⟩ _ _

example : assignBytesToDlLC qosChannels
    (fun n => n / 10) 2000 = [⟨2, 5, 633⟩, ⟨1, 3, 733⟩, ⟨1, 4, 634⟩] := by decide

end LcQos

end OranNs3
