import Mathlib.Algebra.Order.BigOperators.Group.List
import Mathlib.Algebra.Order.Ring.Nat
import OranNs3.Sched.LcRoundRobin
import OranNs3.Sched.LcQos

/-!
# The least bytes of a logical channel

`DoScheduleDlData` takes the subheader of a MAC PDU, three bytes, off the bytes of each logical
channel, and asserts that there are as many. The algorithms that share the bytes do not know of it:
they divide them by the number of channels, however small the block is. The assertion holds for the
shares in rounds where the block has three bytes for each channel and those that need less get the
rest (`RrEnough`), and for those by bit rates where what a channel is served with and its equal
share are three bytes together (`QosEnough`, `dlRlcPdus_iff`).
-/

namespace OranNs3

open Fuel List Option

/-- The RLC PDUs that `DoScheduleDlData` announces, with their LC ids; `none` where its assertion
fails. -/
def dlRlcPdus (distributedBytes : List Assignation) : Option (List (Nat × Nat)) :=
  distributedBytes.mapM fun a => if 3 ≤ a.bytes then some (a.lcId, subU32 a.bytes 3) else none

/-- The assertion holds, and no difference wraps. -/
def DlPdusOk (distributedBytes : List Assignation) : Prop :=
  (dlRlcPdus distributedBytes).isSome ∧ ∀ a ∈ distributedBytes, 3 ≤ a.bytes

theorem dlPdusOk_iff {as : List Assignation} : DlPdusOk as ↔ ∀ a ∈ as, 3 ≤ a.bytes := by
  refine and_iff_right_of_imp fun h => ?_
  induction as with
  | nil => rfl
  | cons a as ih =>
    obtain ⟨ha, has⟩ := forall_mem_cons.1 h
    obtain ⟨pdus, hpdus⟩ := isSome_iff_exists.1 (ih has)
    rw [dlRlcPdus] at hpdus
    simp [dlRlcPdus, mapM_cons, if_pos ha, hpdus]

/-! ## In rounds -/

namespace LcRr

variable {l : List LcShare} {ueLCG : UeLcg} {tbs : Nat}

/-- There are three bytes for each channel, and one that needs less gets the rest of what is left
when all have what they need. -/
def RrEnough (ueLCG : UeLcg) (tbs : Nat) : Prop :=
  let l := activeLc ueLCG
  let left := tbs - (l.map need).sum
  3 * l.length ≤ tbs ∧
    ∀ i c, l[i]? = some c → 3 ≤ need c + left / l.length + if i < left % l.length then 1 else 0

theorem forall_mem_deal {q r : Nat} : (∀ a ∈ deal q r l, 3 ≤ a.bytes) ↔
    ∀ i c, l[i]? = some c → 3 ≤ c.allocatedBytes + q + if i < r then 1 else 0 := by
  induction l generalizing r with
  | nil => simp [deal]
  | cons c l ih =>
    rw [deal, forall_mem_cons, ih]
    constructor
    · rintro ⟨hc, hl⟩ i d hd
      cases i with
      | zero =>
        obtain rfl := some.inj hd
        exact hc
      | succ i =>
        have := hl i d hd
        rw [if_congr (show i + 1 < r ↔ i < r - 1 by omega) rfl rfl]
        exact this
    · intro h
      refine ⟨h 0 c rfl, fun i d hd => ?_⟩
      rw [if_congr (show i < r - 1 ↔ i + 1 < r by omega) rfl rfl]
      exact h (i + 1) d hd

theorem three_mul_length_le {as : List Assignation} (h : ∀ a ∈ as, 3 ≤ a.bytes) :
    3 * as.length ≤ (as.map Assignation.bytes).sum := by
  induction as with
  | nil => exact le_refl 0
  | cons a as ih =>
    obtain ⟨ha, has⟩ := forall_mem_cons.1 h
    have := ih has
    rw [length_cons, map_cons, sum_cons]
    omega

theorem SharedOut.three_le_iff {out : List Assignation} (h : SharedOut tbs (activeLc ueLCG) out)
    (hne : activeLc ueLCG ≠ []) : (∀ a ∈ out, 3 ≤ a.bytes) ↔ RrEnough ueLCG tbs := by
  have hlen : out.length = (activeLc ueLCG).length := h.fair.length_eq.symm
  have hpos : 0 < (activeLc ueLCG).length := length_pos_iff.2 hne
  have hall : (∀ a ∈ out, 3 ≤ a.bytes) → 3 * (activeLc ueLCG).length ≤ tbs := fun hout => by
    rw [← hlen, ← h.sum]
    exact three_mul_length_le hout
  rcases le_total ((activeLc ueLCG).map need).sum tbs with hle | hle
  · -- all have what they need, and share the rest
    have hiff : (∀ a ∈ out, 3 ≤ a.bytes) ↔ ∀ i c, (activeLc ueLCG)[i]? = some c → 3 ≤ need c +
        (tbs - ((activeLc ueLCG).map need).sum) / (activeLc ueLCG).length +
        if i < (tbs - ((activeLc ueLCG).map need).sum) % (activeLc ueLCG).length then 1 else 0 := by
      rw [h.beyond hle, forall_mem_deal]
      refine forall_congr' fun i => ?_
      rw [getElem?_map]
      cases (activeLc ueLCG)[i]? with
      | none => simp
      | some c => simp [satisfied]
    exact ⟨fun hout => ⟨hall hout, hiff.1 hout⟩, fun henough => hiff.2 henough.2⟩
  · have hzero : tbs - ((activeLc ueLCG).map need).sum = 0 := Nat.sub_eq_zero_of_le hle
    constructor
    · intro hout
      refine ⟨hall hout, fun i c hc => ?_⟩
      obtain ⟨a, ha, hneed⟩ := Related.exists_mem (h.within hle) (mem_of_getElem? hc)
      rw [add_assoc]
      exact le_trans (le_trans (hout a ha) hneed) (Nat.le_add_right _ _)
    · rintro ⟨hthree, hneed⟩ a ha
      obtain ⟨c, hc, -, -, hmin⟩ := Related.exists_mem h.fair.flip ha
      obtain ⟨i, hi⟩ := getElem?_of_mem hc
      have hc3 := hneed i c hi
      rw [hzero, Nat.zero_div, Nat.zero_mod, if_neg (Nat.not_lt_zero i)] at hc3
      have hshare : 3 ≤ tbs / (activeLc ueLCG).length := (Nat.le_div_iff_mul_le hpos).2 hthree
      omega

theorem dlPdusOk_iff (ueLCG : UeLcg) (slotPeriod : Nat) {tbs : Nat} (hlt : tbs < 2 ^ 32) :
    (∀ as, Returns (assignBytesToDlLC ueLCG tbs slotPeriod) as → DlPdusOk as) ↔
    RrEnough ueLCG tbs := by
  by_cases hnil : activeLc ueLCG = []
  · refine iff_of_true (fun as has => ?_) ⟨by simp [hnil], by simp [hnil]⟩
    obtain ⟨fuel, hfuel⟩ := has.exists
    rw [assignBytesToDlLC, assignBytesToLC, if_pos hnil] at hfuel
    cases hfuel
    exact OranNs3.dlPdusOk_iff.2 (forall_mem_nil _)
  · have hactive : ueLCG.active ≠ [] := by
      intro hnone
      have hperm := activeLc_perm ueLCG
      rw [hnone] at hperm
      exact hnil hperm.eq_nil
    obtain ⟨out, hout, hreturns⟩ := activeLc_returns ueLCG (le_refl tbs) hactive
    have hret := hreturns .u32 (counts_u32 hlt)
    rw [← hout.three_le_iff hnil]
    constructor
    · intro h
      exact OranNs3.dlPdusOk_iff.1 (h out hret)
    · intro h as has
      rw [has.unique hret]
      exact OranNs3.dlPdusOk_iff.2 h

end LcRr

/-! ## By bit rates -/

namespace LcQos

variable {ueLCG : UeLcg} {slotBytes : Nat → Nat} {tbs left bytes i : Nat} {l : List (Nat × Lc)}
  {c : Nat × Lc} {list : List (Nat × Nat)} {p : Nat × Nat}

/-- What the `i`-th of the channels is served with. -/
def granted (slotBytes : Nat → Nat) (tbs : Nat) (l : List (Nat × Lc)) (i : Nat) (c : Nat × Lc) :
    Nat :=
  min (demand slotBytes c.2) (tbs - ((l.take i).map fun c => demand slotBytes c.2).sum)

/-- The `i`-th of the channels is the first one with its LC id, which is one of LCG 1. -/
def First (ueLCG : UeLcg) (l : List (Nat × Lc)) (i : Nat) (c : Nat × Lc) : Prop :=
  (∃ d ∈ ueLCG.active, d.1 = 1 ∧ d.2.id = c.2.id) ∧ c.2.id ∉ (l.take i).map fun c => c.2.id
deriving Decidable

/-- The channels with a guaranteed bit rate have three bytes with their equal shares, or, where
there are not so many, with what they are served with and their shares of the rest; and the shares
of other channels are three bytes, if something is left for them. -/
def QosEnough (ueLCG : UeLcg) (slotBytes : Nat → Nat) (tbs : Nat) : Prop :=
  let gbr := gbrActiveLCs ueLCG
  if Equal ueLCG tbs then 3 * gbr.length ≤ tbs
  else
    let left := tbs - (gbr.map fun c => demand slotBytes c.2).sum
    (∀ i c, gbr[i]? = some c → 3 ≤ granted slotBytes tbs gbr i c +
        if 0 < left ∧ First ueLCG gbr i c then left / ueLCG.active.length else 0) ∧
      (0 < left → ∀ c ∈ ueLCG.active, c.1 = 1 ∧ c.2.id ∈ gbr.map (fun c => c.2.id) ∨
        3 ≤ left / ueLCG.active.length)

theorem getElem?_grants (h : l[i]? = some c) :
    (grants slotBytes left l)[i]? = some (c.2.id, granted slotBytes left l i c) := by
  induction l generalizing left i with
  | nil => cases h
  | cons d l ih =>
    cases i with
    | zero =>
      obtain rfl := some.inj h
      simp [grants, granted]
    | succ i =>
      rw [grants, getElem?_cons_succ, ih h, granted, granted, take_succ_cons, map_cons, sum_cons,
        Nat.sub_sub]

theorem length_grants : (grants slotBytes left l).length = l.length := by
  have hmap : (grants slotBytes left l).map Prod.fst = _ := map_fst_grants
  simpa using congrArg length hmap

theorem foldl_addBytes_cons {ids : List Nat} (hids : ids.Nodup) :
    ids.foldl (fun list lcId => addBytes lcId bytes list) (p :: list) =
      (if p.1 ∈ ids then (p.1, (p.2 + bytes) % 2 ^ 32) else p) ::
        (ids.filter fun lcId => lcId ≠ p.1).foldl (fun list lcId => addBytes lcId bytes list)
          list := by
  induction ids generalizing p list with
  | nil => rfl
  | cons lcId ids ih =>
    obtain ⟨hnew, hids⟩ := nodup_cons.1 hids
    rw [foldl_cons, addBytes]
    by_cases hp : p.1 = lcId
    · have hsame : ids.filter (fun lcId => lcId ≠ p.1) = ids :=
        filter_eq_self.2 fun x hx => decide_eq_true fun heq => hnew (hp ▸ heq ▸ hx)
      rw [if_pos hp, ih hids, if_neg (show p.1 ∉ ids from hp ▸ hnew), if_pos (hp ▸ mem_cons_self),
        filter_cons_of_neg (by simpa using hp.symm)]
    · rw [if_neg hp, ih hids,
        filter_cons_of_pos (by simpa using fun heq : lcId = p.1 => hp heq.symm), foldl_cons]
      simp [hp]

theorem getElem?_foldl_addBytes {ids : List Nat} (hids : ids.Nodup) (h : list[i]? = some p) :
    (ids.foldl (fun list lcId => addBytes lcId bytes list) list)[i]? =
      some (p.1, if p.1 ∈ ids ∧ p.1 ∉ (list.take i).map Prod.fst then (p.2 + bytes) % 2 ^ 32
        else p.2) := by
  induction list generalizing ids i with
  | nil => cases h
  | cons q list ih =>
    rw [foldl_addBytes_cons hids]
    cases i with
    | zero =>
      obtain rfl := some.inj h
      rw [getElem?_cons_zero]
      split <;> simp_all
    | succ i =>
      rw [getElem?_cons_succ, ih (hids.filter _) h]
      simp only [mem_filter, decide_eq_true_eq, take_succ_cons, map_cons, mem_cons, not_or,
        and_assoc]

theorem three_le_iff_shared : (∀ a ∈ assignBytesToDlLC ueLCG slotBytes tbs, 3 ≤ a.bytes) ↔
    (∀ p ∈ (shared ueLCG slotBytes tbs).1, 3 ≤ p.2) ∧ ∀ a ∈ (shared ueLCG slotBytes tbs).2,
    3 ≤ a.bytes := by
  rw [assignBytesToDlLC_eq, forall_mem_append, List.forall_mem_map, and_comm]

theorem nodup_listed :
    ((ueLCG.active.filter fun c => Listed list c).map fun c => c.2.id).Nodup := by
  have hnd := ueLCG.nodup_active.sublist ((filter_sublist (p := fun c => Listed list c)).map _)
  rw [Nodup, pairwise_map] at hnd ⊢
  refine hnd.imp_of_mem fun {c d} hc hd hne heq => hne ?_
  have hc1 := (of_decide_eq_true (mem_filter.1 hc).2 : Listed list c).2
  have hd1 := (of_decide_eq_true (mem_filter.1 hd).2 : Listed list d).2
  rw [heq, hc1, hd1]

/-- The entries with their shares. -/
def entries (ueLCG : UeLcg) (slotBytes : Nat → Nat) (tbs bytes : Nat) : List (Nat × Nat) :=
  ((ueLCG.active.filter fun c => Listed (grants slotBytes tbs (gbrActiveLCs ueLCG)) c).map
    fun c => c.2.id).foldl (fun list lcId =>
      addBytes lcId bytes list) (grants slotBytes tbs (gbrActiveLCs ueLCG))

theorem three_le_entries_iff (hbytes : bytes ≤ left) (hlt : tbs < 2 ^ 32)
    (hleft : left = tbs - ((gbrActiveLCs ueLCG).map fun c => demand slotBytes c.2).sum) :
    (∀ p ∈ entries ueLCG slotBytes tbs bytes, 3 ≤ p.2) ↔
      ∀ i c, (gbrActiveLCs ueLCG)[i]? = some c →
        3 ≤ granted slotBytes tbs (gbrActiveLCs ueLCG) i c + if First ueLCG (gbrActiveLCs ueLCG) i
          c then bytes else 0 := by
  have hentry : ∀ i c, (gbrActiveLCs ueLCG)[i]? = some c →
      (entries ueLCG slotBytes tbs bytes)[i]? = some (c.2.id,
        granted slotBytes tbs (gbrActiveLCs ueLCG) i c + if First ueLCG (gbrActiveLCs ueLCG) i
        c then bytes else 0) := by
    intro i c hc
    have hgrant : (grants slotBytes tbs (gbrActiveLCs ueLCG))[i]? =
      some (c.2.id, granted slotBytes tbs (gbrActiveLCs ueLCG) i c) :=
      getElem?_grants hc
    have hle : granted slotBytes tbs (gbrActiveLCs ueLCG) i c + left ≤ tbs := by
      have hmem := le_sum_of_mem (mem_map_of_mem (f := Prod.snd) (mem_of_getElem? hgrant))
      have hsum : ((grants slotBytes tbs (gbrActiveLCs ueLCG)).map Prod.snd).sum + left = tbs :=
        hleft ▸ sum_grants
      dsimp only at hmem
      omega
    have hfirst :
        (c.2.id ∈ (ueLCG.active.filter fun c =>
        Listed (grants slotBytes tbs (gbrActiveLCs ueLCG)) c).map (fun c => c.2.id) ∧
          c.2.id ∉ ((grants slotBytes tbs (gbrActiveLCs ueLCG)).take i).map Prod.fst) ↔
          First ueLCG (gbrActiveLCs ueLCG) i c := by
      rw [map_take, map_fst_grants, First, map_take]
      refine and_congr_left fun _ => ?_
      simp only [List.mem_map, mem_filter, decide_eq_true_eq, Listed, map_fst_grants]
      constructor
      · rintro ⟨d, ⟨hd, -, hone⟩, heq⟩
        exact ⟨d, hd, hone, heq⟩
      · rintro ⟨d, hd, hone, heq⟩
        exact ⟨d, ⟨hd, ⟨c, mem_of_getElem? hc, heq.symm⟩, hone⟩, heq⟩
    rw [entries, getElem?_foldl_addBytes nodup_listed hgrant]
    simp only [hfirst]
    split
    · rw [Nat.mod_eq_of_lt (by omega)]
    · rfl
  have hlen : (entries ueLCG slotBytes tbs bytes).length = (gbrActiveLCs ueLCG).length := by
    have hmap : (entries ueLCG slotBytes tbs bytes).map Prod.fst = _ := map_fst_foldl_addBytes
    have hlength := congrArg length hmap
    rwa [length_map, length_map, length_grants] at hlength
  constructor
  · intro h i c hc
    exact h _ (mem_of_getElem? (hentry i c hc))
  · intro h p hp
    obtain ⟨i, hi, rfl⟩ := getElem_of_mem hp
    have hi' : i < (gbrActiveLCs ueLCG).length := hlen ▸ hi
    have hget := hentry i _ (getElem?_eq_getElem hi')
    rw [getElem?_eq_getElem hi] at hget
    rw [some.inj hget]
    exact h i _ (getElem?_eq_getElem hi')

/-- For every UE, every product of the slot with a rate, and every block that is not empty. -/
theorem dlPdusOk_iff (ueLCG : UeLcg) (slotBytes : Nat → Nat) {tbs : Nat} (hpos : 0 < tbs)
    (hlt : tbs < 2 ^ 32) : DlPdusOk (assignBytesToDlLC ueLCG slotBytes tbs) ↔
    QosEnough ueLCG slotBytes tbs := by
  rw [OranNs3.dlPdusOk_iff, three_le_iff_shared, QosEnough, shared]
  by_cases h : Equal ueLCG tbs
  · rw [if_pos h, assignedBytesToGbr_equal h hpos]
    have hgbr : 0 < (gbrActiveLCs ueLCG).length := Nat.lt_of_succ_lt h.1
    simp only [lt_irrefl, if_false, List.forall_mem_map, not_mem_nil, false_implies, implies_true,
      and_true]
    rw [Nat.le_div_iff_mul_le hgbr]
    constructor
    · intro hall
      obtain ⟨c, hc⟩ := exists_mem_of_length_pos hgbr
      exact hall c hc
    · exact fun hle _ _ => hle
  · rw [if_neg h, assignedBytesToGbr_serve h]
    dsimp only
    generalize hleft : tbs - ((gbrActiveLCs ueLCG).map fun c => demand slotBytes c.2).sum = left
    rcases Nat.eq_zero_or_pos left with rfl | hleftpos
    · -- nothing is left for the others
      simp only [lt_irrefl, if_false, false_and, Nat.add_zero, false_implies, not_mem_nil,
      implies_true, and_true]
      constructor
      · intro hall i c hc
        exact hall _ (mem_of_getElem? (getElem?_grants hc))
      · intro hall p hp
        obtain ⟨i, hi, rfl⟩ := getElem_of_mem hp
        have hlen : (grants slotBytes tbs (gbrActiveLCs ueLCG)).length =
          (gbrActiveLCs ueLCG).length := length_grants
        have hi' : i < (gbrActiveLCs ueLCG).length := hlen ▸ hi
        have hget : (grants slotBytes tbs (gbrActiveLCs ueLCG))[i]? = _ :=
          getElem?_grants (getElem?_eq_getElem hi')
        rw [getElem?_eq_getElem hi] at hget
        rw [some.inj hget]
        exact hall i _ (getElem?_eq_getElem hi')
    · rw [if_pos hleftpos, foldl_share]
      have hbytes : left / ueLCG.active.length ≤ left := Nat.div_le_self _ _
      have hentries := three_le_entries_iff hbytes hlt hleft.symm
      rw [entries] at hentries
      simp only [hleftpos, true_and, true_implies]
      rw [hentries]
      refine and_congr_right fun _ => ?_
      rw [nil_append, List.forall_mem_map]
      simp only [mem_filter, decide_eq_true_eq, Listed, map_fst_grants, and_imp]
      refine forall₂_congr fun c _ => ?_
      constructor
      · intro hrest
        by_cases hc : c.2.id ∈ (gbrActiveLCs ueLCG).map (fun c => c.2.id) ∧ c.1 = 1
        · exact .inl hc.symm
        · exact .inr (hrest hc)
      · rintro (⟨hone, hid⟩ | hthree) hc
        · exact absurd ⟨hid, hone⟩ hc
        · exact hthree

end LcQos

/-- For every UE and every block that `DoScheduleDlData` takes, 10 bytes at least. -/
theorem dlSubheaders_iff (ueLCG : UeLcg) (slotPeriod : Nat) (slotBytes : Nat → Nat) {tbs : Nat}
    (hten : 10 ≤ tbs) (hlt : tbs < 2 ^ 32) :
    ((∀ as, Returns (LcRr.assignBytesToDlLC ueLCG tbs slotPeriod) as → DlPdusOk as) ↔
      LcRr.RrEnough ueLCG tbs) ∧ (DlPdusOk (LcQos.assignBytesToDlLC ueLCG slotBytes tbs) ↔
        LcQos.QosEnough ueLCG slotBytes tbs) :=
  ⟨LcRr.dlPdusOk_iff ueLCG slotPeriod hlt,
    LcQos.dlPdusOk_iff ueLCG slotBytes (Nat.lt_of_lt_of_le (by decide) hten) hlt⟩

/-- Four channels that need 100 bytes each. -/
def fourChannels : UeLcg where
  groups := [⟨2, [⟨3, 100, 0, 0, .qbtNonGbr, 0⟩, ⟨4, 100, 0, 0, .qbtNonGbr, 0⟩,
    ⟨5, 100, 0, 0, .qbtNonGbr, 0⟩, ⟨6, 100, 0, 0, .qbtNonGbr, 0⟩]⟩]
  nodup := by decide
  channels := by decide

/-- 40 bytes are enough for them. -/
theorem dlSubheaders_iff_four :
    ((∀ as, Returns (LcRr.assignBytesToDlLC fourChannels 40 1) as → DlPdusOk as) ↔
      LcRr.RrEnough fourChannels 40) ∧
    (DlPdusOk (LcQos.assignBytesToDlLC fourChannels (fun n => n / 10) 40) ↔
      LcQos.QosEnough fourChannels (fun n => n / 10) 40) :=
  dlSubheaders_iff fourChannels 1 _ (by decide) (by decide)

/-- Of 10 bytes, two of them get two, with both algorithms. -/
theorem not_dlSubheaders : (¬ ∀ (ueLCG : UeLcg) (slotPeriod tbs : Nat), 10 ≤ tbs → tbs < 2 ^ 32 →
      ∀ as, Returns (LcRr.assignBytesToDlLC ueLCG tbs slotPeriod) as → DlPdusOk as) ∧
    ¬ ∀ (ueLCG : UeLcg) (slotBytes : Nat → Nat) (tbs : Nat), 10 ≤ tbs → tbs < 2 ^ 32 →
      DlPdusOk (LcQos.assignBytesToDlLC ueLCG slotBytes tbs) := by
  constructor
  · intro h
    have henough : LcRr.RrEnough fourChannels 10 :=
      (LcRr.dlPdusOk_iff fourChannels 1 (by decide)).1 (h fourChannels 1 10 (by decide) (by decide))
    exact absurd henough.1 (by decide)
  · intro h
    exact absurd (h fourChannels (fun n => n / 10) 10 (by decide) (by decide)).1 (by decide)

example : LcRr.assignBytesToDlLC fourChannels 10 1 3 = some
    [⟨2, 3, 3⟩, ⟨2, 4, 3⟩, ⟨2, 5, 2⟩, ⟨2, 6, 2⟩] := by decide

end OranNs3
