import Mathlib.Data.Prod.Lex
import OranNs3.Lib.Fuel
import OranNs3.Lib.Related
import OranNs3.Sched.LogicalChannels

/-!
# Bytes for logical channels in rounds

`NrMacSchedulerLcRR` shares the bytes of a transport block among the channels that need some, in
rounds: each one gets the same block, which is not more than any of them needs, until the bytes are
used up. Once no channel needs more, each gets a byte, and the counters of what they need wrap; from
then on these are larger than what is left, and the rounds go on as with counters that stay at `0`
(`spread_returns`). Before, all that still need bytes have as many (`Level`), so that none has less
than its share when the bytes are used up (`rounds_returns`).
-/

namespace OranNs3

open Fuel List

/-- How counters add and subtract. -/
structure Arith where
  add : Nat → Nat → Nat
  sub : Nat → Nat → Nat

/-- In 32 bits. -/
def Arith.u32 : Arith := ⟨fun a b => (a + b) % 2 ^ 32, subU32⟩

/-- Without a bound; a difference is at least `0`. -/
def Arith.nat : Arith := ⟨fun a b => a + b, fun a b => a - b⟩

/-- An entry of `activeLc`. -/
structure LcShare where
  lcg : Nat
  lcId : Nat
  unallocatedBytes : Nat
  allocatedBytes : Nat
  deriving DecidableEq

/-- The key of an entry. -/
def LcShare.key (c : LcShare) : ℕ ×ₗ ℕ := toLex (c.lcg, c.lcId)

namespace LcRr

variable (ar : Arith) (ueLCG : UeLcg)

/-- `activeLc`, in the order of its keys. -/
def activeLc : List LcShare :=
  (ueLCG.active.map fun c => ⟨c.1, c.2.id, c.2.totalSize, 0⟩).foldl
    (fun m c => Keyed.insert LcShare.key c m) []

/-- The channels that still need bytes. -/
def numActive (l : List LcShare) : Nat := l.countP fun c => 0 < c.unallocatedBytes

/-- The block, capped to what each of the channels needs. -/
def capped (l : List LcShare) (block : Nat) : Nat :=
  l.foldl (fun b c => if 0 < c.unallocatedBytes then min b c.unallocatedBytes else b) block

/-- The bytes for each channel in a round. -/
def assignBlockSize (tbs : Nat) (l : List LcShare) : Nat :=
  max (capped l (if 0 < numActive l then tbs / numActive l else 1)) 1

/-- The loop over the channels. -/
def distribute (numActive block : Nat) : Nat → List LcShare → Nat × List LcShare
  | tbs, [] => (tbs, [])
  | tbs, c :: l =>
    -- a channel that needs no more is passed over while others do
    if c.unallocatedBytes = 0 ∧ 0 < numActive then
      let r := distribute numActive block tbs l
      (r.1, c :: r.2)
    else
      let tbs := ar.sub tbs block
      let c := { c with
        unallocatedBytes := ar.sub c.unallocatedBytes block
        allocatedBytes := ar.add c.allocatedBytes block }
      if tbs = 0 then (tbs, c :: l)
      else
        let r := distribute numActive block tbs l
        (r.1, c :: r.2)

/-- One round. -/
def round (tbs : Nat) (l : List LcShare) : Nat × List LcShare :=
  distribute ar (numActive l) (assignBlockSize tbs l) tbs l

/-- The rounds, at most as many as the fuel says. -/
def rounds : Nat → Nat → List LcShare → Option (List LcShare)
  | 0, tbs, l => if tbs = 0 then some l else none
  | fuel + 1, tbs, l => if tbs = 0 then some l else rounds fuel (round ar tbs l).1
      (round ar tbs l).2

/-- What an entry says. -/
def assignation (c : LcShare) : Assignation := ⟨c.lcg, c.lcId, c.allocatedBytes⟩

def assignBytesToLC (tbs fuel : Nat) : Option (List Assignation) :=
  if activeLc ueLCG = [] then some [] else (rounds ar fuel tbs (activeLc ueLCG)).map fun l =>
    l.map assignation

def assignBytesToDlLC (tbs : Nat) (_slotPeriod : Nat) (fuel : Nat) : Option (List Assignation) :=
  assignBytesToLC .u32 ueLCG tbs fuel

def assignBytesToUlLC (tbs fuel : Nat) : Option (List Assignation) :=
  assignBytesToLC .u32 ueLCG tbs fuel

/-! ## The loop over the channels -/

variable {ar}

/-- The counters are exact up to `bound`, and one that wraps is out of the way. -/
structure Counts (ar : Arith) (bound : Nat) : Prop where
  add : ∀ {a b}, a + b ≤ bound → ar.add a b = a + b
  sub : ∀ {a b}, b ≤ a → ar.sub a b = a - b
  wrap : ar.sub 0 1 = 0 ∨ bound ≤ ar.sub 0 1

theorem counts_nat (bound : Nat) : Counts .nat bound := ⟨fun _ => rfl, fun _ => rfl, .inl rfl⟩

theorem counts_u32 {bound : Nat} (h : bound < 2 ^ 32) : Counts .u32 bound := by
  refine ⟨fun hab => Nat.mod_eq_of_lt (Nat.lt_of_le_of_lt hab h), fun hab => subU32_of_le hab,
    .inr ?_⟩
  show bound ≤ subU32 0 1
  rw [show subU32 0 1 = 2 ^ 32 - 1 from rfl]
  omega

variable {bound n b tbs : Nat} {l : List LcShare} {c : LcShare}

/-- A round gives bytes to the channel. -/
abbrev Eligible (n : Nat) (c : LcShare) : Prop := ¬ (c.unallocatedBytes = 0 ∧ 0 < n)

theorem countP_eligible (h : Eligible n c) :
    (c :: l).countP (Eligible n) = l.countP (Eligible n) + 1 :=
  countP_cons_of_pos (decide_eq_true h)

theorem countP_not_eligible (h : ¬ Eligible n c) :
    (c :: l).countP (Eligible n) = l.countP (Eligible n) :=
  countP_cons_of_neg (by simpa only [decide_eq_true_eq] using h)

/-- The entry of a channel after a round. -/
def give (ar : Arith) (n b : Nat) (c : LcShare) : LcShare :=
  if Eligible n c then ⟨c.lcg, c.lcId, ar.sub c.unallocatedBytes b, c.allocatedBytes + b⟩ else c

theorem distribute_full (h : Counts ar bound) (hb : 0 < b) (hle : b * l.countP (Eligible n) ≤ tbs)
    (htbs : 0 < tbs) (hbound : ∀ c ∈ l, c.allocatedBytes + tbs ≤ bound) :
    distribute ar n b tbs l = (tbs - b * l.countP (Eligible n), l.map (give ar n b)) := by
  induction l generalizing tbs with
  | nil => simp [distribute]
  | cons c l ih =>
    obtain ⟨hc, hl⟩ := forall_mem_cons.1 hbound
    by_cases hskip : c.unallocatedBytes = 0 ∧ 0 < n
    · have hcount : (c :: l).countP (Eligible n) = l.countP (Eligible n) := countP_not_eligible
        (not_not.2 hskip)
      rw [hcount] at hle ⊢
      rw [distribute, if_pos hskip, ih hle htbs hl, map_cons, give, if_neg (not_not.2 hskip)]
    · have hcount : (c :: l).countP (Eligible n) = l.countP (Eligible n) + 1 := countP_eligible
        hskip
      rw [hcount, mul_add, mul_one] at hle
      have hgive : give ar n b c = ⟨c.lcg, c.lcId, ar.sub c.unallocatedBytes b,
        ar.add c.allocatedBytes b⟩ := by
        rw [give, if_pos hskip, h.add (by omega)]
      rw [distribute, if_neg hskip, h.sub (by omega : b ≤ tbs), map_cons, hgive, hcount, mul_add,
        mul_one]
      by_cases hzero : tbs - b = 0
      · -- no other channel is eligible
        have hnone : l.countP (Eligible n) = 0 := by
          rcases Nat.eq_zero_or_pos (l.countP (Eligible n)) with h0 | hpos
          · exact h0
          · have := Nat.le_mul_of_pos_right b hpos
            omega
        have hsame : l.map (give ar n b) = l := by
          refine (map_congr_left fun d hd => ?_).trans (map_id l)
          rw [give, if_neg (by simpa using countP_eq_zero.1 hnone d hd)]
          rfl
        rw [if_pos hzero, hsame, hnone]
        simp only [Nat.mul_zero, zero_add]
      · rw [if_neg hzero, ih (by omega) (by omega) fun d hd => by have := hl d hd; omega]
        simp only [Nat.sub_sub, Nat.add_comm b]

/-- What the channels have when the first `k` eligible ones get a byte. -/
def giveFirst (n : Nat) : Nat → List LcShare → List Assignation
  | _, [] => []
  | 0, c :: l => assignation c :: giveFirst n 0 l
  | k + 1, c :: l =>
    if Eligible n c then ⟨c.lcg, c.lcId, c.allocatedBytes + 1⟩ :: giveFirst n k l
      else assignation c :: giveFirst n (k + 1) l

theorem giveFirst_zero : giveFirst n 0 l = l.map assignation := by
  induction l with
  | nil => rfl
  | cons c l ih => rw [giveFirst, ih, map_cons]

theorem distribute_part (h : Counts ar bound) (hle : tbs ≤ l.countP (Eligible n)) (htbs : 0 < tbs)
    (hbound : ∀ c ∈ l, c.allocatedBytes + tbs ≤ bound) :
    (distribute ar n 1 tbs l).1 = 0 ∧ (distribute ar n 1 tbs l).2.map assignation =
    giveFirst n tbs l := by
  induction l generalizing tbs with
  | nil => exact absurd hle (Nat.not_le.2 htbs)
  | cons c l ih =>
    obtain ⟨hc, hl⟩ := forall_mem_cons.1 hbound
    obtain ⟨k, rfl⟩ := Nat.exists_eq_add_of_le' htbs
    by_cases hskip : c.unallocatedBytes = 0 ∧ 0 < n
    · rw [countP_not_eligible (not_not.2 hskip)] at hle
      obtain ⟨hzero, hmap⟩ := ih hle htbs hl
      rw [distribute, if_pos hskip, giveFirst, if_neg (not_not.2 hskip)]
      exact ⟨hzero, congrArg (assignation c :: ·) hmap⟩
    · rw [countP_eligible hskip] at hle
      have hone : assignation { c with
          unallocatedBytes := ar.sub c.unallocatedBytes 1
          allocatedBytes := ar.add c.allocatedBytes 1 } = ⟨c.lcg, c.lcId,
            c.allocatedBytes + 1⟩ := by
        rw [assignation, h.add (by omega)]
      rw [distribute, if_neg hskip, h.sub (by omega : 1 ≤ k + 1), giveFirst, if_pos hskip,
        Nat.add_sub_cancel]
      by_cases hzero : k = 0
      · rw [if_pos hzero, hzero, giveFirst_zero]
        exact ⟨rfl, congrArg (· :: l.map assignation) hone⟩
      · rw [if_neg hzero]
        obtain ⟨hzero', hmap⟩ :=
          ih (by omega) (Nat.pos_of_ne_zero hzero) fun d hd => by have := hl d hd; omega
        refine ⟨hzero', ?_⟩
        rw [map_cons, hmap, hone]

theorem forall₂_giveFirst {k : Nat} :
    Forall₂ (fun c a => a.lcg = c.lcg ∧ a.lcId = c.lcId ∧ c.allocatedBytes ≤ a.bytes) l
    (giveFirst n k l) := by
  induction l generalizing k with
  | nil => exact .nil
  | cons c l ih =>
    cases k with
    | zero => exact .cons ⟨rfl, rfl, le_refl _⟩ ih
    | succ k =>
      rw [giveFirst]
      split
      · exact .cons ⟨rfl, rfl, Nat.le_succ _⟩ ih
      · exact .cons ⟨rfl, rfl, le_refl _⟩ ih

theorem sum_giveFirst {k : Nat} (hle : k ≤ l.countP (Eligible n)) :
    ((giveFirst n k l).map Assignation.bytes).sum = (l.map LcShare.allocatedBytes).sum + k := by
  induction l generalizing k with
  | nil =>
    obtain rfl : k = 0 := Nat.le_zero.1 hle
    rfl
  | cons c l ih =>
    cases k with
    | zero =>
      have hl := ih (Nat.zero_le _)
      simp only [giveFirst, map_cons, sum_cons, hl, assignation]
      omega
    | succ k =>
      rw [giveFirst]
      split
      · next helig =>
        rw [countP_eligible helig] at hle
        have hl := ih (Nat.le_of_succ_le_succ hle)
        simp only [map_cons, sum_cons, hl]
        omega
      · next helig =>
        rw [countP_not_eligible helig] at hle
        have hl := ih hle
        simp only [map_cons, sum_cons, hl, assignation]
        omega

/-! ## A round -/

theorem capped_le (l : List LcShare) (b : Nat) :
    capped l b ≤ b ∧ ∀ c ∈ l, 0 < c.unallocatedBytes → capped l b ≤ c.unallocatedBytes := by
  induction l generalizing b with
  | nil => exact ⟨le_refl b, forall_mem_nil _⟩
  | cons c l ih =>
    obtain ⟨hle, hl⟩ := ih (if 0 < c.unallocatedBytes then min b c.unallocatedBytes else b)
    refine ⟨le_trans hle ?_, forall_mem_cons.2 ⟨fun hpos => le_trans hle ?_, hl⟩⟩
    · split
      · exact min_le_left _ _
      · exact le_refl b
    · rw [if_pos hpos]
      exact Nat.min_le_right _ _

theorem assignBlockSize_pos : 0 < assignBlockSize tbs l :=
  Nat.lt_of_lt_of_le Nat.one_pos (Nat.le_max_right _ _)

theorem assignBlockSize_le (hc : c ∈ l) (hpos : 0 < c.unallocatedBytes) :
    assignBlockSize tbs l ≤ c.unallocatedBytes :=
  Nat.max_le.2 ⟨(capped_le l _).2 c hc hpos, hpos⟩

theorem assignBlockSize_share : assignBlockSize tbs l = 1 ∨ 0 < numActive l ∧
    assignBlockSize tbs l ≤ tbs / numActive l := by
  unfold assignBlockSize
  split
  · next hpos =>
    rcases Nat.le_total (capped l (tbs / numActive l)) 1 with hone | hone
    · exact .inl (Nat.max_eq_right hone)
    · right
      rw [Nat.max_eq_left hone]
      exact ⟨hpos, (capped_le l _).1⟩
  · exact .inl (Nat.max_eq_right (capped_le l 1).1)

theorem countP_eligible_numActive :
    l.countP (Eligible (numActive l)) = if 0 < numActive l then numActive l else l.length := by
  split
  · next hpos =>
    refine countP_congr fun c _ => ?_
    simp only [decide_eq_true_eq]
    omega
  · next hzero =>
    refine countP_eq_length.2 fun c _ => ?_
    simp only [decide_eq_true_eq]
    omega

theorem round_cases (h : Counts ar bound) (htbs : 0 < tbs)
    (hbound : ∀ c ∈ l, c.allocatedBytes + tbs ≤ bound) :
    (assignBlockSize tbs l * l.countP (Eligible (numActive l)) ≤ tbs ∧
      round ar tbs l = (tbs - assignBlockSize tbs l * l.countP (Eligible (numActive l)),
        l.map (give ar (numActive l) (assignBlockSize tbs l)))) ∨
    (tbs < l.countP (Eligible (numActive l)) ∧ (round ar tbs l).1 = 0 ∧
      (round ar tbs l).2.map assignation = giveFirst (numActive l) tbs l) := by
  by_cases hle : assignBlockSize tbs l * l.countP (Eligible (numActive l)) ≤ tbs
  · exact .inl ⟨hle, distribute_full h assignBlockSize_pos hle htbs hbound⟩
  · right
    have hone : assignBlockSize tbs l = 1 := by
      rcases (assignBlockSize_share : assignBlockSize tbs l = 1 ∨ _) with hone | ⟨hpos, hshare⟩
      · exact hone
      · rw [countP_eligible_numActive, if_pos hpos] at hle
        exact absurd ((Nat.le_div_iff_mul_le hpos).1 hshare) hle
    rw [hone, one_mul, Nat.not_le] at hle
    rw [round, hone]
    exact ⟨hle, distribute_part h hle.le htbs hbound⟩

/-! ## The rounds -/

/-- The assignations that the rounds end with. -/
def outcome (ar : Arith) (tbs : Nat) (l : List LcShare) (fuel : Nat) : Option (List Assignation) :=
  (rounds ar fuel tbs l).map fun l => l.map assignation

theorem outcome_zero : Returns (outcome ar 0 l) (l.map assignation) := by
  refine (Returns.const _).congr fun fuel => ?_
  cases fuel <;> simp [outcome, rounds]

theorem outcome_round {r : List Assignation} (htbs : 0 < tbs)
    (h : Returns (outcome ar (round ar tbs l).1 (round ar tbs l).2) r) :
    Returns (outcome ar tbs l) r := by
  refine Returns.succ (h.congr fun fuel => ?_)
  rw [outcome, rounds, if_neg htbs.ne']
  rfl

theorem outcome_last (htbs : 0 < tbs) (hzero : (round ar tbs l).1 = 0) :
    Returns (outcome ar tbs l) ((round ar tbs l).2.map assignation) := by
  refine outcome_round htbs ?_
  rw [hzero]
  exact outcome_zero

theorem give_allocated : (give ar n b c).allocatedBytes = c.allocatedBytes + if Eligible n c then b
    else 0 := by
  rw [give]
  split <;> rfl

theorem sum_give : ((l.map (give ar n b)).map LcShare.allocatedBytes).sum =
    (l.map LcShare.allocatedBytes).sum + b * l.countP (Eligible n) := by
  induction l with
  | nil => rfl
  | cons c l ih =>
    simp only [map_cons, sum_cons, ih, give_allocated]
    by_cases helig : Eligible n c
    · rw [if_pos helig, countP_eligible helig, mul_add, mul_one]
      omega
    · rw [if_neg helig, countP_not_eligible helig]
      omega

/-- What the channels have with `q` bytes more, and one more for the first `r`. -/
def deal (q : Nat) : Nat → List LcShare → List Assignation
  | _, [] => []
  | r, c :: l => ⟨c.lcg, c.lcId, c.allocatedBytes + q + if 0 < r then 1 else 0⟩ :: deal q (r - 1) l

theorem giveFirst_eq_deal {r : Nat} (hall : ∀ c ∈ l, Eligible n c) :
    giveFirst n r l = deal 0 r l := by
  induction l generalizing r with
  | nil => cases r <;> rfl
  | cons c l ih =>
    obtain ⟨hc, hl⟩ := forall_mem_cons.1 hall
    cases r with
    | zero => rw [giveFirst, deal, ih hl, assignation, if_neg (Nat.lt_irrefl 0)]; rfl
    | succ r => rw [giveFirst, deal, if_pos hc, ih hl, if_pos (Nat.succ_pos r)]; rfl

variable {q r : Nat}

theorem deal_map_give (hall : ∀ c ∈ l, Eligible n c) :
    deal q r (l.map (give ar n b)) = deal (b + q) r l := by
  induction l generalizing r with
  | nil => rfl
  | cons c l ih =>
    obtain ⟨hc, hl⟩ := forall_mem_cons.1 hall
    rw [map_cons, deal, deal, ih hl, give, if_pos hc, Nat.add_assoc c.allocatedBytes b q]

/-- Channels that need the same: no more bytes, or more than are left. They end with equal shares,
and the first ones with one byte more. -/
theorem spread_returns {w : Nat} (h : Counts ar bound) (hl : l ≠ [])
    (hw : ∀ c ∈ l, c.unallocatedBytes = w) 
    (hlarge : w = 0 ∨ tbs ≤ w) (hbound : ∀ c ∈ l, c.allocatedBytes + tbs ≤ bound) :
    Returns (outcome ar tbs l) (deal (tbs / l.length) (tbs % l.length) l) := by
  induction tbs using Nat.strong_induction_on generalizing l w with
  | _ tbs ih =>
    have hlen : 0 < l.length := length_pos_iff.2 hl
    have hall : ∀ m, (0 < w ∨ m = 0) → ∀ c ∈ l, Eligible m c := by
      intro m hm c hc
      have := hw c hc
      simp only [Eligible]
      omega
    rcases Nat.eq_zero_or_pos tbs with rfl | htbs
    · rw [Nat.zero_div, Nat.zero_mod, ← giveFirst_eq_deal (hall 0 (.inr rfl)), giveFirst_zero]
      exact outcome_zero
    · have hactive : 0 < w ∨ w = 0 ∧ numActive l = 0 := by
        rcases hlarge with rfl | hle
        · refine .inr ⟨rfl, countP_eq_zero.2 fun c hc => ?_⟩
          rw [hw c hc]
          simp
        · exact .inl (Nat.lt_of_lt_of_le htbs hle)
      have helig := hall (numActive l) (hactive.imp_right And.right)
      have hcount : l.countP (Eligible (numActive l)) = l.length :=
        countP_eq_length.2 fun c hc => decide_eq_true (helig c hc)
      obtain ⟨d, hd⟩ := exists_mem_of_ne_nil l hl
      rcases round_cases h htbs hbound with ⟨hle, hround⟩ | ⟨hlt, hzero, hmap⟩
      · rw [hcount] at hle hround
        have hpos : 0 < assignBlockSize tbs l := assignBlockSize_pos
        have hmul : assignBlockSize tbs l ≤ assignBlockSize tbs l * l.length :=
          Nat.le_mul_of_pos_right _ hlen
        -- the counters are the same again, and as large
        have hlarge' : ar.sub w (assignBlockSize tbs l) = 0 ∨
            tbs - assignBlockSize tbs l * l.length ≤ ar.sub w (assignBlockSize tbs l) := by
          rcases hactive with hw0 | ⟨rfl, hnone⟩
          · have hblock : assignBlockSize tbs l ≤ d.unallocatedBytes := assignBlockSize_le hd
              (by rw [hw d hd]; exact hw0)
            rw [hw d hd] at hblock
            rw [h.sub hblock]
            omega
          · have hone : assignBlockSize tbs l = 1 := by
              rcases (assignBlockSize_share : assignBlockSize tbs l = 1 ∨ _) with hone | ⟨hpos, -⟩
              · exact hone
              · omega
            rw [hone]
            have := hbound d hd
            exact h.wrap.imp_right fun hwrap => by omega
        have hrest := ih (tbs - assignBlockSize tbs l * l.length) (by omega)
          (l := l.map (give ar (numActive l) (assignBlockSize tbs l)))
            (w := ar.sub w (assignBlockSize tbs l))
          (by simpa using hl) ?_ hlarge' ?_
        · refine outcome_round htbs ?_
          rw [hround]
          have hdiv := Nat.add_mul_div_right (tbs - assignBlockSize tbs l * l.length)
            (assignBlockSize tbs l) hlen
          have hmod := Nat.add_mul_mod_self_right (tbs - assignBlockSize tbs l * l.length)
            (assignBlockSize tbs l) l.length
          rw [Nat.sub_add_cancel hle] at hdiv hmod
          rw [length_map, deal_map_give helig] at hrest
          rwa [hdiv, hmod, Nat.add_comm _ (assignBlockSize tbs l)]
        · intro e he
          obtain ⟨c, hc, rfl⟩ := mem_map.1 he
          rw [give, if_pos (helig c hc), hw c hc]
        · intro e he
          obtain ⟨c, hc, rfl⟩ := mem_map.1 he
          have := hbound c hc
          rw [give, if_pos (helig c hc)]
          show c.allocatedBytes + assignBlockSize tbs l + (tbs - assignBlockSize tbs l * l.length) ≤
            bound
          omega
      · rw [hcount] at hlt
        rw [Nat.div_eq_of_lt hlt, Nat.mod_eq_of_lt hlt, ← giveFirst_eq_deal helig, ← hmap]
        exact outcome_last htbs hzero

/-- What a channel needed at first. -/
def need (c : LcShare) : Nat := c.unallocatedBytes + c.allocatedBytes

/-- The entry of a channel that has what it needs. -/
def satisfied (c : LcShare) : LcShare := ⟨c.lcg, c.lcId, 0, need c⟩

/-- How the rounds share `total` bytes. -/
structure SharedOut (total : Nat) (l : List LcShare) (out : List Assignation) : Prop where
  sum : (out.map Assignation.bytes).sum = total
  fair : List.Forall₂ (fun c a => a.lcg = c.lcg ∧ a.lcId = c.lcId ∧
    min (need c) (total / l.length) ≤ a.bytes) l out
  within : total ≤ (l.map need).sum → List.Forall₂ (fun c a => a.bytes ≤ need c) l out
  beyond : (l.map need).sum ≤ total →
    out = deal ((total - (l.map need).sum) / l.length) ((total - (l.map need).sum) % l.length)
    (l.map satisfied)

/-- The channels that still need bytes have as many, and no other one has more. -/
structure Level (level : Nat) (l : List LcShare) : Prop where
  eq : ∀ c ∈ l, 0 < c.unallocatedBytes → c.allocatedBytes = level
  le : ∀ c ∈ l, c.allocatedBytes ≤ level

variable {level total : Nat}

theorem Level.sum_le (h : Level level l) :
    (l.map LcShare.allocatedBytes).sum ≤ l.length * level := by
  induction l with
  | nil => simp
  | cons c l ih =>
    have hl := ih ⟨fun d hd => h.eq d (mem_cons_of_mem c hd), fun d hd =>
      h.le d (mem_cons_of_mem c hd)⟩
    have hc := h.le c mem_cons_self
    rw [map_cons, sum_cons, length_cons, Nat.add_mul, one_mul]
    omega

theorem Level.share_le (h : Level level l)
    (hlt : total < (l.map LcShare.allocatedBytes).sum + l.length) (hl : l ≠ []) :
    total / l.length ≤ level := by
  have hsum := h.sum_le
  have hlen : 0 < l.length := length_pos_iff.2 hl
  have hmul : total < (level + 1) * l.length := by
    rw [Nat.add_mul, one_mul, Nat.mul_comm]
    omega
  exact Nat.le_of_lt_succ ((Nat.div_lt_iff_lt_mul hlen).2 hmul)

theorem sum_allocated_le : (l.map LcShare.allocatedBytes).sum + numActive l ≤ (l.map need).sum := by
  induction l with
  | nil => simp [numActive]
  | cons c l ih =>
    simp only [numActive, countP_cons, map_cons, sum_cons, need, decide_eq_true_eq] at ih ⊢
    split <;> omega

theorem satisfied_of_le (h : (l.map need).sum ≤ (l.map LcShare.allocatedBytes).sum) :
    numActive l = 0 ∧ ∀ c ∈ l, c.unallocatedBytes = 0 := by
  have hzero : numActive l = 0 := by
    have := sum_allocated_le (l := l)
    omega
  refine ⟨hzero, fun c hc => ?_⟩
  simpa using countP_eq_zero.1 hzero c hc

theorem map_satisfied (h : ∀ c ∈ l, c.unallocatedBytes = 0) : l.map satisfied = l := by
  refine (map_congr_left fun c hc => ?_).trans (map_id l)
  obtain ⟨lcg, lcId, unallocated, allocated⟩ := c
  obtain rfl : unallocated = 0 := h _ hc
  simp [satisfied, need]

theorem sharedOut_exact (hlevel : Level level l) (hl : l ≠ [])
    (hsum : (l.map LcShare.allocatedBytes).sum = total) :
    SharedOut total l (l.map assignation) := by
  have hlen : 0 < l.length := length_pos_iff.2 hl
  refine ⟨?_, Related.map_self fun c hc => ⟨rfl, rfl, ?_⟩, fun _ => Related.map_self fun c _ => ?_,
    fun hle => ?_⟩
  · rw [map_map]
    exact hsum
  · rcases Nat.eq_zero_or_pos c.unallocatedBytes with hzero | hpos
    · refine le_trans (min_le_left _ _) ?_
      rw [need, hzero, zero_add]
      exact le_refl _
    · refine le_trans (Nat.min_le_right _ _) ?_
      show _ ≤ c.allocatedBytes
      rw [hlevel.eq c hc hpos]
      exact hlevel.share_le (by omega) hl
  · exact Nat.le_add_left _ _
  · obtain ⟨-, hall⟩ := satisfied_of_le (hsum ▸ hle)
    rw [Nat.sub_eq_zero_of_le (by have := sum_allocated_le (l := l); omega), Nat.zero_div,
    Nat.zero_mod, map_satisfied hall,
      ← giveFirst_eq_deal (n := 0) (fun c _ => by simp [Eligible]), giveFirst_zero]

theorem giveFirst_le_need {k : Nat} (hn : 0 < n) :
    Forall₂ (fun c a => a.bytes ≤ need c) l (giveFirst n k l) := by
  induction l generalizing k with
  | nil => exact .nil
  | cons c l ih =>
    cases k with
    | zero => exact .cons (Nat.le_add_left _ _) ih
    | succ k =>
      rw [giveFirst]
      split
      · next helig =>
        refine .cons ?_ ih
        show c.allocatedBytes + 1 ≤ c.unallocatedBytes + c.allocatedBytes
        simp only [Eligible] at helig
        omega
      · exact .cons (Nat.le_add_left _ _) ih

theorem sharedOut_part (hlevel : Level level l) (hl : l ≠ []) (hlt : tbs < numActive l)
    (hsum : (l.map LcShare.allocatedBytes).sum + tbs = total) :
    SharedOut total l (giveFirst (numActive l) tbs l) := by
  have hpos : 0 < numActive l := Nat.lt_of_le_of_lt (Nat.zero_le _) hlt
  have hcount := countP_eligible_numActive (l := l)
  rw [if_pos hpos] at hcount
  have hlen : numActive l ≤ l.length := countP_le_length
  refine ⟨?_, ?_, fun _ => giveFirst_le_need hpos, fun hle => ?_⟩
  · rw [sum_giveFirst (le_trans hlt.le hcount.ge), hsum]
  · have hmin : ∀ c ∈ l, min (need c) (total / l.length) ≤ c.allocatedBytes := by
      intro c hc
      rcases Nat.eq_zero_or_pos c.unallocatedBytes with hzero | hpos
      · refine le_trans (min_le_left _ _) ?_
        rw [need, hzero, zero_add]
      · refine le_trans (Nat.min_le_right _ _) ?_
        rw [hlevel.eq c hc hpos]
        exact hlevel.share_le (by omega) hl
    refine Related.imp forall₂_giveFirst fun c hc a ha => ?_
    exact ⟨ha.1, ha.2.1, le_trans (hmin c hc) ha.2.2⟩
  · have := sum_allocated_le (l := l)
    omega

theorem sum_deal (hr : r ≤ l.length) :
    ((deal q r l).map Assignation.bytes).sum = (l.map LcShare.allocatedBytes).sum + l.length * q +
    r := by
  induction l generalizing r with
  | nil =>
    obtain rfl : r = 0 := Nat.le_zero.1 hr
    simp [deal]
  | cons c l ih =>
    rw [length_cons] at hr
    have hl := ih (r := r - 1) (by omega)
    simp only [deal, map_cons, sum_cons, hl, length_cons, Nat.add_mul, one_mul]
    split <;> omega

theorem forall₂_deal :
    Forall₂ (fun c a => a.lcg = c.lcg ∧ a.lcId = c.lcId ∧ c.allocatedBytes ≤ a.bytes) l
      (deal q r l) := by
  induction l generalizing r with
  | nil => exact .nil
  | cons c l ih =>
    refine .cons ⟨rfl, rfl, ?_⟩ ih
    show c.allocatedBytes ≤ c.allocatedBytes + q + _
    omega

theorem sharedOut_spread (hl : l ≠ []) (hzero : numActive l = 0)
    (hsum : (l.map LcShare.allocatedBytes).sum + tbs = total) :
    SharedOut total l (deal (tbs / l.length) (tbs % l.length) l) := by
  have hlen : 0 < l.length := length_pos_iff.2 hl
  have hall : ∀ c ∈ l, c.unallocatedBytes = 0 := by
    intro c hc
    simpa using countP_eq_zero.1 hzero c hc
  have hneed : l.map need = l.map LcShare.allocatedBytes := by
    refine map_congr_left fun c hc => ?_
    rw [need, hall c hc, zero_add]
  refine ⟨?_, ?_, fun hle => ?_, fun _ => ?_⟩
  · rw [sum_deal (Nat.mod_lt _ hlen).le, Nat.add_assoc, Nat.div_add_mod, hsum]
  · refine Related.imp forall₂_deal fun c hc a ha => ?_
    refine ⟨ha.1, ha.2.1, le_trans (min_le_left _ _) ?_⟩
    rw [need, hall c hc, zero_add]
    exact ha.2.2
  · obtain rfl : tbs = 0 := by
      rw [hneed] at hle
      omega
    rw [Nat.zero_div, Nat.zero_mod, ← giveFirst_eq_deal (n := 0) (fun c _ => by simp [Eligible]),
      giveFirst_zero]
    exact Related.map_self fun c _ => Nat.le_add_left _ _
  · rw [hneed, map_satisfied hall, show total - (l.map LcShare.allocatedBytes).sum = tbs by omega]

/-- A whole round, in which each channel gets at most what it needs. -/
structure Round (n b : Nat) (l : List LcShare) : Prop where
  pos : 0 < n
  le : ∀ c ∈ l, 0 < c.unallocatedBytes → b ≤ c.unallocatedBytes

theorem Round.give_eq (h : Round n b l) (hcounts : Counts ar bound) (hc : c ∈ l) : give ar n b c =
    if 0 < c.unallocatedBytes then ⟨c.lcg, c.lcId, c.unallocatedBytes - b, c.allocatedBytes + b⟩
      else c := by
  have hpos := h.pos
  by_cases hactive : 0 < c.unallocatedBytes
  · rw [give, if_pos (by simp only [Eligible]; omega), if_pos hactive,
      hcounts.sub (h.le c hc hactive)]
  · rw [give, if_neg (by simp only [Eligible]; omega), if_neg hactive]

theorem Round.need_give (h : Round n b l) (hcounts : Counts ar bound) (hc : c ∈ l) :
    need (give ar n b c) = need c := by
  rw [h.give_eq hcounts hc]
  split
  · next hactive =>
    have := h.le c hc hactive
    simp only [need]
    omega
  · rfl

theorem Round.levelled (h : Round n b l) (hcounts : Counts ar bound) (hlevel : Level level l) :
    Level (level + b) (l.map (give ar n b)) := by
  refine ⟨fun e he => ?_, fun e he => ?_⟩
  all_goals
    obtain ⟨c, hc, rfl⟩ := mem_map.1 he
    rw [h.give_eq hcounts hc]
    have heq := hlevel.eq c hc
    have hle := hlevel.le c hc
    split
  · intro _
    show c.allocatedBytes + b = level + b
    omega
  · intro hactive
    contradiction
  · show c.allocatedBytes + b ≤ level + b
    omega
  · omega

theorem Round.sharedOut {out : List Assignation} (h : Round n b l) (hcounts : Counts ar bound)
    (hout : SharedOut total (l.map (give ar n b)) out) : SharedOut total l out := by
  have hneed : (l.map (give ar n b)).map need = l.map need := by
    rw [map_map]
    exact map_congr_left fun c hc => h.need_give hcounts hc
  have hkey : ∀ c, (give ar n b c).lcg = c.lcg ∧ (give ar n b c).lcId = c.lcId := by
    intro c
    rw [give]
    split <;> exact ⟨rfl, rfl⟩
  have hsatisfied : (l.map (give ar n b)).map satisfied = l.map satisfied := by
    rw [map_map]
    refine map_congr_left fun c hc => ?_
    rw [Function.comp_apply, satisfied, satisfied, h.need_give hcounts hc, (hkey c).1, (hkey c).2]
  refine ⟨hout.sum, ?_, fun hle => ?_, fun hle => ?_⟩
  · have hfair := forall₂_map_left_iff.1 hout.fair
    refine Related.imp hfair fun c hc a hca => ?_
    obtain ⟨hlcg, hlc, hmin⟩ := hca
    rw [h.need_give hcounts hc, length_map] at hmin
    exact ⟨hlcg.trans (hkey c).1, hlc.trans (hkey c).2, hmin⟩
  · have hwithin := forall₂_map_left_iff.1 (hout.within (hneed.symm ▸ hle))
    refine Related.imp hwithin fun c hc a hca => ?_
    rwa [h.need_give hcounts hc] at hca
  · have hbeyond := hout.beyond (hneed.symm ▸ hle)
    rwa [hneed, hsatisfied, length_map] at hbeyond

/-- The rounds end, with the same shares whatever happens to a counter that is at `0`. -/
theorem rounds_returns (hl : l ≠ []) (hlevel : Level level l)
    (hbound : ∀ c ∈ l, c.allocatedBytes + tbs ≤ bound)
    (hsum : (l.map LcShare.allocatedBytes).sum + tbs = total) :
    ∃ out, SharedOut total l out ∧ ∀ ar, Counts ar bound → Returns (outcome ar tbs l) out := by
  induction tbs using Nat.strong_induction_on generalizing l level with
  | _ tbs ih =>
    rcases Nat.eq_zero_or_pos tbs with rfl | htbs
    · exact ⟨_, sharedOut_exact hlevel hl hsum, fun ar _ => outcome_zero⟩
    · rcases Nat.eq_zero_or_pos (numActive l) with hzero | hpos
      · refine ⟨_, sharedOut_spread hl hzero hsum, fun ar har => ?_⟩
        refine spread_returns (w := 0) har hl (fun c hc => ?_) (.inl rfl) hbound
        simpa using countP_eq_zero.1 hzero c hc
      · have hcount := countP_eligible_numActive (l := l)
        rw [if_pos hpos] at hcount
        have hround : Round (numActive l) (assignBlockSize tbs l) l :=
          ⟨hpos, fun c hc => assignBlockSize_le hc⟩
        by_cases hle : assignBlockSize tbs l * numActive l ≤ tbs
        · -- a whole round: the channels are those of the counters without a bound
          have hnat := counts_nat bound
          have hblock : 0 < assignBlockSize tbs l := assignBlockSize_pos
          have hdec : 0 < assignBlockSize tbs l * numActive l := Nat.mul_pos hblock hpos
          have hmul : assignBlockSize tbs l ≤ assignBlockSize tbs l * numActive l :=
            Nat.le_mul_of_pos_right _ hpos
          have hnext : ∀ ar, Counts ar bound →
              round ar tbs l =
              (tbs - assignBlockSize tbs l * numActive l,
                l.map (give .nat (numActive l) (assignBlockSize tbs l))) := by
            intro ar har
            rcases round_cases har htbs hbound with ⟨-, hr⟩ | ⟨hlt, -⟩
            · rw [hr, hcount]
              congr 1
              exact map_congr_left fun c hc =>
                (hround.give_eq har hc).trans (hround.give_eq hnat hc).symm
            · rw [hcount] at hlt
              have := Nat.le_mul_of_pos_left (numActive l) hblock
              omega
          obtain ⟨out, hout, hreturns⟩ := ih (tbs - assignBlockSize tbs l * numActive l) (by omega)
            (l := l.map (give .nat (numActive l) (assignBlockSize tbs l))) (by simpa using hl)
            (hround.levelled hnat hlevel)
            (by
              intro e he
              obtain ⟨c, hc, rfl⟩ := mem_map.1 he
              have := hbound c hc
              rw [give_allocated]
              split <;> omega)
            (by
              rw [sum_give, hcount]
              omega)
          refine ⟨out, hround.sharedOut hnat hout, fun ar har => outcome_round htbs ?_⟩
          rw [hnext ar har]
          exact hreturns ar har
        · have hlt : ∀ ar, Counts ar bound → tbs < numActive l ∧ (round ar tbs l).1 = 0 ∧
              (round ar tbs l).2.map assignation = giveFirst (numActive l) tbs l := by
            intro ar har
            rcases round_cases har htbs hbound with ⟨hle', -⟩ | hlast
            · exact absurd (hcount ▸ hle') hle
            · rwa [hcount] at hlast
          refine ⟨_, sharedOut_part hlevel hl (hlt .nat (counts_nat bound)).1 hsum,
            fun ar har => ?_⟩
          rw [← (hlt ar har).2.2]
          exact outcome_last htbs (hlt ar har).2.1

/-! ## The assignations -/

theorem activeLc_perm :
    (activeLc ueLCG).Perm (ueLCG.active.map fun c => ⟨c.1, c.2.id, c.2.totalSize, 0⟩) := by
  refine Keyed.foldl_insert_perm (l := []) ?_
  rw [nil_append, map_map]
  rw [show LcShare.key ∘ (fun c : Nat × Lc => ⟨c.1, c.2.id, c.2.totalSize, 0⟩) =
    toLex ∘ fun c => (c.1, c.2.id) from rfl, ← map_map]
  exact ueLCG.nodup_active.map toLex.injective

theorem activeLc_returns {tbs bound : Nat} (hle : tbs ≤ bound)
    (hactive : ueLCG.active ≠ []) : ∃ out, SharedOut tbs (activeLc ueLCG) out ∧ ∀ ar,
    Counts ar bound → Fuel.Returns (assignBytesToLC ar ueLCG tbs) out := by
  have hperm := activeLc_perm ueLCG
  have hne : activeLc ueLCG ≠ [] := by
    intro hnil
    rw [hnil] at hperm
    exact hactive (map_eq_nil_iff.1 (nil_perm.1 hperm))
  have hzero : ∀ c ∈ activeLc ueLCG, c.allocatedBytes = 0 := by
    intro c hc
    obtain ⟨d, -, rfl⟩ := mem_map.1 (hperm.mem_iff.1 hc)
    rfl
  have hsum : ((activeLc ueLCG).map LcShare.allocatedBytes).sum = 0 :=
    List.sum_eq_zero_iff_forall_eq_nat.2 fun x hx => by
      obtain ⟨c, hc, rfl⟩ := mem_map.1 hx
      exact hzero c hc
  have hlevel : Level 0 (activeLc ueLCG) := ⟨fun c hc _ => hzero c hc, fun c hc => (hzero c hc).le⟩
  have hbound : ∀ c ∈ activeLc ueLCG, c.allocatedBytes + tbs ≤ bound := by
    intro c hc
    rw [hzero c hc]
    omega
  obtain ⟨out, hout, hreturns⟩ := rounds_returns hne hlevel hbound (by rw [hsum, zero_add])
  refine ⟨out, hout, fun ar har => (hreturns ar har).congr fun fuel => ?_⟩
  rw [assignBytesToLC, if_neg hne]
  rfl

/-- For every UE with channels that have bytes: the rounds end, with the shares of counters without
a bound; these are all of the bytes, one share for each channel, and none is less than what the
channel needs and its part of the bytes. -/
theorem assignBytesToLC_shares (ueLCG : UeLcg) (slotPeriod : Nat) {tbs : Nat} (hlt : tbs < 2 ^ 32)
    (hactive : ueLCG.active ≠ []) :
    ∃ ret, Fuel.Returns (assignBytesToDlLC ueLCG tbs slotPeriod) ret ∧
      Fuel.Returns (assignBytesToUlLC ueLCG tbs) ret ∧
      Fuel.Returns (assignBytesToLC .nat ueLCG tbs) ret ∧ (ret.map Assignation.bytes).sum = tbs ∧
      (ret.map fun a => (a.lcg, a.lcId)).Perm (ueLCG.active.map fun c => (c.1, c.2.id)) ∧
      ∀ c ∈ ueLCG.active, ∃ a ∈ ret, a.lcg = c.1 ∧ a.lcId = c.2.id ∧
        min c.2.totalSize (tbs / ueLCG.active.length) ≤ a.bytes := by
  obtain ⟨out, hout, hreturns⟩ := activeLc_returns ueLCG (le_refl tbs) hactive
  have hperm := activeLc_perm ueLCG
  have hlen : (activeLc ueLCG).length = ueLCG.active.length := hperm.length_eq.trans (length_map _)
  have hu32 := hreturns .u32 (counts_u32 hlt)
  refine ⟨out, hu32, hu32, hreturns .nat (counts_nat _), hout.sum, ?_, fun c hc => ?_⟩
  · have hkeys : out.map (fun a => (a.lcg, a.lcId)) = (activeLc ueLCG).map fun c =>
      (c.lcg, c.lcId) :=
      Related.map_eq (hout.fair.imp fun c a h => Prod.ext h.1 h.2.1)
    rw [hkeys]
    refine (hperm.map _).trans ?_
    rw [map_map]
    exact .rfl
  · have hmem : (⟨c.1, c.2.id, c.2.totalSize, 0⟩ : LcShare) ∈ activeLc ueLCG := hperm.mem_iff.2
      (mem_map_of_mem hc)
    obtain ⟨a, ha, hlcg, hlcId, hmin⟩ := Related.exists_mem hout.fair hmem
    rw [hlen] at hmin
    exact ⟨a, ha, hlcg, hlcId, hmin⟩

/-- A UE with a channel that needs 5 bytes and one that needs 1000. -/
def twoChannels : UeLcg where
  groups := [⟨1, [⟨3, 5, 0, 0, .qbtNonGbr, 0⟩]⟩, ⟨2, [⟨4, 1000, 0, 0, .qbtNonGbr, 0⟩]⟩]
  nodup := by decide
  channels := by decide

/-- They share 20 bytes: 5 and 15. -/
theorem assignBytesToLC_shares_two : ∃ ret, Fuel.Returns (assignBytesToDlLC twoChannels 20 1) ret ∧
    Fuel.Returns (assignBytesToUlLC twoChannels 20) ret ∧
      Fuel.Returns (assignBytesToLC .nat twoChannels 20) ret ∧
    (ret.map Assignation.bytes).sum = 20 ∧
    (ret.map fun a => (a.lcg, a.lcId)).Perm (twoChannels.active.map fun c => (c.1, c.2.id)) ∧
    ∀ c ∈ twoChannels.active, ∃ a ∈ ret, a.lcg = c.1 ∧ a.lcId = c.2.id ∧
      min c.2.totalSize (20 / twoChannels.active.length) ≤ a.bytes :=
  assignBytesToLC_shares twoChannels 1 (by decide) (by decide)

example : assignBytesToDlLC twoChannels 20 1 3 = some [⟨1, 3, 5⟩, ⟨2, 4, 15⟩] := by decide

end LcRr

end OranNs3
