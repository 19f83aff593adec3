import Mathlib.Algebra.BigOperators.Group.List.Basic
import Mathlib.Algebra.Ring.Nat
import Mathlib.Data.Fintype.Card
import OranNs3.Sched.HarqVector

/-!
# From shares to targets

`Run` of `OranLmNrRlQlearn` (`oran-lm-nr-rl-qlearn.cc`) and of `OranLmNrRlDqn`
(`oran-lm-nr-rl-dqn.cc`), which are the same here: the share of each UE is rounded to a number of
RBGs, at least one, and two loops take away and give single RBGs until the sum is `B_FIXED`. The
first one ends early where no target can be reduced. Parameters are how shares are compared, how
they are rounded (`rounded`, which is at most `B_FIXED`, as a share is at most the whole), and the
order in which the hash table of the targets is visited.
-/

namespace OranNs3.Rl

open Keyed List

def B_FIXED : Nat := 533

/-- A UE of the response, with its normalized share. An RNTI has 16 bits. -/
structure Item (σ : Type) where
  rnti : Fin (2 ^ 16)
  share : σ

/-- `ulTargets`, in the order in which it is visited. -/
abbrev Targets := List (Fin (2 ^ 16) × Nat)

variable {σ : Type}

section Model

variable (gt : σ → σ → Bool) (rounded : σ → Fin (B_FIXED + 1)) (order : Shuffle)

/-- The target of a UE before the sum is corrected. -/
def initialTarget (it : Item σ) : Nat :=
  let t := (rounded it.share).val
  if t < 1 then 1 else t

/-- `ulTargets[rnti] = t`. -/
def setTarget (m : Targets) (rnti : Fin (2 ^ 16)) (t : Nat) : Targets :=
  if rnti ∈ m.map Prod.fst then Keyed.modify Prod.fst rnti (fun e => (e.1, t)) m
    else m ++ [(rnti, t)]

/-- The body of the loop that fills `ulTargets` and adds to `sumT`, a `uint32_t`. -/
def addTarget (st : Targets × Nat) (it : Item σ) : Targets × Nat :=
  (setTarget st.1 it.rnti (initialTarget rounded it), (st.2 + initialTarget rounded it) % 2 ^ 32)

variable (items : List (Item σ))

/-- That loop. -/
def initialTargets : Targets × Nat :=
  items.foldl (addTarget rounded) ([], 0)

/-- Whether a target can be reduced, and is larger than the best one so far. -/
def isBetter (best : Option (Fin (2 ^ 16) × Nat)) (e : Fin (2 ^ 16) × Nat) : Prop :=
  1 < e.2 ∧ ∀ b ∈ best, b.2 < e.2
deriving Decidable

/-- The largest target that can be reduced, and the first of these. -/
def bestTarget (m : Targets) : Option (Fin (2 ^ 16) × Nat) :=
  m.foldl (fun best e => if isBetter best e then some e else best) none

/-- The loop that reduces targets while their sum is above `B_FIXED`. -/
def reduceTargets (m : Targets) (sumT : Nat) : Targets × Nat :=
  if B_FIXED < sumT then
    match bestTarget m with
    | none => (m, sumT)
    | some best => reduceTargets (Keyed.modify Prod.fst best.1 (fun e => (e.1, e.2 - 1)) m)
        (sumT - 1)
  else (m, sumT)
termination_by sumT

/-- The UE with the largest share, and the first of these. -/
def bestRnti (front : Item σ) : Fin (2 ^ 16) :=
  (items.foldl (fun best it => if gt it.share best.share then it else best) front).rnti

/-- The loop that gives to the UE with the largest share while the sum is below `B_FIXED`. -/
def raiseTargets (items : List (Item σ)) (front : Item σ) (m : Targets) (sumT : Nat) :
    Targets × Nat :=
  if sumT < B_FIXED then
    raiseTargets items front (setTarget m (bestRnti gt items front)
      (((Keyed.find? Prod.fst (bestRnti gt items front) m).map Prod.snd).getD 0 + 1)) (sumT + 1)
  else (m, sumT)
termination_by B_FIXED - sumT

/-- The targets of a response, which is only used where it is not empty. -/
def ulTargets : Targets :=
  match items with
  | [] => []
  | front :: rest =>
    let (m, sumT) := initialTargets rounded (front :: rest)
    let (m, sumT) := reduceTargets (order.app m) sumT
    (raiseTargets gt (front :: rest) front m sumT).1

end Model

/-! ## One target more or less -/

/-- The targets of the UEs `rntis`, each at least one, with their sum. -/
structure TargetsOf (rntis : List (Fin (2 ^ 16))) (m : Targets) (sumT : Nat) : Prop where
  keys : (m.map Prod.fst).Perm rntis
  nodup : rntis.Nodup
  pos : ∀ e ∈ m, 1 ≤ e.2
  sum : (m.map Prod.snd).sum = sumT

variable {rntis : List (Fin (2 ^ 16))} {m : Targets} {sumT : Nat} {e : Fin (2 ^ 16) × Nat}
  {f : Nat → Nat} {items : List (Item σ)}

theorem sum_modify (hnd : (m.map Prod.fst).Nodup) (he : e ∈ m) :
    ((Keyed.modify Prod.fst e.1 (fun q => (q.1, f q.2)) m).map Prod.snd).sum + e.2 =
    (m.map Prod.snd).sum + f e.2 := by
  induction m with
  | nil => cases he
  | cons a m ih =>
    obtain ⟨hnot, hnd⟩ := List.nodup_cons.1 hnd
    rcases List.mem_cons.1 he with rfl | he
    · rw [Keyed.modify_cons, if_pos rfl, Keyed.modify_of_notMem hnot]
      simp only [List.map_cons, List.sum_cons]
      omega
    · have hne : a.1 ≠ e.1 := fun heq => hnot (heq ▸ List.mem_map_of_mem he)
      rw [Keyed.modify_cons, if_neg hne]
      simp only [List.map_cons, List.sum_cons]
      have := ih hnd he
      omega

section
variable (h : TargetsOf rntis m sumT)
include h

theorem TargetsOf.modify (he : e ∈ m) (hf : 1 ≤ f e.2) :
    TargetsOf rntis (Keyed.modify Prod.fst e.1 (fun q => (q.1, f q.2)) m) (sumT + f e.2 - e.2) := by
  have hnd : (m.map Prod.fst).Nodup := h.keys.nodup_iff.2 h.nodup
  refine ⟨?_, h.nodup, ?_, ?_⟩
  · have hkeys : (Keyed.modify Prod.fst e.1 (fun q => (q.1, f q.2)) m).map Prod.fst =
      m.map Prod.fst :=
      map_modify fun _ _ _ => rfl
    rw [hkeys]
    exact h.keys
  · refine forall_modify h.pos fun q hq hkey => ?_
    obtain rfl : q = e := inj_on_of_nodup_map hnd hq he hkey
    exact hf
  · have hsum := sum_modify (f := f) hnd he
    have := h.sum
    omega

theorem TargetsOf.length_le : rntis.length ≤ sumT := by
  rw [← h.sum, ← h.keys.length_eq, length_map, ← length_map Prod.snd]
  exact length_le_sum_of_one_le _ fun t ht => by
    obtain ⟨e, he, rfl⟩ := mem_map.1 ht
    exact h.pos e he

theorem TargetsOf.sum_eq (hone : ∀ e ∈ m, e.2 ≤ 1) : sumT = rntis.length := by
  have hall : m.map Prod.snd = replicate m.length 1 := by
    refine eq_replicate_iff.2 ⟨length_map _, fun t ht => ?_⟩
    obtain ⟨e, he, rfl⟩ := mem_map.1 ht
    exact Nat.le_antisymm (hone e he) (h.pos e he)
  rw [← h.sum, hall, sum_replicate_nat, ← h.keys.length_eq, length_map, Nat.mul_one]

theorem TargetsOf.perm {m' : Targets} (hp : m'.Perm m) : TargetsOf rntis m' sumT :=
  ⟨(hp.map Prod.fst).trans h.keys, h.nodup, fun e he => h.pos e (hp.mem_iff.1 he),
    ((hp.map Prod.snd).sum_eq).trans h.sum⟩

end

/-! ## The loops -/

theorem foldl_isBetter (m : Targets) (best : Option (Fin (2 ^ 16) × Nat)) :
    (m.foldl (fun best e => if isBetter best e then some e else best) best = none → best = none ∧
      ∀ e ∈ m, e.2 ≤ 1) ∧
        ∀ b ∈ m.foldl (fun best e => if isBetter best e then some e else best) best, b ∈ best ∨
          b ∈ m ∧ 1 < b.2 := by
  induction m generalizing best with
  | nil => exact ⟨fun h => ⟨h, nofun⟩, fun b hb => .inl hb⟩
  | cons e m ih =>
    rw [foldl_cons]
    obtain ⟨hnone, hsome⟩ := ih (if isBetter best e then some e else best)
    constructor
    · intro h
      obtain ⟨hbest, hm⟩ := hnone h
      split at hbest
      · cases hbest
      next hnot =>
        subst hbest
        refine ⟨rfl, forall_mem_cons.2 ⟨Nat.not_lt.1 fun hlt => hnot ⟨hlt, nofun⟩, hm⟩⟩
    · intro b hb
      rcases hsome b hb with hb | ⟨hb, hlt⟩
      · split at hb
        next hbetter =>
          cases hb
          exact .inr ⟨mem_cons_self, hbetter.1⟩
        · exact .inl hb
      · exact .inr ⟨mem_cons_of_mem e hb, hlt⟩

theorem reduceTargets_spec (h : TargetsOf rntis m sumT) :
    (reduceTargets m sumT).2 = min sumT (max B_FIXED rntis.length) ∧
      TargetsOf rntis (reduceTargets m sumT).1 (reduceTargets m sumT).2 := by
  induction m, sumT using reduceTargets.induct with
  | case1 m sumT hlt hnone =>
    have hsum := h.sum_eq ((foldl_isBetter m none).1 hnone).2
    rw [reduceTargets, if_pos hlt, hnone]
    dsimp only
    exact ⟨by omega, h⟩
  | case2 m sumT hlt best hbest ih =>
    obtain ⟨hmem, hone⟩ := ((foldl_isBetter m none).2 best hbest).resolve_left nofun
    have hnext := h.modify (f := (· - 1)) hmem (by omega)
    have hsum : sumT + (best.2 - 1) - best.2 = sumT - 1 := by omega
    rw [hsum] at hnext
    have hlen := hnext.length_le
    obtain ⟨hmin, hinv⟩ := ih hnext
    rw [reduceTargets, if_pos hlt, hbest]
    exact ⟨hmin.trans (by omega), hinv⟩
  | case3 m sumT hge =>
    rw [reduceTargets, if_neg hge]
    exact ⟨by omega, h⟩

theorem raiseTargets_spec {gt : σ → σ → Bool} {front : Item σ} (h : TargetsOf rntis m sumT)
    (hbest : bestRnti gt items front ∈ rntis) :
    TargetsOf rntis (raiseTargets gt items front m sumT).1 (max sumT B_FIXED) := by
  induction m, sumT using raiseTargets.induct gt items front with
  | case1 m sumT hlt ih =>
    have hkey : bestRnti gt items front ∈ m.map Prod.fst := h.keys.mem_iff.2 hbest
    obtain ⟨e, he⟩ := exists_find? hkey
    have hnext := h.modify (f := fun _ => e.2 + 1) (Keyed.mem_of_find? he) (by omega)
    have hsum : sumT + (e.2 + 1) - e.2 = sumT + 1 := by omega
    have hset : setTarget m (bestRnti gt items front)
        (((Keyed.find? Prod.fst (bestRnti gt items front) m).map Prod.snd).getD 0 + 1) =
        Keyed.modify Prod.fst e.1 (fun q => (q.1, e.2 + 1)) m := by
      rw [setTarget, if_pos hkey, he, key_of_find? he]
      rfl
    rw [hset] at ih
    rw [hsum] at hnext
    rw [raiseTargets, if_pos hlt, hset]
    have hinv := ih hnext
    rwa [show max (sumT + 1) B_FIXED = max sumT B_FIXED from by omega] at hinv
  | case2 m sumT hge =>
    rw [raiseTargets, if_neg hge, Nat.max_eq_left (Nat.not_lt.1 hge)]
    exact h

theorem bestRnti_mem {gt : σ → σ → Bool} {front : Item σ} (hfront : front ∈ items) :
    bestRnti gt items front ∈ items.map Item.rnti := by
  have hall : ∀ (l : List (Item σ)) (best : Item σ), best ∈ items → l ⊆ items →
      l.foldl (fun best it => if gt it.share best.share then it else best) best ∈ items := by
    intro l
    induction l with
    | nil => exact fun best hbest _ => hbest
    | cons it l ih =>
      intro best hbest hsub
      rw [foldl_cons]
      refine ih _ ?_ fun x hx => hsub (mem_cons_of_mem it hx)
      split
      · exact hsub mem_cons_self
      · exact hbest
  exact mem_map_of_mem (hall items front hfront fun _ => id)

section Initial

variable {rounded : σ → Fin (B_FIXED + 1)}

theorem initialTarget_bounds (rounded : σ → Fin (B_FIXED + 1)) (it : Item σ) :
    1 ≤ initialTarget rounded it ∧ initialTarget rounded it ≤ B_FIXED := by
  have hlt := (rounded it.share).isLt
  rw [initialTarget]
  split
  · exact ⟨Nat.le_refl 1, by decide⟩
  · exact ⟨by omega, by omega⟩

theorem TargetsOf.addTarget {st : Targets × Nat} {it : Item σ} (h : TargetsOf rntis st.1 st.2)
    (hnot : it.rnti ∉ rntis) (hlt : st.2 + initialTarget rounded it < 2 ^ 32) :
    TargetsOf (rntis ++ [it.rnti]) (addTarget rounded st it).1 (addTarget rounded st it).2 := by
  have hkey : it.rnti ∉ st.1.map Prod.fst := fun hmem => hnot (h.keys.mem_iff.1 hmem)
  rw [Rl.addTarget, Nat.mod_eq_of_lt hlt, setTarget, if_neg hkey]
  refine ⟨?_, ?_, ?_, ?_⟩
  · rw [map_append]
    exact h.keys.append_right [it.rnti]
  · exact nodup_append'.2 ⟨h.nodup, nodup_singleton _, by simpa using hnot⟩
  · rw [forall_mem_append]
    exact ⟨h.pos, by simpa using (initialTarget_bounds rounded it).1⟩
  · simpa using h.sum

theorem TargetsOf.foldl_addTarget {done todo : List (Item σ)} {st : Targets × Nat}
    (hnd : ((done ++ todo).map Item.rnti).Nodup) (h : TargetsOf (done.map Item.rnti) st.1 st.2)
    (hle : st.2 ≤ B_FIXED * done.length) :
    TargetsOf ((done ++ todo).map Item.rnti) (todo.foldl (Rl.addTarget rounded) st).1
      (todo.foldl (Rl.addTarget rounded) st).2 := by
  induction todo generalizing done st with
  | nil => rwa [append_nil]
  | cons it todo ih =>
    have hcard := hnd.length_le_card
    rw [Fintype.card_fin, length_map, length_append, length_cons] at hcard
    have hbound := (initialTarget_bounds rounded it).2
    have hnot : it.rnti ∉ done.map Item.rnti := by
      rw [map_append, map_cons] at hnd
      exact fun hmem => disjoint_of_nodup_append hnd hmem mem_cons_self
    have hlt : st.2 + initialTarget rounded it < 2 ^ 32 := by
      rw [B_FIXED] at hle hbound
      omega
    have hadd := h.addTarget hnot hlt
    rw [foldl_cons, append_cons]
    refine ih ?_ ?_ ?_
    · rwa [← append_cons]
    · rwa [map_append]
    · rw [length_append, length_singleton, Nat.mul_add, Nat.mul_one, Rl.addTarget,
        Nat.mod_eq_of_lt hlt]
      omega

end Initial

/-- The targets of a response that is not empty and has no RNTI twice: each of its UEs has a target
of at least one, and the sum is `B_FIXED`, or one for each UE where these are more. -/
theorem ulTargets_spec (gt : σ → σ → Bool) (rounded : σ → Fin (B_FIXED + 1)) (order : Shuffle)
    (items : List (Item σ)) (hne : items ≠ []) (hnd : (items.map Item.rnti).Nodup) :
    ((ulTargets gt rounded order items).map Prod.fst).Perm (items.map Item.rnti) ∧
      (∀ e ∈ ulTargets gt rounded order items, 1 ≤ e.2) ∧
      ((ulTargets gt rounded order items).map Prod.snd).sum = max B_FIXED items.length := by
  obtain ⟨front, rest, rfl⟩ := exists_cons_of_ne_nil hne
  have hinit : TargetsOf ((front :: rest).map Item.rnti) (initialTargets rounded (front :: rest)).1
      (initialTargets rounded (front :: rest)).2 :=
    @TargetsOf.foldl_addTarget _ rounded [] (front :: rest) ([], 0) hnd ⟨.nil, .nil, nofun,
      rfl⟩ (Nat.zero_le _)
  have hlen := hinit.length_le
  obtain ⟨hmin, hreduced⟩ := reduceTargets_spec (hinit.perm (order.perm _))
  have hbest : bestRnti gt (front :: rest) front ∈ (front :: rest).map Item.rnti :=
    bestRnti_mem mem_cons_self
  have hraised := raiseTargets_spec hreduced hbest
  refine ⟨hraised.keys, hraised.pos, hraised.sum.trans ?_⟩
  rw [hmin, length_map] at *
  omega

/-- Two UEs, with shares of which the rounded targets have a sum that is too large. -/
theorem ulTargets_spec_two :
    ((ulTargets (fun a b : Nat => decide (b < a)) (fun n => Fin.ofNat _ n) .id
    [⟨1, 267⟩, ⟨2, 267⟩]).map Prod.snd).sum = 533 :=
  (ulTargets_spec (fun a b : Nat => decide (b < a)) (fun n => Fin.ofNat _ n) .id [⟨1, 267⟩,
    ⟨2, 267⟩] (by decide) (by decide)).2.2

end OranNs3.Rl
