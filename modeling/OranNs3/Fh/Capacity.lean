import OranNs3.Fh.Bookkeeping
import Mathlib.Algebra.Order.BigOperators.Group.List

/-!
# The capacity of the fronthaul

A bandwidth part may use the capacity of the cell divided by the number of active bandwidth parts,
asked for at every query (`DoGetDoesAllocationFit`). Within a slot the shares add up to the capacity
where at every query at least as many bandwidth parts are active as get allocations in the slot
(`granted_le_of_run`): the number may change between two queries, and a bandwidth part may get the
share of fewer than there are.

Throughputs are exact: slot lengths and overheads are the integers that the source makes of them,
and a quotient is truncated where the source assigns it to an integer.
-/

namespace OranNs3.Fh

open Keyed List Lts Option

/-! ## The throughput of an allocation -/

/-- What `NrFhControl` is configured with. -/
structure FhConfig where
  fhCapacity : Nat
  overheadDyn : Nat
  mcsTable : Nat
  enableModComp : Bool
deriving DecidableEq

def mcsMTable1 : List Nat := List.replicate 10 2 ++ List.replicate 7 4 ++ List.replicate 12 6

def mcsMTable2 : List Nat :=
  List.replicate 5 2 ++ List.replicate 6 4 ++ List.replicate 9 6 ++ List.replicate 8 8

variable (cfg : FhConfig)

/-- The modulation order of an MCS, by `at()`. -/
def modulationOrder (mcs : Nat) : Option Nat :=
  if cfg.mcsTable = 1 then mcsMTable1[mcs]? else mcsMTable2[mcs]?

/-- The length of a slot in microseconds, an `uint16_t`. -/
def slotLength (numerology : Nat) : Nat := 1000 / 2 ^ numerology

/-- The overhead of the MAC in bits, for 10 Mbps. -/
def overheadMac (numerology : Nat) : Nat := 10000 / 2 ^ numerology

/-- The overhead of dynamic adaptation, without modulation compression 0. -/
def FhConfig.dyn : Nat := if cfg.enableModComp then cfg.overheadDyn else 0

/-- The bits of an allocation with its overheads, in an `uint32_t`. -/
def allocBits (numerology w nRegs dlRank : Nat) : Nat :=
  (12 * w * nRegs * dlRank + cfg.dyn + overheadMac numerology + 12 * 2 * 10) % 2 ^ 32

/-- `GetFhThr` at a numerology. -/
def fhThrOf (numerology mcs nRegs dlRank : Nat) : Option Nat :=
  (if cfg.enableModComp then modulationOrder cfg mcs else some 32).map fun w =>
    allocBits cfg numerology w nRegs dlRank * 10 ^ 6 / slotLength numerology

/-! ## The queries of a slot -/

/-- The state of the control with `m_allocThrPerBwp`, and what was granted to a bandwidth part since
its last end of slot, which the source does not keep. -/
structure FhCell where
  control : FhControl
  allocThrPerBwp : List (Nat × Nat) := []
  granted : List (Nat × Nat) := []
deriving DecidableEq

/-- The capacity of a bandwidth part, in bits per second. -/
def bwpCapacity (s : FhControl) : Nat :=
  cfg.fhCapacity / max 1 (getNumberActiveBwps s) * 10 ^ 6

variable (c : FhCell)

/-- `DoGetDoesAllocationFit`, unless a lookup or an assertion fails. -/
def doGetDoesAllocationFit (bwpId mcs nRegs dlRank : Nat) : Option (Bool × FhCell) := do
  let numRbPerRbg ← (lookupAt c.control.fhSchedSapUser bwpId).toOption
  let numerology ← (lookupAt c.control.fhPhySapUser bwpId).toOption
  let configured ← (lookupAt c.control.numerologyPerBwp bwpId).toOption
  guard (numerology = configured)
  let thr ← fhThrOf cfg numerology mcs (nRegs * numRbPerRbg % 2 ^ 32) dlRank
  let allocated :=
    (((Keyed.find? Prod.fst bwpId c.allocThrPerBwp).map Prod.snd).getD 0 + thr) % 2 ^ 64
  if allocated < bwpCapacity cfg c.control then
    return (true, { c with
      allocThrPerBwp := assign c.allocThrPerBwp bwpId allocated
      granted := c.granted ++ [(bwpId, thr)] })
  else return (false, c)

/-- A call of the control in a slot. -/
inductive CellAction
  | control (a : Action)
  | doesAllocationFit (bwpId mcs nRegs dlRank : Nat)
deriving DecidableEq

/-- What the end of a slot does to a map from bandwidth parts: the entry of the bandwidth part whose
slot ends is erased. -/
def eraseEnded (s : FhControl) (m : List (Nat × Nat)) : Action → List (Nat × Nat)
  | .notifyEndSlot bwpId currentSlot =>
    if (lookupAt s.waitingSlotPerBwp bwpId).toOption = some currentSlot then
      Keyed.erase Prod.fst bwpId m else m
  | _ => m

/-- What a call does. The traced throughput of `DoUpdateActiveUesMap` is the one of `GetFhThr`. -/
def cellAct : CellAction → Option FhCell
  | .control a =>
    (act (fun numerology mcs nRegs dlRank => (fhThrOf cfg numerology mcs nRegs dlRank).getD 0)
      c.control a).toOption.map fun control =>
        ⟨control, eraseEnded c.control c.allocThrPerBwp a, eraseEnded c.control c.granted a⟩
  | .doesAllocationFit bwpId mcs nRegs dlRank =>
    (doGetDoesAllocationFit cfg c bwpId mcs nRegs dlRank).map Prod.snd

/-- A step of the cell. -/
def CellStep (a : CellAction) (c' : FhCell) : Prop :=
  cellAct cfg c a = some c'

/-! ## Sums over bandwidth parts -/

/-- What the bandwidth parts of a kind have, together. -/
def total (P : Nat → Bool) (m : List (Nat × Nat)) : Nat :=
  ((m.filter fun e => P e.1).map Prod.snd).sum

section total
variable {P : Nat → Bool} {m m' : List (Nat × Nat)} {k v t : Nat}

@[simp]
theorem total_nil : total P [] = 0 := rfl

variable {e : Nat × Nat}

theorem total_cons : total P (e :: m) = (if P e.1 then e.2 else 0) + total P m := by
  rw [total, filter_cons]
  split <;> simp [total]

theorem total_append : total P (m ++ m') = total P m + total P m' := by
  simp [total]

theorem total_erase : total P (Keyed.erase Prod.fst k m) = total (fun b => P b && b != k) m := by
  rw [total, total, Keyed.erase, List.filter_filter]

theorem total_assign (hm : (m.map Prod.fst).Nodup) :
    total P (assign m k (((Keyed.find? Prod.fst k m).map Prod.snd).getD 0 + t)) =
      total P m + if P k then t else 0 := by
  rw [assign]
  split
  · next hmem =>
    induction m with
    | nil => cases hmem
    | cons e m ih =>
      rw [List.map_cons, List.nodup_cons] at hm
      rw [Keyed.modify_cons, Keyed.find?_cons]
      by_cases he : e.1 = k
      · have hnot : k ∉ m.map Prod.fst := he ▸ hm.1
        rw [if_pos he, if_pos he, Keyed.modify_of_notMem hnot, total_cons, total_cons]
        simp only [Option.map_some, Option.getD_some, he]
        split <;> omega
      · have hmem' : k ∈ m.map Prod.fst := by
          rcases List.mem_cons.1 hmem with heq | hmem
          · exact absurd heq.symm he
          · exact hmem
        rw [if_neg he, if_neg he, total_cons, total_cons, ih hm.2 hmem', Nat.add_assoc]
  · next hmem =>
    rw [Keyed.find?_eq_none.2 hmem, total_append, total_cons, total_nil]
    simp

theorem total_le {B : List Nat} {share : Nat} (hm : (m.map Prod.fst).Nodup)
    (h : ∀ e ∈ m, P e.1 → e.1 ∈ B ∧ e.2 ≤ share) : total P m ≤ B.length * share := by
  have hsum : total P m ≤ ((m.filter fun e => P e.1).map Prod.snd).length * share :=
    sum_le_card_nsmul _ _ fun v hv => by
      obtain ⟨e, he, rfl⟩ := mem_map.1 hv
      obtain ⟨hmem, hP⟩ := mem_filter.1 he
      exact (h e hmem hP).2
  have hkeys : ((m.filter fun e => P e.1).map Prod.fst).Nodup :=
    hm.sublist (List.filter_sublist.map _)
  have hsub : ((m.filter fun e => P e.1).map Prod.fst) ⊆ B := fun b hb => by
    obtain ⟨e, he, rfl⟩ := mem_map.1 hb
    obtain ⟨hmem, hP⟩ := mem_filter.1 he
    exact (h e hmem hP).1
  have hlen := (subperm_of_subset hkeys hsub).length_le
  rw [length_map] at hlen hsum
  exact hsum.trans (Nat.mul_le_mul_right _ hlen)

end total

/-! ## Runs -/

variable (bwps : List Bwp)

/-- The bandwidth parts of a numerology. -/
def ofNumerology (numerology b : Nat) : Bool :=
  bwps.any fun w => w.id = b && w.numerology = numerology

/-- The bandwidth parts of a numerology that ask for allocations are among `B`, and when they ask at
least as many bandwidth parts are active. -/
def ShareGuard (numerology : Nat) (B : List Nat) (c : FhCell) : CellAction → Prop
  | .control _ => True
  | .doesAllocationFit bwpId _ _ _ =>
    ofNumerology bwps numerology bwpId → bwpId ∈ B ∧
      B.length ≤ max 1 (getNumberActiveBwps c.control)

instance (numerology : Nat) (B : List Nat) (c : FhCell) :
    DecidablePred (ShareGuard bwps numerology B c)
  | .control _ => isTrue trivial
  | .doesAllocationFit _ _ _ _ => inferInstanceAs (Decidable (_ → _))

/-- What is granted is what `m_allocThrPerBwp` has, no bandwidth part more than the capacity. -/
structure Accounted : Prop where
  keys : (c.allocThrPerBwp.map Prod.fst).Nodup
  same : ∀ P, total P c.granted = total P c.allocThrPerBwp
  bound : ∀ e ∈ c.allocThrPerBwp, e.2 ≤ cfg.fhCapacity * 10 ^ 6

/-- Each bandwidth part of a numerology has at most its share. -/
structure Shared (numerology : Nat) (B : List Nat) (c : FhCell) :
    Prop
    extends Accounted cfg c where
  share : ∀ e ∈ c.allocThrPerBwp, ofNumerology bwps numerology e.1 →
    e.1 ∈ B ∧ e.2 ≤ cfg.fhCapacity / B.length * 10 ^ 6

section runs
variable {cfg : FhConfig} {bwps : List Bwp} {numerology : Nat} {B : List Nat} {c c' : FhCell}

variable {m : List (Nat × Nat)}

theorem nodup_assign {k v : Nat} (hm : (m.map Prod.fst).Nodup) :
    ((assign m k v).map Prod.fst).Nodup := by
  rw [assign]
  split
  · have hkeys : (Keyed.modify Prod.fst k (fun e => (e.1, v)) m).map Prod.fst = m.map Prod.fst :=
      map_modify fun _ _ _ => rfl
    rwa [hkeys]
  · next hmem =>
    rw [map_append, map_singleton, nodup_append]
    refine ⟨hm, nodup_singleton _, ?_⟩
    rintro a ha b hb rfl
    obtain rfl : a = k := mem_singleton.1 hb
    exact hmem ha

theorem mem_assign {k v : Nat} (he : e ∈ assign m k v) : e = (k, v) ∨ e ∈ m := by
  rw [assign] at he
  split at he
  · obtain ⟨a, ha, rfl⟩ := mem_modify.1 he
    split
    · next hk => exact .inl (by rw [hk])
    · exact .inr ha
  · exact (mem_append.1 he).symm.imp mem_singleton.1 id

theorem fhThrOf_lt {mcs nRegs dlRank thr : Nat}
    (h : fhThrOf cfg numerology mcs nRegs dlRank = some thr) : thr < 2 ^ 52 := by
  obtain ⟨w, -, rfl⟩ := map_eq_some_iff.1 h
  have hbits : allocBits cfg numerology w nRegs dlRank < 2 ^ 32 := Nat.mod_lt _ (by decide)
  calc allocBits cfg numerology w nRegs dlRank * 10 ^ 6 / slotLength numerology
      ≤ allocBits cfg numerology w nRegs dlRank * 10 ^ 6 := Nat.div_le_self _ _
    _ < 2 ^ 52 := by omega

theorem bwpCapacity_le {n : Nat} (hpos : 0 < n) (hn : n ≤ max 1 (getNumberActiveBwps c.control)) :
    bwpCapacity cfg c.control ≤ cfg.fhCapacity / n * 10 ^ 6 :=
  Nat.mul_le_mul_right _ (Nat.div_le_div_left hn hpos)

/-- What a query does: nothing, or it adds the throughput of the allocation, below the share, to
that of the bandwidth part. -/
theorem doesAllocationFit_cases (h : Accounted cfg c) (hcap : cfg.fhCapacity < 2 ^ 32)
    {bwpId mcs nRegs dlRank : Nat} {fits : Bool}
    (hfit : doGetDoesAllocationFit cfg c bwpId mcs nRegs dlRank = some (fits, c')) :
    c' = c ∨ ∃ allocated, allocated < bwpCapacity cfg c.control ∧ c'.control = c.control ∧
      c'.allocThrPerBwp = assign c.allocThrPerBwp bwpId allocated ∧ Accounted cfg c' := by
  rw [doGetDoesAllocationFit] at hfit
  obtain ⟨_, -, hfit⟩ := bind_eq_some_iff.1 hfit
  obtain ⟨_, -, hfit⟩ := bind_eq_some_iff.1 hfit
  obtain ⟨_, -, hfit⟩ := bind_eq_some_iff.1 hfit
  obtain ⟨_, -, hfit⟩ := bind_eq_some_iff.1 hfit
  obtain ⟨thr, hthr, hfit⟩ := bind_eq_some_iff.1 hfit
  have hthr := fhThrOf_lt hthr
  have hold : ((Keyed.find? Prod.fst bwpId c.allocThrPerBwp).map Prod.snd).getD 0 ≤
    cfg.fhCapacity * 10 ^ 6 := by
    cases hfind : Keyed.find? Prod.fst bwpId c.allocThrPerBwp with
    | none => simp
    | some e => exact h.bound e (Keyed.mem_of_find? hfind)
  rw [Nat.mod_eq_of_lt (by omega)] at hfit
  simp only at hfit
  split at hfit
  · next hlt =>
    obtain ⟨-, rfl⟩ := Prod.mk.inj (some.inj hfit)
    have hall : bwpCapacity cfg c.control ≤ cfg.fhCapacity * 10 ^ 6 :=
      Nat.mul_le_mul_right _ (Nat.div_le_self _ _)
    refine .inr ⟨_, hlt, rfl, rfl, nodup_assign h.keys, fun P => ?_, fun e he => ?_⟩
    · rw [total_append, total_cons, total_nil, total_assign h.keys, h.same, Nat.add_zero]
    · rcases mem_assign he with rfl | he
      · exact hlt.le.trans hall
      · exact h.bound e he
  · obtain ⟨-, rfl⟩ := Prod.mk.inj (some.inj hfit)
    exact .inl rfl

theorem mem_of_mem_eraseEnded {s : FhControl} {a : Action} (he : e ∈ eraseEnded s m a) : e ∈ m := by
  cases a with
  | setActiveUe | setActiveHarqUes | updateActiveUesMap => exact he
  | notifyEndSlot bwpId currentSlot =>
    simp only [eraseEnded] at he
    split at he
    · exact (mem_erase.1 he).1
    · exact he

theorem Accounted.eraseEnded (h : Accounted cfg c) (control : FhControl) (a : Action) :
    Accounted cfg ⟨control, eraseEnded c.control c.allocThrPerBwp a,
      eraseEnded c.control c.granted a⟩ := by
  cases a with
  | setActiveUe | setActiveHarqUes | updateActiveUesMap => exact ⟨h.keys, h.same, h.bound⟩
  | notifyEndSlot bwpId currentSlot =>
    simp only [Fh.eraseEnded]
    split
    · refine ⟨nodup_erase h.keys, fun P => ?_, fun e he => ?_⟩
      · rw [total_erase, total_erase, h.same]
      · exact h.bound e (mem_erase.1 he).1
    · exact ⟨h.keys, h.same, h.bound⟩

theorem Accounted.step (h : Accounted cfg c) (hcap : cfg.fhCapacity < 2 ^ 32) {a : CellAction}
    (hst : CellStep cfg c a c') : Accounted cfg c' := by
  cases a with
  | control a =>
    obtain ⟨control, -, rfl⟩ := map_eq_some_iff.1 hst
    exact h.eraseEnded control a
  | doesAllocationFit bwpId mcs nRegs dlRank =>
    obtain ⟨⟨fits, t⟩, hfit, rfl⟩ := map_eq_some_iff.1 hst
    rcases doesAllocationFit_cases h hcap hfit with heq | ⟨_, -, -, -, hacc⟩
    · exact (heq ▸ h : Accounted cfg t)
    · exact hacc

theorem Shared.step (h : Shared cfg bwps numerology B c) (hcap : cfg.fhCapacity < 2 ^ 32)
    {a : CellAction} (hok : ShareGuard bwps numerology B c a) (hst : CellStep cfg c a c') :
    Shared cfg bwps numerology B c' := by
  refine ⟨h.toAccounted.step hcap hst, fun e he hof => ?_⟩
  cases a with
  | control a =>
    obtain ⟨control, -, rfl⟩ := map_eq_some_iff.1 hst
    exact h.share e (mem_of_mem_eraseEnded he) hof
  | doesAllocationFit bwpId mcs nRegs dlRank =>
    obtain ⟨⟨fits, t⟩, hfit, rfl⟩ := map_eq_some_iff.1 hst
    rcases doesAllocationFit_cases h.toAccounted hcap hfit with heq | ⟨allocated, hlt, -, halloc, -⟩
    · exact h.share e (heq ▸ he) hof
    · rcases mem_assign (halloc ▸ he) with rfl | he
      · obtain ⟨hB, hlen⟩ := hok hof
        exact ⟨hB, hlt.le.trans (bwpCapacity_le (length_pos_of_mem hB) hlen)⟩
      · exact h.share e he hof

theorem Shared.total_le (h : Shared cfg bwps numerology B c) :
    total (ofNumerology bwps numerology) c.granted ≤ cfg.fhCapacity * 10 ^ 6 := by
  rw [h.same]
  calc total (ofNumerology bwps numerology) c.allocThrPerBwp
      ≤ B.length * (cfg.fhCapacity / B.length * 10 ^ 6) := Fh.total_le h.keys h.share
    _ = B.length * (cfg.fhCapacity / B.length) * 10 ^ 6 := (Nat.mul_assoc _ _ _).symm
    _ ≤ cfg.fhCapacity * 10 ^ 6 := Nat.mul_le_mul_right _ (Nat.mul_div_le _ _)

theorem accounted_of_run (hcap : cfg.fhCapacity < 2 ^ 32)
    (hrun : Run (CellStep cfg) anyStep ⟨FhControl.init bwps, [], []⟩ c) : Accounted cfg c := by
  have hinit : Accounted cfg ⟨FhControl.init bwps, [], []⟩ :=
    ⟨nodup_nil, fun _ => rfl, fun _ he => (nomatch he)⟩
  exact Run.invariant (fun h _ hst => h.step hcap hst) hinit hrun

/-- From a state in which no bandwidth part of a numerology has anything, where every query of one
of them finds at least as many active bandwidth parts as there are such that ask, what is granted to
them is at most the capacity. -/
theorem granted_le_of_run {c₀ : FhCell} (hcap : cfg.fhCapacity < 2 ^ 32)
    (hreach : Run (CellStep cfg) anyStep ⟨FhControl.init bwps, [], []⟩ c₀)
    (hstart : ∀ e ∈ c₀.allocThrPerBwp, ¬ ofNumerology bwps numerology e.1)
    (hrun : Run (CellStep cfg) (ShareGuard bwps numerology B) c₀ c) :
    total (ofNumerology bwps numerology) c.granted ≤ cfg.fhCapacity * 10 ^ 6 := by
  have h₀ : Shared cfg bwps numerology B c₀ :=
    ⟨accounted_of_run hcap hreach, fun e he hof => absurd hof (hstart e he)⟩
  exact (Run.invariant (fun h hok hst => h.step hcap hok hst) h₀ hrun).total_le

end runs

end OranNs3.Fh
