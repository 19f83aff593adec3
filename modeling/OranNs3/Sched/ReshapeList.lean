import Mathlib.Order.Lattice.Nat
import Mathlib.Tactic.NormNum.Prime
import OranNs3.Lib.Fuel
import OranNs3.Sched.Reshape

/-!
# Reshaping of a list of DCIs

`NrMacSchedulerTdma::DoReshapeAllocation` (`nr-mac-scheduler-tdma.cc`) for any list, in both
directions. The number of symbols has eight bits, and the search for it ends for a number of RBGs
that divides the resources, into at most 255 symbols (`Factor`). It finds the largest one
(`matchResources_returns`), and never ends without one (`matchResources_none`); and it divides by
the number of RBGs, which may be zero. DCIs that are reshaped are put one after the other
(`doReshapeAllocation_preserves`).
-/

namespace OranNs3.Reshape

open Fuel List Option

/-- The variables of the loop over the DCIs, and whether there was a division by zero. -/
structure ReshapeState where
  availableSymbols : Nat
  startingSymbol : Nat
  numSymbols : Nat
  reshapedDcis : List Dci
  dividedByZero : Bool

/-- The resources of a DCI. -/
def numResources (dci : Dci) : Nat := dci.numSym * dci.rbgBitmask.count true

/-- The sub-bands of a UE are for the DL. -/
def ueInfo (isDl : Bool) (ue : UeMcs) : UeMcs := if isDl then ue else { ue with sbMcs := none }

/-- The first number of symbols, in eight bits: a quotient that is rounded up. The value of a
conversion is undefined where the divisor is zero or the quotient has more bits. -/
def firstSymbols (undef : Nat → Nat → Nat) (numResources numRbgs : Nat) : Nat :=
  if numRbgs = 0 ∨ 255 < (numResources + numRbgs - 1) / numRbgs then undef numResources numRbgs %
    256
  else (numResources + numRbgs - 1) / numRbgs

variable (st : ReshapeState)

/-- A DCI that is reshaped to some symbols and RBGs. -/
def ReshapeState.place (dci : Dci) (size minSymbols : Nat) (rbgs : List Nat) : ReshapeState :=
  { st with
    availableSymbols := st.availableSymbols - minSymbols
    startingSymbol := (st.startingSymbol + minSymbols) % 256
    numSymbols := (st.numSymbols + 256 - minSymbols) % 256
    reshapedDcis := st.reshapedDcis ++ [{ dci with
      symStart := st.startingSymbol
      numSym := minSymbols
      rbgBitmask := (List.range size).map fun i => decide (i ∈ rbgs) }] }

/-- The end of an iteration. -/
def ReshapeState.update (dci : Dci) (size minSymbols : Nat) (rbgs : List Nat) : ReshapeState :=
  if minSymbols ≤ st.availableSymbols ∧ minSymbols * rbgs.length = numResources dci then
    st.place dci size minSymbols rbgs else st

section Model

variable (ues : Nat → UeMcs) (isDl : Bool) (undef : Nat → Nat → Nat) (bitmask : List Bool)

/-- One DCI. -/
def reshape (fuel : Nat) (st : ReshapeState) (dci : Dci) : Option ReshapeState :=
  let rbgs := sortedRbgs (ueInfo isDl (ues dci.rnti)) dci (numResources dci) st.availableSymbols
    bitmask
  let st := { st with dividedByZero := st.dividedByZero || rbgs.isEmpty }
  (matchResources (numResources dci) fuel (firstSymbols undef (numResources dci) rbgs.length)
    rbgs).map fun r =>
    st.update dci bitmask.length r.1 r.2

def doReshapeAllocation (dcis : List Dci) (startingSymbol numSymbols fuel : Nat) :
    Option ReshapeState :=
  dcis.foldlM (reshape ues isDl undef bitmask fuel) ⟨numSymbols, startingSymbol, numSymbols, [],
    false⟩

end Model

/-! ## The search for a number of symbols -/

variable {n k m bound : Nat} {rbgs : List Nat}

/-- The resources are as many symbols for each of `k` RBGs. -/
structure Factor (n k : Nat) : Prop where
  pos : 0 < k
  dvd : k ∣ n
  le : n ≤ 255 * k

theorem Factor.of_eq (hm : m ≤ 255) (hk : 0 < k) (h : n = m * k) : Factor n k :=
  ⟨hk, h ▸ Nat.dvd_mul_left k m, h ▸ Nat.mul_le_mul_right k hm⟩

theorem matchResources_more (h : m * rbgs.length < n) (hne : rbgs ≠ []) {r : Nat × List Nat}
    (hr : Returns (fun fuel => matchResources n fuel ((m + 1) % 256) rbgs) r) :
    Returns (fun fuel => matchResources n fuel m rbgs) r := by
  refine Returns.succ (hr.congr fun fuel => ?_)
  rw [matchResources, if_pos ⟨Nat.ne_of_gt h, hne⟩, if_pos h]

theorem matchResources_fewer (h : n < m * rbgs.length) (hne : rbgs ≠ []) {r : Nat × List Nat}
    (hr : Returns (fun fuel => matchResources n fuel m rbgs.tail) r) :
    Returns (fun fuel => matchResources n fuel m rbgs) r := by
  refine Returns.succ (hr.congr fun fuel => ?_)
  rw [matchResources, if_pos ⟨Nat.ne_of_lt h, hne⟩, if_neg (Nat.not_lt.2 (Nat.le_of_lt h))]

theorem matchResources_done (h : n = m * rbgs.length ∨ rbgs = []) :
    Returns (fun fuel => matchResources n fuel m rbgs) (m, rbgs) := by
  refine Returns.succ ((Returns.const _).congr fun fuel => ?_)
  rw [matchResources, if_neg]
  rintro ⟨hne, hnil⟩
  exact h.elim hne hnil

/-- The search ends with the largest number of RBGs that is a factor. -/
theorem matchResources_returns (hk : IsGreatest {j | Factor n j ∧ j ≤ rbgs.length} k)
    (hm : m * k ≤ n) :
    Returns (fun fuel => matchResources n fuel m rbgs) (n / k, rbgs.drop (rbgs.length - k)) := by
  have hfactor := hk.1.1
  obtain ⟨q, rfl⟩ := hfactor.dvd
  have hq : q ≤ 255 := le_of_mul_le_mul_left (mul_comm 255 k ▸ hfactor.le) hfactor.pos
  have hmq : m ≤ q := le_of_mul_le_mul_left (mul_comm m k ▸ hm) hfactor.pos
  rw [Nat.mul_div_cancel_left q hfactor.pos]
  -- each iteration gets nearer to that pair
  induction hmeasure : (q - m) + (rbgs.length - k) using Nat.strong_induction_on generalizing m
    rbgs with
  | _ measure ih =>
    obtain ⟨⟨-, hle⟩, hmax⟩ := hk
    have hne : rbgs ≠ [] := ne_nil_of_length_pos (lt_of_lt_of_le hfactor.pos hle)
    rcases Nat.lt_trichotomy (m * rbgs.length) (k * q) with hlt | heq | hgt
    · have hmq' : m < q := by
        refine Nat.lt_of_mul_lt_mul_left (a := k) (Nat.lt_of_le_of_lt ?_ hlt)
        rw [mul_comm k m]
        exact Nat.mul_le_mul_left m hle
      refine matchResources_more hlt hne ?_
      rw [Nat.mod_eq_of_lt (by omega)]
      refine ih _ (by omega) ⟨⟨hfactor, hle⟩, hmax⟩ ?_ hmq' rfl
      rw [mul_comm]
      exact Nat.mul_le_mul_left k hmq'
    · have hlen : rbgs.length = k :=
        Nat.le_antisymm (hmax ⟨.of_eq (by omega) (lt_of_lt_of_le hfactor.pos hle) heq.symm,
          le_refl _⟩) hle
      have hmeq : m = q := by
        rw [hlen, mul_comm] at heq
        exact Nat.eq_of_mul_eq_mul_left hfactor.pos heq
      subst hmeq
      rw [hlen, Nat.sub_self, drop_zero]
      exact matchResources_done (.inl heq.symm)
    · have hlt : k < rbgs.length := by
        refine Nat.lt_of_mul_lt_mul_left (a := m) (Nat.lt_of_le_of_lt ?_ hgt)
        rw [mul_comm m k]
        exact Nat.mul_le_mul_left k hmq
      have htail : rbgs.tail.length = rbgs.length - 1 := length_tail
      refine matchResources_fewer hgt hne ?_
      have hgreatest : IsGreatest {j | Factor (k * q) j ∧ j ≤ rbgs.tail.length} k :=
        ⟨⟨hfactor, by omega⟩, fun k' hk' => hmax ⟨hk'.1, le_trans hk'.2 (htail ▸ Nat.sub_le _ _)⟩⟩
      have hrest : Returns (fun fuel => matchResources (k * q) fuel m rbgs.tail)
        (q, rbgs.tail.drop (rbgs.tail.length - k)) :=
        ih _ (by omega) hgreatest hm hmq rfl
      have hdrop : rbgs.tail.drop (rbgs.tail.length - k) = rbgs.drop (rbgs.length - k) := by
        rw [htail, ← drop_one, drop_drop]
        congr 1
        omega
      rwa [hdrop] at hrest

theorem matchResources_none (h : ∀ k ≤ rbgs.length, ¬ Factor n k) (hne : rbgs ≠ []) (hm : m ≤ 255)
    (fuel : Nat) : matchResources n fuel m rbgs = none := by
  induction fuel generalizing m rbgs with
  | zero => rfl
  | succ fuel ih =>
    have hpos : 0 < rbgs.length := length_pos_iff.2 hne
    have heq : n ≠ m * rbgs.length := fun heq => h _ (le_refl _) (.of_eq hm hpos heq)
    rw [matchResources, if_pos ⟨heq, hne⟩]
    split
    · exact ih h hne (by omega)
    next hge =>
      -- one RBG would be a factor
      have htwo : rbgs.length ≠ 1 := by
        intro hone
        rw [hone, Nat.mul_one] at hge heq
        exact h 1 (hone ▸ le_refl _) (.of_eq (m := n) (by omega) Nat.one_pos (Nat.mul_one n).symm)
      have htail : rbgs.tail.length = rbgs.length - 1 := length_tail
      refine ih (fun k hk => h k (by omega)) (ne_nil_of_length_pos (by omega)) hm

theorem firstSymbols_le (undef : Nat → Nat → Nat) (n k : Nat) : firstSymbols undef n k ≤ 255 := by
  unfold firstSymbols
  split
  · exact Nat.le_of_lt_succ (Nat.mod_lt _ (by decide))
  next h => exact Nat.not_lt.1 fun hlt => h (.inr hlt)

theorem firstSymbols_mul_le (undef : Nat → Nat → Nat) (h : Factor n k) (hle : k ≤ bound) :
    firstSymbols undef n bound * k ≤ n := by
  obtain ⟨q, rfl⟩ := h.dvd
  have hq : q ≤ 255 := le_of_mul_le_mul_left (mul_comm 255 k ▸ h.le) h.pos
  have hbound : 0 < bound := lt_of_lt_of_le h.pos hle
  have hdiv : (k * q + bound - 1) / bound ≤ q := by
    refine Nat.le_of_lt_succ ((Nat.div_lt_iff_lt_mul hbound).2 ?_)
    have hmul : k * q ≤ q * bound := mul_comm k q ▸ Nat.mul_le_mul_left q hle
    rw [Nat.succ_mul]
    omega
  rw [firstSymbols, if_neg (by omega)]
  exact le_trans (Nat.mul_le_mul_right k hdiv) (Nat.le_of_eq (mul_comm q k))

/-! ## The RBGs of a DCI -/

variable {ue : UeMcs} {dci : Dci} {avail : Nat} {bitmask : List Bool} {l s : List Nat}

/-- The RBGs that are free. -/
def freeRbgs (bitmask : List Bool) : List Nat := (List.range bitmask.length).filter fun i =>
    bitmask.getD i false

/-- In the order in which they are removed. -/
def rankedRbgs (ue : UeMcs) (bitmask : List Bool) : List Nat :=
  match ue.sbMcs with
  | none => (freeRbgs bitmask).reverse
  | some sbMcs => ((freeRbgs bitmask).insertionSort fun a b => sbMcs b ≤ sbMcs a).reverse

theorem mem_freeRbgs {i : Nat} : i ∈ freeRbgs bitmask ↔ bitmask[i]? = some true := by
  rw [freeRbgs, mem_filter, mem_range, getD_eq_getElem?_getD]
  cases h : bitmask[i]? with
  | none => simp
  | some v =>
    obtain ⟨hlt, -⟩ := List.getElem?_eq_some_iff.1 h
    simp [hlt]

theorem rankedRbgs_perm (ue : UeMcs) (bitmask : List Bool) :
    (rankedRbgs ue bitmask).Perm (freeRbgs bitmask) := by
  unfold rankedRbgs
  split
  · exact reverse_perm _
  · exact (reverse_perm _).trans (perm_insertionSort _ _)

/-- The first of the RBGs that are left is one of a bad sub-band, and the others are enough without
it and better than all. -/
def Removable (ue : UeMcs) (dci : Dci) (avail : Nat) (bitmask : List Bool) : List Nat → Prop
  | [] => False
  | rbg :: rbgs => ∃ sbMcs, ue.sbMcs = some sbMcs ∧ numResources dci ≤ rbgs.length * avail ∧
      sbMcs rbg < min dci.mcs ue.dlMcs ∧ computeMcs ue.dlMcs sbMcs (freeRbgs bitmask) <
      computeMcs ue.dlMcs sbMcs rbgs

theorem removeWorstRbgs_spec {sbMcs : Nat → Nat} (hsb : ue.sbMcs = some sbMcs) {r : List Nat}
    (hr : r = removeWorstRbgs ue.dlMcs dci.mcs sbMcs (numResources dci) avail
      (computeMcs ue.dlMcs sbMcs (freeRbgs bitmask)) l) :
    r <:+ l ∧ ¬ Removable ue dci avail bitmask r ∧ ∀ s, s <:+ l → r.length < s.length →
      Removable ue dci avail bitmask s := by
  induction l with
  | nil =>
    subst hr
    refine ⟨suffix_refl _, id, fun s hs hlt => ?_⟩
    rw [suffix_nil.1 hs] at hlt
    exact absurd hlt (Nat.lt_irrefl _)
  | cons rbg rbgs ih =>
    by_cases hrem : Removable ue dci avail bitmask (rbg :: rbgs)
    · obtain ⟨sbMcs', hsb', hmany, hbad, hbetter⟩ := id hrem
      obtain rfl : sbMcs = sbMcs' := some.inj (hsb.symm.trans hsb')
      rw [removeWorstRbgs, if_pos hmany, if_neg (not_le.2 hbad), if_neg (not_le.2 hbetter)] at hr
      obtain ⟨hsuffix, hkept, hmore⟩ := ih hr
      refine ⟨hsuffix.trans (suffix_cons _ _), hkept, fun s hs hlt => ?_⟩
      rcases suffix_cons_iff.1 hs with rfl | hs
      · exact hrem
      · exact hmore s hs hlt
    · have hr : r = rbg :: rbgs := by
        rw [hr, removeWorstRbgs]
        split
        next hmany =>
          split
          · rfl
          next hbad =>
            split
            · rfl
            next hbetter => exact absurd ⟨sbMcs, hsb, hmany, Nat.not_le.1 hbad,
              not_le.1 hbetter⟩ hrem
        · rfl
      subst hr
      exact ⟨suffix_refl _, hrem, fun s hs hlt => absurd hs.length_le (not_le.2 hlt)⟩

theorem sortedRbgs_spec (ue : UeMcs) (dci : Dci) (avail : Nat) (bitmask : List Bool) :
    sortedRbgs ue dci (numResources dci) avail bitmask <:+ rankedRbgs ue bitmask ∧
      ∀ k, k ≤ (sortedRbgs ue dci (numResources dci) avail bitmask).length ↔
        ∃ s, s <:+ rankedRbgs ue bitmask ∧ ¬ Removable ue dci avail bitmask s ∧ k ≤ s.length := by
  have hspec : sortedRbgs ue dci (numResources dci) avail bitmask <:+ rankedRbgs ue bitmask ∧
      ¬ Removable ue dci avail bitmask (sortedRbgs ue dci (numResources dci) avail bitmask) ∧
      ∀ s, s <:+ rankedRbgs ue bitmask →
        (sortedRbgs ue dci (numResources dci) avail bitmask).length < s.length →
        Removable ue dci avail bitmask s := by
    cases hsb : ue.sbMcs with
    | none =>
      have heq : sortedRbgs ue dci (numResources dci) avail bitmask = rankedRbgs ue bitmask := by
        rw [sortedRbgs, rankedRbgs, hsb]
        rfl
      rw [heq]
      refine ⟨suffix_refl _, fun hrem => ?_, fun s hs hlt => absurd hs.length_le (not_le.2 hlt)⟩
      generalize rankedRbgs ue bitmask = l at hrem
      cases l with
      | nil => exact hrem
      | cons rbg rbgs =>
        obtain ⟨sbMcs, hsome, -⟩ := hrem
        exact nomatch hsb.symm.trans hsome
    | some sbMcs =>
      refine removeWorstRbgs_spec hsb ?_
      rw [sortedRbgs, rankedRbgs, hsb]
      rfl
  obtain ⟨hsuffix, hkept, hmore⟩ := hspec
  refine ⟨hsuffix, fun k => ⟨fun hle => ⟨_, hsuffix, hkept, hle⟩, ?_⟩⟩
  rintro ⟨s, hs, hnot, hle⟩
  exact le_trans hle (Nat.not_lt.1 fun hlt => hnot (hmore s hs hlt))

/-- A number of the RBGs that are kept is a factor. -/
def IsFactor (ue : UeMcs) (dci : Dci) (avail : Nat) (bitmask : List Bool) (k : Nat) : Prop :=
  Factor (numResources dci) k ∧ ∃ s, s <:+ rankedRbgs ue bitmask ∧
    ¬ Removable ue dci avail bitmask s ∧ k ≤ s.length

theorem isFactor_iff : IsFactor ue dci avail bitmask k ↔
    Factor (numResources dci) k ∧ k ≤ (sortedRbgs ue dci (numResources dci) avail bitmask).length :=
  and_congr_right fun _ => ((sortedRbgs_spec ue dci avail bitmask).2 k).symm

theorem exists_isGreatest (h : IsFactor ue dci avail bitmask k) :
    ∃ k, IsGreatest {j | IsFactor ue dci avail bitmask j} k := by
  have hbdd : BddAbove {j | IsFactor ue dci avail bitmask j} :=
    ⟨(sortedRbgs ue dci (numResources dci) avail bitmask).length, fun j hj => (isFactor_iff.1 hj).2⟩
  exact ⟨_, Nat.sSup_mem ⟨k, h⟩ hbdd, fun j hj => le_csSup hbdd hj⟩

/-! ## One DCI -/

variable {ues : Nat → UeMcs} {isDl : Bool} {undef : Nat → Nat → Nat} {st st' : ReshapeState}
  {size : Nat}

@[simp]
theorem ReshapeState.update_dividedByZero (st : ReshapeState) (dci : Dci) (size m : Nat)
    (rbgs : List Nat) : (st.update dci size m rbgs).dividedByZero = st.dividedByZero := by
  unfold ReshapeState.update
  split <;> rfl

theorem ReshapeState.update_availableSymbols (h : m * rbgs.length = numResources dci) :
    (st.update dci size m rbgs).availableSymbols =
      if m ≤ st.availableSymbols then st.availableSymbols - m else st.availableSymbols := by
  unfold ReshapeState.update
  rw [if_congr (and_iff_left h) rfl rfl]
  split <;> rfl

theorem reshape_nil
    (hnil : sortedRbgs (ueInfo isDl (ues dci.rnti)) dci (numResources dci) st.availableSymbols
      bitmask = []) : ∃ st', Returns (fun fuel => reshape ues isDl undef bitmask fuel st dci) st' ∧
        st'.dividedByZero = true := by
  refine ⟨_, Returns.map ((matchResources_done (.inr hnil)).congr fun fuel => rfl) _, ?_⟩
  simp [hnil]

theorem reshape_returns
    (hk : IsGreatest {j | IsFactor (ueInfo isDl (ues dci.rnti)) dci st.availableSymbols bitmask j}
      k) : ∃ st', Returns (fun fuel => reshape ues isDl undef bitmask fuel st dci) st' ∧
        st'.dividedByZero = st.dividedByZero ∧ st'.availableSymbols = if numResources dci / k ≤
          st.availableSymbols then st.availableSymbols - numResources dci / k
            else st.availableSymbols := by
  simp only [isFactor_iff] at hk
  obtain ⟨⟨hfactor, hle⟩, -⟩ := id hk
  refine ⟨_, Returns.map (matchResources_returns hk (firstSymbols_mul_le undef hfactor hle)) _, ?_,
    ?_⟩
  · have hne := ne_nil_of_length_pos (lt_of_lt_of_le hfactor.pos hle)
    simp [hne]
  · have hproduct : numResources dci / k * k = numResources dci := Nat.div_mul_cancel hfactor.dvd
    refine ReshapeState.update_availableSymbols ?_
    rw [length_drop, Nat.sub_sub_self hle, hproduct]

theorem reshape_none
    (hno : ∀ k, ¬ IsFactor (ueInfo isDl (ues dci.rnti)) dci st.availableSymbols bitmask k)
    (hne : sortedRbgs (ueInfo isDl (ues dci.rnti)) dci (numResources dci) st.availableSymbols
      bitmask ≠ []) (fuel : Nat) : reshape ues isDl undef bitmask fuel st dci = none := by
  rw [reshape, matchResources_none (fun k hk hfactor => hno k (isFactor_iff.2 ⟨hfactor, hk⟩)) hne
    (firstSymbols_le _ _ _)]
  rfl

/-! ## When it ends -/

variable {dcis : List Dci}

/-- A number of the RBGs that are kept is a factor, for each DCI with the symbols that are left for
it. The largest one says how many symbols it takes. -/
def Fits (ues : Nat → UeMcs) (isDl : Bool) (bitmask : List Bool) : List Dci → Nat → Prop
  | [], _ => True
  | dci :: dcis, avail => ∃ k,
      IsGreatest {j | IsFactor (ueInfo isDl (ues dci.rnti)) dci avail bitmask j} k ∧
      Fits ues isDl bitmask dcis (if numResources dci / k ≤ avail then avail - numResources dci / k
        else avail)

theorem foldlM_reshape_iff (ues : Nat → UeMcs) (isDl : Bool) (undef : Nat → Nat → Nat)
    (bitmask : List Bool) (dcis : List Dci) (st : ReshapeState) :
    (∃ out, Returns (fun fuel => dcis.foldlM (reshape ues isDl undef bitmask fuel) st) out ∧
      out.dividedByZero = false) ↔ st.dividedByZero = false ∧
        Fits ues isDl bitmask dcis st.availableSymbols := by
  induction dcis generalizing st with
  | nil =>
    constructor
    · rintro ⟨out, hout, hflag⟩
      obtain rfl := hout.unique (Returns.const st)
      exact ⟨hflag, trivial⟩
    · exact fun h => ⟨st, Returns.const st, h.1⟩
  | cons dci dcis ih =>
    have hcons : (fun fuel => (dci :: dcis).foldlM (reshape ues isDl undef bitmask fuel) st) =
        fun fuel => (reshape ues isDl undef bitmask fuel st dci).bind fun st =>
          dcis.foldlM (reshape ues isDl undef bitmask fuel) st := by
      funext fuel
      rw [foldlM_cons]
      rfl
    rw [hcons, Fits]
    by_cases hex : ∃ k, IsFactor (ueInfo isDl (ues dci.rnti)) dci st.availableSymbols bitmask k
    · obtain ⟨k, hk⟩ := exists_isGreatest hex.choose_spec
      obtain ⟨st', hst', hflag, havail⟩ : ∃ st',
      Returns (fun fuel => reshape ues isDl undef bitmask fuel st dci) st' ∧ _ :=
        reshape_returns hk
      have hih := ih st'
      rw [hflag, havail] at hih
      constructor
      · rintro ⟨out, hout, hzero⟩
        obtain ⟨hstflag, hfits⟩ := hih.1 ⟨out, hst'.of_bind hout, hzero⟩
        exact ⟨hstflag, k, hk, hfits⟩
      · rintro ⟨hstflag, k', hk', hfits⟩
        obtain rfl := hk'.unique hk
        obtain ⟨out, hout, hzero⟩ := hih.2 ⟨hstflag, hfits⟩
        exact ⟨out, hst'.bind hout, hzero⟩
    · refine iff_of_false ?_ fun h => hex ⟨_, h.2.choose_spec.1.1⟩
      rintro ⟨out, hout, hzero⟩
      by_cases hnil : sortedRbgs (ueInfo isDl (ues dci.rnti)) dci (numResources dci)
        st.availableSymbols bitmask = []
      · obtain ⟨st', hst', hflag⟩ : ∃ st',
          Returns (fun fuel => reshape ues isDl undef bitmask fuel st dci) st' ∧ _ :=
          reshape_nil hnil
        have hrest := (ih st').1 ⟨out, hst'.of_bind hout, hzero⟩
        exact Bool.noConfusion (hrest.1.symm.trans hflag)
      · obtain ⟨fuel, hfuel⟩ := hout.exists
        rw [reshape_none (fun k hk => hex ⟨k, hk⟩) hnil] at hfuel
        cases hfuel

/-- For every list of DCIs, UEs, mask and symbols: it ends without a division by zero if and only if
there is a factor for each DCI. -/
theorem doReshapeAllocation_terminates_iff (ues : Nat → UeMcs) (isDl : Bool)
    (undef : Nat → Nat → Nat) (bitmask : List Bool) (dcis : List Dci)
    (startingSymbol numSymbols : Nat) :
    (∃ out, Returns (doReshapeAllocation ues isDl undef bitmask dcis startingSymbol numSymbols)
      out ∧ out.dividedByZero = false) ↔ Fits ues isDl bitmask dcis numSymbols :=
  (foldlM_reshape_iff ues isDl undef bitmask dcis ⟨numSymbols, startingSymbol, numSymbols, [],
    false⟩).trans (and_iff_right rfl)

/-- A DCI of one symbol and 257 RBGs. -/
def wide : Dci := ⟨1, .dl, 1, 1, 10, 1, 100, 1, 0, .data, 0, List.replicate 257 true⟩

/-- A UE for which the last RBG is worse than the others. -/
def lastWorse (_ : Nat) : UeMcs := ⟨10, some fun rbg => if rbg < 256 then 10 else 0⟩

theorem length_sortedRbgs_wide :
    (sortedRbgs (ueInfo true (lastWorse wide.rnti)) wide (numResources wide) 2
      (replicate 257 true)).length = 256 := by
  decide +kernel

theorem numResources_wide : numResources wide = 257 := by
  rw [numResources, wide, count_replicate_self]
  rfl

theorem not_factor_wide (hk : k ≤ 256) : ¬ Factor (numResources wide) k := by
  rw [numResources_wide]
  intro h
  have hprime : Nat.Prime 257 := by norm_num
  obtain rfl | rfl := (Nat.dvd_prime hprime).1 h.dvd
  · exact absurd h.le (by decide)
  · exact absurd hk (by decide)

/-- Without the worst RBG, no number of symbols up to 255 fits; and without free RBGs the divisor is
zero. -/
theorem not_doReshapeAllocation_terminates :
    (¬ ∃ out, Returns (doReshapeAllocation lastWorse true (fun _ _ => 0) (List.replicate 257 true)
      [wide] 1 2) out) ∧ ¬ ∃ out,
        Returns (doReshapeAllocation lastWorse true (fun _ _ => 0) (List.replicate 257 false) [wide]
          1 2) out ∧ out.dividedByZero = false := by
  constructor
  · rintro ⟨out, hout⟩
    obtain ⟨fuel, hfuel⟩ := hout.exists
    have hnone : reshape lastWorse true (fun _ _ => 0) (replicate 257 true) fuel ⟨2, 1, 2, [],
      false⟩ wide = none := by
      refine reshape_none (fun k hk => ?_)
        (ne_nil_of_length_pos (length_sortedRbgs_wide ▸ Nat.succ_pos 255)) fuel
      obtain ⟨hfactor, hle⟩ := isFactor_iff.1 hk
      exact not_factor_wide (le_trans hle (Nat.le_of_eq length_sortedRbgs_wide)) hfactor
    rw [doReshapeAllocation, foldlM_cons, hnone] at hfuel
    cases hfuel
  · rintro ⟨out, hout, hflag⟩
    have hfree : freeRbgs (replicate 257 false) = [] := eq_nil_iff_forall_not_mem.2 fun i hi => by
      obtain ⟨_, hbit⟩ := List.getElem?_eq_some_iff.1 (mem_freeRbgs.1 hi)
      rw [getElem_replicate] at hbit
      cases hbit
    have hranked := rankedRbgs_perm (ueInfo true (lastWorse wide.rnti)) (replicate 257 false)
    rw [hfree, perm_nil] at hranked
    have hnil :=
      (sortedRbgs_spec (ueInfo true (lastWorse wide.rnti)) wide 2 (replicate 257 false)).1
    rw [hranked, suffix_nil] at hnil
    obtain ⟨-, k, hk, -⟩ := (foldlM_reshape_iff _ _ _ _ _ _).1 ⟨out, hout, hflag⟩
    obtain ⟨hfactor, hle⟩ := isFactor_iff.1 hk.1
    rw [hnil] at hle
    exact absurd hfactor.pos (Nat.not_lt.2 hle)

/-! ## What it preserves -/

variable {l : List Dci} {start : Nat}

/-- `r` is `dci` in other symbols and RBGs, as many in all, and the RBGs are free. -/
structure Keeps (bitmask : List Bool) (dci r : Dci) : Prop where
  resources : numResources r = numResources dci
  rbgs : ∀ i : Nat, r.rbgBitmask[i]? = some true → bitmask[i]? = some true
  others : r = { dci with symStart := r.symStart, numSym := r.numSym, rbgBitmask := r.rbgBitmask }

/-- The DCIs are one after the other, in eight bits. -/
def Consecutive : Nat → List Dci → Prop
  | _, [] => True
  | start, d :: ds => d.symStart = start ∧ Consecutive ((start + d.numSym) % 256) ds

/-- The symbols of a DCI. -/
def symbols (d : Dci) : List Nat := (List.range d.numSym).map fun j => (d.symStart + j) % 256

/-- The symbols of all DCIs. -/
def total (l : List Dci) : Nat := (l.map Dci.numSym).sum

theorem total_cons (d : Dci) (l : List Dci) : total (d :: l) = d.numSym + total l := by
  rw [total, map_cons, sum_cons]
  rfl

theorem mem_symbols_of_consecutive (h : Consecutive start l) (hd : dci ∈ l) (hm : m ∈ symbols dci) :
    ∃ j < total l, m = (start + j) % 256 := by
  induction l generalizing start with
  | nil => cases hd
  | cons d l ih =>
    obtain ⟨hstart, hrest⟩ := h
    rw [total_cons]
    rcases mem_cons.1 hd with rfl | hd
    · obtain ⟨j, hj, rfl⟩ := mem_map.1 hm
      exact ⟨j, lt_of_lt_of_le (mem_range.1 hj) (Nat.le_add_right _ _), by rw [hstart]⟩
    · obtain ⟨j, hj, rfl⟩ := ih hrest hd
      refine ⟨d.numSym + j, Nat.add_lt_add_left hj _, ?_⟩
      rw [Nat.mod_add_mod, Nat.add_assoc]

theorem Consecutive.disjoint (h : Consecutive start l) (hle : total l ≤ 256) :
    l.Pairwise fun a b => (symbols a).Disjoint (symbols b) := by
  induction l generalizing start with
  | nil => exact Pairwise.nil
  | cons d l ih =>
    obtain ⟨hstart, hrest⟩ := h
    rw [total_cons] at hle
    refine pairwise_cons.2 ⟨fun e he x hx hx' => ?_, ih hrest (by omega)⟩
    obtain ⟨i, hi, rfl⟩ := mem_map.1 hx
    obtain ⟨j, hj, heq⟩ := mem_symbols_of_consecutive hrest he hx'
    have hi := mem_range.1 hi
    rw [hstart] at heq
    omega

/-! ### One DCI -/

variable {fuel : Nat}

theorem matchResources_suffix {res : Nat × List Nat} (h : matchResources n fuel m rbgs = some res) :
    res.2 <:+ rbgs := by
  induction fuel generalizing m rbgs with
  | zero => cases h
  | succ fuel ih =>
    rw [matchResources] at h
    split at h
    · split at h
      · exact ih h
      · exact (ih h).trans (tail_suffix rbgs)
    · cases h
      exact suffix_refl _

theorem count_map_decide (hnd : rbgs.Nodup) (hlt : ∀ i ∈ rbgs, i < size) :
    ((List.range size).map fun i => decide (i ∈ rbgs)).count true = rbgs.length := by
  rw [count, countP_map, countP_eq_length_filter]
  refine Perm.length_eq ((perm_ext_iff_of_nodup (nodup_range.filter _) hnd).2 fun i => ?_)
  simp only [mem_filter, mem_range, Function.comp_apply, beq_true, decide_eq_true_eq]
  exact ⟨And.right, fun hi => ⟨hlt i hi, hi⟩⟩

theorem reshape_cases (h : reshape ues isDl undef bitmask fuel st dci = some st') :
    (∃ flag, st' = { st with dividedByZero := flag }) ∨
      ∃ flag r, Keeps bitmask dci r ∧ r.symStart = st.startingSymbol ∧
        r.numSym ≤ st.availableSymbols ∧
          st' = ⟨st.availableSymbols - r.numSym, (st.startingSymbol + r.numSym) % 256,
            (st.numSymbols + 256 - r.numSym) % 256, st.reshapedDcis ++ [r], flag⟩ := by
  obtain ⟨⟨m, rbgs⟩, hmatch, rfl⟩ := map_eq_some_iff.1 h
  by_cases hfits : m ≤ st.availableSymbols ∧ m * rbgs.length = numResources dci
  · have hsuffix := (matchResources_suffix hmatch).trans (sortedRbgs_spec _ _ _ _).1
    have hperm := rankedRbgs_perm (ueInfo isDl (ues dci.rnti)) bitmask
    have hnd : rbgs.Nodup := (hperm.nodup_iff.2 (nodup_range.filter _)).sublist hsuffix.sublist
    have hfree : ∀ i ∈ rbgs, bitmask[i]? = some true :=
      fun i hi => mem_freeRbgs.1 (hperm.mem_iff.1 (hsuffix.subset hi))
    have hcount : ((range bitmask.length).map fun i => decide (i ∈ rbgs)).count true =
      rbgs.length :=
      count_map_decide hnd fun i hi => (List.getElem?_eq_some_iff.1 (hfree i hi)).1
    refine .inr ⟨_, { dci with
      symStart := st.startingSymbol
      numSym := m
      rbgBitmask := (range bitmask.length).map fun i => decide (i ∈ rbgs) },
        ⟨?_, fun i hi => ?_, rfl⟩, rfl, hfits.1, if_pos hfits⟩
    · rw [← hfits.2, numResources]
      exact congrArg (m * ·) hcount
    · obtain ⟨i', hi', heq⟩ := getElem?_map .. ▸ hi |> map_eq_some_iff.1
      obtain ⟨hlt, hrange⟩ := List.getElem?_eq_some_iff.1 hi'
      obtain rfl : i = i' := (getElem_range hlt).symm.trans hrange
      exact hfree i (of_decide_eq_true heq)
  · exact .inl ⟨_, if_neg hfits⟩

/-! ### A run -/

/-- What a run adds to what was reshaped before. -/
structure Placed (bitmask : List Bool) (dcis : List Dci) (st : ReshapeState) (new : List Dci)
    (out : ReshapeState) : Prop where
  reshaped : out.reshapedDcis = st.reshapedDcis ++ new
  kept : ∃ l, l.Sublist dcis ∧ List.Forall₂ (Keeps bitmask) l new
  consecutive : Consecutive st.startingSymbol new
  total_le : total new ≤ st.availableSymbols
  starting : out.startingSymbol = (st.startingSymbol + total new) % 256
  num : out.numSymbols = st.numSymbols - total new

theorem foldlM_reshape_placed {out : ReshapeState} (hstart : st.startingSymbol < 256)
    (hnum : st.numSymbols < 256) (havail : st.availableSymbols = st.numSymbols)
      (h : dcis.foldlM (reshape ues isDl undef bitmask fuel) st = some out) :
    ∃ new, Placed bitmask dcis st new out := by
  induction dcis generalizing st with
  | nil =>
    cases h
    refine ⟨[], ⟨(append_nil _).symm, ⟨[], Sublist.refl _, .nil⟩, trivial, Nat.zero_le _, ?_, rfl⟩⟩
    exact (Nat.mod_eq_of_lt hstart).symm
  | cons dci dcis ih =>
    rw [foldlM_cons] at h
    obtain ⟨st', hst', hrest⟩ := bind_eq_some_iff.1 h
    rcases reshape_cases hst' with ⟨flag, rfl⟩ | ⟨flag, r, hr, hsym, hle, rfl⟩
    · obtain ⟨new, hnew⟩ : ∃ new,
        Placed bitmask dcis { st with dividedByZero := flag } new out := ih hstart hnum havail hrest
      obtain ⟨l, hl, hkept⟩ := hnew.kept
      exact ⟨new, ⟨hnew.reshaped, ⟨l, hl.cons _, hkept⟩, hnew.consecutive, hnew.total_le,
        hnew.starting, hnew.num⟩⟩
    · have hsub : (st.numSymbols + 256 - r.numSym) % 256 = st.numSymbols - r.numSym := by omega
      obtain ⟨new, hnew⟩ :=
        ih (Nat.mod_lt _ (by decide)) (Nat.mod_lt _ (by decide)) (by rw [hsub, havail]) hrest
      obtain ⟨l, hl, hkept⟩ := hnew.kept
      have htotal := hnew.total_le
      have hreshaped := hnew.reshaped
      have hstarting := hnew.starting
      have hnums := hnew.num
      dsimp only at htotal hreshaped hstarting hnums
      refine ⟨r :: new, ⟨?_, ⟨dci :: l, hl.cons_cons _, .cons hr hkept⟩, ⟨hsym, hnew.consecutive⟩,
        ?_, ?_, ?_⟩⟩
      · rw [hreshaped, append_assoc]
        rfl
      · rw [total_cons]
        omega
      · rw [hstarting, total_cons, Nat.mod_add_mod, Nat.add_assoc]
      · rw [hnums, hsub, total_cons]
        omega

/-- What is preserved. -/
structure Preserved (bitmask : List Bool) (dcis : List Dci) (startingSymbol numSymbols : Nat)
    (out : ReshapeState) : Prop where
  kept : ∃ l, l.Sublist dcis ∧ List.Forall₂ (Keeps bitmask) l out.reshapedDcis
  consecutive : Consecutive startingSymbol out.reshapedDcis
  disjoint : out.reshapedDcis.Pairwise fun a b => (symbols a).Disjoint (symbols b)
  total_le : total out.reshapedDcis ≤ numSymbols
  starting : out.startingSymbol = (startingSymbol + total out.reshapedDcis) % 256
  num : out.numSymbols = numSymbols - total out.reshapedDcis

/-- For every input, whatever the undefined values are. -/
theorem doReshapeAllocation_preserves (ues : Nat → UeMcs) (isDl : Bool) (undef : Nat → Nat → Nat)
    (bitmask : List Bool) (dcis : List Dci) {startingSymbol numSymbols : Nat}
    (hstart : startingSymbol < 256) (hnum : numSymbols < 256) {out : ReshapeState}
    (h : Returns (doReshapeAllocation ues isDl undef bitmask dcis startingSymbol numSymbols) out) :
    Preserved bitmask dcis startingSymbol numSymbols out := by
  obtain ⟨fuel, hfuel⟩ := h.exists
  obtain ⟨new, hnew⟩ := foldlM_reshape_placed hstart hnum rfl hfuel
  obtain rfl : out.reshapedDcis = new := hnew.reshaped
  have hle : total out.reshapedDcis ≤ numSymbols := hnew.total_le
  exact ⟨hnew.kept, hnew.consecutive, hnew.consecutive.disjoint (by omega), hle, hnew.starting,
    hnew.num⟩

/-- DCIs of two symbols and two RBGs, and of one symbol and three RBGs. -/
def twoDcis : List Dci :=
  [⟨1, .ul, 9, 2, 10, 1, 100, 1, 0, .data, 0, [true, true, false, false]⟩,
    ⟨2, .ul, 9, 1, 10, 1, 100, 1, 0, .data, 0, [true, true, true, false]⟩]

/-- In four symbols and a mask with a hole, they are put at the symbols 1 and 3. -/
theorem doReshapeAllocation_preserves_two :
    ∃ out, Returns (doReshapeAllocation lastWorse false (fun _ _ => 0) [true, false, true,
      true] twoDcis 1 4) out ∧
        out.reshapedDcis.map (fun d => (d.symStart, d.numSym, d.rbgBitmask)) =
          [(1, 2, [true, false, true, false]), (3, 1, [true, false, true, true])] ∧
      Preserved [true, false, true, true] twoDcis 1 4 out := by
  have hrun : Returns (doReshapeAllocation lastWorse false (fun _ _ => 0) [true, false, true,
    true] twoDcis 1 4) _ :=
    ⟨2, fun m hm => by
      obtain ⟨k, rfl⟩ := Nat.exists_eq_add_of_le' hm
      rfl⟩
  exact ⟨_, hrun, rfl, doReshapeAllocation_preserves _ _ _ _ _ (by decide) (by decide) hrun⟩

end OranNs3.Reshape
