import OranNs3.Lib.Related
import OranNs3.Ra.Model
import OranNs3.Sched.Model

/-!
# The grants for message 3

The MAC of the gNB reports the accesses of a slot to the scheduler, which keeps them in
`m_rachList`, and remembers in `m_rapIdRntiMap` the preamble of each RNTI. In a UL slot the
scheduler gives the accesses of the list symbols for message 3, and the MAC answers those that were
granted. The scheduler stops at the first access for which no symbols are left and then clears its
list.

An access takes the symbols for a block of its estimated size, in 16 bits (`msg3Need`). Granted are
those whose needs add up to the symbols of the slot (`Msg3Split`); each access is kept exactly if
none is behind them (`msg3Kept_iff`). In `rachKept_iff` this is put together with the map, whose
keys have eight bits.
-/

namespace OranNs3

open Lts List Option

/-! ## Symbols -/

namespace SchedConfig

variable (cfg : SchedConfig)

/-- `tbSizeBits` of `DoScheduleUlMsg3` after so many rounds of its loop. -/
def msg3Bits (symbols : Nat) : Nat := if symbols = 0 then 0 else cfg.msg3TbSize symbols * 8 % 2 ^ 16

/-- The symbols that an access needs, or one more than there are. -/
def msg3Need (symAvail : Nat) (req : RachReq) : Nat :=
  ((List.range (symAvail + 1)).find? fun k => req.estimatedSize ≤ cfg.msg3Bits k).getD
    (symAvail + 1)

/-- The loop over the symbols returns the first number of them whose block is large enough, or the
last one. -/
theorem msg3Symbols_spec (size : Nat) :
    ∀ (fuel k : Nat), (∀ j < k, cfg.msg3Bits j < size) →
      ∃ n, msg3Symbols cfg size fuel k (cfg.msg3Bits k) = (n, cfg.msg3Bits n) ∧ n ≤ k + fuel ∧
        (∀ j < n, cfg.msg3Bits j < size) ∧ (cfg.msg3Bits n < size → n = k + fuel)
  | 0, k, hk => ⟨k, rfl, le_rfl, hk, fun _ => rfl⟩
  | fuel + 1, k, hk => by
    rw [msg3Symbols]
    split
    · next hlt =>
      have hk' : ∀ j < k + 1, cfg.msg3Bits j < size := by
        intro j hj
        rcases Nat.lt_succ_iff_lt_or_eq.1 hj with hj | rfl
        · exact hk j hj
        · exact hlt
      obtain ⟨n, heq, hle, hlow, hlast⟩ := msg3Symbols_spec size fuel (k + 1) hk'
      refine ⟨n, heq, by omega, hlow, fun h => ?_⟩
      rw [hlast h]
      omega
    · next hge => exact ⟨k, rfl, by omega, hk, fun h => absurd h hge⟩

variable {cfg}

theorem msg3Need_eq {cap n : Nat} {req : RachReq} (hn : n ≤ cap)
    (hlow : ∀ j < n, cfg.msg3Bits j < req.estimatedSize)
    (hsize : req.estimatedSize ≤ cfg.msg3Bits n) : cfg.msg3Need cap req = n := by
  have hfind : (List.range (cap + 1)).find? (fun k => req.estimatedSize ≤ cfg.msg3Bits k) =
    some n := by
    rw [find?_range_eq_some]
    refine ⟨by simpa using hsize, by simpa using Nat.lt_succ_of_le hn, fun j hj => ?_⟩
    simpa using hlow j hj
  rw [msg3Need, hfind]
  rfl

theorem lt_msg3Need {cap n : Nat} {req : RachReq} (hn : n ≤ cap)
    (hlow : ∀ j ≤ n, cfg.msg3Bits j < req.estimatedSize) : n < cfg.msg3Need cap req := by
  rw [msg3Need]
  cases hfind : (List.range (cap + 1)).find? (fun k => req.estimatedSize ≤ cfg.msg3Bits k) with
  | none => exact Nat.lt_succ_of_le hn
  | some m =>
    have hm : req.estimatedSize ≤ cfg.msg3Bits m := by simpa using find?_some hfind
    by_contra hle
    exact absurd (hlow m (Nat.le_of_not_lt hle)) (by omega)

end SchedConfig

open SchedConfig

/-! ## One list of accesses -/

/-- The longest part of a list, from its start, for whose needs there are symbols, and the rest. -/
structure Msg3Split (cfg : SchedConfig) (cap symAvail : Nat) (fit rest : List RachReq) : Prop where
  fits : (fit.map (cfg.msg3Need cap)).sum ≤ symAvail
  next : ∀ req ∈ rest.head?, symAvail < (fit.map (cfg.msg3Need cap)).sum + cfg.msg3Need cap req

/-- The allocation of a grant: for the RNTI of the access, a block of the bits of its symbols. -/
def IsGrant (cfg : SchedConfig) (cap : Nat) (req : RachReq) (i : VarTtiAllocInfo) : Prop :=
  i.dci.rnti = req.rnti ∧ 8 * i.dci.tbSize = cfg.msg3Bits (cfg.msg3Need cap req) ∧
    req.estimatedSize ≤ cfg.msg3Bits (cfg.msg3Need cap req)

/-- The accesses that are granted, in front of what was allocated before. -/
theorem doScheduleUlMsg3_spec (cfg : SchedConfig) (cap : Nat) :
    ∀ (reqs : List RachReq) (sym symAvail : Nat) (allocs : List VarTtiAllocInfo), symAvail ≤ cap →
      ∃ fit rest new, reqs = fit ++ rest ∧ Msg3Split cfg cap symAvail fit rest ∧
        (doScheduleUlMsg3 cfg reqs sym symAvail allocs).1 = new ++ allocs ∧
        Forall₂ (IsGrant cfg cap) fit new.reverse
  | [], sym, symAvail, allocs, _ => ⟨[], [], [], rfl, ⟨Nat.zero_le _, by simp⟩, rfl, .nil⟩
  | req :: reqs, sym, symAvail, allocs, hcap => by
    obtain ⟨n, heq, hle, hlow, hlast⟩ :=
      cfg.msg3Symbols_spec req.estimatedSize symAvail 0 (fun j hj => absurd hj (Nat.not_lt_zero j))
    have heq' : msg3Symbols cfg req.estimatedSize symAvail 0 0 = (n, cfg.msg3Bits n) := heq
    rw [doScheduleUlMsg3, heq']
    by_cases hlt : cfg.msg3Bits n < req.estimatedSize
    · -- no number of symbols is enough
      have hall : ∀ j ≤ symAvail, cfg.msg3Bits j < req.estimatedSize := by
        intro j hj
        have hn := hlast hlt
        rcases Nat.lt_or_ge j n with hj' | hj'
        · exact hlow j hj'
        · rwa [show j = n by omega]
      refine ⟨[], req :: reqs, [], rfl, ⟨Nat.zero_le _, fun x hx => ?_⟩, ?_, .nil⟩
      · cases hx
        simpa using lt_msg3Need hcap hall
      · simp [hlt]
    · have hsize : req.estimatedSize ≤ cfg.msg3Bits n := Nat.le_of_not_lt hlt
      have hneed : cfg.msg3Need cap req = n := msg3Need_eq (by omega) hlow hsize
      have hmod : 8 ∣ cfg.msg3Bits n := by
        unfold msg3Bits
        split <;> omega
      simp only [hlt, if_false]
      generalize hi : VarTtiAllocInfo.mk _ [] = i
      have hgrant : IsGrant cfg cap req i := by
        rw [← hi]
        refine ⟨rfl, ?_, ?_⟩
        · rw [hneed]
          exact Nat.mul_div_cancel' hmod
        · rwa [hneed]
      obtain ⟨fit, rest, new, hreqs, hsplit, hnew, hgrants⟩ :=
        doScheduleUlMsg3_spec cfg cap reqs ((sym + 256 - n) % 256) (symAvail - n) (i :: allocs)
          (by omega)
      refine ⟨req :: fit, rest, new ++ [i], by rw [hreqs]; rfl, ⟨?_, fun x hx => ?_⟩, ?_, ?_⟩
      · have := hsplit.fits
        rw [map_cons, sum_cons, hneed]
        omega
      · have := hsplit.next x hx
        rw [map_cons, sum_cons, hneed]
        omega
      · rw [hnew, append_assoc]
        rfl
      · rw [reverse_append]
        exact .cons hgrant hgrants

/-- Each access of a list has exactly one of the allocations, with a block of its estimated size, or
is still in the list afterwards. -/
def Msg3Kept (reqs : List RachReq) (allocs : List VarTtiAllocInfo) (left : List RachReq) : Prop :=
  ∀ req ∈ reqs, (∃ i, allocs.filter (fun i => i.dci.rnti == req.rnti) = [i] ∧
    req.estimatedSize ≤ 8 * i.dci.tbSize) ∨ req ∈ left

/-- The accesses for which there are symbols have different RNTIs, and any other one has the RNTI of
one of them, whose block is enough for it. -/
def Msg3Fits (cfg : SchedConfig) (symAvail : Nat) (reqs : List RachReq) : Prop :=
  ∃ fit rest, reqs = fit ++ rest ∧ Msg3Split cfg symAvail symAvail fit rest ∧
    (fit.map RachReq.rnti).Nodup ∧
    ∀ req ∈ rest, ∃ x ∈ fit, x.rnti = req.rnti ∧
      req.estimatedSize ≤ cfg.msg3Bits (cfg.msg3Need symAvail x)

variable {cfg : SchedConfig}

theorem Msg3Split.not_append {cap symAvail : Nat} {fit rest rest' l : List RachReq}
    (h : Msg3Split cfg cap symAvail fit (l ++ rest))
    (h' : Msg3Split cfg cap symAvail (fit ++ l) rest') : l = [] := by
  cases l with
  | nil => rfl
  | cons req l =>
    have hnext := h.next req rfl
    have hfits := h'.fits
    rw [map_append, sum_append, map_cons, sum_cons] at hfits
    omega

theorem Msg3Split.unique {cap symAvail : Nat} {fit rest fit' rest' : List RachReq}
    (h : Msg3Split cfg cap symAvail fit rest) (h' : Msg3Split cfg cap symAvail fit' rest')
    (heq : fit ++ rest = fit' ++ rest') : fit = fit' ∧ rest = rest' := by
  rcases append_eq_append_iff.1 heq with ⟨l, rfl, rfl⟩ | ⟨l, rfl, rfl⟩
  · obtain rfl := h.not_append h'
    simp
  · obtain rfl := h'.not_append h
    simp

/-- What one call keeps: the list is cleared, so everything must fit. -/
theorem msg3Kept_iff (cfg : SchedConfig) (reqs : List RachReq) (sym symAvail : Nat) :
    Msg3Kept reqs (doScheduleUlMsg3 cfg reqs sym symAvail []).1 [] ↔
      Msg3Fits cfg symAvail reqs := by
  obtain ⟨fit, rest, new, rfl, hsplit, hnew, hgrants⟩ :=
    doScheduleUlMsg3_spec cfg symAvail reqs sym symAvail [] le_rfl
  rw [hnew, append_nil]
  have hrntis : new.reverse.map (fun i => i.dci.rnti) = fit.map RachReq.rnti :=
    Related.map_eq (hgrants.imp fun _ _ h => h.1)
  have hcount : ∀ rnti, (new.filter fun i => i.dci.rnti == rnti).length =
      (fit.map RachReq.rnti).count rnti := by
    intro rnti
    rw [← hrntis, map_reverse, count_reverse, List.count, countP_map, countP_eq_length_filter]
    rfl
  -- the access of an allocation
  have hsource : ∀ i ∈ new, ∃ x ∈ fit, IsGrant cfg symAvail x i := fun i hi =>
    Related.exists_mem hgrants.flip (mem_reverse.2 hi)
  constructor
  · intro h
    have hone : ∀ req ∈ fit ++ rest, ∃ i, new.filter (fun i => i.dci.rnti == req.rnti) = [i] ∧
        req.estimatedSize ≤ 8 * i.dci.tbSize := fun req hreq =>
      (h req hreq).resolve_right (not_mem_nil)
    refine ⟨fit, rest, rfl, hsplit, nodup_iff_count_eq_one.2 fun rnti hrnti => ?_,
      fun req hreq => ?_⟩
    · obtain ⟨req, hreq, rfl⟩ := mem_map.1 hrnti
      obtain ⟨i, hi, -⟩ := hone req (mem_append_left _ hreq)
      rw [← hcount, hi]
      rfl
    · obtain ⟨i, hi, hsize⟩ := hone req (mem_append_right _ hreq)
      have hmem : i ∈ new.filter fun i => i.dci.rnti == req.rnti := by simp [hi]
      obtain ⟨hmem, hrnti⟩ := mem_filter.1 hmem
      obtain ⟨x, hx, hxi⟩ := hsource i hmem
      refine ⟨x, hx, ?_, ?_⟩
      · rw [← hxi.1]
        simpa using hrnti
      · rwa [← hxi.2.1]
  · rintro ⟨fit', rest', heq, hsplit', hnodup, hrest⟩ req hreq
    obtain ⟨rfl, rfl⟩ := hsplit.unique hsplit' heq
    have hx : ∃ x ∈ fit, x.rnti = req.rnti ∧
        req.estimatedSize ≤ cfg.msg3Bits (cfg.msg3Need symAvail x) := by
      rcases mem_append.1 hreq with hreq | hreq
      · obtain ⟨i, -, hi⟩ := Related.exists_mem hgrants hreq
        exact ⟨req, hreq, rfl, hi.2.2⟩
      · exact hrest req hreq
    obtain ⟨x, hx, hrnti, hsize⟩ := hx
    have hlen : (new.filter fun i => i.dci.rnti == req.rnti).length = 1 := by
      rw [hcount, ← hrnti]
      exact count_eq_one_of_mem hnodup (mem_map_of_mem hx)
    obtain ⟨i, hi⟩ := length_eq_one_iff.1 hlen
    refine .inl ⟨i, hi, ?_⟩
    have hmem : i ∈ new.filter fun i => i.dci.rnti == req.rnti := by simp [hi]
    obtain ⟨hmem, hirnti⟩ := mem_filter.1 hmem
    obtain ⟨y, hy, hyi⟩ := hsource i hmem
    have hyx : y = x := by
      refine inj_on_of_nodup_map hnodup hy hx ?_
      rw [← hyi.1, hrnti]
      simpa using hirnti
    rwa [hyi.2.1, hyx]

theorem msg3Fits_iff {symAvail : Nat} {reqs : List RachReq}
    (hnodup : (reqs.map RachReq.rnti).Nodup) :
    Msg3Fits cfg symAvail reqs ↔ (reqs.map (cfg.msg3Need symAvail)).sum ≤ symAvail := by
  constructor
  · rintro ⟨fit, rest, rfl, hsplit, -, hrest⟩
    cases rest with
    | nil => simpa using hsplit.fits
    | cons req rest =>
      obtain ⟨x, hx, hrnti, -⟩ := hrest req mem_cons_self
      rw [map_append, nodup_append] at hnodup
      exact absurd hrnti (hnodup.2.2 _ (mem_map_of_mem hx) _ (mem_map_of_mem mem_cons_self))
  · intro h
    exact ⟨reqs, [], by simp, ⟨h, by simp⟩, hnodup, by simp⟩

/-! ## The list and the map -/

/-- An element of `m_rachList`, with the preamble that it answers, which the scheduler does not see.
-/
structure RachAccess where
  req : RachReq
  raPreambleId : Nat
deriving DecidableEq

/-- `m_rapIdRntiMap` of the MAC, whose keys are RNTIs in an 8-bit integer, and `m_rachList` of its
scheduler. -/
structure Msg3State where
  rapIdRntiMap : List (Nat × Nat)
  rachList : List RachAccess
deriving DecidableEq

/-- What happens to them: the MAC processes the preambles that it received, or the scheduler a slot
with so many symbols before a symbol. -/
inductive Msg3Action
  | processRaPreambles (rars : List Rar)
  | ulSlot (sym symAvail : Nat)

namespace Msg3State

variable (s : Msg3State)

/-- `ProcessRaPreambles` for the preambles that it answers, with
`DoSchedDlRachInfoReq` of the scheduler, which replaces its list. -/
def processRaPreambles (rars : List Rar) : Msg3State where
  rapIdRntiMap := rars.foldl GnbMac.insertRapId s.rapIdRntiMap
  rachList := rars.map fun x => ⟨⟨x.rnti, 144⟩, x.raPreambleId⟩

/-- `DoScheduleUlMsg3`: the allocations that it adds. -/
def scheduleUlMsg3 (cfg : SchedConfig) (s : Msg3State) (sym symAvail : Nat) :
    List VarTtiAllocInfo × Msg3State :=
  ((doScheduleUlMsg3 cfg (s.rachList.map RachAccess.req) sym symAvail []).1,
    { s with rachList := [] })

/-- `DoBuildRarList`, which aborts where an RNTI is not in the map, and clears the
map where it answers. -/
def buildRarList (allocs : List VarTtiAllocInfo) : Option (Msg3State × List Rar) := do
  let rars ← allocs.mapM fun i =>
    (s.rapIdRntiMap.lookup (i.dci.rnti % 256)).map fun id => Rar.mk id i.dci.rnti
  some (if rars.isEmpty then s else { s with rapIdRntiMap := [] }, rars)

/-- One step; `none` where the program stops. -/
def step? (cfg : SchedConfig) (s : Msg3State) : Msg3Action → Option Msg3State
  | .processRaPreambles rars => some (s.processRaPreambles rars)
  | .ulSlot sym symAvail =>
    let (allocs, s) := s.scheduleUlMsg3 cfg sym symAvail
    (s.buildRarList allocs).map Prod.fst

/-- The map has the preamble of every RNTI of the list. -/
def Entries : Prop :=
  ∀ x ∈ s.rachList, s.rapIdRntiMap.lookup (x.req.rnti % 256) = some x.raPreambleId

/-- What a step keeps: the accesses of the list, and then the entries of the map. -/
def Kept (cfg : SchedConfig) (s : Msg3State) (a : Msg3Action) : Prop :=
  (match a with
  | .processRaPreambles _ => True
  | .ulSlot sym symAvail =>
    let r := s.scheduleUlMsg3 cfg sym symAvail
    Msg3Kept (s.rachList.map RachAccess.req) r.1 (r.2.rachList.map RachAccess.req)) ∧
  ∀ t, s.step? cfg a = some t → t.Entries

/-- When it does: there are symbols for the accesses, and no key of the map stands for two
preambles. -/
def Fits (cfg : SchedConfig) (s : Msg3State) : Msg3Action → Prop
  | .processRaPreambles rars => ∀ x ∈ rars,
    (∀ id, s.rapIdRntiMap.lookup (x.rnti % 256) = some id → id = x.raPreambleId) ∧
      ∀ y ∈ rars, y.rnti % 256 = x.rnti % 256 → y.raPreambleId = x.raPreambleId
  | .ulSlot _ symAvail => Msg3Fits cfg symAvail (s.rachList.map RachAccess.req)

theorem entries_processRaPreambles (rars : List Rar) :
    (s.processRaPreambles rars).Entries ↔ ∀ x ∈ rars,
      (∀ id, s.rapIdRntiMap.lookup (x.rnti % 256) = some id → id = x.raPreambleId) ∧
        ∀ y ∈ rars, y.rnti % 256 = x.rnti % 256 → y.raPreambleId = x.raPreambleId := by
  have hentry : (s.processRaPreambles rars).Entries ↔ ∀ x ∈ rars,
      (s.rapIdRntiMap.lookup (x.rnti % 256)).or
        ((rars.find? fun y => y.rnti % 256 == x.rnti % 256).map Rar.raPreambleId) =
        some x.raPreambleId := by
    simp [Entries, processRaPreambles, GnbMac.lookup_foldl_insertRapId]
  rw [hentry]
  constructor
  · intro h x hx
    refine ⟨fun id hid => ?_, fun y hy hkey => ?_⟩
    · have hx := h x hx
      rw [hid] at hx
      exact some.inj hx
    · have hy := h y hy
      rw [hkey, h x hx] at hy
      exact (some.inj hy).symm
  · intro h x hx
    obtain ⟨hold, hnew⟩ := h x hx
    cases hlookup : s.rapIdRntiMap.lookup (x.rnti % 256) with
    | some id => rw [hold id hlookup, some_or]
    | none =>
      cases hfind : rars.find? fun y => y.rnti % 256 == x.rnti % 256 with
      | none => simpa using find?_eq_none.1 hfind x hx
      | some y =>
        have hkey : y.rnti % 256 = x.rnti % 256 := by simpa using find?_some hfind
        rw [none_or, map_some, hnew y (mem_of_find?_eq_some hfind) hkey]

theorem entries_of_ulSlot {s t : Msg3State} {sym symAvail : Nat}
    (h : s.step? cfg (.ulSlot sym symAvail) = some t) : t.Entries := by
  obtain ⟨⟨t', rars⟩, hbuild, rfl⟩ := map_eq_some_iff.1 h
  obtain ⟨rars', -, heq⟩ := bind_eq_some_iff.1 hbuild
  cases heq
  intro x hx
  dsimp only at hx
  split at hx <;> cases hx

theorem kept_iff (cfg : SchedConfig) (s : Msg3State) (a : Msg3Action) :
    s.Kept cfg a ↔ s.Fits cfg a := by
  cases a with
  | processRaPreambles rars =>
    refine Iff.trans ?_ (entries_processRaPreambles s rars)
    constructor
    · intro h
      exact h.2 _ rfl
    · intro h
      refine ⟨trivial, fun t ht => ?_⟩
      cases ht
      exact h
  | ulSlot sym symAvail =>
    refine Iff.trans ?_ (msg3Kept_iff cfg (s.rachList.map RachAccess.req) sym symAvail)
    constructor
    · intro h
      exact h.1
    · intro h
      exact ⟨h, fun t ht => entries_of_ulSlot ht⟩

/-- No access is lost, from any list and any map on, exactly along the executions whose steps fit.
-/
theorem accesses_kept_iff (cfg : SchedConfig) (s : Msg3State) (acts : List Msg3Action) :
    s.Entries ∧ Along (step? cfg) (Kept cfg) s acts ↔ s.Entries ∧
      Along (step? cfg) (Fits cfg) s acts :=
  and_congr_right (along_iff (fun _ hkept ht => hkept.2 _ ht) fun _ => kept_iff cfg _ _)

/-- Two accesses with blocks of two symbols each, in a slot with two: the second one is forgotten.
-/
theorem second_access_forgotten :
    ¬∀ (cfg : SchedConfig) (acts : List Msg3Action),
      Along (step? cfg) (Kept cfg) ⟨[], []⟩ acts := by
  intro h
  obtain ⟨-, h⟩ := h .small [.processRaPreambles [⟨0, 1⟩, ⟨1, 2⟩], .ulSlot 13 2]
  obtain ⟨⟨hkept, -⟩, -⟩ := h _ rfl
  have hfits := (msg3Fits_iff (by decide)).1 ((msg3Kept_iff .small _ 13 2).1 hkept)
  exact absurd hfits (by decide)

end Msg3State

end OranNs3
