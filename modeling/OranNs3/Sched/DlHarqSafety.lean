import Mathlib.Data.List.MinMax
import OranNs3.Sched.DlHarqSteps

/-!
# The resources of the DL retransmissions

`ScheduleDlHarq` places the DCIs of a beam, and after a beam with symbols left it moves on behind
them. Without consolidation each DCI has already taken its symbols from those that are left,
although the DCIs of a beam start together, and the symbols of the beam are taken once more, in
eight bits, where the difference may wrap. So the DCIs stay within the symbols that are available,
and apart from each other, exactly where in each beam that is reached the longest DCI is not longer
than what is left after all of them (`Within`, `scheduleDlHarq_safe_iff`). With consolidation they
always do.
-/

namespace OranNs3

open Fallible Packing List Lts

variable {cfg : SchedConfig} {inp : DlTrigger} {fs : List HarqInfo} {st st' t : DlHarqState}
  {r : Reshaped} {i : Nat × Nat} {ues0 ues : List UeInfo} {procs : List (Nat × Nat)} {dci : Dci}
  {dcis : List Dci} {cur : List VarTtiAllocInfo}

/-! ## The processes of a beam -/

/-- The DCI of a process. -/
def dciAt (ues : List UeInfo) (i : Nat × Nat) : Option Dci :=
  (procAt .dl ues i).join.map fun p => p.dci

/-- What the processes of a beam have done, with the DCIs `dcis`: `cur` is allocated. -/
structure BeamRun (cfg : SchedConfig) (inp : DlTrigger) (dcis : List Dci) (st t : DlHarqState)
    (cur : List VarTtiAllocInfo) : Prop where
  allocs : t.allocs = st.allocs ++ cur
  start : st.startingSymbol ≤ t.startingSymbol
  avail : t.symAvail ≤ st.symAvail
  budget : t.startingSymbol + t.symAvail ≤ st.startingSymbol + st.symAvail
  bitmask : t.bitmask.length = st.bitmask.length
  inside : ∀ a ∈ cur, st.startingSymbol ≤ a.dci.symStart ∧
    a.dci.symStart + a.dci.numSym ≤ st.startingSymbol + st.symAvail
  after : cfg.consolidateHarqRetx = true → ∀ a ∈ cur,
    a.dci.symStart + a.dci.numSym ≤ t.startingSymbol
  beside : cfg.consolidateHarqRetx = false → t.startingSymbol = st.startingSymbol ∧ ∀ a ∈ cur,
    a.dci.symStart = st.startingSymbol
  counted : cfg.consolidateHarqRetx = false →
    cur.map (fun a => a.dci.numSym) =
      (placed cfg inp st.allocatedUe st.symAvail st.bitmask dcis).map Dci.numSym ∧
      t.symAvail + (cur.map fun a => a.dci.numSym).sum = st.symAvail
  packed : ∀ old, Packed old st.startingSymbol (rbgsOf st.bitmask) →
    (cfg.consolidateHarqRetx = true → ∀ b ∈ old, b.last ≤ st.startingSymbol) →
    Packed (old ++ cur.map fun a => a.dci.block cfg.dlBitmask.length) t.startingSymbol
      (rbgsOf t.bitmask)

theorem BeamRun.nil : BeamRun cfg inp [] st st [] where
  allocs := (append_nil _).symm
  start := Nat.le_refl _
  avail := Nat.le_refl _
  budget := Nat.le_refl _
  bitmask := rfl
  inside := nofun
  after := fun _ => nofun
  beside := fun _ => ⟨rfl, nofun⟩
  counted := fun _ => ⟨rfl, rfl⟩
  packed := by
    intro old hold _
    simpa using hold

theorem BeamRun.buffered (hst : Buffered st st' i) (hnone : placeDci cfg inp st dci = none)
    (h : BeamRun cfg inp dcis st' t cur) : BeamRun cfg inp (dci :: dcis) st t cur := by
  obtain ⟨q, toRetransmit, _, rfl⟩ := hst
  refine { h with counted := ?_ }
  intro hown
  rw [placeDci_own hown, Option.map_eq_none_iff] at hnone
  rw [placed, hnone]
  exact h.counted hown

theorem Place.packed {old : List (Block Nat Nat)} (h : Place cfg st r)
    (hmask : st.bitmask.length = cfg.dlBitmask.length)
    (hold : Packed old st.startingSymbol (rbgsOf st.bitmask))
    (hlevel : cfg.consolidateHarqRetx = true → ∀ b ∈ old, b.last ≤ st.startingSymbol) :
    Packed (old ++ [(r.retx dci).block cfg.dlBitmask.length]) r.startingSymbol (rbgsOf r.bitmask) ∧
      (cfg.consolidateHarqRetx = true → ∀ b ∈ old ++ [(r.retx dci).block cfg.dlBitmask.length],
        b.last ≤ r.startingSymbol) := by
  have hfirst : st.startingSymbol ≤ ((r.retx dci).block cfg.dlBitmask.length).first :=
    Nat.le_of_eq h.symStart.symm
  cases hmode : cfg.consolidateHarqRetx with
  | true =>
    -- all that was placed ends here, and the DCI ends where the next one starts
    have hnext := (h.after hmode).1
    have hlast : ∀ b ∈ old ++ [(r.retx dci).block cfg.dlBitmask.length],
      b.last ≤ r.startingSymbol := by
      intro b hb
      rcases mem_append.1 hb with hb | hb
      · exact Nat.le_trans (hlevel hmode b hb) (hnext ▸ Nat.le_add_right _ _)
      · rw [mem_singleton.1 hb, hnext, ← h.symStart]
        exact Nat.le_refl _
    have hclear : Packed old st.startingSymbol Set.univ := hold.advance (hlevel hmode)
    have hplaced : Packed (old ++ [(r.retx dci).block cfg.dlBitmask.length]) st.startingSymbol ∅ :=
      hclear.place hfirst (Set.subset_univ _) (Set.empty_subset _)
    exact ⟨hplaced.advance hlast, fun _ => hlast⟩
  | false =>
    obtain ⟨hsame, htake⟩ := h.beside hmode
    obtain ⟨_, hsub, hleft⟩ := takeRbgs_some htake
    rw [hsame]
    refine ⟨hold.place hfirst (fun i hi => ?_) fun i hi => ?_, nofun⟩
    · exact hsub i (hmask ▸ hi.1) hi.2
    · obtain ⟨hfree, hnot⟩ := hleft i hi
      exact ⟨hfree, fun hmem => hnot hmem.2⟩

/-- A process whose DCI is placed, before the others. -/
theorem BeamRun.allocated (hst : Allocated st st' i dci r) (hr : placeDci cfg inp st dci = some r)
    (hplace : Place cfg st r) (hmask : st.bitmask.length = cfg.dlBitmask.length)
    (h : BeamRun cfg inp dcis st' t cur) :
    ∃ pdus, BeamRun cfg inp (dci :: dcis) st t (⟨r.retx dci, pdus⟩ :: cur) := by
  obtain ⟨q, pdus, _, rfl⟩ := hst
  refine ⟨pdus, ?_⟩
  have hfirst : (r.retx dci).symStart = st.startingSymbol := hplace.symStart
  have hle : (r.retx dci).numSym ≤ st.symAvail := hplace.numSym
  have havail : r.symAvail = st.symAvail - (r.retx dci).numSym := hplace.symAvail
  have hmode : r.startingSymbol = st.startingSymbol ∨
    r.startingSymbol = st.startingSymbol + (r.retx dci).numSym := by
    cases hcons : cfg.consolidateHarqRetx with
    | true => exact .inr (hplace.after hcons).1
    | false => exact .inl (hplace.beside hcons).1
  have hstart := h.start
  have hbudget := h.budget
  have hav := h.avail
  dsimp only at hstart hbudget hav
  constructor
  · rw [h.allocs, append_assoc]
    rfl
  · omega
  · omega
  · omega
  · exact h.bitmask.trans hplace.length_bitmask
  · refine forall_mem_cons.2 ⟨?_, fun a ha => ?_⟩
    · dsimp only
      omega
    · have hin := h.inside a ha
      dsimp only at hin
      omega
  · intro hcons
    refine forall_mem_cons.2 ⟨?_, h.after hcons⟩
    rw [hfirst, ← (show r.startingSymbol =
      st.startingSymbol + (r.retx dci).numSym from (hplace.after hcons).1)]
    exact hstart
  · intro hown
    have hsame := (hplace.beside hown).1
    obtain ⟨hlast, hall⟩ := h.beside hown
    dsimp only at hlast hall
    rw [hsame] at hlast hall
    exact ⟨hlast, forall_mem_cons.2 ⟨hfirst, hall⟩⟩
  · intro hown
    obtain ⟨hcur, hsum⟩ := h.counted hown
    obtain ⟨hfree, hnum⟩ := freeFor_of_placeDci hown hr
    have hown' : (r.retx dci).numSym = dci.numSym := hnum
    dsimp only at hcur hsum
    rw [havail, hown'] at hcur hsum
    rw [hown'] at hle
    rw [placed, hfree, map_cons, map_cons, sum_cons, hown', hcur]
    rw [hcur] at hsum
    refine ⟨rfl, ?_⟩
    omega
  · intro old hold hlevel
    obtain ⟨hnext, hlast⟩ := hplace.packed hmask hold hlevel
    have hrest := h.packed _ hnext hlast
    rwa [append_assoc] at hrest

theorem beamRun_of_run (hreshape : Reshapes cfg inp) (hfit : st.startingSymbol + st.symAvail < 256)
    (hpend : Pending ues0 st.ues) (hmask : st.bitmask.length = cfg.dlBitmask.length)
    (h : procs.foldlM (scheduleDlProcess cfg inp fs) st = .ok t) :
    (∃ cur, BeamRun cfg inp (procs.filterMap (dciAt ues0)) st t cur) ∧ Pending ues0 t.ues := by
  induction procs generalizing st with
  | nil =>
    cases h
    exact ⟨⟨[], .nil⟩, hpend⟩
  | cons i procs ih =>
    obtain ⟨st', hst', h⟩ := ok_of_bind h
    have hfit' := Nat.lt_of_le_of_lt (symAvail_le_of_process hreshape hfit hst').1 hfit
    have hpend' := hpend.step hst'
    obtain ⟨p, hp, hs, hcases⟩ := scheduleDlProcess_cases hst'
    have hdci : dciAt ues0 i = some p.dci := by
      rw [dciAt, hpend i p hp hs]
      rfl
    rw [filterMap_cons_some hdci]
    rcases hcases with ⟨hnone, hbuf⟩ | ⟨r, hr, halloc⟩
    · have hmask' : st'.bitmask.length = cfg.dlBitmask.length := by
        obtain ⟨q, _, _, rfl⟩ := hbuf
        exact hmask
      obtain ⟨⟨cur, hrun⟩, hlast⟩ := ih hfit' hpend' hmask' h
      exact ⟨⟨cur, hrun.buffered hbuf hnone⟩, hlast⟩
    · have hplace := place_of_placeDci hreshape hfit hr
      have hmask' : st'.bitmask.length = cfg.dlBitmask.length := by
        obtain ⟨q, _, _, rfl⟩ := halloc
        exact hplace.length_bitmask.trans hmask
      obtain ⟨⟨cur, hrun⟩, hlast⟩ := ih hfit' hpend' hmask' h
      obtain ⟨pdus, hrun⟩ := hrun.allocated halloc hr hplace hmask
      exact ⟨⟨_, hrun⟩, hlast⟩

/-! ## The symbols of a beam -/

theorem foldl_greatest {α β : Type*} [LinearOrder β] (f : α → β) (l : List α) (s : β) :
    let greatest := l.foldl (fun s a => if s < f a then f a else s) s
    s ≤ greatest ∧ (∀ a ∈ l, f a ≤ greatest) ∧ (greatest = s ∨ ∃ a ∈ l, greatest = f a) := by
  induction l generalizing s with
  | nil => exact ⟨le_refl _, nofun, .inl rfl⟩
  | cons a l ih =>
    obtain ⟨hle, hall, heq⟩ := ih (if s < f a then f a else s)
    rw [foldl_cons]
    generalize l.foldl _ _ = greatest at hle hall heq ⊢
    split at hle
    next hlt =>
      rw [if_pos hlt] at heq
      refine ⟨hlt.le.trans hle, forall_mem_cons.2 ⟨hle, hall⟩, .inr ?_⟩
      rcases heq with heq | ⟨b, hb, heq⟩
      · exact ⟨a, mem_cons_self, heq⟩
      · exact ⟨b, mem_cons_of_mem _ hb, heq⟩
    next hge =>
      rw [if_neg hge] at heq
      refine ⟨hle, forall_mem_cons.2 ⟨(not_lt.1 hge).trans hle, hall⟩, ?_⟩
      exact heq.imp_right fun ⟨b, hb, heq⟩ => ⟨b, mem_cons_of_mem _ hb, heq⟩

theorem foldl_smallest {α : Type*} (f : α → Nat) (l : List α) (s : Nat) :
    let smallest := l.foldl (fun s a => if f a < s then f a else s) s
    smallest ≤ s ∧ (∀ a ∈ l, smallest ≤ f a) ∧ (smallest = s ∨ ∃ a ∈ l, smallest = f a) :=
  foldl_greatest (β := Natᵒᵈ) f l s

variable {l : List VarTtiAllocInfo}

/-- The symbols from the first to the last one of the DCIs. -/
theorem countUsedSymbols_spec {start used : Nat}
    (hlast : ∀ a ∈ l, a.dci.symStart + a.dci.numSym < 256)
    (hstart : ∀ a ∈ l, start ≤ a.dci.symStart) (h : countUsedSymbols start l = .ok used) :
    l = [] ∧ used = 0 ∨ ∃ a ∈ l, ∃ b ∈ l, (∀ c ∈ l, a.dci.symStart ≤ c.dci.symStart) ∧
      (∀ c ∈ l, c.dci.symStart + c.dci.numSym ≤ b.dci.symStart + b.dci.numSym) ∧
      used = b.dci.symStart + b.dci.numSym - a.dci.symStart := by
  unfold countUsedSymbols at h
  split at h
  next hnil =>
    cases h
    exact .inl ⟨List.isEmpty_iff.1 hnil, rfl⟩
  next hne =>
    obtain ⟨_, hsmall, hatstart⟩ := foldl_smallest (fun a : VarTtiAllocInfo => a.dci.symStart) l 255
    obtain ⟨hstartle, hlarge, hatlast⟩ :=
      foldl_greatest (fun a : VarTtiAllocInfo => a.dci.symStart + a.dci.numSym) l start
    have hmod : l.foldl (fun l a =>
      if l < a.dci.symStart + a.dci.numSym then (a.dci.symStart + a.dci.numSym) % 256 else l)
        start = l.foldl (fun l a =>
        if l < a.dci.symStart + a.dci.numSym then a.dci.symStart + a.dci.numSym else l) start := by
      refine foldl_ext _ _ _ fun s a ha => ?_
      rw [Nat.mod_eq_of_lt (hlast a ha)]
    dsimp only at h
    rw [hmod] at h
    generalize l.foldl (fun s a => if a.dci.symStart < s then a.dci.symStart else s) 255 =
      smallest at h hsmall hatstart
    generalize l.foldl (fun l a =>
      if l < a.dci.symStart + a.dci.numSym then a.dci.symStart + a.dci.numSym else l) start =
        largest
      at h hstartle hlarge hatlast
    split at h
    · cases h
    next hfirst =>
      obtain ⟨a, ha, rfl⟩ := hatstart.resolve_left hfirst
      -- where all DCIs are empty at `start`, the first one is also the last one
      have hlastOne : ∃ b ∈ l, largest = b.dci.symStart + b.dci.numSym := by
        rcases hatlast with rfl | hb
        · refine ⟨a, ha, Nat.le_antisymm ?_ (hlarge a ha)⟩
          exact Nat.le_trans (hstart a ha) (Nat.le_add_right _ _)
        · exact hb
      obtain ⟨b, hb, rfl⟩ := hlastOne
      have hab := hsmall b hb
      have hb256 := hlast b hb
      cases h
      exact .inr ⟨a, ha, b, hb, hsmall, hlarge, by omega⟩

theorem countUsedSymbols_le {start symAvail used : Nat} (hslot : start + symAvail < 256)
    (hinside : ∀ a ∈ l, start ≤ a.dci.symStart ∧ a.dci.symStart + a.dci.numSym ≤ start + symAvail)
    (h : countUsedSymbols start l = .ok used) : used ≤ symAvail := by
  have hlast : ∀ a ∈ l, a.dci.symStart + a.dci.numSym < 256 :=
    fun a ha => Nat.lt_of_le_of_lt (hinside a ha).2 hslot
  rcases countUsedSymbols_spec hlast (fun a ha => (hinside a ha).1) h with ⟨_, rfl⟩ | ⟨a, ha, b, hb,
    _, _, rfl⟩
  · exact Nat.zero_le _
  · have hfirst := (hinside a ha).1
    have hend := (hinside b hb).2
    omega

/-- The greatest of some numbers of symbols. -/
def longest (l : List Nat) : Nat := l.foldr max 0

theorem le_longest {l : List Nat} {n : Nat} (h : n ∈ l) : n ≤ longest l :=
  le_max_of_le h (Nat.le_refl _)

theorem longest_le {l : List Nat} {n : Nat} (h : ∀ m ∈ l, m ≤ n) : longest l ≤ n :=
  max_le_of_forall_le _ _ h

theorem numSym_le_longest {a : VarTtiAllocInfo} (ha : a ∈ l) :
    a.dci.numSym ≤ longest (l.map fun a => a.dci.numSym) :=
  le_longest (mem_map.2 ⟨a, ha, rfl⟩)

theorem countUsedSymbols_beside {start first used : Nat} (hfirst : ∀ a ∈ l, a.dci.symStart = first)
    (hle : start ≤ first) (hlast : ∀ a ∈ l, a.dci.symStart + a.dci.numSym < 256)
    (h : countUsedSymbols start l = .ok used) : used = longest (l.map fun a => a.dci.numSym) := by
  rcases countUsedSymbols_spec hlast (fun a ha => hfirst a ha ▸ hle) h with ⟨rfl, rfl⟩ | ⟨a, ha, b,
    hb, _, hmax, rfl⟩
  · rfl
  · rw [hfirst a ha, hfirst b hb, Nat.add_sub_cancel_left]
    refine Nat.le_antisymm (le_longest (mem_map_of_mem hb)) (longest_le fun n hn => ?_)
    obtain ⟨c, hc, rfl⟩ := mem_map.1 hn
    have hbc := hmax c hc
    rw [hfirst b hb, hfirst c hc] at hbc
    exact Nat.le_of_add_le_add_left hbc

/-! ## The beams -/

variable {active : BeamMap (Nat × Nat)} {beam : BeamId} {beams : List BeamId} {limit : Nat}
  {new : List VarTtiAllocInfo}

theorem scheduleDlBeam_cases
    (h : scheduleDlBeam cfg inp fs active cfg.dlCtrlSymbols st beam = .ok st') :
    ∃ b procs t, Keyed.find? Prod.fst beam active = some (b, procs) ∧
      procs.foldlM (scheduleDlProcess cfg inp fs) { st with allocatedUe := [] } = .ok t ∧
      (t.symAvail = 0 ∧ st' = t ∨
        0 < t.symAvail ∧ st.startingSymbol ≠ t.startingSymbol ∧
          st' = { t with bitmask := cfg.dlBitmask } ∨
        0 < t.symAvail ∧ st.startingSymbol = t.startingSymbol ∧
          ∃ used, countUsedSymbols cfg.dlCtrlSymbols (t.allocs.drop st.allocs.length) = .ok used ∧
            st' = { t with
              bitmask := cfg.dlBitmask
              startingSymbol := (t.startingSymbol + used) % 256
              symAvail := (t.symAvail + 256 - used) % 256 }) := by
  unfold scheduleDlBeam at h
  split at h
  · cases h
  next b procs hfind =>
  obtain ⟨t, ht, h⟩ := ok_of_bind h
  refine ⟨b, procs, t, hfind, ht, ?_⟩
  split at h
  next hpos =>
    split at h
    next hsame =>
      obtain ⟨used, hused, h⟩ := ok_of_bind h
      cases h
      exact .inr (.inr ⟨hpos, hsame, used, hused, rfl⟩)
    next hne =>
      cases h
      exact .inr (.inl ⟨hpos, hne, rfl⟩)
  next hzero =>
    cases h
    exact .inl ⟨Nat.eq_zero_of_not_pos hzero, rfl⟩

/-- The counter of the symbols that are left is not increased by a beam, by any of its processes or
after them: a difference in eight bits is greater than its minuend exactly where it wraps. -/
def CountsDown (cfg : SchedConfig) (inp : DlTrigger) (fs : List HarqInfo)
    (active : BeamMap (Nat × Nat)) (st : DlHarqState) (beam : BeamId) (st' : DlHarqState) : Prop :=
  ∀ b procs, Keyed.find? Prod.fst beam active = some (b, procs) →
    Along (scheduleDlProcess cfg inp fs) (fun s _ s' => s'.symAvail ≤ s.symAvail)
    { st with allocatedUe := [] } procs ∧
      ∀ t, procs.foldlM (scheduleDlProcess cfg inp fs) { st with allocatedUe := [] } = .ok t →
      st'.symAvail ≤ t.symAvail

/-- The state before a beam, with the DCIs that are allocated so far: they are within the symbols
that were available, and apart, and while there are symbols left the next beam starts behind them.
-/
structure DlHarqInv (cfg : SchedConfig) (ues0 : List UeInfo) (limit : Nat)
    (new : List VarTtiAllocInfo) (st : DlHarqState) : Prop where
  pending : Pending ues0 st.ues
  bitmask : st.bitmask.length = cfg.dlBitmask.length
  start : cfg.dlCtrlSymbols ≤ st.startingSymbol
  budget : st.startingSymbol + st.symAvail ≤ limit
  inside : ∀ a ∈ new, cfg.dlCtrlSymbols ≤ a.dci.symStart ∧ a.dci.symStart + a.dci.numSym ≤ limit
  packed : Packed (new.map fun a => a.dci.block cfg.dlBitmask.length) st.startingSymbol
    (rbgsOf st.bitmask)
  level : cfg.consolidateHarqRetx = true ∨ 0 < st.symAvail → ∀ a ∈ new,
    a.dci.symStart + a.dci.numSym ≤ st.startingSymbol

theorem BeamRun.used {used : Nat} (h : BeamRun cfg inp dcis st t cur)
    (hsame : st.startingSymbol = t.startingSymbol) (hfit : st.startingSymbol + st.symAvail < 256)
    (hstart : cfg.dlCtrlSymbols ≤ st.startingSymbol)
    (hused : countUsedSymbols cfg.dlCtrlSymbols cur = .ok used) :
    (∀ a ∈ cur, a.dci.symStart = t.startingSymbol) ∧
    used = longest (cur.map fun a => a.dci.numSym) := by
  have hfirst : ∀ a ∈ cur, a.dci.symStart = t.startingSymbol := by
    intro a ha
    cases hmode : cfg.consolidateHarqRetx with
    | true =>
      have hlast := h.after hmode a ha
      have hin := (h.inside a ha).1
      omega
    | false => rw [(h.beside hmode).2 a ha, hsame]
  refine ⟨hfirst, countUsedSymbols_beside hfirst (hsame ▸ hstart) (fun a ha => ?_) hused⟩
  exact Nat.lt_of_le_of_lt (h.inside a ha).2 hfit

section
variable (hreshape : Reshapes cfg inp) (hlimit : limit < 256) (h : DlHarqInv cfg ues0 limit new st)
include hreshape hlimit h

theorem DlHarqInv.processes
    (hrun : procs.foldlM (scheduleDlProcess cfg inp fs) { st with allocatedUe := [] } = .ok t) :
    ∃ cur, BeamRun cfg inp (procs.filterMap (dciAt ues0)) { st with allocatedUe := [] } t cur ∧
      Pending ues0 t.ues := by
  let st₀ : DlHarqState := { st with allocatedUe := [] }
  have hfit : st₀.startingSymbol + st₀.symAvail < 256 := Nat.lt_of_le_of_lt h.budget hlimit
  obtain ⟨⟨cur, hcur⟩, hpend⟩ := beamRun_of_run hreshape hfit h.pending h.bitmask hrun
  exact ⟨cur, hcur, hpend⟩

/-- What a beam whose symbols are counted down allocates. -/
theorem DlHarqInv.step
    (hbeam : scheduleDlBeam cfg inp fs active cfg.dlCtrlSymbols st beam = .ok st')
    (hdown : CountsDown cfg inp fs active st beam st') :
    ∃ cur, st'.allocs = st.allocs ++ cur ∧ DlHarqInv cfg ues0 limit (new ++ cur) st' := by
  obtain ⟨b, procs, t, hfind, hrun, hcases⟩ := scheduleDlBeam_cases hbeam
  have hle := (hdown b procs hfind).2 t hrun
  obtain ⟨cur, hcur, hpend⟩ := h.processes hreshape hlimit hrun
  have hbudget := h.budget
  have hcbudget := hcur.budget
  have hstart := h.start
  have hcstart := hcur.start
  have hcavail := hcur.avail
  dsimp only at hcbudget hcstart hcavail
  have hinside : ∀ a ∈ new ++ cur, cfg.dlCtrlSymbols ≤ a.dci.symStart ∧
    a.dci.symStart + a.dci.numSym ≤ limit := by
    refine forall_mem_append.2 ⟨h.inside, fun a ha => ?_⟩
    have hin := hcur.inside a ha
    dsimp only at hin
    omega
  have hpacked : Packed ((new ++ cur).map fun a => a.dci.block cfg.dlBitmask.length)
    t.startingSymbol (rbgsOf t.bitmask) := by
    rw [map_append]
    refine hcur.packed _ h.packed fun hcons b hb => ?_
    obtain ⟨a, ha, rfl⟩ := mem_map.1 hb
    exact h.level (.inl hcons) a ha
  refine ⟨cur, ?_, ?_⟩
  · rcases hcases with ⟨_, rfl⟩ | ⟨_, _, rfl⟩ | ⟨_, _, _, _, rfl⟩ <;> exact hcur.allocs
  -- with consolidation all DCIs end at the current symbol
  have hcons : cfg.consolidateHarqRetx = true → ∀ a ∈ new ++ cur,
    a.dci.symStart + a.dci.numSym ≤ t.startingSymbol := by
    intro hmode
    refine forall_mem_append.2 ⟨fun a ha => ?_, hcur.after hmode⟩
    exact Nat.le_trans (h.level (.inl hmode) a ha) hcstart
  rcases hcases with ⟨hzero, rfl⟩ | ⟨hpos, hne, rfl⟩ | ⟨hpos, hsame, used, hused, rfl⟩
  · refine ⟨hpend, hcur.bitmask.trans h.bitmask, by omega, by omega, hinside, hpacked, ?_⟩
    rintro (hmode | hpos)
    · exact hcons hmode
    · omega
  · have hmode : cfg.consolidateHarqRetx = true := by
      by_contra hown
      exact hne (hcur.beside (Bool.eq_false_iff.2 hown)).1.symm
    refine ⟨hpend, rfl, Nat.le_trans hstart hcstart, Nat.le_trans hcbudget hbudget, hinside, ?_,
      fun _ => hcons hmode⟩
    refine hpacked.advance fun b hb => ?_
    obtain ⟨a, ha, rfl⟩ := mem_map.1 hb
    exact hcons hmode a ha
  · rw [hcur.allocs, drop_left] at hused
    obtain ⟨hfirst, hlongest⟩ := hcur.used hsame (Nat.lt_of_le_of_lt hbudget hlimit) hstart hused
    have hcurle : ∀ a ∈ cur, a.dci.symStart + a.dci.numSym ≤ t.startingSymbol + used := by
      intro a ha
      rw [hfirst a ha, hlongest]
      exact Nat.add_le_add_left (numSym_le_longest ha) _
    have hused256 : used < 256 := by
      rw [hlongest]
      refine Nat.lt_of_le_of_lt (longest_le fun n hn => ?_) hlimit
      obtain ⟨a, ha, rfl⟩ := mem_map.1 hn
      exact Nat.le_trans (Nat.le_add_left _ _) (hinside a (mem_append_right _ ha)).2
    have hfits : used ≤ t.symAvail := by
      dsimp only at hle
      omega
    have hnext : (t.startingSymbol + used) % 256 = t.startingSymbol + used :=
      Nat.mod_eq_of_lt (by omega)
    have hleft : (t.symAvail + 256 - used) % 256 = t.symAvail - used := by omega
    have hlevel : ∀ a ∈ new ++ cur, a.dci.symStart + a.dci.numSym ≤ t.startingSymbol + used := by
      refine forall_mem_append.2 ⟨fun a ha => ?_, hcurle⟩
      have hold := h.level (.inr (by omega)) a ha
      omega
    rw [hnext, hleft]
    refine ⟨hpend, rfl, by dsimp only; omega, by dsimp only; omega, hinside,
      hpacked.advance fun b hb => ?_, fun _ => hlevel⟩
    obtain ⟨a, ha, rfl⟩ := mem_map.1 hb
    exact hlevel a ha

/-! ## The counter -/

omit hlimit h in
theorem countsDown_iff {b : BeamId} (hfit : st.startingSymbol + st.symAvail < 256)
    (hfind : Keyed.find? Prod.fst beam active = some (b, procs))
    (hrun : procs.foldlM (scheduleDlProcess cfg inp fs) { st with allocatedUe := [] } = .ok t) :
    CountsDown cfg inp fs active st beam st' ↔ st'.symAvail ≤ t.symAvail := by
  constructor
  · intro h
    exact (h b procs hfind).2 t hrun
  · intro hle b' procs' hfind'
    cases hfind.symm.trans hfind'
    refine ⟨along_processes hreshape hfit, fun t' hrun' => ?_⟩
    cases hrun.symm.trans hrun'
    exact hle

section
variable (hbeam : scheduleDlBeam cfg inp fs active cfg.dlCtrlSymbols st beam = .ok st')
include hbeam

theorem DlHarqInv.countsDown_of_zero (hzero : st.symAvail = 0) :
    CountsDown cfg inp fs active st beam st' ∧ st'.symAvail = 0 := by
  obtain ⟨b, procs, t, hfind, hrun, hcases⟩ := scheduleDlBeam_cases hbeam
  obtain ⟨cur, hcur, _⟩ := h.processes hreshape hlimit hrun
  have hnone : t.symAvail = 0 := Nat.eq_zero_of_le_zero (hzero ▸ hcur.avail)
  rw [countsDown_iff hreshape (Nat.lt_of_le_of_lt h.budget hlimit) hfind hrun]
  rcases hcases with ⟨_, rfl⟩ | ⟨hpos, _⟩ | ⟨hpos, _⟩
  · exact ⟨Nat.le_refl _, hnone⟩
  · omega
  · omega

theorem DlHarqInv.countsDown_of_consolidated (hmode : cfg.consolidateHarqRetx = true) :
    CountsDown cfg inp fs active st beam st' := by
  obtain ⟨b, procs, t, hfind, hrun, hcases⟩ := scheduleDlBeam_cases hbeam
  obtain ⟨cur, hcur, _⟩ := h.processes hreshape hlimit hrun
  have hfit := Nat.lt_of_le_of_lt h.budget hlimit
  rw [countsDown_iff hreshape hfit hfind hrun]
  rcases hcases with ⟨_, rfl⟩ | ⟨_, _, rfl⟩ | ⟨hpos, hsame, used, hused, rfl⟩
  · exact Nat.le_refl _
  · exact Nat.le_refl _
  · rw [hcur.allocs, drop_left] at hused
    obtain ⟨hfirst, hlongest⟩ := hcur.used hsame hfit h.start hused
    have hzero : used = 0 := by
      rw [hlongest]
      refine Nat.eq_zero_of_le_zero (longest_le fun n hn => ?_)
      obtain ⟨a, ha, rfl⟩ := mem_map.1 hn
      have hlast := hcur.after hmode a ha
      have hat := hfirst a ha
      omega
    have havail := hcur.avail
    have hbudget := h.budget
    dsimp only at havail ⊢
    omega

end

/-- The DCIs of the processes of a beam. -/
def beamDcis (active : BeamMap (Nat × Nat)) (ues : List UeInfo) (beam : BeamId) : List Dci :=
  (((Keyed.find? Prod.fst beam active).map Prod.snd).getD []).filterMap (dciAt ues)

/-- The numbers of symbols of the DCIs of a beam that are placed, where the DCIs keep their symbols
and RBGs. -/
def placedSymbols (cfg : SchedConfig) (inp : DlTrigger) (active : BeamMap (Nat × Nat))
    (ues : List UeInfo) (symAvail : Nat) (beam : BeamId) : List Nat :=
  (placed cfg inp [] symAvail cfg.dlBitmask (beamDcis active ues beam)).map Dci.numSym

/-- Without consolidation: a beam leaves no symbols, or at least as many as its longest DCI has,
which are taken once more. -/
theorem DlHarqInv.countsDown_iff_longest (hmask : st.bitmask = cfg.dlBitmask)
    (hbeam : scheduleDlBeam cfg inp fs active cfg.dlCtrlSymbols st beam = .ok st')
    (hown : cfg.consolidateHarqRetx = false) :
    let numSyms := placedSymbols cfg inp active ues0 st.symAvail beam
    let left := st.symAvail - numSyms.sum
    (left = 0 → CountsDown cfg inp fs active st beam st' ∧ st'.symAvail = 0) ∧
      (left ≠ 0 → (CountsDown cfg inp fs active st beam st' ↔ longest numSyms ≤ left) ∧
        (longest numSyms ≤ left → st'.symAvail = left - longest numSyms ∧
          st'.bitmask = cfg.dlBitmask)) := by
  obtain ⟨b, procs, t, hfind, hrun, hcases⟩ := scheduleDlBeam_cases hbeam
  obtain ⟨cur, hcur, _⟩ := h.processes hreshape hlimit hrun
  have hfit := Nat.lt_of_le_of_lt h.budget hlimit
  rw [countsDown_iff hreshape hfit hfind hrun]
  have hdcis : beamDcis active ues0 beam = procs.filterMap (dciAt ues0) := by
    rw [beamDcis, hfind]
    rfl
  obtain ⟨hnum, hsum⟩ := hcur.counted hown
  dsimp only at hnum hsum
  rw [placedSymbols, hdcis, ← hmask, ← hnum]
  have hleft : st.symAvail - (cur.map fun a => a.dci.numSym).sum = t.symAvail := by omega
  dsimp only
  rw [hleft]
  rcases hcases with ⟨hzero, rfl⟩ | ⟨_, hne, _⟩ | ⟨hpos, hsame, used, hused, rfl⟩
  · exact ⟨fun _ => ⟨Nat.le_refl _, hzero⟩, fun hne => absurd hzero hne⟩
  · exact absurd (hcur.beside hown).1.symm hne
  · rw [hcur.allocs, drop_left] at hused
    obtain ⟨hfirst, hlongest⟩ := hcur.used hsame hfit h.start hused
    rw [← hlongest]
    have hused256 : used < 256 := by
      rw [hlongest]
      refine Nat.lt_of_le_of_lt (longest_le fun n hn => ?_) hfit
      obtain ⟨a, ha, rfl⟩ := mem_map.1 hn
      exact Nat.le_trans (Nat.le_add_left _ _) (hcur.inside a ha).2
    have havail := hcur.avail
    dsimp only at havail ⊢
    refine ⟨fun hzero => by omega, fun _ =>
      ⟨⟨fun hle => ?_, fun hle => ?_⟩, fun hle => ⟨?_, hmask.symm⟩⟩⟩
    · omega
    · omega
    · omega

/-! ## All beams -/

/-- In each beam, in order, what is left after the DCIs that are placed is nothing, or it is enough
for the longest of them once more, and so in the beams after it. -/
def Within (cfg : SchedConfig) (inp : DlTrigger) (active : BeamMap (Nat × Nat))
    (ues : List UeInfo) : Nat → List BeamId → Prop
  | _, [] => True
  | symAvail, beam :: beams =>
    let numSyms := placedSymbols cfg inp active ues symAvail beam
    let left := symAvail - numSyms.sum
    left = 0 ∨ longest numSyms ≤ left ∧ Within cfg inp active ues (left - longest numSyms) beams

theorem DlHarqInv.run
    (hrun : beams.foldlM (scheduleDlBeam cfg inp fs active cfg.dlCtrlSymbols) st = .ok t)
    (hdown : Along (scheduleDlBeam cfg inp fs active cfg.dlCtrlSymbols)
      (CountsDown cfg inp fs active) st beams) :
    ∃ cur, t.allocs = st.allocs ++ cur ∧ DlHarqInv cfg ues0 limit (new ++ cur) t := by
  induction beams generalizing st new with
  | nil =>
    cases hrun
    exact ⟨[], (append_nil _).symm, (append_nil new).symm ▸ h⟩
  | cons beam beams ih =>
    obtain ⟨st', hbeam, hrun⟩ := ok_of_bind hrun
    obtain ⟨hfirst, hrest⟩ := (along_cons_of_ok hbeam).1 hdown
    obtain ⟨cur, hcur, hinv⟩ := h.step hreshape hlimit hbeam hfirst
    obtain ⟨cur', hcur', hlast⟩ := ih hinv hrun hrest
    refine ⟨cur ++ cur', ?_, ?_⟩
    · rw [hcur', hcur, append_assoc]
    · rwa [append_assoc] at hlast

theorem DlHarqInv.along_of_consolidated (hmode : cfg.consolidateHarqRetx = true) :
    Along (scheduleDlBeam cfg inp fs active cfg.dlCtrlSymbols) (CountsDown cfg inp fs active) st
      beams := by
  induction beams generalizing st new with
  | nil => trivial
  | cons beam beams ih =>
    intro st' hbeam
    have hdown := h.countsDown_of_consolidated hreshape hlimit hbeam hmode
    obtain ⟨cur, _, hinv⟩ := h.step hreshape hlimit hbeam hdown
    exact ⟨hdown, ih hinv⟩

theorem DlHarqInv.along_of_zero (hzero : st.symAvail = 0) :
    Along (scheduleDlBeam cfg inp fs active cfg.dlCtrlSymbols) (CountsDown cfg inp fs active) st
      beams := by
  induction beams generalizing st new with
  | nil => trivial
  | cons beam beams ih =>
    intro st' hbeam
    obtain ⟨hdown, hzero'⟩ := h.countsDown_of_zero hreshape hlimit hbeam hzero
    obtain ⟨cur, _, hinv⟩ := h.step hreshape hlimit hbeam hdown
    exact ⟨hdown, ih hinv hzero'⟩

theorem DlHarqInv.along_iff_within (hmask : st.bitmask = cfg.dlBitmask)
    (hown : cfg.consolidateHarqRetx = false)
    (hrun : beams.foldlM (scheduleDlBeam cfg inp fs active cfg.dlCtrlSymbols) st = .ok t) :
    Along (scheduleDlBeam cfg inp fs active cfg.dlCtrlSymbols) (CountsDown cfg inp fs active) st
      beams ↔ Within cfg inp active ues0 st.symAvail beams := by
  induction beams generalizing st new with
  | nil => exact Iff.rfl
  | cons beam beams ih =>
    obtain ⟨st', hbeam, hrun⟩ := ok_of_bind hrun
    obtain ⟨hnone, hsome⟩ := h.countsDown_iff_longest hreshape hlimit hmask hbeam hown
    rw [along_cons_of_ok hbeam, Within]
    by_cases hleft : st.symAvail - (placedSymbols cfg inp active ues0 st.symAvail beam).sum = 0
    · obtain ⟨hdown, hzero⟩ := hnone hleft
      obtain ⟨cur, _, hinv⟩ := h.step hreshape hlimit hbeam hdown
      exact iff_of_true ⟨hdown, hinv.along_of_zero hreshape hlimit hzero⟩ (.inl hleft)
    · obtain ⟨hiff, hnext⟩ := hsome hleft
      have htail : CountsDown cfg inp fs active st beam st' →
          (Along (scheduleDlBeam cfg inp fs active cfg.dlCtrlSymbols) (CountsDown cfg inp fs active)
            st' beams ↔ Within cfg inp active ues0 st'.symAvail beams) := by
        intro hdown
        obtain ⟨cur, _, hinv⟩ := h.step hreshape hlimit hbeam hdown
        exact ih hinv (hnext (hiff.1 hdown)).2 hrun
      rw [or_iff_right hleft, ← hiff]
      refine and_congr_right fun hdown => ?_
      rw [htail hdown, (hnext (hiff.1 hdown)).1]

end

/-! ## Safety -/

/-- The order in which the beams are visited. -/
def harqBeams (inp : DlTrigger) (rrBeams : List BeamId) (active : BeamMap (Nat × Nat)) :
    List BeamId :=
  match getBeamOrderRR rrBeams ((inp.order.app active).map Prod.fst) with
  | .ok (_, beams) => beams
  | .error _ => []

/-- What `ScheduleDlHarq` promises when it returns the state `t` and the number `used`: the symbols
that are used are available, each new DCI is within them, no symbol and RBG is in two of them, and
the counter never wraps. -/
structure DlHarqSafe (cfg : SchedConfig) (inp : DlTrigger) (rrBeams : List BeamId) (symAvail : Nat)
    (active : BeamMap (Nat × Nat)) (ues : List UeInfo) (toRetransmit fs : List HarqInfo)
    (allocs : List VarTtiAllocInfo) (t : DlHarqState) (used : Nat) : Prop where
  used_le : used ≤ symAvail
  inside : ∀ a ∈ t.allocs.drop allocs.length,
    cfg.dlCtrlSymbols ≤ a.dci.symStart ∧
    a.dci.symStart + a.dci.numSym ≤ cfg.dlCtrlSymbols + symAvail
  apart : ((t.allocs.drop allocs.length).map fun a => a.dci.block cfg.dlBitmask.length).Pairwise
    Apart
  countsDown : Along (scheduleDlBeam cfg inp fs active cfg.dlCtrlSymbols)
    (CountsDown cfg inp fs active) ⟨ues, toRetransmit, allocs, symAvail, cfg.dlCtrlSymbols,
    cfg.dlBitmask, []⟩ (harqBeams inp rrBeams active)

variable {rrBeams rrBeams' : List BeamId} {symAvail used : Nat} {toRetransmit : List HarqInfo}
  {allocs : List VarTtiAllocInfo}

/-- The symbols of a slot are numbered with eight bits. There the retransmissions are safe if and
only if they are consolidated, or each beam leaves nothing or enough. -/
theorem scheduleDlHarq_safe_iff (hreshape : Reshapes cfg inp)
    (hslot : cfg.dlCtrlSymbols + symAvail < 256)
    (hrun : scheduleDlHarq cfg inp rrBeams symAvail active ues toRetransmit fs allocs =
      .ok (t, rrBeams', used)) :
    DlHarqSafe cfg inp rrBeams symAvail active ues toRetransmit fs allocs t used ↔
      cfg.consolidateHarqRetx = true ∨
        Within cfg inp active ues symAvail (harqBeams inp rrBeams active) := by
  obtain ⟨⟨rr, beams⟩, horder, hrun⟩ := ok_of_bind hrun
  obtain ⟨t', hbeams, hrun⟩ := ok_of_bind hrun
  obtain ⟨used', hused, heq⟩ := ok_of_bind hrun
  cases heq
  have hvisit : harqBeams inp rrBeams active = beams := by
    rw [harqBeams, horder]
  have hinit : DlHarqInv cfg ues (cfg.dlCtrlSymbols + symAvail) []
      ⟨ues, toRetransmit, allocs, symAvail, cfg.dlCtrlSymbols, cfg.dlBitmask, []⟩ :=
    ⟨fun _ _ hp _ => hp, rfl, Nat.le_refl _, Nat.le_refl _, nofun, .nil, fun _ => nofun⟩
  have hcount : Along (scheduleDlBeam cfg inp fs active cfg.dlCtrlSymbols)
      (CountsDown cfg inp fs active) ⟨ues, toRetransmit, allocs, symAvail, cfg.dlCtrlSymbols,
      cfg.dlBitmask, []⟩ beams ↔
      cfg.consolidateHarqRetx = true ∨ Within cfg inp active ues symAvail beams := by
    cases hmode : cfg.consolidateHarqRetx with
    | true => exact iff_of_true (hinit.along_of_consolidated hreshape hslot hmode) (.inl rfl)
    | false =>
      rw [or_iff_right Bool.false_ne_true]
      exact hinit.along_iff_within hreshape hslot rfl hmode hbeams
  rw [hvisit, ← hcount]
  constructor
  · intro h
    exact hvisit ▸ h.countsDown
  · intro hdown
    obtain ⟨cur, hcur, hinv⟩ := hinit.run hreshape hslot hbeams hdown
    rw [hcur, drop_left] at hused
    refine ⟨?_, ?_, ?_, hvisit.symm ▸ hdown⟩
    · exact countUsedSymbols_le hslot hinv.inside hused
    · rw [hcur, drop_left]
      exact hinv.inside
    · rw [hcur, drop_left]
      exact hinv.packed.apart

/-- A UE in a beam of its own, whose DL process 0 has a NACK for a number of symbols. -/
def UeInfo.dlNack (rnti numSym : Nat) : UeInfo :=
  ⟨rnti, ⟨rnti, 0⟩,
    ⟨2, 2, [(0, some ⟨.receivedFeedback, 0, ⟨rnti, .dl, 1, numSym, 5, 1, 50, 1, 0, .data, 0,
    [true]⟩, []⟩)]⟩,
    .setMaxSize .id 2⟩

/-- The feedback of two such UEs. -/
def twoDlNacks : List HarqInfo := [⟨1, 0, false⟩, ⟨2, 0, false⟩]

/-- The beams of two such UEs. -/
def twoBeams : BeamMap (Nat × Nat) := [(⟨1, 0⟩, [(1, 0)]), (⟨2, 0⟩, [(2, 0)])]

/-- Three symbols in each of two beams, where 13 are available: 10 are left after the first DCI and
7 after its beam, and 4 after the second DCI. -/
theorem scheduleDlHarq_safe_iff_two_beams :
    ∃ t rr, scheduleDlHarq .small (.busy twoDlNacks) [] 13 twoBeams
      [.dlNack 1 3, .dlNack 2 3] [] twoDlNacks [] = .ok (t, rr, 6) ∧
    DlHarqSafe .small (.busy twoDlNacks) [] 13 twoBeams [.dlNack 1 3, .dlNack 2 3] [] twoDlNacks []
      t 6 := by
  refine ⟨_, _, rfl, ?_⟩
  refine (scheduleDlHarq_safe_iff (fun h => absurd h (by decide)) (by decide) rfl).2 (.inr ?_)
  exact .inr ⟨by decide, .inr ⟨by decide, trivial⟩⟩

/-- A DL slot that sends eight symbols of new data to one UE. -/
def DlTrigger.sends (rnti : Nat) : DlTrigger :=
  { DlTrigger.busy [] with newDci := fun rnti' => if rnti' = rnti then some ⟨1, 8, 5, 1, 50, [true],
    [⟨1, 50⟩]⟩ else none }

/-- Eight symbols in each of them: 5 are left after the first DCI, and 253 after its beam. With new
data for the two UEs, the slot of the retransmissions ends with a failed assertion. -/
theorem not_dlHarqSafe :
    (∃ t rr, scheduleDlHarq .small (.busy twoDlNacks) [] 13 twoBeams [.dlNack 1 8,
        .dlNack 2 8] [] twoDlNacks [] = .ok (t, rr, 16) ∧
      t.allocs.map (fun a => (a.dci.symStart, a.dci.numSym)) = [(1, 8), (9, 8)] ∧
      ¬ DlHarqSafe .small (.busy twoDlNacks) [] 13 twoBeams [.dlNack 1 8, .dlNack 2 8] [] twoDlNacks
        [] t 16) ∧
    ∃ s, Sched.Reachable .small s ∧ doSchedDlTriggerReq .small s (.busy twoDlNacks) =
      .error .assertion := by
  have hrun : ((execs anyStep (Sched.step? .small) Sched.init
      [.ueConfig 1 ⟨1, 0⟩ .id, .ueConfig 2 ⟨2, 0⟩ .id, .dlTrigger (.sends 1),
      .dlTrigger (.sends 2)]).map fun s =>
        (doSchedDlTriggerReq .small s (.busy twoDlNacks)).map fun _ => ()) =
          some (.error .assertion) := by
    decide +kernel
  obtain ⟨s, hs, hv⟩ := Option.map_eq_some_iff.1 hrun
  constructor
  · refine ⟨_, _, rfl, rfl, fun h => ?_⟩
    exact absurd h.used_le (by decide)
  · refine ⟨s, run_of_execs Sched.step_of_step? hs, ?_⟩
    cases hx : doSchedDlTriggerReq .small s (.busy twoDlNacks) with
    | error e =>
      rw [hx] at hv
      cases hv
      rfl
    | ok x =>
      rw [hx] at hv
      cases hv

end OranNs3
