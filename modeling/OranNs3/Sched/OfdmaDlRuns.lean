import Mathlib.Data.Prod.Lex
import Mathlib.Order.WellFounded
import OranNs3.Lib.Fallible
import OranNs3.Lib.Fuel
import OranNs3.Sched.OfdmaDl

/-!
# What `AssignDLRBG` hands out

In a beam every RBG of the mask is in `remainingRbgSet`, or it was given to one UE, which notes it
once for every symbol of the beam (`Allotted`). An attempt that is undone leaves the lists as they
were (`Allotted.attempt`), and reaping moves one RBG back at a time (`Allotted.deallocate`). Only
the fronthaul control, after the loop, takes RBGs away that it does not put back.

Every step makes `measure` smaller, so a run ends (`step_spec`, `returns`). In a beam without
symbols the RBGs leave the set, and no UE notes them.
-/

namespace OranNs3.Ofdma

open Fallible Fuel Function List
open Function (update)

variable {μ : Type} {cfg : DlConfig μ} {active : ActiveUeMap} {symPerBeam : BeamSymbolMap}
  {ues0 : DlTable} {s t : DlState μ} {own : Nat → List Nat} {dropped : List Nat} {u v rbg : Nat}

/-! ## The lists of the UEs -/

/-- Tables whose UEs have the same RBGs and symbols, and the same is known of their sub-bands. -/
def SameLists (ues ues' : DlTable) : Prop :=
  ∀ v, (ues' v).dlRBG = (ues v).dlRBG ∧ (ues' v).dlSym = (ues v).dlSym ∧
    (ues' v).subbands = (ues v).subbands

theorem SameLists.refl (ues : DlTable) : SameLists ues ues := fun _ => ⟨rfl, rfl, rfl⟩

theorem SameLists.trans {ues ues' ues'' : DlTable} (h : SameLists ues ues')
    (h' : SameLists ues' ues'') : SameLists ues ues'' :=
  fun v => ⟨(h' v).1.trans (h v).1, (h' v).2.1.trans (h v).2.1, (h' v).2.2.trans (h v).2.2⟩

theorem SameLists.set (ues : DlTable) (ue : DlUe) (hrbg : ue.dlRBG = (ues u).dlRBG)
    (hsym : ue.dlSym = (ues u).dlSym) (hsub : ue.subbands = (ues u).subbands) :
    SameLists ues (update ues u ue) := by
  intro v
  rcases eq_or_ne v u with rfl | hne
  · rw [update_self]
    exact ⟨hrbg, hsym, hsub⟩
  · rw [update_of_ne hne]
    exact ⟨rfl, rfl, rfl⟩

/-- What a step inside a beam leaves as it is. -/
structure Frame (s t : DlState μ) : Prop where
  todo : t.todo = s.todo
  beam : t.beam = s.beam
  beamSym : t.beamSym = s.beamSym
  ueVector : t.ueVector = s.ueVector

theorem Frame.refl (s : DlState μ) : Frame s s := ⟨rfl, rfl, rfl, rfl⟩

theorem Frame.trans {r : DlState μ} (h : Frame s t) (h' : Frame t r) : Frame s r :=
  ⟨h'.todo.trans h.todo, h'.beam.trans h.beam, h'.beamSym.trans h.beamSym,
    h'.ueVector.trans h.ueVector⟩

/-- The states after hooks: nothing is handed out. -/
structure Hooked (s t : DlState μ) : Prop extends Frame s t where
  lists : SameLists s.ues t.ues
  remaining : t.remaining = s.remaining
  assigned : t.assigned = s.assigned

theorem Hooked.refl (s : DlState μ) : Hooked s s := ⟨.refl s, .refl _, rfl, rfl⟩

theorem Hooked.trans {r : DlState μ} (h : Hooked s t) (h' : Hooked t r) : Hooked s r :=
  ⟨h.toFrame.trans h'.toFrame, h.lists.trans h'.lists, h'.remaining.trans h.remaining,
    h'.assigned.trans h.assigned⟩

theorem hooked_hook (h : DlHook μ) (s : DlState μ) (u : Nat) : Hooked s (s.hook h u) :=
  ⟨⟨rfl, rfl, rfl, rfl⟩, SameLists.set _ _ rfl rfl rfl, rfl, rfl⟩

theorem hooked_foldl {γ : Type} {f : DlState μ → γ → DlState μ} (hf : ∀ s c, Hooked s (f s c))
    (l : List γ) (s : DlState μ) : Hooked s (l.foldl f s) := by
  induction l generalizing s with
  | nil => exact .refl s
  | cons c l ih => exact (hf s c).trans (ih _)

theorem hooked_notAssigned (s : DlState μ) (l : List (Nat × Nat)) :
    Hooked s (s.notAssigned cfg l) :=
  hooked_foldl (fun s _ => hooked_hook _ s _) l s

theorem hooked_limitMcs (fh : Fronthaul μ) (s : DlState μ) (ue : Nat × Nat) :
    Hooked s (limitMcs cfg fh s ue) := by
  unfold limitMcs
  dsimp only
  split
  · exact .refl s
  · exact ⟨⟨rfl, rfl, rfl, rfl⟩, SameLists.set _ _ rfl rfl rfl, rfl, rfl⟩

/-! ## The RBGs of a beam -/

/-- What holds between beams: the beams that follow are active ones, and their UEs have nothing yet.
-/
structure Waiting (active : ActiveUeMap) (ues0 : DlTable) (s : DlState μ) : Prop where
  subbands : ∀ u, (s.ues u).subbands = (ues0 u).subbands
  isActive : ∀ e ∈ s.todo, e ∈ active.beams
  nodup : (s.todo.flatMap fun e => e.2.map Prod.fst).Nodup
  empty : ∀ e ∈ s.todo, ∀ u ∈ e.2.map Prod.fst, (s.ues u).dlRBG = [] ∧ (s.ues u).dlSym = []

/-- What holds in a beam, where `own` are the RBGs of its UEs and `dropped` those that the fronthaul
control took away. -/
structure Allotted (cfg : DlConfig μ) (active : ActiveUeMap) (symPerBeam : BeamSymbolMap)
    (ues0 : DlTable) (own : Nat → List Nat) (dropped : List Nat) (s : DlState μ) :
    Prop extends Waiting active ues0 s where
  isBeam : ∃ b, (b, s.beam) ∈ active.beams ∧ s.beamSym = symOf symPerBeam b
  fresh : ∀ u ∈ s.beam.map Prod.fst, u ∉ s.todo.flatMap fun e => e.2.map Prod.fst
  shared : Pool.Shared cfg.dlBitmask.rbgs (s.beam.map Prod.fst) own (dropped ++ s.remaining)
  rbgs : ∀ u ∈ s.beam.map Prod.fst, (s.ues u).dlRBG = Pool.spread s.beamSym (own u)
  syms : ∀ u ∈ s.beam.map Prod.fst, (s.ues u).dlSym.length = (s.ues u).dlRBG.length
  count : s.assigned.rbg = ((s.beam.map Prod.fst).flatMap own).length
  vector : ∀ ue ∈ s.ueVector, ue.1 ∈ s.beam.map Prod.fst

section
variable (h : Allotted cfg active symPerBeam ues0 own dropped s)
include h

theorem Allotted.nodup_beam : (s.beam.map Prod.fst).Nodup := by
  obtain ⟨b, hb, _⟩ := h.isBeam
  exact (nodup_flatMap.1 active.nodup).1 _ hb

theorem Allotted.congr (hlists : SameLists s.ues t.ues)
    (htodo : t.todo = s.todo) (hbeam : t.beam = s.beam) (hsym : t.beamSym = s.beamSym)
    (hremaining : t.remaining = s.remaining) (hassigned : t.assigned.rbg = s.assigned.rbg)
    (hvector : ∀ ue ∈ t.ueVector, ue.1 ∈ s.beam.map Prod.fst) :
    Allotted cfg active symPerBeam ues0 own dropped t := by
  refine ⟨⟨fun v => (hlists v).2.2.trans (h.subbands v), ?_, ?_, ?_⟩, ?_, ?_, ?_, ?_, ?_, ?_, ?_⟩
  · exact htodo ▸ h.isActive
  · exact htodo ▸ h.nodup
  · rw [htodo]
    intro e he v hv
    rw [(hlists v).1, (hlists v).2.1]
    exact h.empty e he v hv
  · rw [hbeam, hsym]
    exact h.isBeam
  · rw [hbeam, htodo]
    exact h.fresh
  · rw [hbeam, hremaining]
    exact h.shared
  · rw [hbeam, hsym]
    intro v hv
    rw [(hlists v).1]
    exact h.rbgs v hv
  · rw [hbeam]
    intro v hv
    rw [(hlists v).1, (hlists v).2.1]
    exact h.syms v hv
  · rw [hassigned, hbeam]
    exact h.count
  · rw [hbeam]
    exact hvector

theorem Allotted.hooked (hh : Hooked s t) : Allotted cfg active symPerBeam ues0 own dropped t :=
  h.congr hh.lists hh.todo hh.beam hh.beamSym hh.remaining (congrArg FTResources.rbg hh.assigned)
    fun ue hue =>
    h.vector ue (hh.ueVector ▸ hue)

/-- The lists of one UE change, with the RBGs that it has. -/
theorem Allotted.change {ue : DlUe} {l dropped' : List Nat}
    (hu : u ∈ s.beam.map Prod.fst) (hues : t.ues = update s.ues u ue)
    (hsub : ue.subbands = (s.ues u).subbands)
    (hrbg : ue.dlRBG = Pool.spread s.beamSym l) (hsym : ue.dlSym.length = ue.dlRBG.length)
    (hframe : Frame s t)
    (hshared : Pool.Shared cfg.dlBitmask.rbgs (s.beam.map Prod.fst) (update own u l)
      (dropped' ++ t.remaining))
    (hcount : t.assigned.rbg = ((s.beam.map Prod.fst).flatMap (update own u l)).length) :
    Allotted cfg active symPerBeam ues0 (update own u l) dropped' t := by
  have hother : ∀ v, v ≠ u → t.ues v = s.ues v := by
    intro v hv
    rw [hues, update_of_ne hv]
  have hself : t.ues u = ue := by rw [hues, update_self]
  refine ⟨⟨fun v => ?_, ?_, ?_, ?_⟩, ?_, ?_, ?_, ?_, ?_, ?_, ?_⟩
  · rcases eq_or_ne v u with rfl | hne
    · rw [hself, hsub]
      exact h.subbands v
    · rw [hother v hne]
      exact h.subbands v
  · exact hframe.todo ▸ h.isActive
  · exact hframe.todo ▸ h.nodup
  · rw [hframe.todo]
    intro e he v hv
    have hne : v ≠ u := by
      rintro rfl
      exact h.fresh v hu (mem_flatMap.2 ⟨e, he, hv⟩)
    rw [hother v hne]
    exact h.empty e he v hv
  · rw [hframe.beam, hframe.beamSym]
    exact h.isBeam
  · rw [hframe.beam, hframe.todo]
    exact h.fresh
  · rw [hframe.beam]
    exact hshared
  · rw [hframe.beam, hframe.beamSym]
    intro v hv
    rcases eq_or_ne v u with rfl | hne
    · rw [hself, hrbg, update_self]
    · rw [hother v hne, update_of_ne hne]
      exact h.rbgs v hv
  · rw [hframe.beam]
    intro v hv
    rcases eq_or_ne v u with rfl | hne
    · rw [hself, hsym]
    · rw [hother v hne]
      exact h.syms v hv
  · rw [hframe.beam]
    exact hcount
  · rw [hframe.beam, hframe.ueVector]
    exact h.vector

omit h in
theorem allocate_self (s : DlState μ) (u rbg : Nat) :
    (s.allocate u rbg).ues u =
      { s.ues u with
        dlRBG := (s.ues u).dlRBG ++ replicate s.beamSym rbg
        dlSym := (s.ues u).dlSym ++ (List.range s.beamSym).map (· % 256) } :=
  update_self u _ s.ues

omit h in
theorem allocate_of_ne (s : DlState μ) (rbg : Nat) (h : v ≠ u) :
    (s.allocate u rbg).ues v = s.ues v :=
  update_of_ne h _ s.ues

theorem Allotted.allocate (hu : u ∈ s.beam.map Prod.fst) (hrbg : rbg ∈ s.remaining) :
    Allotted cfg active symPerBeam ues0 (update own u (own u ++ [rbg])) dropped
      { s.allocate u rbg with remaining := s.remaining.erase rbg } := by
  have hperm : (dropped ++ s.remaining).Perm (rbg :: (dropped ++ s.remaining.erase rbg)) :=
    ((perm_cons_erase hrbg).append_left dropped).trans perm_middle
  refine h.change hu rfl rfl ?_ ?_ ⟨rfl, rfl, rfl, rfl⟩ (h.shared.give h.nodup_beam hu hperm) ?_
  · rw [Pool.spread_concat, ← h.rbgs u hu]
  · simp [h.syms u hu]
  · rw [(Pool.flatMap_update_perm h.nodup_beam hu).length_eq, DlState.allocate, h.count,
      (Pool.flatMap_perm hu).length_eq]
    simp only [length_append, length_singleton]
    omega

omit h in
theorem deallocate_ok (hrbg : s.beamSym ≤ (s.ues u).dlRBG.length)
    (hsym : s.beamSym ≤ (s.ues u).dlSym.length) (hassigned : s.assigned.rbg ≠ 0) :
    s.deallocate u rbg = .ok
      { s with
        ues := update s.ues u
          { s.ues u with
            dlRBG := (s.ues u).dlRBG.take ((s.ues u).dlRBG.length - s.beamSym)
            dlSym := (s.ues u).dlSym.take ((s.ues u).dlSym.length - s.beamSym) }
        assigned := ⟨s.assigned.rbg - 1, if s.assigned.rbg - 1 = 0 then 0 else s.assigned.sym⟩
        available := s.available.set rbg true } := by
  unfold DlState.deallocate
  dsimp only
  rw [if_neg (by omega), if_neg hassigned]

omit h in
theorem deallocate_allocate {f : DlState μ → DlState μ} (hf : ∀ s, Hooked s (f s))
    (hsyms : (s.ues u).dlSym.length = (s.ues u).dlRBG.length) :
    ∃ t, (f (s.allocate u rbg)).deallocate u rbg = .ok t ∧ Frame s t ∧ SameLists s.ues t.ues ∧
      t.remaining = s.remaining ∧ t.assigned.rbg = s.assigned.rbg := by
  have hh := hf (s.allocate u rbg)
  have hrbg : ((f (s.allocate u rbg)).ues u).dlRBG = (s.ues u).dlRBG ++ replicate s.beamSym
    rbg := by
    rw [(hh.lists u).1, allocate_self]
  have hsym : ((f (s.allocate u rbg)).ues u).dlSym = (s.ues u).dlSym ++ (List.range s.beamSym).map
    (· % 256) := by
    rw [(hh.lists u).2.1, allocate_self]
  have hbeamSym : (f (s.allocate u rbg)).beamSym = s.beamSym := hh.beamSym
  have hassigned : (f (s.allocate u rbg)).assigned.rbg = s.assigned.rbg + 1 :=
    congrArg FTResources.rbg hh.assigned
  refine ⟨_, deallocate_ok ?_ ?_ ?_, ⟨hh.todo, hh.beam, hh.beamSym, hh.ueVector⟩, fun v => ?_,
    hh.remaining, ?_⟩
  · simp [hrbg, hbeamSym]
  · simp [hsym, hbeamSym]
  · omega
  · rcases eq_or_ne v u with rfl | hne
    · have hsub := (hh.lists v).2.2
      rw [allocate_self] at hsub
      dsimp only
      rw [update_self, hrbg, hsym, hbeamSym]
      exact ⟨by simp, by simp, hsub⟩
    · have hv := hh.lists v
      rw [allocate_of_ne s rbg hne] at hv
      dsimp only
      rw [update_of_ne hne]
      exact hv
  · dsimp only
    omega

/-- The last RBG of a UE is taken away. -/
theorem Allotted.deallocate (hu : u ∈ s.beam.map Prod.fst)
    (hlast : (s.ues u).dlRBG.getLast? = some rbg) :
    ∃ t l, s.deallocate u rbg = .ok t ∧ t.control = s.control ∧ Frame s t ∧
      t.remaining = s.remaining ∧ rbg ∈ own u ∧ (t.ues u).dlRBG.length < (s.ues u).dlRBG.length ∧
      ∀ dropped' remaining', (dropped' ++ remaining').Perm (rbg :: (dropped ++ s.remaining)) →
        Allotted cfg active symPerBeam ues0 (update own u l) dropped'
          { t with remaining := remaining' } := by
  have hrbgs := h.rbgs u hu
  have hsyms := h.syms u hu
  have hne : own u ≠ [] := by
    intro hnil
    rw [hrbgs, hnil, Pool.spread_nil] at hlast
    cases hlast
  obtain ⟨l, x, hown⟩ : ∃ l x, own u = l ++ [x] := ⟨_, _, (dropLast_append_getLast hne).symm⟩
  have hpos : 0 < s.beamSym := by
    refine Nat.pos_of_ne_zero fun hzero => ?_
    rw [hrbgs, hzero, Pool.spread_zero] at hlast
    cases hlast
  obtain rfl : x = rbg := by
    obtain ⟨n, hn⟩ := Nat.exists_eq_succ_of_ne_zero (Nat.ne_of_gt hpos)
    rw [hrbgs, hown, Pool.spread_concat, hn, replicate_succ', ← append_assoc,
      getLast?_concat] at hlast
    exact Option.some.inj hlast
  have hcount :
    s.assigned.rbg = l.length + 1 + (((s.beam.map Prod.fst).erase u).flatMap own).length := by
    rw [h.count, (Pool.flatMap_perm hu).length_eq, hown]
    simp only [length_append, length_singleton]
  rw [hown, Pool.spread_concat] at hrbgs
  have hlength := congrArg List.length hrbgs
  rw [length_append, length_replicate] at hlength
  refine ⟨_, l, deallocate_ok (by omega) (by omega) (by omega), rfl, ⟨rfl, rfl, rfl, rfl⟩, rfl, ?_,
    ?_, fun dropped' remaining' hperm => ?_⟩
  · rw [hown]
    exact mem_append_right _ (mem_singleton_self _)
  · dsimp only
    rw [update_self, length_take]
    omega
  · refine h.change hu rfl rfl ?_ ?_ ⟨rfl, rfl, rfl,
      rfl⟩ (h.shared.takeBack h.nodup_beam hu hown hperm) ?_
    · dsimp only
      rw [hrbgs]
      simp
    · dsimp only
      rw [length_take, length_take]
      omega
    · rw [(Pool.flatMap_update_perm h.nodup_beam hu).length_eq, length_append]
      dsimp only
      omega

omit h in
theorem emplace_perm {l : List Nat} (h : rbg ∉ l) : (emplace rbg l).Perm (rbg :: l) := by
  rw [emplace, if_neg h]
  exact perm_orderedInsert _ _ _

/-! ## One attempt -/

/-- Where `AssignDLRBG` stops: no RBG may be used at all, or the sub-bands of an active UE do not
cover one that may. -/
def Fails (cfg : DlConfig μ) (active : ActiveUeMap) (ues0 : DlTable) (e : SchedError) : Prop :=
  e = .assertion ∧ cfg.dlBitmask.rbgs = [] ∨
    e = .outOfRange ∧ ∃ b ∈ active.beams, ∃ u ∈ b.2.map Prod.fst, ∃ rbg ∈ cfg.dlBitmask.rbgs,
      (ues0 u).subbands.cqiAt rbg = .error .outOfRange

theorem Allotted.mem_mask (hrbg : rbg ∈ s.remaining) : rbg ∈ cfg.dlBitmask.rbgs :=
  h.shared.mem_iff.2 (.inr (mem_append_right _ hrbg))

theorem Allotted.spec_cqiAt (hu : u ∈ s.beam.map Prod.fst) (hrbg : rbg ∈ cfg.dlBitmask.rbgs) :
    Spec (Fails cfg active ues0) (fun _ => True) ((s.ues u).subbands.cqiAt rbg) := by
  obtain ⟨b, hb, _⟩ := h.isBeam
  rw [h.subbands u]
  cases hcqi : (ues0 u).subbands.cqiAt rbg with
  | ok c => trivial
  | error e =>
    have he : e = .outOfRange := by
      unfold Subbands.cqiAt at hcqi
      split at hcqi
      · cases hcqi
        rfl
      split at hcqi
      · cases hcqi
        rfl
      · cases hcqi
    subst he
    exact .inr ⟨rfl, _, hb, u, hu, rbg, hrbg, hcqi⟩

theorem Allotted.spec_selectRbg (hu : u ∈ s.beam.map Prod.fst) (hne : s.remaining ≠ []) :
    Spec (Fails cfg active ues0) (fun r => ∀ rbg ∈ r, rbg ∈ s.remaining) (selectRbg cfg s u) := by
  unfold selectRbg
  dsimp only
  split
  · split
    next hnil => exact absurd hnil hne
    next first rest hrest => exact fun rbg hrbg => Option.some.inj hrbg ▸ hrest ▸ mem_cons_self
  · have hbest : Spec (Fails cfg active ues0) (fun best : Option Nat × Nat =>
      ∀ rbg ∈ best.1, rbg ∈ s.remaining)
        (bestRbg (s.ues u).subbands s.remaining) := by
      refine Spec.foldlM_mem (fun {best rbg} hrbg hbest =>
        Spec.map ((h.spec_cqiAt hu (h.mem_mask hrbg)).imp fun c _ => ?_)) nofun
      split
      · exact fun rbg' heq => Option.some.inj heq ▸ hrbg
      · exact hbest
    refine hbest.bind fun best hbest => ?_
    split
    · exact hbest
    next first rest hfirst =>
      have hmem : first ∈ cfg.dlBitmask.rbgs := by
        have hown : first ∈ own u := Pool.mem_of_mem_spread (h.rbgs u hu ▸ hfirst ▸ mem_cons_self)
        exact h.shared.mem hu hown
      refine (h.spec_cqiAt hu hmem).bind fun c _ => ?_
      change ∀ rbg ∈ (if best.2 + 4 < c then none else best.1), rbg ∈ s.remaining
      split
      · nofun
      · exact hbest

/-- What an attempt does: it gives an RBG of the set to the UE, or nothing. -/
structure Attempted (cfg : DlConfig μ) (active : ActiveUeMap) (symPerBeam : BeamSymbolMap)
    (ues0 : DlTable) (dropped : List Nat) (s : DlState μ) (r : DlState μ × Bool) :
    Prop extends Frame s r.1 where
  allotted : ∃ own, Allotted cfg active symPerBeam ues0 own dropped r.1
  success : r.2 = true → r.1.remaining.length < s.remaining.length
  failure : r.2 = false → r.1.remaining = s.remaining

theorem Allotted.spec_attempt (hu : u ∈ s.beam.map Prod.fst) (hne : s.remaining ≠ []) :
    Spec (Fails cfg active ues0) (Attempted cfg active symPerBeam ues0 dropped s)
      (attempt cfg s u) := by
  refine (h.spec_selectRbg hu hne).bind fun r hr => ?_
  cases r with
  | none => exact ⟨.refl s, ⟨own, h⟩, nofun, fun _ => rfl⟩
  | some rbg =>
    have hrbg := hr rbg rfl
    have hhook := hooked_hook cfg.assignedDlResources (s.allocate u rbg) u
    dsimp only
    split
    · obtain ⟨t, ht, hframe, hlists, hremaining, hassigned⟩ :=
        deallocate_allocate (fun s => hooked_hook cfg.assignedDlResources s u) (h.syms u hu)
      rw [ht, ok_bind]
      have hundo := hooked_hook cfg.assignedDlResources t u
      have hvector : ∀ ue ∈ t.ueVector, ue.1 ∈ s.beam.map Prod.fst := fun ue hue =>
        h.vector ue (hframe.ueVector ▸ hue)
      have hsame :=
        h.congr hlists hframe.todo hframe.beam hframe.beamSym hremaining hassigned hvector
      exact ⟨hframe.trans hundo.toFrame, ⟨own, hsame.hooked hundo⟩, nofun, fun _ =>
        hundo.remaining.trans hremaining⟩
    · refine ⟨⟨rfl, rfl, rfl, rfl⟩, ⟨_, (h.allocate hu hrbg).hooked ?_⟩, fun _ => ?_, nofun⟩
      · exact ⟨⟨rfl, rfl, rfl, rfl⟩, hhook.lists, rfl, rfl⟩
      · change (s.remaining.erase rbg).length < s.remaining.length
        rw [length_erase_of_mem hrbg]
        have := length_pos_of_mem hrbg
        omega

/-! ## Steps -/

end

/-- What holds before each step. -/
def Ready (cfg : DlConfig μ) (active : ActiveUeMap) (symPerBeam : BeamSymbolMap) (ues0 : DlTable)
    (s : DlState μ) : Prop :=
  match s.control with
  | .nextBeam | .finished => Waiting active ues0 s
  | .schedule | .check | .fronthaul => ∃ own, Allotted cfg active symPerBeam ues0 own [] s
  | .attempt prevRemaining it => (∃ own, Allotted cfg active symPerBeam ues0 own [] s) ∧
      (∀ ue ∈ it, ue.1 ∈ s.beam.map Prod.fst) ∧ prevRemaining = s.remaining.length ∧
      s.remaining ≠ []
  | .reap u => (∃ own, Allotted cfg active symPerBeam ues0 own [] s) ∧ u ∈ s.beam.map Prod.fst ∧
      s.ueVector ≠ []
  | .release it => (∃ own dropped, Allotted cfg active symPerBeam ues0 own dropped s) ∧ ∀ ue ∈ it,
      ue.1 ∈ s.beam.map Prod.fst
  | .drop u it => (∃ own dropped, Allotted cfg active symPerBeam ues0 own dropped s) ∧
      u ∈ s.beam.map Prod.fst ∧ ∀ ue ∈ it, ue.1 ∈ s.beam.map Prod.fst

/-- Four numbers, the first ones first. -/
def rank (a b c d : Nat) : ℕ ×ₗ ℕ ×ₗ ℕ ×ₗ ℕ := toLex (a, toLex (b, toLex (c, d)))

theorem rank_lt {a b c d a' b' c' d' : Nat}
    (h : a < a' ∨ a = a' ∧ (b < b' ∨ b = b' ∧ (c < c' ∨ c = c' ∧ d < d'))) :
    rank a b c d < rank a' b' c' d' := by
  simpa only [rank, Prod.Lex.toLex_lt_toLex] using h

/-- What decreases: the beams, then the UEs that are still scheduled or to be looked at by the
fronthaul control, then RBGs, and last the UEs that are tried. -/
def measure (s : DlState μ) : ℕ ×ₗ ℕ ×ₗ ℕ ×ₗ ℕ :=
  match s.control with
  | .finished => rank 0 0 0 0
  | .nextBeam => rank (2 * s.todo.length + 1) 0 0 0
  | .schedule => rank (2 * s.todo.length + 2) (3 * s.ueVector.length + 3) (s.remaining.length)
      (s.ueVector.length + 1)
  | .attempt _ it => rank (2 * s.todo.length + 2) (3 * s.ueVector.length + 3) (s.remaining.length)
      (it.length)
  | .check => rank (2 * s.todo.length + 2) (3 * s.ueVector.length + 2) 0 0
  | .reap u => rank (2 * s.todo.length + 2) (3 * s.ueVector.length + 1) ((s.ues u).dlRBG.length) 0
  | .fronthaul => rank (2 * s.todo.length + 2) (2 * s.ueVector.length + 1) 0 0
  | .release it => rank (2 * s.todo.length + 2) (2 * it.length) 0 0
  | .drop u it => rank (2 * s.todo.length + 2) (2 * it.length + 1) ((s.ues u).dlRBG.length) 0

/-- What a step does. -/
def Steps (cfg : DlConfig μ) (active : ActiveUeMap) (symPerBeam : BeamSymbolMap) (ues0 : DlTable)
    (s t : DlState μ) : Prop :=
  Ready cfg active symPerBeam ues0 t ∧ measure t < measure s

theorem spec_nextBeam (hc : s.control = .nextBeam) (h : Waiting active ues0 s) :
    Spec (Fails cfg active ues0) (Steps cfg active symPerBeam ues0 s) (s.step cfg symPerBeam) := by
  unfold DlState.step
  rw [hc]
  dsimp only
  split
  next hnil =>
    refine ⟨⟨h.subbands, ?_, ?_, ?_⟩, ?_⟩
    · exact h.isActive
    · exact h.nodup
    · exact h.empty
    · simp only [measure, hc]
      exact rank_lt (by omega)
  next beam todo htodo =>
    split
    next hnil => exact .inl ⟨rfl, hnil⟩
    · have hactive := h.isActive
      have hnodup := h.nodup
      have hempty := h.empty
      rw [htodo] at hactive hnodup hempty
      rw [flatMap_cons, nodup_append] at hnodup
      obtain ⟨hactive, hactives⟩ := forall_mem_cons.1 hactive
      obtain ⟨hempty, hempties⟩ := forall_mem_cons.1 hempty
      refine ⟨⟨fun _ => [], ⟨h.subbands, hactives, hnodup.2.1, hempties⟩, ⟨beam.1, hactive, rfl⟩,
        ?_, ?_, ?_, ?_, ?_, ?_⟩, ?_⟩
      · exact fun u hu hmem => hnodup.2.2 u hu u hmem rfl
      · exact Pool.Shared.start _ _
      · exact fun u hu => (hempty u hu).1
      · intro u hu
        change (s.ues u).dlSym.length = (s.ues u).dlRBG.length
        rw [(hempty u hu).1, (hempty u hu).2]
      · change 0 = _
        rw [flatMap_eq_nil_iff.2 fun _ _ => rfl]
        rfl
      · exact fun ue hue => mem_map_of_mem hue
      · simp only [measure, hc, htodo, length_cons]
        exact rank_lt (by omega)

theorem spec_schedule (hc : s.control = .schedule)
    (h : Allotted cfg active symPerBeam ues0 own [] s) :
    Spec (Fails cfg active ues0) (Steps cfg active symPerBeam ues0 s) (s.step cfg symPerBeam) := by
  unfold DlState.step
  rw [hc]
  dsimp only
  split
  · refine ⟨⟨own, h.congr (.refl _) rfl rfl rfl rfl rfl h.vector⟩, ?_⟩
    simp only [measure, hc]
    exact rank_lt (by omega)
  next hne =>
    have hperm :=
      cfg.sort_perm s.ues s.ueVector
        (if cfg.activeDlAi = true then cfg.callNotifyDlFn s.ues s.ueVector s.metrics else s.metrics)
    have hvector := fun ue hue => h.vector ue (hperm.mem_iff.1 hue)
    refine ⟨⟨⟨own, h.congr (.refl _) rfl rfl rfl rfl rfl hvector⟩, hvector, rfl, hne⟩, ?_⟩
    simp only [measure, hc, hperm.length_eq]
    exact rank_lt (by omega)

variable {it : List (Nat × Nat)}

theorem spec_attempt {n : Nat} (hc : s.control = .attempt n it)
    (h : Allotted cfg active symPerBeam ues0 own [] s) (hit : ∀ ue ∈ it, ue.1 ∈ s.beam.map Prod.fst)
    (hn : n = s.remaining.length) (hne : s.remaining ≠ []) :
    Spec (Fails cfg active ues0) (Steps cfg active symPerBeam ues0 s) (s.step cfg symPerBeam) := by
  unfold DlState.step
  rw [hc]
  dsimp only
  have hsuffix : advanceToNextUe cfg s it <:+ it := dropWhile_suffix _
  split
  · rw [if_pos hn]
    refine ⟨⟨own, h.congr (.refl _) rfl rfl rfl rfl rfl h.vector⟩, ?_⟩
    simp only [measure, hc]
    exact rank_lt (by omega)
  next u buf rest hadvance =>
    rw [hadvance] at hsuffix
    have hu := hit _ (hsuffix.subset mem_cons_self)
    refine (h.spec_attempt hu hne).bind fun r hr => ?_
    obtain ⟨own', hr'⟩ := hr.allotted
    split
    next hsuccess =>
      have hless := hr.success hsuccess
      have hnot : Hooked r.1 (r.1.notAssigned cfg (r.1.ueVector.filter fun ue => ue.1 ≠ u)) :=
        hooked_notAssigned r.1 _
      generalize r.1.notAssigned cfg (r.1.ueVector.filter fun ue => ue.1 ≠ u) = q at hnot ⊢
      have hall := hr'.hooked hnot
      have hcontrol : n ≠ q.remaining.length := by
        rw [hnot.remaining]
        omega
      rw [if_neg hcontrol]
      refine ⟨⟨own', hall.congr (.refl _) rfl rfl rfl rfl rfl hall.vector⟩, ?_⟩
      simp only [measure, hc, hnot.todo, hnot.ueVector, hnot.remaining, hr.todo, hr.ueVector]
      exact rank_lt (by omega)
    next hfailure =>
      have hremaining := hr.failure (Bool.eq_false_iff.2 hfailure)
      refine ⟨⟨⟨own', hr'.congr (.refl _) rfl rfl rfl rfl rfl hr'.vector⟩, ?_, ?_, ?_⟩, ?_⟩
      · intro ue hue
        rw [hr.beam]
        exact hit ue (hsuffix.subset (mem_cons_of_mem _ hue))
      · exact hn.trans (congrArg List.length hremaining.symm)
      · exact fun hnil => hne (hremaining.symm.trans hnil)
      · have hlength := hsuffix.length_le
        rw [length_cons] at hlength
        simp only [measure, hc, hr.todo, hr.ueVector, hremaining]
        exact rank_lt (by omega)

theorem spec_check (hc : s.control = .check) (h : Allotted cfg active symPerBeam ues0 own [] s) :
    Spec (Fails cfg active ues0) (Steps cfg active symPerBeam ues0 s) (s.step cfg symPerBeam) := by
  unfold DlState.step
  rw [hc]
  dsimp only
  have hperm : ((cfg.sortByTbSize.app s.ueVector).insertionSort fun a b =>
    (s.ues b.1).dlTbSize ≤ (s.ues a.1).dlTbSize).Perm
      s.ueVector :=
    (perm_insertionSort _ _).trans (cfg.sortByTbSize.perm _)
  generalize (cfg.sortByTbSize.app s.ueVector).insertionSort (fun a b =>
    (s.ues b.1).dlTbSize ≤ (s.ues a.1).dlTbSize) = ueVector
    at hperm ⊢
  have hvector : ∀ ue ∈ ueVector, ue.1 ∈ s.beam.map Prod.fst := fun ue hue =>
    h.vector ue (hperm.mem_iff.1 hue)
  have hfronthaul : Steps cfg active symPerBeam ues0 s { s with
    ueVector, control := .fronthaul } := by
    refine ⟨⟨own, h.congr (.refl _) rfl rfl rfl rfl rfl hvector⟩, ?_⟩
    simp only [measure, hc, hperm.length_eq]
    exact rank_lt (by omega)
  split
  · exact hfronthaul
  next ue hlast =>
    have hmem := mem_of_getLast? hlast
    split
    · refine ⟨⟨⟨own, h.congr (.refl _) rfl rfl rfl rfl rfl hvector⟩, hvector ue hmem,
        ne_nil_of_mem hmem⟩, ?_⟩
      simp only [measure, hc, hperm.length_eq]
      exact rank_lt (by omega)
    · exact hfronthaul

theorem spec_reap (hc : s.control = .reap u) (h : Allotted cfg active symPerBeam ues0 own [] s)
    (hu : u ∈ s.beam.map Prod.fst) (hne : s.ueVector ≠ []) :
    Spec (Fails cfg active ues0) (Steps cfg active symPerBeam ues0 s) (s.step cfg symPerBeam) := by
  unfold DlState.step
  rw [hc]
  dsimp only
  split
  next rbg hlast =>
    obtain ⟨t, l, ht, hcontrol, hframe, hremaining, hown, hless, hallotted⟩ := h.deallocate hu hlast
    rw [hc] at hcontrol
    have hnot : rbg ∉ s.remaining := h.shared.disjoint_free cfg.dlBitmask.nodup_rbgs hu hown
    have hback := hallotted [] (emplace rbg s.remaining) (emplace_perm hnot)
    rw [ht]
    refine ⟨?_, ?_⟩
    · simp only [Ready, hcontrol, hremaining]
      exact ⟨⟨_, hback.congr (.refl _) rfl rfl rfl rfl rfl hback.vector⟩, hframe.beam ▸ hu,
      hframe.ueVector ▸ hne⟩
    · simp only [measure, hc, hcontrol, hframe.todo, hframe.ueVector]
      exact rank_lt (by omega)
  · have hhook := hooked_hook cfg.assignedDlResources s u
    have hnot : Hooked s ((s.hook cfg.assignedDlResources u).notAssigned cfg s.ueVector) :=
      hhook.trans (hooked_notAssigned _ _)
    generalize (s.hook cfg.assignedDlResources u).notAssigned cfg s.ueVector = q at hnot ⊢
    have hall := h.hooked hnot
    refine ⟨⟨own, hall.congr (.refl _) rfl rfl rfl rfl rfl fun ue hue =>
      hall.vector ue (dropLast_subset _ hue)⟩, ?_⟩
    have hpos := length_pos_of_ne_nil hne
    simp only [measure, hc, hnot.todo, hnot.ueVector, length_dropLast]
    exact rank_lt (by omega)

theorem spec_fronthaul (hc : s.control = .fronthaul)
    (h : Allotted cfg active symPerBeam ues0 own [] s) :
    Spec (Fails cfg active ues0) (Steps cfg active symPerBeam ues0 s) (s.step cfg symPerBeam) := by
  unfold DlState.step
  rw [hc]
  dsimp only
  split
  · refine ⟨⟨h.subbands, h.isActive, h.nodup, h.empty⟩, ?_⟩
    simp only [measure, hc]
    exact rank_lt (by omega)
  next fh hfh =>
    unfold enterFronthaul
    dsimp only
    have hlimit : Hooked s (if fh.method = .optimizeMcs then s.beam.foldl (limitMcs cfg fh) s
      else s) := by
      split
      · exact hooked_foldl (hooked_limitMcs fh) _ s
      · exact .refl s
    generalize (if fh.method = .optimizeMcs then s.beam.foldl (limitMcs cfg fh) s else s) =
      q at hlimit ⊢
    have hall := h.hooked hlimit
    split
    · refine ⟨⟨hall.subbands, hall.isActive, hall.nodup, hall.empty⟩, ?_⟩
      simp only [measure, hc, hlimit.todo]
      exact rank_lt (by omega)
    · have hperm := fh.shuffle.perm q.ueVector
      refine ⟨⟨⟨own, [], hall.congr (.refl _) rfl rfl rfl rfl rfl hall.vector⟩, fun ue hue => ?_⟩,
      ?_⟩
      · exact hall.vector ue (hperm.mem_iff.1 hue)
      · have hlength := hperm.length_eq.trans (congrArg List.length hlimit.ueVector)
        simp only [measure, hc, hlimit.todo, hlength]
        exact rank_lt (by omega)

theorem spec_release (hc : s.control = .release it)
    (h : Allotted cfg active symPerBeam ues0 own dropped s)
    (hit : ∀ ue ∈ it, ue.1 ∈ s.beam.map Prod.fst) :
    Spec (Fails cfg active ues0) (Steps cfg active symPerBeam ues0 s) (s.step cfg symPerBeam) := by
  have hnext : Steps cfg active symPerBeam ues0 s { s with control := .nextBeam } := by
    refine ⟨⟨h.subbands, h.isActive, h.nodup, h.empty⟩, ?_⟩
    simp only [measure, hc]
    exact rank_lt (by omega)
  unfold DlState.step
  rw [hc]
  cases it with
  | nil => exact hnext
  | cons ue it =>
    obtain ⟨hue, hit⟩ := forall_mem_cons.1 hit
    dsimp only
    split
    · exact hnext
    next fh hfh =>
      split
      · refine ⟨⟨⟨own, dropped, h.congr (.refl _) rfl rfl rfl rfl rfl h.vector⟩, hit⟩, ?_⟩
        simp only [measure, hc, length_cons]
        exact rank_lt (by omega)
      · split
        · refine ⟨⟨⟨own, dropped, h.congr (.refl _) rfl rfl rfl rfl rfl h.vector⟩, hit⟩, ?_⟩
          simp only [measure, hc, length_cons]
          exact rank_lt (by omega)
        · refine ⟨⟨⟨own, dropped, h.congr (.refl _) rfl rfl rfl rfl rfl h.vector⟩, hue, hit⟩, ?_⟩
          simp only [measure, hc, length_cons]
          exact rank_lt (by omega)

theorem spec_drop (hc : s.control = .drop u it)
    (h : Allotted cfg active symPerBeam ues0 own dropped s) (hu : u ∈ s.beam.map Prod.fst)
    (hit : ∀ ue ∈ it, ue.1 ∈ s.beam.map Prod.fst) :
    Spec (Fails cfg active ues0) (Steps cfg active symPerBeam ues0 s) (s.step cfg symPerBeam) := by
  unfold DlState.step
  rw [hc]
  dsimp only
  split
  next rbg hlast =>
    obtain ⟨t, l, ht, hcontrol, hframe, hremaining, hown, hless, hallotted⟩ := h.deallocate hu hlast
    rw [hc] at hcontrol
    have hback := hallotted (rbg :: dropped) s.remaining .rfl
    have heq : { t with remaining := s.remaining } = t := hremaining ▸ rfl
    rw [heq] at hback
    rw [ht]
    refine ⟨?_, ?_⟩
    · simp only [Ready, hcontrol]
      exact ⟨⟨_, _, hback⟩, hframe.beam ▸ hu, hframe.beam ▸ hit⟩
    · simp only [measure, hc, hcontrol, hframe.todo]
      exact rank_lt (by omega)
  · refine ⟨⟨⟨own, dropped, h.congr (.refl _) rfl rfl rfl rfl rfl h.vector⟩, hit⟩, ?_⟩
    simp only [measure, hc]
    exact rank_lt (by omega)

/-- A step keeps what holds before each step, and comes nearer to the end. -/
theorem spec_step (h : Ready cfg active symPerBeam ues0 s) (hne : s.control ≠ .finished) :
    Spec (Fails cfg active ues0) (Steps cfg active symPerBeam ues0 s) (s.step cfg symPerBeam) := by
  unfold Ready at h
  cases hc : s.control with
  | finished => exact absurd hc hne
  | nextBeam =>
    rw [hc] at h
    exact spec_nextBeam hc h
  | schedule =>
    rw [hc] at h
    obtain ⟨own, h⟩ := h
    exact spec_schedule hc h
  | attempt n it =>
    rw [hc] at h
    obtain ⟨⟨own, h⟩, hit, hn, hremaining⟩ := h
    exact spec_attempt hc h hit hn hremaining
  | check =>
    rw [hc] at h
    obtain ⟨own, h⟩ := h
    exact spec_check hc h
  | reap u =>
    rw [hc] at h
    obtain ⟨⟨own, h⟩, hu, hvector⟩ := h
    exact spec_reap hc h hu hvector
  | fronthaul =>
    rw [hc] at h
    obtain ⟨own, h⟩ := h
    exact spec_fronthaul hc h
  | release it =>
    rw [hc] at h
    obtain ⟨⟨own, dropped, h⟩, hit⟩ := h
    exact spec_release hc h hit
  | drop u it =>
    rw [hc] at h
    obtain ⟨⟨own, dropped, h⟩, hu, hit⟩ := h
    exact spec_drop hc h hu hit

/-! ## Runs -/

/-- The states of a run of `AssignDLRBG`. -/
def Reaches (cfg : DlConfig μ) (symAvail : Nat) (active : ActiveUeMap) (ues : DlTable)
    (metrics : μ) : DlState μ → Prop :=
  Lts.Run (fun s (_ : Unit) t =>
    s.step cfg (getSymPerBeam (cfg.symPerBeam symAvail active ues metrics) active) = .ok t)
    Lts.anyStep (.initial active ues metrics)

theorem run_of_runSteps {n : Nat} (h : runSteps cfg symPerBeam n s = .ok t) :
    Lts.Run (fun s (_ : Unit) t => s.step cfg symPerBeam = .ok t) Lts.anyStep s t := by
  induction n generalizing s with
  | zero =>
    cases h
    exact .refl t
  | succ n ih =>
    obtain ⟨r, hr, h⟩ := Lts.ok_of_bind h
    exact Relation.ReflTransGen.head ⟨(), trivial, hr⟩ (ih h)

theorem runSteps_finished (hc : s.control = .finished) (n : Nat) :
    runSteps cfg symPerBeam n s = .ok s := by
  induction n with
  | zero => rfl
  | succ n ih =>
    have hstep : s.step cfg symPerBeam = .ok s := by
      unfold DlState.step
      rw [hc]
    rw [runSteps, hstep, ok_bind, ih]

theorem ready_initial {ues : DlTable} (metrics : μ)
    (hempty : ∀ e ∈ active.beams, ∀ u ∈ e.2.map Prod.fst, (ues u).dlRBG = [] ∧ (ues u).dlSym = []) :
    Ready cfg active symPerBeam ues (.initial active ues metrics) :=
  ⟨fun _ => rfl, fun _ => id, active.nodup, hempty⟩

theorem ready_of_run (h0 : Ready cfg active symPerBeam ues0 s)
    (h : Lts.Run (fun s (_ : Unit) t => s.step cfg symPerBeam = .ok t) Lts.anyStep s t) :
    Ready cfg active symPerBeam ues0 t := by
  refine h.invariant (I := Ready cfg active symPerBeam ues0) (fun {r q _} hr _ hstep => ?_) h0
  rcases eq_or_ne r.control .finished with hc | hne
  · have hsame : runSteps cfg symPerBeam 1 r = .ok r := runSteps_finished hc 1
    rw [runSteps, hstep, ok_bind] at hsame
    cases hsame
    exact hr
  · exact ((spec_step hr hne).ok hstep).1

theorem returns (h : Ready cfg active symPerBeam ues0 s) {α : Type} (f : DlState μ → α) :
    ∃ r : Except SchedError α, Returns (fun n => outcome f (runSteps cfg symPerBeam n s)) r ∧
      ∀ e, r = .error e → Fails cfg active ues0 e := by
  induction hm : measure s using WellFoundedLT.induction generalizing s with
  | ind m ih =>
    rcases eq_or_ne s.control .finished with hc | hne
    · refine ⟨.ok (f s), (Returns.const _).congr fun n => ?_, nofun⟩
      rw [runSteps_finished hc]
      exact if_pos hc
    · have hspec := spec_step h hne
      cases hstep : s.step cfg symPerBeam with
      | error e =>
        refine ⟨.error e, Returns.succ ((Returns.const _).congr fun n => ?_), fun e' he => ?_⟩
        · rw [runSteps, hstep]
          rfl
        · cases he
          exact hspec.error hstep
      | ok t =>
        obtain ⟨hready, hless⟩ := hspec.ok hstep
        obtain ⟨r, hr, he⟩ := ih (measure t) (hm ▸ hless) hready rfl
        refine ⟨r, Returns.succ (hr.congr fun n => ?_), he⟩
        rw [runSteps, hstep, ok_bind]

/-! ## What the UEs of a beam have -/

/-- The loops over the RBGs of a beam, up to their end. -/
def Control.inLoop : Control → Bool
  | .schedule | .attempt _ _ | .check | .reap _ | .fronthaul => true
  | _ => false

/-- The RBGs of the mask are divided among the UEs of the beam and the set, and each UE has its RBGs
once for every symbol. -/
structure Partitioned (m : RbgMask) (s : DlState μ) : Prop where
  disjoint : ∀ u ∈ s.beam.map Prod.fst, ∀ v ∈ s.beam.map Prod.fst, u ≠ v →
    (s.ues u).dlRBG.Disjoint (s.ues v).dlRBG
  cover : ∀ rbg, m.bits[rbg]? = some true ↔ (∃ u ∈ s.beam.map Prod.fst, rbg ∈ (s.ues u).dlRBG) ∨
    rbg ∈ s.remaining
  unassigned : ∀ u ∈ s.beam.map Prod.fst, (s.ues u).dlRBG.Disjoint s.remaining
  once : s.remaining.Nodup
  times : ∀ u ∈ s.beam.map Prod.fst, ∀ rbg ∈ (s.ues u).dlRBG, (s.ues u).dlRBG.count rbg = s.beamSym
  syms : ∀ u ∈ s.beam.map Prod.fst, (s.ues u).dlSym.length = (s.ues u).dlRBG.length

theorem Allotted.partitioned (h : Allotted cfg active symPerBeam ues0 own [] s)
    (hb : s.beamSym ≠ 0) : Partitioned cfg.dlBitmask s := by
  have hnd := cfg.dlBitmask.nodup_rbgs
  have hmem : ∀ u ∈ s.beam.map Prod.fst, ∀ rbg, rbg ∈ (s.ues u).dlRBG ↔ rbg ∈ own u := by
    intro u hu rbg
    rw [h.rbgs u hu, Pool.mem_spread (Nat.pos_of_ne_zero hb)]
  refine ⟨fun u hu v hv hne => ?_, fun rbg => ?_, fun u hu => ?_, ?_, fun u hu rbg hrbg => ?_,
    h.syms⟩
  · have hdisj := h.shared.disjoint hnd hu hv hne
    exact fun rbg hrbg hrbg' => hdisj ((hmem u hu rbg).1 hrbg) ((hmem v hv rbg).1 hrbg')
  · rw [← cfg.dlBitmask.mem_rbgs, h.shared.mem_iff, nil_append]
    refine or_congr_left (exists_congr fun u => and_congr_right fun hu => ?_)
    exact (hmem u hu rbg).symm
  · have hdisj := h.shared.disjoint_free hnd hu
    exact fun rbg hrbg hrbg' => hdisj ((hmem u hu rbg).1 hrbg) hrbg'
  · exact (nodup_append.1 (h.shared.nodup_iff.2 hnd)).2.1
  · rw [h.rbgs u hu]
    exact Pool.count_spread _ (h.shared.nodup hnd hu) ((hmem u hu rbg).1 hrbg)

theorem Allotted.nothing (h : Allotted cfg active symPerBeam ues0 own dropped s)
    (hb : s.beamSym = 0) : ∀ u ∈ s.beam.map Prod.fst, (s.ues u).dlRBG = [] ∧
    (s.ues u).dlSym = [] := by
  intro u hu
  have hnil : (s.ues u).dlRBG = [] := by rw [h.rbgs u hu, hb, Pool.spread_zero]
  exact ⟨hnil, eq_nil_of_length_eq_zero (by rw [h.syms u hu, hnil, length_nil])⟩

theorem Ready.allotted (h : Ready cfg active symPerBeam ues0 s) (hloop : s.control.inLoop) :
    ∃ own, Allotted cfg active symPerBeam ues0 own [] s := by
  unfold Ready at h
  cases hc : s.control with
  | schedule | check | fronthaul =>
    rw [hc] at h
    exact h
  | attempt _ _ | reap _ =>
    rw [hc] at h
    exact h.1
  | nextBeam | release _ | drop _ _ | finished =>
    rw [hc] at hloop
    cases hloop

/-- `AssignDLRBG` returns, and in a beam with symbols the RBGs of the mask are divided among the UEs
and the set at every step of the loops. The UEs of a beam without symbols get nothing. -/
theorem assignDLRBG_partitions (cfg : DlConfig μ) (symAvail : Nat) (active : ActiveUeMap)
    (ues : DlTable) (metrics : μ)
    (hempty : ∀ e ∈ active.beams, ∀ u ∈ e.2.map Prod.fst, (ues u).dlRBG = [] ∧ (ues u).dlSym = []) :
    (∃ r, Fuel.Returns (assignDLRBG cfg symAvail active ues metrics) r ∧ ∀ e, r = .error e →
      Fails cfg active ues e) ∧ ∀ s, Reaches cfg symAvail active ues metrics s → s.control.inLoop →
        (s.beamSym ≠ 0 → Partitioned cfg.dlBitmask s) ∧
          (s.beamSym = 0 → ∀ u ∈ s.beam.map Prod.fst, (s.ues u).dlRBG = [] ∧
            (s.ues u).dlSym = []) := by
  refine ⟨returns (ready_initial metrics hempty) _, fun s hs hloop => ?_⟩
  have hready := ready_of_run (ready_initial metrics hempty) hs
  obtain ⟨own, h⟩ := hready.allotted hloop
  exact ⟨h.partitioned, h.nothing⟩

/-! ## A scheduler of random order -/

/-- `NrMacSchedulerOfdmaRandom`, with the order in which `Shuffle` leaves the UEs, where transport
blocks have 10 bytes for each RBG and symbol. -/
def random (mask : RbgMask) (shuffle : Shuffle) (symPerBeam : BeamSymbolMap) : DlConfig Unit where
  dlBitmask := mask
  wideband := true
  activeDlAi := false
  symPerBeam := fun _ _ _ _ => symPerBeam
  getDlMcs := DlUe.dlMcs
  lowered := fun currentTbSize previousTbSize => decide (100 * currentTbSize < 99 * previousTbSize)
  callNotifyDlFn := fun _ _ m => m
  sortUeVector := fun _ ueVector m => (shuffle.app ueVector, m)
  sort_perm := fun _ ueVector _ => shuffle.perm ueVector
  beforeDlSched := fun _ _ _ m => m
  assignedDlResources := fun ues rnti _ _ m => (10 * (ues rnti).dlRBG.length, m)
  notAssignedDlResources := fun ues rnti _ _ m => ((ues rnti).dlTbSize, m)
  sortByTbSize := .id
  fronthaul := none

/-- Two RBGs of three. -/
def twoRbgs : RbgMask := ⟨[true, false, true], by decide⟩

/-- Three UEs of a beam. -/
def threeUes : ActiveUeMap := ⟨[(⟨0, 0⟩, [(1, 40), (2, 15), (3, 100)])], by decide, by decide⟩

/-- UEs that have nothing. -/
def noDlRbgs : DlTable := fun _ => ⟨[], [], 0, 5, 1, ⟨[], []⟩, none⟩

/-- Two symbols: the first UE gets both RBGs. -/
theorem assignDLRBG_partitions_three :
    (assignDLRBG (random twoRbgs .id [(⟨0, 0⟩, 2)]) 2 threeUes noDlRbgs () 40).map
        (fun r => r.toOption.map fun r => [(r.1 1).dlRBG, (r.1 2).dlRBG, (r.1 3).dlRBG]) =
          some (some [[0, 0, 2, 2], [], []]) ∧
      (∃ r, Fuel.Returns (assignDLRBG (random twoRbgs .id [(⟨0, 0⟩, 2)]) 2 threeUes noDlRbgs ()) r ∧
          ∀ e, r = .error e → Fails (random twoRbgs .id [(⟨0, 0⟩, 2)]) threeUes noDlRbgs e) ∧
        ∀ s, Reaches (random twoRbgs .id [(⟨0, 0⟩, 2)]) 2 threeUes noDlRbgs () s →
          s.control.inLoop → (s.beamSym ≠ 0 → Partitioned twoRbgs s) ∧
            (s.beamSym = 0 → ∀ u ∈ s.beam.map Prod.fst, (s.ues u).dlRBG = [] ∧
              (s.ues u).dlSym = []) :=
  ⟨by decide +kernel, assignDLRBG_partitions (random twoRbgs .id [(⟨0, 0⟩, 2)]) 2 threeUes noDlRbgs
    () fun _ _ _ _ => ⟨rfl, rfl⟩⟩

/-- In a beam without symbols an RBG leaves the set, and no UE has it. -/
theorem not_partitions :
    ¬ ∀ (cfg : DlConfig Unit) (symAvail : Nat) (active : ActiveUeMap) (ues : DlTable),
      (∀ e ∈ active.beams, ∀ u ∈ e.2.map Prod.fst, (ues u).dlRBG = [] ∧ (ues u).dlSym = []) →
        ∀ s, Reaches cfg symAvail active ues () s → s.control.inLoop →
          Partitioned cfg.dlBitmask s := by
  intro hall
  obtain ⟨s, hs, hcontrol, hremaining, hbeam, hues⟩ :
      ∃ s, runSteps (random twoRbgs .id []) [(⟨0, 0⟩, 0)] 3 (.initial threeUes noDlRbgs ()) =
        .ok s ∧ s.control = .schedule ∧ s.remaining = [2] ∧ s.beam.map Prod.fst = [1, 2, 3] ∧
        ∀ u ∈ [1, 2, 3], (s.ues u).dlRBG = [] :=
    ⟨_, rfl, rfl, rfl, rfl, by decide⟩
  have hpart := hall (random twoRbgs .id []) 0 threeUes noDlRbgs (fun _ _ _ _ => ⟨rfl, rfl⟩) s
    (run_of_runSteps hs) (hcontrol ▸ rfl)
  have hcover := (hpart.cover 0).1 rfl
  rw [hbeam, hremaining] at hcover
  rcases hcover with ⟨u, hu, hmem⟩ | hmem
  · rw [hues u hu] at hmem
    cases hmem
  · cases mem_singleton.1 hmem

end OranNs3.Ofdma
