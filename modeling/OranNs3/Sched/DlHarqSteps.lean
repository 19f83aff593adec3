import OranNs3.Lib.Packing
import OranNs3.Sched.Feedback
import OranNs3.Sched.Reshape

/-!
# The steps of the DL retransmissions

What `ScheduleDlHarq` does with one process (`scheduleDlProcess_cases`): its feedback is buffered,
or its DCI is placed at the current symbol. With consolidation the symbols advance with each DCI,
and otherwise the DCIs of a beam start together and have different RBGs. `BeamRun` says what the
processes of a beam have done, in both modes.
-/

namespace OranNs3

open Fallible Packing Option

variable {cfg : SchedConfig} {inp : DlTrigger} {fs : List HarqInfo} {st st' t : DlHarqState}
  {r : Reshaped} {i : Nat × Nat} {ues0 ues : List UeInfo} {procs : List (Nat × Nat)} {dci : Dci}
  {bitmask bitmask' : List Bool}

/-! ## One process -/

/-- The tests of a DCI before it is placed: its UE has one already, or there are not as many
resources, or not on the fronthaul. -/
def refused (cfg : SchedConfig) (inp : DlTrigger) (allocatedUe : List Nat) (symAvail : Nat)
    (dci : Dci) : Bool :=
  decide (dci.rnti ∈ allocatedUe) || decide
    (cfg.bandwidth * symAvail < dci.rbgBitmask.count true * dci.numSym) ||
    (cfg.fhControl && !inp.fits dci)

/-- The place of a DCI, or none where its feedback is buffered. -/
def placeDci (cfg : SchedConfig) (inp : DlTrigger) (st : DlHarqState) (dci : Dci) :
    Option Reshaped :=
  if refused cfg inp st.allocatedUe st.symAvail dci then none
  else match reshapeDci cfg inp st dci with
    | .ok (some r) => if st.symAvail < r.numSym then none else some r
    | _ => none

/-- The DCI of a retransmission. -/
def Reshaped.retx (r : Reshaped) (dci : Dci) : Dci :=
  { r.dci dci with ndi := 0, rv := dci.rv + 1, type := .data }

/-- The process `i` waits for its feedback, and nothing else has changed but what is buffered. -/
def Buffered (st st' : DlHarqState) (i : Nat × Nat) : Prop :=
  ∃ q toRetransmit, q.status = .waitingFeedback ∧
    st' = { st with ues := setProcess .dl st.ues i.1 i.2 q, toRetransmit }

/-- The process `i` waits for its feedback, and its DCI has the place `r`. -/
def Allocated (st st' : DlHarqState) (i : Nat × Nat) (dci : Dci) (r : Reshaped) : Prop :=
  ∃ q pdus, q.status = .waitingFeedback ∧
    st' = ⟨setProcess .dl st.ues i.1 i.2 q, st.toRetransmit, st.allocs ++ [⟨r.retx dci, pdus⟩],
      r.symAvail, r.startingSymbol, r.bitmask, st.allocatedUe ++ [dci.rnti]⟩

theorem buffered_of_bufferDlHarq {p : ActiveHarq} (hp : p.status = .waitingFeedback)
    (h : bufferDlHarq fs st i p = .ok st') : Buffered st st' i := by
  obtain ⟨toRetransmit, _, heq⟩ := Lts.ok_of_bind h
  cases heq
  exact ⟨p, toRetransmit, hp, rfl⟩

theorem allocated_of_allocateDlHarq {p : ActiveHarq} (h : allocateDlHarq st i p r = .ok st')
    (hp : p.status = .waitingFeedback) : Allocated st st' i p.dci r := by
  obtain ⟨u, _, heq⟩ := Lts.ok_of_bind h
  cases heq
  exact ⟨retransmitted p (r.dci p.dci), p.rlcPduInfo, hp, rfl⟩

/-- One process: it has its feedback, and it is placed where it has a place. -/
theorem scheduleDlProcess_cases (h : scheduleDlProcess cfg inp fs st i = .ok st') :
    ∃ p, procAt .dl st.ues i = some (some p) ∧ p.status = .receivedFeedback ∧
      (placeDci cfg inp st p.dci = none ∧ Buffered st st' i ∨
        ∃ r, placeDci cfg inp st p.dci = some r ∧ Allocated st st' i p.dci r) := by
  obtain ⟨v, hv, h⟩ := Lts.ok_of_bind h
  cases v with
  | none => cases h
  | some p =>
  change (if _ then _ else _) = Except.ok st' at h
  split at h
  · cases h
  next hstatus =>
  refine ⟨p, procAt_of_findProcess hv, Decidable.not_not.1 hstatus, ?_⟩
  have hbuf : ∀ {q : ActiveHarq}, q.status = .waitingFeedback → bufferDlHarq fs st i q = .ok st' →
    Buffered st st' i :=
    fun hq hb => buffered_of_bufferDlHarq hq hb
  dsimp only at h
  split at h
  next hue => exact .inl ⟨by simp [placeDci, refused, hue], hbuf rfl h⟩
  next hue =>
  split at h
  next hres => exact .inl ⟨by simp [placeDci, refused, hres], hbuf rfl h⟩
  next hres =>
  split at h
  next hfh => exact .inl ⟨if_pos (by simp [refused, hfh]), hbuf rfl h⟩
  next hfh =>
  have hrefused : refused cfg inp st.allocatedUe st.symAvail p.dci = false := by
    simp only [refused, hue, hres, decide_false, Bool.false_or]
    exact Bool.eq_false_iff.2 hfh
  obtain ⟨reshaped, hr, h⟩ := Lts.ok_of_bind h
  rw [placeDci, hrefused, if_neg Bool.false_ne_true, hr]
  cases reshaped with
  | none => exact .inl ⟨rfl, hbuf rfl h⟩
  | some r =>
    change (if _ then _ else _) = Except.ok st' at h
    split at h
    next hlt => exact .inl ⟨if_pos hlt, hbuf rfl h⟩
    next hge =>
      have halloc := allocated_of_allocateDlHarq h rfl
      exact .inr ⟨r, if_neg hge, halloc⟩

/-- The processes that have their feedback are as they were in the beginning; the others have been
visited. -/
def Pending (ues0 ues : List UeInfo) : Prop :=
  ∀ k p, procAt .dl ues k = some (some p) → p.status = .receivedFeedback →
    procAt .dl ues0 k = some (some p)

theorem Pending.setProcess {p q : ActiveHarq} (h : Pending ues0 ues)
    (hp : procAt .dl ues i = some (some p)) (hq : q.status = .waitingFeedback) :
    Pending ues0 (setProcess .dl ues i.1 i.2 q) := by
  intro k p' hp' hs
  obtain ⟨u, hu, hfind⟩ := bind_eq_some_iff.1 hp
  rw [procAt_setProcess hu hfind] at hp'
  split at hp'
  · cases hp'
    rw [hq] at hs
    cases hs
  · exact h k p' hp' hs

theorem Pending.step (h : Pending ues0 st.ues) (hst : scheduleDlProcess cfg inp fs st i = .ok st') :
    Pending ues0 st'.ues := by
  obtain ⟨p, hp, _, ⟨_, q, _, hq, rfl⟩ | ⟨_, _, q, _, hq, rfl⟩⟩ := scheduleDlProcess_cases hst
  · exact h.setProcess hp hq
  · exact h.setProcess hp hq

/-! ## The RBGs of a DCI -/

/-- The RBGs that are set in a bitmask. -/
def rbgsOf (bitmask : List Bool) : Set Nat := { i | bitmask.getD i false = true }

/-- The symbols and the RBGs of a DCI, in a bandwidth of `n` RBGs. -/
def Dci.block (n : Nat) (dci : Dci) : Block Nat Nat :=
  ⟨dci.symStart, dci.symStart + dci.numSym, { i | i < n ∧ i ∈ rbgsOf dci.rbgBitmask }⟩

theorem takeRbgs_some {m : List Bool} (h : takeRbgs m bitmask = .ok (some bitmask')) :
    bitmask'.length = bitmask.length ∧ (∀ i < bitmask.length, i ∈ rbgsOf m → i ∈ rbgsOf bitmask) ∧
      ∀ i, i ∈ rbgsOf bitmask' → i ∈ rbgsOf bitmask ∧ i ∉ rbgsOf m := by
  induction bitmask generalizing m bitmask' with
  | nil =>
    cases m <;> cases h <;> exact ⟨rfl, nofun, fun i hi => by simp [rbgsOf] at hi⟩
  | cons free bitmask ih =>
    cases m with
    | nil => cases h
    | cons taken m =>
      rw [takeRbgs] at h
      split at h
      · cases h
      next hfree =>
      obtain ⟨rest, hrest, heq⟩ := Lts.ok_of_bind h
      cases rest with
      | none => cases heq
      | some rest =>
        cases heq
        obtain ⟨hlen, hsub, hleft⟩ := ih hrest
        refine ⟨congrArg (· + 1) hlen, fun i hi => ?_, fun i => ?_⟩
        · cases i with
          | zero =>
            intro htaken
            simp only [rbgsOf, Set.mem_ofPred_eq, List.getD_cons_zero] at htaken ⊢
            simpa [htaken] using hfree
          | succ i => exact hsub i (Nat.lt_of_succ_lt_succ hi)
        · cases i with
          | zero => simp [rbgsOf]
          | succ i => exact hleft i

/-! ## The two modes -/

/-- With consolidation, `m_getReshapeAllocation` is `DoReshapeAllocation`, for some MCS of the UEs.
-/
def Reshapes (cfg : SchedConfig) (inp : DlTrigger) : Prop :=
  cfg.consolidateHarqRetx = true → ∃ ues fuel, inp.reshape = doReshapeAllocation ues fuel

/-- Without consolidation: the RBGs that are left if a DCI is placed with its own symbols and RBGs,
or none where it is not. -/
def freeFor (cfg : SchedConfig) (inp : DlTrigger) (allocatedUe : List Nat) (symAvail : Nat)
    (bitmask : List Bool) (dci : Dci) : Option (List Bool) :=
  if refused cfg inp allocatedUe symAvail dci then none
  else match takeRbgs dci.rbgBitmask bitmask with
    | .ok (some bitmask) => if symAvail < dci.numSym then none else some bitmask
    | _ => none

/-- The DCIs of a beam that are placed, where they keep their symbols and RBGs. -/
def placed (cfg : SchedConfig) (inp : DlTrigger) : List Nat → Nat → List Bool → List Dci → List Dci
  | _, _, _, [] => []
  | allocatedUe, symAvail, bitmask, dci :: dcis =>
    match freeFor cfg inp allocatedUe symAvail bitmask dci with
    | none => placed cfg inp allocatedUe symAvail bitmask dcis
    | some bitmask =>
      dci :: placed cfg inp (allocatedUe ++ [dci.rnti]) (symAvail - dci.numSym) bitmask dcis

theorem placeDci_own (hown : cfg.consolidateHarqRetx = false) :
    placeDci cfg inp st dci = (freeFor cfg inp st.allocatedUe st.symAvail st.bitmask dci).map
      fun bitmask =>
      ⟨st.startingSymbol, dci.numSym, dci.rbgBitmask, st.startingSymbol,
        (st.symAvail + 256 - dci.numSym) % 256, bitmask⟩ := by
  rw [placeDci, freeFor, reshapeDci, hown, if_neg Bool.false_ne_true]
  split
  · rfl
  cases htake : takeRbgs dci.rbgBitmask st.bitmask with
  | error e => rfl
  | ok left =>
    cases left with
    | none => rfl
    | some bitmask =>
      simp only [ok_bind, map_some]
      split
      · rfl
      · rfl

theorem freeFor_of_placeDci (hown : cfg.consolidateHarqRetx = false)
    (h : placeDci cfg inp st dci = some r) :
    freeFor cfg inp st.allocatedUe st.symAvail st.bitmask dci = some r.bitmask ∧
      r.numSym = dci.numSym := by
  rw [placeDci_own hown] at h
  obtain ⟨bitmask, hfree, rfl⟩ := map_eq_some_iff.1 h
  exact ⟨hfree, rfl⟩

theorem freeFor_some {allocatedUe : List Nat} {symAvail : Nat}
    (h : freeFor cfg inp allocatedUe symAvail bitmask dci = some bitmask') :
    takeRbgs dci.rbgBitmask bitmask = .ok (some bitmask') ∧ dci.numSym ≤ symAvail := by
  unfold freeFor at h
  split at h
  · cases h
  split at h
  next left htake =>
    split at h
    · cases h
    next hle =>
      cases h
      exact ⟨htake, Nat.not_lt.1 hle⟩
  · cases h

/-- The place of a DCI: at the current symbol, and within the symbols that are left. With
consolidation the next DCI comes after it, and otherwise it starts together with the next one and
takes free RBGs. -/
structure Place (cfg : SchedConfig) (st : DlHarqState) (r : Reshaped) : Prop where
  symStart : r.symStart = st.startingSymbol
  numSym : r.numSym ≤ st.symAvail
  symAvail : r.symAvail = st.symAvail - r.numSym
  after : cfg.consolidateHarqRetx = true → r.startingSymbol = st.startingSymbol + r.numSym ∧
    r.bitmask = st.bitmask
  beside : cfg.consolidateHarqRetx = false →
    r.startingSymbol = st.startingSymbol ∧ takeRbgs r.rbgBitmask st.bitmask = .ok (some r.bitmask)

theorem place_of_placeDci (hreshape : Reshapes cfg inp)
    (hfit : st.startingSymbol + st.symAvail < 256) (h : placeDci cfg inp st dci = some r) :
    Place cfg st r := by
  cases hmode : cfg.consolidateHarqRetx with
  | true =>
    obtain ⟨ues, fuel, hinp⟩ := hreshape hmode
    rw [placeDci, reshapeDci, hmode, if_pos rfl, hinp] at h
    split at h
    · cases h
    split at h
    next r' hr' =>
      obtain ⟨hstart, hle, hnext, havail, hmask⟩ := doReshapeAllocation_some (Except.ok.inj hr')
      split at h
      · cases h
      cases h
      refine ⟨hstart, hle, havail, fun _ => ⟨?_, hmask⟩, fun hown => ?_⟩
      · rw [hnext, Nat.mod_eq_of_lt (by omega)]
      · rw [hmode] at hown
        cases hown
    · cases h
  | false =>
    rw [placeDci_own hmode] at h
    obtain ⟨bitmask, hfree, rfl⟩ := map_eq_some_iff.1 h
    obtain ⟨htake, hle⟩ := freeFor_some hfree
    refine ⟨rfl, hle, ?_, fun hcons => ?_, fun _ => ⟨rfl, htake⟩⟩
    · change (st.symAvail + 256 - dci.numSym) % 256 = st.symAvail - dci.numSym
      omega
    · rw [hmode] at hcons
      cases hcons

theorem Place.length_bitmask (h : Place cfg st r) : r.bitmask.length = st.bitmask.length := by
  cases hmode : cfg.consolidateHarqRetx with
  | true => rw [(h.after hmode).2]
  | false => exact (takeRbgs_some (h.beside hmode).2).1

theorem symAvail_le_of_process (hreshape : Reshapes cfg inp)
    (hfit : st.startingSymbol + st.symAvail < 256)
    (h : scheduleDlProcess cfg inp fs st i = .ok st') :
    st'.startingSymbol + st'.symAvail ≤ st.startingSymbol + st.symAvail ∧
      st'.symAvail ≤ st.symAvail := by
  obtain ⟨p, _, _, ⟨_, q, _, _, rfl⟩ | ⟨r, hr, q, _, _, rfl⟩⟩ := scheduleDlProcess_cases h
  · exact ⟨Nat.le_refl _, Nat.le_refl _⟩
  · have hplace := place_of_placeDci hreshape hfit hr
    have havail := hplace.symAvail
    have hle := hplace.numSym
    cases hmode : cfg.consolidateHarqRetx with
    | true =>
      have hafter := (hplace.after hmode).1
      dsimp only
      omega
    | false =>
      have hbeside := (hplace.beside hmode).1
      dsimp only
      omega

theorem along_processes (hreshape : Reshapes cfg inp)
    (hfit : st.startingSymbol + st.symAvail < 256) :
    Along (scheduleDlProcess cfg inp fs) (fun s _ s' => s'.symAvail ≤ s.symAvail) st procs := by
  induction procs generalizing st with
  | nil => trivial
  | cons i procs ih =>
    intro st' hst'
    obtain ⟨hsum, hle⟩ := symAvail_le_of_process hreshape hfit hst'
    exact ⟨hle, ih (Nat.lt_of_le_of_lt hsum hfit)⟩

end OranNs3
