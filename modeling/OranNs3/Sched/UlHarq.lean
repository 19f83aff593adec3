import OranNs3.Sched.Feedback

/-!
# Retransmissions in the UL

`ScheduleUlHarq` visits the feedback in order, and schedules a process where its symbols are left,
or buffers its feedback. The loop ends where no symbol is left; what it has not visited by then is
neither scheduled nor buffered. `visited` is the part of a list that is visited: it is determined by
the symbols of the DCIs. A process is visited only once, as it has to wait for its feedback after
that. So no retransmission is lost exactly where each process is visited (`conserved_iff`).
-/

namespace OranNs3

open Fallible List

variable {cfg : SchedConfig} {ues ues0 : List UeInfo} {p q : ActiveHarq}
  {allocs0 : List VarTtiAllocInfo} {st r : UlHarqState} {fs vis todo : List HarqInfo} {f : HarqInfo}

/-! ## What is visited -/

/-- The process of a DCI. -/
def VarTtiAllocInfo.key (a : VarTtiAllocInfo) : Nat × Nat := (a.dci.rnti, a.dci.harqProcess)

/-- The symbols of the UL DCI of a process. -/
def ulNumSym (ues : List UeInfo) (f : HarqInfo) : Nat :=
  ((procAt .ul ues f.key).join.map fun p => p.dci.numSym).getD 0

/-- The feedback that is visited before the symbols are used up, where each process takes its
symbols if they are left. -/
def visited (numSym : HarqInfo → Nat) : Nat → List HarqInfo → List HarqInfo
  | _, [] => []
  | symAvail, f :: fs =>
    if symAvail = 0 then []
    else f :: visited numSym (if numSym f ≤ symAvail then symAvail - numSym f else symAvail) fs

/-- What the loop has done with the feedback `vis`, with the allocations `new` so far: each process
is scheduled or buffered, and waits for its feedback; the others are as they were. -/
structure Visited (cfg : SchedConfig) (ues0 : List UeInfo) (vis : List HarqInfo)
    (new : List VarTtiAllocInfo) (st : UlHarqState) : Prop where
  ues : UesOk cfg st.ues
  other : ∀ k, k ∉ vis.map HarqInfo.key → procAt .ul st.ues k = procAt .ul ues0 k
  waiting : ∀ k ∈ vis.map HarqInfo.key, ∃ p, procAt .ul st.ues k = some (some p) ∧
    p.status = .waitingFeedback
  done : ∀ k, k ∈ vis.map HarqInfo.key ↔ k ∈ new.map VarTtiAllocInfo.key ∨
    k ∈ st.toRetransmit.map HarqInfo.key
  once : ∀ k ∈ new.map VarTtiAllocInfo.key, k ∉ st.toRetransmit.map HarqInfo.key

variable {new : List VarTtiAllocInfo}

theorem Visited.notMem {k : Nat × Nat} (h : Visited cfg ues0 vis new st)
    (hp : procAt .ul st.ues k = some (some p)) (hs : p.status = .receivedFeedback) :
    k ∉ vis.map HarqInfo.key := by
  intro hk
  obtain ⟨p', hp', hs'⟩ := h.waiting k hk
  rw [hp] at hp'
  cases hp'
  rw [hs] at hs'
  cases hs'

theorem Visited.assign {u : UeInfo} (h : Visited cfg ues0 vis new st)
    (hu : Keyed.find? UeInfo.rnti f.rnti st.ues = some u)
    (hp : (u.harq .ul).find? f.harqProcessId = some (some p))
    (hq : ProcOk cfg f.rnti f.harqProcessId q)
    (hs : q.status = .waitingFeedback) {r : UlHarqState} {new' : List VarTtiAllocInfo}
    (hues : r.ues = setProcess .ul st.ues f.rnti f.harqProcessId q)
    (hdone : ∀ k, k ∈ (vis ++ [f]).map HarqInfo.key ↔
      k ∈ new'.map VarTtiAllocInfo.key ∨ k ∈ r.toRetransmit.map HarqInfo.key)
    (honce : ∀ k ∈ new'.map VarTtiAllocInfo.key, k ∉ r.toRetransmit.map HarqInfo.key) :
    Visited cfg ues0 (vis ++ [f]) new' r := by
  have hat : ∀ k, procAt .ul r.ues k = if k = f.key then some (some q) else procAt .ul st.ues
    k := by
    intro k
    rw [hues]
    exact procAt_setProcess hu hp k
  refine ⟨?_, fun k hk => ?_, fun k hk => ?_, hdone, honce⟩
  · rw [hues]
    exact h.ues.setProcess hu hp hq
  · rw [map_append, mem_append, not_or, map_singleton, mem_singleton] at hk
    rw [hat, if_neg hk.2]
    exact h.other k hk.1
  · rw [map_append, mem_append, map_singleton, mem_singleton] at hk
    rw [hat]
    split
    · exact ⟨q, rfl, hs⟩
    next hne => exact h.waiting k (hk.resolve_right hne)

/-- The DCI of a retransmission that ends before the symbol `sym`. -/
def ulRetxDci (sym : Nat) (dci : Dci) (f : HarqInfo) : Dci :=
  { dci with
    symStart := (sym + 256 - dci.numSym) % 256
    ndi := 0
    rv := dci.rv + 1
    type := .data
    harqProcess := f.harqProcessId }

/-- A run of the loop visits what `visited` tells. -/
theorem Visited.run (hr : scheduleUlHarq st todo = .ok r) (hnew : st.allocs = new ++ allocs0)
    (h : Visited cfg ues0 vis new st) :
    ∃ new', r.allocs = new' ++ allocs0 ∧
      Visited cfg ues0 (vis ++ visited (ulNumSym ues0) st.symAvail todo) new' r := by
  induction todo generalizing st vis new with
  | nil =>
    cases hr
    exact ⟨new, hnew, by simpa [visited] using h⟩
  | cons f todo ih =>
    rw [scheduleUlHarq] at hr
    rw [visited]
    split at hr
    next hzero =>
      cases hr
      rw [if_pos hzero, append_nil]
      exact ⟨new, hnew, h⟩
    next hpos =>
      rw [if_neg hpos]
      split at hr
      · cases hr
      obtain ⟨v, hv, hr⟩ := Lts.ok_of_bind hr
      cases v with
      | none => cases hr
      | some p =>
      change (if _ then _ else _) = Except.ok r at hr
      split at hr
      · cases hr
      next hstatus =>
      have hat : procAt .ul st.ues f.key = some (some p) := procAt_of_findProcess hv
      have hnot := h.notMem hat (Decidable.not_not.1 hstatus)
      have hnum : ulNumSym ues0 f = p.dci.numSym := by
        rw [ulNumSym, ← h.other f.key hnot, hat]
        rfl
      obtain ⟨u, hu, hfind⟩ := Option.bind_eq_some_iff.1 hat
      have hproc := h.ues.proc hu hfind
      have hrv := hproc.nack (Decidable.not_not.1 hstatus)
      rw [hnum, append_cons]
      dsimp only at hr
      split at hr
      next hle =>
        rw [if_pos hle]
        refine @ih _ _ (⟨ulRetxDci st.sym p.dci f, []⟩ :: new) hr (congrArg (List.cons _) hnew) ?_
        have hdci : VarTtiAllocInfo.key ⟨ulRetxDci st.sym p.dci f, []⟩ = f.key :=
          Prod.ext hproc.rnti rfl
        refine h.assign hu hfind ?_ ?_ rfl (fun k => ?_) fun k hk => ?_
        · exact ⟨hproc.rnti, rfl, hrv, fun hs => HarqStatus.noConfusion hs⟩
        · rfl
        · simp only [map_append, mem_append, h.done k, map_cons, map_nil, mem_cons, not_mem_nil,
            or_false, hdci]
          rw [or_comm, or_assoc]
        · rw [map_cons, mem_cons, hdci] at hk
          rcases hk with rfl | hk
          · exact fun hmem => hnot ((h.done _).2 (.inr hmem))
          · exact h.once k hk
      next hgt =>
        rw [if_neg hgt]
        have hih := @ih _ (vis ++ [f]) new hr hnew
        refine hih (h.assign hu hfind ?_ ?_ rfl (fun k => ?_) fun k hk => ?_)
        · exact ⟨hproc.rnti, hproc.harqProcess, hproc.rv, fun hs => HarqStatus.noConfusion hs⟩
        · rfl
        · rw [map_append, mem_append, h.done k, map_append, mem_append, or_assoc]
        · rw [map_append, mem_append, not_or]
          refine ⟨h.once k hk, fun hmem => hnot ((h.done _).2 (.inl ?_))⟩
          rw [map_singleton, mem_singleton] at hmem
          exact hmem ▸ hk

/-! ## No retransmission is lost -/

/-- Each of the processes is among the new allocations, or its feedback is buffered, and not both.
-/
def Conserved (fs : List HarqInfo) (new : List VarTtiAllocInfo) (toRetransmit : List HarqInfo) :
    Prop :=
  ∀ f ∈ fs, Xor (f.key ∈ new.map VarTtiAllocInfo.key) (f.key ∈ toRetransmit.map HarqInfo.key)

/-- The processes whose feedback is visited before the symbols are used up are all. -/
def AllVisited (ues : List UeInfo) (symAvail : Nat) (fs : List HarqInfo) : Prop :=
  ∀ f ∈ fs, f.key ∈ (visited (ulNumSym ues) symAvail fs).map HarqInfo.key

/-- `ScheduleUlHarq` schedules or buffers each process if and only if no process is reached only
after the symbols are used up. -/
theorem conserved_iff {fs : List HarqInfo} {symAvail sym : Nat} {r : UlHarqState}
    (hues : UesOk cfg ues) (h : scheduleUlHarq ⟨ues, [], allocs0, symAvail, sym, 0⟩ fs = .ok r) :
    ∃ new, r.allocs = new ++ allocs0 ∧
      (Conserved fs new r.toRetransmit ↔ AllVisited ues symAvail fs) := by
  have hinit : Visited cfg ues [] [] ⟨ues, [], allocs0, symAvail, sym, 0⟩ :=
    ⟨hues, fun _ _ => rfl, nofun, by simp, nofun⟩
  obtain ⟨new, hnew, hvis⟩ := Visited.run h rfl hinit
  refine ⟨new, hnew, forall₂_congr fun f hf => ?_⟩
  rw [nil_append] at hvis
  rw [hvis.done]
  constructor
  · rintro (⟨hsched, -⟩ | ⟨hbuf, -⟩)
    · exact .inl hsched
    · exact .inr hbuf
  · rintro (hsched | hbuf)
    · exact .inl ⟨hsched, hvis.once _ hsched⟩
    · exact .inr ⟨hbuf, fun hsched => hvis.once _ hsched hbuf⟩

/-- A UE whose UL processes 0 and 1 have a NACK, each for 12 symbols. -/
def UeInfo.twoNacks : UeInfo :=
  let nack (id : Nat) : ActiveHarq :=
    ⟨.receivedFeedback, 0, ⟨1, .ul, 1, 12, 5, 1, 50, 1, 0, .data, id, [true]⟩, []⟩
  ⟨1, ⟨0, 0⟩, .setMaxSize .id 2, ⟨2, 2, [(0, some (nack 0)), (1, some (nack 1))]⟩⟩

theorem UeInfo.twoNacks_ok : UesOk .small [twoNacks] := by
  refine ⟨by decide, ?_⟩
  rintro u (_ | ⟨_, ⟨⟩⟩)
  constructor
  · rintro (_ | _)
    · exact HarqVector.wf_setMaxSize .id (by decide)
    · exact ⟨by decide, rfl, by decide, by decide, rfl⟩
  · rintro (_ | _)
    · exact HarqVector.forall_setMaxSize .id 2
    · rintro q (_ | ⟨_, _ | ⟨_, ⟨⟩⟩⟩) a ⟨⟩
      · exact ⟨rfl, rfl, by decide, fun _ => by decide⟩
      · exact ⟨rfl, rfl, by decide, fun _ => by decide⟩

/-- Two retransmissions of 12 symbols each, where 24 are available. -/
theorem conserved_iff_two_nacks : ∃ new r,
    scheduleUlHarq ⟨[.twoNacks], [], [], 24, 24, 0⟩ [⟨1, 0, false⟩, ⟨1, 1, false⟩] = .ok r ∧
    r.allocs = new ++ [] ∧ Conserved [⟨1, 0, false⟩, ⟨1, 1, false⟩] new r.toRetransmit := by
  have hrun : (scheduleUlHarq ⟨[.twoNacks], [], [], 24, 24, 0⟩ [⟨1, 0, false⟩,
    ⟨1, 1, false⟩]).toOption.isSome = true := by
    decide +kernel
  obtain ⟨r, hr⟩ := Option.isSome_iff_exists.1 hrun
  have hok := ok_of_toOption hr
  obtain ⟨new, hnew, hiff⟩ := conserved_iff UeInfo.twoNacks_ok hok
  have hvisited : AllVisited [.twoNacks] 24 [⟨1, 0, false⟩, ⟨1, 1, false⟩] := by
    unfold AllVisited
    decide +kernel
  exact ⟨new, r, hok, hnew, hiff.2 hvisited⟩

/-- With 12 symbols the second one is neither scheduled nor buffered. -/
theorem not_conserved : UesOk .small [.twoNacks] ∧ ∃ new r,
    scheduleUlHarq ⟨[.twoNacks], [], [], 12, 13, 0⟩ [⟨1, 0, false⟩, ⟨1, 1, false⟩] = .ok r ∧
      r.allocs = new ++ [] ∧ ¬ Conserved [⟨1, 0, false⟩, ⟨1, 1, false⟩] new r.toRetransmit := by
  refine ⟨UeInfo.twoNacks_ok, _, _, rfl, (append_nil _).symm, fun h => ?_⟩
  rcases h ⟨1, 1, false⟩ (by decide) with ⟨hsched, -⟩ | ⟨hbuf, -⟩
  · revert hsched
    decide
  · revert hbuf
    decide

end OranNs3
