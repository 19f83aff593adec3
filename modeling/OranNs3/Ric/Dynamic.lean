import OranNs3.Ric.Fresh

/-!
# Logic modules that are added and removed while the RIC runs

`NotifyLmFinished` aborts the program when it is notified of commands of another cycle than the
current one. A query cancels the runs in flight of the modules it signals, and only of these: a
module that was removed, or is no longer the default one, keeps its run, which then completes in a
later cycle. When every run in flight at a query is of an active module that the query signals, no
completion comes in an unexpected cycle (`notifyLmFinished_expects`), whatever is added, removed or
replaced in between.
-/

namespace OranNs3

open EventQueue Option

namespace RicWorld

variable {w w' : RicWorld} {inp : RicInput} {i : LmId}

/-! ## A query does not abort -/

/-- A module that is signalled is not running, or was cancelled just before. -/
theorem rerunLm_total (w : RicWorld) (inp : RicInput) (i : LmId) :
    ∃ w', w.rerunLm inp i = .ok w' := by
  unfold rerunLm
  dsimp only
  cases hr : w.isRunning i with
  | false => cases ha : (w.lms i).active <;> simp [runLm, ha, hr]
  | true =>
    cases ha : (w.lms i).active with
    | false => simp [cancelRun, runLm, ha]
    | true =>
      have hc : (w.sim.cancel (w.lms i).finishRunEvent).isPending (w.lms i).finishRunEvent =
          false := isPending_eq_false_iff.2 fun e he => (mem_cancel.1 he).2
      have hp : w.sim.isPending (w.lms i).finishRunEvent = true := hr
      simp [cancelRun, runLm, isRunning, ha, hp, hc]

theorem foldlM_rerunLm_total (inp : RicInput) :
    ∀ (l : List LmId) (w : RicWorld), ∃ w', l.foldlM (rerunLm inp) w = .ok w'
  | [], w => ⟨w, rfl⟩
  | i :: l, w => by
    obtain ⟨w₁, h1⟩ := rerunLm_total w inp i
    obtain ⟨w₂, h2⟩ := foldlM_rerunLm_total inp l w₁
    refine ⟨w₂, ?_⟩
    rw [List.foldlM_cons, h1]
    exact h2

theorem queryLms_total (w : RicWorld) (inp : RicInput) : ∃ w', w.queryLms inp = .ok w' := by
  unfold queryLms
  split
  · obtain ⟨w₂, h⟩ := foldlM_rerunLm_total inp
      (w.beginCycle.checkForInactivity inp).scheduleProcessing.modules
      (w.beginCycle.checkForInactivity inp).scheduleProcessing
    dsimp only
    rw [h]
    exact ⟨_, rfl⟩
  · exact ⟨w, rfl⟩

/-- The program aborts for an unexpected cycle at the completion of an active module only. -/
theorem act_unexpectedCycle (hw : w.Wf) {a : RicAction}
    (h : w.act a = some (.error .unexpectedCycle)) :
    ∃ i, w.isRunning i = true ∧ (w.lms i).active = true ∧ (w.lms i).cycle ≠ w.ric.lmQueryCycle := by
  cases a with
  | fire inp =>
    obtain ⟨⟨e, q⟩, hn, h⟩ := map_eq_some_iff.1 h
    have hmem := next?_mem hn
    dsimp only at h
    cases hev : e.ev with
    | queryLms =>
      obtain ⟨w', hok⟩ := queryLms_total { w with sim := q } inp
      rw [hev, handle, hok] at h
      cases h
    | checkForInactivity | processLmQueryCommands =>
      rw [hev] at h
      cases h
    | finishRun i =>
      rw [hev, handle, finishRun] at h
      have hr : w.isRunning i = true :=
        isPending_iff.2 ⟨e, hmem, hw.handle_of_finish e hmem i hev⟩
      split at h
      · next ha =>
        refine ⟨i, hr, ha, fun hc => ?_⟩
        change (w.lms i).cycle = w.ric.lmQueryCycle at hc
        simp only [notifyLmFinished, hc, if_true] at h
        split at h <;> cases h
      · cases h
  | notifyReportReceived t inp answers =>
    obtain ⟨q, -, h⟩ := map_eq_some_iff.1 h
    simp only [call, RicWorld.notifyReportReceived] at h
    split at h
    · obtain ⟨w', hok⟩ := queryLms_total { w with
        sim := if q.isPending w.ric.lmQueryEvent then q.cancel w.ric.lmQueryEvent else q } inp
      rw [hok] at h
      cases h
    · cases h
  | start t inp =>
    obtain ⟨q, -, h⟩ := map_eq_some_iff.1 h
    simp only [call, start] at h
    split at h <;> cases h
  | setDefaultLogicModule | addLogicModule | removeLogicModule | activateLm | deactivateLm | stop =>
    obtain ⟨q, -, h⟩ := map_eq_some_iff.1 h
    cases h

/-! ## Runs in flight -/

/-- The runs in flight are for the current cycle. -/
def InCycle (w : RicWorld) : Prop :=
  ∀ i, w.isRunning i = true → (w.lms i).cycle = w.ric.lmQueryCycle

/-- The event is no completion of a module that the next query leaves alone. -/
def Signalled (w : RicWorld) : RicEvent → Prop
  | .finishRun i => i ∈ w.modules ∧ (w.lms i).active = true
  | _ => True

instance (w : RicWorld) : ∀ ev, Decidable (w.Signalled ev)
  | .finishRun _ => inferInstanceAs (Decidable (_ ∧ _))
  | .queryLms | .checkForInactivity | .processLmQueryCommands _ => .isTrue trivial

/-- At a query of a new cycle, the runs in flight are of active modules that it signals. -/
def QueriesSignal (w : RicWorld) (a : RicAction) : Prop :=
  ∀ t ∈ w.queryTime? a, t = w.ric.lmQueryCycle ∨ ∀ e ∈ w.sim.pending, w.Signalled e.ev
deriving Decidable

theorem InCycle.of_lmFrame (hw : w.Wf) (hc : w.InCycle) (h : LmFrame w w')
    (hcyc : w'.ric.lmQueryCycle = w.ric.lmQueryCycle) : w'.InCycle := by
  intro i hi
  rw [h.cycle, hcyc]
  exact hc i (h.isRunning hw hi)

theorem InCycle.queried (hw' : w'.Wf) (hc : w.InCycle) (h : Queried w w')
    (hok : w.sim.now = w.ric.lmQueryCycle ∨ ∀ e ∈ w.sim.pending, w.Signalled e.ev) :
    w'.InCycle := by
  intro i hi
  rw [h.lmQueryCycle]
  obtain ⟨e, he, hev⟩ := hw'.isRunning_iff.1 hi
  by_cases hsig : i ∈ w.modules ∧ (w.lms i).active = true
  · exact (h.ran i hsig.1 hsig.2).1
  have hlm := h.same i hsig
  rcases h.finish e he i hev with hs | he₀
  · exact absurd hs hsig
  rcases hok with hnow | hall
  · have hr : w.isRunning i = true := by
      have hid := hw'.handle_of_finish e he i hev
      rw [hlm] at hid
      exact isPending_iff.2 ⟨e, he₀, hid⟩
    rw [hlm, hnow]
    exact hc i hr
  · have := hall e he₀
    rw [hev] at this
    exact absurd this hsig

theorem InCycle.step {a : RicAction} (hw : w.Wf) (hc : w.InCycle) (hok : QueriesSignal w a)
    (h : Step w a w') : w'.InCycle := by
  cases h.kind hw with
  | neutral _ h => exact hc.of_lmFrame hw h.lmFrame h.lmQueryCycle
  | query q huid hq _ ht hwf h =>
    have htrim : Neutral w { w with sim := q } := Neutral.trim huid hq
    refine InCycle.queried hwf (hc.of_lmFrame hw htrim.lmFrame rfl) h ?_
    exact (hok _ ht).imp_right fun hall e he => hall e (hq e he)
  | finish q i huid hq _ _ ha _ h =>
    have hf := lmFrame_finishRun (w := { w with sim := q }) ha h
    obtain ⟨m, hm⟩ := finishRun_ric (w := { w with sim := q }) ha h
    refine hc.of_lmFrame hw ((Neutral.trim huid hq).lmFrame.trans hf) ?_
    rw [hm]
  | process q e n huid _ _ hq _ h =>
    have htrim : Neutral w { w with sim := q } := Neutral.trim huid fun x hx => ((hq x).1 hx).1
    refine hc.of_lmFrame hw (htrim.lmFrame.trans h.lmFrame) ?_
    rw [h.ric]

/-- In every run whose queries signal all modules with a run in flight, `NotifyLmFinished` does not
abort for an unexpected cycle. -/
theorem notifyLmFinished_expects (cfg : RicConfig) (names : LmId → String) (d : LmId)
    (adds : List LmId) (w : RicWorld)
    (h : Lts.Run Step QueriesSignal (init cfg names d adds) w) (a : RicAction) :
    w.act a ≠ some (.error .unexpectedCycle) := by
  have h0 : (init cfg names d adds).Wf ∧ (init cfg names d adds).InCycle :=
    ⟨wf_init cfg names d adds, nofun⟩
  obtain ⟨hw, hc⟩ := Lts.Run.invariant (I := fun w => w.Wf ∧ w.InCycle)
    (fun hi hok hst => ⟨hi.1.step hst, hi.2.step hi.1 hok hst⟩) h0 h
  intro herr
  obtain ⟨i, hr, -, hne⟩ := act_unexpectedCycle hw herr
  exact hne (hc i hr)

/-- The additional module is removed after its run is over. -/
theorem notifyLmFinished_expects_example : ∃ w : RicWorld, w.cycleNo = 2 ∧
    ∀ a, w.act a ≠ some (.error .unexpectedCycle) := by
  have hx : (Lts.execs QueriesSignal step? (init dropConfig exampleNames 0 [1])
      [.start 0 (quick [] 0), .fire (quick [0, 1] 7), .fire (quick [] 0), .fire (quick [] 0),
        .removeLogicModule 1500000 "A", .fire (quick [0] 7)]).map (·.cycleNo) = some 2 := by
    decide
  obtain ⟨w, hw, hc⟩ := map_eq_some_iff.1 hx
  exact ⟨w, hc, notifyLmFinished_expects dropConfig exampleNames 0 [1] w
    (Lts.run_of_execs step_of_step? hw)⟩

/-- The additional module is removed while it runs; its run completes in the next cycle. -/
theorem notifyLmFinished_unexpected : ¬ ∀ (cfg : RicConfig) (names : LmId → String) (d : LmId)
    (adds : List LmId) (w : RicWorld), Lts.Run Step Lts.anyStep (init cfg names d adds) w →
    ∀ a, w.act a ≠ some (.error .unexpectedCycle) := by
  intro h
  have hx : (Lts.execs Lts.anyStep step? (init dropConfig exampleNames 0 [1])
      [.start 0 (quick [] 0), .fire (quick [] 0), .removeLogicModule 1000000 "A",
        .fire (quick [0] 7), .fire (quick [] 0)]).map
      (fun w => (w.act (.fire (quick [] 0))).map fun r => match r with
        | .error .unexpectedCycle => true
        | _ => false) = some (some true) := by decide
  obtain ⟨w, hw, hc⟩ := map_eq_some_iff.1 hx
  obtain ⟨r, hr, hr'⟩ := map_eq_some_iff.1 hc
  have := h dropConfig exampleNames 0 [1] w (Lts.run_of_execs step_of_step? hw) (.fire (quick [] 0))
  rw [hr] at this
  split at hr'
  · exact this rfl
  · cases hr'

end RicWorld

end OranNs3
