import OranNs3.Ric.Spec

/-!
# Deactivating a logic module

`OranLm::Deactivate` clears the flag of the module and then calls `CancelRun`, which cancels nothing
while the flag is clear. A run in flight keeps its `FinishRun` event; when the module is activated
again before it, the commands of the run are delivered. The runs here are those of
`OranNs3.Ric.Model` with `Run` and `CancelRun` at any other time as well. As long as no module is
deactivated in the middle of a run, an inactive module has no completion pending and no command of a
run before a deactivation is delivered (`quiet_of_run`).

Ghost fields say when a module was deactivated last, and which commands of earlier runs were
delivered.
-/

namespace OranNs3

open EventQueue Function List Lts Option

/-- A step of the RIC, or a call of `Run` or `CancelRun` of a logic module at the time `t`. -/
inductive LmAction
  | ric (a : RicAction)
  | run (t : Time) (inp : RicInput) (lm : LmId) (cycle : Time)
  | cancelRun (t : Time) (lm : LmId)

/-- The RIC with what is known of the deactivations. -/
structure LmWorld where
  w : RicWorld
  since : LmId → Nat
  stale : List Command

namespace RicWorld

variable {w w' : RicWorld} {inp : RicInput} {i : LmId}

/-- The effect of an action: `none` when it cannot happen now. -/
def lmAct (w : RicWorld) : LmAction → Option (Except RicAbort RicWorld)
  | .ric a => w.act a
  | .run t inp i cycle => (w.sim.advance? t).map fun q => { w with sim := q }.runLm inp i cycle
  | .cancelRun t i => (w.sim.advance? t).map fun q => .ok ({ w with sim := q }.cancelRun i)

/-- The modules that the action deactivates; `Stop` does it by `OranNrNearRtRic::Deactivate`. -/
def deactivates (w : RicWorld) : LmAction → List LmId
  | .ric (.deactivateLm _ i) => [i]
  | .ric (.stop _) => if w.ric.active then w.modules else []
  | _ => []

/-- The module whose run the action completes, with the commands it delivers. -/
def delivers (w : RicWorld) : LmAction → List (LmId × Command)
  | .ric a => (w.completes? a).toList.flatMap fun i => (w.lms i).commands.map (i, ·)
  | _ => []

/-! ## The flags of the modules -/

/-- The modules keep their flags. -/
def SameFlags (w w' : RicWorld) : Prop := ∀ i, (w'.lms i).active = (w.lms i).active

theorem SameFlags.refl (w : RicWorld) : SameFlags w w := fun _ => rfl

theorem SameFlags.trans {w₁ w₂ w₃ : RicWorld} (h : SameFlags w₁ w₂) (h' : SameFlags w₂ w₃) :
    SameFlags w₁ w₃ := fun i => (h' i).trans (h i)

theorem SameFlags.of_lms {w w' : RicWorld} (h : w'.lms = w.lms) : SameFlags w w' :=
  fun _ => by rw [h]

theorem SameFlags.update (lm : Lm) (h : lm.active = (w.lms i).active)
    (hlms : w'.lms = Function.update w.lms i lm) : SameFlags w w' := by
  intro j
  rw [hlms]
  by_cases hj : j = i
  · subst hj
    rw [update_self, h]
  · rw [update_of_ne hj]

theorem sameFlags_cancelRun : SameFlags w (w.cancelRun i) := by
  unfold cancelRun
  split
  · exact SameFlags.update { w.lms i with commands := [] } rfl rfl
  · exact SameFlags.refl w

variable {cycle : Time}

theorem sameFlags_runLm (h : w.runLm inp i cycle = .ok w') : SameFlags w w' := by
  rcases runLm_ok h with ⟨-, rfl⟩ | ⟨-, -, rfl⟩
  · exact SameFlags.refl _
  · exact SameFlags.update (started inp w i w.sim.handle cycle) rfl rfl

theorem sameFlags_rerunLm (h : w.rerunLm inp i = .ok w') : SameFlags w w' := by
  unfold rerunLm at h
  dsimp only at h
  split at h
  · exact sameFlags_cancelRun.trans (sameFlags_runLm h)
  · exact sameFlags_runLm h

theorem sameFlags_queryLms (h : w.queryLms inp = .ok w') : SameFlags w w' := by
  unfold queryLms at h
  split at h
  · obtain ⟨w₂, h1, h2⟩ := ok_of_bind h
    cases h2
    have h0 : ((w.beginCycle.checkForInactivity inp).scheduleProcessing).lms = w.lms := by
      unfold scheduleProcessing
      split
      · exact checkForInactivity_lms
      · exact checkForInactivity_lms
    have hloop := foldlM_ok_induction (P := fun _ w₁ => SameFlags w w₁)
      (fun hP hf => SameFlags.trans hP (sameFlags_rerunLm hf)) _ (l := []) (SameFlags.of_lms h0) h1
    exact SameFlags.trans hloop (SameFlags.of_lms rfl)
  · cases h
    exact SameFlags.refl w

theorem sameFlags_processLmQueryCommands : SameFlags w w.processLmQueryCommands := by
  unfold processLmQueryCommands
  split
  · exact SameFlags.of_lms rfl
  · exact SameFlags.refl w

theorem sameFlags_finishRun (h : w.finishRun i = .ok w') : SameFlags w w' := by
  cases ha : (w.lms i).active with
  | false =>
    rw [finishRun_inactive ha] at h
    cases h
    exact SameFlags.refl w
  | true =>
    obtain ⟨-, w₁, h1, h2⟩ := finishRun_ok ha h
    obtain ⟨m, late, hc⟩ := collectCommands_frame w (w.lms i).commands i
    have h₁ : SameFlags w w₁ := SameFlags.of_lms (by rw [← h1, hc])
    have hclear : ∀ w₂ : RicWorld, SameFlags w₂ (w₂.clearCommands i) :=
      fun w₂ => SameFlags.update { w₂.lms i with commands := [] } rfl rfl
    rcases h2 with ⟨-, -, rfl⟩ | ⟨-, rfl⟩
    · exact (h₁.trans sameFlags_processLmQueryCommands).trans (hclear _)
    · exact h₁.trans (hclear _)

theorem sameFlags_handle {ev : RicEvent} (h : w.handle inp ev = .ok w') : SameFlags w w' := by
  cases ev with
  | queryLms => exact sameFlags_queryLms h
  | checkForInactivity =>
    cases h
    exact SameFlags.of_lms checkForInactivity_lms
  | processLmQueryCommands n =>
    cases h
    exact sameFlags_processLmQueryCommands
  | finishRun j => exact sameFlags_finishRun h

/-- No module becomes inactive, those of `l` apart. -/
def FlagsKept (l : List LmId) (w w' : RicWorld) : Prop :=
  ∀ i, (w'.lms i).active = false → (w.lms i).active = false ∨ i ∈ l

theorem SameFlags.kept (h : SameFlags w w') (l : List LmId) : FlagsKept l w w' :=
  fun i hi => .inl ((h i).symm.trans hi)

variable {l : List LmId}

theorem FlagsKept.trans {w₁ w₂ w₃ : RicWorld} (h : FlagsKept l w₁ w₂)
    (h' : FlagsKept l w₂ w₃) : FlagsKept l w₁ w₃ := by
  intro i hi
  rcases h' i hi with hi | hi
  · exact h i hi
  · exact .inr hi

theorem FlagsKept.foldl {f : RicWorld → LmId → RicWorld} :
    ∀ {l' : List LmId} (_ : ∀ w, ∀ j ∈ l', FlagsKept l w (f w j)) (w : RicWorld),
      FlagsKept l w (l'.foldl f w)
  | [], _, w => (SameFlags.refl w).kept l
  | j :: _, hf, w =>
    FlagsKept.trans (hf w j mem_cons_self)
      (FlagsKept.foldl (fun w k hk => hf w k (mem_cons_of_mem _ hk)) (f w j))

theorem flagsKept_activateLm : FlagsKept [] w (w.activateLm i) := by
  intro j hj
  by_cases hji : j = i
  · subst hji
    simp [activateLm] at hj
  · simp only [activateLm, update_of_ne hji] at hj
    exact .inl hj

theorem flagsKept_deactivateLm (hi : i ∈ l) : FlagsKept l w (w.deactivateLm i) := by
  intro j hj
  rw [deactivateLm_eq] at hj
  by_cases hji : j = i
  · exact .inr (hji ▸ hi)
  · simp only [update_of_ne hji] at hj
    exact .inl hj

theorem flagsKept_activate : FlagsKept [] w w.activate := by
  unfold activate
  split
  · exact (SameFlags.refl w).kept []
  · exact ((SameFlags.of_lms rfl).kept []).trans
      (FlagsKept.foldl (fun _ _ _ => flagsKept_activateLm) _)

theorem flagsKept_deactivate :
    FlagsKept (if w.ric.active then w.modules else []) w w.deactivate := by
  unfold deactivate
  split
  · exact (FlagsKept.foldl (fun _ _ hj => flagsKept_deactivateLm hj) w).trans
      ((SameFlags.of_lms rfl).kept _)
  · exact (SameFlags.of_lms rfl).kept _

variable {a : RicAction}

theorem flagsKept_call (h : w.call a = .ok w') : FlagsKept (w.deactivates (.ric a)) w w' := by
  cases a with
  | fire | setDefaultLogicModule | addLogicModule | removeLogicModule =>
    cases h
    exact (SameFlags.of_lms rfl).kept _
  | notifyReportReceived t inp answers =>
    change w.notifyReportReceived inp answers = .ok w' at h
    unfold RicWorld.notifyReportReceived at h
    split at h
    · exact (SameFlags.trans (SameFlags.of_lms rfl) (sameFlags_queryLms h)).kept _
    · cases h
      exact (SameFlags.refl w).kept _
  | activateLm =>
    cases h
    exact flagsKept_activateLm
  | deactivateLm t i =>
    cases h
    exact flagsKept_deactivateLm (mem_singleton.2 rfl)
  | start t inp =>
    change w.start inp = .ok w' at h
    unfold start at h
    dsimp only at h
    split at h
    · cases h
    · cases h
      exact flagsKept_activate.trans ((SameFlags.of_lms rfl).kept _)
  | stop =>
    cases h
    exact flagsKept_deactivate.trans ((SameFlags.of_lms rfl).kept _)

theorem flagsKept_act (h : w.act a = some (.ok w')) : FlagsKept (w.deactivates (.ric a)) w w' := by
  have hcall : ∀ q : EventQueue RicEvent, call { w with sim := q } a = .ok w' →
      FlagsKept (w.deactivates (.ric a)) w w' := by
    intro q h
    have hq := flagsKept_call h
    cases a <;> exact hq
  cases a with
  | fire inp =>
    obtain ⟨⟨e, q⟩, -, h⟩ := map_eq_some_iff.1 h
    exact (SameFlags.trans (SameFlags.of_lms rfl) (sameFlags_handle h)).kept _
  | _ =>
    obtain ⟨q, -, h⟩ := map_eq_some_iff.1 h
    exact hcall q h

/-! ## What an action does to the runs -/

/-- An action lets a module stay in its run or starts one of a module that is active. -/
structure Moved (w : RicWorld) (a : LmAction) (w' : RicWorld) : Prop where
  wf : w'.Wf
  runs : w.runs ≤ w'.runs
  flags : FlagsKept (w.deactivates a) w w'
  running : ∀ i, w'.isRunning i = true →
    w.isRunning i = true ∧ (w'.lms i).run = (w.lms i).run ∨
    (w.lms i).active = true ∧ i ∉ w.deactivates a ∧ w.runs ≤ (w'.lms i).run
  delivers : ∀ d ∈ w.delivers a, w.isRunning d.1 = true ∧ d.2 ∈ (w.lms d.1).commands

theorem Moved.of_lmFrame {a : LmAction} (hw : w.Wf) (h : LmFrame w w')
    (hflags : FlagsKept (w.deactivates a) w w')
    (hdel : ∀ d ∈ w.delivers a, w.isRunning d.1 = true ∧ d.2 ∈ (w.lms d.1).commands) :
    Moved w a w' where
  wf := Wf.of_lmFrame h hw
  runs := h.runs.ge
  flags := hflags
  running := fun i hi => .inl ⟨h.isRunning hw hi, h.run i⟩
  delivers := hdel

theorem lmFrame_cancelRun : LmFrame w (w.cancelRun i) := by
  unfold cancelRun
  split
  · exact (Neutral.cancel _).lmFrame.trans lmFrame_clearCommands
  · exact (Neutral.refl w).lmFrame

theorem Wf.runLm (hw : w.Wf) (h : w.runLm inp i cycle = .ok w') : w'.Wf := by
  rcases runLm_ok h with ⟨-, rfl⟩ | ⟨ha, hr, rfl⟩
  · exact hw
  -- the RIC could have signalled this run, were it in this cycle
  have hw₁ : Wf { w with ric := { w.ric with lmQueryCycle := cycle } } := { hw with }
  have hok : RicWorld.rerunLm inp { w with ric := { w.ric with lmQueryCycle := cycle } } i =
    .ok { w with
      sim := w.sim.schedule (inp.outcome i).delay (.finishRun i)
      lms := Function.update w.lms i (started inp w i w.sim.handle cycle)
      runs := w.runs + 1
      ric := { w.ric with lmQueryCycle := cycle } } := by
    have hidle : w.sim.isPending (w.lms i).finishRunEvent = false := hr
    simp [RicWorld.rerunLm, RicWorld.runLm, isRunning, hidle, ha, started]
  exact { hw₁.rerunLm hok with }

theorem moved_runLm {t : Time} (hw : w.Wf) (h : w.runLm inp i cycle = .ok w') :
    Moved w (.run t inp i cycle) w' := by
  have hwf := hw.runLm h
  have hflags := (sameFlags_runLm h).kept []
  rcases runLm_ok h with ⟨-, rfl⟩ | ⟨ha, -, rfl⟩
  · exact .of_lmFrame hw (Neutral.refl _).lmFrame hflags nofun
  · refine ⟨hwf, Nat.le_succ _, hflags, fun j hj => ?_, nofun⟩
    by_cases hji : j = i
    · subst hji
      exact .inr ⟨ha, not_mem_nil, by simp [started]⟩
    · refine .inl ⟨?_, by simp [update_of_ne hji]⟩
      obtain ⟨e, he, hev⟩ := hwf.isRunning_iff.1 hj
      refine hw.isRunning_iff.2 ⟨e, ?_, hev⟩
      rcases mem_schedule.1 he with rfl | he
      · cases hev
        exact absurd rfl hji
      · exact he

theorem running_of_completes (hw : w.Wf) (hc : w.completes? a = some i) : w.isRunning i = true := by
  cases a with
  | fire inp =>
    obtain ⟨⟨e, q⟩, hn, hc⟩ := bind_eq_some_iff.1 hc
    dsimp only at hc
    split at hc
    · next j hev =>
      by_cases ha : (w.lms j).active = true
      · rw [if_pos ha] at hc
        cases hc
        exact hw.isRunning_iff.2 ⟨e, next?_mem hn, hev⟩
      · rw [if_neg ha] at hc
        cases hc
    · cases hc
  | _ => cases hc

theorem delivers_ric (hw : w.Wf) :
    ∀ d ∈ w.delivers (.ric a), w.isRunning d.1 = true ∧ d.2 ∈ (w.lms d.1).commands := by
  intro d hd
  obtain ⟨j, hj, hd⟩ := mem_flatMap.1 hd
  obtain ⟨c, hc, rfl⟩ := mem_map.1 hd
  exact ⟨running_of_completes hw (mem_toList.1 hj), hc⟩

theorem deactivates_of_query {t : Time} (h : w.queryTime? a = some t) :
    w.deactivates (.ric a) = [] := by
  cases a with
  | fire | notifyReportReceived => rfl
  | _ => cases h

theorem moved_ric (hw : w.Wf) (h : Step w a w') : Moved w (.ric a) w' := by
  have hflags := flagsKept_act h
  have hdel := delivers_ric (a := a) hw
  cases h.kind hw with
  | neutral _ h => exact .of_lmFrame hw h.lmFrame hflags hdel
  | finish q j huid hq _ _ ha _ h =>
    have hf := lmFrame_finishRun (w := { w with sim := q }) ha h
    exact .of_lmFrame hw ((Neutral.trim huid hq).lmFrame.trans hf) hflags hdel
  | process q e n huid _ _ hq _ h =>
    have htrim : Neutral w { w with sim := q } := Neutral.trim huid fun x hx => ((hq x).1 hx).1
    exact .of_lmFrame hw (htrim.lmFrame.trans h.lmFrame) hflags hdel
  | query q _ hq _ ht hwf h =>
    refine ⟨hwf, h.runs, hflags, fun j hj => ?_, hdel⟩
    by_cases hm : j ∈ w.modules ∧ (w.lms j).active = true
    · refine .inr ⟨hm.2, ?_, (h.ran j hm.1 hm.2).2⟩
      rw [deactivates_of_query ht]
      exact not_mem_nil
    · obtain ⟨e, he, hev⟩ := hwf.isRunning_iff.1 hj
      rcases h.finish e he j hev with hm' | he
      · exact absurd hm' hm
      · exact .inl ⟨hw.isRunning_iff.2 ⟨e, hq e he, hev⟩, by rw [h.same j hm]⟩

theorem moved_of_lmAct {a : LmAction} (hw : w.Wf) (h : w.lmAct a = some (.ok w')) :
    Moved w a w' := by
  cases a with
  | ric a => exact moved_ric hw h
  | run t inp j cycle =>
    obtain ⟨q, hq, h⟩ := map_eq_some_iff.1 h
    obtain ⟨hp, -, huid, -⟩ := advance?_eq_some hq
    have htrim : Neutral w { w with sim := q } := Neutral.trim huid fun x hx => hp ▸ hx
    have hm := moved_runLm (t := t) (Wf.of_lmFrame htrim.lmFrame hw) h
    refine { hm with running := fun i hi => ?_, delivers := nofun }
    rcases hm.running i hi with ⟨hr, hrun⟩ | hnew
    · exact .inl ⟨htrim.lmFrame.isRunning hw hr, hrun⟩
    · exact .inr hnew
  | cancelRun t j =>
    obtain ⟨q, hq, h⟩ := map_eq_some_iff.1 h
    cases h
    obtain ⟨hp, -, huid, -⟩ := advance?_eq_some hq
    have htrim : Neutral w { w with sim := q } := Neutral.trim huid fun x hx => hp ▸ hx
    exact .of_lmFrame hw (htrim.lmFrame.trans lmFrame_cancelRun)
      (((SameFlags.of_lms rfl).trans sameFlags_cancelRun).kept []) nofun

end RicWorld

namespace LmWorld

open RicWorld

variable {s s' : LmWorld} {a : LmAction}

/-- One step, with the ghost fields. -/
def step? (s : LmWorld) (a : LmAction) : Option LmWorld :=
  match s.w.lmAct a with
  | some (.ok w') => some {
      w := w'
      since := fun i => if i ∈ s.w.deactivates a then s.w.runs else s.since i
      stale := s.stale ++ ((s.w.delivers a).filter fun d => d.2.run < s.since d.1).map (·.2) }
  | _ => none

/-- The step relation. -/
def Step (s : LmWorld) (a : LmAction) (s' : LmWorld) : Prop := s.step? a = some s'

/-- The RIC before it is started. -/
def init (cfg : RicConfig) (names : LmId → String) (d : LmId) (adds : List LmId) : LmWorld :=
  ⟨.init cfg names d adds, fun _ => 0, []⟩

/-- What `Deactivate` is for: no completion of an inactive module is pending, and no command of a
run started before a deactivation was delivered after it. -/
structure Quiet (s : LmWorld) : Prop where
  inactive : ∀ i, (s.w.lms i).active = false → ∀ e ∈ s.w.sim.pending, e.ev ≠ .finishRun i
  stale : s.stale = []

/-- No module is deactivated in the middle of a run. -/
def Idle (s : LmWorld) (a : LmAction) : Prop := ∀ i ∈ s.w.deactivates a, s.w.isRunning i = false
deriving Decidable

/-- The invariant: a run in flight is that of an active module and started after its last
deactivation. -/
structure Guarded (s : LmWorld) : Prop where
  wf : s.w.Wf
  inactive : ∀ i, (s.w.lms i).active = false → s.w.isRunning i = false
  since_le : ∀ i, s.since i ≤ s.w.runs
  running : ∀ i, s.w.isRunning i = true → s.since i ≤ (s.w.lms i).run
  stale : s.stale = []

theorem guarded_init (cfg : RicConfig) (names : LmId → String) (d : LmId) (adds : List LmId) :
    Guarded (init cfg names d adds) where
  wf := wf_init cfg names d adds
  inactive := fun _ _ => rfl
  since_le := fun _ => le_rfl
  running := nofun
  stale := rfl

theorem Guarded.stale_nil {a : LmAction} (hs : s.Guarded) {w' : RicWorld} (hm : Moved s.w a w') :
    ((s.w.delivers a).filter fun d => d.2.run < s.since d.1).map (·.2) = [] := by
  rw [map_eq_nil_iff, filter_eq_nil_iff]
  intro d hd
  obtain ⟨hr, hc⟩ := hm.delivers d hd
  have hrun := (hs.wf.stamped d.1 d.2 hc).1
  have := hs.running d.1 hr
  simp only [decide_eq_true_eq, not_lt]
  omega

theorem Guarded.step (hs : s.Guarded) (hidle : Idle s a) (h : Step s a s') : s'.Guarded := by
  unfold Step step? at h
  split at h
  case h_2 => cases h
  case h_1 w' hact =>
    cases h
    have hm := moved_of_lmAct hs.wf hact
    have hkept : ∀ i, s.w.isRunning i = true → i ∉ s.w.deactivates a := by
      intro i hr hi
      rw [hidle i hi] at hr
      cases hr
    refine ⟨hm.wf, fun i hi => ?_, fun i => ?_, fun i hi => ?_, ?_⟩
    · rw [← Bool.not_eq_true]
      intro hr
      rcases hm.running i hr with ⟨hr, -⟩ | ⟨ha, hnot, -⟩
      · rcases hm.flags i hi with ha | hi
        · rw [hs.inactive i ha] at hr
          cases hr
        · exact hkept i hr hi
      · rcases hm.flags i hi with ha' | hi
        · rw [ha] at ha'
          cases ha'
        · exact hnot hi
    · dsimp only
      split
      · exact hm.runs
      · exact (hs.since_le i).trans hm.runs
    · dsimp only
      rcases hm.running i hi with ⟨hr, hrun⟩ | ⟨-, hnot, hrun⟩
      · rw [if_neg (hkept i hr), hrun]
        exact hs.running i hr
      · rw [if_neg hnot]
        exact (hs.since_le i).trans hrun
    · rw [hs.stale, hs.stale_nil hm]
      rfl

theorem Guarded.quiet (hs : s.Guarded) : s.Quiet where
  inactive := by
    intro i hi e he hev
    have hr := hs.wf.isRunning_iff.2 ⟨e, he, hev⟩
    rw [hs.inactive i hi] at hr
    cases hr
  stale := hs.stale

/-- In every run that deactivates no module in the middle of a run, an inactive module has no
completion pending, and no command of a run started before a deactivation is delivered after it.
-/
theorem quiet_of_run (cfg : RicConfig) (names : LmId → String) (d : LmId) (adds : List LmId)
    (s : LmWorld) (h : Lts.Run LmWorld.Step Idle (init cfg names d adds) s) : s.Quiet :=
  (Lts.Run.invariant (I := Guarded) Guarded.step (guarded_init cfg names d adds) h).quiet

theorem step_of_step? (h : s.step? a = some s') : LmWorld.Step s a s' := h

/-! ## Runs on concrete inputs -/

/-- A query interval of a millisecond. -/
def plainConfig : RicConfig := ⟨1000000, le_rfl, 0, .drop⟩

/-- A run that takes `delay` and gives one command. -/
def oneCommand (delay : Time) : RicInput := ⟨fun _ => ⟨delay, [7]⟩, 0⟩

/-- A module finishes its run and is deactivated. -/
theorem quiet_of_run_finished : ∃ s : LmWorld, s.w.runs = 1 ∧ (s.w.lms 0).active = false ∧
    s.Quiet := by
  have hx : (execs Idle step? (init plainConfig (fun _ => "D") 0 [])
      [.ric (.activateLm 0 0), .run 0 (oneCommand 5) 0 0, .ric (.fire (oneCommand 5)),
        .ric (.deactivateLm 6 0)]).map (fun s => (s.w.runs, (s.w.lms 0).active)) = some (1,
        false) := by
    decide +kernel
  obtain ⟨s, hs, hw⟩ := map_eq_some_iff.1 hx
  obtain ⟨hruns, ha⟩ := Prod.mk.injEq .. ▸ hw
  exact ⟨s, hruns, ha,
    quiet_of_run plainConfig (fun _ => "D") 0 [] s (run_of_execs step_of_step? hs)⟩

/-- A module is deactivated in the middle of its run: the completion stays pending, and after a
second activation it delivers the command of the first one. -/
theorem deactivated_delivers :
    (¬ ∀ (cfg : RicConfig) (names : LmId → String) (d : LmId) (adds : List LmId) (s : LmWorld),
      Lts.Run LmWorld.Step Lts.anyStep (init cfg names d adds) s →
        ∀ i, (s.w.lms i).active = false → ∀ e ∈ s.w.sim.pending, e.ev ≠ .finishRun i) ∧
    ¬ ∀ (cfg : RicConfig) (names : LmId → String) (d : LmId) (adds : List LmId) (s : LmWorld),
      Lts.Run LmWorld.Step Lts.anyStep (init cfg names d adds) s → s.stale = [] := by
  constructor
  · intro h
    have hx : (execs anyStep step? (init plainConfig (fun _ => "D") 0 [])
        [.ric (.activateLm 0 0), .run 0 (oneCommand 5) 0 0, .ric (.deactivateLm 1 0)]).map
        (fun s => ((s.w.lms 0).active, s.w.sim.pending.map (·.ev))) =
          some (false, [.finishRun 0]) := by
      decide +kernel
    obtain ⟨s, hs, hw⟩ := map_eq_some_iff.1 hx
    obtain ⟨ha, hp⟩ := Prod.mk.injEq .. ▸ hw
    obtain ⟨e, he, hev⟩ := mem_map.1 (hp ▸ mem_singleton.2 rfl)
    exact h plainConfig _ 0 [] s (run_of_execs step_of_step? hs) 0 ha e he hev
  · intro h
    have hx : (execs anyStep step? (init plainConfig (fun _ => "D") 0 [])
        [.ric (.activateLm 0 0), .run 0 (oneCommand 5) 0 0, .ric (.deactivateLm 1 0),
          .ric (.activateLm 2 0), .ric (.fire (oneCommand 5))]).map (·.stale) =
          some [⟨7, 0, 0⟩] := by
      decide +kernel
    obtain ⟨s, hs, hw⟩ := map_eq_some_iff.1 hx
    have := h plainConfig _ 0 [] s (run_of_execs step_of_step? hs)
    rw [this] at hw
    cases hw

end LmWorld

end OranNs3
