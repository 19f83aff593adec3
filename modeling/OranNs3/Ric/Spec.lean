import OranNs3.Ric.Model

/-!
# What a step of the RIC can do

One specification for each operation of `OranNs3.Ric.Model`, so that the proofs about runs never
unfold the code again. `Wf` is the consistency of the logic modules with the simulator: a module is
running exactly when its own completion is pending, and its commands carry its run and its cycle.
A step of the RIC (`Step.kind`) is a query (`Queried`), the completion of a run (`finishRun_ok`), a
processing of the collected commands (`Processed`), or leaves the collected commands and the runs
alone (`Neutral`).
-/

namespace OranNs3

open Bool EventQueue Function List Option

namespace RicWorld

variable {w w' : RicWorld} {inp : RicInput} {i : LmId}

/-- The logic modules are consistent with the simulator. -/
structure Wf (w : RicWorld) : Prop where
  /-- A pending completion is the one its module has the handle of. -/
  handle_of_finish : ∀ e ∈ w.sim.pending, ∀ i, e.ev = .finishRun i →
    (w.lms i).finishRunEvent = some e.uid
  /-- The handle of a module is that of its completion. -/
  finish_of_handle : ∀ e ∈ w.sim.pending, ∀ i, (w.lms i).finishRunEvent = some e.uid →
    e.ev = .finishRun i
  /-- Handles are of events scheduled before. -/
  handle_lt : ∀ i u, (w.lms i).finishRunEvent = some u → u < w.sim.uid ∧ (w.lms i).run < w.runs
  /-- The commands of a module are of its last run. -/
  stamped : ∀ i, ∀ c ∈ (w.lms i).commands, c.run = (w.lms i).run ∧ c.cycle = (w.lms i).cycle
  /-- Runs in flight are distinct. -/
  run_inj : ∀ i j, w.isRunning i = true → w.isRunning j = true →
    (w.lms i).run = (w.lms j).run → i = j

theorem Wf.isRunning_iff (hw : w.Wf) :
    w.isRunning i = true ↔ ∃ e ∈ w.sim.pending, e.ev = .finishRun i := by
  rw [isRunning, isPending_iff]
  constructor
  · rintro ⟨e, he, hi⟩
    exact ⟨e, he, hw.finish_of_handle e he i hi⟩
  · rintro ⟨e, he, hi⟩
    exact ⟨e, he, hw.handle_of_finish e he i hi⟩

/-! ## The completion of a run -/

/-- `ProcessLmQueryCommands` of an active RIC. -/
structure Processed (w w' : RicWorld) : Prop where
  pending : ∀ e, e ∈ w'.sim.pending ↔
    e ∈ w.sim.pending ∧ w.ric.processLmQueryCommandsEvent ≠ some e.uid
  now : w'.sim.now = w.sim.now
  uid : w'.sim.uid = w.sim.uid
  ric : w'.ric = { w.ric with lmQueryCommands := ∅ }
  lms : w'.lms = w.lms
  cycleNo : w'.cycleNo = w.cycleNo
  runs : w'.runs = w.runs
  late : w'.late = w.late
  forwarded : w'.forwarded =
    w.forwarded ++ [⟨w.cycleNo, w.ric.lmQueryCycle, filterNoop w.ric.lmQueryCommands⟩]

theorem processLmQueryCommands_active (h : w.ric.active = true) :
    Processed w w.processLmQueryCommands := by
  have hs : w.processLmQueryCommands.sim =
      if w.sim.isPending w.ric.processLmQueryCommandsEvent then
        w.sim.cancel w.ric.processLmQueryCommandsEvent else w.sim := by
    simp [processLmQueryCommands, h]
  constructor
  case pending =>
    intro e
    rw [hs]
    split
    · exact mem_cancel
    · next hp =>
      rw [not_eq_true, isPending_eq_false_iff] at hp
      exact ⟨fun he => ⟨he, hp e he⟩, And.left⟩
  case now | uid => rw [hs]; split <;> rfl
  all_goals simp [processLmQueryCommands, h]

theorem processLmQueryCommands_inactive (h : w.ric.active = false) :
    w.processLmQueryCommands = w := by
  simp [processLmQueryCommands, h]

/-- The RIC with other collected commands. -/
def setCommands (w : RicWorld) (m : CommandMap) : RicWorld :=
  { w with ric := { w.ric with lmQueryCommands := m } }

/-- The three ways in which `NotifyLmFinished` treats the commands of the current cycle: in time
they are collected, late ones are dropped or saved. -/
theorem collectCommands_cases (w : RicWorld) (cs : List Command) (i : LmId) :
    w.inTime = true ∧ w.collectCommands cs i = w.setCommands
      (appendSlot (clearSlot w.ric.lmQueryCommands (w.lmKey i)) (w.lmKey i) cs) ∨
    w.inTime = false ∧ w.ric.cfg.lmQueryLateCommandPolicy = .drop ∧
      w.collectCommands cs i = w.setCommands (clearSlot w.ric.lmQueryCommands (w.lmKey i)) ∨
    w.inTime = false ∧ w.ric.cfg.lmQueryLateCommandPolicy = .save ∧
      w.collectCommands cs i = { w.setCommands
        (appendSlot (clearSlot w.ric.lmQueryCommands (w.lmKey i)) (w.lmKey i) cs) with
        late := w.late ++ [⟨w.cycleNo, (w.lms i).run, cs⟩] } := by
  cases hin : w.inTime with
  | true => exact .inl ⟨rfl, by simp [collectCommands, hin, setCommands]⟩
  | false =>
    cases hp : w.ric.cfg.lmQueryLateCommandPolicy with
    | drop => exact .inr (.inl ⟨rfl, rfl, by simp [collectCommands, hin, hp, setCommands]⟩)
    | save => exact .inr (.inr ⟨rfl, rfl, by simp [collectCommands, hin, hp, setCommands]⟩)

/-- A completion delivers the commands of an active module, for the current cycle, and processes the
collected commands when all modules have delivered in time. -/
theorem finishRun_ok (ha : (w.lms i).active = true) (h : w.finishRun i = .ok w') :
    (w.lms i).cycle = w.ric.lmQueryCycle ∧
    ∃ w₁, w.collectCommands (w.lms i).commands i = w₁ ∧
      ((w₁.ric.lmQueryCommands.size = w₁.ric.additionalLms.size + 1 ∧ w₁.inTime = true ∧
        w' = w₁.processLmQueryCommands.clearCommands i) ∨
      ¬ (w₁.ric.lmQueryCommands.size = w₁.ric.additionalLms.size + 1 ∧ w₁.inTime = true) ∧
        w' = w₁.clearCommands i) := by
  simp only [finishRun, ha, if_true] at h
  obtain ⟨w₂, h1, h2⟩ := Lts.ok_of_bind h
  cases h2
  unfold notifyLmFinished at h1
  split at h1
  · next hc =>
    refine ⟨hc, _, rfl, ?_⟩
    dsimp only at h1
    split at h1
    · next hs => cases h1; exact .inl ⟨hs.1, hs.2, rfl⟩
    · next hs => cases h1; exact .inr ⟨hs, rfl⟩
  · cases h1

theorem finishRun_inactive (ha : (w.lms i).active = false) : w.finishRun i = .ok w := by
  simp [finishRun, ha]

/-! ## Steps that leave the collected commands and the runs alone -/

/-- From `w` to `w'` no command is delivered, no run starts and no processing is scheduled; events
may be taken out of the queue, and flags of modules may change. -/
structure Neutral (w w' : RicWorld) : Prop where
  pending : ∀ e ∈ w'.sim.pending, e ∈ w.sim.pending ∨
    (e.ev = .queryLms ∨ e.ev = .checkForInactivity) ∧ w.sim.uid ≤ e.uid
  uid : w.sim.uid ≤ w'.sim.uid
  lms : ∀ i, w'.lms i = { w.lms i with active := (w'.lms i).active }
  cfg : w'.ric.cfg = w.ric.cfg
  lmQueryCycle : w'.ric.lmQueryCycle = w.ric.lmQueryCycle
  processEvent : w'.ric.processLmQueryCommandsEvent = w.ric.processLmQueryCommandsEvent
  commands : w'.ric.lmQueryCommands = w.ric.lmQueryCommands
  cycleNo : w'.cycleNo = w.cycleNo
  runs : w'.runs = w.runs
  forwarded : w'.forwarded = w.forwarded
  late : w'.late = w.late

theorem Neutral.refl (w : RicWorld) : Neutral w w :=
  ⟨fun _ he => .inl he, le_rfl, fun _ => rfl, rfl, rfl, rfl, rfl, rfl, rfl, rfl, rfl⟩

variable {w₁ w₂ w₃ : RicWorld}

theorem Neutral.trans (h : Neutral w₁ w₂) (h' : Neutral w₂ w₃) : Neutral w₁ w₃ where
  pending := by
    intro e he
    rcases h'.pending e he with he | ⟨hev, hu⟩
    · exact h.pending e he
    · exact .inr ⟨hev, h.uid.trans hu⟩
  uid := h.uid.trans h'.uid
  lms := fun i => by rw [h'.lms i, h.lms i]
  cfg := h'.cfg.trans h.cfg
  lmQueryCycle := h'.lmQueryCycle.trans h.lmQueryCycle
  processEvent := h'.processEvent.trans h.processEvent
  commands := h'.commands.trans h.commands
  cycleNo := h'.cycleNo.trans h.cycleNo
  runs := h'.runs.trans h.runs
  forwarded := h'.forwarded.trans h.forwarded
  late := h'.late.trans h.late

variable {q : EventQueue RicEvent}

theorem Neutral.trim (hu : q.uid = w.sim.uid)
    (hq : ∀ e ∈ q.pending, e ∈ w.sim.pending) : Neutral w { w with sim := q } :=
  { Neutral.refl w with
    pending := fun e he => .inl (hq e he)
    uid := hu.ge }

theorem Neutral.schedule {d : Nat} {ev : RicEvent} (hev : ev = .queryLms ∨ ev = .checkForInactivity)
    {h₁ h₂ : EventId} : Neutral w { w with
      sim := w.sim.schedule d ev
      ric := { w.ric with lmQueryEvent := h₁, e2NodeInactivityEvent := h₂ } } :=
  { Neutral.refl w with
    pending := by
      intro e he
      rcases mem_schedule.1 he with rfl | he
      · exact .inr ⟨hev, le_rfl⟩
      · exact .inl he
    uid := Nat.le_succ _ }

theorem Neutral.cancel (id : EventId) : Neutral w { w with sim := w.sim.cancel id } :=
  Neutral.trim rfl fun _ he => (mem_cancel.1 he).1

theorem Neutral.setActive (b : Bool) : Neutral w
    { w with lms := Function.update w.lms i { w.lms i with active := b } } :=
  { Neutral.refl w with
    lms := by
      intro j
      dsimp only
      by_cases hj : j = i
      · subst hj
        simp
      · simp [update_of_ne hj] }

theorem Neutral.foldl {f : RicWorld → LmId → RicWorld} (hf : ∀ w i, Neutral w (f w i)) :
    ∀ (l : List LmId) (w : RicWorld), Neutral w (l.foldl f w)
  | [], w => Neutral.refl w
  | i :: l, w => (hf w i).trans (Neutral.foldl hf l (f w i))

/-- `Deactivate` of a module only clears its flag: `CancelRun` finds the module inactive and cancels
nothing. -/
theorem deactivateLm_eq (w : RicWorld) (i : LmId) : w.deactivateLm i =
    { w with lms := Function.update w.lms i { w.lms i with active := false } } := by
  simp [deactivateLm, cancelRun]

theorem neutral_checkForInactivity : Neutral w (w.checkForInactivity inp) := by
  unfold checkForInactivity
  split
  · dsimp only
    split
    · exact (Neutral.cancel _).trans (Neutral.schedule (.inr rfl))
    · exact Neutral.schedule (.inr rfl)
  · exact Neutral.refl w

theorem neutral_scheduleQuery : Neutral w w.scheduleQuery := Neutral.schedule (.inl rfl)

theorem neutral_activate : Neutral w w.activate := by
  unfold activate
  split
  · exact Neutral.refl w
  · have h : Neutral w { w with ric := { w.ric with active := true } } := { Neutral.refl w with }
    exact h.trans (Neutral.foldl (f := activateLm) (fun w i => Neutral.setActive true) _ _)

theorem neutral_deactivate : Neutral w w.deactivate := by
  unfold deactivate
  dsimp only
  split
  · refine (Neutral.foldl (fun w i => ?_) _ _).trans { Neutral.refl _ with }
    rw [deactivateLm_eq]
    exact Neutral.setActive false
  · exact { Neutral.refl w with }

theorem neutral_start (h : w.start inp = .ok w') : Neutral w w' := by
  unfold start at h
  dsimp only at h
  split at h
  · cases h
  · cases h
    exact neutral_activate.trans (neutral_scheduleQuery.trans (Neutral.schedule (.inr rfl)))

theorem neutral_stop : Neutral w w.stop :=
  neutral_deactivate.trans ((Neutral.cancel _).trans ((Neutral.cancel _).trans (Neutral.cancel _)))

/-! ## A query -/

/-- The module `i` as a run started in `w` leaves it. -/
def started (inp : RicInput) (w : RicWorld) (i : LmId) (id : EventId) (cycle : Time) : Lm :=
  { w.lms i with
    cycle
    commands := (inp.outcome i).targets.map fun target => ⟨target, w.runs, cycle⟩
    finishRunEvent := id
    run := w.runs }

/-- `Run` leaves an inactive module alone and starts a run of an active one. -/
theorem runLm_ok {cycle : Time} (h : w.runLm inp i cycle = .ok w') :
    (w.lms i).active = false ∧ w' = w ∨
    (w.lms i).active = true ∧ w.isRunning i = false ∧ w' = { w with
      sim := w.sim.schedule (inp.outcome i).delay (.finishRun i)
      lms := Function.update w.lms i (started inp w i w.sim.handle cycle)
      runs := w.runs + 1 } := by
  unfold runLm at h
  split at h
  · next ha =>
    split at h
    · cases h
    · next hr =>
      injection h with h
      exact .inr ⟨ha, eq_false_iff.2 hr, h.symm⟩
  · next ha =>
    injection h with h
    exact .inl ⟨eq_false_iff.2 ha, h.symm⟩

/-- Signalling a module: an inactive one is left alone, and an active one starts a run for the
current cycle, its run in flight cancelled. -/
theorem rerunLm_ok (h : w.rerunLm inp i = .ok w') :
    (w.lms i).active = false ∧ w' = w ∨
    (w.lms i).active = true ∧ ∃ q : EventQueue RicEvent, q.now = w.sim.now ∧ q.uid = w.sim.uid ∧
      (∀ e, e ∈ q.pending ↔ e ∈ w.sim.pending ∧ (w.lms i).finishRunEvent ≠ some e.uid) ∧
      w' = { w with
        sim := q.schedule (inp.outcome i).delay (.finishRun i)
        lms := Function.update w.lms i (started inp w i q.handle w.ric.lmQueryCycle)
        runs := w.runs + 1 } := by
  unfold rerunLm at h
  dsimp only at h
  split at h
  · next hr =>
    unfold cancelRun at h
    split at h
    · next hc =>
      rw [and_eq_true] at hc
      rcases runLm_ok h with ⟨ha, -⟩ | ⟨-, -, rfl⟩
      · simp [hc.1] at ha
      · refine .inr ⟨hc.1, w.sim.cancel (w.lms i).finishRunEvent, rfl, rfl, fun e => mem_cancel, ?_⟩
        simp [started]
    · next hc =>
      rcases runLm_ok h with h | ⟨ha, hr', -⟩
      · exact .inl h
      · rw [hr] at hr'
        cases hr'
  · next hr =>
    rw [not_eq_true] at hr
    rcases runLm_ok h with h | ⟨ha, -, h⟩
    · exact .inl h
    · refine .inr ⟨ha, w.sim, rfl, rfl, fun e => ⟨fun he => ⟨he, ?_⟩, And.left⟩, h⟩
      exact isPending_eq_false_iff.1 hr e he

/-- Runs of the active ones of the modules `l` have been started in `w`, for the current cycle. -/
structure Reran (l : List LmId) (w w' : RicWorld) : Prop where
  ric : w'.ric = w.ric
  cycleNo : w'.cycleNo = w.cycleNo
  forwarded : w'.forwarded = w.forwarded
  late : w'.late = w.late
  now : w'.sim.now = w.sim.now
  uid : w.sim.uid ≤ w'.sim.uid
  runs : w.runs ≤ w'.runs
  flags : ∀ i, (w'.lms i).name = (w.lms i).name ∧ (w'.lms i).active = (w.lms i).active
  same : ∀ i, ¬ (i ∈ l ∧ (w.lms i).active = true) → w'.lms i = w.lms i
  ran : ∀ i, i ∈ l → (w.lms i).active = true →
    (w'.lms i).cycle = w.ric.lmQueryCycle ∧ w.runs ≤ (w'.lms i).run
  pending : ∀ e ∈ w'.sim.pending,
    (∃ i, e.ev = .finishRun i ∧ i ∈ l ∧ (w.lms i).active = true ∧ w.sim.uid ≤ e.uid) ∨
    e ∈ w.sim.pending ∧ ∀ i, e.ev = .finishRun i → ¬ (i ∈ l ∧ (w.lms i).active = true)

theorem Reran.nil (w : RicWorld) : Reran [] w w where
  ric := rfl
  cycleNo := rfl
  forwarded := rfl
  late := rfl
  now := rfl
  uid := le_rfl
  runs := le_rfl
  flags := fun _ => ⟨rfl, rfl⟩
  same := fun _ _ => rfl
  ran := nofun
  pending := fun _ he => .inr ⟨he, fun _ _ h => nomatch h.1⟩

/-- Signalling one module more. -/
theorem Reran.snoc {l : List LmId} {w₀ : RicWorld} (hw : w.Wf) (h : Reran l w₀ w)
    (hr : w.rerunLm inp i = .ok w') : Reran (l ++ [i]) w₀ w' := by
  have hact := (h.flags i).2
  rcases rerunLm_ok hr with ⟨ha, rfl⟩ | ⟨ha, q, hnow, huid, hq, rfl⟩
  · -- an inactive module is not among the active ones of the longer list either
    have hl : ∀ j, j ∈ l ++ [i] ∧ (w₀.lms j).active = true ↔ j ∈ l ∧ (w₀.lms j).active = true := by
      intro j
      rw [mem_append, mem_singleton]
      constructor
      · rintro ⟨hj | rfl, hj'⟩
        · exact ⟨hj, hj'⟩
        · rw [← hact, ha] at hj'
          cases hj'
      · rintro ⟨hj, hj'⟩
        exact ⟨.inl hj, hj'⟩
    refine { h with
      same := fun j hj => h.same j fun hj' => hj ((hl j).2 hj')
      ran := fun j hj hj' => h.ran j ((hl j).1 ⟨hj, hj'⟩).1 hj'
      pending := fun e he => ?_ }
    rcases h.pending e he with ⟨j, hev, hj, hj', hu⟩ | ⟨he, hf⟩
    · exact .inl ⟨j, hev, ((hl j).2 ⟨hj, hj'⟩).1, hj', hu⟩
    · exact .inr ⟨he, fun j hev hj => hf j hev ((hl j).1 hj)⟩
  · constructor
    case ric | cycleNo | forwarded | late => first
      | exact h.ric | exact h.cycleNo | exact h.forwarded | exact h.late
    case now => exact hnow.trans h.now
    case uid => exact h.uid.trans (huid.ge.trans (Nat.le_succ _))
    case runs => exact h.runs.trans (Nat.le_succ _)
    case flags =>
      intro j
      by_cases hj : j = i
      · subst hj
        simpa [started] using h.flags j
      · simpa [update_of_ne hj] using h.flags j
    case same =>
      intro j hj
      have hji : j ≠ i := by
        rintro rfl
        exact hj ⟨by simp, by rw [← hact, ha]⟩
      dsimp only
      rw [update_of_ne hji]
      exact h.same j fun hj' => hj ⟨mem_append_left _ hj'.1, hj'.2⟩
    case ran =>
      intro j hj hj'
      by_cases hji : j = i
      · subst hji
        simpa [started, h.ric] using h.runs
      · dsimp only
        rw [update_of_ne hji]
        rcases mem_append.1 hj with hj | hj
        · exact h.ran j hj hj'
        · exact absurd (mem_singleton.1 hj) hji
    case pending =>
      intro e he
      rcases mem_schedule.1 he with rfl | he
      · exact .inl ⟨i, rfl, by simp, by rw [← hact, ha], huid.ge.trans' h.uid⟩
      · obtain ⟨he, hne⟩ := (hq e).1 he
        rcases h.pending e he with ⟨j, hev, hj, hj', hu⟩ | ⟨he₀, hf⟩
        · exact .inl ⟨j, hev, mem_append_left _ hj, hj', hu⟩
        · refine .inr ⟨he₀, fun j hev hj => ?_⟩
          rcases mem_append.1 hj.1 with hjl | hji
          · exact hf j hev ⟨hjl, hj.2⟩
          · rw [mem_singleton.1 hji] at hev
            exact hne (hw.handle_of_finish e he i hev)

/-- Signalling a module keeps the consistency. -/
theorem Wf.rerunLm (hw : w.Wf) (hr : w.rerunLm inp i = .ok w') : w'.Wf := by
  rcases rerunLm_ok hr with ⟨-, rfl⟩ | ⟨-, q, hnow, huid, hq, rfl⟩
  · exact hw
  -- the new completion has the number `w.sim.uid`, above those of all handles of `w`
  have hlt : ∀ e ∈ q.pending, e.uid < w.sim.uid := fun e he => huid ▸ q.uid_lt e he
  have hrun : ∀ j, j ≠ i → RicWorld.isRunning { w with
      sim := q.schedule (inp.outcome i).delay (.finishRun i)
      lms := Function.update w.lms i (started inp w i q.handle w.ric.lmQueryCycle)
      runs := w.runs + 1 } j = true → w.isRunning j = true := by
    intro j hj hjr
    simp only [isRunning, update_of_ne hj, isPending_iff, mem_schedule] at hjr
    obtain ⟨e, rfl | he, hid⟩ := hjr
    · have := (hw.handle_lt j _ hid).1
      rw [entry_uid, huid] at this
      omega
    · exact isPending_iff.2 ⟨e, ((hq e).1 he).1, hid⟩
  constructor
  case handle_of_finish =>
    intro e he j hev
    dsimp only at he ⊢
    rcases mem_schedule.1 he with rfl | he
    · cases hev
      simp [started, EventQueue.handle]
    · obtain ⟨he₀, hne⟩ := (hq e).1 he
      have hji : j ≠ i := by
        rintro rfl
        exact hne (hw.handle_of_finish e he₀ j hev)
      rw [update_of_ne hji]
      exact hw.handle_of_finish e he₀ j hev
  case finish_of_handle =>
    intro e he j hid
    dsimp only at he hid ⊢
    by_cases hji : j = i
    · subst hji
      rw [update_self] at hid
      have hu : e.uid = w.sim.uid := by
        have : some q.uid = some e.uid := hid
        rw [some_inj] at this
        omega
      rcases mem_schedule.1 he with rfl | he
      · rfl
      · have := hlt e he
        omega
    · rw [update_of_ne hji] at hid
      rcases mem_schedule.1 he with rfl | he
      · have := (hw.handle_lt j _ hid).1
        rw [entry_uid, huid] at this
        omega
      · exact hw.finish_of_handle e ((hq e).1 he).1 j hid
  case handle_lt =>
    intro j u hid
    dsimp only at hid ⊢
    by_cases hji : j = i
    · subst hji
      rw [update_self] at hid ⊢
      have : some q.uid = some u := hid
      rw [some_inj] at this
      simp only [schedule_uid, started]
      omega
    · rw [update_of_ne hji] at hid ⊢
      have := hw.handle_lt j u hid
      simp only [schedule_uid]
      omega
  case stamped =>
    intro j c hc
    dsimp only at hc ⊢
    by_cases hji : j = i
    · subst hji
      rw [update_self] at hc ⊢
      obtain ⟨target, -, rfl⟩ := mem_map.1 hc
      exact ⟨rfl, rfl⟩
    · rw [update_of_ne hji] at hc ⊢
      exact hw.stamped j c hc
  case run_inj =>
    intro j k hj hk hjk
    dsimp only at hjk
    -- a run in flight of another module is older than the one just started
    have hold : ∀ m, m ≠ i → w.isRunning m = true → (w.lms m).run < w.runs := by
      intro m _ hm
      obtain ⟨e, _, hid⟩ := isPending_iff.1 hm
      exact (hw.handle_lt m _ hid).2
    by_cases hji : j = i <;> by_cases hki : k = i
    · rw [hji, hki]
    · subst hji
      rw [update_self, update_of_ne hki] at hjk
      have := hold k hki (hrun k hki hk)
      simp only [started] at hjk
      omega
    · subst hki
      rw [update_self, update_of_ne hji] at hjk
      have := hold j hji (hrun j hji hj)
      simp only [started] at hjk
      omega
    · rw [update_of_ne hji, update_of_ne hki] at hjk
      exact hw.run_inj j k (hrun j hji hj) (hrun k hki hk) hjk

theorem reran_of_foldlM (hw : w.Wf) {l : List LmId} (h : l.foldlM (rerunLm inp) w = .ok w') :
    w'.Wf ∧ Reran l w w' := by
  have := Lts.foldlM_ok_induction (f := RicWorld.rerunLm inp)
    (P := fun l w' => w'.Wf ∧ Reran l w w')
    (fun hP hf => ⟨hP.1.rerunLm hf, hP.2.snoc hP.1 hf⟩) l ⟨hw, Reran.nil w⟩ h
  rwa [nil_append] at this

/-- No run starts from `w` to `w'`: events may be taken out of the queue, events other than
completions may be scheduled, and modules keep their last run, with some of its commands. -/
structure LmFrame (w w' : RicWorld) : Prop where
  pending : ∀ e ∈ w'.sim.pending, e ∈ w.sim.pending ∨
    (∀ i, e.ev ≠ .finishRun i) ∧ w.sim.uid ≤ e.uid
  uid : w.sim.uid ≤ w'.sim.uid
  lms : ∀ i, ∃ active commands,
    w'.lms i = { w.lms i with active, commands } ∧
      ∀ c ∈ commands, c ∈ (w.lms i).commands
  runs : w'.runs = w.runs

theorem LmFrame.trans (h : LmFrame w₁ w₂) (h' : LmFrame w₂ w₃) : LmFrame w₁ w₃ where
  pending := by
    intro e he
    rcases h'.pending e he with he | ⟨hev, hu⟩
    · exact h.pending e he
    · exact .inr ⟨hev, h.uid.trans hu⟩
  uid := h.uid.trans h'.uid
  lms := by
    intro i
    obtain ⟨b, cs, hi, hcs⟩ := h.lms i
    obtain ⟨b', cs', hi', hcs'⟩ := h'.lms i
    rw [hi] at hi' hcs'
    exact ⟨b', cs', hi', fun c hc => hcs c (hcs' c hc)⟩
  runs := h'.runs.trans h.runs

theorem Neutral.lmFrame (h : Neutral w w') : LmFrame w w' where
  pending := by
    intro e he
    rcases h.pending e he with he | ⟨hev | hev, hu⟩
    · exact .inl he
    · exact .inr ⟨fun i => by simp [hev], hu⟩
    · exact .inr ⟨fun i => by simp [hev], hu⟩
  uid := h.uid
  lms := fun i => ⟨_, _, h.lms i, fun _ hc => hc⟩
  runs := h.runs

section
variable (h : LmFrame w w')
include h

theorem LmFrame.name (i : LmId) : (w'.lms i).name = (w.lms i).name := by
  obtain ⟨b, cs, hi, -⟩ := h.lms i
  rw [hi]

theorem LmFrame.cycle (i : LmId) : (w'.lms i).cycle = (w.lms i).cycle := by
  obtain ⟨b, cs, hi, -⟩ := h.lms i
  rw [hi]

theorem LmFrame.run (i : LmId) : (w'.lms i).run = (w.lms i).run := by
  obtain ⟨b, cs, hi, -⟩ := h.lms i
  rw [hi]

theorem LmFrame.finishRunEvent (i : LmId) :
    (w'.lms i).finishRunEvent = (w.lms i).finishRunEvent := by
  obtain ⟨b, cs, hi, -⟩ := h.lms i
  rw [hi]

theorem LmFrame.mem_of_handle (hw : w.Wf) {e : Scheduled RicEvent}
    (he : e ∈ w'.sim.pending) (hid : (w.lms i).finishRunEvent = some e.uid) :
    e ∈ w.sim.pending := by
  rcases h.pending e he with he | ⟨-, hu⟩
  · exact he
  · have := (hw.handle_lt i _ hid).1
    omega

theorem LmFrame.isRunning (hw : w.Wf) (hi : w'.isRunning i = true) : w.isRunning i = true := by
  obtain ⟨e, he, hid⟩ := isPending_iff.1 hi
  rw [h.finishRunEvent] at hid
  exact isPending_iff.2 ⟨e, h.mem_of_handle hw he hid, hid⟩

theorem Wf.of_lmFrame (hw : w.Wf) : w'.Wf := by
  constructor
  case handle_of_finish =>
    intro e he i hev
    rw [h.finishRunEvent]
    rcases h.pending e he with he | ⟨hne, -⟩
    · exact hw.handle_of_finish e he i hev
    · exact absurd hev (hne i)
  case finish_of_handle =>
    intro e he i hid
    rw [h.finishRunEvent] at hid
    exact hw.finish_of_handle e (h.mem_of_handle hw he hid) i hid
  case handle_lt =>
    intro i u hid
    rw [h.finishRunEvent] at hid
    have := hw.handle_lt i u hid
    rw [h.runs, h.run]
    exact ⟨this.1.trans_le h.uid, this.2⟩
  case stamped =>
    intro i c hc
    obtain ⟨b, cs, hi, hcs⟩ := h.lms i
    rw [hi] at hc ⊢
    exact hw.stamped i c (hcs c hc)
  case run_inj =>
    intro i j hi hj hij
    rw [h.run, h.run] at hij
    exact hw.run_inj i j (h.isRunning hw hi) (h.isRunning hw hj) hij

end

/-- A new cycle at the current time, with a processing event if there is a maximum waiting time. The
commands collected before and the processing events scheduled before stay. -/
structure NewCycle (w w' : RicWorld) : Prop where
  cfg : w'.ric.cfg = w.ric.cfg
  lmQueryCycle : w'.ric.lmQueryCycle = w.sim.now
  cycleNo : w'.cycleNo = w.cycleNo + 1
  commands : w'.ric.lmQueryCommands = w.ric.lmQueryCommands
  forwarded : w'.forwarded = w.forwarded
  late : w'.late = w.late
  process : ∀ e ∈ w'.sim.pending, ∀ n, e.ev = .processLmQueryCommands n →
    e ∈ w.sim.pending ∨ n = w'.cycleNo ∧ w'.ric.processLmQueryCommandsEvent = some e.uid
  processEvent : w'.ric.processLmQueryCommandsEvent = w.ric.processLmQueryCommandsEvent ∨
    0 < w.ric.cfg.lmQueryMaxWaitTime ∧
      ∃ u, w'.ric.processLmQueryCommandsEvent = some u ∧ w.sim.uid ≤ u ∧ u < w'.sim.uid ∧
        ∀ e ∈ w'.sim.pending, e.uid = u → ∃ n, e.ev = .processLmQueryCommands n

/-- A query: a new cycle, and a run of every active module for it. -/
structure Queried (w w' : RicWorld) : Prop extends NewCycle w w' where
  runs : w.runs ≤ w'.runs
  modules : w'.ric.defaultLm = w.ric.defaultLm ∧ w'.ric.additionalLms = w.ric.additionalLms
  names : ∀ i, (w'.lms i).name = (w.lms i).name
  same : ∀ i, ¬ (i ∈ w.modules ∧ (w.lms i).active = true) → w'.lms i = w.lms i
  ran : ∀ i, i ∈ w.modules → (w.lms i).active = true →
    (w'.lms i).cycle = w.sim.now ∧ w.runs ≤ (w'.lms i).run
  finish : ∀ e ∈ w'.sim.pending, ∀ i, e.ev = .finishRun i →
    (i ∈ w.modules ∧ (w.lms i).active = true) ∨ e ∈ w.sim.pending
  uid : w.sim.uid ≤ w'.sim.uid
  old : ∀ e ∈ w'.sim.pending, e.uid < w.sim.uid → e ∈ w.sim.pending

theorem checkForInactivity_modules :
    (w.checkForInactivity inp).ric.defaultLm = w.ric.defaultLm ∧
    (w.checkForInactivity inp).ric.additionalLms = w.ric.additionalLms := by
  unfold checkForInactivity
  split <;> exact ⟨rfl, rfl⟩

theorem checkForInactivity_lms : (w.checkForInactivity inp).lms = w.lms := by
  unfold checkForInactivity
  split <;> rfl

/-- The part of `QueryLms` before the runs: the cycle, the inactivity check and the timer. -/
structure Begun (w w' : RicWorld) : Prop extends LmFrame w w', NewCycle w w' where
  lms_eq : w'.lms = w.lms
  defaultLm : w'.ric.defaultLm = w.ric.defaultLm
  additionalLms : w'.ric.additionalLms = w.ric.additionalLms

theorem begun (w : RicWorld) (inp : RicInput) :
    Begun w (w.beginCycle.checkForInactivity inp).scheduleProcessing := by
  have hn : Neutral w.beginCycle (w.beginCycle.checkForInactivity inp) :=
    neutral_checkForInactivity
  have hlms : (w.beginCycle.checkForInactivity inp).lms = w.lms := checkForInactivity_lms
  obtain ⟨hd, had⟩ : (w.beginCycle.checkForInactivity inp).ric.defaultLm = w.ric.defaultLm ∧
      (w.beginCycle.checkForInactivity inp).ric.additionalLms = w.ric.additionalLms :=
    checkForInactivity_modules
  generalize w.beginCycle.checkForInactivity inp = w₁ at hn hlms hd had ⊢
  have hold : ∀ e ∈ w₁.sim.pending, ∀ n, e.ev = .processLmQueryCommands n →
      e ∈ w.sim.pending := by
    intro e he n hev
    rcases hn.pending e he with he | ⟨hq, -⟩
    · exact he
    · simp [hev] at hq
  have hu : w.sim.uid ≤ w₁.sim.uid := hn.uid
  unfold scheduleProcessing
  split
  · next hmax =>
    exact {
      pending := by
        intro e he
        rcases mem_schedule.1 he with rfl | he
        · exact .inr ⟨nofun, hu⟩
        · exact hn.lmFrame.pending e he
      uid := hu.trans (Nat.le_succ _)
      lms := hn.lmFrame.lms
      runs := hn.runs
      cfg := hn.cfg
      lmQueryCycle := hn.lmQueryCycle
      cycleNo := hn.cycleNo
      commands := hn.commands
      forwarded := hn.forwarded
      late := hn.late
      lms_eq := hlms
      defaultLm := hd
      additionalLms := had
      process := by
        intro e he n hev
        rcases mem_schedule.1 he with rfl | he
        · cases hev
          exact .inr ⟨rfl, rfl⟩
        · exact .inl (hold e he n hev)
      processEvent := by
        rw [hn.cfg] at hmax
        refine .inr ⟨hmax, w₁.sim.uid, rfl, hu, Nat.lt_succ_self _, fun e he heu => ?_⟩
        rcases mem_schedule.1 he with rfl | he
        · exact ⟨_, rfl⟩
        · have := w₁.sim.uid_lt e he
          omega }
  · exact {
      hn.lmFrame with
      cfg := hn.cfg
      lmQueryCycle := hn.lmQueryCycle
      cycleNo := hn.cycleNo
      commands := hn.commands
      forwarded := hn.forwarded
      late := hn.late
      lms_eq := hlms
      defaultLm := hd
      additionalLms := had
      process := fun e he n hev => .inl (hold e he n hev)
      processEvent := .inl hn.processEvent }

theorem queryLms_ok (hw : w.Wf) (ha : w.ric.active = true) (h : w.queryLms inp = .ok w') :
    w'.Wf ∧ Queried w w' := by
  simp only [queryLms, ha, if_true] at h
  obtain ⟨w₂, h1, h2⟩ := Lts.ok_of_bind h
  cases h2
  have hb := begun w inp
  generalize (w.beginCycle.checkForInactivity inp).scheduleProcessing = w₁ at hb h1
  have hm : w₁.modules = w.modules := by
    unfold modules
    rw [hb.defaultLm, hb.additionalLms]
  rw [hm] at h1
  obtain ⟨hw₂, hr⟩ := reran_of_foldlM (hw.of_lmFrame hb.toLmFrame) h1
  have hq := neutral_scheduleQuery (w := w₂)
  have hlms : w₂.scheduleQuery.lms = w₂.lms := rfl
  refine ⟨hw₂.of_lmFrame hq.lmFrame, ?_⟩
  exact {
    cfg := by rw [hq.cfg, hr.ric, hb.cfg]
    lmQueryCycle := by rw [hq.lmQueryCycle, hr.ric, hb.lmQueryCycle]
    cycleNo := by rw [hq.cycleNo, hr.cycleNo, hb.cycleNo]
    commands := by rw [hq.commands, hr.ric, hb.commands]
    forwarded := by rw [hq.forwarded, hr.forwarded, hb.forwarded]
    late := by rw [hq.late, hr.late, hb.late]
    runs := by rw [hq.runs]; exact hb.runs.ge.trans hr.runs
    modules := by
      show w₂.ric.defaultLm = _ ∧ w₂.ric.additionalLms = _
      rw [hr.ric]
      exact ⟨hb.defaultLm, hb.additionalLms⟩
    names := fun i => by rw [hlms, (hr.flags i).1, hb.lms_eq]
    same := fun i hi => by
      rw [hlms, ← hb.lms_eq]
      exact hr.same i (by rwa [hb.lms_eq])
    ran := fun i hi hi' => by
      rw [hlms, ← hb.lmQueryCycle, ← hb.runs]
      exact hr.ran i hi (by rwa [hb.lms_eq])
    finish := by
      intro e he i hev
      rcases hq.pending e he with he | ⟨hne, -⟩
      · rcases hr.pending e he with ⟨j, hj, hjm, hja, -⟩ | ⟨he, -⟩
        · rw [hj] at hev
          cases hev
          exact .inl ⟨hjm, by rwa [hb.lms_eq] at hja⟩
        · rcases hb.pending e he with he | ⟨hne, -⟩
          · exact .inr he
          · exact absurd hev (hne i)
      · simp [hev] at hne
    process := by
      intro e he n hev
      rw [hq.cycleNo, hr.cycleNo, hq.processEvent, hr.ric]
      rcases hq.pending e he with he | ⟨hne, -⟩
      · rcases hr.pending e he with ⟨j, hj, -⟩ | ⟨he, -⟩
        · rw [hj] at hev
          cases hev
        · exact hb.process e he n hev
      · simp [hev] at hne
    processEvent := by
      rw [hq.processEvent, hr.ric]
      rcases hb.processEvent with h | ⟨h, u, hu, hle, hlt, hproc⟩
      · exact .inl h
      · refine .inr ⟨h, u, hu, hle, hlt.trans_le (hr.uid.trans hq.uid), fun e he heu => ?_⟩
        -- completions and the next query are scheduled after the timer
        have := hr.uid
        rcases hq.pending e he with he | ⟨-, hge⟩
        · rcases hr.pending e he with ⟨j, -, -, -, hge⟩ | ⟨he, -⟩
          · omega
          · exact hproc e he heu
        · omega
    uid := hb.uid.trans (hr.uid.trans hq.uid)
    old := by
      intro e he hlt
      have := hb.uid
      have := hr.uid
      rcases hq.pending e he with he | ⟨-, hge⟩
      · rcases hr.pending e he with ⟨j, -, -, -, hge⟩ | ⟨he, -⟩
        · omega
        · rcases hb.pending e he with he | ⟨-, hge⟩
          · exact he
          · omega
      · omega }

/-! ## The set of modules -/

/-- The RIC has the same modules. -/
structure SameModules (w w' : RicWorld) : Prop where
  defaultLm : w'.ric.defaultLm = w.ric.defaultLm
  additionalLms : w'.ric.additionalLms = w.ric.additionalLms

theorem SameModules.trans (h : SameModules w₁ w₂) (h' : SameModules w₂ w₃) : SameModules w₁ w₃ :=
  ⟨h'.defaultLm.trans h.defaultLm, h'.additionalLms.trans h.additionalLms⟩

theorem SameModules.modules (h : SameModules w w') : w'.modules = w.modules := by
  unfold RicWorld.modules
  rw [h.defaultLm, h.additionalLms]

theorem SameModules.foldl {f : RicWorld → LmId → RicWorld} (hf : ∀ w i, (f w i).ric = w.ric) :
    ∀ (l : List LmId) (w : RicWorld), SameModules w (l.foldl f w)
  | [], _ => ⟨rfl, rfl⟩
  | i :: l, w => by
    have h : SameModules w (f w i) := ⟨by rw [hf], by rw [hf]⟩
    exact h.trans (SameModules.foldl hf l (f w i))

theorem sameModules_activate : SameModules w w.activate := by
  unfold activate
  split
  · exact ⟨rfl, rfl⟩
  · have h : SameModules w { w with ric := { w.ric with active := true } } := ⟨rfl, rfl⟩
    exact h.trans (SameModules.foldl (f := activateLm) (fun _ _ => rfl) _ _)

theorem sameModules_deactivate : SameModules w w.deactivate := by
  unfold deactivate
  dsimp only
  split
  · have h := SameModules.foldl (f := deactivateLm) (fun w i => by rw [deactivateLm_eq]) w.modules w
    exact ⟨h.defaultLm, h.additionalLms⟩
  · exact ⟨rfl, rfl⟩

theorem sameModules_start (h : w.start inp = .ok w') : SameModules w w' := by
  unfold start at h
  dsimp only at h
  split at h
  · cases h
  · cases h
    have h := sameModules_activate (w := w)
    exact ⟨h.defaultLm, h.additionalLms⟩

theorem collectCommands_frame (w : RicWorld) (cs : List Command) (i : LmId) :
    ∃ m late, w.collectCommands cs i =
      { w with ric := { w.ric with lmQueryCommands := m }, late } := by
  rcases collectCommands_cases w cs i with ⟨-, h⟩ | ⟨-, -, h⟩ | ⟨-, -, h⟩
  · exact ⟨_, w.late, h.trans rfl⟩
  · exact ⟨_, w.late, h.trans rfl⟩
  · exact ⟨_, _, h.trans rfl⟩

theorem processLmQueryCommands_ric : ∃ m,
    w.processLmQueryCommands.ric = { w.ric with lmQueryCommands := m } := by
  unfold processLmQueryCommands
  split
  · exact ⟨_, rfl⟩
  · exact ⟨_, rfl⟩

theorem finishRun_ric (ha : (w.lms i).active = true) (h : w.finishRun i = .ok w') :
    ∃ m, w'.ric = { w.ric with lmQueryCommands := m } := by
  obtain ⟨-, w₁, h1, h2⟩ := finishRun_ok ha h
  obtain ⟨m, late, hfr⟩ := collectCommands_frame w (w.lms i).commands i
  rw [hfr] at h1
  subst h1
  rcases h2 with ⟨-, -, rfl⟩ | ⟨-, rfl⟩
  · obtain ⟨m', hm'⟩ := processLmQueryCommands_ric
      (w := { w with ric := { w.ric with lmQueryCommands := m }, late })
    exact ⟨m', hm'⟩
  · exact ⟨m, rfl⟩

/-! ## The cases of a step -/

/-- What a step can be, with the queue `q` from which the handler starts. -/
inductive StepKind (w : RicWorld) (a : RicAction) (w' : RicWorld) : Prop
  | neutral (hm : a.KeepsModules → SameModules w w') (h : Neutral w w')
  | query (q : EventQueue RicEvent) (huid : q.uid = w.sim.uid)
      (hq : ∀ e ∈ q.pending, e ∈ w.sim.pending) (ha : w.ric.active = true)
      (ht : w.queryTime? a = some q.now) (hwf : w'.Wf) (h : Queried { w with sim := q } w')
  | finish (q : EventQueue RicEvent) (i : LmId) (huid : q.uid = w.sim.uid)
      (hq : ∀ e ∈ q.pending, e ∈ w.sim.pending) (hr : w.isRunning i = true)
      (hn : isRunning { w with sim := q } i = false) (ha : (w.lms i).active = true)
      (hc : w.completes? a = some i) (h : finishRun { w with sim := q } i = .ok w')
  | process (q : EventQueue RicEvent) (e : Scheduled RicEvent) (n : Nat) (huid : q.uid = w.sim.uid)
      (he : e ∈ w.sim.pending) (hev : e.ev = .processLmQueryCommands n)
      (hq : ∀ x, x ∈ q.pending ↔ x ∈ w.sim.pending ∧ x.uid ≠ e.uid)
      (ha : w.ric.active = true) (h : Processed { w with sim := q } w')

variable {a : RicAction}

theorem StepKind.of_queryLms (hw : w.Wf)
    (huid : q.uid = w.sim.uid) (hq : ∀ e ∈ q.pending, e ∈ w.sim.pending)
    (ht : w.ric.active = true → w.queryTime? a = some q.now)
    (h : queryLms inp { w with sim := q } = .ok w') : StepKind w a w' := by
  have htrim := Neutral.trim huid hq
  cases ha : w.ric.active with
  | true =>
    obtain ⟨hw', hq'⟩ := queryLms_ok (hw.of_lmFrame htrim.lmFrame) ha h
    exact .query q huid hq ha (ht ha) hw' hq'
  | false =>
    simp only [queryLms, ha, false_eq_true, if_false] at h
    cases h
    exact .neutral (fun _ => ⟨rfl, rfl⟩) htrim

/-- The cases of a step that runs the next event. -/
theorem StepKind.of_handle {e : Scheduled RicEvent} (hw : w.Wf)
    (hn : w.sim.next? = some (e, q)) (h : handle inp { w with sim := q } e.ev = .ok w') :
    StepKind w (.fire inp) w' := by
  obtain ⟨-, hnow, huid⟩ := next?_eq_some hn
  have hmem := next?_mem hn
  have hq : ∀ x ∈ q.pending, x ∈ w.sim.pending := fun x hx => ((mem_next? hn).1 hx).1
  have htrim : Neutral w { w with sim := q } := Neutral.trim huid hq
  cases hev : e.ev with
  | queryLms =>
    rw [hev] at h
    refine StepKind.of_queryLms hw huid hq (fun ha => ?_) h
    simp [queryTime?, hn, hev, ha, hnow]
  | checkForInactivity =>
    rw [hev] at h
    cases h
    exact .neutral (fun _ => ⟨checkForInactivity_modules.1, checkForInactivity_modules.2⟩)
      (htrim.trans neutral_checkForInactivity)
  | processLmQueryCommands n =>
    rw [hev] at h
    cases h
    cases ha : w.ric.active with
    | true =>
      have hp := processLmQueryCommands_active (w := { w with sim := q }) ha
      exact .process q e n huid hmem hev (fun x => mem_next? hn) ha hp
    | false =>
      rw [processLmQueryCommands_inactive (w := { w with sim := q }) ha]
      exact .neutral (fun _ => ⟨rfl, rfl⟩) htrim
  | finishRun i =>
    rw [hev] at h
    change finishRun { w with sim := q } i = .ok w' at h
    have hid := hw.handle_of_finish e hmem i hev
    cases ha : (w.lms i).active with
    | true =>
      have hr : w.isRunning i = true := isPending_iff.2 ⟨e, hmem, hid⟩
      have hc : w.completes? (.fire inp) = some i := by simp [completes?, hn, hev, ha]
      refine .finish q i huid hq hr (isPending_eq_false_iff.2 fun x hx hx' => ?_) ha hc h
      have : some e.uid = some x.uid := hid.symm.trans hx'
      exact ((mem_next? hn).1 hx).2 (some_inj.1 this).symm
    | false =>
      rw [finishRun_inactive (w := { w with sim := q }) ha] at h
      cases h
      exact .neutral (fun _ => ⟨rfl, rfl⟩) htrim

theorem StepKind.of_notifyReportReceived {t : Time} {answers : List Bool}
    (hw : w.Wf) (hn : w.sim.advance? t = some q)
    (h : RicWorld.notifyReportReceived inp { w with sim := q } answers = .ok w') :
    StepKind w (.notifyReportReceived t inp answers) w' := by
  obtain ⟨hp, hnow, huid, -⟩ := advance?_eq_some hn
  have hq : ∀ x ∈ q.pending, x ∈ w.sim.pending := fun x hx => hp ▸ hx
  subst hnow
  unfold RicWorld.notifyReportReceived at h
  by_cases hany : answers.any id = true
  · rw [if_pos hany] at h
    have ht : w.ric.active = true →
        w.queryTime? (.notifyReportReceived q.now inp answers) = some q.now := fun ha => by
      rw [queryTime?, if_pos ⟨hany, ha⟩]
    by_cases hpend : q.isPending w.ric.lmQueryEvent = true
    · rw [if_pos hpend] at h
      have hq' : ∀ x ∈ (q.cancel w.ric.lmQueryEvent).pending, x ∈ w.sim.pending :=
        fun x hx => hq x (mem_cancel.1 hx).1
      exact StepKind.of_queryLms hw (EventQueue.cancel_uid.trans huid) hq' ht h
    · rw [if_neg hpend] at h
      exact StepKind.of_queryLms hw huid hq ht h
  · rw [if_neg hany] at h
    cases h
    exact .neutral (fun _ => ⟨rfl, rfl⟩) (Neutral.trim huid hq)

section
variable (ha : ∀ t inp answers, a ≠ .notifyReportReceived t inp answers)
include ha

theorem neutral_call (h : w.call a = .ok w') : Neutral w w' := by
  cases a with
  | notifyReportReceived t inp answers => exact absurd rfl (ha t inp answers)
  | start t inp => exact neutral_start h
  | fire | setDefaultLogicModule | addLogicModule | removeLogicModule =>
    cases h
    exact { Neutral.refl w with }
  | activateLm =>
    cases h
    exact Neutral.setActive true
  | deactivateLm t i =>
    cases h
    rw [deactivateLm_eq]
    exact Neutral.setActive false
  | stop =>
    cases h
    exact neutral_stop

theorem sameModules_call (hk : a.KeepsModules) (h : w.call a = .ok w') : SameModules w w' := by
  cases a with
  | notifyReportReceived t inp answers => exact absurd rfl (ha t inp answers)
  | setDefaultLogicModule | addLogicModule | removeLogicModule => exact hk.elim
  | start t inp => exact sameModules_start h
  | fire | activateLm =>
    cases h
    exact ⟨rfl, rfl⟩
  | deactivateLm t i =>
    cases h
    rw [deactivateLm_eq]
    exact ⟨rfl, rfl⟩
  | stop =>
    cases h
    have h := sameModules_deactivate (w := w)
    exact ⟨h.defaultLm, h.additionalLms⟩

end

theorem Step.kind (hw : w.Wf) (h : Step w a w') : StepKind w a w' := by
  by_cases ha : ∃ t inp answers, a = .notifyReportReceived t inp answers
  · obtain ⟨t, inp, answers, rfl⟩ := ha
    obtain ⟨q, hn, h⟩ := map_eq_some_iff.1 h
    exact StepKind.of_notifyReportReceived hw hn h
  by_cases hf : ∃ inp, a = .fire inp
  · obtain ⟨inp, rfl⟩ := hf
    obtain ⟨⟨e, q⟩, hn, h⟩ := map_eq_some_iff.1 h
    exact StepKind.of_handle hw hn h
  push Not at ha hf
  have hact : w.act a = (w.sim.advance? a.time).map fun q => call { w with sim := q } a := by
    cases a with
    | fire inp => exact absurd rfl (hf inp)
    | _ => rfl
  rw [Step, hact] at h
  obtain ⟨q, hn, h⟩ := map_eq_some_iff.1 h
  obtain ⟨hp, -, huid, -⟩ := advance?_eq_some hn
  have htrim : Neutral w { w with sim := q } := Neutral.trim huid fun x hx => hp ▸ hx
  refine .neutral (fun hk => ?_) (htrim.trans (neutral_call ha h))
  have := sameModules_call ha hk h
  exact ⟨this.defaultLm, this.additionalLms⟩

/-! ## The consistency along a run -/

theorem Processed.lmFrame (h : Processed w w') : LmFrame w w' where
  pending := fun e he => .inl ((h.pending e).1 he).1
  uid := h.uid.ge
  lms := fun i => ⟨_, _, by rw [h.lms], fun _ hc => hc⟩
  runs := h.runs

theorem lmFrame_processLmQueryCommands : LmFrame w w.processLmQueryCommands := by
  cases ha : w.ric.active with
  | true => exact (processLmQueryCommands_active ha).lmFrame
  | false =>
    rw [processLmQueryCommands_inactive ha]
    exact (Neutral.refl w).lmFrame

theorem lmFrame_clearCommands : LmFrame w (w.clearCommands i) :=
  { (Neutral.refl w).lmFrame with
    lms := by
      intro j
      by_cases hj : j = i
      · subst hj
        exact ⟨(w.lms j).active, [], by simp [clearCommands], nofun⟩
      · exact ⟨(w.lms j).active, (w.lms j).commands,
          by simp [clearCommands, update_of_ne hj], fun c hc => hc⟩ }

theorem lmFrame_finishRun (ha : (w.lms i).active = true) (h : w.finishRun i = .ok w') :
    LmFrame w w' := by
  obtain ⟨-, w₁, h1, h2⟩ := finishRun_ok ha h
  obtain ⟨m, late, hc⟩ := collectCommands_frame w (w.lms i).commands i
  have hf₁ : LmFrame w w₁ := by
    rw [← h1, hc]
    exact { (Neutral.refl w).lmFrame with }
  rcases h2 with ⟨-, -, rfl⟩ | ⟨-, rfl⟩
  · exact (hf₁.trans lmFrame_processLmQueryCommands).trans lmFrame_clearCommands
  · exact hf₁.trans lmFrame_clearCommands

theorem Wf.step (hw : w.Wf) (h : Step w a w') : w'.Wf := by
  cases h.kind hw with
  | neutral _ h => exact Wf.of_lmFrame h.lmFrame hw
  | query q _ _ _ _ hwf _ => exact hwf
  | finish q i huid hq _ _ ha _ h =>
    have hf := lmFrame_finishRun (w := { w with sim := q }) ha h
    exact hw.of_lmFrame ((Neutral.trim huid hq).lmFrame.trans hf)
  | process q e n huid _ _ hq _ h =>
    have htrim : Neutral w { w with sim := q } := Neutral.trim huid fun x hx => ((hq x).1 hx).1
    exact (hw.of_lmFrame htrim.lmFrame).of_lmFrame h.lmFrame

theorem Step.sameModules (hw : w.Wf) (hk : a.KeepsModules) (h : Step w a w') :
    SameModules w w' := by
  cases h.kind hw with
  | neutral hm _ => exact hm hk
  | query q _ _ _ _ _ h => exact ⟨h.modules.1, h.modules.2⟩
  | finish q i _ _ _ _ ha _ h =>
    obtain ⟨m, hm⟩ := finishRun_ric (w := { w with sim := q }) ha h
    constructor <;> rw [hm]
  | process q e n _ _ _ _ _ h =>
    constructor <;> rw [h.ric]

theorem wf_init (cfg : RicConfig) (names : LmId → String) (d : LmId) (adds : List LmId) :
    (init cfg names d adds).Wf where
  handle_of_finish := nofun
  finish_of_handle := nofun
  handle_lt := nofun
  stamped := nofun
  run_inj := nofun

end RicWorld

end OranNs3
