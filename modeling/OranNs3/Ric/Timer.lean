import OranNs3.Ric.Fresh

/-!
# The processing timer

`QueryLms` schedules the processing of the commands after the maximum waiting time and does not
cancel the event of the cycle before; a query while a processing event is pending loses its handle
and leaves the event to run in the new cycle. When no query comes while processing is pending, there
is at most one processing event, of the current cycle, and each cycle processes its commands at most
once (`processed_once`).

Without a maximum waiting time the commands are processed when all modules have delivered. This
happens once in a cycle since each module delivers at most once, under a key of its own (`Done`).
-/

namespace OranNs3

open List Option

/-- The event is a call of `ProcessLmQueryCommands`. -/
def RicEvent.isProcessing : RicEvent → Bool
  | .processLmQueryCommands _ => true
  | _ => false

theorem RicEvent.isProcessing_iff {ev : RicEvent} :
    ev.isProcessing = true ↔ ∃ n, ev = .processLmQueryCommands n := by
  cases ev <;> simp [isProcessing]

namespace RicWorld

variable {w w' : RicWorld} {inp : RicInput} {i j : LmId}

/-- Some processing event is pending. -/
def ProcessingPending (w : RicWorld) : Prop := ∃ e ∈ w.sim.pending, e.ev.isProcessing = true
deriving Decidable

/-- A query comes only when no processing is pending. -/
def QueriesIdle (w : RicWorld) (a : RicAction) : Prop :=
  (w.queryTime? a).isSome = true → ¬ w.ProcessingPending
deriving Decidable

/-! ## The event and its handle -/

/-- The state of the timer: a pending processing event is the one of the handle, it was scheduled in
the current cycle, and this cycle has not been processed. -/
structure TimerInv (w : RicWorld) : Prop where
  pending : ∀ e ∈ w.sim.pending, ∀ n, e.ev = .processLmQueryCommands n →
    w.ric.processLmQueryCommandsEvent = some e.uid ∧ n = w.cycleNo ∧
      0 < w.ric.cfg.lmQueryMaxWaitTime ∧ ∀ b ∈ w.forwarded, b.cycleNo < w.cycleNo
  handle : ∀ e ∈ w.sim.pending, w.ric.processLmQueryCommandsEvent = some e.uid →
    ∃ n, e.ev = .processLmQueryCommands n
  handle_lt : ∀ u, w.ric.processLmQueryCommandsEvent = some u → u < w.sim.uid
  batches : ∀ b ∈ w.forwarded, b.cycleNo ≤ w.cycleNo

section
variable (ht : w.TimerInv)
include ht

theorem TimerInv.neutral (h : Neutral w w') : w'.TimerInv where
  pending := by
    intro e he n hev
    rcases h.pending e he with he | ⟨hq, -⟩
    · rw [h.processEvent, h.cycleNo, h.cfg, h.forwarded]
      exact ht.pending e he n hev
    · simp [hev] at hq
  handle := by
    intro e he hid
    rw [h.processEvent] at hid
    rcases h.pending e he with he | ⟨-, hu⟩
    · exact ht.handle e he hid
    · have := ht.handle_lt _ hid
      omega
  handle_lt := by
    intro u hid
    rw [h.processEvent] at hid
    exact (ht.handle_lt u hid).trans_le h.uid
  batches := by
    rw [h.forwarded, h.cycleNo]
    exact ht.batches

/-- A query when no processing is pending starts the only timer. -/
theorem TimerInv.queried (hidle : ¬ w.ProcessingPending) (h : Queried w w') : w'.TimerInv where
  pending := by
    intro e he n hev
    have hnot : e ∉ w.sim.pending := fun he₀ =>
      hidle ⟨e, he₀, RicEvent.isProcessing_iff.2 ⟨n, hev⟩⟩
    rcases h.process e he n hev with he₀ | ⟨hn, hid⟩
    · exact absurd he₀ hnot
    refine ⟨hid, hn, ?_, ?_⟩
    · rcases h.processEvent with hsame | ⟨hpos, -⟩
      · -- a handle that stayed is of an event scheduled before
        rw [hsame] at hid
        exact absurd (h.old e he (ht.handle_lt _ hid)) hnot
      · rw [h.cfg]
        exact hpos
    · intro b hb
      rw [h.forwarded] at hb
      have := ht.batches b hb
      have := h.cycleNo
      omega
  handle := by
    intro e he hid
    rcases h.processEvent with hsame | ⟨-, u, hu, -, -, hproc⟩
    · rw [hsame] at hid
      exact ht.handle e (h.old e he (ht.handle_lt _ hid)) hid
    · rw [hu, some_inj] at hid
      exact hproc e he hid.symm
  handle_lt := by
    intro u hid
    rcases h.processEvent with hsame | ⟨-, u', hu', -, hlt, -⟩
    · rw [hsame] at hid
      exact (ht.handle_lt u hid).trans_le h.uid
    · rw [hu', some_inj] at hid
      omega
  batches := by
    intro b hb
    rw [h.forwarded] at hb
    have := ht.batches b hb
    have := h.cycleNo
    omega

theorem TimerInv.not_pending (h : Processed w w') {e : Scheduled RicEvent}
    (he : e ∈ w'.sim.pending) (n : Nat) : e.ev ≠ .processLmQueryCommands n := by
  intro hev
  obtain ⟨he, hne⟩ := (h.pending e).1 he
  exact hne (ht.pending e he n hev).1

theorem TimerInv.processed (h : Processed w w') : w'.TimerInv where
  pending := fun e he n hev => absurd hev (ht.not_pending h he n)
  handle := by
    intro e he hid
    obtain ⟨-, hne⟩ := (h.pending e).1 he
    rw [h.ric] at hid
    exact absurd hid hne
  handle_lt := by
    intro u hid
    rw [h.ric] at hid
    rw [h.uid]
    exact ht.handle_lt u hid
  batches := by
    intro b hb
    rw [h.forwarded] at hb
    rw [h.cycleNo]
    rcases mem_append.1 hb with hb | hb
    · exact ht.batches b hb
    · rw [mem_singleton.1 hb]

/-- A timer that is pending in time means that the cycle has not been processed, unless there is no
maximum waiting time. -/
theorem TimerInv.unprocessed (hin : w.inTime = true) :
    w.ric.cfg.lmQueryMaxWaitTime = 0 ∨ ∀ b ∈ w.forwarded, b.cycleNo < w.cycleNo := by
  rw [inTime, Bool.or_eq_true, beq_iff_eq] at hin
  rcases hin with hp | h0
  · obtain ⟨e, he, hid⟩ := EventQueue.isPending_iff.1 hp
    obtain ⟨n, hev⟩ := ht.handle e he hid
    exact .inr (ht.pending e he n hev).2.2.2
  · exact .inl h0

theorem TimerInv.clearCommands : (w.clearCommands i).TimerInv :=
  ⟨ht.pending, ht.handle, ht.handle_lt, ht.batches⟩

theorem TimerInv.collectCommands (cs : List Command) : (w.collectCommands cs i).TimerInv := by
  obtain ⟨m, late, hfr⟩ := collectCommands_frame w cs i
  rw [hfr]
  exact ⟨ht.pending, ht.handle, ht.handle_lt, ht.batches⟩

theorem TimerInv.finishRun (ha : (w.lms i).active = true)
    (h : w.finishRun i = .ok w') : w'.TimerInv := by
  obtain ⟨-, w₁, rfl, h2⟩ := finishRun_ok ha h
  have ht₁ := ht.collectCommands (i := i) (w.lms i).commands
  rcases h2 with ⟨-, -, rfl⟩ | ⟨-, rfl⟩
  · cases hact : (w.collectCommands (w.lms i).commands i).ric.active with
    | true => exact (ht₁.processed (processLmQueryCommands_active hact)).clearCommands
    | false =>
      rw [processLmQueryCommands_inactive hact]
      exact ht₁.clearCommands
  · exact ht₁.clearCommands

end

variable {a : RicAction}

theorem TimerInv.step (hw : w.Wf) (ht : w.TimerInv) (hok : QueriesIdle w a)
    (h : Step w a w') : w'.TimerInv := by
  cases h.kind hw with
  | neutral _ h => exact ht.neutral h
  | query q huid hq _ htime _ h =>
    refine (ht.neutral (Neutral.trim huid hq)).queried ?_ h
    rintro ⟨e, he, hev⟩
    exact hok (by rw [htime]; rfl) ⟨e, hq e he, hev⟩
  | finish q i huid hq _ _ ha _ h => exact (ht.neutral (Neutral.trim huid hq)).finishRun ha h
  | process q e n huid _ _ hq _ h =>
    exact (ht.neutral (Neutral.trim huid fun x hx => ((hq x).1 hx).1)).processed h

/-! ## The modules and their keys -/

theorem mem_modules : i ∈ w.modules ↔
    i = w.ric.defaultLm ∨ ∃ name : String, w.ric.additionalLms[name]? = some i := by
  rw [modules, List.mem_cons, List.mem_map]
  constructor
  · rintro (rfl | ⟨⟨name, j⟩, hj, rfl⟩)
    · exact .inl rfl
    · exact .inr ⟨name, Std.TreeMap.mem_toList_iff_getElem?_eq_some.1 hj⟩
  · rintro (rfl | ⟨name, hi⟩)
    · exact .inl rfl
    · exact .inr ⟨(name, i), Std.TreeMap.mem_toList_iff_getElem?_eq_some.2 hi, rfl⟩

/-- The modules of the RIC: an additional one is kept under its name, only they run, and commands
are collected under their keys. -/
structure ModulesInv (w : RicWorld) : Prop where
  names : ∀ (name : String) i, w.ric.additionalLms[name]? = some i → (w.lms i).name = name
  running : ∀ i, w.isRunning i = true → i ∈ w.modules
  keys : ∀ k ∈ w.ric.lmQueryCommands, ∃ i ∈ w.modules, w.lmKey i = k

theorem ModulesInv.lmKey_inj (hm : w.ModulesInv) (hi : i ∈ w.modules) (hj : j ∈ w.modules)
    (h : w.lmKey i = w.lmKey j) : i = j := by
  obtain ⟨hname, hd⟩ := Prod.mk.injEq .. ▸ h
  by_cases hi' : i = w.ric.defaultLm
  · rw [beq_iff_eq.2 hi'] at hd
    rw [hi', eq_of_beq hd.symm]
  · have hj' : j ≠ w.ric.defaultLm := by
      rintro hj'
      rw [beq_iff_eq.2 hj'] at hd
      exact hi' (eq_of_beq hd)
    obtain ⟨name, hi⟩ := (mem_modules.1 hi).resolve_left hi'
    obtain ⟨name', hj⟩ := (mem_modules.1 hj).resolve_left hj'
    rw [hm.names name i hi, hm.names name' j hj] at hname
    rw [hname, hj] at hi
    exact (some_inj.1 hi).symm

theorem ModulesInv.size_lt (hm : w.ModulesInv) (hi : i ∈ w.modules)
    (hk : w.lmKey i ∉ w.ric.lmQueryCommands) :
    w.ric.lmQueryCommands.size < w.ric.additionalLms.size + 1 := by
  have hnd : (w.lmKey i :: w.ric.lmQueryCommands.keys).Nodup :=
    nodup_cons.2 ⟨fun h => hk (Std.TreeMap.mem_keys.1 h), Std.TreeMap.nodup_keys⟩
  have hsub : w.lmKey i :: w.ric.lmQueryCommands.keys ⊆ w.modules.map w.lmKey := by
    intro k hk'
    rcases mem_cons.1 hk' with rfl | hk'
    · exact mem_map_of_mem hi
    · obtain ⟨j, hj, rfl⟩ := hm.keys k (Std.TreeMap.mem_keys.1 hk')
      exact mem_map_of_mem hj
  have hle := (subperm_of_subset hnd hsub).length_le
  rw [length_cons, Std.TreeMap.length_keys, length_map, modules, length_cons,
    length_map, Std.TreeMap.length_toList] at hle
  omega

theorem lmKey_eq (hs : SameModules w w') (hn : ∀ i, (w'.lms i).name = (w.lms i).name) :
    w'.lmKey i = w.lmKey i := by
  rw [lmKey, lmKey, hn, hs.defaultLm]

theorem mem_collectCommands {cs : List Command} {k : String × Bool}
    (h : k ∈ (w.collectCommands cs i).ric.lmQueryCommands) :
    w.lmKey i = k ∨ k ∈ w.ric.lmQueryCommands := by
  rcases collectCommands_cases w cs i with ⟨-, hc⟩ | ⟨-, -, hc⟩ | ⟨-, -, hc⟩
  · rw [hc] at h
    exact mem_collect.1 h
  · rw [hc] at h
    exact .inr (mem_clearSlot.1 h)
  · rw [hc] at h
    exact mem_collect.1 h

theorem Step.names (hw : w.Wf) (h : Step w a w') (i : LmId) : (w'.lms i).name = (w.lms i).name := by
  cases h.kind hw with
  | neutral _ h => exact h.lmFrame.name i
  | query q _ _ _ _ _ h => exact h.names i
  | finish q j _ _ _ _ ha _ h => exact (lmFrame_finishRun (w := { w with sim := q }) ha h).name i
  | process q e n _ _ _ _ _ h => exact h.lmFrame.name i

theorem ModulesInv.running_step (hw : w.Wf) (hm : w.ModulesInv) (h : Step w a w')
    (hs : SameModules w w') (hi : w'.isRunning i = true) : i ∈ w'.modules := by
  rw [hs.modules]
  have hframe : ∀ {w₀ : RicWorld}, LmFrame w w₀ → LmFrame w₀ w' → i ∈ w.modules :=
    fun h h' => hm.running i ((h.trans h').isRunning hw hi)
  cases h.kind hw with
  | neutral _ h => exact hframe (Neutral.refl w).lmFrame h.lmFrame
  | query q huid hq _ _ hwf h =>
    obtain ⟨e, he, hev⟩ := hwf.isRunning_iff.1 hi
    rcases h.finish e he i hev with ⟨hmod, -⟩ | he₀
    · exact hmod
    · exact hm.running i (hw.isRunning_iff.2 ⟨e, hq e he₀, hev⟩)
  | finish q j huid hq _ _ ha _ h =>
    exact hframe (Neutral.trim huid hq).lmFrame (lmFrame_finishRun ha h)
  | process q e n huid _ _ hq _ h =>
    exact hframe (Neutral.trim huid fun x hx => ((hq x).1 hx).1).lmFrame h.lmFrame

theorem ModulesInv.keys_step (hw : w.Wf) (hm : w.ModulesInv) (h : Step w a w')
    {k : String × Bool} (hk : k ∈ w'.ric.lmQueryCommands) : ∃ i ∈ w.modules, w.lmKey i = k := by
  cases h.kind hw with
  | neutral _ h =>
    rw [h.commands] at hk
    exact hm.keys k hk
  | query q _ _ _ _ _ h =>
    rw [h.commands] at hk
    exact hm.keys k hk
  | finish q i _ _ hr _ ha _ h =>
    obtain ⟨-, w₁, h1, h2⟩ := finishRun_ok (w := { w with sim := q }) ha h
    have hk₁ : k ∈ w₁.ric.lmQueryCommands := by
      rcases h2 with ⟨-, -, rfl⟩ | ⟨-, rfl⟩
      · change k ∈ w₁.processLmQueryCommands.ric.lmQueryCommands at hk
        unfold processLmQueryCommands at hk
        split at hk
        · exact absurd hk Std.TreeMap.not_mem_emptyc
        · exact hk
      · exact hk
    rw [← h1] at hk₁
    rcases mem_collectCommands hk₁ with hk₁ | hk₁
    · exact ⟨i, hm.running i hr, hk₁⟩
    · exact hm.keys k hk₁
  | process q e n _ _ _ _ _ h =>
    rw [h.ric] at hk
    exact absurd hk Std.TreeMap.not_mem_emptyc

theorem ModulesInv.step (hw : w.Wf) (hm : w.ModulesInv) (hk : a.KeepsModules)
    (h : Step w a w') : w'.ModulesInv where
  names := by
    intro name i hi
    rw [(h.sameModules hw hk).additionalLms] at hi
    rw [h.names hw]
    exact hm.names name i hi
  running := fun i hi => hm.running_step hw h (h.sameModules hw hk) hi
  keys := by
    intro k hk'
    obtain ⟨i, hi, hki⟩ := hm.keys_step hw h hk'
    have hs := h.sameModules hw hk
    exact ⟨i, hs.modules ▸ hi, (lmKey_eq hs (h.names hw)).trans hki⟩

/-! ## A cycle is processed once -/

/-- Without a maximum waiting time, a cycle that has been processed lacks the key of a module that
is not running. -/
def Done (w : RicWorld) : Prop :=
  w.ric.cfg.lmQueryMaxWaitTime = 0 → (∃ b ∈ w.forwarded, b.cycleNo = w.cycleNo) →
    ∃ i ∈ w.modules, w.isRunning i = false ∧ w.lmKey i ∉ w.ric.lmQueryCommands

theorem LmFrame.not_running (h : LmFrame w w') (hw : w.Wf) (hi : w.isRunning i = false) :
    w'.isRunning i = false := by
  cases hr : w'.isRunning i with
  | false => rfl
  | true =>
    rw [h.isRunning hw hr] at hi
    cases hi

theorem nodup_processed (hnd : (w.forwarded.map (·.cycleNo)).Nodup) (h : Processed w w')
    (hlt : ∀ b ∈ w.forwarded, b.cycleNo < w.cycleNo) : (w'.forwarded.map (·.cycleNo)).Nodup := by
  rw [h.forwarded, map_append, map_singleton]
  refine nodup_append.2 ⟨hnd, nodup_singleton _, ?_⟩
  intro n hn n' hn'
  obtain ⟨b, hb, rfl⟩ := mem_map.1 hn
  rw [mem_singleton.1 hn']
  exact (hlt b hb).ne

/-- The completion of a run of `i` when the cycle has been processed: the key that is missing is of
another module, so it stays missing. -/
theorem Done.collectCommands (hm : w.ModulesInv) (hi : i ∈ w.modules) {cs : List Command}
    (hj : j ∈ w.modules) (hji : j ≠ i) (hk : w.lmKey j ∉ w.ric.lmQueryCommands) :
    w.lmKey j ∉ (w.collectCommands cs i).ric.lmQueryCommands := by
  intro h
  rcases mem_collectCommands h with h | h
  · exact hji (hm.lmKey_inj hi hj h).symm
  · exact hk h

theorem isRunning_clearCommands : (w.clearCommands i).isRunning j = w.isRunning j := by
  have h := lmFrame_clearCommands (w := w) (i := i)
  rw [isRunning, h.finishRunEvent]
  rfl

theorem lmKey_clearCommands : (w.clearCommands i).lmKey j = w.lmKey j :=
  lmKey_eq ⟨rfl, rfl⟩ (lmFrame_clearCommands (w := w) (i := i)).name

theorem Done.clearCommands (hd : w.Done) : (w.clearCommands i).Done := by
  intro h0 hb
  obtain ⟨j, hj, hr, hk⟩ := hd h0 hb
  refine ⟨j, hj, ?_, ?_⟩
  · rw [isRunning_clearCommands]
    exact hr
  · rw [lmKey_clearCommands]
    exact hk

/-- The commands are processed when the last module has delivered, or in time: the cycle has not
been processed before. -/
theorem unprocessed_of_full (ht : w.TimerInv) (hm : w.ModulesInv) (hd : w.Done)
    (hsize : w.ric.lmQueryCommands.size = w.ric.additionalLms.size + 1) (hin : w.inTime = true) :
    ∀ b ∈ w.forwarded, b.cycleNo < w.cycleNo := by
  rcases ht.unprocessed hin with h0 | hlt
  · intro b hb
    by_contra hge
    have := ht.batches b hb
    obtain ⟨j, hj, -, hk⟩ := hd h0 ⟨b, hb, by omega⟩
    have := hm.size_lt hj hk
    omega
  · exact hlt

theorem Done.processed (hw : w.Wf) (h : Processed w w') (hi : i ∈ w.modules)
    (hn : w.isRunning i = false) : w'.Done := by
  intro _ _
  refine ⟨i, ?_, h.lmFrame.not_running hw hn, ?_⟩
  · rw [modules, h.ric]
    exact hi
  · rw [h.ric]
    exact Std.TreeMap.not_mem_emptyc

/-- A completion keeps `Done`, and processes the commands of a cycle that was not processed. -/
theorem Done.finishRun (hw : w.Wf) (ht : w.TimerInv) (hm : w.ModulesInv) (hi : i ∈ w.modules)
    (hn : w.isRunning i = false)
    (hd : w.ric.cfg.lmQueryMaxWaitTime = 0 → (∃ b ∈ w.forwarded, b.cycleNo = w.cycleNo) →
      ∃ j ∈ w.modules, j ≠ i ∧ w.isRunning j = false ∧ w.lmKey j ∉ w.ric.lmQueryCommands)
    (hnd : (w.forwarded.map (·.cycleNo)).Nodup) (ha : (w.lms i).active = true)
    (h : w.finishRun i = .ok w') : w'.Done ∧ (w'.forwarded.map (·.cycleNo)).Nodup := by
  obtain ⟨-, w₁, h1, h2⟩ := finishRun_ok ha h
  have hd₁ : w.ric.cfg.lmQueryMaxWaitTime = 0 → (∃ b ∈ w.forwarded, b.cycleNo = w.cycleNo) →
      ∃ j ∈ w.modules, w.isRunning j = false ∧ w.lmKey j ∉ w₁.ric.lmQueryCommands := by
    intro h0 hb
    obtain ⟨j, hj, hji, hr, hk⟩ := hd h0 hb
    rw [← h1]
    exact ⟨j, hj, hr, Done.collectCommands hm hi hj hji hk⟩
  have hkeys : ∀ k ∈ w₁.ric.lmQueryCommands, ∃ j ∈ w.modules, w.lmKey j = k := by
    intro k hk
    rw [← h1] at hk
    rcases mem_collectCommands hk with hk | hk
    · exact ⟨i, hi, hk⟩
    · exact hm.keys k hk
  obtain ⟨m, late, hfr⟩ := collectCommands_frame w (w.lms i).commands i
  rw [hfr] at h1
  have hw₁ : w₁.Wf := by
    rw [← h1]
    exact hw.of_lmFrame { (Neutral.refl w).lmFrame with }
  have ht₁ : w₁.TimerInv := by
    rw [← h1, ← hfr]
    exact ht.collectCommands _
  have hm₁ : w₁.ModulesInv := by
    subst h1
    exact ⟨hm.names, hm.running, hkeys⟩
  have hdone₁ : w₁.Done := by
    subst h1
    exact hd₁
  have hi₁ : i ∈ w₁.modules ∧ w₁.isRunning i = false ∧ w₁.forwarded = w.forwarded := by
    subst h1
    exact ⟨hi, hn, rfl⟩
  rw [← hi₁.2.2] at hnd
  rcases h2 with ⟨hsize, hin, rfl⟩ | ⟨-, rfl⟩
  · cases hact : w₁.ric.active with
    | true =>
      have hp := processLmQueryCommands_active hact
      have hnd' := nodup_processed hnd hp (unprocessed_of_full ht₁ hm₁ hdone₁ hsize hin)
      exact ⟨(Done.processed hw₁ hp hi₁.1 hi₁.2.1).clearCommands, hnd'⟩
    | false =>
      rw [processLmQueryCommands_inactive hact]
      exact ⟨hdone₁.clearCommands, hnd⟩
  · exact ⟨hdone₁.clearCommands, hnd⟩

theorem Done.neutral (hw : w.Wf) (hd : w.Done) (h : Neutral w w') (hs : SameModules w w') :
    w'.Done := by
  intro h0 hb
  rw [h.cfg] at h0
  rw [h.forwarded, h.cycleNo] at hb
  obtain ⟨i, hi, hr, hk⟩ := hd h0 hb
  refine ⟨i, hs.modules ▸ hi, h.lmFrame.not_running hw hr, ?_⟩
  rw [lmKey_eq hs h.lmFrame.name, h.commands]
  exact hk

/-- What holds along a run whose queries find no processing pending. -/
structure OnceInv (w : RicWorld) : Prop where
  wf : w.Wf
  timer : w.TimerInv
  modules : w.ModulesInv
  done : w.Done
  nodup : (w.forwarded.map (·.cycleNo)).Nodup

/-- The modules stay, and a query comes only when no processing is pending. -/
def QueriesIdleFixed (w : RicWorld) (a : RicAction) : Prop := a.KeepsModules ∧ QueriesIdle w a
deriving Decidable

theorem OnceInv.step (ho : w.OnceInv) (hok : QueriesIdleFixed w a)
    (h : Step w a w') : w'.OnceInv := by
  have hs := h.sameModules ho.wf hok.1
  suffices hmain : w'.Done ∧ (w'.forwarded.map (·.cycleNo)).Nodup from
    ⟨ho.wf.step h, ho.timer.step ho.wf hok.2 h, ho.modules.step ho.wf hok.1 h, hmain.1, hmain.2⟩
  cases h.kind ho.wf with
  | neutral _ h =>
    refine ⟨ho.done.neutral ho.wf h hs, ?_⟩
    rw [h.forwarded]
    exact ho.nodup
  | query q _ _ _ _ _ h =>
    constructor
    · -- no batch is of the new cycle
      rintro - ⟨b, hb, hbn⟩
      rw [h.forwarded] at hb
      rw [h.cycleNo] at hbn
      have := ho.timer.batches b hb
      dsimp only at hbn
      omega
    · rw [h.forwarded]
      exact ho.nodup
  | finish q i huid hq hr hn ha _ h =>
    have htrim : Neutral w { w with sim := q } := Neutral.trim huid hq
    have hrun : ∀ j, isRunning { w with sim := q } j = true → w.isRunning j = true :=
      fun j hj => htrim.lmFrame.isRunning ho.wf hj
    refine Done.finishRun (ho.wf.of_lmFrame htrim.lmFrame) (ho.timer.neutral htrim)
      ⟨ho.modules.names, fun j hj => ho.modules.running j (hrun j hj), ho.modules.keys⟩
      (ho.modules.running i hr) hn ?_ ho.nodup ha h
    intro h0 hb
    obtain ⟨j, hj, hjr, hk⟩ := ho.done h0 hb
    refine ⟨j, hj, ?_, htrim.lmFrame.not_running ho.wf hjr, hk⟩
    rintro rfl
    rw [hr] at hjr
    cases hjr
  | process q e n _ he hev _ _ h =>
    obtain ⟨-, -, hpos, hlt⟩ := ho.timer.pending e he n hev
    refine ⟨fun h0 => ?_, nodup_processed (w := { w with sim := q }) ho.nodup h hlt⟩
    rw [h.ric] at h0
    dsimp only at h0
    omega

theorem getElem?_addLogicModule (names : LmId → String) :
    ∀ (adds : List LmId) (m : Std.TreeMap String LmId),
      (∀ (name : String) i, m[name]? = some i → names i = name) →
      ∀ (name : String) i, (adds.foldl (addLogicModule names) m)[name]? = some i → names i = name
  | [], _, hm, name, i, h => hm name i h
  | j :: adds, m, hm, name, i, h => by
    refine getElem?_addLogicModule names adds (addLogicModule names m j) ?_ name i h
    intro name' i' h'
    unfold addLogicModule at h'
    split at h'
    · exact hm name' i' h'
    · rw [Std.TreeMap.getElem?_insert] at h'
      split at h'
      · next hcmp =>
        rw [Std.LawfulEqCmp.compare_eq_iff_eq] at hcmp
        cases h'
        exact hcmp
      · exact hm name' i' h'

theorem onceInv_init (cfg : RicConfig) (names : LmId → String) (d : LmId) (adds : List LmId) :
    (init cfg names d adds).OnceInv where
  wf := wf_init cfg names d adds
  timer := ⟨nofun, nofun, nofun, nofun⟩
  modules := {
    names := getElem?_addLogicModule names adds ∅ (fun name i h => by simp at h)
    running := nofun
    keys := fun k hk => absurd hk Std.TreeMap.not_mem_emptyc }
  done := fun _ h => by
    obtain ⟨b, hb, -⟩ := h
    cases hb
  nodup := nodup_nil

/-- At most one processing event is pending, it was scheduled in the current cycle, and no cycle has
been processed twice. -/
def ProcessesOnce (w : RicWorld) : Prop :=
  (∀ e ∈ w.sim.pending, ∀ e' ∈ w.sim.pending, e.ev.isProcessing = true →
    e'.ev.isProcessing = true → e = e') ∧
  (∀ e ∈ w.sim.pending, ∀ n, e.ev = .processLmQueryCommands n → n = w.cycleNo) ∧
  (w.forwarded.map (·.cycleNo)).Nodup

/-- In every run of fixed modules whose queries find no processing event pending, there is at most
one, of the current cycle, and each cycle is processed at most once. -/
theorem processed_once (cfg : RicConfig) (names : LmId → String) (d : LmId) (adds : List LmId)
    (w : RicWorld) (h : Lts.Run Step QueriesIdleFixed (init cfg names d adds) w) :
    w.ProcessesOnce := by
  have ho : w.OnceInv :=
    Lts.Run.invariant (I := OnceInv) OnceInv.step (onceInv_init cfg names d adds) h
  refine ⟨fun e he e' he' hev hev' => ?_, fun e he n hev => (ho.timer.pending e he n hev).2.1,
    ho.nodup⟩
  obtain ⟨n, hn⟩ := RicEvent.isProcessing_iff.1 hev
  obtain ⟨n', hn'⟩ := RicEvent.isProcessing_iff.1 hev'
  have hid := (ho.timer.pending e he n hn).1
  rw [(ho.timer.pending e' he' n' hn').1, some_inj] at hid
  exact EventQueue.uid_inj he he' hid.symm

/-- A query interval of a millisecond with the maximum waiting time `maxWait`, late commands saved.
-/
def waitConfig (maxWait : Int) : RicConfig := ⟨1000000, Nat.le_refl _, maxWait, .save⟩

/-- The maximum waiting time is half of the query interval. -/
theorem processed_once_example : ∃ w : RicWorld, w.cycleNo = 2 ∧ w.ProcessesOnce := by
  have hx : (Lts.execs QueriesIdleFixed step? (init (waitConfig 500000) exampleNames 0 [1])
      [.start 0 (quick [] 0), .fire (quick [0] 7), .fire (quick [] 0), .fire (quick [] 0),
        .fire (quick [1] 8)]).map (·.cycleNo) = some 2 := by decide
  obtain ⟨w, hw, hc⟩ := map_eq_some_iff.1 hx
  exact ⟨w, hc, processed_once (waitConfig 500000) exampleNames 0 [1] w
    (Lts.run_of_execs step_of_step? hw)⟩

/-- The maximum waiting time is longer than the query interval: the second query leaves the timer of
the first cycle pending. -/
theorem processed_twice : ¬ ∀ (cfg : RicConfig) (names : LmId → String) (d : LmId)
    (adds : List LmId) (w : RicWorld), Lts.Run Step Lts.anyStep (init cfg names d adds) w →
    w.ProcessesOnce := by
  intro h
  have hx : (Lts.execs Lts.anyStep step? (init (waitConfig 1500000) exampleNames 0 [1])
      [.start 0 (quick [] 0), .fire (quick [] 0), .fire (quick [] 0)]).map
      (fun w => (w.cycleNo, w.sim.pending.map (·.ev))) = some (2, [.processLmQueryCommands 1,
        .queryLms, .processLmQueryCommands 2, .finishRun 0, .finishRun 1,
        .checkForInactivity]) := by
    decide
  obtain ⟨w, hw, hf⟩ := map_eq_some_iff.1 hx
  obtain ⟨hc, hp⟩ := Prod.mk.injEq .. ▸ hf
  obtain ⟨-, hcycle, -⟩ := h _ exampleNames 0 [1] w (Lts.run_of_execs step_of_step? hw)
  have hmem : RicEvent.processLmQueryCommands 1 ∈ w.sim.pending.map (·.ev) := by
    rw [hp]
    exact mem_cons_self
  obtain ⟨e, he, hev⟩ := mem_map.1 hmem
  have := hcycle e he 1 hev
  omega

end RicWorld

end OranNs3
