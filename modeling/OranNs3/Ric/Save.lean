import OranNs3.Ric.Timer

/-!
# Late commands that are saved

With the policy `SAVE` the commands of a run that completes after the processing of its cycle stay
in the slot of their module, for the next cycle. The next completion of the module empties the slot
first, and a query while a processing event is pending lets the same cycle be processed twice. When
neither happens, every late command set is forwarded exactly once, in a later cycle
(`saved_forwarded_once`).

A run is *open* while it is in flight or has not started. Its commands are nowhere among the
collected, forwarded and late ones (`Free`).
-/

namespace OranNs3

open EventQueue List

namespace RicWorld

variable {w w' : RicWorld} {i : LmId} {r : Nat}

/-- The collected commands of a run. -/
def stored (w : RicWorld) (r : Nat) : List Command :=
  (filterNoop w.ric.lmQueryCommands).filter fun c => c.run == r

/-- The commands of a run that were handed to the E2 terminator, in all batches. -/
def sent (w : RicWorld) (r : Nat) : List Command :=
  (w.forwarded.flatMap (·.commands)).filter fun c => c.run == r

/-! ## Open runs -/

/-- The run has not started, or it is in flight. -/
def Open (w : RicWorld) (r : Nat) : Prop :=
  w.runs ≤ r ∨ ∃ i, w.isRunning i = true ∧ (w.lms i).run = r

/-- Nothing that was delivered is of the run. -/
structure Free (w : RicWorld) (r : Nat) : Prop where
  late : ∀ ρ ∈ w.late, ρ.run ≠ r
  collected : ∀ c ∈ filterNoop w.ric.lmQueryCommands, c.run ≠ r
  forwarded : ∀ b ∈ w.forwarded, ∀ c ∈ b.commands, c.run ≠ r

theorem Open.of_lmFrame (hw : w.Wf) (h : LmFrame w w') (ho : w'.Open r) : w.Open r := by
  rcases ho with ho | ⟨i, hi, hr⟩
  · rw [h.runs] at ho
    exact .inl ho
  · rw [h.run] at hr
    exact .inr ⟨i, h.isRunning hw hi, hr⟩

theorem Open.of_queried (hw' : w'.Wf) (h : Queried w w') (ho : w'.Open r) : w.Open r := by
  rcases ho with ho | ⟨i, hi, hr⟩
  · exact .inl (h.runs.trans ho)
  · by_cases hsig : i ∈ w.modules ∧ (w.lms i).active = true
    · exact .inl (hr ▸ (h.ran i hsig.1 hsig.2).2)
    · have hlm := h.same i hsig
      obtain ⟨e, he, hev⟩ := hw'.isRunning_iff.1 hi
      have he₀ := (h.finish e he i hev).resolve_left hsig
      have hid := hw'.handle_of_finish e he i hev
      rw [hlm] at hid hr
      exact .inr ⟨i, isPending_iff.2 ⟨e, he₀, hid⟩, hr⟩

theorem not_open_of_finished (hw : w.Wf) {q : EventQueue RicEvent} (huid : q.uid = w.sim.uid)
    (hq : ∀ e ∈ q.pending, e ∈ w.sim.pending) (hr : w.isRunning i = true)
    (hn : isRunning { w with sim := q } i = false) :
    ¬ Open { w with sim := q } (w.lms i).run := by
  rintro (ho | ⟨j, hj, hjr⟩)
  · obtain ⟨e, he, hid⟩ := isPending_iff.1 hr
    have := (hw.handle_lt i _ hid).2
    dsimp only at ho
    omega
  · have hj' := (Neutral.trim huid hq).lmFrame.isRunning hw hj
    have hij : j = i := hw.run_inj j i hj' hr hjr
    rw [hij, hn] at hj
    cases hj

/-! ## What happens to a late command set -/

/-- The late command set is stored and not forwarded; no later cycle has been processed. -/
structure Stored (w : RicWorld) (ρ : LateSet) : Prop where
  stored : (w.stored ρ.run).Perm ρ.commands
  sent : w.sent ρ.run = []
  batches : ∀ b ∈ w.forwarded, b.cycleNo ≤ ρ.cycleNo

/-- The late command set was forwarded once, in a later cycle, and is no longer stored. -/
structure Sent (w : RicWorld) (ρ : LateSet) : Prop where
  sent : (w.sent ρ.run).Perm ρ.commands
  stored : w.stored ρ.run = []
  later : ∀ b ∈ w.forwarded, ∀ c ∈ b.commands, c.run = ρ.run → ρ.cycleNo < b.cycleNo

/-- The invariant of the late command sets. -/
structure SaveInv (w : RicWorld) : Prop where
  free : ∀ r, w.Open r → w.Free r
  late_le : ∀ ρ ∈ w.late, ρ.cycleNo ≤ w.cycleNo
  pending : w.ProcessingPending → ∀ ρ ∈ w.late, ρ.cycleNo < w.cycleNo
  wait : w.late ≠ [] → w.ric.cfg.lmQueryMaxWaitTime ≠ 0
  each : ∀ ρ ∈ w.late, Stored w ρ ∨ Sent w ρ

theorem stored_processed (h : Processed w w') : w'.stored r = [] := by
  rw [stored, h.ric]
  rfl

theorem sent_processed (h : Processed w w') : w'.sent r = w.sent r ++ w.stored r := by
  rw [sent, h.forwarded, flatMap_append, filter_append]
  simp [sent, stored]

theorem mem_sent {b : Batch} {c : Command} (hb : b ∈ w.forwarded) (hc : c ∈ b.commands) :
    c ∈ w.sent c.run :=
  mem_filter.2 ⟨mem_flatMap.2 ⟨b, hb, hc⟩, beq_self_eq_true _⟩

theorem Sent.processed {ρ : LateSet} (hlt : ρ.cycleNo < w.cycleNo) (h : Processed w w')
    (hρ : Stored w ρ ∨ Sent w ρ) : Sent w' ρ := by
  rcases hρ with hρ | hρ
  · refine ⟨?_, stored_processed h, ?_⟩
    · rw [sent_processed h, hρ.sent, nil_append]
      exact hρ.stored
    · intro b hb c hc hrun
      rw [h.forwarded] at hb
      rcases mem_append.1 hb with hb | hb
      · have := mem_sent hb hc
        rw [hrun, hρ.sent] at this
        cases this
      · rw [mem_singleton.1 hb]
        exact hlt
  · refine ⟨?_, stored_processed h, ?_⟩
    · rw [sent_processed h, hρ.stored, append_nil]
      exact hρ.sent
    · intro b hb c hc hrun
      rw [h.forwarded] at hb
      rcases mem_append.1 hb with hb | hb
      · exact hρ.later b hb c hc hrun
      · rw [mem_singleton.1 hb]
        exact hlt

theorem Free.processed (hf : w.Free r) (h : Processed w w') : w'.Free r where
  late := h.late ▸ hf.late
  collected := by
    rw [h.ric]
    exact nofun
  forwarded := by
    intro b hb c hc
    rw [h.forwarded] at hb
    rcases mem_append.1 hb with hb | hb
    · exact hf.forwarded b hb c hc
    · rw [mem_singleton.1 hb] at hc
      exact hf.collected c hc

theorem SaveInv.processed (hw : w.Wf) (hs : w.SaveInv) (h : Processed w w')
    (hlt : ∀ ρ ∈ w.late, ρ.cycleNo < w.cycleNo) : w'.SaveInv where
  free := fun r ho => (hs.free r (ho.of_lmFrame hw h.lmFrame)).processed h
  late_le := by
    rw [h.late, h.cycleNo]
    exact hs.late_le
  pending := by
    rw [h.late, h.cycleNo]
    exact fun _ => hlt
  wait := by
    rw [h.late, h.ric]
    exact hs.wait
  each := by
    intro ρ hρ
    rw [h.late] at hρ
    exact .inr (Sent.processed (hlt ρ hρ) h (hs.each ρ hρ))

/-! ## The completion of a run -/

variable {cs : List Command}

theorem filter_run_eq (hcs : ∀ c ∈ cs, c.run = r) : cs.filter (fun c => c.run == r) = cs :=
  filter_eq_self.2 fun c hc => beq_iff_eq.2 (hcs c hc)

theorem filter_run_ne {r' : Nat} (hcs : ∀ c ∈ cs, c.run ≠ r') :
    cs.filter (fun c => c.run == r') = [] :=
  filter_eq_nil_iff.2 fun c hc h => hcs c hc (eq_of_beq h)

theorem stored_collect (cs : List Command)
    (hslot : w.ric.lmQueryCommands.getD (w.lmKey i) [] = []) :
    ((filterNoop (appendSlot (clearSlot w.ric.lmQueryCommands (w.lmKey i)) (w.lmKey i) cs)).filter
      fun c => c.run == r).Perm ((cs.filter fun c => c.run == r) ++ w.stored r) := by
  have hm := filterNoop_perm w.ric.lmQueryCommands (w.lmKey i)
  rw [hslot, nil_append] at hm
  have h := (filterNoop_collect w.ric.lmQueryCommands (w.lmKey i) cs).trans (hm.symm.append_left cs)
  have := h.filter fun c => c.run == r
  rwa [filter_append] at this

theorem stored_clearSlot (hslot : w.ric.lmQueryCommands.getD (w.lmKey i) [] = []) :
    ((filterNoop (clearSlot w.ric.lmQueryCommands (w.lmKey i))).filter
      fun c => c.run == r).Perm (w.stored r) := by
  have hm := filterNoop_perm w.ric.lmQueryCommands (w.lmKey i)
  rw [hslot, nil_append] at hm
  exact ((filterNoop_clearSlot w.ric.lmQueryCommands (w.lmKey i)).trans hm.symm).filter _

theorem stored_collectCommands (hcs : ∀ c ∈ cs, c.run ≠ r)
    (hslot : w.ric.lmQueryCommands.getD (w.lmKey i) [] = []) :
    ((w.collectCommands cs i).stored r).Perm (w.stored r) := by
  have happ := stored_collect (r := r) cs hslot
  rw [filter_run_ne hcs, nil_append] at happ
  rcases collectCommands_cases w cs i with ⟨-, h⟩ | ⟨-, -, h⟩ | ⟨-, -, h⟩
  · rw [h]
    exact happ
  · rw [h]
    exact stored_clearSlot hslot
  · rw [h]
    exact happ

theorem stored_or_sent_collectCommands {ρ : LateSet}
    (hcs : ∀ c ∈ cs, c.run ≠ ρ.run) (hslot : w.ric.lmQueryCommands.getD (w.lmKey i) [] = [])
    (hρ : Stored w ρ ∨ Sent w ρ) :
    Stored (w.collectCommands cs i) ρ ∨ Sent (w.collectCommands cs i) ρ := by
  have hst := stored_collectCommands hcs hslot
  have hfwd : (w.collectCommands cs i).forwarded = w.forwarded := by
    obtain ⟨m, late, hfr⟩ := collectCommands_frame w cs i
    rw [hfr]
  have hsent : (w.collectCommands cs i).sent ρ.run = w.sent ρ.run := by
    rw [sent, hfwd]
    rfl
  rcases hρ with hρ | hρ
  · refine .inl ⟨hst.trans hρ.stored, hsent.trans hρ.sent, ?_⟩
    rw [hfwd]
    exact hρ.batches
  · refine .inr ⟨hsent ▸ hρ.sent, ?_, ?_⟩
    · rw [hρ.stored] at hst
      exact hst.eq_nil
    · rw [hfwd]
      exact hρ.later

theorem Stored.collectCommands (hcs : ∀ c ∈ cs, c.run = r) (hf : w.Free r)
    (hslot : w.ric.lmQueryCommands.getD (w.lmKey i) [] = [])
    (hb : ∀ b ∈ w.forwarded, b.cycleNo ≤ w.cycleNo) {late : List LateSet}
    (h : w.collectCommands cs i = { w.setCommands
      (appendSlot (clearSlot w.ric.lmQueryCommands (w.lmKey i)) (w.lmKey i) cs) with
      late }) : Stored (w.collectCommands cs i) ⟨w.cycleNo, r, cs⟩ := by
  have happ := stored_collect (r := r) cs hslot
  have hnone : w.stored r = [] := filter_run_ne hf.collected
  rw [filter_run_eq hcs, hnone, append_nil] at happ
  rw [h]
  refine ⟨happ, filter_run_ne fun c hc => ?_, hb⟩
  obtain ⟨b, hb, hc⟩ := mem_flatMap.1 hc
  exact hf.forwarded b hb c hc

theorem Free.collectCommands {r' : Nat} (hcs : ∀ c ∈ cs, c.run = (w.lms i).run)
    (hne : (w.lms i).run ≠ r') (hf : w.Free r') : (w.collectCommands cs i).Free r' := by
  have happ : ∀ c ∈ filterNoop (appendSlot (clearSlot w.ric.lmQueryCommands (w.lmKey i))
      (w.lmKey i) cs), c.run ≠ r' := by
    intro c hc
    rcases mem_of_mem_collect hc with hc | hc
    · exact hcs c hc ▸ hne
    · exact hf.collected c hc
  rcases collectCommands_cases w cs i with ⟨-, h⟩ | ⟨-, -, h⟩ | ⟨-, -, h⟩
  · rw [h]
    exact ⟨hf.late, happ, hf.forwarded⟩
  · rw [h]
    exact ⟨hf.late, fun c hc => hf.collected c (mem_of_mem_clearSlot hc), hf.forwarded⟩
  · rw [h]
    refine ⟨fun ρ hρ => ?_, happ, hf.forwarded⟩
    rcases mem_append.1 hρ with hρ | hρ
    · exact hf.late ρ hρ
    · rw [mem_singleton.1 hρ]
      exact hne

/-- Commands that are late come when no processing is pending and there is a maximum waiting
time. -/
theorem TimerInv.of_late (ht : w.TimerInv) (hin : w.inTime = false) :
    ¬ w.ProcessingPending ∧ w.ric.cfg.lmQueryMaxWaitTime ≠ 0 := by
  rw [inTime, Bool.or_eq_false_iff, beq_eq_false_iff_ne] at hin
  refine ⟨?_, hin.2⟩
  rintro ⟨e, he, hev⟩
  obtain ⟨n, hn⟩ := RicEvent.isProcessing_iff.1 hev
  exact isPending_eq_false_iff.1 hin.1 e he (ht.pending e he n hn).1

/-- The completion of a run of `i`, whose slot is empty, keeps the invariant. -/
theorem SaveInv.collectCommands (hw : w.Wf) (ht : w.TimerInv) (hs : w.SaveInv)
    (hf : w.Free (w.lms i).run) (hnot : ¬ w.Open (w.lms i).run)
    (hslot : w.ric.cfg.lmQueryMaxWaitTime ≠ 0 → w.ric.lmQueryCommands.getD (w.lmKey i) [] = []) :
    (w.collectCommands (w.lms i).commands i).SaveInv := by
  have hcs : ∀ c ∈ (w.lms i).commands, c.run = (w.lms i).run := fun c hc => (hw.stamped i c hc).1
  have hfree : ∀ r, w.Open r → (w.collectCommands (w.lms i).commands i).Free r := by
    intro r ho
    refine (hs.free r ho).collectCommands hcs ?_
    rintro rfl
    exact hnot ho
  have hold : ∀ ρ ∈ w.late, Stored (w.collectCommands (w.lms i).commands i) ρ ∨
      Sent (w.collectCommands (w.lms i).commands i) ρ := by
    intro ρ hρ
    have hwait := hs.wait (ne_nil_of_mem hρ)
    refine stored_or_sent_collectCommands (fun c hc => ?_) (hslot hwait) (hs.each ρ hρ)
    rw [hcs c hc]
    exact (hf.late ρ hρ).symm
  rcases collectCommands_cases w (w.lms i).commands i with ⟨-, h⟩ | ⟨-, -, h⟩ | ⟨hin, -, h⟩
  · rw [h] at hfree hold ⊢
    exact ⟨hfree, hs.late_le, hs.pending, hs.wait, hold⟩
  · rw [h] at hfree hold ⊢
    exact ⟨hfree, hs.late_le, hs.pending, hs.wait, hold⟩
  · obtain ⟨hidle, hwait⟩ := ht.of_late hin
    have hnew := Stored.collectCommands hcs hf (hslot hwait) ht.batches h
    rw [h] at hfree hold hnew ⊢
    refine ⟨hfree, fun ρ hρ => ?_, fun hp => absurd hp hidle, fun _ => hwait, fun ρ hρ => ?_⟩
    · rcases mem_append.1 hρ with hρ | hρ
      · exact hs.late_le ρ hρ
      · rw [mem_singleton.1 hρ]
        exact le_rfl
    · rcases mem_append.1 hρ with hρ | hρ
      · exact hold ρ hρ
      · rw [mem_singleton.1 hρ]
        exact .inl hnew

theorem SaveInv.of_same (hs : w.SaveInv) (hopen : ∀ r, w'.Open r → w.Open r)
    (hpend : w'.ProcessingPending → w.ProcessingPending) (hcfg : w'.ric.cfg = w.ric.cfg)
    (hm : w'.ric.lmQueryCommands = w.ric.lmQueryCommands) (hf : w'.forwarded = w.forwarded)
    (hl : w'.late = w.late) (hc : w'.cycleNo = w.cycleNo) : w'.SaveInv where
  free := by
    intro r ho
    have h := hs.free r (hopen r ho)
    exact ⟨hl ▸ h.late, hm ▸ h.collected, hf ▸ h.forwarded⟩
  late_le := hl ▸ hc ▸ hs.late_le
  pending := fun hp => hl ▸ hc ▸ hs.pending (hpend hp)
  wait := hl ▸ hcfg ▸ hs.wait
  each := by
    intro ρ hρ
    rw [hl] at hρ
    have hst : w'.stored ρ.run = w.stored ρ.run := by rw [stored, hm, stored]
    have hse : w'.sent ρ.run = w.sent ρ.run := by rw [sent, hf, sent]
    refine (hs.each ρ hρ).imp (fun h => ?_) (fun h => ?_)
    · exact ⟨hst ▸ h.stored, hse ▸ h.sent, hf ▸ h.batches⟩
    · exact ⟨hse ▸ h.sent, hst ▸ h.stored, hf ▸ h.later⟩

theorem SaveInv.neutral (hw : w.Wf) (hs : w.SaveInv) (h : Neutral w w') : w'.SaveInv := by
  refine hs.of_same (fun r ho => ho.of_lmFrame hw h.lmFrame) ?_ h.cfg h.commands h.forwarded h.late
    h.cycleNo
  rintro ⟨e, he, hev⟩
  rcases h.pending e he with he | ⟨hq, -⟩
  · exact ⟨e, he, hev⟩
  · obtain ⟨n, hn⟩ := RicEvent.isProcessing_iff.1 hev
    simp [hn] at hq

theorem SaveInv.queried (hw' : w'.Wf) (hs : w.SaveInv) (h : Queried w w') : w'.SaveInv where
  free := by
    intro r ho
    have hf := hs.free r (ho.of_queried hw' h)
    exact ⟨h.late ▸ hf.late, h.commands ▸ hf.collected, h.forwarded ▸ hf.forwarded⟩
  late_le := by
    intro ρ hρ
    rw [h.late] at hρ
    rw [h.cycleNo]
    exact Nat.le_succ_of_le (hs.late_le ρ hρ)
  pending := by
    intro _ ρ hρ
    rw [h.late] at hρ
    rw [h.cycleNo]
    exact Nat.lt_succ_of_le (hs.late_le ρ hρ)
  wait := h.late ▸ h.cfg ▸ hs.wait
  each := by
    intro ρ hρ
    rw [h.late] at hρ
    have hst : w'.stored ρ.run = w.stored ρ.run := by rw [stored, h.commands, stored]
    have hse : w'.sent ρ.run = w.sent ρ.run := by rw [sent, h.forwarded, sent]
    refine (hs.each ρ hρ).imp (fun hρ => ?_) (fun hρ => ?_)
    · exact ⟨hst ▸ hρ.stored, hse ▸ hρ.sent, h.forwarded ▸ hρ.batches⟩
    · exact ⟨hse ▸ hρ.sent, hst ▸ hρ.stored, h.forwarded ▸ hρ.later⟩

theorem TimerInv.of_inTime (ht : w.TimerInv) (hin : w.inTime = true)
    (hwait : w.ric.cfg.lmQueryMaxWaitTime ≠ 0) : w.ProcessingPending := by
  rw [inTime, Bool.or_eq_true, beq_iff_eq] at hin
  obtain ⟨e, he, hid⟩ := isPending_iff.1 (hin.resolve_right hwait)
  exact ⟨e, he, RicEvent.isProcessing_iff.2 (ht.handle e he hid)⟩

theorem SaveInv.finishRun (hw : w.Wf) (ht : w.TimerInv) (hs : w.SaveInv)
    (hf : w.Free (w.lms i).run) (hnot : ¬ w.Open (w.lms i).run)
    (hslot : w.ric.cfg.lmQueryMaxWaitTime ≠ 0 →
      w.ric.lmQueryCommands.getD (w.lmKey i) [] = [])
    (ha : (w.lms i).active = true) (h : w.finishRun i = .ok w') : w'.SaveInv := by
  obtain ⟨-, w₁, h1, h2⟩ := finishRun_ok ha h
  have hs₁ : w₁.SaveInv := h1 ▸ hs.collectCommands hw ht hf hnot hslot
  have ht₁ : w₁.TimerInv := h1 ▸ ht.collectCommands _
  have hw₁ : w₁.Wf := by
    obtain ⟨m, late, hfr⟩ := collectCommands_frame w (w.lms i).commands i
    rw [← h1, hfr]
    exact hw.of_lmFrame { (Neutral.refl w).lmFrame with }
  have hclear : ∀ {w : RicWorld}, w.Wf → w.SaveInv → (w.clearCommands i).SaveInv :=
    fun hw hs => hs.of_same (fun r ho => ho.of_lmFrame hw lmFrame_clearCommands) id rfl rfl rfl rfl
      rfl
  rcases h2 with ⟨-, hin, rfl⟩ | ⟨-, rfl⟩
  · cases hact : w₁.ric.active with
    | true =>
      have hp := processLmQueryCommands_active hact
      refine hclear (hw₁.of_lmFrame hp.lmFrame) (hs₁.processed hw₁ hp fun ρ hρ => ?_)
      exact hs₁.pending (ht₁.of_inTime hin (hs₁.wait (ne_nil_of_mem hρ))) ρ hρ
    | false =>
      rw [processLmQueryCommands_inactive hact]
      exact hclear hw₁ hs₁
  · exact hclear hw₁ hs₁

/-! ## Runs -/

/-- A query comes only when no processing is pending, and a module completes a run only when its
slot is empty, if there is a maximum waiting time. -/
def SlotsEmpty (w : RicWorld) (a : RicAction) : Prop :=
  QueriesIdle w a ∧ ∀ i ∈ w.completes? a, w.ric.cfg.lmQueryMaxWaitTime ≠ 0 →
    w.ric.lmQueryCommands.getD (w.lmKey i) [] = []
deriving Decidable

theorem SaveInv.step {a : RicAction} (hw : w.Wf) (ht : w.TimerInv) (hs : w.SaveInv)
    (hok : SlotsEmpty w a) (h : Step w a w') : w'.SaveInv := by
  cases h.kind hw with
  | neutral _ h => exact hs.neutral hw h
  | query q huid hq _ _ hwf h => exact (hs.neutral hw (Neutral.trim huid hq)).queried hwf h
  | finish q i huid hq hr hn ha hc h =>
    have htrim : Neutral w { w with sim := q } := Neutral.trim huid hq
    have hf := hs.free (w.lms i).run (.inr ⟨i, hr, rfl⟩)
    exact SaveInv.finishRun (w := { w with sim := q }) (hw.of_lmFrame htrim.lmFrame)
      (ht.neutral htrim) (hs.neutral hw htrim) ⟨hf.late, hf.collected, hf.forwarded⟩
      (not_open_of_finished hw huid hq hr hn) (hok.2 i hc) ha h
  | process q e n huid he hev hq _ h =>
    have htrim : Neutral w { w with sim := q } := Neutral.trim huid fun x hx => ((hq x).1 hx).1
    refine (hs.neutral hw htrim).processed (hw.of_lmFrame htrim.lmFrame) h ?_
    exact hs.pending ⟨e, he, RicEvent.isProcessing_iff.2 ⟨n, hev⟩⟩

/-- Every late command set, once a later cycle has been processed, was forwarded exactly once, in a
later cycle. -/
def ForwardsSaved (w : RicWorld) : Prop :=
  ∀ ρ ∈ w.late, (∃ b ∈ w.forwarded, ρ.cycleNo < b.cycleNo) →
    (w.sent ρ.run).Perm ρ.commands ∧
      ∀ b ∈ w.forwarded, ∀ c ∈ b.commands, c.run = ρ.run → ρ.cycleNo < b.cycleNo

/-- In every run whose queries find no processing pending, and whose modules complete to an empty
slot, late command sets are forwarded once, in a later cycle. -/
theorem saved_forwarded_once (cfg : RicConfig) (names : LmId → String) (d : LmId)
    (adds : List LmId) (w : RicWorld) (h : Lts.Run Step SlotsEmpty (init cfg names d adds) w) :
    w.ForwardsSaved := by
  have h0 : (init cfg names d adds).Wf ∧ (init cfg names d adds).TimerInv ∧
      (init cfg names d adds).SaveInv :=
    ⟨wf_init cfg names d adds, ⟨nofun, nofun, nofun, nofun⟩,
      ⟨fun r _ => ⟨nofun, nofun, nofun⟩, nofun, nofun, fun h => absurd rfl h, nofun⟩⟩
  obtain ⟨-, -, hs⟩ := Lts.Run.invariant (I := fun w => w.Wf ∧ w.TimerInv ∧ w.SaveInv)
    (fun hi hok hst => ⟨hi.1.step hst, hi.2.1.step hi.1 hok.1 hst,
      hi.2.2.step hi.1 hi.2.1 hok hst⟩) h0 h
  rintro ρ hρ ⟨b, hb, hlt⟩
  rcases hs.each ρ hρ with hst | hse
  · have := hst.batches b hb
    omega
  · exact ⟨hse.sent, hse.later⟩

/-- Every run takes `delay` and orders a command for `target`. -/
def allAfter (delay : Time) (target : Nat) : RicInput := ⟨fun _ => ⟨delay, [target]⟩, 1000000000⟩

/-- The only module is late in two cycles; what it delivered in the first is forwarded in the
second. -/
theorem saved_forwarded_once_example : ∃ w : RicWorld,
    w.late = [⟨1, 0, [⟨7, 0, 1000000⟩]⟩] ∧ w.forwarded.length = 2 ∧ w.ForwardsSaved := by
  have hx : (Lts.execs SlotsEmpty step? (init (waitConfig 500000) exampleNames 0 [])
      [.start 0 (allAfter 0 0), .fire (allAfter 700000 7), .fire (allAfter 0 0),
        .fire (allAfter 0 0), .fire (allAfter 700000 8), .fire (allAfter 0 0)]).map
      (fun w => (w.late, w.forwarded.length)) = some ([⟨1, 0, [⟨7, 0, 1000000⟩]⟩], 2) := by decide
  obtain ⟨w, hw, hf⟩ := Option.map_eq_some_iff.1 hx
  obtain ⟨hl, hn⟩ := Prod.mk.injEq .. ▸ hf
  exact ⟨w, hl, hn, saved_forwarded_once (waitConfig 500000) exampleNames 0 [] w
    (Lts.run_of_execs step_of_step? hw)⟩

/-- The only module is late in the first cycle and in time in the second: its late command is
discarded. -/
theorem saved_overwritten : ¬ ∀ (cfg : RicConfig) (names : LmId → String) (d : LmId)
    (adds : List LmId) (w : RicWorld), cfg.lmQueryLateCommandPolicy = .save →
    Lts.Run Step Lts.anyStep (init cfg names d adds) w → w.ForwardsSaved := by
  intro h
  have hx : (Lts.execs Lts.anyStep step? (init (waitConfig 500000) exampleNames 0 [])
      [.start 0 (allAfter 0 0), .fire (allAfter 700000 7), .fire (allAfter 0 0),
        .fire (allAfter 0 0), .fire (allAfter 100000 8), .fire (allAfter 0 0)]).map
      (fun w => (w.late, w.forwarded)) = some ([⟨1, 0, [⟨7, 0, 1000000⟩]⟩],
        [⟨1, 1000000, []⟩, ⟨2, 2000000, [⟨8, 1, 2000000⟩]⟩]) := by decide
  obtain ⟨w, hw, hf⟩ := Option.map_eq_some_iff.1 hx
  obtain ⟨hl, hf⟩ := Prod.mk.injEq .. ▸ hf
  have hs := h _ exampleNames 0 [] w rfl (Lts.run_of_execs step_of_step? hw)
  have := (hs ⟨1, 0, [⟨7, 0, 1000000⟩]⟩ (by simp [hl]) (by simp [hf])).1
  simp [sent, hf] at this

end RicWorld

end OranNs3
