import OranNs3.E2.Net

/-!
# The send timer of a terminator

A terminator sends its reports in `DoSendReports`, which schedules its own next run. The chain is
started by every response (`ReceiveRegistrationResponse`): `ScheduleNextSend` overwrites the handle
of the pending run without cancelling it. At most one run of `DoSendReports` is pending, and none
while the terminator is inactive (`sends_once`), in every run in which a response reaches the active
terminator only when no `DoSendReports` of it is pending. What is pending then is what the handle
`m_sendEvent` refers to.
-/

namespace OranNs3

open EventQueue Function List Lts Option

/-- The message is a registration response to the terminator. -/
def E2Event.respondsTo (T : TermId) : E2Event → Bool
  | .receiveRegistrationResponse T' _ => T' == T
  | _ => false

namespace E2World

variable {w w' : E2World} {T : TermId} {inp : E2Input}

/-- The pending runs of `DoSendReports` of a terminator. -/
def sends (w : E2World) (T : TermId) : List (Scheduled E2Event) :=
  w.sim.pending.filter fun e => e.ev == .doSendReports T

variable {e : Scheduled E2Event}

theorem mem_sends : e ∈ w.sends T ↔ e ∈ w.sim.pending ∧ e.ev = .doSendReports T := by
  rw [sends, mem_filter, beq_iff_eq]

/-- The invariant of the send timer: only the run of the handle is pending, and none of an inactive
terminator. -/
structure SendInv (T : TermId) (w : E2World) : Prop where
  handle : ∀ e ∈ w.sends T, (w.terminators T).sendEvent = some e.uid
  inactive : (w.node T).active = false → w.sends T = []

/-- What a step does to the send timer of a terminator that it does not set. -/
structure SendFrame (T : TermId) (w w' : E2World) : Prop where
  sends : ∀ e ∈ w'.sends T, e ∈ w.sends T
  handle : (w'.terminators T).sendEvent = (w.terminators T).sendEvent
  active : (w'.node T).active = false → (w.node T).active = false ∨ w'.sends T = []

namespace SendFrame

theorem refl (T : TermId) (w : E2World) : SendFrame T w w := ⟨fun _ => id, rfl, .inl⟩

theorem trans {w'' : E2World} (h : SendFrame T w w') (h' : SendFrame T w' w'') :
    SendFrame T w w'' where
  sends := fun e he => h.sends e (h'.sends e he)
  handle := h'.handle.trans h.handle
  active := by
    intro hact
    rcases h'.active hact with hact | hnil
    · rcases h.active hact with hact | hnil
      · exact .inl hact
      · exact .inr (eq_nil_iff_forall_not_mem.2 fun e he => by
          have := h'.sends e he
          rw [hnil] at this
          cases this)
    · exact .inr hnil

theorem of_sim (hsim : ∀ e ∈ w'.sim.pending, e.ev = .doSendReports T → e ∈ w.sim.pending)
    (hterm : w'.terminators = w.terminators) : SendFrame T w w' where
  sends := fun e he => mem_sends.2 ⟨hsim e (mem_sends.1 he).1 (mem_sends.1 he).2,
    (mem_sends.1 he).2⟩
  handle := by rw [hterm]
  active := fun h => .inl (by rw [node, ← hterm]; exact h)

theorem schedule {d : Time} {ev : E2Event} (hsim : w'.sim = w.sim.schedule d ev)
    (hterm : w'.terminators = w.terminators) (hev : ev ≠ .doSendReports T) : SendFrame T w w' := by
  refine of_sim (fun e he heq => ?_) hterm
  rw [hsim] at he
  rcases mem_schedule.1 he with rfl | he
  · exact absurd heq hev
  · exact he

theorem send (w : E2World) (d : Time) (ev : E2Event) (hev : ev ≠ .doSendReports T) :
    SendFrame T w (w.send d ev) :=
  schedule rfl rfl hev

theorem cancel {id : EventId} (hsim : w'.sim = w.sim.cancel id)
    (hterm : w'.terminators = w.terminators) : SendFrame T w w' := by
  refine of_sim (fun e he _ => ?_) hterm
  rw [hsim] at he
  exact (mem_cancel.1 he).1

variable {T' : TermId}

theorem setTerm {τ : Terminator} (hsend : T' = T → τ.sendEvent = (w.terminators T).sendEvent)
    (hact : T' = T → τ.active = false → (w.node T).active = false) :
    SendFrame T w (w.setTerm T' τ) := by
  by_cases hT : T' = T
  · subst hT
    have hself : (w.setTerm T' τ).terminators T' = τ := update_self ..
    refine ⟨fun _ => id, ?_, fun h => .inl (hact rfl ?_)⟩
    · rw [hself]
      exact hsend rfl
    · rwa [node, hself] at h
  · have hne : (w.setTerm T' τ).terminators T = w.terminators T :=
      update_of_ne (Ne.symm hT) ..
    exact ⟨fun _ => id, by rw [hne], fun h => .inl (by rw [node, ← hne]; exact h)⟩

theorem setNode {ν : E2Node} (hact : T' = T → ν.active = false → (w.node T).active = false) :
    SendFrame T w (w.setNode T' ν) :=
  setTerm (fun hT => by rw [hT]) hact

theorem foldDraws {γ : Type} {f : Time → E2World → γ → E2World}
    (hf : ∀ d w c, SendFrame T w (f d w c)) (ds : Nat → Time) (l : List γ) (w : E2World) :
    SendFrame T w (Lts.foldDraws f ds w l) :=
  foldDraws_induction (P := SendFrame T w) (fun _ h => h.trans (hf _ _ _)) ds (refl T w)

theorem register (inp : E2Input) (w : E2World) (T' : TermId) :
    SendFrame T w (w.register inp T') := by
  unfold E2World.register
  split
  · have hcancel : SendFrame T w (w.cancelNextRegistration T') := cancel rfl rfl
    have hreq : SendFrame T w ((w.cancelNextRegistration T').sendRequest inp T') :=
      hcancel.trans (schedule rfl rfl nofun)
    refine (hreq.trans (send _ inp.interval (.register T') nofun)).trans
      (setTerm (fun hT => ?_) fun hT h => ?_)
    · rw [← hT]
      rfl
    · rw [← hT]
      exact h
  · exact refl T w

theorem sendReports (delays : Nat → Time) (w : E2World) (reports : List Report) :
    SendFrame T w (w.sendReports delays reports) :=
  foldDraws (fun d w r => send w d (.receiveReport r) nofun) delays reports w

theorem receiveDeregistrationRequest (d : Time) (w : E2World) (x : Nat) :
    SendFrame T w (w.receiveDeregistrationRequest d x) := by
  unfold E2World.receiveDeregistrationRequest
  split
  · exact schedule rfl rfl nofun
  · exact refl T w

theorem sendCommand (d : Time) (w : E2World) (c : Command) : SendFrame T w (w.sendCommand d c) := by
  unfold E2World.sendCommand
  split
  · exact schedule rfl rfl nofun
  · exact refl T w

theorem receiveRegistrationRequest (inp : E2Input) (w : E2World) (type : NodeType) (id : Nat)
    (T' : TermId) : SendFrame T w (w.receiveRegistrationRequest inp type id T') := by
  unfold E2World.receiveRegistrationRequest
  split
  · exact schedule rfl rfl nofun
  · exact refl T w

theorem setActive (w : E2World) (active : Bool) : SendFrame T w (w.setActive active) := by
  unfold E2World.setActive
  split
  · exact refl T w
  · exact of_sim (fun _ he _ => he) rfl

end SendFrame

theorem SendInv.frame (hw : SendInv T w) (h : SendFrame T w w') : SendInv T w' where
  handle := fun e he => h.handle.trans (hw.handle e (h.sends e he))
  inactive := by
    intro hact
    rcases h.active hact with hact | hnil
    · refine eq_nil_iff_forall_not_mem.2 fun e he => ?_
      have := h.sends e he
      rw [hw.inactive hact] at this
      cases this
    · exact hnil

theorem SendInv.scheduleNextSend_of_ne (hne : T' ≠ T) (hw : SendInv T w) :
    SendInv T (w.scheduleNextSend inp T') := by
  unfold E2World.scheduleNextSend
  split
  · have hsched : SendFrame T w (w.send inp.interval (.doSendReports T')) :=
      .schedule rfl rfl fun h => hne (E2Event.doSendReports.inj h)
    exact hw.frame (hsched.trans (.setTerm (fun h => absurd h hne) fun h => absurd h hne))
  · exact hw

theorem SendInv.scheduleNextSend_self (hnone : w.sends T = []) (hw : SendInv T w) :
    SendInv T (w.scheduleNextSend inp T) := by
  unfold E2World.scheduleNextSend
  split
  · next hact =>
    have hself : ((w.send inp.interval (.doSendReports T)).setTerm T
        { w.terminators T with sendEvent := w.sim.handle }).terminators T =
        { w.terminators T with sendEvent := w.sim.handle } := update_self ..
    refine ⟨fun e he => ?_, fun h => ?_⟩
    · rw [hself]
      rcases mem_schedule.1 (mem_sends.1 he).1 with rfl | hold
      · rfl
      · have hmem : e ∈ w.sends T := mem_sends.2 ⟨hold, (mem_sends.1 he).2⟩
        rw [hnone] at hmem
        cases hmem
    · rw [node, hself] at h
      rw [show (w.terminators T).active = true from hact] at h
      cases h
  · exact hw

theorem SendInv.scheduleNextSend (hnone : w.sends T = []) (T' : TermId) (hw : SendInv T w) :
    SendInv T (w.scheduleNextSend inp T') := by
  by_cases hT : T' = T
  · subst hT
    exact hw.scheduleNextSend_self hnone
  · exact hw.scheduleNextSend_of_ne hT

/-- The condition of a step: a response reaches the active terminator only when no run of
`DoSendReports` is pending. -/
def ResponseOk (T : TermId) (w : E2World) : E2Action → Prop
  | .fire _ => match w.sim.next? with
    | some (e, _) => e.ev.respondsTo T = true → (w.node T).active = true → w.sends T = []
    | none => True
  | _ => True

instance (T : TermId) (w : E2World) (a : E2Action) : Decidable (ResponseOk T w a) := by
  unfold ResponseOk
  split
  · split <;> infer_instance
  · infer_instance

theorem SendInv.doSendReports (hnone : w.sends T = []) (T' : TermId) (hw : SendInv T w) :
    SendInv T (w.doSendReports inp T') := by
  unfold E2World.doSendReports
  split
  · next hact =>
    have hcleared : SendFrame T w ((w.sendReports inp.delays (w.node T').reports).setNode T'
        { w.node T' with reports := [] }) :=
      (SendFrame.sendReports _ w _).trans (.setNode fun _ h => by rw [h] at hact; cases hact)
    refine (hw.frame hcleared).scheduleNextSend ?_ T'
    exact eq_nil_iff_forall_not_mem.2 fun e he => by
      have := hcleared.sends e he
      rw [hnone] at this
      cases this
  · exact hw

theorem SendInv.fired {q : EventQueue E2Event} (hw : SendInv T w)
    (hq : w.sim.next? = some (e, q)) (hev : e.ev = .doSendReports T) :
    sends { w with sim := q } T = [] := by
  refine eq_nil_iff_forall_not_mem.2 fun x hx => ?_
  obtain ⟨hx, hxev⟩ := mem_sends.1 hx
  obtain ⟨hx, hne⟩ := (mem_next? hq).1 hx
  have hxid := hw.handle x (mem_sends.2 ⟨hx, hxev⟩)
  have heid := hw.handle e (mem_sends.2 ⟨next?_mem hq, hev⟩)
  exact hne (some.inj (hxid.symm.trans heid))

theorem SendInv.doSendReports_of_ne (hne : T' ≠ T) (hw : SendInv T w) :
    SendInv T (w.doSendReports inp T') := by
  unfold E2World.doSendReports
  split
  · have hcleared : SendFrame T w ((w.sendReports inp.delays (w.node T').reports).setNode T'
        { w.node T' with reports := [] }) :=
      (SendFrame.sendReports _ w _).trans (.setNode fun hT => absurd hT hne)
    exact (hw.frame hcleared).scheduleNextSend_of_ne hne
  · exact hw

/-- The handlers keep the invariant, when a response finds no pending run. -/
theorem SendInv.handled {ev : E2Event} (hw : SendInv T w)
    (hsend : ev = .doSendReports T → w.sends T = [])
    (hresp : ev.respondsTo T = true → (w.node T).active = true → w.sends T = [])
    (h : w.handle inp ev = .ok w') : SendInv T w' := by
  cases ev with
  | register T' => cases h; exact hw.frame (.register inp w T')
  | doSendReports T' =>
    cases h
    by_cases hT : T' = T
    · exact hw.doSendReports (hsend (by rw [hT])) T'
    · exact hw.doSendReports_of_ne hT
  | receiveRegistrationRequest type id T' =>
    cases h
    exact hw.frame (.receiveRegistrationRequest inp w type id T')
  | receiveDeregistrationRequest x => cases h; exact hw.frame (.receiveDeregistrationRequest _ w x)
  | receiveReport r => cases h; exact hw.frame (.of_sim (fun _ he _ => he) rfl)
  | receiveRegistrationResponse T' x =>
    simp only [E2World.handle, E2World.receiveRegistrationResponse] at h
    split at h
    · next hact =>
      obtain ⟨ν, hν, h⟩ := ok_of_bind h
      cases h
      have hset : SendFrame T w (w.setNode T' ν) := by
        refine .setNode fun hT hν' => ?_
        rw [(E2Node.learnId_e2NodeId hν).2, hact] at hν'
        cases hν'
      by_cases hT : T' = T
      · subst hT
        refine (hw.frame hset).scheduleNextSend ?_ T'
        exact hresp (beq_self_eq_true T') hact
      · exact (hw.frame hset).scheduleNextSend_of_ne hT
    · cases h
      exact hw
  | receiveDeregistrationResponse T' x =>
    cases T' with
    | none => cases h
    | some T' =>
      cases h
      refine hw.frame (.setNode fun hT hact => ?_)
      rw [← hT]
      exact hact
  | receiveCommand T' c =>
    cases T' with
    | none => cases h
    | some T' => cases h; exact hw

theorem SendInv.deactivate (hw : SendInv T w)
    (h : w.deactivate inp T' = .ok w') : SendInv T w' := by
  unfold E2World.deactivate at h
  split at h
  · next hact =>
    obtain ⟨ν, hν, h⟩ := ok_of_bind h
    cases h
    have hset : SendFrame T w (w.setNode T' ν) := by
      refine .setNode fun hT hν' => ?_
      rw [(E2Node.deactivateReporters_e2NodeId hν).2, hact] at hν'
      cases hν'
    have hcancel : SendFrame T (w.setNode T' ν) ((w.setNode T' ν).cancelNextSend T') :=
      .cancel rfl rfl
    have hreg : SendFrame T ((w.setNode T' ν).cancelNextSend T')
        (((w.setNode T' ν).cancelNextSend T').cancelNextRegistration T') := .cancel rfl rfl
    have hdereg : SendFrame T ((w.setNode T' ν).cancelNextSend T')
        (((w.setNode T' ν).cancelNextSend T').deregister inp T') :=
      hreg.trans (.send _ _ (.receiveDeregistrationRequest _) nofun)
    by_cases hT : T' = T
    · subst hT
      -- what was pending is what the cancelled handle refers to
      have hnone : (((w.setNode T' ν).cancelNextSend T').deregister inp T').sends T' = [] := by
        refine eq_nil_iff_forall_not_mem.2 fun e he => ?_
        obtain ⟨hpend, hev⟩ := mem_sends.1 (hdereg.sends e he)
        obtain ⟨hpend, hne⟩ := mem_cancel.1 hpend
        exact hne ((hw.frame hset).handle e (mem_sends.2 ⟨hpend, hev⟩))
      refine ⟨fun e he => ?_, fun _ => hnone⟩
      have he : e ∈ (((w.setNode T' ν).cancelNextSend T').deregister inp T').sends T' := he
      rw [hnone] at he
      cases he
    · exact hw.frame (((hset.trans hcancel).trans hdereg).trans (.setNode fun h => absurd h hT))
  · cases h
    exact hw

/-- The calls from outside keep the invariant. -/
theorem SendInv.call {a : E2Action} (hw : SendInv T w) (h : w.call a = .ok w') : SendInv T w' := by
  cases a with
  | fire inp => cases h; exact hw
  | activate t inp T' =>
    simp only [E2World.call, E2World.activate] at h
    split at h
    · cases h
      exact hw
    · obtain ⟨ν, hν, h⟩ := ok_of_bind h
      cases h
      have hon : SendFrame T w (w.setNode T' (w.node T').powerOn) :=
        .setNode fun _ h => Bool.noConfusion h
      refine hw.frame ((hon.trans (.register inp _ T')).trans (.setNode fun hT hact => ?_))
      rw [← hT, ← (E2Node.activateReporters_e2NodeId hν).2]
      exact hact
  | deactivate t inp T' => exact hw.deactivate h
  | performReport t T' i =>
    cases h
    refine hw.frame (.setNode fun hT hact => ?_)
    rw [← hT, ← (E2Node.performReport_e2NodeId T' (w.node T') i).2]
    exact hact
  | addTx t T' i rnti lcid bytes =>
    cases h
    refine hw.frame (.setNode fun hT hact => ?_)
    rw [← hT]
    exact hact
  | processCommands t inp cs =>
    cases h
    unfold E2World.processCommands
    split
    · exact hw.frame (.foldDraws SendFrame.sendCommand _ cs w)
    · exact hw
  | checkForInactivity t inp b =>
    cases h
    unfold E2World.checkForInactivity
    split
    · exact hw.frame (.foldDraws SendFrame.receiveDeregistrationRequest _ _ w)
    · exact hw
  | setActive t active => cases h; exact hw.frame (.setActive w active)

theorem SendInv.step {a : E2Action} (hw : SendInv T w) (hok : ResponseOk T w a)
    (h : Step w a w') : SendInv T w' := by
  rcases step_cases h with ⟨inp, e, q, rfl, hq, h⟩ | ⟨q, -, hq, h⟩
  · have htake : SendFrame T w { w with sim := q } :=
      .of_sim (fun x hx _ => ((mem_next? hq).1 hx).1) rfl
    refine (hw.frame htake).handled (fun hev => hw.fired hq hev) (fun hresp hact => ?_) h
    rw [ResponseOk, hq] at hok
    refine eq_nil_iff_forall_not_mem.2 fun x hx => ?_
    have := htake.sends x hx
    rw [hok hresp hact] at this
    cases this
  · have hcall : SendFrame T w { w with sim := q } :=
      .of_sim (fun x hx _ => (advance?_eq_some hq).1 ▸ hx) rfl
    exact (hw.frame hcall).call h

theorem now_sendReports (delays : Nat → Time) (reports : List Report) :
    (w.sendReports delays reports).sim.now = w.sim.now := by
  unfold sendReports
  refine foldDraws_induction (P := fun w' : E2World => w'.sim.now = w.sim.now) ?_ delays rfl
  exact fun _ h => h

theorem SendInv.interval (hw : SendInv T w) {q : EventQueue E2Event}
    (hq : w.sim.next? = some (e, q)) (hev : e.ev = .doSendReports T)
    (h : Step w (.fire inp) w') : ∀ e' ∈ w'.sends T, e'.ts = e.ts + inp.interval := by
  have hnow : q.now = e.ts := (next?_eq_some hq).2.1
  have hnone := hw.fired hq hev
  rw [Step, act, hq] at h
  have hstep : E2World.handle inp { w with sim := q } e.ev = .ok w' := some.inj h
  rw [hev] at hstep
  cases hstep
  intro e' he'
  unfold E2World.doSendReports E2World.scheduleNextSend at he'
  split at he'
  · split at he'
    · obtain ⟨hpend, hev'⟩ := mem_sends.1 he'
      rcases mem_schedule.1 hpend with rfl | hold
      · exact congrArg (· + inp.interval) ((now_sendReports _ _).trans hnow)
      · have hmem := (SendFrame.sendReports (T := T) inp.delays { w with sim := q } _).sends e'
          (mem_sends.2 ⟨hold, hev'⟩)
        rw [hnone] at hmem
        cases hmem
    · have hmem := (SendFrame.sendReports (T := T) inp.delays { w with sim := q } _).sends e' he'
      rw [hnone] at hmem
      cases hmem
  · rw [hnone] at he'
    cases he'

theorem sendInv_init (threshold : Time) (cfg : TermId → TerminatorConfig) :
    SendInv T (init threshold cfg) := ⟨nofun, fun _ => rfl⟩

/-- At most one run of `DoSendReports` is pending and none while the terminator is inactive, and
when one runs, the next one is an interval later. -/
structure SendsOnce (T : TermId) (w : E2World) : Prop where
  one : (w.sends T).length ≤ 1
  inactive : (w.node T).active = false → w.sends T = []
  interval : ∀ inp e q w', w.sim.next? = some (e, q) → e.ev = .doSendReports T →
    Step w (.fire inp) w' → ∀ e' ∈ w'.sends T, e'.ts = e.ts + inp.interval

theorem SendInv.sendsOnce (hw : SendInv T w) : SendsOnce T w where
  one := by
    have hnodup : ((w.sends T).map (·.uid)).Nodup :=
      w.sim.nodup.sublist (List.filter_sublist.map _)
    have hhandle := hw.handle
    cases hs : w.sends T with
    | nil => exact Nat.zero_le 1
    | cons e l =>
      cases l with
      | nil => exact le_rfl
      | cons e' l =>
        -- both have the number of the handle
        rw [hs] at hnodup hhandle
        have he := hhandle e mem_cons_self
        have he' := hhandle e' (mem_cons_of_mem _ mem_cons_self)
        have huid : e.uid = e'.uid := some.inj (he.symm.trans he')
        exact absurd (mem_cons.2 (.inl huid)) (nodup_cons.1 hnodup).1
  inactive := hw.inactive
  interval := fun _ _ _ _ hq hev h => hw.interval hq hev h

/-- In every run in which a response reaches the active terminator only when no `DoSendReports` of
it is pending, reports are sent once in an interval. -/
theorem sends_once (threshold : Time) (cfg : TermId → TerminatorConfig) (T : TermId) (w : E2World)
    (h : Lts.Run Step (ResponseOk T) (init threshold cfg) w) : SendsOnce T w :=
  (Lts.Run.invariant (I := SendInv T) (fun hw hok hst => hw.step hok hst)
    (sendInv_init threshold cfg) h).sendsOnce

/-- One response, after which the reports are sent once. -/
theorem sends_once_example : ∃ w : E2World, (w.sends 0).length = 1 ∧ SendsOnce 0 w := by
  have hx : (execs (ResponseOk 0) step? (init 100 ueConfig) [.setActive 0 true,
      .activate 0 (draws 2 50) 0, .fire (draws 2 0), .fire (draws 0 10), .fire (draws 2 10)]).map
      (fun w => (w.sends 0).length) = some 1 := by decide
  obtain ⟨w, hw, hf⟩ := map_eq_some_iff.1 hx
  exact ⟨w, hf, sends_once 100 ueConfig 0 w (run_of_execs step_of_step? hw)⟩

/-- A second response while `DoSendReports` is pending: two runs of it are pending. -/
theorem sends_twice : ¬ ∀ (threshold : Time) (cfg : TermId → TerminatorConfig) (T : TermId)
    (w : E2World), Lts.Run Step Lts.anyStep (init threshold cfg) w → SendsOnce T w := by
  intro h
  have hx : (execs anyStep step? (init 100 ueConfig) [.setActive 0 true,
      .activate 0 (draws 2 10) 0, .fire (draws 2 0), .fire (draws 0 50), .fire (draws 2 10),
      .fire (draws 2 0), .fire (draws 0 50)]).map (fun w => (w.sends 0).length) = some 2 := by
        decide
  obtain ⟨w, hw, hf⟩ := map_eq_some_iff.1 hx
  have := (h 100 ueConfig 0 w (run_of_execs step_of_step? hw)).one
  omega

end E2World

end OranNs3
