import OranNs3.E2.Net

/-!
# The reporters of an active terminator

A terminator activates its reporters when it is activated, and a reporter its trigger. There is no
way back: when they are deactivated, the trigger sets the attribute of the reporter that points to
it to a null pointer (`OranReportTrigger::Deactivate`), and the program ends. The reporters of an
active terminator work (`reporters_work`) in every run in which a terminator that has reporters is
never deactivated while it is active, and a call that breaks this condition does not return.
-/

namespace OranNs3

open List Lts

/-- The reporter is active and linked with its trigger. -/
def Reporter.Linked (r : Reporter) : Prop :=
  r.active = true ∧ ∃ t, r.trigger = some t ∧ t.active = true

/-- The reporter was given a trigger and not activated yet. -/
def Reporter.Ready (r : Reporter) : Prop := r.active = false ∧ ∃ t, r.trigger = some t

/-- A reporter that is ready is activated, together with its trigger. -/
theorem Reporter.Ready.activate {r : Reporter} (h : r.Ready) :
    ∃ r', r.activate = .ok r' ∧ r'.Linked := by
  obtain ⟨hact, t, ht⟩ := h
  rw [Reporter.activate, hact, ht]
  exact ⟨_, rfl, rfl, _, rfl, rfl⟩

/-- A reporter that is linked cannot be deactivated. -/
theorem Reporter.Linked.deactivate {r : Reporter} (h : r.Linked) :
    r.deactivate = .error .nullPointerValue := by
  obtain ⟨hact, t, ht, htact⟩ := h
  rw [Reporter.deactivate, if_pos hact, ht]
  exact if_pos htact

namespace E2Node

variable {ν ν' : E2Node} {T : TermId}

theorem forall_performReport {P : Reporter → Prop}
    (hP : ∀ r origin x, P r → P (r.flush origin x)) (h : ∀ r ∈ ν.reporters, P r) (i : Nat) :
    ∀ r ∈ (ν.performReport T i).reporters, P r := by
  unfold performReport storeReports
  split
  · next r hr =>
    have hset : ∀ r' ∈ ν.reporters.set i (r.flush (T, i) ν.e2NodeId), P r' := by
      intro r' hr'
      rcases mem_or_eq_of_mem_set hr' with hr' | rfl
      · exact h r' hr'
      · exact hP r _ _ (h r (mem_of_getElem? hr))
    repeat' split
    all_goals first | exact hset | exact h
  · exact h

section
variable (h : ∀ r ∈ ν.reporters, r.Linked)
include h

theorem notifyRegistrationComplete_linked (i : Nat) :
    ∃ ν', ν.notifyRegistrationComplete T i = .ok ν' ∧ ∀ r ∈ ν'.reporters, r.Linked := by
  unfold notifyRegistrationComplete
  split
  · next r hr =>
    obtain ⟨-, t, ht, -⟩ := h r (mem_of_getElem? hr)
    rw [ht]
    refine ⟨_, rfl, ?_⟩
    split
    · exact forall_performReport (fun r _ _ hr => hr) h i
    · exact h
  · exact ⟨ν, rfl, h⟩

theorem notifyAll_linked (l : List Nat) :
    ∃ ν', l.foldlM (notifyRegistrationComplete T) ν = .ok ν' ∧ ∀ r ∈ ν'.reporters, r.Linked := by
  induction l generalizing ν with
  | nil => exact ⟨ν, rfl, h⟩
  | cons i l ih =>
    obtain ⟨ν₁, hν₁, h₁⟩ := notifyRegistrationComplete_linked (T := T) h i
    obtain ⟨ν', hν', h'⟩ := ih h₁
    refine ⟨ν', ?_, h'⟩
    rw [foldlM_cons, hν₁]
    exact hν'

theorem learnId_linked (x : Nat) : ∃ ν', ν.learnId T x = .ok ν' ∧ ∀ r ∈ ν'.reporters, r.Linked := by
  unfold learnId
  split
  · split
    · exact notifyAll_linked (ν := { ν with e2NodeId := x }) h _
    · exact ⟨_, rfl, h⟩
  · exact ⟨ν, rfl, h⟩

end

theorem forall_addTx {P : Reporter → Prop} (hP : ∀ r new, P r → P (r.addTx new))
    (h : ∀ r ∈ ν.reporters, P r) (i : Nat) (new : Reporter.Sample) :
    ∀ r ∈ (ν.addTx i new).reporters, P r := by
  intro r hr
  obtain ⟨j, hj⟩ := mem_iff_getElem?.1 hr
  rw [addTx, getElem?_modify] at hj
  obtain ⟨r₀, hr₀, rfl⟩ := Option.map_eq_some_iff.1 hj
  have h₀ := h r₀ (mem_of_getElem? hr₀)
  split
  · exact hP r₀ new h₀
  · exact h₀

theorem mapM_activate {rs : List Reporter} (h : ∀ r ∈ rs, r.Ready) :
    ∃ rs', rs.mapM Reporter.activate = .ok rs' ∧ ∀ r ∈ rs', r.Linked := by
  induction rs with
  | nil => exact ⟨[], rfl, fun r hr => absurd hr not_mem_nil⟩
  | cons r rs ih =>
    obtain ⟨r', hr', hlinked⟩ := (h r mem_cons_self).activate
    obtain ⟨rs', hrs', hall⟩ := ih fun r hr => h r (mem_cons_of_mem _ hr)
    refine ⟨r' :: rs', ?_, forall_mem_cons.2 ⟨hlinked, hall⟩⟩
    rw [mapM_cons, hr', hrs']
    rfl

/-- Reporters that are ready are activated. -/
theorem activateReporters_linked (h : ∀ r ∈ ν.reporters, r.Ready) :
    ∃ ν', ν.activateReporters = .ok ν' ∧ ∀ r ∈ ν'.reporters, r.Linked := by
  obtain ⟨rs, hrs, hlinked⟩ := mapM_activate h
  refine ⟨{ ν with reporters := rs }, ?_, hlinked⟩
  rw [activateReporters, hrs]
  rfl

/-- Reporters that are linked are deactivated only where there are none. -/
theorem deactivateReporters_linked (h : ∀ r ∈ ν.reporters, r.Linked)
    (hd : ν.deactivateReporters = .ok ν') : ν.reporters = [] ∧ ν'.reporters = [] := by
  obtain ⟨rs, hrs, hd⟩ := ok_of_bind hd
  cases hd
  cases hν : ν.reporters with
  | nil =>
    rw [hν] at hrs
    cases hrs
    exact ⟨rfl, rfl⟩
  | cons r l =>
    rw [hν, mapM_cons, (h r (hν ▸ mem_cons_self)).deactivate] at hrs
    cases hrs

end E2Node

namespace E2Net

variable {n n' : E2Net} {T : TermId}

/-- The invariant: the reporters of an active terminator are linked, and those of an inactive one
can be. -/
structure LinkInv (T : TermId) (n : E2Net) : Prop where
  linked : (n.nodes T).active = true → ∀ r ∈ (n.nodes T).reporters, r.Linked
  ready : (n.nodes T).active = false → ∀ r ∈ (n.nodes T).reporters, r.Ready

theorem LinkInv.of_nodes (hn : LinkInv T n) (hnodes : n'.nodes T = n.nodes T) : LinkInv T n' := by
  refine ⟨?_, ?_⟩
  · rw [hnodes]
    exact hn.linked
  · rw [hnodes]
    exact hn.ready

variable {T' : TermId}

theorem LinkInv.setNode {ν : E2Node} (hn : LinkInv T n)
    (hlinked : T' = T → ν.active = true → ∀ r ∈ ν.reporters, r.Linked)
    (hready : T' = T → ν.active = false → ∀ r ∈ ν.reporters, r.Ready) :
    LinkInv T (n.setNode T' ν) := by
  by_cases hT : T' = T
  · subst hT
    refine ⟨?_, ?_⟩
    · rw [setNode_self]
      exact hlinked rfl
    · rw [setNode_self]
      exact hready rfl
  · exact hn.of_nodes (setNode_of_ne (Ne.symm hT) n ν)

theorem LinkInv.map {ν : E2Node} (hn : LinkInv T n) (hact : ν.active = (n.nodes T').active)
    (hreps : ∀ P : Reporter → Prop, (∀ r origin x, P r → P (r.flush origin x)) →
      (∀ r new, P r → P (r.addTx new)) → (∀ r ∈ (n.nodes T').reporters, P r) →
      ∀ r ∈ ν.reporters, P r) : LinkInv T (n.setNode T' ν) := by
  refine hn.setNode (fun hT ha => ?_) fun hT ha => ?_
  · subst hT
    exact hreps _ (fun r _ _ hr => hr) (fun r _ hr => hr) (hn.linked (hact ▸ ha))
  · subst hT
    exact hreps _ (fun r _ _ hr => hr) (fun r _ hr => hr) (hn.ready (hact ▸ ha))

theorem LinkInv.register (hn : LinkInv T n) (T' : TermId) : LinkInv T (n.register T') := by
  unfold E2Net.register
  split
  · exact ⟨hn.linked, hn.ready⟩
  · exact hn

theorem LinkInv.learn {x : Nat} (hn : LinkInv T n)
    (h : n.receiveRegistrationResponse T' x = .ok n') : LinkInv T n' := by
  unfold receiveRegistrationResponse at h
  split at h
  · next hact =>
    obtain ⟨ν, hν, h⟩ := ok_of_bind h
    cases h
    refine hn.setNode (fun hT _ => ?_) fun _ ha => ?_
    · subst hT
      obtain ⟨ν', hν', hlinked⟩ := E2Node.learnId_linked (T := T') (hn.linked hact) x
      rw [hν'] at hν
      cases hν
      exact hlinked
    · rw [(E2Node.learnId_e2NodeId hν).2, hact] at ha
      cases ha
  · cases h
    exact hn

theorem LinkInv.activate (hn : LinkInv T n) (h : n.activate T' = .ok n') : LinkInv T n' := by
  obtain ⟨-, rfl⟩ | ⟨ν, hact, hν, rfl⟩ := activate_ok h
  · exact hn
  · by_cases hT : T' = T
    · subst hT
      rw [register_powerOn] at hν ⊢
      simp only [E2Net.send, setNode_self] at hν
      obtain ⟨ν', hν', hlinked⟩ :=
        E2Node.activateReporters_linked (ν := (n.nodes T').powerOn) (hn.ready hact)
      rw [hν'] at hν
      cases hν
      refine ⟨fun _ => ?_, fun ha => ?_⟩
      · rw [setNode_self]
        exact hlinked
      · rw [setNode_self, (E2Node.activateReporters_e2NodeId hν').2] at ha
        cases ha
    · have hset : LinkInv T (n.setNode T' (n.nodes T').powerOn) :=
        hn.of_nodes (setNode_of_ne (Ne.symm hT) _ _)
      exact (hset.register T').of_nodes (setNode_of_ne (Ne.symm hT) _ _)

theorem LinkInv.deactivate (hn : LinkInv T n) (h : n.deactivate T' = .ok n') : LinkInv T n' := by
  obtain rfl | ⟨ν, hact, hν, rfl⟩ := deactivate_ok h
  · exact hn
  · by_cases hT : T' = T
    · subst hT
      -- it had no reporters, or the call would not have returned
      obtain ⟨-, hnone⟩ := E2Node.deactivateReporters_linked (hn.linked hact) hν
      refine ⟨fun ha => ?_, fun _ r hr => ?_⟩
      · rw [setNode_self] at ha
        cases ha
      · rw [setNode_self, hnone] at hr
        cases hr
    · refine hn.of_nodes ?_
      rw [setNode_of_ne (Ne.symm hT)]
      exact setNode_of_ne (Ne.symm hT) n ν

/-- Every step that the program survives keeps the reporters linked. -/
theorem LinkInv.step {a : NetAction} (hn : LinkInv T n) (h : n.Step a n') : LinkInv T n' := by
  cases a with
  | register T' => cases h; exact hn.register T'
  | doSendReports T' =>
    cases h
    unfold E2Net.doSendReports
    split
    · exact LinkInv.map (n := { n with inFlight := _ }) ⟨hn.linked, hn.ready⟩ rfl fun P _ _ hP => hP
    · exact hn
  | deliver t ev =>
    obtain ⟨rest, -, h⟩ := h
    have htake : LinkInv T { n with inFlight := rest } := ⟨hn.linked, hn.ready⟩
    cases ev with
    | register T' | doSendReports T' => cases h; exact htake
    | receiveRegistrationRequest type id T' =>
      cases h
      unfold receiveRegistrationRequest
      split
      · exact ⟨hn.linked, hn.ready⟩
      · exact htake
    | receiveDeregistrationRequest x =>
      cases h
      unfold receiveDeregistrationRequest
      split
      · exact ⟨hn.linked, hn.ready⟩
      · exact htake
    | receiveReport r => cases h; exact ⟨hn.linked, hn.ready⟩
    | receiveRegistrationResponse T' x => exact htake.learn h
    | receiveDeregistrationResponse T' x =>
      cases T' with
      | none => cases h
      | some T' => cases h; exact htake.map rfl fun P _ _ hP => hP
    | receiveCommand T' c =>
      cases T' with
      | none => cases h
      | some T' => cases h; exact htake
  | activate T' => exact hn.activate h
  | deactivate T' => exact hn.deactivate h
  | performReport T' i =>
    cases h
    exact hn.map (E2Node.performReport_e2NodeId T' _ i).2 fun P hflush _ hP =>
      E2Node.forall_performReport hflush hP i
  | addTx T' i new =>
    cases h
    exact hn.map rfl fun P _ hadd hP => E2Node.forall_addTx hadd hP i new
  | processCommands cs =>
    cases h
    unfold processCommands
    split
    · refine foldlRecOn (motive := LinkInv T) cs _ hn fun m hm c _ => ?_
      unfold sendCommand
      split
      · exact ⟨hm.linked, hm.ready⟩
      · exact hm
    · exact hn
  | deregisterInactive t b ids =>
    obtain ⟨-, rfl⟩ := h
    unfold deregisterInactive
    split
    · refine foldlRecOn (motive := LinkInv T) ids _ hn fun m hm x _ => ?_
      unfold receiveDeregistrationRequest
      split
      · exact ⟨hm.linked, hm.ready⟩
      · exact hm
    · exact hn
  | setActive active =>
    cases h
    unfold setActive
    split
    · exact hn
    · exact ⟨hn.linked, hn.ready⟩

theorem linkInv_init (cfg : TermId → TerminatorConfig) : LinkInv T (.init cfg) where
  linked := nofun
  ready := by
    intro _ r hr
    obtain ⟨c, -, rfl⟩ := mem_map.1 hr
    exact ⟨rfl, _, rfl⟩

end E2Net

namespace E2World

variable {w : E2World} {T : TermId}

/-- When the terminator is active, its reporters are active and linked with their triggers; a
registration response that arrives now notifies them without an abort, and `Activate` returns. -/
structure ReportersWork (T : TermId) (w : E2World) : Prop where
  linked : (w.node T).active = true → ∀ r ∈ (w.node T).reporters, r.Linked
  notified : ∀ inp x e, w.receiveRegistrationResponse inp T x ≠ .error e
  activates : ∀ inp e, w.activate inp T ≠ .error e

theorem node_setTerm (w : E2World) (T : TermId) (τ : Terminator) :
    (w.setTerm T τ).node T = τ.toE2Node := by
  rw [node, setTerm]
  dsimp only
  rw [Function.update_self]

theorem node_register (inp : E2Input) (T : TermId) : (w.register inp T).node T = w.node T := by
  unfold register
  split
  · exact node_setTerm _ T _
  · rfl

theorem reportersWork_of_linkInv (h : E2Net.LinkInv T w.net) : w.ReportersWork T where
  linked := h.linked
  notified := by
    intro inp x e he
    unfold receiveRegistrationResponse at he
    split at he
    · next hact =>
      obtain ⟨ν, hν, -⟩ := E2Node.learnId_linked (ν := w.node T) (T := T) (h.linked hact) x
      rw [hν] at he
      cases he
    · cases he
  activates := by
    intro inp e he
    unfold activate at he
    split at he
    · cases he
    · next hact =>
      obtain ⟨ν, hν, -⟩ := E2Node.activateReporters_linked (ν := (w.node T).powerOn)
        (h.ready (Bool.eq_false_iff.2 hact))
      have hnode : (((w.setNode T (w.node T).powerOn).register inp T).node T) =
          (w.node T).powerOn :=
        (node_register inp T).trans (node_setTerm w T _)
      simp only [hnode, hν] at he
      cases he

/-- `Deactivate` returns when the terminator is inactive or has no reporters, and only then. -/
theorem deactivate_returns_iff
    (h : (w.node T).active = true → ∀ r ∈ (w.node T).reporters, r.Linked) (inp : E2Input) :
    (∀ e, w.deactivate inp T ≠ .error e) ↔
      ((w.node T).active = true → (w.node T).reporters = []) := by
  unfold deactivate
  by_cases hact : (w.node T).active = true
  · rw [if_pos hact]
    cases hd : (w.node T).deactivateReporters with
    | ok ν =>
      have hnone := (E2Node.deactivateReporters_linked (h hact) hd).1
      exact ⟨fun _ _ => hnone, fun _ e he => by cases he⟩
    | error e =>
      refine ⟨fun hno => absurd rfl (hno e), fun hnone _ _ => ?_⟩
      rw [E2Node.deactivateReporters, hnone hact] at hd
      cases hd
  · rw [if_neg hact]
    exact ⟨fun _ ha => absurd ha hact, fun _ e he => by cases he⟩

/-- In every state reached the reporters work, and `Deactivate` returns exactly when the terminator
is inactive or has no reporters. -/
theorem reporters_work (threshold : Time) (cfg : TermId → TerminatorConfig) (T : TermId)
    (w : E2World) (h : Run Step anyStep (init threshold cfg) w) (inp : E2Input) :
    w.ReportersWork T ∧ ((∀ e, w.deactivate inp T ≠ .error e) ↔
      ((w.node T).active = true → (w.node T).reporters = [])) := by
  have hinv : E2Net.LinkInv T w.net :=
    Run.invariant (I := E2Net.LinkInv T) (fun hn _ hst => hn.step hst) (E2Net.linkInv_init cfg)
      (net_run h : Run E2Net.Step anyStep (.init cfg) w.net)
  exact ⟨reportersWork_of_linkInv hinv, deactivate_returns_iff hinv.linked inp⟩

/-- A terminator that is activated once and gets two responses. -/
theorem reporters_work_example : ∃ w : E2World, (w.node 0).active = true ∧
    (w.node 0).reporters.length = 1 ∧ w.ReportersWork 0 := by
  have hx : (execs anyStep step? (init 100 ueConfig) [.setActive 0 true,
      .activate 0 (draws 2 10) 0, .fire (draws 2 0), .fire (draws 0 50), .fire (draws 2 10),
      .fire (draws 2 0)]).map
      (fun w => ((w.node 0).active, (w.node 0).reporters.length)) = some (true, 1) := by decide
  obtain ⟨w, hw, hf⟩ := Option.map_eq_some_iff.1 hx
  obtain ⟨hact, hlen⟩ := Prod.mk.injEq .. ▸ hf
  exact ⟨w, hact, hlen,
    (reporters_work 100 ueConfig 0 w (run_of_execs step_of_step? hw) (draws 2 0)).1⟩

/-- A terminator that is activated and then deactivated: its reporter cannot unlink its trigger, and
the program ends. -/
theorem reporters_unlinked : ¬ ∀ (threshold : Time) (cfg : TermId → TerminatorConfig) (T : TermId)
    (w : E2World), Run Step anyStep (init threshold cfg) w →
      w.ReportersWork T ∧ ∀ inp e, w.deactivate inp T ≠ .error e := by
  intro h
  have hx : (execs anyStep step? (init 100 ueConfig) [.setActive 0 true,
      .activate 0 (draws 2 10) 0]).map (fun w => ((w.node 0).active, (w.node 0).reporters.length,
        match w.deactivate (draws 2 0) 0 with
        | .error .nullPointerValue => true
        | _ => false)) = some (true, 1, true) := by decide
  obtain ⟨w, hw, hf⟩ := Option.map_eq_some_iff.1 hx
  obtain ⟨-, -, hstop⟩ := by simpa only [Prod.mk.injEq] using hf
  have hreturns := (h 100 ueConfig 0 w (run_of_execs step_of_step? hw)).2 (draws 2 0)
  split at hstop
  · next he => exact hreturns _ he
  · cases hstop

end E2World

end OranNs3
