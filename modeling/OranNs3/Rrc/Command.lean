import OranNs3.Rrc.Spec

/-!
# Handover commands of the RIC

`OranE2NodeTerminatorNrGnb::ReceiveCommand` (`oran-e2-node-terminator-nr-gnb.cc`) hands a handover
command to `SendHandoverRequest`, which looks up the context of the RNTI and calls `PrepareHandover`
on it. Neither asks for the state of the context, as `DoTriggerHandover` does for the handover
algorithm of the gNB, and the RIC decides on old data: the module gives exactly the states in which
a command that arrives is handled (`command_safe_iff`). The commands in flight are delivered in any
order, between any calls and timeouts of the RRC.
-/

namespace OranNs3

open Fallible Lts Option

/-- `OranCommandNr2NrHandover`, and the other commands, which do not concern the RRC. -/
inductive GnbCommand
  | nr2NrHandover (targetRnti targetCellId : Nat)
  | other
deriving DecidableEq

/-- A gNB with its E2 terminator and the commands that the RIC has sent to it. -/
structure GnbNode where
  rrc : Rrc
  active : Bool
  inFlight : List GnbCommand

/-- What happens at a gNB. -/
inductive GnbAction
  | rrc (a : RrcAction)
  | setActive (active : Bool)
  | sendCommand (c : GnbCommand)
  | deliver (t : Nat) (c : GnbCommand)

def receiveCommand (active : Bool) (r : Rrc) (c : GnbCommand) : Except RrcError Rrc :=
  if active then
    match c with
    | .nr2NrHandover targetRnti targetCellId => r.sendHandoverRequest targetRnti targetCellId
    | .other => .ok r
  else .ok r

namespace GnbNode

variable (n : GnbNode)

/-- A command that is in flight reaches the terminator. -/
def deliver (t : Nat) (c : GnbCommand) : Option (Except RrcError GnbNode) :=
  if c ∈ n.inFlight then
    (n.rrc.queue.advance? t).map fun q =>
      (receiveCommand n.active (n.rrc.setQueue q) c).map fun r =>
        { n with rrc := r, inFlight := n.inFlight.erase c }
  else none

/-- The effect of an action; `none` where it cannot happen. -/
def act : GnbAction → Option (Except RrcError GnbNode)
  | .rrc a => (n.rrc.act a).map fun x => x.map fun r => { n with rrc := r }
  | .setActive active => some (.ok { n with active })
  | .sendCommand c => some (.ok { n with inFlight := n.inFlight ++ [c] })
  | .deliver t c => n.deliver t c

variable (a : GnbAction)

/-- One step of a run; an error ends it. -/
def Step (n' : GnbNode) : Prop := n.act a = some (.ok n')

/-- The step as a partial function. -/
def step? : Option GnbNode :=
  match n.act a with
  | some (.ok n') => some n'
  | _ => none

theorem step_of_step? {n n' : GnbNode} {a : GnbAction} (h : n.step? a = some n') : Step n a n' := by
  unfold step? at h
  split at h
  · next hact => rw [Step, hact, some.inj h]
  · cases h

/-- The error of an action that stops the program. -/
def failure? : Option RrcError :=
  match n.act a with
  | some (.error e) => some e
  | _ => none

theorem act_of_failure? {n : GnbNode} {a : GnbAction} {e : RrcError} (h : n.failure? a = some e) :
    n.act a = some (.error e) := by
  unfold failure? at h
  split at h
  · next hact => rw [hact, some.inj h]
  · cases h

/-- A gNB before any UE, with its terminator inactive. -/
def init (cfg : RrcConfig) : GnbNode := ⟨.init cfg, false, []⟩

end GnbNode

namespace Rrc

variable {r r' : Rrc} {u : UeManager} {rnti cellId : Nat}

/-! ## The contexts of an RRC -/

/-- The contexts have RNTIs, and component carriers of the gNB. -/
def Wf (r : Rrc) : Prop :=
  ∀ u ∈ r.ueMap, u.rnti ≠ 0 ∧ u.componentCarrierId < r.cfg.cellIds.length

theorem wf_change {stray : Prop} (h : Wf r) (hcfg : r'.cfg = r.cfg) (hc : Change stray r r') :
    Wf r' := by
  unfold Wf
  rw [hcfg]
  cases hc with
  | keep hm => rw [hm]; exact h
  | set u u' hu hr hc hm =>
    rw [hm]
    refine Keyed.forall_modify h fun v hv _ => ?_
    rw [hr, hc]
    exact h u (Keyed.mem_of_find? hu)
  | add u _ _ hne hc _ _ hm =>
    rw [hm]
    exact List.forall_mem_cons.2 ⟨⟨hne, hc⟩, h⟩
  | remove u _ hm =>
    rw [hm]
    exact fun v hv => h v (Keyed.mem_erase.1 hv).1
  | stray _ hm =>
    intro v hv
    obtain ⟨u, hu, hr, hc⟩ := hm v hv
    rw [hr, hc]
    exact h u hu

theorem wf_changes {stray : Prop} (h : Wf r) (hc : Changes stray r r') : Wf r' :=
  hc.invariant wf_change h

theorem wf_step {a : RrcAction} (h : Wf r) (hst : Step r a r') : Wf r' := by
  cases a with
  | call t c =>
    obtain ⟨q, -, hcall⟩ := map_eq_some_iff.1 hst
    have hwf : Wf (r.setQueue q) := h
    exact wf_changes hwf ((does_call (r.setQueue q) c).ok hcall)
  | timer =>
    obtain ⟨⟨e, q⟩, -, htimeout⟩ := map_eq_some_iff.1 hst
    have hwf : Wf (r.setQueue q) := h
    have hdoes : Does False (r.setQueue q) ((r.setQueue q).timeout e.ev) := does_timeout _ _
    exact wf_changes hwf (hdoes.ok htimeout)

/-! ## Handover preparation -/

/-- One handover preparation of the context of an RNTI, which was connected, towards another cell: a
`HANDOVER REQUEST` is sent, and nothing else changes. -/
def Prepares (r : Rrc) (rnti cellId : Nat) (r' : Rrc) : Prop :=
  ∃ u, r.findUe rnti = some u ∧ u.state = .connectedNormally ∧
    r.cfg.cellIds[u.componentCarrierId]? ≠ some cellId ∧
    r' = { r with
      ueMap := Keyed.modify UeManager.rnti rnti
        (fun _ => { u with state := .handoverPreparation, targetCellId := cellId }) r.ueMap
      out := r.out ++ [.x2 cellId (.handoverRequest rnti cellId u.imsi u.getErabList)] }

/-- The context of the RNTI is connected, and the cell is another one to which there is an X2
interface. -/
def ReadyFor (r : Rrc) (rnti cellId : Nat) : Prop :=
  ∃ u, r.findUe rnti = some u ∧ u.state = .connectedNormally ∧
    r.cfg.cellIds[u.componentCarrierId]? ≠ some cellId ∧ r.cfg.hasX2Interface cellId = true

theorem sendHandoverRequest_of_ready (h : Wf r) (hready : ReadyFor r rnti cellId) :
    ∃ r', r.sendHandoverRequest rnti cellId = .ok r' ∧ Prepares r rnti cellId r' := by
  obtain ⟨u, hu, hs, hown, hx2⟩ := hready
  obtain rfl : u.rnti = rnti := Keyed.key_of_find? hu
  obtain ⟨hne, hcc⟩ := h u (Keyed.mem_of_find? hu)
  refine ⟨_, ?_, u, hu, hs, hown, rfl⟩
  have hget : r.getUeManager u.rnti = .ok u := getUeManager_eq hne hu
  have hcell : r.componentCarrierToCellId u.componentCarrierId =
      .ok r.cfg.cellIds[u.componentCarrierId] := by
    rw [componentCarrierToCellId, List.getElem?_eq_getElem hcc]
  have hne' : cellId ≠ r.cfg.cellIds[u.componentCarrierId] := by
    rw [List.getElem?_eq_getElem hcc] at hown
    exact fun he => hown (congrArg some he.symm)
  rw [sendHandoverRequest, hget]
  change r.prepareHandover u cellId = _
  simp only [prepareHandover, hs, hcell, sendX2, hx2, if_true]
  exact if_neg hne'

theorem ready_of_sendHandoverRequest (h : r.sendHandoverRequest rnti cellId = .ok r') :
    ReadyFor r rnti cellId := by
  obtain ⟨u, hget, h⟩ := ok_of_bind h
  have hu := ((spec_getUeManager r rnti).ok hget).2
  unfold prepareHandover at h
  split at h
  · next hs =>
    obtain ⟨own, hown, h⟩ := ok_of_bind h
    split at h
    · cases h
    · next hne =>
      obtain ⟨r₁, hsend, -⟩ := ok_of_bind h
      refine ⟨u, hu, hs, fun hcell => ?_, ?_⟩
      · rw [componentCarrierToCellId, hcell] at hown
        exact hne (Except.ok.inj hown)
      · unfold sendX2 at hsend
        split at hsend
        · assumption
        · cases hsend
  · cases h

end Rrc

namespace GnbNode

open Rrc

variable {n n' : GnbNode} {t : Nat} {c : GnbCommand}

/-! ## Commands -/

theorem changes_receiveCommand (active : Bool) (r : Rrc) (c : GnbCommand) :
    Does False r (receiveCommand active r c) := by
  unfold receiveCommand
  split
  · split
    · exact does_sendHandoverRequest r _ _
    · exact .refl r
  · exact .refl r

theorem wf_reachable {cfg : RrcConfig} (h : Run Step anyStep (init cfg) n) : n.rrc.Wf := by
  refine Run.invariant (I := fun n => n.rrc.Wf) (fun {n n' a} hn _ hst => ?_) nofun h
  cases a with
  | rrc a =>
    obtain ⟨x, hx, hst⟩ := map_eq_some_iff.1 hst
    cases x with
    | error e => cases hst
    | ok r =>
      cases hst
      exact wf_step hn hx
  | setActive active =>
    cases hst
    exact hn
  | sendCommand c =>
    cases hst
    exact hn
  | deliver t c =>
    change n.deliver t c = _ at hst
    unfold deliver at hst
    split at hst
    · obtain ⟨q, -, hst⟩ := map_eq_some_iff.1 hst
      have hwf : Rrc.Wf (n.rrc.setQueue q) := hn
      have hdoes := changes_receiveCommand n.active (n.rrc.setQueue q) c
      cases hx : receiveCommand n.active (n.rrc.setQueue q) c with
      | error e =>
        rw [hx] at hst
        cases hst
      | ok r =>
        rw [hx] at hst
        cases hst
        exact wf_changes hwf (hdoes.ok hx)
    · cases hst

/-- The outcome `x` of a command delivered at a time: the RRC is as it was at that time, or it has
started one handover preparation of a connected UE towards another cell. -/
def Handled (n : GnbNode) (t : Nat) (c : GnbCommand) (x : Except RrcError GnbNode) : Prop :=
  ∃ q n', n.rrc.queue.advance? t = some q ∧ x = .ok n' ∧
    (n'.rrc = n.rrc.setQueue q ∨ ∃ rnti cellId, c = .nr2NrHandover rnti cellId ∧
      Prepares (n.rrc.setQueue q) rnti cellId n'.rrc)

theorem not_handled_error {e : RrcError} : ¬ n.Handled t c (.error e) := by
  rintro ⟨q, n', -, h, -⟩
  cases h

/-- What the terminator does not check: a handover command finds the RRC ready for it. -/
def Ready (n : GnbNode) : GnbCommand → Prop
  | .nr2NrHandover rnti cellId => n.active = true → n.rrc.ReadyFor rnti cellId
  | .other => True

/-- In every state that a gNB reaches, a command that is delivered is handled exactly if the
terminator is inactive, the command is not for the RRC, or the UE is connected and the cell is
another one that an X2 interface leads to. -/
theorem command_safe_iff {cfg : RrcConfig} {x : Except RrcError GnbNode}
    (hn : Lts.Run Step Lts.anyStep (init cfg) n) (hx : n.act (.deliver t c) = some x) :
    n.Handled t c x ↔ n.Ready c := by
  have hwf := wf_reachable hn
  change n.deliver t c = _ at hx
  unfold deliver at hx
  split at hx
  case isFalse => cases hx
  obtain ⟨q, hq, rfl⟩ := map_eq_some_iff.1 hx
  cases c with
  | other =>
    refine iff_of_true ⟨q, ⟨n.rrc.setQueue q, n.active, n.inFlight.erase .other⟩, hq, ?_, .inl rfl⟩
      trivial
    cases n.active <;> rfl
  | nr2NrHandover rnti cellId =>
    cases hact : n.active with
    | false =>
      refine iff_of_true ⟨q, ⟨n.rrc.setQueue q, false,
        n.inFlight.erase (.nr2NrHandover rnti cellId)⟩, hq, rfl, .inl rfl⟩ fun h => ?_
      rw [hact] at h
      cases h
    | true =>
      constructor
      · rintro ⟨q', n', -, hok, -⟩ -
        cases hr : Rrc.sendHandoverRequest (n.rrc.setQueue q) rnti cellId with
        | ok r =>
          have hready : (n.rrc.setQueue q).ReadyFor rnti cellId := ready_of_sendHandoverRequest hr
          exact hready
        | error e =>
          rw [receiveCommand, if_pos rfl, hr] at hok
          cases hok
      · intro hready
        have hwf' : Rrc.Wf (n.rrc.setQueue q) := hwf
        obtain ⟨r, hr, hprep⟩ := sendHandoverRequest_of_ready hwf' (hready hact)
        refine ⟨q, ⟨r, true, n.inFlight.erase (.nr2NrHandover rnti cellId)⟩, hq, ?_, .inr
          ⟨rnti, cellId, rfl, hprep⟩⟩
        rw [receiveCommand, if_pos rfl, hr]
        rfl

/-- The calls that connect a UE to the gNB, and the activation of the terminator. -/
def connected : List GnbAction :=
  [.rrc (.call 0 (.allocateTemporaryCellRnti 0 false)),
    .rrc (.call 1 (.recvRrcConnectionRequest 1 42)),
    .rrc (.call 2 (.recvRrcConnectionSetupCompleted 1)),
    .rrc (.call 3 (.initialContextSetupRequest 1)), .setActive true]

/-- A command for a connected UE starts a handover preparation. -/
theorem command_safe_connected : ∃ n x, Lts.Run Step Lts.anyStep (init (.single 1 2)) n ∧
    n.act (.deliver 5 (.nr2NrHandover 1 2)) = some x ∧ n.Handled 5 (.nr2NrHandover 1 2) x := by
  have hrun : ((execs anyStep step? (init (.single 1 2))
      (connected ++ [.sendCommand (.nr2NrHandover 1 2)])).map fun n =>
        ((n.act (.deliver 5 (.nr2NrHandover 1 2))).isSome,
          (n.rrc.findUe 1).map UeManager.state,
          (n.rrc.findUe 1).map fun u => n.rrc.cfg.cellIds[u.componentCarrierId]?,
          n.rrc.cfg.hasX2Interface 2)) =
      some (true, some .connectedNormally, some (some 1), true) := by decide
  obtain ⟨n, hn, hv⟩ := map_eq_some_iff.1 hrun
  simp only [Prod.mk.injEq] at hv
  obtain ⟨hact, hstate, hcell, hx2⟩ := hv
  obtain ⟨x, hx⟩ := isSome_iff_exists.1 hact
  obtain ⟨u, hu, hs⟩ := map_eq_some_iff.1 hstate
  have hreach := run_of_execs step_of_step? hn
  refine ⟨n, x, hreach, hx, (command_safe_iff hreach hx).2 fun _ => ⟨u, hu, hs, ?_, hx2⟩⟩
  rw [hu, map_some, some.injEq] at hcell
  rw [hcell]
  decide

/-- A second command for the same UE meets it in `HANDOVER_PREPARATION`, and a command for a UE that
has left meets no context: both stop the program. -/
theorem command_unsafe :
    (∃ n, Lts.Run Step Lts.anyStep (init (.single 1 2)) n ∧
      n.act (.deliver 6 (.nr2NrHandover 1 2)) =
        some (.error (.unexpectedState .handoverPreparation)) ∧
      ¬ n.Handled 6 (.nr2NrHandover 1 2) (.error (.unexpectedState .handoverPreparation))) ∧
    ∃ n, Lts.Run Step Lts.anyStep (init (.single 1 2)) n ∧
      n.act (.deliver 6 (.nr2NrHandover 1 2)) = some (.error .unknownRnti) ∧
      ¬ n.Handled 6 (.nr2NrHandover 1 2) (.error .unknownRnti) := by
  have htwice : ((execs anyStep step? (init (.single 1 2)) (connected ++
      [.sendCommand (.nr2NrHandover 1 2), .sendCommand (.nr2NrHandover 1 2),
        .deliver 5 (.nr2NrHandover 1 2)])).map (failure? · (.deliver 6 (.nr2NrHandover 1 2)))) =
      some (some (.unexpectedState .handoverPreparation)) := by decide
  have hleft : ((execs anyStep step? (init (.single 1 2)) (connected ++
      [.sendCommand (.nr2NrHandover 1 2),
        .rrc (.call 5 (.recvIdealUeContextRemoveRequest 1))])).map
          (failure? · (.deliver 6 (.nr2NrHandover 1 2)))) = some (some .unknownRnti) := by decide
  obtain ⟨n, hn, hfail⟩ := map_eq_some_iff.1 htwice
  obtain ⟨n', hn', hfail'⟩ := map_eq_some_iff.1 hleft
  exact ⟨⟨n, run_of_execs step_of_step? hn, act_of_failure? hfail, not_handled_error⟩,
    n', run_of_execs step_of_step? hn', act_of_failure? hfail', not_handled_error⟩

end GnbNode

end OranNs3
