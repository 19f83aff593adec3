import OranNs3.E2.Model

/-!
# The protocol of the E2 interface

The abstract model of the E2 interface: no times and no timers; the messages in flight are a
multiset from which any one may be delivered next, and a terminator may register or send its reports
whenever it is active. The model of the code refines it (`E2World.Step.net`): the function
`E2World.net` forgets the order of the pending messages and the timers. This rests on one invariant
of the code (`E2World.Wf`): the handles that a terminator cancels are those of its timers, so that
no message in flight is ever cancelled.
-/

namespace OranNs3

open EventQueue Lts

/-! ## The id of a node -/

namespace E2Node

variable {ν ν' : E2Node} {self : TermId}

theorem performReport_e2NodeId (self : TermId) (ν : E2Node) (i : Nat) :
    (ν.performReport self i).e2NodeId = ν.e2NodeId ∧
      (ν.performReport self i).active = ν.active := by
  unfold performReport storeReports
  repeat' split
  all_goals exact ⟨rfl, rfl⟩

theorem notifyRegistrationComplete_e2NodeId {i : Nat}
    (h : ν.notifyRegistrationComplete self i = .ok ν') :
    ν'.e2NodeId = ν.e2NodeId ∧ ν'.active = ν.active := by
  unfold notifyRegistrationComplete at h
  split at h
  · split at h
    · cases h
    · cases h
      split
      · exact performReport_e2NodeId self ν i
      · exact ⟨rfl, rfl⟩
  · cases h
    exact ⟨rfl, rfl⟩

theorem learnId_e2NodeId {x : Nat} (h : ν.learnId self x = .ok ν') :
    ν'.e2NodeId = x ∧ ν'.active = ν.active := by
  unfold learnId at h
  split at h
  · split at h
    · exact foldlM_ok_induction (P := fun _ μ => μ.e2NodeId = x ∧ μ.active = ν.active)
        (fun hP hμ => ⟨(notifyRegistrationComplete_e2NodeId hμ).1.trans hP.1,
          (notifyRegistrationComplete_e2NodeId hμ).2.trans hP.2⟩) _ (l := []) ⟨rfl, rfl⟩ h
    · cases h
      exact ⟨rfl, rfl⟩
  · next hx =>
    cases h
    exact ⟨not_not.1 hx, rfl⟩

theorem activateReporters_e2NodeId (h : ν.activateReporters = .ok ν') :
    ν'.e2NodeId = ν.e2NodeId ∧ ν'.active = ν.active := by
  obtain ⟨rs, -, h⟩ := ok_of_bind h
  cases h
  exact ⟨rfl, rfl⟩

theorem deactivateReporters_e2NodeId (h : ν.deactivateReporters = .ok ν') :
    ν'.e2NodeId = ν.e2NodeId ∧ ν'.active = ν.active := by
  obtain ⟨rs, -, h⟩ := ok_of_bind h
  cases h
  exact ⟨rfl, rfl⟩

end E2Node

/-! ## The protocol -/

/-- The event is a timer of a terminator, not a message. -/
def E2Event.isTimer : E2Event → Bool
  | .register _ | .doSendReports _ => true
  | _ => false

/-- The state of the protocol. -/
@[ext]
structure E2Net where
  inFlight : Multiset E2Event
  ricActive : Bool
  e2Active : Bool
  nodeTerminators : Nat → Option (Option TermId)
  repo : Repository
  nodes : TermId → E2Node
  requested : List TermId
  assigned : List (TermId × Nat)
  indexed : List Nat
  arrivals : List Arrival

namespace E2Net

variable (t : Time) (n : E2Net)

/-- Send a message. -/
def send (ev : E2Event) : E2Net := { n with inFlight := ev ::ₘ n.inFlight }

variable (T : TermId)

/-- Change a node. -/
def setNode (ν : E2Node) : E2Net :=
  { n with nodes := Function.update n.nodes T ν }

theorem setNode_self (ν : E2Node) : (n.setNode T ν).nodes T = ν :=
  Function.update_self ..

theorem setNode_of_ne {T T' : TermId} (h : T' ≠ T) (n : E2Net) (ν : E2Node) :
    (n.setNode T ν).nodes T' = n.nodes T' :=
  Function.update_of_ne h ..

/-- An active node asks for its registration, with the id it has. -/
def register : E2Net :=
  if (n.nodes T).active then
    { n.send (.receiveRegistrationRequest (n.nodes T).type (n.nodes T).e2NodeId T) with
      requested := T :: n.requested }
  else n

/-- A node asks for its deregistration, with the id it has. -/
def deregister : E2Net :=
  n.send (.receiveDeregistrationRequest (n.nodes T).e2NodeId)

/-- An active node sends the reports it has stored. -/
def doSendReports : E2Net :=
  if (n.nodes T).active then
    { n with inFlight := ((n.nodes T).reports.map E2Event.receiveReport : List E2Event) +
        n.inFlight }.setNode T { n.nodes T with reports := [] }
  else n

/-- An active node learns the id it was assigned. -/
def receiveRegistrationResponse (e2NodeId : Nat) : Except E2Abort E2Net :=
  if (n.nodes T).active then do
    let ν ← (n.nodes T).learnId T e2NodeId
    return n.setNode T ν
  else .ok n

/-- A node forgets its id. -/
def receiveDeregistrationResponse : Option TermId → Except E2Abort E2Net
  | some T => .ok (n.setNode T { n.nodes T with e2NodeId := 0 })
  | none => .error .nullTerminator

/-- A node receives a command. -/
def receiveCommand : Option TermId → Except E2Abort E2Net
  | some _ => .ok n
  | none => .error .nullTerminator

/-- A node becomes active and asks for its registration. -/
def activate : Except E2Abort E2Net :=
  if (n.nodes T).active then .ok n
  else do
    let n₁ := (n.setNode T (n.nodes T).powerOn).register T
    let ν ← (n₁.nodes T).activateReporters
    return n₁.setNode T ν

/-- An active node asks for its deregistration and becomes inactive. -/
def deactivate : Except E2Abort E2Net :=
  if (n.nodes T).active then do
    let ν ← (n.nodes T).deactivateReporters
    return ((n.setNode T ν).deregister T).setNode T { ν with active := false }
  else .ok n

/-- The RIC registers a node and answers with the id it has assigned. -/
def receiveRegistrationRequest (type : NodeType) (id : Nat) (T : TermId) : E2Net :=
  if n.e2Active then
    let (repo, e2NodeId) :=
      n.repo.call t (E2World.registration type id (n.nodes T).deviceId)
    { n.send (.receiveRegistrationResponse T e2NodeId) with
      repo
      nodeTerminators := Function.update n.nodeTerminators e2NodeId (some (some T))
      assigned := (T, e2NodeId) :: n.assigned }
  else n

/-- The RIC looks up the node of an id. -/
def index (e2NodeId : Nat) : E2Net :=
  { n with
    nodeTerminators := Function.update n.nodeTerminators e2NodeId
      (some (n.nodeTerminators e2NodeId).join)
    indexed := e2NodeId :: n.indexed }

/-- The RIC deregisters a node and tells the one it finds under the id. -/
def receiveDeregistrationRequest (e2NodeId : Nat) : E2Net :=
  if n.e2Active then
    let (repo, deregisteredE2NodeId) := n.repo.deregisterNode t e2NodeId
    { (n.index e2NodeId).send (.receiveDeregistrationResponse
        (n.nodeTerminators e2NodeId).join deregisteredE2NodeId) with
      repo }
  else n

/-- A report arrives at the RIC. -/
def receiveReport (r : Report) : E2Net :=
  { n with
    repo := if n.e2Active then E2World.saveReport n.repo r else n.repo
    arrivals := n.arrivals ++
      [⟨r, n.e2Active, n.repo.isNodeRegistered r.reporterE2NodeId⟩] }

/-- The RIC sends a command to the node it finds under the target. -/
def sendCommand (command : Command) : E2Net :=
  if n.e2Active then
    (n.index command.targetE2NodeId).send
      (.receiveCommand (n.nodeTerminators command.targetE2NodeId).join command)
  else n

/-- The RIC sends commands. -/
def processCommands (commands : List Command) : E2Net :=
  if n.e2Active then commands.foldl sendCommand n else n

/-- The RIC deregisters nodes that it has not heard of. -/
def deregisterInactive (ids : List Nat) : E2Net :=
  if n.ricActive then ids.foldl (receiveDeregistrationRequest t) n else n

/-- The RIC is turned on or off. -/
def setActive (active : Bool) : E2Net :=
  if n.ricActive = active then n
  else { n with ricActive := active, e2Active := active, repo := { n.repo with active } }

/-- The delivery of a message. -/
def handle : E2Event → Except E2Abort E2Net
  | .receiveRegistrationRequest type id T => .ok (n.receiveRegistrationRequest t type id T)
  | .receiveDeregistrationRequest x => .ok (n.receiveDeregistrationRequest t x)
  | .receiveReport r => .ok (n.receiveReport r)
  | .receiveRegistrationResponse T x => n.receiveRegistrationResponse T x
  | .receiveDeregistrationResponse T _ => n.receiveDeregistrationResponse T
  | .receiveCommand T _ => n.receiveCommand T
  | .register _ | .doSendReports _ => .ok n

/-! ### What the steps of a node do -/

variable {n n' : E2Net} {T : TermId}

theorem receiveRegistrationResponse_ok {x : Nat} (h : n.receiveRegistrationResponse T x = .ok n') :
    n' = n ∨ ∃ ν, (n.nodes T).learnId T x = .ok ν ∧ n' = n.setNode T ν := by
  unfold receiveRegistrationResponse at h
  split at h
  · obtain ⟨ν, hν, h⟩ := ok_of_bind h
    cases h
    exact .inr ⟨ν, hν, rfl⟩
  · cases h
    exact .inl rfl

theorem activate_ok (h : n.activate T = .ok n') :
    (n.nodes T).active = true ∧ n' = n ∨
    ∃ ν, (n.nodes T).active = false ∧
      (((n.setNode T (n.nodes T).powerOn).register T).nodes T).activateReporters = .ok ν ∧
      n' = ((n.setNode T (n.nodes T).powerOn).register T).setNode T ν := by
  unfold activate at h
  split at h
  · next hact =>
    cases h
    exact .inl ⟨hact, rfl⟩
  · next hact =>
    obtain ⟨ν, hν, h⟩ := ok_of_bind h
    cases h
    exact .inr ⟨ν, Bool.not_eq_true _ ▸ hact, hν, rfl⟩

theorem deactivate_ok (h : n.deactivate T = .ok n') :
    n' = n ∨ ∃ ν, (n.nodes T).active = true ∧ (n.nodes T).deactivateReporters = .ok ν ∧
      n' = ((n.setNode T ν).deregister T).setNode T { ν with active := false } := by
  unfold deactivate at h
  split at h
  · next hact =>
    obtain ⟨ν, hν, h⟩ := ok_of_bind h
    cases h
    exact .inr ⟨ν, hact, hν, rfl⟩
  · cases h
    exact .inl rfl

theorem register_powerOn (n : E2Net) (T : TermId) :
    (n.setNode T (n.nodes T).powerOn).register T =
      { (n.setNode T (n.nodes T).powerOn).send (.receiveRegistrationRequest (n.nodes T).type
          (n.nodes T).e2NodeId T) with
        requested := T :: n.requested } := by
  rw [register, setNode_self]
  rfl

end E2Net

/-- What can happen in the protocol. The nodes that are deregistered for their inactivity are listed
by the repository. -/
inductive NetAction
  | register (T : TermId)
  | doSendReports (T : TermId)
  | deliver (t : Time) (ev : E2Event)
  | activate (T : TermId)
  | deactivate (T : TermId)
  | performReport (T : TermId) (i : Nat)
  | addTx (T : TermId) (i : Nat) (new : Reporter.Sample)
  | processCommands (commands : List Command)
  | deregisterInactive (t : Time) (b : Repository.Pick) (ids : List Nat)
  | setActive (active : Bool)

/-- The step relation of the protocol. -/
def E2Net.Step (n : E2Net) : NetAction → E2Net → Prop
  | .register T, n' => n' = n.register T
  | .doSendReports T, n' => n' = n.doSendReports T
  | .deliver t ev, n' => ∃ rest, n.inFlight = ev ::ₘ rest ∧
      { n with inFlight := rest }.handle t ev = .ok n'
  | .activate T, n' => n.activate T = .ok n'
  | .deactivate T, n' => n.deactivate T = .ok n'
  | .performReport T i, n' => n' = n.setNode T ((n.nodes T).performReport T i)
  | .addTx T i new, n' => n' = n.setNode T ((n.nodes T).addTx i new)
  | .processCommands commands, n' => n' = n.processCommands commands
  | .deregisterInactive t b ids, n' =>
      (∀ x ∈ ids, x ∈ (n.repo.getLastRegistrationRequests b).map (·.1)) ∧
        n' = n.deregisterInactive t ids
  | .setActive active, n' => n' = n.setActive active

namespace E2World

variable {w w' : E2World} {T : TermId} {inp : E2Input}

/-! ## The abstraction -/

/-- The messages in flight, without the timers. -/
def inFlight (w : E2World) : Multiset E2Event := w.sim.events.filter fun ev => ev.isTimer = false

/-- The state of the protocol. -/
def net (w : E2World) : E2Net :=
  ⟨w.inFlight, w.ricActive, w.e2Active, w.nodeTerminators, w.repo, w.node, w.requested,
    w.assigned, w.indexed, w.arrivals⟩

/-- The step of the protocol for an event that is run at a time. -/
def eventAction (t : Time) : E2Event → NetAction
  | .register T => .register T
  | .doSendReports T => .doSendReports T
  | ev => .deliver t ev

/-- The step of the protocol for a step of the code. -/
def netAction (w : E2World) : E2Action → NetAction
  | .fire _ => match w.sim.next? with
    | some (e, _) => eventAction e.ts e.ev
    | none => .setActive w.ricActive
  | .activate _ _ T => .activate T
  | .deactivate _ _ T => .deactivate T
  | .performReport _ T i => .performReport T i
  | .addTx t T i rnti lcid bytes => .addTx T i ⟨t, rnti, lcid, bytes⟩
  | .processCommands _ _ commands => .processCommands commands
  | .checkForInactivity t _ b => .deregisterInactive t b (w.inactiveNodes b t)
  | .setActive _ active => .setActive active

variable {a : E2Action}

/-- What a step does: an event under way, or a call. -/
theorem step_cases (h : Step w a w') :
    (∃ inp e q, a = .fire inp ∧ w.sim.next? = some (e, q) ∧
      { w with sim := q }.handle inp e.ev = .ok w') ∨
    ∃ q, (∀ inp, a ≠ .fire inp) ∧ w.sim.advance? a.time = some q ∧
      { w with sim := q }.call a = .ok w' := by
  unfold Step act at h
  split at h
  · next inp =>
    obtain ⟨⟨e, q⟩, hq, h⟩ := Option.map_eq_some_iff.1 h
    exact .inl ⟨inp, e, q, rfl, hq, h⟩
  · next hne =>
    obtain ⟨q, hq, h⟩ := Option.map_eq_some_iff.1 h
    exact .inr ⟨q, hne, hq, h⟩

/-- The handles of a terminator are those of timers. -/
def Timed (q : EventQueue E2Event) (τ : Terminator) : Prop :=
  q.HandleOf (fun ev => ev.isTimer = true) τ.registrationEvent ∧
    q.HandleOf (fun ev => ev.isTimer = true) τ.sendEvent

/-- The handles of all terminators are those of timers. -/
def Wf (w : E2World) : Prop := ∀ T, Timed w.sim (w.terminators T)

section
variable (hw : w.Wf)
include hw

theorem Wf.later (hq : w.sim.Later w'.sim) (h : w'.terminators = w.terminators) : w'.Wf :=
  fun T => h ▸ ⟨(hw T).1.later hq, (hw T).2.later hq⟩

theorem Wf.send (d : Time) (ev : E2Event) : (w.send d ev).Wf := hw.later (.schedule d ev) rfl

variable (T : TermId)

theorem Wf.setTerm (τ : Terminator) (hτ : Timed w.sim τ) : (w.setTerm T τ).Wf := by
  intro T'
  by_cases h : T' = T
  · subst h
    simpa [E2World.setTerm] using hτ
  · simpa [E2World.setTerm, h] using hw T'

theorem Wf.setNode (ν : E2Node) : (w.setNode T ν).Wf :=
  hw.setTerm T _ (hw T)

theorem Wf.cancelNextRegistration : (w.cancelNextRegistration T).Wf :=
  hw.later (.cancel _) rfl

theorem Wf.cancelNextSend : (w.cancelNextSend T).Wf := hw.later (.cancel _) rfl

theorem Wf.scheduleNextSend : (w.scheduleNextSend inp T).Wf := by
  unfold E2World.scheduleNextSend
  split
  · exact (hw.send _ _).setTerm T _ ⟨(hw T).1.later (.schedule _ _), .schedule rfl⟩
  · exact hw

theorem Wf.register : (w.register inp T).Wf := by
  unfold E2World.register
  split
  · have hw₁ : ((w.cancelNextRegistration T).sendRequest inp T).Wf :=
      (hw.cancelNextRegistration T).later (.schedule _ _) rfl
    exact (hw₁.send _ _).setTerm T _ ⟨.schedule rfl, (hw₁ T).2.later (.schedule _ _)⟩
  · exact hw

theorem Wf.sendReports (delays : Nat → Time) (reports : List Report) :
    (w.sendReports delays reports).Wf :=
  foldDraws_induction (P := Wf) (fun _ h => h.send _ _) delays hw

theorem Wf.doSendReports : (w.doSendReports inp T).Wf := by
  unfold E2World.doSendReports
  split
  · exact ((hw.sendReports _ _).setNode T _).scheduleNextSend T
  · exact hw

theorem Wf.receiveDeregistrationRequest (d : Time) (x : Nat) :
    (w.receiveDeregistrationRequest d x).Wf := by
  unfold E2World.receiveDeregistrationRequest
  split
  · exact hw.later (.schedule _ _) rfl
  · exact hw

theorem Wf.sendCommand (d : Time) (c : Command) : (w.sendCommand d c).Wf := by
  unfold E2World.sendCommand
  split
  · exact hw.later (.schedule _ _) rfl
  · exact hw

variable {ev : E2Event}

theorem Wf.handle (h : w.handle inp ev = .ok w') : w'.Wf := by
  cases ev with
  | register T => cases h; exact hw.register T
  | doSendReports T => cases h; exact hw.doSendReports T
  | receiveRegistrationRequest type id T =>
    cases h
    unfold E2World.receiveRegistrationRequest
    split
    · exact hw.later (.schedule _ _) rfl
    · exact hw
  | receiveDeregistrationRequest x => cases h; exact hw.receiveDeregistrationRequest _ x
  | receiveReport r => cases h; exact hw
  | receiveRegistrationResponse T x =>
    simp only [E2World.handle, E2World.receiveRegistrationResponse] at h
    split at h
    · obtain ⟨ν, -, h⟩ := ok_of_bind h
      cases h
      exact (hw.setNode T ν).scheduleNextSend T
    · cases h; exact hw
  | receiveDeregistrationResponse T x =>
    cases T with
    | none => cases h
    | some T => cases h; exact hw.setNode T _
  | receiveCommand T c =>
    cases T with
    | none => cases h
    | some T => cases h; exact hw

/-- The calls from outside keep the handles. -/
theorem Wf.call (h : w.call a = .ok w') : w'.Wf := by
  cases a with
  | fire inp => cases h; exact hw
  | activate t inp T =>
    simp only [E2World.call, E2World.activate] at h
    split at h
    · cases h; exact hw
    · obtain ⟨ν, -, h⟩ := ok_of_bind h
      cases h
      exact ((hw.setNode T _).register T).setNode T ν
  | deactivate t inp T =>
    simp only [E2World.call, E2World.deactivate] at h
    split at h
    · obtain ⟨ν, -, h⟩ := ok_of_bind h
      cases h
      have hw₁ := ((hw.setNode T ν).cancelNextSend T).cancelNextRegistration T
      exact (hw₁.send _ _).setNode T _
    · cases h; exact hw
  | performReport t T i => cases h; exact hw.setNode T _
  | addTx t T i rnti lcid bytes => cases h; exact hw.setNode T _
  | processCommands t inp cs =>
    cases h
    unfold E2World.processCommands
    split
    · exact foldDraws_induction (P := Wf) (fun _ h => h.sendCommand _ _) _ hw
    · exact hw
  | checkForInactivity t inp b =>
    cases h
    unfold E2World.checkForInactivity
    split
    · exact foldDraws_induction (P := Wf) (fun _ h => h.receiveDeregistrationRequest _ _) _ hw
    · exact hw
  | setActive t active =>
    cases h
    unfold E2World.setActive
    split <;> exact hw

/-- After a step the handles are still those of timers. -/
theorem Wf.step (h : Step w a w') : w'.Wf := by
  rcases step_cases h with ⟨inp, e, q, rfl, hq, h⟩ | ⟨q, -, hq, h⟩
  · exact Wf.handle (w := { w with sim := q }) (hw.later (.next? hq) rfl) h
  · exact Wf.call (w := { w with sim := q }) (hw.later (.advance? hq) rfl) h

end

/-! ## The refinement -/

theorem net_ite {c : Prop} [Decidable c] {w₁ w₂ : E2World} {n₁ n₂ : E2Net}
    (h₁ : c → w₁.net = n₁) (h₂ : w₂.net = n₂) :
    (if c then w₁ else w₂).net = if c then n₁ else n₂ := by
  split
  · next h => exact h₁ h
  · exact h₂

theorem inFlight_send (h : ev.isTimer = false) (d : Time) :
    (w.send d ev).inFlight = ev ::ₘ w.inFlight := by
  simp [inFlight, send, h]

theorem net_send (h : ev.isTimer = false) (d : Time) : (w.send d ev).net = w.net.send ev :=
  E2Net.ext (inFlight_send h d) rfl rfl rfl rfl rfl rfl rfl rfl rfl

theorem net_timer (h : ev.isTimer = true) (d : Time) {τ : Terminator}
    (hτ : τ.toE2Node = w.node T) : ((w.send d ev).setTerm T τ).net = w.net := by
  have hnode : ((w.send d ev).setTerm T τ).node = w.node := by
    funext T'
    by_cases hT : T' = T
    · subst hT
      simpa [node, setTerm] using hτ
    · simp [node, setTerm, send, hT]
  refine E2Net.ext ?_ rfl rfl rfl rfl hnode rfl rfl rfl rfl
  simp [net, inFlight, setTerm, send, h]

theorem net_scheduleRegister (T : TermId) : (w.scheduleRegister inp T).net = w.net :=
  net_timer rfl _ rfl

theorem net_setNode (T : TermId) (ν : E2Node) : (w.setNode T ν).net = w.net.setNode T ν := by
  have hnode : (w.setNode T ν).node = Function.update w.node T ν := by
    funext T'
    by_cases hT : T' = T
    · subst hT
      simp [node, setNode, setTerm]
    · simp [node, setNode, setTerm, hT]
  exact E2Net.ext rfl rfl rfl rfl rfl hnode rfl rfl rfl rfl

theorem net_scheduleNextSend (T : TermId) : (w.scheduleNextSend inp T).net = w.net := by
  unfold scheduleNextSend
  split
  · exact net_timer rfl _ rfl
  · rfl

theorem net_sendReports (delays : Nat → Time) (reports : List Report) :
    (w.sendReports delays reports).net = { w.net with
      inFlight := (reports.map E2Event.receiveReport : List E2Event) + w.net.inFlight } := by
  induction reports generalizing delays w with
  | nil => simp [sendReports, Lts.foldDraws]
  | cons r reports ih =>
    rw [sendReports, Lts.foldDraws]
    have := ih (w := w.send (delays 0) (.receiveReport r)) fun n => delays (n + 1)
    rw [sendReports] at this
    rw [this, net_send rfl]
    simp [E2Net.send, ← Multiset.cons_coe]

theorem net_doSendReports (T : TermId) : (w.doSendReports inp T).net = w.net.doSendReports T := by
  unfold doSendReports E2Net.doSendReports
  refine net_ite (fun _ => ?_) rfl
  rw [net_scheduleNextSend, net_setNode, net_sendReports]
  rfl

theorem net_receiveDeregistrationRequest (d : Time) (x : Nat) :
    (w.receiveDeregistrationRequest d x).net = w.net.receiveDeregistrationRequest w.sim.now x := by
  unfold receiveDeregistrationRequest E2Net.receiveDeregistrationRequest
  refine net_ite (fun _ => ?_) rfl
  exact E2Net.ext (inFlight_send (w := w.index x) rfl d) rfl rfl rfl rfl rfl rfl rfl rfl rfl

theorem net_sendCommand (d : Time) (c : Command) :
    (w.sendCommand d c).net = w.net.sendCommand c := by
  unfold sendCommand E2Net.sendCommand
  exact net_ite (fun _ => net_send rfl d) rfl

theorem net_receiveRegistrationRequest (type : NodeType) (id : Nat) (T : TermId) :
    (w.receiveRegistrationRequest inp type id T).net =
      w.net.receiveRegistrationRequest w.sim.now type id T := by
  unfold receiveRegistrationRequest E2Net.receiveRegistrationRequest
  refine net_ite (fun _ => ?_) rfl
  exact E2Net.ext (inFlight_send (w := w) rfl _) rfl rfl rfl rfl rfl rfl rfl rfl rfl

theorem net_foldDraws {γ : Type} {f : Time → E2World → γ → E2World} {g : E2Net → γ → E2Net}
    {now : Time} (hf : ∀ d (w : E2World) c, w.sim.now = now → (f d w c).net = g w.net c)
    (hnow : ∀ d (w : E2World) c, (f d w c).sim.now = w.sim.now) (l : List γ) (ds : Nat → Time)
    {w : E2World} (hw : w.sim.now = now) : (Lts.foldDraws f ds w l).net = l.foldl g w.net := by
  induction l generalizing ds w with
  | nil => rfl
  | cons c l ih =>
    rw [Lts.foldDraws, List.foldl_cons, ← hf (ds 0) w c hw]
    exact ih _ ((hnow _ _ _).trans hw)

theorem net_processCommands (cs : List Command) :
    (w.processCommands inp cs).net = w.net.processCommands cs := by
  unfold processCommands E2Net.processCommands
  refine net_ite (fun _ => ?_) rfl
  refine net_foldDraws (fun d w c _ => net_sendCommand d c) (fun d w c => ?_) cs _ rfl
  unfold sendCommand
  split <;> rfl

theorem net_checkForInactivity (b : Repository.Pick) :
    (w.checkForInactivity inp b).net =
      w.net.deregisterInactive w.sim.now (w.inactiveNodes b w.sim.now) := by
  unfold checkForInactivity E2Net.deregisterInactive
  refine net_ite (fun _ => ?_) rfl
  refine net_foldDraws (fun d w x hnow => ?_) (fun d w x => ?_) _ _ rfl
  · rw [net_receiveDeregistrationRequest, hnow]
  · unfold receiveDeregistrationRequest
    split <;> rfl

theorem net_setActive (active : Bool) : (w.setActive active).net = w.net.setActive active := by
  unfold setActive E2Net.setActive
  exact net_ite (fun _ => rfl) rfl

section
variable (hw : w.Wf)
include hw

theorem net_cancelNextRegistration (T : TermId) : (w.cancelNextRegistration T).net = w.net := by
  refine E2Net.ext ?_ rfl rfl rfl rfl rfl rfl rfl rfl rfl
  exact (hw T).1.filter_events fun ev h => by simp [h]

theorem net_cancelNextSend (T : TermId) : (w.cancelNextSend T).net = w.net := by
  refine E2Net.ext ?_ rfl rfl rfl rfl rfl rfl rfl rfl rfl
  exact (hw T).2.filter_events fun ev h => by simp [h]

theorem net_register (inp : E2Input) (T : TermId) : (w.register inp T).net = w.net.register T := by
  unfold register E2Net.register
  refine net_ite (fun _ => ?_) rfl
  have hcancel := congrArg E2Net.inFlight (net_cancelNextRegistration hw T)
  rw [net_scheduleRegister]
  refine E2Net.ext ?_ rfl rfl rfl rfl rfl rfl rfl rfl rfl
  exact (inFlight_send (w := w.cancelNextRegistration T) rfl _).trans
    (congrArg (E2Event.receiveRegistrationRequest _ _ T ::ₘ ·) hcancel)

theorem net_deregister (T : TermId) : (w.deregister inp T).net = w.net.deregister T := by
  rw [deregister, net_send rfl, net_cancelNextRegistration hw]
  rfl

theorem net_activate (h : w.activate inp T = .ok w') : w.net.activate T = .ok w'.net := by
  unfold activate at h
  unfold E2Net.activate
  by_cases hact : (w.node T).active = true
  · rw [if_pos hact] at h
    rw [if_pos (show (w.net.nodes T).active = true from hact)]
    cases h
    rfl
  · rw [if_neg hact] at h
    rw [if_neg (show ¬ (w.net.nodes T).active = true from hact)]
    obtain ⟨ν, hν, h⟩ := ok_of_bind h
    cases h
    have hreg := net_register (hw.setNode T (w.node T).powerOn) inp T
    rw [net_setNode] at hreg
    rw [net_setNode, hreg]
    have hν' : (((w.net.setNode T (w.node T).powerOn).register T).nodes T).activateReporters =
        .ok ν := by rw [← hreg]; exact hν
    exact congrArg (· >>= fun ν => Except.ok
      (((w.net.setNode T (w.node T).powerOn).register T).setNode T ν)) hν'

theorem net_deactivate (h : w.deactivate inp T = .ok w') : w.net.deactivate T = .ok w'.net := by
  unfold deactivate at h
  unfold E2Net.deactivate
  by_cases hact : (w.node T).active = true
  · rw [if_pos hact] at h
    rw [if_pos (show (w.net.nodes T).active = true from hact)]
    obtain ⟨ν, hν, h⟩ := ok_of_bind h
    cases h
    rw [net_setNode, net_deregister ((hw.setNode T ν).cancelNextSend T),
      net_cancelNextSend (hw.setNode T ν), net_setNode]
    exact congrArg (· >>= fun ν => Except.ok
      (((w.net.setNode T ν).deregister T).setNode T { ν with active := false })) hν
  · rw [if_neg hact] at h
    rw [if_neg (show ¬ (w.net.nodes T).active = true from hact)]
    cases h
    rfl

end

theorem net_receiveRegistrationResponse {x : Nat}
    (h : w.receiveRegistrationResponse inp T x = .ok w') :
    w.net.receiveRegistrationResponse T x = .ok w'.net := by
  unfold receiveRegistrationResponse at h
  unfold E2Net.receiveRegistrationResponse
  by_cases hact : (w.node T).active = true
  · rw [if_pos hact] at h
    rw [if_pos (show (w.net.nodes T).active = true from hact)]
    obtain ⟨ν, hν, h⟩ := ok_of_bind h
    cases h
    rw [net_scheduleNextSend, net_setNode]
    exact congrArg (· >>= fun ν => Except.ok (w.net.setNode T ν)) hν
  · rw [if_neg hact] at h
    rw [if_neg (show ¬ (w.net.nodes T).active = true from hact)]
    cases h
    rfl

theorem net_handle (hev : ev.isTimer = false) (h : w.handle inp ev = .ok w') :
    w.net.handle w.sim.now ev = .ok w'.net := by
  cases ev with
  | register T | doSendReports T => cases hev
  | receiveRegistrationRequest type id T =>
    cases h
    exact congrArg Except.ok (net_receiveRegistrationRequest type id T).symm
  | receiveDeregistrationRequest x =>
    cases h
    exact congrArg Except.ok (net_receiveDeregistrationRequest _ x).symm
  | receiveReport r => cases h; rfl
  | receiveRegistrationResponse T x => exact net_receiveRegistrationResponse h
  | receiveDeregistrationResponse T x =>
    cases T with
    | none => cases h
    | some T => cases h; exact congrArg Except.ok (net_setNode T _).symm
  | receiveCommand T c =>
    cases T with
    | none => cases h
    | some T => cases h; rfl

/-- A call of the world is one of the network. -/
theorem net_call (hw : w.Wf) (ha : ∀ inp, a ≠ .fire inp)
    (ht : w.sim.now = a.time) (h : w.call a = .ok w') : w.net.Step (w.netAction a) w'.net := by
  cases a with
  | fire inp => exact absurd rfl (ha inp)
  | activate t inp T => exact net_activate hw h
  | deactivate t inp T => exact net_deactivate hw h
  | performReport t T i => cases h; exact net_setNode T _
  | addTx t T i rnti lcid bytes =>
    cases h
    cases ht
    exact net_setNode T _
  | processCommands t inp cs => cases h; exact net_processCommands cs
  | checkForInactivity t inp b =>
    cases h
    cases ht
    refine ⟨fun x hx => ?_, net_checkForInactivity b⟩
    obtain ⟨y, hy, rfl⟩ := List.mem_map.1 hx
    exact List.mem_map_of_mem (List.mem_of_mem_filter hy)
  | setActive t active => cases h; exact net_setActive active

/-- A timer leaves the network alone. -/
theorem net_timer_fired {e : Scheduled E2Event} {q : EventQueue E2Event}
    (hq : w.sim.next? = some (e, q)) (ht : e.ev.isTimer = true) :
    E2World.net { w with sim := q } = w.net := by
  refine E2Net.ext ?_ rfl rfl rfl rfl rfl rfl rfl rfl rfl
  simp [net, inFlight, events_next? hq, ht]

/-- So is the delivery of an event. -/
theorem net_deliver {e : Scheduled E2Event} {q : EventQueue E2Event}
    (hq : w.sim.next? = some (e, q)) (ht : e.ev.isTimer = false)
    (h : E2World.handle inp { w with sim := q } e.ev = .ok w') :
    w.net.Step (.deliver e.ts e.ev) w'.net := by
  have hnow : q.now = e.ts := (next?_eq_some hq).2.1
  have hfl : w.inFlight = e.ev ::ₘ E2World.inFlight { w with sim := q } := by
    simp [inFlight, events_next? hq, ht]
  rw [← hnow]
  exact ⟨_, hfl, net_handle (w := { w with sim := q }) ht h⟩

/-- A step of the world is a step of the network. -/
theorem Step.net (hw : w.Wf) (h : Step w a w') : w.net.Step (w.netAction a) w'.net := by
  rcases step_cases h with ⟨inp, e, q, rfl, hq, h⟩ | ⟨q, ha, hq, h⟩
  · have hact : w.netAction (.fire inp) = eventAction e.ts e.ev := by rw [netAction, hq]
    rw [hact]
    cases hev : e.ev with
    | register T =>
      have hnet := net_timer_fired hq (by rw [hev]; rfl)
      rw [hev] at h
      cases h
      have hreg := net_register (w := { w with sim := q }) (hw.later (.next? hq) rfl) inp T
      exact hreg.trans (congrArg (E2Net.register · T) hnet)
    | doSendReports T =>
      have hnet := net_timer_fired hq (by rw [hev]; rfl)
      rw [hev] at h
      cases h
      exact (net_doSendReports T).trans (congrArg (E2Net.doSendReports · T) hnet)
    | _ =>
      have := net_deliver hq (by rw [hev]; rfl) h
      rwa [hev] at this
  · have hnet : E2World.net { w with sim := q } = w.net := by
      refine E2Net.ext ?_ rfl rfl rfl rfl rfl rfl rfl rfl rfl
      exact congrArg (Multiset.filter _) (events_advance? hq)
    have hcall := net_call (w := { w with sim := q }) (hw.later (.advance? hq) rfl) ha
      (advance?_eq_some hq).2.1 h
    rw [hnet] at hcall
    cases a with
    | fire inp => exact absurd rfl (ha inp)
    | _ => exact hcall

end E2World

/-- The protocol before anything is activated. -/
def E2Net.init (cfg : TermId → TerminatorConfig) : E2Net :=
  ⟨0, false, false, fun _ => none, ⟨false, .empty⟩, fun T => (cfg T).terminator.toE2Node, [], [],
    [], []⟩

namespace E2World

variable {threshold : Time} {cfg : TermId → TerminatorConfig}

theorem wf_init : (init threshold cfg).Wf := fun _ => ⟨.none _, .none _⟩

/-- A run of the world is a run of the network. -/
theorem net_run {okNet : E2Net → NetAction → Prop} {w : E2World}
    (h : Run Step (fun w a => okNet w.net (w.netAction a)) (init threshold cfg) w) :
    Run E2Net.Step okNet (.init cfg) w.net :=
  Run.simulation net netAction (fun hw hst => Wf.step hw hst) (fun hw hst => hst.net hw)
    (fun hok => hok) wf_init h

/-- Terminators of UEs with a reporter of dropped bytes. -/
def ueConfig : TermId → TerminatorConfig := fun T => ⟨.nrUe, 77 + T, 0, [(.txDrop, false)]⟩

/-- The draws of a step in which all transmission delays are the same. -/
def draws (delay interval : Time) : E2Input := ⟨fun _ => delay, interval⟩

end E2World

end OranNs3
