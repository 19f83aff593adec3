import OranNs3.E2.Net
import OranNs3.Repository.Registered
import OranNs3.Repository.Spec

/-!
# Messages to a null terminator

The RIC finds the terminator of a message by `m_nodeTerminators[id]`, which gives a null pointer for
an id under which no terminator registered. The ids come from deregistration requests, from the
registered nodes of the repository and from commands. A terminator that is deactivated before it has
learned its id sends a deregistration request for the id 0. No message to a null terminator is
scheduled (`noNullMessage`) in every run in which the terminators that are deactivated and the
targets of the commands have an id of which the repository has a registration record; every such id
is a key of `m_nodeTerminators`.
-/

namespace OranNs3

open Function List Multiset

/-- The message is one to a null terminator. -/
def E2Event.toNull : E2Event → Bool
  | .receiveDeregistrationResponse none _ | .receiveCommand none _ => true
  | _ => false

/-- The repository has a record that the node registered. -/
def Repository.Recorded (r : Repository) (x : Nat) : Prop :=
  ∃ row ∈ r.db.noderegistration, row.nodeid = x ∧ row.registered = true
deriving Decidable

namespace Repository

variable {r : Repository} {x : Nat}

theorem Recorded.of_listed {b : Pick}
    (h : x ∈ (getLastRegistrationRequests b r).map (·.1)) : r.Recorded x := by
  obtain ⟨-, row, hpick, hreg⟩ := mem_getLastRegistrationRequests.1 h
  obtain ⟨hmem, hx⟩ := Sql.mem_group.1 (b.pick_some hpick).1
  exact ⟨row, hmem, hx, hreg⟩

theorem Recorded.of_call {t : Time} {c : Call} (h : (r.call t c).1.Recorded x) :
    r.Recorded x ∨ c.flag = true ∧ (r.call t c).2 = x := by
  cases ha : r.active with
  | false =>
    rw [call_inactive ha] at h
    exact .inl h
  | true =>
    obtain ⟨row, hrow, hx, hreg⟩ := h
    rw [(call_records ha t c).2] at hrow
    rcases List.mem_append.1 hrow with hrow | hrow
    · exact .inl ⟨row, hrow, hx, hreg⟩
    · rw [List.mem_singleton.1 hrow] at hx hreg
      exact .inr ⟨hreg, (call_snd ha t c).trans hx⟩

end Repository

namespace E2Net

variable {n n' : E2Net} {T : TermId} {x : Nat}

/-- A terminator is found under the id. -/
def Known (n : E2Net) (x : Nat) : Prop := ∃ T, n.nodeTerminators x = some (some T)

/-- The message has a terminator, or its id finds one. -/
def Harmless (n : E2Net) (ev : E2Event) : Prop :=
  ev.toNull = false ∧ ∀ x, ev = .receiveDeregistrationRequest x → n.Known x

/-- The invariant of `m_nodeTerminators`. -/
structure NullInv (n : E2Net) : Prop where
  recorded : ∀ x, n.repo.Recorded x → n.Known x
  owners : ∀ x, n.Known x → ∃ T, (T, x) ∈ n.assigned
  messages : ∀ ev ∈ n.inFlight, n.Harmless ev
  indexed : ∀ x ∈ n.indexed, ∃ T, (T, x) ∈ n.assigned

/-- Nothing happens to `m_nodeTerminators`, and what is sent is harmless. -/
structure Idle (n n' : E2Net) : Prop where
  nodeTerminators : n'.nodeTerminators = n.nodeTerminators
  records : n'.repo.db.noderegistration = n.repo.db.noderegistration
  assigned : n'.assigned = n.assigned
  indexed : n'.indexed = n.indexed
  sent : ∀ ev ∈ n'.inFlight, ev ∈ n.inFlight ∨ n.Harmless ev

theorem NullInv.idle (hn : n.NullInv) (h : Idle n n') : n'.NullInv := by
  have hknown : ∀ x, n'.Known x ↔ n.Known x := fun x => by rw [Known, Known, h.nodeTerminators]
  refine ⟨fun x hx => (hknown x).2 (hn.recorded x ?_), fun x hx => ?_, fun ev hev => ?_, ?_⟩
  · rw [Repository.Recorded, h.records] at hx
    exact hx
  · rw [h.assigned]
    exact hn.owners x ((hknown x).1 hx)
  · have hev : n.Harmless ev := (h.sent ev hev).elim (hn.messages ev) id
    exact ⟨hev.1, fun x hx => (hknown x).2 (hev.2 x hx)⟩
  · rw [h.indexed, h.assigned]
    exact hn.indexed

namespace Idle

theorem refl (n : E2Net) : Idle n n := ⟨rfl, rfl, rfl, rfl, fun _ => .inl⟩

theorem setNode (T : TermId) (ν : E2Node) : Idle n (n.setNode T ν) :=
  ⟨rfl, rfl, rfl, rfl, fun _ => .inl⟩

variable {ev : E2Event}

theorem take {rest : Multiset E2Event} (h : n.inFlight = ev ::ₘ rest) :
    Idle n { n with inFlight := rest } :=
  ⟨rfl, rfl, rfl, rfl, fun _ hev => .inl (h ▸ mem_cons_of_mem hev)⟩

theorem send (h : n.Harmless ev) : Idle n (n.send ev) := by
  refine ⟨rfl, rfl, rfl, rfl, fun ev' hev' => ?_⟩
  rcases mem_cons.1 hev' with rfl | hev'
  · exact .inr h
  · exact .inl hev'

theorem register (T : TermId) : Idle n (n.register T) := by
  unfold E2Net.register
  split
  · refine ⟨rfl, rfl, rfl, rfl, fun ev hev => ?_⟩
    rcases mem_cons.1 hev with rfl | hev
    · exact .inr ⟨rfl, fun x hx => nomatch hx⟩
    · exact .inl hev
  · exact refl n

theorem doSendReports (T : TermId) : Idle n (n.doSendReports T) := by
  unfold E2Net.doSendReports
  split
  · refine ⟨rfl, rfl, rfl, rfl, fun ev hev => ?_⟩
    rcases mem_add.1 hev with hev | hev
    · obtain ⟨r, -, rfl⟩ := mem_map.1 (mem_coe.1 hev)
      exact .inr ⟨rfl, fun x hx => nomatch hx⟩
    · exact .inl hev
  · exact refl n

theorem receiveReport (r : Report) : Idle n (n.receiveReport r) := by
  refine ⟨rfl, ?_, rfl, rfl, fun _ => .inl⟩
  unfold E2Net.receiveReport E2World.saveReport Repository.saveNrUeTxPdu Repository.saveNrUeTxDrop
  repeat' split
  all_goals rfl

theorem setActive (active : Bool) : Idle n (n.setActive active) := by
  unfold E2Net.setActive
  split
  · exact refl n
  · exact ⟨rfl, rfl, rfl, rfl, fun _ => .inl⟩

end Idle

theorem index_nodeTerminators (hx : n.Known x) :
    (n.index x).nodeTerminators = n.nodeTerminators := by
  obtain ⟨T, hT⟩ := hx
  rw [index, hT]
  exact hT ▸ update_eq_self x n.nodeTerminators

theorem NullInv.message {repo : Repository} (hn : n.NullInv) (hx : n.Known x)
    (hev : n.Harmless ev) (hrepo : ∀ y, repo.Recorded y → n.repo.Recorded y) :
    NullInv { (n.index x).send ev with repo } := by
  have hmap := index_nodeTerminators hx
  have hknown : ∀ y, Known { (n.index x).send ev with repo } y ↔ n.Known y := by
    intro y
    rw [Known, Known, ← hmap]
    rfl
  refine ⟨fun y hy => (hknown y).2 (hn.recorded y (hrepo y hy)),
    fun y hy => hn.owners y ((hknown y).1 hy), fun ev' hev' => ?_, fun y hy => ?_⟩
  · have hev' : n.Harmless ev' := by
      rcases mem_cons.1 hev' with rfl | hev'
      · exact hev
      · exact hn.messages ev' hev'
    exact ⟨hev'.1, fun y hy => (hknown y).2 (hev'.2 y hy)⟩
  · rcases mem_cons.1 hy with rfl | hy
    · exact hn.owners y hx
    · exact hn.indexed y hy

theorem NullInv.deregistered (t : Time) (hn : n.NullInv) (hx : n.Known x) :
    (n.receiveDeregistrationRequest t x).NullInv ∧
      (n.receiveDeregistrationRequest t x).nodeTerminators = n.nodeTerminators := by
  unfold receiveDeregistrationRequest
  split
  · refine ⟨hn.message hx ⟨?_, fun y hy => nomatch hy⟩ fun y hy => ?_, index_nodeTerminators hx⟩
    · obtain ⟨T, hT⟩ := hx
      rw [hT]
      rfl
    · rcases Repository.Recorded.of_call (c := .deregisterNode x) hy with hy | ⟨hflag, -⟩
      · exact hy
      · cases hflag
  · exact ⟨hn, rfl⟩

theorem NullInv.commanded {c : Command} (hn : n.NullInv) (hx : n.Known c.targetE2NodeId) :
    (n.sendCommand c).NullInv ∧ (n.sendCommand c).nodeTerminators = n.nodeTerminators := by
  unfold sendCommand
  split
  · refine ⟨hn.message hx ⟨?_, fun y hy => nomatch hy⟩ fun _ => id, index_nodeTerminators hx⟩
    obtain ⟨T, hT⟩ := hx
    rw [hT]
    rfl
  · exact ⟨hn, rfl⟩

theorem NullInv.foldl {γ : Type} {f : E2Net → γ → E2Net} (key : γ → Nat)
    (hf : ∀ {n c}, NullInv n → n.Known (key c) →
      (f n c).NullInv ∧ (f n c).nodeTerminators = n.nodeTerminators)
    {l : List γ} (hn : n.NullInv) (hl : ∀ c ∈ l, n.Known (key c)) : (l.foldl f n).NullInv := by
  induction l generalizing n with
  | nil => exact hn
  | cons c l ih =>
    obtain ⟨hn', hmap⟩ := hf hn (hl c mem_cons_self)
    refine ih hn' fun c' hc' => ?_
    rw [Known, hmap]
    exact hl c' (mem_cons_of_mem _ hc')

theorem NullInv.registered {t : Time} {type : NodeType} {id : Nat} (hn : n.NullInv) :
    (n.receiveRegistrationRequest t type id T).NullInv := by
  unfold receiveRegistrationRequest
  split
  · set c := E2World.registration type id (n.nodes T).deviceId
    set y := (n.repo.call t c).2 with hy
    have hself : Function.update n.nodeTerminators y (some (some T)) y = some (some T) :=
      update_self ..
    have hmono : ∀ x, n.Known x →
        ∃ T', Function.update n.nodeTerminators y (some (some T)) x = some (some T') := by
      intro x hx
      by_cases hxy : x = y
      · exact ⟨T, by rw [hxy, hself]⟩
      · rw [update_of_ne hxy]
        exact hx
    refine ⟨fun x hx => ?_, fun x hx => ?_, fun ev hev => ?_, fun x hx => ?_⟩
    · rcases Repository.Recorded.of_call hx with hx | ⟨-, hx⟩
      · exact hmono x (hn.recorded x hx)
      · exact ⟨T, by rw [← hx]; exact hself⟩
    · by_cases hxy : x = y
      · exact ⟨T, by rw [hxy]; exact mem_cons_self⟩
      · obtain ⟨T', hT'⟩ : ∃ T', Function.update n.nodeTerminators y (some (some T)) x =
          some (some T') := hx
        rw [update_of_ne hxy] at hT'
        obtain ⟨T'', hT''⟩ := hn.owners x ⟨T', hT'⟩
        exact ⟨T'', mem_cons_of_mem _ hT''⟩
    · rcases mem_cons.1 hev with rfl | hev
      · exact ⟨rfl, fun x hx => nomatch hx⟩
      · exact ⟨(hn.messages ev hev).1, fun x hx => hmono x ((hn.messages ev hev).2 x hx)⟩
    · obtain ⟨T', hT'⟩ := hn.indexed x hx
      exact ⟨T', mem_cons_of_mem _ hT'⟩
  · exact hn

/-- The condition of a step: a terminator that is deactivated and the targets of the commands have
ids of which the repository has a registration record. -/
def IdsRecorded (n : E2Net) : NetAction → Prop
  | .deactivate T => (n.nodes T).active = true → n.repo.Recorded (n.nodes T).e2NodeId
  | .processCommands commands => ∀ c ∈ commands, n.repo.Recorded c.targetE2NodeId
  | _ => True

instance (n : E2Net) : ∀ a, Decidable (IdsRecorded n a)
  | .deactivate _ => inferInstanceAs (Decidable (_ → _))
  | .processCommands _ => inferInstanceAs (Decidable (∀ _ ∈ _, _))
  | .register _ | .doSendReports _ | .deliver _ _ | .activate _ | .performReport _ _ | .addTx _ _ _
  | .deregisterInactive _ _ _ | .setActive _ => .isTrue trivial

theorem NullInv.deactivate (hn : n.NullInv)
    (hok : (n.nodes T).active = true → n.repo.Recorded (n.nodes T).e2NodeId)
    (h : n.deactivate T = .ok n') : n'.NullInv := by
  obtain rfl | ⟨ν, hact, hν, rfl⟩ := deactivate_ok h
  · exact hn
  · have hid := (E2Node.deactivateReporters_e2NodeId hν).1
    have hsend : (n.setNode T ν).Harmless
        (.receiveDeregistrationRequest ((n.setNode T ν).nodes T).e2NodeId) := by
      refine ⟨rfl, fun x hx => ?_⟩
      cases hx
      rw [setNode_self, hid]
      exact hn.recorded _ (hok hact)
    exact ((hn.idle (.setNode T ν)).idle (.send hsend)).idle (.setNode T _)

/-- The steps that meet the condition keep the invariant. -/
theorem NullInv.step {a : NetAction} (hn : n.NullInv) (hok : IdsRecorded n a) (h : n.Step a n') :
    n'.NullInv := by
  cases a with
  | register T => cases h; exact hn.idle (.register T)
  | doSendReports T => cases h; exact hn.idle (.doSendReports T)
  | deliver t ev =>
    obtain ⟨rest, hfl, h⟩ := h
    have htake := hn.idle (.take hfl)
    cases ev with
    | register T | doSendReports T => cases h; exact htake
    | receiveRegistrationRequest type id T => cases h; exact htake.registered
    | receiveDeregistrationRequest x =>
      cases h
      have hx : n.Known x :=
        (hn.messages _ (hfl ▸ mem_cons_self _ _)).2 x rfl
      exact (htake.deregistered t hx).1
    | receiveReport r => cases h; exact htake.idle (.receiveReport r)
    | receiveRegistrationResponse T x =>
      obtain rfl | ⟨ν, -, rfl⟩ := receiveRegistrationResponse_ok h
      · exact htake
      · exact htake.idle (.setNode T ν)
    | receiveDeregistrationResponse T x =>
      cases T with
      | none => cases h
      | some T => cases h; exact htake.idle (.setNode T _)
    | receiveCommand T c =>
      cases T with
      | none => cases h
      | some T => cases h; exact htake
  | activate T =>
    obtain ⟨-, rfl⟩ | ⟨ν, -, -, rfl⟩ := activate_ok h
    · exact hn
    · exact ((hn.idle (.setNode T _)).idle (.register T)).idle (.setNode T ν)
  | deactivate T => exact hn.deactivate hok h
  | performReport T i => cases h; exact hn.idle (.setNode T _)
  | addTx T i new => cases h; exact hn.idle (.setNode T _)
  | processCommands cs =>
    cases h
    unfold processCommands
    split
    · exact NullInv.foldl Command.targetE2NodeId (fun hn hx => hn.commanded hx) hn
        fun c hc => hn.recorded _ (hok c hc)
    · exact hn
  | deregisterInactive t b ids =>
    obtain ⟨hids, rfl⟩ := h
    unfold deregisterInactive
    split
    · exact NullInv.foldl id (fun hn hx => hn.deregistered t hx) hn
        fun x hx => hn.recorded x (.of_listed (hids x hx))
    · exact hn
  | setActive active => cases h; exact hn.idle (.setActive active)

theorem nullInv_init (cfg : TermId → TerminatorConfig) : NullInv (.init cfg) where
  recorded := by
    rintro x ⟨row, hrow, -⟩
    cases hrow
  owners := by
    rintro x ⟨T, hT⟩
    cases hT
  messages := fun ev hev => absurd hev (notMem_zero ev)
  indexed := nofun

end E2Net

namespace E2World

/-- No pending message is to a null terminator, and `m_nodeTerminators` was only indexed by ids of
terminators that registered. -/
def NoNullMessage (w : E2World) : Prop :=
  (∀ e ∈ w.sim.pending, e.ev.toNull = false) ∧ ∀ x ∈ w.indexed, ∃ T, (T, x) ∈ w.assigned

theorem noNullMessage_of_net {w : E2World} (h : w.net.NullInv) : w.NoNullMessage := by
  refine ⟨fun e he => ?_, h.indexed⟩
  by_cases ht : e.ev.isTimer = true
  · cases hev : e.ev with
    | register T | doSendReports T => rfl
    | _ => simp [hev, E2Event.isTimer] at ht
  · have hmem : e.ev ∈ w.inFlight :=
      mem_filter.2 ⟨EventQueue.mem_events.2 ⟨e, he, rfl⟩, Bool.not_eq_true _ ▸ ht⟩
    exact (h.messages e.ev hmem).1

/-- In every run in which these have a registration record, the RIC schedules no message to a null
terminator. -/
theorem noNullMessage (threshold : Time) (cfg : TermId → TerminatorConfig) (w : E2World)
    (h : Lts.Run Step (fun w a => E2Net.IdsRecorded w.net (w.netAction a)) (init threshold cfg) w) :
    w.NoNullMessage :=
  noNullMessage_of_net (Lts.Run.invariant (I := E2Net.NullInv)
    (fun hn hok hst => hn.step hok hst) (E2Net.nullInv_init cfg) (net_run h))

/-- Terminators of UEs without reporters. -/
def bareConfig : TermId → TerminatorConfig := fun T => ⟨.nrUe, 77 + T, 0, []⟩

/-- A terminator that is deactivated after it has learned its id, and a command to it before. -/
theorem noNullMessage_example : ∃ w : E2World, w.indexed = [1, 1] ∧ w.NoNullMessage := by
  have hx : (Lts.execs (fun w a => E2Net.IdsRecorded w.net (w.netAction a)) step?
      (init 100 bareConfig) [.setActive 0 true, .activate 0 (draws 2 50) 3,
        .fire (draws 2 0), .fire (draws 2 60),
        .processCommands 10 (draws 2 0) [⟨1, 0, 0⟩], .deactivate 11 (draws 5 0) 3,
        .fire (draws 2 0), .fire (draws 2 0)]).map (·.indexed) = some [1, 1] := by decide
  obtain ⟨w, hw, hf⟩ := Option.map_eq_some_iff.1 hx
  exact ⟨w, hf, noNullMessage 100 bareConfig w (Lts.run_of_execs step_of_step? hw)⟩

/-- A terminator is deactivated before the response to its registration arrives: the response for
the id 0 is scheduled on a null terminator. -/
theorem nullMessage : ¬ ∀ (threshold : Time) (cfg : TermId → TerminatorConfig) (w : E2World),
    Lts.Run Step Lts.anyStep (init threshold cfg) w → w.NoNullMessage := by
  intro h
  have hx : (Lts.execs Lts.anyStep step? (init 100 bareConfig)
      [.setActive 0 true, .activate 0 (draws 2 50) 3, .deactivate 1 (draws 2 0) 3,
        .fire (draws 2 0), .fire (draws 2 0)]).map
      (fun w => w.sim.pending.any (·.ev.toNull)) = some true := by decide
  obtain ⟨w, hw, hf⟩ := Option.map_eq_some_iff.1 hx
  obtain ⟨e, he, hnull⟩ := any_eq_true.1 hf
  rw [(h 100 bareConfig w (Lts.run_of_execs step_of_step? hw)).1 e he] at hnull
  cases hnull

end E2World

end OranNs3
