import OranNs3.E2.Net
import OranNs3.Repository.Spec

/-!
# The ids of a terminator

A terminator repeats its registration request with the id it has at the time, which is 0 until the
first response arrives, and again after a deregistration response. The RIC assigns a new id to every
request with the id 0. It assigns one id to a terminator (`assigned_unique`) in every run in which
only the first request of the terminator has the id 0, and its other requests have an id that the
repository keeps: there is at most one request in flight with the id 0, and then no id was assigned
yet; all other messages carry the id that was assigned.
-/

namespace OranNs3

open List Multiset

/-- The message is a registration request of the terminator or a response to it. -/
def E2Event.concerns (T : TermId) : E2Event → Bool
  | .receiveRegistrationRequest _ _ T' | .receiveRegistrationResponse T' _ => T' == T
  | _ => false

theorem E2World.saveReport_active {repo : Repository} (r : Report) :
    (saveReport repo r).active = repo.active := by
  unfold saveReport Repository.saveNrUeTxPdu Repository.saveNrUeTxDrop
  repeat' split
  all_goals rfl

namespace E2Net

variable {n n' n'' : E2Net} {T : TermId} {x : Nat}

/-- The requests and responses of the terminator in flight. -/
def traffic (n : E2Net) (T : TermId) : Multiset E2Event :=
  n.inFlight.filter fun ev => ev.concerns T = true

/-- The terminator and the repository of the RIC are on and off together. -/
def Agree (n : E2Net) : Prop := n.e2Active = n.ricActive ∧ n.repo.active = n.ricActive

/-- Nothing happens to the registration of the terminator, except that it may forget its id. -/
structure Frame (T : TermId) (n n' : E2Net) : Prop where
  traffic : n'.traffic T ≤ n.traffic T
  e2NodeId : (n'.nodes T).e2NodeId = (n.nodes T).e2NodeId ∨ (n'.nodes T).e2NodeId = 0
  active : (n'.nodes T).active = true → (n.nodes T).active = true
  requested : T ∈ n'.requested ↔ T ∈ n.requested
  assigned : ∀ x, (T, x) ∈ n'.assigned → (T, x) ∈ n.assigned
  agree : n.Agree → n'.Agree

namespace Frame

theorem refl (T : TermId) (n : E2Net) : Frame T n n where
  traffic := le_rfl
  e2NodeId := .inl rfl
  active := id
  requested := Iff.rfl
  assigned := fun _ => id
  agree := id

theorem trans (h : Frame T n n') (h' : Frame T n' n'') : Frame T n n'' where
  traffic := h'.traffic.trans h.traffic
  e2NodeId := by
    rcases h'.e2NodeId with h' | h'
    · exact h' ▸ h.e2NodeId
    · exact .inr h'
  active := fun ha => h.active (h'.active ha)
  requested := h'.requested.trans h.requested
  assigned := fun x hx => h.assigned x (h'.assigned x hx)
  agree := fun ha => h'.agree (h.agree ha)

/-- Messages that do not concern the terminator, and changes of the RIC that do not assign it an
id. -/
theorem of_nodes (hfl : n'.traffic T ≤ n.traffic T) (hnodes : n'.nodes = n.nodes)
    (hreq : T ∈ n'.requested ↔ T ∈ n.requested)
    (hass : ∀ x, (T, x) ∈ n'.assigned → (T, x) ∈ n.assigned) (hagree : n.Agree → n'.Agree) :
    Frame T n n' where
  traffic := hfl
  e2NodeId := .inl (by rw [hnodes])
  active := by rw [hnodes]; exact id
  requested := hreq
  assigned := hass
  agree := hagree

variable {ev : E2Event}

theorem send (hev : ev.concerns T = false) : Frame T n (n.send ev) := by
  refine of_nodes ?_ rfl Iff.rfl (fun _ => id) id
  rw [E2Net.traffic, E2Net.send, filter_cons_of_neg _ (by simp [hev])]
  rfl

variable {T' : TermId}

theorem setNode {ν : E2Node} (hid : T' = T → ν.e2NodeId = (n.nodes T).e2NodeId ∨ ν.e2NodeId = 0)
    (hact : T' = T → ν.active = true → (n.nodes T).active = true) : Frame T n (n.setNode T' ν) := by
  by_cases h : T' = T
  · subst h
    refine ⟨le_rfl, ?_, ?_, Iff.rfl, fun _ => id, id⟩
    · rw [setNode_self]
      exact hid rfl
    · rw [setNode_self]
      exact hact rfl
  · have hT := setNode_of_ne (Ne.symm h) n ν
    exact ⟨le_rfl, .inl (by rw [hT]), by rw [hT]; exact id, Iff.rfl, fun _ => id, id⟩

variable {rest : Multiset E2Event}

theorem take (h : n.inFlight = ev ::ₘ rest) : Frame T n { n with inFlight := rest } := by
  refine of_nodes ?_ rfl Iff.rfl (fun _ => id) id
  rw [E2Net.traffic, E2Net.traffic, h]
  exact filter_le_filter _ (le_cons_self _ _)

theorem register (h : T' = T → (n.nodes T).active = false) : Frame T n (n.register T') := by
  unfold E2Net.register
  split
  · next ha =>
    have hne : T' ≠ T := fun hT => by
      subst hT
      rw [h rfl] at ha
      cases ha
    refine of_nodes ?_ rfl (by simp [Ne.symm hne]) (fun _ => id) id
    rw [E2Net.traffic, E2Net.send, filter_cons_of_neg _ (by simp [E2Event.concerns, hne])]
    rfl
  · exact refl T n

theorem doSendReports (T' : TermId) : Frame T n (n.doSendReports T') := by
  unfold E2Net.doSendReports
  split
  · have hnone : Multiset.filter (fun ev : E2Event => ev.concerns T = true)
        ((n.nodes T').reports.map E2Event.receiveReport : List E2Event) = 0 := by
      refine Multiset.filter_eq_nil.2 fun ev hev => ?_
      obtain ⟨r, -, rfl⟩ := List.mem_map.1 (Multiset.mem_coe.1 hev)
      exact Bool.false_ne_true
    have hsend : Frame T n { n with inFlight :=
        ((n.nodes T').reports.map E2Event.receiveReport : List E2Event) + n.inFlight } := by
      refine of_nodes ?_ rfl Iff.rfl (fun _ => id) id
      rw [E2Net.traffic, E2Net.traffic, Multiset.filter_add, hnone, Multiset.zero_add]
    exact hsend.trans (setNode (fun hT => .inl (by rw [hT])) fun hT => by subst hT; exact id)
  · exact refl T n

theorem receiveDeregistrationRequest (t : Time) (n : E2Net) (y : Nat) :
    Frame T n (n.receiveDeregistrationRequest t y) := by
  unfold E2Net.receiveDeregistrationRequest
  split
  · have hact : (n.repo.deregisterNode t y).1.active = n.repo.active :=
      Repository.call_active t (.deregisterNode y)
    refine of_nodes ?_ rfl Iff.rfl (fun _ => id) fun ha => ⟨ha.1, hact.trans ha.2⟩
    exact (send (n := n.index y) rfl).traffic
  · exact refl T n

theorem sendCommand (n : E2Net) (c : Command) : Frame T n (n.sendCommand c) := by
  unfold E2Net.sendCommand
  split
  · exact of_nodes (send (n := n.index c.targetE2NodeId) rfl).traffic rfl Iff.rfl (fun _ => id) id
  · exact refl T n

theorem receiveReport (r : Report) : Frame T n (n.receiveReport r) := by
  refine of_nodes le_rfl rfl Iff.rfl (fun _ => id) fun ha => ⟨ha.1, ?_⟩
  have hact : (n.receiveReport r).repo.active = n.repo.active := by
    unfold E2Net.receiveReport
    split
    · exact E2World.saveReport_active r
    · rfl
  exact hact.trans ha.2

theorem receiveRegistrationRequest {t : Time} {type : NodeType} {id : Nat}
    (h : T' = T → n.e2Active = false) : Frame T n (n.receiveRegistrationRequest t type id T') := by
  unfold E2Net.receiveRegistrationRequest
  split
  · next ha =>
    have hne : T' ≠ T := fun hT => by
      rw [h hT] at ha
      cases ha
    refine of_nodes (send (n := n) (by simp [E2Event.concerns, hne])).traffic rfl Iff.rfl
      (fun x hx => ?_) fun ha => ⟨ha.1, (Repository.call_active t _).trans ha.2⟩
    simpa [Ne.symm hne] using hx
  · exact refl T n

theorem receiveRegistrationResponse {y : Nat} (hne : T' ≠ T)
    (h : n.receiveRegistrationResponse T' y = .ok n') : Frame T n n' := by
  obtain rfl | ⟨ν, -, rfl⟩ := receiveRegistrationResponse_ok h
  · exact refl T _
  · exact setNode (fun hT => absurd hT hne) fun hT => absurd hT hne

theorem deactivate (h : n.deactivate T' = .ok n') : Frame T n n' := by
  obtain rfl | ⟨ν, ha, hν, rfl⟩ := deactivate_ok h
  · exact refl T _
  · obtain ⟨hid, -⟩ := E2Node.deactivateReporters_e2NodeId hν
    refine trans (setNode (fun hT => .inl ?_) fun hT _ => ?_)
      (trans (send rfl) (setNode (fun hT => .inl ?_) fun _ h => nomatch h))
    · rw [hid, hT]
    · rw [← hT]; exact ha
    · subst hT
      simp [E2Net.send, E2Net.setNode]

theorem activate (hT : T' = T → (n.nodes T).active = true)
    (h : n.activate T' = .ok n') : Frame T n n' := by
  obtain ⟨-, rfl⟩ | ⟨ν, ha, -, rfl⟩ := activate_ok h
  · exact refl T _
  · have hne : T' ≠ T := fun hT' => by
      subst hT'
      rw [hT rfl] at ha
      cases ha
    exact trans (setNode (fun hT => absurd hT hne) fun hT => absurd hT hne)
      (trans (register fun hT => absurd hT hne)
        (setNode (fun hT => absurd hT hne) fun hT => absurd hT hne))

theorem setActive (active : Bool) : Frame T n (n.setActive active) := by
  unfold E2Net.setActive
  split
  · exact refl T n
  · exact of_nodes le_rfl rfl Iff.rfl (fun _ => id) fun _ => ⟨rfl, rfl⟩

end Frame

/-! ## The invariant -/

/-- Before its first request, a terminator has no traffic and no id was assigned to it. -/
structure Unused (T : TermId) (n : E2Net) : Prop where
  traffic : n.traffic T = 0
  assigned : ∀ x, (T, x) ∉ n.assigned

/-- After the first request with the id 0 and until it is answered, it is the only traffic. -/
structure Fresh (T : TermId) (n : E2Net) : Prop where
  e2NodeId : (n.nodes T).e2NodeId = 0
  assigned : ∀ x, (T, x) ∉ n.assigned
  card : (n.traffic T).card ≤ 1
  request : ∀ ev ∈ n.traffic T, ∃ type, ev = .receiveRegistrationRequest type 0 T

/-- When an id has been assigned, or is to be, all traffic is about it. -/
structure Settled (T : TermId) (x : Nat) (n : E2Net) : Prop where
  e2NodeId : (n.nodes T).e2NodeId = x ∨ (n.nodes T).e2NodeId = 0
  assigned : ∀ y, (T, y) ∈ n.assigned → y = x
  traffic : ∀ ev ∈ n.traffic T, ev = .receiveRegistrationResponse T x ∨
    ∃ type, ev = .receiveRegistrationRequest type x T ∧ x ≠ 0 ∧ bindInt x = x

/-- What is known of the registration of a terminator. -/
inductive Registration (T : TermId) (n : E2Net) : Prop
  | unused (hreq : T ∉ n.requested) (h : Unused T n)
  | fresh (hreq : T ∈ n.requested) (h : Fresh T n)
  | settled (hreq : T ∈ n.requested) (x : Nat) (h : Settled T x n)

/-- The invariant of a terminator. -/
structure AllocInv (T : TermId) (n : E2Net) : Prop where
  agree : n.Agree
  inactive : T ∉ n.requested → (n.nodes T).active = false
  registration : Registration T n

/-- The condition of a registration request: it is the first one and has the id 0, or it has an id
that the repository keeps. -/
def RequestOk (T : TermId) (n : E2Net) : Prop :=
  (T ∉ n.requested ∧ (n.nodes T).e2NodeId = 0) ∨
    (n.nodes T).e2NodeId ≠ 0 ∧ bindInt (n.nodes T).e2NodeId = (n.nodes T).e2NodeId
deriving Decidable

theorem Registration.frame (h : Registration T n) (hf : Frame T n n') : Registration T n' := by
  cases h with
  | unused hreq h =>
    refine .unused (fun hr => hreq (hf.requested.1 hr)) ⟨?_, fun x hx =>
      h.assigned x (hf.assigned x hx)⟩
    exact le_zero.1 (h.traffic ▸ hf.traffic)
  | fresh hreq h =>
    refine .fresh (hf.requested.2 hreq) {
      e2NodeId := ?_
      assigned := fun x hx => h.assigned x (hf.assigned x hx)
      card := (card_le_card hf.traffic).trans h.card
      request := fun ev hev => h.request ev (mem_of_le hf.traffic hev) }
    rcases hf.e2NodeId with hid | hid
    · exact hid.trans h.e2NodeId
    · exact hid
  | settled hreq x h =>
    refine .settled (hf.requested.2 hreq) x {
      e2NodeId := ?_
      assigned := fun y hy => h.assigned y (hf.assigned y hy)
      traffic := fun ev hev => h.traffic ev (mem_of_le hf.traffic hev) }
    rcases hf.e2NodeId with hid | hid
    · exact hid ▸ h.e2NodeId
    · exact .inr hid

theorem AllocInv.frame (hn : AllocInv T n) (hf : Frame T n n') : AllocInv T n' where
  agree := hf.agree hn.agree
  inactive := by
    intro hr
    by_contra hact
    rw [Bool.not_eq_false] at hact
    have := hn.inactive fun hr' => hr (hf.requested.2 hr')
    rw [hf.active hact] at this
    cases this
  registration := hn.registration.frame hf

/-- A request that meets the condition. -/
theorem Registration.register (h : Registration T n) (hok : RequestOk T n)
    (hact : (n.nodes T).active = true) : Registration T (n.register T) := by
  rw [E2Net.register, if_pos hact]
  have hreq : T ∈ T :: n.requested := mem_cons_self
  have htraffic : (n.send (.receiveRegistrationRequest (n.nodes T).type (n.nodes T).e2NodeId
      T)).traffic T = .receiveRegistrationRequest (n.nodes T).type (n.nodes T).e2NodeId T ::ₘ
        n.traffic T := by
    rw [traffic, send, filter_cons_of_pos _ (by simp [E2Event.concerns])]
    rfl
  -- the traffic of a request with the id `x`, when all other traffic is about `x`
  have hsettled : ∀ x, (n.nodes T).e2NodeId = x → x ≠ 0 → bindInt x = x →
      (∀ y, (T, y) ∈ n.assigned → y = x) →
      (∀ ev ∈ n.traffic T, ev = .receiveRegistrationResponse T x ∨
        ∃ type, ev = .receiveRegistrationRequest type x T ∧ x ≠ 0 ∧ bindInt x = x) →
      Settled T x { n.send (.receiveRegistrationRequest (n.nodes T).type (n.nodes T).e2NodeId
        T) with requested := T :: n.requested } := by
    intro x hx h0 hb hass hold
    refine ⟨.inl hx, hass, fun ev hev => ?_⟩
    rcases mem_cons.1 (htraffic ▸ hev) with rfl | hev
    · exact .inr ⟨_, by rw [hx], h0, hb⟩
    · exact hold ev hev
  rcases hok with ⟨hfirst, hid⟩ | ⟨h0, hb⟩
  · cases h with
    | unused hr h =>
      refine .fresh hreq ⟨hid, h.assigned, ?_, fun ev hev => ?_⟩
      · change ((n.send _).traffic T).card ≤ 1
        rw [htraffic, h.traffic]
        rfl
      · have hev : ev ∈ (n.send _).traffic T := hev
        rw [htraffic, h.traffic, hid] at hev
        exact ⟨_, by simpa using hev⟩
    | fresh hr h => exact absurd hr hfirst
    | settled hr x h => exact absurd hr hfirst
  · cases h with
    | unused hr h =>
      refine .settled hreq _ (hsettled _ rfl h0 hb (fun y hy => absurd hy (h.assigned y)) ?_)
      rw [h.traffic]
      exact fun ev hev => absurd hev (notMem_zero ev)
    | fresh hr h => exact absurd h.e2NodeId h0
    | settled hr x h =>
      have hx : (n.nodes T).e2NodeId = x := h.e2NodeId.resolve_right h0
      exact .settled hreq x (hsettled x hx (hx ▸ h0) (hx ▸ hb) h.assigned h.traffic)

theorem traffic_cons (h : n.inFlight = ev ::ₘ rest) (hev : ev.concerns T = true) :
    n.traffic T = ev ::ₘ E2Net.traffic { n with inFlight := rest } T := by
  rw [traffic, h]
  exact filter_cons_of_pos (p := fun ev : E2Event => ev.concerns T = true) rest hev

theorem call_registration {r : Repository} (ha : r.active = true) (t : Time) (type : NodeType)
    (id deviceId : Nat) : (r.call t (E2World.registration type id deviceId)).2 =
      Repository.assignedId r.db id := by
  rw [Repository.call_snd ha]
  cases type <;> rfl

/-- An answer of the RIC to a request of the terminator: it is about the id of the request, or it is
the first one. -/
theorem AllocInv.answer {t : Time} {type : NodeType} {id : Nat}
    (hn : AllocInv T n) (hfl : n.inFlight = .receiveRegistrationRequest type id T ::ₘ rest) :
    AllocInv T (E2Net.receiveRegistrationRequest t { n with inFlight := rest } type id T) := by
  have htake := Frame.take (T := T) hfl
  by_cases he : n.e2Active = true
  · have hcons := traffic_cons hfl (T := T) (by simp [E2Event.concerns])
    have hmem : E2Event.receiveRegistrationRequest type id T ∈ n.traffic T := by
      rw [hcons]
      exact mem_cons_self _ _
    have hrepo : n.repo.active = true := by rw [hn.agree.2, ← hn.agree.1, he]
    rw [E2Net.receiveRegistrationRequest, if_pos (show _ = true from he)]
    have hans := call_registration hrepo t type id (n.nodes T).deviceId
    set y := (n.repo.call t (E2World.registration type id (n.nodes T).deviceId)).2 with hy
    refine ⟨⟨hn.agree.1, (Repository.call_active t _).trans hn.agree.2⟩, hn.inactive, ?_⟩
    cases hn.registration with
    | unused hreq h =>
      rw [h.traffic] at hmem
      exact absurd hmem (notMem_zero _)
    | fresh hreq h =>
      -- the only traffic was the request, so the response is all there is now
      have hrest : E2Net.traffic { n with inFlight := rest } T = 0 := by
        have hcard := h.card
        rw [hcons, card_cons] at hcard
        exact card_eq_zero.1 (Nat.le_zero.1 (Nat.le_of_succ_le_succ hcard))
      refine .settled hreq y ⟨.inr h.e2NodeId, fun z hz => ?_, fun ev hev => ?_⟩
      · rcases mem_cons.1 hz with hz | hz
        · exact congrArg Prod.snd hz
        · exact absurd hz (h.assigned z)
      · left
        have hev : ev ∈ (E2Net.send { n with inFlight := rest }
          (.receiveRegistrationResponse T y)).traffic T := hev
        rw [traffic_cons rfl (by simp [E2Event.concerns])] at hev
        rcases mem_cons.1 hev with rfl | hev
        · rfl
        · exact absurd (hrest ▸ hev) (notMem_zero _)
    | settled hreq x h =>
      have hid : id = x ∧ x ≠ 0 ∧ bindInt x = x := by
        rcases h.traffic _ hmem with h | ⟨type', h, hx⟩
        · cases h
        · cases h
          exact ⟨rfl, hx⟩
      obtain ⟨rfl, h0, hb⟩ := hid
      have hyx : y = id := by rw [hans, Repository.assignedId, if_neg h0, hb]
      refine .settled hreq id ⟨h.e2NodeId, fun z hz => ?_, fun ev hev => ?_⟩
      · rcases mem_cons.1 hz with hz | hz
        · exact (congrArg Prod.snd hz).trans hyx
        · exact h.assigned z hz
      · have hev : ev ∈ (E2Net.send { n with inFlight := rest }
          (.receiveRegistrationResponse T y)).traffic T := hev
        rw [traffic_cons rfl (by simp [E2Event.concerns])] at hev
        rcases mem_cons.1 hev with rfl | hev
        · exact .inl (by rw [hyx])
        · exact h.traffic ev (hcons ▸ mem_cons_of_mem hev)
  · exact hn.frame (htake.trans (.receiveRegistrationRequest fun _ => Bool.not_eq_true _ ▸ he))

theorem AllocInv.learn {y : Nat} (hn : AllocInv T n)
    (hfl : n.inFlight = .receiveRegistrationResponse T y ::ₘ rest)
    (h : E2Net.receiveRegistrationResponse { n with inFlight := rest } T y = .ok n') :
    AllocInv T n' := by
  have htake := hn.frame (Frame.take hfl)
  have hcons := traffic_cons hfl (T := T) (by simp [E2Event.concerns])
  have hmem : E2Event.receiveRegistrationResponse T y ∈ n.traffic T := by
    rw [hcons]
    exact mem_cons_self _ _
  obtain rfl | ⟨ν, hν, rfl⟩ := receiveRegistrationResponse_ok h
  · exact htake
  · obtain ⟨hid, hact⟩ := E2Node.learnId_e2NodeId hν
    have hself : (E2Net.setNode { n with inFlight := rest } T ν).nodes T = ν := setNode_self ..
    refine ⟨htake.agree, fun hr => ?_, ?_⟩
    · rw [hself, hact]
      exact htake.inactive hr
    · cases hn.registration with
      | unused hreq h =>
        rw [h.traffic] at hmem
        exact absurd hmem (notMem_zero _)
      | fresh hreq h =>
        obtain ⟨type, hreq⟩ := h.request _ hmem
        cases hreq
      | settled hreq x h =>
        have hyx : y = x := by
          rcases h.traffic _ hmem with h | ⟨type, h, -⟩
          · cases h
            rfl
          · cases h
        refine .settled hreq x ⟨.inl ?_, h.assigned, fun ev hev => ?_⟩
        · rw [hself, hid, hyx]
        · exact h.traffic ev (hcons ▸ mem_cons_of_mem hev)

theorem AllocInv.activate (hn : AllocInv T n) (hok : (n.nodes T).active = false → RequestOk T n)
    (h : n.activate T = .ok n') : AllocInv T n' := by
  obtain ⟨-, rfl⟩ | ⟨ν, hact, hν, rfl⟩ := activate_ok h
  · exact hn
  · obtain ⟨hid, hνact⟩ := E2Node.activateReporters_e2NodeId hν
    have hnode : (n.setNode T (n.nodes T).powerOn).nodes T = (n.nodes T).powerOn := setNode_self ..
    have hon : Registration T (n.setNode T (n.nodes T).powerOn) := by
      have heq : ((n.setNode T (n.nodes T).powerOn).nodes T).e2NodeId = (n.nodes T).e2NodeId := by
        rw [hnode]
        rfl
      cases hn.registration with
      | unused hreq h => exact .unused hreq ⟨h.traffic, h.assigned⟩
      | fresh hreq h => exact .fresh hreq ⟨heq.trans h.e2NodeId, h.assigned, h.card, h.request⟩
      | settled hreq x h => exact .settled hreq x ⟨heq ▸ h.e2NodeId, h.assigned, h.traffic⟩
    have hokon : RequestOk T (n.setNode T (n.nodes T).powerOn) := by
      rw [RequestOk, hnode]
      exact hok hact
    have hreg := hon.register hokon (by rw [hnode]; rfl)
    have hreg' : Registration T (((n.setNode T (n.nodes T).powerOn).register T).setNode T ν) :=
      hreg.frame (.setNode (fun _ => .inl hid) fun _ h => hνact ▸ h)
    refine ⟨?_, fun hr => absurd ?_ hr, hreg'⟩
    · rw [register_powerOn]
      exact hn.agree
    · rw [register_powerOn]
      exact mem_cons_self

/-- The condition of a step for the terminator: its registration requests meet theirs. -/
def RequestsOk (T : TermId) (n : E2Net) : NetAction → Prop
  | .register T' => T' = T → (n.nodes T).active = true → RequestOk T n
  | .activate T' => T' = T → (n.nodes T).active = false → RequestOk T n
  | _ => True

instance (T : TermId) (n : E2Net) : ∀ a, Decidable (RequestsOk T n a)
  | .register _ | .activate _ => inferInstanceAs (Decidable (_ → _))
  | .doSendReports _ | .deliver _ _ | .deactivate _ | .performReport _ _ | .addTx _ _ _
  | .processCommands _ | .deregisterInactive _ _ _ | .setActive _ => .isTrue trivial

/-- The steps keep the invariant of a terminator whose requests meet the condition. -/
theorem AllocInv.step {a : NetAction} (hn : AllocInv T n) (hok : RequestsOk T n a)
    (h : n.Step a n') : AllocInv T n' := by
  cases a with
  | register T' =>
    cases h
    by_cases hT : T' = T
    · subst hT
      by_cases hact : (n.nodes T').active = true
      · have hreg := hn.registration.register (hok rfl hact) hact
        refine ⟨?_, fun hr => absurd ?_ hr, hreg⟩
        · rw [E2Net.register, if_pos hact]
          exact hn.agree
        · rw [E2Net.register, if_pos hact]
          exact mem_cons_self
      · exact hn.frame (.register fun _ => Bool.not_eq_true _ ▸ hact)
    · exact hn.frame (.register fun h => absurd h hT)
  | doSendReports T' => cases h; exact hn.frame (.doSendReports T')
  | deliver t ev =>
    obtain ⟨rest, hfl, h⟩ := h
    have htake := Frame.take (T := T) hfl
    cases ev with
    | register T' | doSendReports T' => cases h; exact hn.frame htake
    | receiveRegistrationRequest type id T' =>
      cases h
      by_cases hT : T' = T
      · subst hT
        exact hn.answer hfl
      · exact hn.frame (htake.trans (.receiveRegistrationRequest fun h => absurd h hT))
    | receiveDeregistrationRequest x =>
      cases h
      exact hn.frame (htake.trans (.receiveDeregistrationRequest t _ x))
    | receiveReport r => cases h; exact hn.frame (htake.trans (.receiveReport r))
    | receiveRegistrationResponse T' x =>
      by_cases hT : T' = T
      · subst hT
        exact hn.learn hfl h
      · exact hn.frame (htake.trans (.receiveRegistrationResponse hT h))
    | receiveDeregistrationResponse T' x =>
      cases T' with
      | none => cases h
      | some T' =>
        cases h
        exact hn.frame (htake.trans (.setNode (fun _ => .inr rfl) fun hT => by subst hT; exact id))
    | receiveCommand T' c =>
      cases T' with
      | none => cases h
      | some T' => cases h; exact hn.frame htake
  | activate T' =>
    by_cases hT : T' = T
    · subst hT
      exact hn.activate (hok rfl) h
    · exact hn.frame (.activate (fun h => absurd h hT) h)
  | deactivate T' => exact hn.frame (.deactivate h)
  | performReport T' i =>
    cases h
    obtain ⟨hid, hact⟩ := E2Node.performReport_e2NodeId T' (n.nodes T') i
    exact hn.frame (.setNode (fun hT => .inl (hT ▸ hid)) fun hT h => hT ▸ hact ▸ h)
  | addTx T' i new =>
    cases h
    exact hn.frame (.setNode (fun hT => .inl (by rw [← hT]; rfl)) fun hT h => by rw [← hT]; exact h)
  | processCommands cs =>
    cases h
    unfold E2Net.processCommands
    split
    · exact foldlRecOn (motive := AllocInv T) cs _ hn fun m hm c _ =>
        hm.frame (.sendCommand m c)
    · exact hn
  | deregisterInactive t b ids =>
    obtain ⟨-, rfl⟩ := h
    unfold E2Net.deregisterInactive
    split
    · exact foldlRecOn (motive := AllocInv T) ids _ hn fun m hm x _ =>
        hm.frame (.receiveDeregistrationRequest t m x)
    · exact hn
  | setActive active => cases h; exact hn.frame (.setActive active)

theorem AllocInv.unique (hn : AllocInv T n) {x y : Nat} (hx : (T, x) ∈ n.assigned)
    (hy : (T, y) ∈ n.assigned) : x = y := by
  cases hn.registration with
  | unused hreq h => exact absurd hx (h.assigned x)
  | fresh hreq h => exact absurd hx (h.assigned x)
  | settled hreq z h => exact (h.assigned x hx).trans (h.assigned y hy).symm

theorem allocInv_init (cfg : TermId → TerminatorConfig) : AllocInv T (.init cfg) where
  agree := ⟨rfl, rfl⟩
  inactive := fun _ => rfl
  registration := .unused (not_mem_nil) ⟨rfl, fun _ => not_mem_nil⟩

end E2Net

namespace E2World

/-- At most one id has been assigned to the terminator. -/
def OneId (T : TermId) (w : E2World) : Prop :=
  ∀ x y, (T, x) ∈ w.assigned → (T, y) ∈ w.assigned → x = y

/-- In every run in which the registration requests of the terminator meet the condition, the RIC
assigns one id to it. -/
theorem assigned_unique (threshold : Time) (cfg : TermId → TerminatorConfig) (T : TermId)
    (w : E2World) (h : Lts.Run Step (fun w a => E2Net.RequestsOk T w.net (w.netAction a))
      (init threshold cfg) w) : OneId T w := by
  have hinv : E2Net.AllocInv T w.net :=
    Lts.Run.invariant (I := E2Net.AllocInv T) (fun hn hok hst => hn.step hok hst)
      (E2Net.allocInv_init cfg) (net_run h)
  exact fun x y hx hy => hinv.unique hx hy

/-- The first response arrives before the next request is sent: both requests get the same id. -/
theorem assigned_unique_example : ∃ w : E2World, w.assigned = [(0, 1), (0, 1)] ∧ OneId 0 w := by
  have hx : (Lts.execs (fun w a => E2Net.RequestsOk 0 w.net (w.netAction a)) step?
      (init 100 ueConfig) [.setActive 0 true, .activate 0 (draws 2 10) 0, .fire (draws 2 0),
        .fire (draws 0 50), .fire (draws 2 10), .fire (draws 2 0)]).map (·.assigned) =
      some [(0, 1), (0, 1)] := by decide
  obtain ⟨w, hw, hf⟩ := Option.map_eq_some_iff.1 hx
  exact ⟨w, hf, assigned_unique 100 ueConfig 0 w (Lts.run_of_execs step_of_step? hw)⟩

/-- The terminator is activated at most once. -/
def ActivatedOnce (T : TermId) (w : E2World) : E2Action → Prop
  | .activate _ _ T' => T' = T → T ∉ w.requested
  | _ => True

instance (T : TermId) (w : E2World) : ∀ a, Decidable (ActivatedOnce T w a)
  | .activate _ _ _ => inferInstanceAs (Decidable (_ → _))
  | .fire _ | .deactivate _ _ _ | .performReport _ _ _ | .addTx _ _ _ _ _ _
  | .processCommands _ _ _ | .checkForInactivity _ _ _ | .setActive _ _ => .isTrue trivial

/-- A terminator whose registration interval is shorter than the transmission delay: its second
request is sent before the first one arrives. -/
theorem assigned_twice : ¬ ∀ (threshold : Time) (cfg : TermId → TerminatorConfig) (T : TermId)
    (w : E2World), Lts.Run Step (ActivatedOnce T) (init threshold cfg) w → OneId T w := by
  intro h
  have hx : (Lts.execs (ActivatedOnce 0) step? (init 100 ueConfig) [.setActive 0 true,
      .activate 0 (draws 2 1) 0, .fire (draws 2 10), .fire (draws 2 0), .fire (draws 2 0)]).map
      (·.assigned) = some [(0, 2), (0, 1)] := by decide
  obtain ⟨w, hw, hf⟩ := Option.map_eq_some_iff.1 hx
  have := h 100 ueConfig 0 w (Lts.run_of_execs step_of_step? hw) 2 1 (by simp [hf]) (by simp [hf])
  cases this

end E2World

end OranNs3
