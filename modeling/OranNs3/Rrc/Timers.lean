import OranNs3.Rrc.Spec

/-!
# Every transient context has its timeout

A context in `INITIAL_RANDOM_ACCESS`, `CONNECTION_SETUP`, `CONNECTION_REJECTED`, `HANDOVER_JOINING`
or `HANDOVER_LEAVING` waits for a message, and its timeout removes it if the message does not come.
In every run in which no call is stray (`Rrc.isStray`) the pending timeouts are exactly those: one
for each context in such a state, scheduled when it entered the state (`timeouts_pending`). A stray
call breaks this: after a `HANDOVER CANCEL` the context that joins stays without a timeout
(`timeout_lost`).
-/

namespace OranNs3

open Fallible EventQueue Function Keyed List Lts Option

namespace Rrc

/-! ## The invariant -/

/-- The pending timeouts are those of the contexts, and the handles of the contexts are of them. -/
structure TimersOk (r : Rrc) : Prop where
  nodup : (r.ueMap.map UeManager.rnti).Nodup
  handles : ∀ u ∈ r.ueMap, ∀ kind,
    EventQueue.HandleOf (· = Timeout.mk kind u.rnti) r.queue (u.timeouts kind)
  owned : ∀ e ∈ r.queue.pending, ∃ u ∈ r.ueMap, u.rnti = e.ev.rnti ∧
    UeManager.timeoutOf u.state = some e.ev.kind ∧ u.timeouts e.ev.kind = some e.uid
  armed : ∀ u ∈ r.ueMap, ∀ kind, UeManager.timeoutOf u.state = some kind →
    ∃ e ∈ r.queue.pending, e.ev = ⟨kind, u.rnti⟩
  deadline : ∀ e ∈ r.queue.pending, e.ts ≤ r.queue.now + r.cfg.timeoutDuration e.ev.kind

variable {stray : Prop} {r r' : Rrc} {u u' : UeManager} {q : EventQueue Timeout} {rnti : Nat}

variable (cfg : RrcConfig)

theorem timersOk_init : TimersOk (init cfg) where
  nodup := nodup_nil
  handles := nofun
  owned := nofun
  armed := nofun
  deadline := nofun

variable {e : Scheduled Timeout}

theorem TimersOk.owner (h : TimersOk r) (hu : u ∈ r.ueMap)
    (he : e ∈ r.queue.pending) (hr : e.ev.rnti = u.rnti) :
    UeManager.timeoutOf u.state = some e.ev.kind ∧ u.timeouts e.ev.kind = some e.uid := by
  obtain ⟨v, hv, hvr, hs, ht⟩ := h.owned e he
  obtain rfl : v = u := inj_on_of_nodup_map h.nodup hv hu (hvr.trans hr)
  exact ⟨hs, ht⟩

/-! ## A context and its timeouts replaced -/

/-- The queue `q` is that of the RRC without the timeouts of an RNTI. -/
structure Without (r : Rrc) (rnti : Nat) (q : EventQueue Timeout) : Prop where
  later : EventQueue.Later r.queue q
  now_eq : q.now = r.queue.now
  mem_iff : ∀ e, e ∈ q.pending ↔ e ∈ r.queue.pending ∧ e.ev.rnti ≠ rnti

theorem TimersOk.without_stopped (h : TimersOk r) (hu : u ∈ r.ueMap) :
    Without r u.rnti (stopped r.queue u) := by
  cases hk : UeManager.timeoutOf u.state with
  | none =>
    rw [stopped, hk]
    refine ⟨.refl _, rfl, fun e => ⟨fun he => ⟨he, fun hr => ?_⟩, And.left⟩⟩
    have hs := (h.owner hu he hr).1
    rw [hk] at hs
    cases hs
  | some kind =>
    rw [stopped, hk]
    refine ⟨.cancel _, rfl, fun e => ?_⟩
    rw [mem_cancel]
    refine and_congr_right fun he => not_congr ⟨fun ht => ?_, fun hr => ?_⟩
    · rw [((h.handles u hu kind) e.uid ht).2 e he rfl]
    · obtain ⟨hs, ht⟩ := h.owner hu he hr
      rw [hk] at hs
      cases hs
      exact ht

theorem TimersOk.without_cleared (h : TimersOk r) (hu : u ∈ r.ueMap) (hc : Cleared r.queue q u) :
    Without r u.rnti q where
  later := ⟨hc.uid_eq.ge, fun e he => .inl ((hc.mem_iff e).1 he).1⟩
  now_eq := hc.now_eq
  mem_iff := by
    intro e
    rw [hc.mem_iff]
    refine and_congr_right fun he => ⟨fun hne hr => ?_, fun hr kind ht => hr ?_⟩
    · exact hne _ (h.owner hu he hr).2
    · rw [((h.handles u hu kind) e.uid ht).2 e he rfl]

theorem TimersOk.without_new (h : TimersOk r) (hu : rnti ∉ r.ueMap.map UeManager.rnti) :
    Without r rnti r.queue where
  later := .refl _
  now_eq := rfl
  mem_iff := by
    intro e
    refine ⟨fun he => ⟨he, fun hr => hu ?_⟩, And.left⟩
    obtain ⟨v, hv, hvr, -⟩ := h.owned e he
    exact mem_map.2 ⟨v, hv, hvr.trans hr⟩

/-- The context of an RNTI, if any, is replaced by `new`. -/
structure Replaced (r : Rrc) (rnti : Nat) (new : Option UeManager) (r' : Rrc) : Prop where
  nodup : (r'.ueMap.map UeManager.rnti).Nodup
  rnti_eq : ∀ u, new = some u → u.rnti = rnti
  mem_iff : ∀ u, u ∈ r'.ueMap ↔ new = some u ∨ u ∈ r.ueMap ∧ u.rnti ≠ rnti

/-- The timeout that the new context waits for. -/
def newTimeout (new : Option UeManager) : Option TimeoutKind :=
  new.bind fun u => UeManager.timeoutOf u.state

/-- The handles of the new context are those of the old one, but for the timeout just scheduled. -/
def NewHandles (q : EventQueue Timeout) (rnti : Nat) (u : UeManager) : Prop :=
  ∀ kind, (UeManager.timeoutOf u.state = some kind → u.timeouts kind = q.handle) ∧
    (UeManager.timeoutOf u.state ≠ some kind →
      EventQueue.HandleOf (· = Timeout.mk kind rnti) q (u.timeouts kind))

/-- The queue with the timeout of the new context. -/
def withTimeout (q : EventQueue Timeout) (rnti : Nat) (new : Option UeManager) :
    EventQueue Timeout :=
  match newTimeout new with
  | none => q
  | some kind => q.schedule (cfg.timeoutDuration kind) ⟨kind, rnti⟩

theorem later_withTimeout (q : EventQueue Timeout) (rnti : Nat)
    (new : Option UeManager) : Later q (withTimeout cfg q rnti new) := by
  unfold withTimeout
  split
  · exact .refl q
  · exact .schedule _ _

theorem now_withTimeout (q : EventQueue Timeout) (rnti : Nat)
    (new : Option UeManager) : (withTimeout cfg q rnti new).now = q.now := by
  unfold withTimeout
  split <;> rfl

theorem mem_withTimeout {cfg : RrcConfig} {new : Option UeManager} :
    e ∈ (withTimeout cfg q rnti new).pending ↔ e ∈ q.pending ∨ ∃ kind, newTimeout new = some kind ∧
      e = q.entry (cfg.timeoutDuration kind) ⟨kind, rnti⟩ := by
  unfold withTimeout
  split
  · next hn => simp [hn]
  · next kind hn => simp [hn, or_comm]

/-- The invariant after a context is replaced, created or removed and its timers have followed. -/
theorem TimersOk.replace {new : Option UeManager} (h : TimersOk r) (hcfg : r'.cfg = r.cfg)
    (hw : Without r rnti q) (hr : Replaced r rnti new r')
    (hh : ∀ u, new = some u → NewHandles q rnti u) (hq : r'.queue = withTimeout r.cfg q rnti new) :
    TimersOk r' where
  nodup := hr.nodup
  handles := by
    intro u hu kind
    rw [hq]
    rcases (hr.mem_iff u).1 hu with hnew | ⟨hu, -⟩
    · rw [hr.rnti_eq u hnew]
      by_cases hs : UeManager.timeoutOf u.state = some kind
      · have hn : newTimeout new = some kind := by rw [newTimeout, hnew]; exact hs
        rw [((hh u hnew) kind).1 hs, withTimeout, hn]
        exact HandleOf.schedule rfl
      · exact (((hh u hnew) kind).2 hs).later (later_withTimeout _ _ _ _)
    · exact ((h.handles u hu kind).later hw.later).later (later_withTimeout _ _ _ _)
  owned := by
    intro e he
    rw [hq] at he
    rcases mem_withTimeout.1 he with he | ⟨kind, hn, rfl⟩
    · obtain ⟨he, hne⟩ := (hw.mem_iff e).1 he
      obtain ⟨v, hv, hvr, hs, ht⟩ := h.owned e he
      exact ⟨v, (hr.mem_iff v).2 (.inr ⟨hv, fun hv' => hne (hvr ▸ hv')⟩), hvr, hs, ht⟩
    · obtain ⟨u, hnew, hs⟩ := bind_eq_some_iff.1 hn
      exact ⟨u, (hr.mem_iff u).2 (.inl hnew), hr.rnti_eq u hnew, hs, ((hh u hnew) kind).1 hs⟩
  armed := by
    intro u hu kind hs
    rw [hq]
    rcases (hr.mem_iff u).1 hu with hnew | ⟨hu, hne⟩
    · have hn : newTimeout new = some kind := by rw [newTimeout, hnew]; exact hs
      exact ⟨_, mem_withTimeout.2 (.inr ⟨kind, hn, rfl⟩), by rw [hr.rnti_eq u hnew]; rfl⟩
    · obtain ⟨e, he, hev⟩ := h.armed u hu kind hs
      have hne' : e.ev.rnti ≠ rnti := by rw [hev]; exact hne
      exact ⟨e, mem_withTimeout.2 (.inl ((hw.mem_iff e).2 ⟨he, hne'⟩)), hev⟩
  deadline := by
    intro e he
    rw [hq] at he
    rw [hq, hcfg, now_withTimeout, hw.now_eq]
    rcases mem_withTimeout.1 he with he | ⟨kind, hn, rfl⟩
    · exact h.deadline e ((hw.mem_iff e).1 he).1
    · exact (congrArg (· + _) hw.now_eq).le

/-! ## The changes keep the invariant -/

section
variable (h : TimersOk r)
include h

theorem replaced_modify (hu : u ∈ r.ueMap) (hr : u'.rnti = u.rnti)
    (hm : r'.ueMap = Keyed.modify UeManager.rnti u.rnti (fun _ => u') r.ueMap) :
    Replaced r u.rnti (some u') r' where
  nodup := by
    rw [hm, map_modify fun v _ hv => hr.trans hv.symm]
    exact h.nodup
  rnti_eq := by
    intro v hv
    cases hv
    exact hr
  mem_iff := by
    intro v
    rw [hm, mem_modify]
    constructor
    · rintro ⟨w, hw, rfl⟩
      split
      · exact .inl rfl
      · exact .inr ⟨hw, ‹_›⟩
    · rintro (hv | ⟨hv, hne⟩)
      · cases hv
        exact ⟨u, hu, (if_pos rfl).symm⟩
      · exact ⟨v, hv, (if_neg hne).symm⟩

theorem replaced_erase (hm : r'.ueMap = Keyed.erase UeManager.rnti rnti r.ueMap) :
    Replaced r rnti none r' where
  nodup := by
    rw [hm]
    exact nodup_erase h.nodup
  rnti_eq := nofun
  mem_iff := by
    intro v
    rw [hm, mem_erase]
    simp

theorem replaced_cons (hu : u.rnti ∉ r.ueMap.map UeManager.rnti)
    (hm : r'.ueMap = u :: r.ueMap) : Replaced r u.rnti (some u) r' where
  nodup := by
    rw [hm]
    exact nodup_cons.2 ⟨hu, h.nodup⟩
  rnti_eq := by
    intro v hv
    cases hv
    rfl
  mem_iff := by
    intro v
    rw [hm, mem_cons, some.injEq, eq_comm (a := u)]
    refine or_congr_right ⟨fun hv => ⟨hv, fun hr => hu ?_⟩, And.left⟩
    exact mem_map.2 ⟨v, hv, hr⟩

theorem TimersOk.same (hu : u ∈ r.ueMap) (hr : Replaced r u.rnti (some u') r')
    (ht : u'.timeouts = u.timeouts)
    (hs : UeManager.timeoutOf u'.state = UeManager.timeoutOf u.state) (hcfg : r'.cfg = r.cfg)
    (hq : r'.queue = r.queue) : TimersOk r' where
  nodup := hr.nodup
  handles := by
    intro v hv kind
    rw [hq]
    rcases (hr.mem_iff v).1 hv with hnew | ⟨hv, -⟩
    · rw [hr.rnti_eq v hnew]
      cases hnew
      rw [ht]
      exact h.handles u hu kind
    · exact h.handles v hv kind
  owned := by
    intro e he
    rw [hq] at he
    by_cases hne : e.ev.rnti = u.rnti
    · obtain ⟨hs', ht'⟩ := h.owner hu he hne
      exact ⟨u', (hr.mem_iff u').2 (.inl rfl), (hr.rnti_eq u' rfl).trans hne.symm, hs.trans hs',
        ht ▸ ht'⟩
    · obtain ⟨v, hv, hvr, hs', ht'⟩ := h.owned e he
      exact ⟨v, (hr.mem_iff v).2 (.inr ⟨hv, fun hv' => hne (hvr ▸ hv')⟩), hvr, hs', ht'⟩
  armed := by
    intro v hv kind hk
    rw [hq]
    rcases (hr.mem_iff v).1 hv with hnew | ⟨hv, -⟩
    · rw [hr.rnti_eq v hnew]
      cases hnew
      exact h.armed u hu kind (hs ▸ hk)
    · exact h.armed v hv kind hk
  deadline := by
    rw [hq, hcfg]
    exact h.deadline

theorem TimersOk.handles_without (hu : u ∈ r.ueMap) (hw : Without r u.rnti q) (kind : TimeoutKind) :
    HandleOf (· = Timeout.mk kind u.rnti) q (u.timeouts kind) :=
  (h.handles u hu kind).later hw.later

theorem timersOk_change (hcfg : r'.cfg = r.cfg) (hc : Change stray r r')
    (hs : ¬ stray) : TimersOk r' := by
  cases hc with
  | keep hm hq =>
    obtain ⟨h1, h2, h3, h4, h5⟩ := h
    rw [← hm] at h1 h2 h3 h4
    rw [← hq] at h2 h3 h4 h5
    rw [← hcfg] at h5
    exact ⟨h1, h2, h3, h4, h5⟩
  | set u u' hu hr _ hm hq =>
    have hmem : u ∈ r.ueMap := Keyed.mem_of_find? hu
    have hrep := replaced_modify h hmem hr hm
    have hw := h.without_stopped hmem
    generalize hq' : r'.queue = q' at hq
    cases hq with
    | same ht hs => exact h.same hmem hrep ht hs hcfg hq'
    | stop ht hs =>
      refine h.replace hcfg hw hrep (fun v hv kind => ?_) ?_
      · cases hv
        refine ⟨fun hk => ?_, fun _ => ?_⟩
        · rw [hs] at hk
          cases hk
        · rw [ht]
          exact h.handles_without hmem hw kind
      · rw [hq', withTimeout, newTimeout, bind_some, hs]
    | start kind hs ht =>
      refine h.replace hcfg hw hrep (fun v hv k => ?_) ?_
      · cases hv
        rw [hs, ht]
        refine ⟨fun hk => ?_, fun hk => ?_⟩
        · cases hk
          exact update_self _ _ _
        · have hne : k ≠ kind := fun he => hk (congrArg some he.symm)
          rw [update_of_ne hne]
          exact h.handles_without hmem hw k
      · rw [hq', withTimeout, newTimeout, bind_some, hs]
  | add u kind hu _ _ hs ht hm hq =>
    have hnew : u.rnti ∉ r.ueMap.map UeManager.rnti := find?_eq_none.1 hu
    refine h.replace hcfg (h.without_new hnew) (replaced_cons h hnew hm) (fun v hv k => ?_) ?_
    · cases hv
      rw [hs, ht]
      refine ⟨fun hk => ?_, fun hk => ?_⟩
      · cases hk
        exact update_self _ _ _
      · have hne : k ≠ kind := fun he => hk (congrArg some he.symm)
        rw [update_of_ne hne]
        exact .none _
    · rw [hq, withTimeout, newTimeout, bind_some, hs]
  | remove u hu hm hq =>
    have hmem : u ∈ r.ueMap := Keyed.mem_of_find? hu
    exact h.replace hcfg (h.without_cleared hmem hq) (replaced_erase h hm) nofun rfl
  | stray hbad => exact absurd hbad hs

theorem later_change (hc : Change stray r r') (hs : ¬ stray) : Later r.queue r'.queue := by
  cases hc with
  | keep _ hq => rw [hq]; exact .refl _
  | set u u' hu _ _ _ hq =>
    have hlater := (h.without_stopped (Keyed.mem_of_find? hu)).later
    generalize r'.queue = q' at hq
    cases hq with
    | same => exact .refl _
    | stop => exact hlater
    | start => exact hlater.trans (.schedule _ _)
  | add u _ _ _ _ _ _ _ hq => rw [hq]; exact .schedule _ _
  | remove u hu _ hq => exact (h.without_cleared (Keyed.mem_of_find? hu) hq).later
  | stray hbad => exact absurd hbad hs

theorem timersOk_changes (hc : Changes stray r r') (hs : ¬ stray) :
    TimersOk r' ∧ r'.cfg = r.cfg ∧ Later r.queue r'.queue := by
  refine hc.invariant (I := fun r' => TimersOk r' ∧ r'.cfg = r.cfg ∧
    Later r.queue r'.queue) (fun h hcfg hc => ?_) ⟨h, rfl, .refl _⟩
  obtain ⟨hok, hcfg', hlater⟩ := h
  exact ⟨timersOk_change hok hcfg hc hs, hcfg.trans hcfg', hlater.trans (later_change hok hc hs)⟩

end

/-! ## Runs -/

theorem TimersOk.advance (h : TimersOk r) {t : Nat} (hq : r.queue.advance? t = some q) :
    TimersOk (r.setQueue q) := by
  obtain ⟨hp, hnow, huid, hle⟩ := advance?_eq_some hq
  have hlater := Later.advance? hq
  refine ⟨h.nodup, fun u hu kind => (h.handles u hu kind).later hlater, ?_, ?_, ?_⟩
  · change ∀ e ∈ q.pending, _
    rw [hp]
    exact h.owned
  · intro u hu kind hs
    change ∃ e ∈ q.pending, _
    rw [hp]
    exact h.armed u hu kind hs
  · intro e he
    change e ∈ q.pending at he
    rw [hp] at he
    have := h.deadline e he
    change e.ts ≤ q.now + r.cfg.timeoutDuration e.ev.kind
    omega

/-- Runs without stray calls. -/
def NotStray (r : Rrc) : RrcAction → Prop
  | .call _ c => ¬ r.isStray c = true
  | .timer => True

instance (r : Rrc) : ∀ a, Decidable (NotStray r a)
  | .call _ _ => inferInstanceAs (Decidable ¬ _)
  | .timer => inferInstanceAs (Decidable True)

theorem TimersOk.timer (h : TimersOk r) (hnext : r.queue.next? = some (e, q)) :
    Spec (fun _ => True) (fun r' => TimersOk r' ∧ r'.cfg = r.cfg ∧
      Later r.queue r'.queue) ((r.setQueue q).timeout e.ev) := by
  obtain ⟨q₁, hadv, rfl⟩ := next?_eq_cancel hnext
  obtain ⟨u, hu, hr, hs, ht⟩ := h.owned e (next?_mem hnext)
  have hok := h.advance hadv
  have hfind : Rrc.findUe (r.setQueue q₁) u.rnti = some u := find?_of_mem h.nodup hu
  have hhalt : Halted (r.setQueue q₁) u (r.setQueue (q₁.cancel (some e.uid))) :=
    ⟨rfl, rfl, .inr ⟨e.ev.kind, by rw [ht]; rfl⟩⟩
  have hdoes : Does False (r.setQueue q₁) ((r.setQueue (q₁.cancel (some e.uid))).timeout e.ev) :=
    does_timeout_of_halted hfind hhalt hr.symm
  refine hdoes.imp fun r' hc => ?_
  obtain ⟨hok', hcfg, hlater⟩ := timersOk_changes hok hc id
  exact ⟨hok', hcfg, (Later.advance? hadv).trans hlater⟩

theorem timersOk_step {a : RrcAction} (h : TimersOk r) (ha : NotStray r a) (hst : Step r a r') :
    TimersOk r' ∧ r'.cfg = r.cfg ∧ Later r.queue r'.queue := by
  cases a with
  | call t c =>
    obtain ⟨q, hq, hcall⟩ := map_eq_some_iff.1 hst
    have hc := (does_call (r.setQueue q) c).ok hcall
    obtain ⟨hok, hcfg, hlater⟩ := timersOk_changes (h.advance hq) hc ha
    exact ⟨hok, hcfg, (Later.advance? hq).trans hlater⟩
  | timer =>
    obtain ⟨⟨e, q⟩, hnext, htimeout⟩ := map_eq_some_iff.1 hst
    exact (h.timer hnext).ok htimeout

theorem timersOk_run (h : TimersOk r) (hrun : Run Step NotStray r r') :
    TimersOk r' ∧ r'.cfg = r.cfg ∧ Later r.queue r'.queue := by
  refine Run.invariant (I := fun r' => TimersOk r' ∧ r'.cfg = r.cfg ∧
    Later r.queue r'.queue) (fun {s t a} hs ha hst => ?_) ⟨h, rfl, .refl _⟩ hrun
  obtain ⟨hok, hcfg, hlater⟩ := hs
  obtain ⟨hok', hcfg', hlater'⟩ := timersOk_step hok ha hst
  exact ⟨hok', hcfg'.trans hcfg, hlater.trans hlater'⟩

/-! ## The timeouts of a context -/

/-- The pending timeouts of an RNTI. -/
def timeoutsOf (r : Rrc) (rnti : Nat) : List Timeout :=
  (r.queue.pending.filter fun e => e.ev.rnti == rnti).map (·.ev)

/-- Each context has exactly the timeout of its state pending, and each pending timeout is one that
a context with its RNTI has scheduled and holds. -/
structure TimeoutsRight (r : Rrc) : Prop where
  own : ∀ u ∈ r.ueMap,
    r.timeoutsOf u.rnti = (UeManager.timeoutOf u.state).toList.map (⟨·, u.rnti⟩)
  live : ∀ e ∈ r.queue.pending, ∃ u ∈ r.ueMap, u.rnti = e.ev.rnti ∧
    u.timeouts e.ev.kind = some e.uid

theorem TimersOk.timeout_unique (h : TimersOk r) (hu : u ∈ r.ueMap) {e e' : Scheduled Timeout}
    (he : e ∈ r.queue.pending) (hr : e.ev.rnti = u.rnti) (he' : e' ∈ r.queue.pending)
    (hr' : e'.ev.rnti = u.rnti) : e = e' := by
  obtain ⟨hs, ht⟩ := h.owner hu he hr
  obtain ⟨hs', ht'⟩ := h.owner hu he' hr'
  have hkind : e.ev.kind = e'.ev.kind := some.inj (hs.symm.trans hs')
  refine uid_inj he he' (some.inj ?_)
  rw [← ht, ← ht', hkind]

theorem TimersOk.timeoutsOf_eq (h : TimersOk r) (hu : u ∈ r.ueMap) :
    r.timeoutsOf u.rnti = (UeManager.timeoutOf u.state).toList.map (⟨·, u.rnti⟩) := by
  have hmem : ∀ e, e ∈ (r.queue.pending.filter fun e => e.ev.rnti == u.rnti) ↔
      e ∈ r.queue.pending ∧ e.ev.rnti = u.rnti := by
    intro e
    rw [mem_filter, beq_iff_eq]
  have hnodup : (r.queue.pending.filter fun e => e.ev.rnti == u.rnti).Nodup :=
    (Nodup.of_map _ r.queue.nodup).filter _
  rw [timeoutsOf]
  generalize (r.queue.pending.filter fun e => e.ev.rnti == u.rnti) = l at hmem hnodup
  cases hs : UeManager.timeoutOf u.state with
  | none =>
    -- a timeout of the context would be that of its state
    have hnil : l = [] := by
      refine eq_nil_iff_forall_not_mem.2 fun e he => ?_
      obtain ⟨he, hr⟩ := (hmem e).1 he
      have hk := (h.owner hu he hr).1
      rw [hs] at hk
      cases hk
    rw [hnil]
    rfl
  | some kind =>
    obtain ⟨e, he, hev⟩ := h.armed u hu kind hs
    have hr : e.ev.rnti = u.rnti := by rw [hev]
    have hall : ∀ e' ∈ l, e' = e := by
      intro e' he'
      obtain ⟨he', hr'⟩ := (hmem e').1 he'
      exact h.timeout_unique hu he' hr' he hr
    have hone : l = [e] := by
      refine perm_singleton.1 ((perm_ext_iff_of_nodup hnodup (nodup_singleton e)).2 fun e' => ?_)
      rw [mem_singleton]
      exact ⟨hall e', fun he' => he' ▸ (hmem e).2 ⟨he, hr⟩⟩
    rw [hone]
    exact congrArg (fun t => [t]) hev

theorem TimersOk.right (h : TimersOk r) : TimeoutsRight r where
  own := fun _ hu => h.timeoutsOf_eq hu
  live := by
    intro e he
    obtain ⟨u, hu, hr, -, ht⟩ := h.owned e he
    exact ⟨u, hu, hr, ht⟩

/-- In every run without stray calls each transient context has exactly its own timeout pending,
every other context none, and no timeout is left of a removed context. -/
theorem timeouts_pending {cfg : RrcConfig} (h : Lts.Run Step NotStray (init cfg) r) :
    TimeoutsRight r ∧ ∀ r', Lts.Run Step NotStray r r' → ∀ u ∈ r.ueMap, ∀ u' ∈ r'.ueMap,
      ∀ kind, UeManager.timeoutOf u.state = some kind → UeManager.timeoutOf u'.state = some kind →
      u'.timeouts kind = u.timeouts kind →
      r'.queue.now ≤ r.queue.now + cfg.timeoutDuration kind := by
  obtain ⟨hok, hcfg, -⟩ := timersOk_run (timersOk_init cfg) h
  refine ⟨hok.right, fun r' hrun u hu u' hu' kind hs hs' ht => ?_⟩
  obtain ⟨hok', -, hlater⟩ := timersOk_run hok hrun
  obtain ⟨e, he, hev⟩ := hok.armed u hu kind hs
  obtain ⟨e', he', hev'⟩ := hok'.armed u' hu' kind hs'
  -- the handle is that of one timeout, which was pending already
  have huid : some e'.uid = some e.uid := by
    have h1 := (hok.owner hu he (by rw [hev])).2
    have h2 := (hok'.owner hu' he' (by rw [hev'])).2
    rw [hev] at h1
    rw [hev', ht] at h2
    exact h2.symm.trans h1
  have hsame : e' = e := by
    rcases hlater.old_or_new e' he' with hold | hnew
    · exact uid_inj hold he (some.inj huid)
    · have hlt := r.queue.uid_lt e he
      have hu := some.inj huid
      omega
  have hnow := r'.queue.now_le e' he'
  have hdead := hok.deadline e he
  rw [hev] at hdead
  rw [hcfg] at hdead
  rw [hsame] at hnow
  exact hnow.trans hdead

/-- A UE joins a cell by a handover and its connection is complete. -/
theorem timeouts_pending_joined : ∃ r, Lts.Run Step NotStray (init (.single 1 2)) r ∧
    r.ueMap.map UeManager.state = [.handoverPathSwitch] ∧ r.queue.now = 30 ∧ TimeoutsRight r := by
  have hrun : ((execs NotStray step? (init (.single 1 2))
      [.call 10 (.recvX2 2 .plenty (.handoverRequest 7 1 42 [⟨1, ⟨9, true⟩, 5⟩])),
        .call 30 (.recvRrcConnectionReconfigurationCompleted 1)]).map fun r =>
          (r.ueMap.map UeManager.state, r.queue.now)) = some ([.handoverPathSwitch], 30) := by
    decide
  obtain ⟨r, hr, hv⟩ := map_eq_some_iff.1 hrun
  have hsafe : Run Step NotStray (init (.single 1 2)) r := run_of_execs step_of_step? hr
  exact ⟨r, hsafe, congrArg Prod.fst hv, congrArg Prod.snd hv, (timeouts_pending hsafe).1⟩

/-- The source cancels a handover: the context that joins stays in `HANDOVER_JOINING`, and nothing
is left to remove it. -/
theorem timeout_lost : ∃ r, Reachable (.single 1 2) r ∧
    r.ueMap.map UeManager.state = [.handoverJoining] ∧ r.queue.pending = [] ∧
    ¬ TimeoutsRight r := by
  have hrun : ((execs anyStep step? (init (.single 1 2))
      [.call 10 (.recvX2 2 .plenty (.handoverRequest 7 1 42 [⟨1, ⟨9, true⟩, 5⟩])),
        .call 30 (.recvX2 2 .plenty (.handoverCancel 7 1))]).map fun r =>
          (r.ueMap.map UeManager.state, r.queue.pending.length)) =
      some ([.handoverJoining], 0) := by decide
  obtain ⟨r, hr, hv⟩ := map_eq_some_iff.1 hrun
  obtain ⟨hstate, hlen⟩ := Prod.mk.inj hv
  have hnil : r.queue.pending = [] := eq_nil_of_length_eq_zero hlen
  refine ⟨r, run_of_execs step_of_step? hr, hstate, hnil, fun hright => ?_⟩
  obtain ⟨u, l, hu⟩ : ∃ u l, r.ueMap = u :: l := exists_cons_of_ne_nil fun hnone => by
    rw [hnone] at hstate
    cases hstate
  have hs : u.state = .handoverJoining := by
    rw [hu] at hstate
    exact (cons.inj hstate).1
  have hown := hright.own u (hu ▸ mem_cons_self)
  rw [timeoutsOf, hnil, hs] at hown
  cases hown

end Rrc

end OranNs3
