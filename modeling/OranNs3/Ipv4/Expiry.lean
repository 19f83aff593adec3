import OranNs3.Ipv4.Partial
import OranNs3.Lib.EventQueue

/-!
# The expiry of fragments

`ProcessFragment` with its timeouts, `HandleFragmentsTimeout`, `SetTimeout` and `HandleTimeout` of
`src/src/internet/model/ipv4-l3-protocol.cc`, on a queue of scheduled calls of `HandleTimeout`. An
element of the list of timeouts is known by a number, which stands for the iterators to it; where
the source would use an invalid one, there is no result.

One call of `HandleTimeout` leads to the next while the list is not empty. A fragment that comes
when a call is still pending, but the list has become empty, starts a second chain of calls
(`Collides`).
-/

namespace OranNs3.Ipv4.Expiry

open EventQueue Function List Option

/-- The only scheduled call. -/
inductive Event
  | handleTimeout
deriving DecidableEq

/-- An element of `m_timeoutEventList`. -/
structure Timeout where
  iter : Nat
  time : Nat
  key : UInt64 × UInt32
  ipHeader : Ipv4Header
  iif : UInt32
deriving DecidableEq

/-- `Fragments` with its iterator. -/
structure Datagram where
  fragments : Fragments
  timeoutIter : Nat
deriving DecidableEq

/-- A call of `m_dropTrace`. -/
structure Drop where
  time : Nat
  timeout : Timeout
  packet : Option (List UInt8)
deriving DecidableEq

/-- The protocol and the scheduled calls; with the timeouts that were set, and when, and those that
were erased. -/
structure State where
  queue : EventQueue Event := .empty
  fragments : UInt64 × UInt32 → Option Datagram := fun _ => none
  timeoutEventList : List Timeout := []
  timeoutEvent : EventId := none
  nextIter : Nat := 0
  drops : List Drop := []
  started : List (Nat × Timeout) := []
  completed : List Timeout := []

namespace State

variable (s : State)

/-- A call is scheduled, and `m_timeoutEvent` is set. -/
def schedule (delay : Nat) : State :=
  { s with queue := s.queue.schedule delay .handleTimeout, timeoutEvent := s.queue.handle }

variable (expirationTimeout : Nat)

def setTimeout (key : UInt64 × UInt32) (ipHeader : Ipv4Header) (iif : UInt32) : State × Nat :=
  let timeout : Timeout := ⟨s.nextIter, s.queue.now + expirationTimeout, key, ipHeader, iif⟩
  let s' := if s.timeoutEventList = [] then s.schedule expirationTimeout else s
  ({ s' with
    timeoutEventList := s.timeoutEventList ++ [timeout]
    nextIter := s.nextIter + 1
    started := s.started ++ [(s.queue.now, timeout)] }, s.nextIter)

/-- The first part of `ProcessFragment`: the fragments of the key, which are created where there are
none. -/
def findFragments (a : Ipv4Packet) (iif : UInt32) : State × Datagram :=
  match s.fragments a.2.key with
  | some fragments => (s, fragments)
  | none =>
    let (s', iter) := s.setTimeout expirationTimeout a.2.key a.2 iif
    let fragments : Datagram := ⟨.new, iter⟩
    ({ s' with fragments := Function.update s.fragments a.2.key (some fragments) }, fragments)

/-- An element of the list of timeouts is erased through its iterator. -/
def eraseTimeout (iter : Nat) : Option State :=
  (s.timeoutEventList.find? (·.iter = iter)).map fun timeout =>
    { s with
      timeoutEventList := s.timeoutEventList.filter (·.iter ≠ iter)
      completed := s.completed ++ [timeout] }

/-- `ProcessFragment`, with the packet where it is complete. -/
def processFragment (a : Ipv4Packet) (iif : UInt32) :
    Option (State × Option (Option (List UInt8))) :=
  let (s', datagram) := s.findFragments expirationTimeout a iif
  let fragments := datagram.fragments.addFragment a.1 a.2.fragmentOffset a.2.moreFragments
  if fragments.isEntire then
    (s'.eraseTimeout datagram.timeoutIter).map fun s' =>
      ({ s' with fragments := Function.update s'.fragments a.2.key none }, some fragments.getPacket)
  else
    some ({ s' with
      fragments := Function.update s'.fragments a.2.key (some { datagram with fragments }) }, none)

def handleFragmentsTimeout (timeout : Timeout) : Option State :=
  (s.fragments timeout.key).map fun datagram =>
    { s with
      fragments := Function.update s.fragments timeout.key none
      drops := s.drops ++ [⟨s.queue.now, timeout, datagram.fragments.getPartialPacket⟩] }

/-- The loop of `HandleTimeout`, over the list of timeouts. -/
def expire : List Timeout → State → Option State
  | [], s => some { s with timeoutEventList := [] }
  | timeout :: l, s =>
    if timeout.time = s.queue.now then (s.handleFragmentsTimeout timeout).bind (expire l)
    else some { s with timeoutEventList := timeout :: l }

/-- The end of `HandleTimeout`: the next call, which is not before now. -/
def reschedule : Option State :=
  match s.timeoutEventList with
  | [] => some s
  | timeout :: _ =>
    if s.queue.now ≤ timeout.time then some (s.schedule (timeout.time - s.queue.now)) else none

def handleTimeout : Option State := (expire s.timeoutEventList s).bind reschedule

end State

/-- A fragment comes, or the next scheduled call is made. -/
inductive Action
  | fragment (time : Nat) (a : Ipv4Packet) (iif : UInt32)
  | next
deriving DecidableEq

/-- An action. -/
def step (expirationTimeout : Nat) (s : State) : Action → Option State
  | .fragment time a iif => (s.queue.advance? time).bind fun queue =>
    (({ s with queue } : State).processFragment expirationTimeout a iif).map Prod.fst
  | .next => s.queue.next?.bind fun r => match r.1.ev with
    | .handleTimeout => ({ s with queue := r.2 } : State).handleTimeout

/-- The actions one after the other. -/
def run (expirationTimeout : Nat) (as : List Action) : Option State :=
  as.foldlM (step expirationTimeout) {}

/-- A fragment of a new datagram comes when the list is empty, and a call is still pending. -/
def Collides (s : State) : Action → Prop
  | .fragment _ a _ => s.fragments a.2.key = none ∧ s.timeoutEventList = [] ∧ s.queue.pending ≠ []
  | .next => False

/-! ## What is kept -/

/-- The elements of the list are the timeouts of the incomplete datagrams, in the order of their
times, of which none has passed. Each timeout that was set is in the list, or was erased, or was
dropped at its time. -/
structure Kept (expirationTimeout : Nat) (s : State) : Prop where
  sorted : s.timeoutEventList.Pairwise (·.time ≤ ·.time)
  now_le : ∀ e ∈ s.timeoutEventList, s.queue.now ≤ e.time ∧ e.time ≤ s.queue.now + expirationTimeout
  started : ((s.started.map Prod.snd).Perm (s.timeoutEventList ++ s.completed ++ s.drops.map
    Drop.timeout))
  iter_lt : ∀ r ∈ s.started, r.2.iter < s.nextIter
  nodup : (s.started.map (·.2.iter)).Nodup
  time_eq : ∀ r ∈ s.started, r.2.time = r.1 + expirationTimeout
  drop_time : ∀ d ∈ s.drops, d.time = d.timeout.time
  datagram : ∀ e ∈ s.timeoutEventList, ∃ d, s.fragments e.key = some d ∧ d.timeoutIter = e.iter
  timeout : ∀ key d, s.fragments key = some d → ∃ e ∈ s.timeoutEventList, e.key = key ∧
    e.iter = d.timeoutIter

/-- A call is scheduled for each element of the list, or for one before. -/
def Armed (s : State) : Prop := ∀ e ∈ s.timeoutEventList, ∃ x ∈ s.queue.pending, x.ts ≤ e.time

section
variable {expirationTimeout : Nat} {s s' : State} {e : Timeout} {l : List Timeout} {a : Ipv4Packet}
  {iif : UInt32}

theorem kept_init : Kept expirationTimeout {} where
  sorted := .nil
  now_le := nofun
  started := .refl _
  iter_lt := nofun
  nodup := .nil
  time_eq := nofun
  drop_time := nofun
  datagram := nofun
  timeout := nofun

section
variable (h : Kept expirationTimeout s)
include h

theorem Kept.iter_nodup : (s.timeoutEventList.map Timeout.iter).Nodup := by
  have hmap : ((s.started.map Prod.snd).map Timeout.iter).Nodup := by
    rw [List.map_map]
    exact h.nodup
  have hall := (h.started.map Timeout.iter).nodup_iff.mp hmap
  rw [map_append, map_append] at hall
  exact (nodup_append.mp (nodup_append.mp hall).1).1

theorem Kept.key_inj {e' : Timeout} (he : e ∈ s.timeoutEventList)
    (he' : e' ∈ s.timeoutEventList) (hkey : e'.key = e.key) : e' = e := by
  obtain ⟨d, hd, hiter⟩ := h.datagram e he
  obtain ⟨d', hd', hiter'⟩ := h.datagram e' he'
  rw [hkey, hd] at hd'
  cases hd'
  exact inj_on_of_nodup_map h.iter_nodup he' he (hiter'.symm.trans hiter)

theorem Kept.queue {queue : EventQueue Event} (hnow : s.queue.now ≤ queue.now)
    (hle : ∀ e ∈ s.timeoutEventList, queue.now ≤ e.time) :
    Kept expirationTimeout { s with queue } :=
  { h with now_le := fun e he => ⟨hle e he, (h.now_le e he).2.trans (Nat.add_le_add_right hnow _)⟩ }

theorem Kept.schedule (delay : Nat) : Kept expirationTimeout (s.schedule delay) :=
  { h with }

variable {key : UInt64 × UInt32}

theorem Kept.update {d d' : Datagram}
    (hd : s.fragments key = some d) (hiter : d'.timeoutIter = d.timeoutIter) :
    Kept expirationTimeout { s with fragments := Function.update s.fragments key (some d') } :=
  { h with
    datagram := by
      intro e he
      obtain ⟨d₁, hd₁, hiter₁⟩ := h.datagram e he
      by_cases hkey : e.key = key
      · rw [hkey, hd] at hd₁
        cases hd₁
        exact ⟨d', by rw [hkey]; exact update_self _ _ _, hiter.trans hiter₁⟩
      · exact ⟨d₁, (update_of_ne hkey _ _).trans hd₁, hiter₁⟩
    timeout := by
      intro key' d₁ (hd₁ : Function.update s.fragments key (some d') key' = some d₁)
      by_cases hkey : key' = key
      · rw [hkey] at hd₁ ⊢
        rw [update_self] at hd₁
        cases hd₁
        rw [hiter]
        exact h.timeout key d hd
      · rw [update_of_ne hkey] at hd₁
        exact h.timeout key' d₁ hd₁ }

/-- A datagram and its timeout are removed, which is then among those that were erased or dropped.
-/
theorem Kept.remove {completed : List Timeout} {drops : List Drop}
    (hsub : l.Sublist s.timeoutEventList) (hperm : s.timeoutEventList.Perm (e :: l))
    (hlog : (completed ++ drops.map Drop.timeout).Perm
      (e :: (s.completed ++ s.drops.map Drop.timeout)))
    (hdrop : ∀ d ∈ drops, d.time = d.timeout.time) :
    Kept expirationTimeout { s with
      timeoutEventList := l, completed, drops, fragments :=
        Function.update s.fragments e.key none } :=
  have hmem {e' : Timeout} : e' ∈ s.timeoutEventList ↔ e' = e ∨ e' ∈ l :=
    hperm.mem_iff.trans mem_cons
  have he : e ∉ l := by
    have hnodup := (hperm.map Timeout.iter).nodup_iff.mp h.iter_nodup
    exact fun hl => (nodup_cons.mp hnodup).1 (mem_map_of_mem hl)
  { h with
    sorted := h.sorted.sublist hsub
    now_le := fun e' he' => h.now_le e' (hsub.subset he')
    drop_time := hdrop
    started := by
      refine h.started.trans ?_
      rw [append_assoc, append_assoc]
      exact ((hperm.append_right _).trans (perm_middle.symm)).trans (hlog.symm.append_left l)
    datagram := by
      intro e' he'
      obtain ⟨d, hd, hiter⟩ := h.datagram e' (hmem.mpr (.inr he'))
      have hkey : e'.key ≠ e.key := by
        intro hkey
        rw [h.key_inj (hmem.mpr (.inl rfl)) (hmem.mpr (.inr he')) hkey] at he'
        exact he he'
      exact ⟨d, (update_of_ne hkey _ _).trans hd, hiter⟩
    timeout := by
      intro key d (hd : Function.update s.fragments e.key none key = some d)
      by_cases hkey : key = e.key
      · rw [hkey, update_self] at hd
        exact absurd hd nofun
      · rw [update_of_ne hkey] at hd
        obtain ⟨e', he', hkey', hiter⟩ := h.timeout key d hd
        rcases hmem.mp he' with rfl | he'
        · exact absurd hkey'.symm hkey
        · exact ⟨e', he', hkey', hiter⟩ }

end

/-! ## A fragment comes -/

/-- A datagram is created with its timeout, behind the others. -/
theorem Kept.start (h : Kept expirationTimeout s) (hkey : s.fragments key = none)
    (ipHeader : Ipv4Header) (iif : UInt32) (f : Fragments) :
    Kept expirationTimeout { s with
      timeoutEventList :=
        s.timeoutEventList ++ [⟨s.nextIter, s.queue.now + expirationTimeout, key, ipHeader, iif⟩]
      nextIter := s.nextIter + 1
      started :=
        s.started ++ [(s.queue.now, ⟨s.nextIter, s.queue.now + expirationTimeout, key, ipHeader,
          iif⟩)]
      fragments := Function.update s.fragments key (some ⟨f, s.nextIter⟩) } where
  sorted := by
    refine pairwise_append.mpr ⟨h.sorted, pairwise_singleton _ _, fun e he e' he' => ?_⟩
    rw [mem_singleton.mp he']
    exact (h.now_le e he).2
  now_le := by
    intro e he
    rcases mem_append.mp he with he | he
    · exact h.now_le e he
    · rw [mem_singleton.mp he]
      exact ⟨Nat.le_add_right _ _, le_rfl⟩
  started := by
    have hmove (l : List Timeout) (e : Timeout) : (l ++ [e]).Perm ([e] ++ l) := perm_append_comm
    have hall :=
      (h.started.append_right [⟨s.nextIter, s.queue.now + expirationTimeout, key, ipHeader, iif⟩])
    rw [append_assoc, append_assoc, ← append_assoc s.completed] at hall
    rw [map_append, append_assoc, append_assoc]
    exact hall.trans ((hmove _ _).append_left _)
  iter_lt := by
    intro r hr
    rcases mem_append.mp hr with hr | hr
    · exact (h.iter_lt r hr).trans (Nat.lt_succ_self _)
    · rw [mem_singleton.mp hr]
      exact Nat.lt_succ_self _
  nodup := by
    rw [map_append]
    refine nodup_append.mpr ⟨h.nodup, nodup_singleton _, fun i hi i' hi' => ?_⟩
    obtain ⟨r, hr, rfl⟩ := mem_map.mp hi
    rw [mem_singleton.mp hi']
    exact (h.iter_lt r hr).ne
  time_eq := by
    intro r hr
    rcases mem_append.mp hr with hr | hr
    · exact h.time_eq r hr
    · rw [mem_singleton.mp hr]
  drop_time := h.drop_time
  datagram := by
    intro e he
    rcases mem_append.mp he with he | he
    · obtain ⟨d, hd, hiter⟩ := h.datagram e he
      have hne : e.key ≠ key := by
        intro heq
        rw [heq, hkey] at hd
        exact absurd hd nofun
      exact ⟨d, (update_of_ne hne _ _).trans hd, hiter⟩
    · rw [mem_singleton.mp he]
      exact ⟨_, update_self _ _ _, rfl⟩
  timeout := by
    intro key' d (hd : Function.update s.fragments key (some ⟨f, s.nextIter⟩) key' = some d)
    by_cases hne : key' = key
    · rw [hne, update_self] at hd
      cases hd
      exact ⟨_, mem_append_right _ (mem_singleton_self _), hne.symm, rfl⟩
    · rw [update_of_ne hne] at hd
      obtain ⟨e, he, hkey', hiter⟩ := h.timeout key' d hd
      exact ⟨e, mem_append_left _ he, hkey', hiter⟩

variable (a iif) in
theorem findFragments_spec (h : Kept expirationTimeout s) (ha : Armed s) :
    ∃ s' d, s.findFragments expirationTimeout a iif = (s', d) ∧ Kept expirationTimeout s' ∧
      Armed s' ∧ s'.fragments a.2.key = some d ∧
      (s'.queue = if s.fragments a.2.key = none ∧ s.timeoutEventList = [] then
        s.queue.schedule expirationTimeout .handleTimeout else s.queue) := by
  rw [State.findFragments]
  cases hkey : s.fragments a.2.key with
  | some d => exact ⟨s, d, rfl, h, ha, hkey,
      (if_neg fun hnone => absurd hnone.1 (some_ne_none d)).symm⟩
  | none =>
    rw [State.setTimeout]
    by_cases hnil : s.timeoutEventList = []
    · rw [if_pos hnil, if_pos ⟨rfl, hnil⟩]
      refine ⟨_, _, rfl, (h.schedule expirationTimeout).start hkey a.2 iif .new, ?_,
      update_self _ _ _, rfl⟩
      intro e he
      rw [hnil, nil_append, mem_singleton] at he
      exact ⟨_, EventQueue.mem_schedule.mpr (.inl rfl), by rw [he]; exact le_rfl⟩
    · rw [if_neg hnil, if_neg fun hnone => hnil hnone.2]
      refine ⟨_, _, rfl, h.start hkey a.2 iif .new, ?_, update_self _ _ _, rfl⟩
      intro e he
      obtain ⟨e', he'⟩ := exists_mem_of_ne_nil _ hnil
      rcases mem_append.mp he with he | he
      · exact ha e he
      · obtain ⟨x, hx, hle⟩ := ha e' he'
        rw [mem_singleton] at he
        exact ⟨x, hx, hle.trans (by rw [he]; exact (h.now_le e' he').2)⟩

theorem perm_erase : ∀ {l : List Timeout}, (l.map Timeout.iter).Nodup → e ∈ l →
    l.Perm (e :: l.filter (·.iter ≠ e.iter))
  | [], _, he => absurd he not_mem_nil
  | e' :: l, hl, he => by
    obtain ⟨hnot, hl⟩ := nodup_cons.mp hl
    rcases mem_cons.mp he with rfl | he
    · rw [filter_cons_of_neg (by simp), filter_eq_self.mpr]
      intro e' he'
      have hne : e'.iter ≠ e.iter := fun heq => hnot (heq ▸ mem_map_of_mem he')
      exact decide_eq_true hne
    · have hne : e'.iter ≠ e.iter := fun heq => hnot (heq ▸ mem_map_of_mem he)
      rw [filter_cons_of_pos (by simpa using hne)]
      exact ((perm_erase hl he).cons e').trans (.swap _ _ _)

theorem Kept.eraseTimeout (h : Kept expirationTimeout s) (ha : Armed s) {d : Datagram}
    (hd : s.fragments key = some d) : ∃ s', s.eraseTimeout d.timeoutIter = some s' ∧
      Kept expirationTimeout { s' with fragments := Function.update s'.fragments key none } ∧
      Armed { s' with fragments := Function.update s'.fragments key none } ∧
        s'.queue = s.queue := by
  obtain ⟨e, he, rfl, hiter⟩ := h.timeout key d hd
  have hfind : s.timeoutEventList.find? (·.iter = d.timeoutIter) = some e := by
    cases hfind : s.timeoutEventList.find? (·.iter = d.timeoutIter) with
    | none => exact absurd (find?_eq_none.mp hfind e he) (by simpa using hiter)
    | some e' =>
      have hiter' : e'.iter = d.timeoutIter := by simpa using find?_some hfind
      rw [inj_on_of_nodup_map h.iter_nodup (mem_of_find?_eq_some hfind) he
        (hiter'.trans hiter.symm)]
  rw [State.eraseTimeout, hfind, ← hiter]
  refine ⟨_, rfl, h.remove filter_sublist (perm_erase h.iter_nodup he) ?_ h.drop_time, ?_, rfl⟩
  · rw [append_assoc]
    exact perm_middle
  · exact fun e' he' => ha e' (mem_of_mem_filter he')

variable (a iif) in
theorem processFragment_spec (h : Kept expirationTimeout s) (ha : Armed s) :
    ∃ s' out, s.processFragment expirationTimeout a iif = some (s', out) ∧
      Kept expirationTimeout s' ∧ Armed s' ∧
      (s'.queue = if s.fragments a.2.key = none ∧ s.timeoutEventList = [] then
        s.queue.schedule expirationTimeout .handleTimeout else s.queue) := by
  obtain ⟨s₁, d, hfind, hk₁, ha₁, hd, hqueue⟩ := findFragments_spec a iif h ha
  rw [State.processFragment, hfind, ← hqueue]
  dsimp only
  split_ifs
  · obtain ⟨s₂, herase, hk₂, ha₂, hqueue₂⟩ := hk₁.eraseTimeout ha₁ hd
    rw [herase]
    exact ⟨_, _, rfl, hk₂, ha₂, hqueue₂⟩
  · exact ⟨_, _, rfl, hk₁.update hd rfl, ha₁, rfl⟩

/-- The fragments without the iterators. -/
def State.view (s : State) : FragmentMap := fun key => (s.fragments key).map Datagram.fragments

theorem view_update (s : State) (key : UInt64 × UInt32) (d : Option Datagram) :
    State.view { s with fragments := Function.update s.fragments key d } =
      Function.update s.view key (d.map Datagram.fragments) := by
  funext k
  change (Function.update s.fragments key d k).map Datagram.fragments = _
  by_cases hk : k = key
  · rw [hk, update_self, update_self]
  · rw [update_of_ne hk, update_of_ne hk, State.view]

theorem view_findFragments {d : Datagram} (h : s.findFragments expirationTimeout a iif = (s', d)) :
    d.fragments = (s.view a.2.key).getD .new ∧
      ∀ f, Function.update s'.view a.2.key f = Function.update s.view a.2.key f := by
  rw [State.findFragments] at h
  cases hkey : s.fragments a.2.key with
  | some d' =>
    rw [hkey] at h
    cases h
    exact ⟨by rw [State.view, hkey]; rfl, fun _ => rfl⟩
  | none =>
    rw [hkey] at h
    cases h
    refine ⟨by rw [State.view, hkey]; rfl, fun f => ?_⟩
    have hview := view_update s a.2.key (some ⟨.new, s.nextIter⟩)
    exact (congrArg (Function.update · a.2.key f) hview).trans (update_idem _ _ _)

theorem processFragment_view {m : FragmentMap} {out : Option (List UInt8)}
    {out' : Option (Option (List UInt8))}
    (h : s.processFragment expirationTimeout a iif = some (s', out'))
    (hview : Ipv4.processFragment s.view a = some (m, out)) :
    s'.view = m ∧ out' = out.map some := by
  cases hfind : s.findFragments expirationTimeout a iif with
  | mk s₁ d =>
    obtain ⟨hfragments, hupdate⟩ := view_findFragments hfind
    simp only [State.processFragment, hfind] at h
    rw [Ipv4.processFragment, ← hfragments] at hview
    split_ifs at h hview with hentire
    · obtain ⟨s₂, herase, hs₂⟩ := map_eq_some_iff.mp h
      obtain ⟨packet, hpacket, hm⟩ := map_eq_some_iff.mp hview
      obtain ⟨e, _, rfl⟩ := map_eq_some_iff.mp herase
      cases hs₂
      cases hm
      rw [hpacket]
      exact ⟨(view_update s₁ a.2.key none).trans (hupdate none), rfl⟩
    · cases h
      cases hview
      exact ⟨(view_update s₁ a.2.key _).trans (hupdate _), rfl⟩

/-! ## The scheduled call is made -/

theorem Kept.handleFragmentsTimeout
    (h : Kept expirationTimeout { s with timeoutEventList := e :: l })
      (hnow : e.time = s.queue.now) : ∃ s', s.handleFragmentsTimeout e = some s' ∧
        Kept expirationTimeout { s' with timeoutEventList := l } ∧ s'.queue = s.queue := by
  obtain ⟨d, hd, _⟩ := h.datagram e mem_cons_self
  have hd' : s.fragments e.key = some d := hd
  rw [State.handleFragmentsTimeout, hd']
  refine ⟨_, rfl, h.remove (sublist_cons_self e l) (.refl _) ?_ ?_, rfl⟩
  · rw [map_append, ← append_assoc]
    exact perm_append_comm
  · intro d' hd'
    rcases mem_append.mp hd' with hd' | hd'
    · exact h.drop_time d' hd'
    · rw [mem_singleton.mp hd']
      exact hnow.symm

theorem expire_spec : ∀ {l : List Timeout} {s : State},
    Kept expirationTimeout { s with timeoutEventList := l } → ∃ s', State.expire l s = some s' ∧
      Kept expirationTimeout s' ∧ s'.queue = s.queue
  | [], s, h => ⟨_, rfl, h, rfl⟩
  | e :: l, s, h => by
    rw [State.expire]
    split_ifs with hnow
    · obtain ⟨s₁, hdrop, hk₁, hqueue₁⟩ := h.handleFragmentsTimeout hnow
      obtain ⟨s₂, hexpire, hk₂, hqueue₂⟩ := expire_spec hk₁
      rw [hdrop, bind_some]
      exact ⟨s₂, hexpire, hk₂, hqueue₂.trans hqueue₁⟩
    · exact ⟨_, rfl, h, rfl⟩

theorem handleTimeout_spec (h : Kept expirationTimeout s) : ∃ s', s.handleTimeout = some s' ∧
    Kept expirationTimeout s' ∧ Armed s' ∧
      (s'.queue = s.queue ∨ ∃ delay, s'.queue = s.queue.schedule delay .handleTimeout) := by
  obtain ⟨s₁, hexpire, hk₁, hqueue₁⟩ := expire_spec h
  rw [State.handleTimeout, hexpire, bind_some, State.reschedule]
  cases hlist : s₁.timeoutEventList with
  | nil => exact ⟨s₁, rfl, hk₁, by rw [Armed, hlist]; exact nofun, .inl hqueue₁⟩
  | cons e l =>
    have hle : s₁.queue.now ≤ e.time := (hk₁.now_le e (by rw [hlist]; exact mem_cons_self)).1
    dsimp only
    rw [if_pos hle]
    refine ⟨_, rfl, hk₁.schedule _, ?_, .inr ⟨_, by rw [← hqueue₁]; rfl⟩⟩
    intro e' he'
    refine ⟨_, EventQueue.mem_schedule.mpr (.inl rfl), ?_⟩
    have hts : s₁.queue.now + (e.time - s₁.queue.now) = e.time := Nat.add_sub_cancel' hle
    rw [EventQueue.entry, hts]
    have hsorted := hk₁.sorted
    have he'' : e' ∈ s₁.timeoutEventList := he'
    rw [hlist] at he'' hsorted
    rcases mem_cons.mp he'' with rfl | he''
    · exact le_rfl
    · exact rel_of_pairwise_cons hsorted he''

/-! ## Runs -/

/-- What holds in every state of a run, but the number of calls. -/
structure Good (expirationTimeout : Nat) (s : State) : Prop where
  kept : Kept expirationTimeout s
  armed : Armed s

theorem good_init : Good expirationTimeout {} := ⟨kept_init, nofun⟩

/-- A fragment may come until the time of the next call, and a call that is pending may be made. -/
def Enabled (s : State) : Action → Prop
  | .fragment time _ _ => s.queue.now ≤ time ∧ ∀ x ∈ s.queue.pending, time ≤ x.ts
  | .next => s.queue.pending ≠ []

variable {action : Action}

theorem enabled_of_step (h : step expirationTimeout s action = some s') : Enabled s action := by
  cases action with
  | fragment time a iif =>
    obtain ⟨queue, hadvance, _⟩ := bind_eq_some_iff.mp h
    by_contra hnot
    rw [Enabled] at hnot
    rw [advance?, dif_neg hnot] at hadvance
    exact absurd hadvance nofun
  | next =>
    obtain ⟨⟨x, queue⟩, hnext, _⟩ := bind_eq_some_iff.mp h
    exact ne_nil_of_mem (next?_mem hnext)

/-- A step: there is one where the action is enabled, and it keeps what is good. -/
theorem Good.step (h : Good expirationTimeout s) (henabled : Enabled s action) :
    ∃ s', step expirationTimeout s action = some s' ∧ Good expirationTimeout s' ∧
      (s.queue.pending.length ≤ 1 → (s'.queue.pending.length ≤ 1 ↔ ¬ Collides s action)) := by
  cases action with
  | fragment time a iif =>
    have hadvance : s.queue.advance? time = some { s.queue with
      now := time, now_le := henabled.2 } := dif_pos henabled
    have hk : Kept expirationTimeout { s with
      queue := { s.queue with now := time, now_le := henabled.2 } } := by
      refine h.kept.queue henabled.1 fun e he => ?_
      obtain ⟨x, hx, hle⟩ := h.armed e he
      exact (henabled.2 x hx).trans hle
    obtain ⟨s', out, hprocess, hk', ha', hqueue⟩ := processFragment_spec a iif hk h.armed
    refine ⟨s', ?_, ⟨hk', ha'⟩, fun hlength => ?_⟩
    · rw [Expiry.step, hadvance, bind_some, hprocess]
      rfl
    · dsimp only at hqueue
      rw [hqueue, Collides, ← and_assoc]
      split_ifs with hnew
      · rw [length_schedule, and_iff_right hnew, not_not, ← length_eq_zero_iff]
        dsimp only
        omega
      · exact iff_of_true hlength fun hcollides => hnew hcollides.1
  | next =>
    obtain ⟨x, queue, hnext⟩ : ∃ x queue, s.queue.next? = some (x, queue) :=
      exists_next? henabled
    obtain ⟨hpending, hnow, _⟩ := next?_eq_some hnext
    have hk : Kept expirationTimeout { s with queue } := by
      refine h.kept.queue ?_ fun e he => ?_
      · rw [hnow]
        exact s.queue.now_le x (next?_mem hnext)
      · obtain ⟨x', hx', hle⟩ := h.armed e he
        rw [hpending] at hx'
        rcases mem_cons.mp hx' with rfl | hx'
        · exact hnow.le.trans hle
        · exact (queue.now_le x' hx').trans hle
    obtain ⟨s', hhandle, hk', ha', hqueue⟩ := handleTimeout_spec hk
    refine ⟨s', ?_, ⟨hk', ha'⟩, fun hlength => iff_of_true ?_ not_false⟩
    · rw [Expiry.step, hnext, bind_some]
      exact hhandle
    · rw [hpending, length_cons] at hlength
      rcases hqueue with hqueue | ⟨delay, hqueue⟩
      · rw [hqueue]
        dsimp only
        omega
      · rw [hqueue, length_schedule]
        exact hlength

variable {as : List Action}

theorem run_snoc : run expirationTimeout (as ++ [action]) = (run expirationTimeout as).bind fun s =>
      step expirationTimeout s action := by
  simp [run, foldlM_append]

theorem good_of_run (h : run expirationTimeout as = some s) : Good expirationTimeout s := by
  induction as using reverseRecOn generalizing s with
  | nil =>
    cases h
    exact good_init
  | append_singleton as action ih =>
    rw [run_snoc] at h
    obtain ⟨s₁, hrun, hstep⟩ := bind_eq_some_iff.mp h
    obtain ⟨s', hstep', hgood, _⟩ := (ih hrun).step (enabled_of_step hstep)
    rw [hstep] at hstep'
    cases hstep'
    exact hgood

theorem length_step (hrun : run expirationTimeout as = some s)
    (hstep : step expirationTimeout s action = some s') (h : s.queue.pending.length ≤ 1) :
    s'.queue.pending.length ≤ 1 ↔ ¬ Collides s action := by
  obtain ⟨s₁, hstep₁, _, hlength⟩ := (good_of_run hrun).step (enabled_of_step hstep)
  rw [hstep] at hstep₁
  cases hstep₁
  exact hlength h

theorem run_prefix {as pre : List Action} (h : run expirationTimeout as = some s)
    (hpre : pre <+: as) : ∃ s', run expirationTimeout pre = some s' := by
  obtain ⟨post, rfl⟩ := hpre
  rw [run, foldlM_append] at h
  obtain ⟨s', hs', _⟩ := bind_eq_some_iff.mp h
  exact ⟨s', hs'⟩

theorem pendingCall_iff (h : run expirationTimeout as = some s) :
    (∀ pre s', pre <+: as → run expirationTimeout pre = some s' → s'.queue.pending.length ≤ 1) ↔
      ∀ pre action s', pre ++ [action] <+: as → run expirationTimeout pre = some s' →
        ¬ Collides s' action := by
  constructor
  · intro hall pre action s' hpre hrun
    have hfirst : pre <+: as := (prefix_append pre [action]).trans hpre
    obtain ⟨s₁, hrun₁⟩ := run_prefix h hpre
    have hlength₁ := hall _ _ hpre hrun₁
    rw [run_snoc, hrun] at hrun₁
    exact (length_step hrun hrun₁ (hall pre s' hfirst hrun)).mp hlength₁
  · intro hall pre
    induction pre using reverseRecOn with
    | nil =>
      intro s' _ hrun
      cases hrun
      exact Nat.zero_le 1
    | append_singleton pre action ih =>
      intro s' hpre hrun
      rw [run_snoc] at hrun
      obtain ⟨s₁, hrun₁, hstep⟩ := bind_eq_some_iff.mp hrun
      have hfirst : pre <+: as := (prefix_append pre [action]).trans hpre
      exact (length_step hrun₁ hstep (ih s₁ hfirst hrun₁)).mpr (hall pre action s₁ hpre hrun₁)

/-- The elements of the list are the timeouts of the incomplete datagrams, one for each; a call is
pending where the list is not empty; each timeout that was set, at the time of the first fragment,
is in the list and not over, or its datagram is complete, or was dropped, once, at that time; and
what is enabled does not fail. There is always at most one pending call exactly if no fragment of a
new datagram comes when the list is empty and a call pending. -/
theorem expiry_of_run {as : List Action} (h : run expirationTimeout as = some s) :
    ((s.timeoutEventList.map Timeout.key).Nodup ∧
      (∀ e ∈ s.timeoutEventList, ∃ d, s.fragments e.key = some d ∧ d.timeoutIter = e.iter) ∧
      (∀ key d, s.fragments key = some d → ∃ e ∈ s.timeoutEventList, e.key = key ∧
        e.iter = d.timeoutIter)) ∧ (s.timeoutEventList ≠ [] → s.queue.pending ≠ []) ∧
    ((s.started.map (·.2.iter)).Nodup ∧ (s.started.map Prod.snd).Perm
        (s.timeoutEventList ++ s.completed ++ s.drops.map Drop.timeout) ∧
      (∀ r ∈ s.started, r.2.time = r.1 + expirationTimeout) ∧
        (∀ e ∈ s.timeoutEventList, s.queue.now ≤ e.time) ∧
      ∀ d ∈ s.drops, d.time = d.timeout.time) ∧
    (∀ action, Enabled s action → (step expirationTimeout s action).isSome) ∧
    ((∀ pre s', pre <+: as → run expirationTimeout pre = some s' → s'.queue.pending.length ≤ 1) ↔
      ∀ pre action s', pre ++ [action] <+: as → run expirationTimeout pre = some s' →
        ¬ Collides s' action) := by
  have hgood := good_of_run h
  have hk := hgood.kept
  refine ⟨⟨?_, hk.datagram, hk.timeout⟩, ?_,
    ⟨hk.nodup, hk.started, hk.time_eq, fun e he => (hk.now_le e he).1, hk.drop_time⟩, ?_,
    pendingCall_iff h⟩
  · refine Nodup.map_on (fun e he e' he' hkey => hk.key_inj he' he hkey) (hk.iter_nodup.of_map _)
  · intro hne
    obtain ⟨e, he⟩ := exists_mem_of_ne_nil _ hne
    obtain ⟨x, hx, _⟩ := hgood.armed e he
    exact ne_nil_of_mem hx
  · intro action henabled
    obtain ⟨s', hstep, _⟩ := hgood.step henabled
    rw [hstep]
    rfl

/-- Of two fragments with 8 bytes, the first or the last. -/
def half (identification : UInt16) (first : Bool) : Ipv4Packet :=
  (List.replicate 8 0, if first then ⟨1, 2, identification, 17, true, 0, 8, 20, by decide⟩
    else ⟨1, 2, identification, 17, false, 8, 8, 20, by decide⟩)

/-- Of two datagrams the first is complete, so that the call at its time does nothing, and the
second is dropped. -/
def sample : List Action :=
  [.fragment 0 (half 1 true) 0, .fragment 1 (half 2 true) 0, .fragment 2 (half 1 false) 0, .next,
    .next]

/-- The first datagram is completed and the second one expires. -/
theorem expiry_of_run_sample : ∃ s, run 30 sample = some s ∧
    s.drops.map (fun d => (d.time, d.timeout.time)) = [(31, 31)] ∧ (s.started.map Prod.snd).Perm
    (s.timeoutEventList ++ s.completed ++ s.drops.map Drop.timeout) := by
  have hdrops : (run 30 sample).map (fun s => s.drops.map fun d => (d.time, d.timeout.time)) =
    some [(31, 31)] := by
    decide +kernel
  obtain ⟨s, hrun, hs⟩ := map_eq_some_iff.mp hdrops
  exact ⟨s, hrun, hs, (expiry_of_run hrun).2.2.1.2.1⟩

/-- A datagram is complete, and the next one starts before the call at the time of the first: two
calls are pending. -/
theorem calls_collide : ∃ s,
    run 30 [.fragment 0 (half 1 true) 0, .fragment 1 (half 1 false) 0,
      .fragment 2 (half 2 true) 0] = some s ∧ s.queue.pending.length = 2 := by
  have hlength : (run 30 [.fragment 0 (half 1 true) 0, .fragment 1 (half 1 false) 0,
      .fragment 2 (half 2 true) 0]).map (fun s => s.queue.pending.length) = some 2 := by
    decide +kernel
  exact map_eq_some_iff.mp hlength

end

end OranNs3.Ipv4.Expiry
