import OranNs3.Ipv4.Expiry

/-!
# The delivery of datagrams

Fragments of any number of datagrams, cut once or more on their ways, come in any order and more
than once while the timeouts of the reassembly expire. A datagram is reported, with its bytes, by
the call after which every byte of it has come since it was reported or dropped last, and by no
other call (`delivered_of_run`). The fragments with the iterators of their timeouts do what the
fragments without them do (`processFragment_view`), and those of one way end where the datagram does
(`Leaves.endsLast`).
-/

namespace OranNs3.Ipv4.Expiry

open Function List Option

/-- A datagram, and the fragments of it that arrive. -/
structure Sent where
  packet : List UInt8
  header : Ipv4Header
  fragments : List Ipv4Packet
  length : packet.length ≤ 65515
  headerSize : header.headerSize = 20
  offset : header.fragmentOffset = 0
  more : header.moreFragments = false
  leaves : Leaves (packet, header) fragments

/-- The reassembly, and the fragments that came for each key since it was reported or dropped. -/
abbrev Receiver := State × (UInt64 × UInt32 → List Ipv4Packet)

/-- An action, with what `ProcessFragment` returns. -/
def receive (expirationTimeout : Nat) (w : Receiver) :
    Action → Option (Receiver × Option (Option (List UInt8)))
  | .fragment time a iif => (w.1.queue.advance? time).bind fun queue =>
    (({ w.1 with queue } : State).processFragment expirationTimeout a iif).map fun r =>
      ((r.1, Function.update w.2 a.2.key (if r.2.isSome then [] else w.2 a.2.key ++ [a])), r.2)
  | .next => (step expirationTimeout w.1 .next).map fun s =>
    ((s, fun key => if (s.fragments key).isSome then w.2 key else []), none)

/-- What is kept of each datagram are its fragments that came. -/
structure Delivers (expirationTimeout : Nat) (ds : List Sent) (w : Receiver) : Prop where
  good : Good expirationTimeout w.1
  kept : ∀ d ∈ ds, Ipv4.Kept (w.2 d.header.key) ((w.1.view d.header.key).getD .new) ∧
    ∀ a ∈ w.2 d.header.key, a ∈ d.fragments

variable {expirationTimeout : Nat} {ds : List Sent} {w w' : Receiver} {s s' : State} {d : Sent}
  {a : Ipv4Packet} {time : Nat} {iif : UInt32} {action : Action}
  {out : Option (Option (List UInt8))}

theorem Sent.part (d : Sent) (ha : a ∈ d.fragments) : Part d.packet d.header a :=
  part_of_piece d.length d.headerSize d.offset d.more
    ((d.leaves.follow d.length d.headerSize d.offset d.more).1 a ha)

/-! ## Timeouts only drop -/

theorem expire_frame : ∀ {l : List Timeout} {s s' : State}, State.expire l s = some s' →
    ∀ key, s'.fragments key = s.fragments key ∨ s'.fragments key = none
  | [], s, s', h, key => by
    cases h
    exact .inl rfl
  | e :: l, s, s', h, key => by
    rw [State.expire] at h
    split at h
    · obtain ⟨s₁, hdrop, h⟩ := bind_eq_some_iff.1 h
      obtain ⟨d, -, rfl⟩ := map_eq_some_iff.1 hdrop
      -- the datagram of the timeout is erased
      by_cases hkey : key = e.key
      · subst hkey
        rcases expire_frame h e.key with heq | hnone
        · exact .inr (heq.trans (update_self _ _ _))
        · exact .inr hnone
      · exact (expire_frame h key).imp_left fun heq => heq.trans (update_of_ne hkey _ _)
    · cases h
      exact .inl rfl

theorem handleTimeout_frame (h : s.handleTimeout = some s') (key : UInt64 × UInt32) :
    s'.fragments key = s.fragments key ∨ s'.fragments key = none := by
  obtain ⟨s₁, hexpire, h⟩ := bind_eq_some_iff.1 h
  have hframe := expire_frame hexpire key
  rw [State.reschedule] at h
  split at h
  · cases h
    exact hframe
  · obtain ⟨-, h⟩ := ite_none_right_eq_some.1 h
    cases h
    exact hframe

/-! ## Steps -/

theorem step_of_receive (h : receive expirationTimeout w action = some (w', out)) :
    step expirationTimeout w.1 action = some w'.1 := by
  cases action with
  | fragment time a iif =>
    obtain ⟨queue, hadvance, h⟩ := bind_eq_some_iff.1 h
    obtain ⟨r, hprocess, h⟩ := map_eq_some_iff.1 h
    cases h
    rw [step, hadvance, bind_some, hprocess, map_some]
  | next =>
    obtain ⟨s, hstep, h⟩ := map_eq_some_iff.1 h
    cases h
    exact hstep

theorem erased_of_reported {m m' : FragmentMap} {p : List UInt8}
    (h : Ipv4.processFragment m a = some (m', some p)) : m' a.2.key = none := by
  rw [Ipv4.processFragment] at h
  split at h
  · obtain ⟨q, -, heq⟩ := map_eq_some_iff.1 h
    obtain ⟨rfl, -⟩ := Prod.mk.inj heq
    exact update_self _ _ _
  · cases h

theorem processFragment_other {m m' : FragmentMap} {out : Option (List UInt8)}
    {key : UInt64 × UInt32} (h : Ipv4.processFragment m a = some (m', out)) (hne : key ≠ a.2.key) :
    m' key = m key := by
  rw [Ipv4.processFragment] at h
  split at h
  · obtain ⟨q, -, heq⟩ := map_eq_some_iff.1 h
    obtain ⟨rfl, -⟩ := Prod.mk.inj heq
    exact update_of_ne hne _ _
  · cases h
    exact update_of_ne hne _ _

section
variable (h : Delivers expirationTimeout ds w)
include h

/-- What is kept of the datagrams whose key the fragment does not have stays. -/
theorem Delivers.update (hkeys : (ds.map fun d => d.header.key).Nodup)
    (hd : d ∈ ds) (hkey : a.2.key = d.header.key) {m : FragmentMap} {out : Option (List UInt8)}
    (hplain : Ipv4.processFragment w.1.view a = some (m, out)) (hview : s'.view = m)
    (hgood : Good expirationTimeout s')
    {l : List Ipv4Packet} (hkept : Ipv4.Kept l ((m d.header.key).getD .new))
    (hl : ∀ b ∈ l, b ∈ d.fragments) :
    Delivers expirationTimeout ds (s', Function.update w.2 a.2.key l) := by
  subst hview
  refine ⟨hgood, fun e he => ?_⟩
  by_cases heq : e.header.key = d.header.key
  · obtain rfl := inj_on_of_nodup_map hkeys he hd heq
    dsimp only
    rw [hkey, update_self]
    exact ⟨hkept, hl⟩
  · have hne : e.header.key ≠ a.2.key := fun h => heq (h.trans hkey)
    dsimp only
    rw [update_of_ne hne, processFragment_other hplain hne]
    exact h.kept e he

/-- A fragment completes its datagram or is added to it. -/
theorem Delivers.fragment (hkeys : (ds.map fun d => d.header.key).Nodup)
    (hd : d ∈ ds) (ha : a ∈ d.fragments)
    (hstep : receive expirationTimeout w (.fragment time a iif) = some (w', out))
    (hgood : Good expirationTimeout w'.1) :
    (out = if Present d.packet (w.2 d.header.key ++ [a]) then some (some d.packet) else none) ∧
      Delivers expirationTimeout ds w' := by
  obtain ⟨hkept, hmem⟩ := h.kept d hd
  have hkey : a.2.key = d.header.key := (d.part ha).key
  have hall : ∀ b ∈ w.2 d.header.key ++ [a], b ∈ d.fragments := fun b hb => by
    rcases mem_append.1 hb with hb | hb
    · exact hmem b hb
    · exact mem_singleton.1 hb ▸ ha
  obtain ⟨queue, -, hstep⟩ := bind_eq_some_iff.1 hstep
  obtain ⟨⟨s', out'⟩, hprocess, hr⟩ := map_eq_some_iff.1 hstep
  cases hr
  have hends := d.leaves.endsLast d.length d.headerSize d.offset d.more hall
  obtain ⟨hincomplete, hcomplete⟩ :=
    KeptAt.processFragment (m := w.1.view) hkept d.length fun b hb => d.part (hall b hb)
  by_cases hpresent : Present d.packet (w.2 d.header.key ++ [a])
  · obtain ⟨m, hplain⟩ := hcomplete ⟨hpresent, hends hpresent⟩
    obtain ⟨hview, rfl⟩ := processFragment_view hprocess hplain
    have hnone : m d.header.key = none := hkey ▸ erased_of_reported hplain
    rw [if_pos hpresent]
    refine ⟨rfl, h.update hkeys hd hkey hplain hview hgood ?_ fun b hb => absurd hb not_mem_nil⟩
    rw [hnone]
    exact .new
  · obtain ⟨m, hplain, hm⟩ := hincomplete fun hall => hpresent hall.1
    obtain ⟨hview, rfl⟩ := processFragment_view hprocess hplain
    rw [if_neg hpresent]
    have hupdate := h.update hkeys hd hkey hplain hview hgood hm hall
    rw [← hkey] at hupdate
    exact ⟨rfl, hupdate⟩

theorem Delivers.next (hstep : receive expirationTimeout w .next = some (w', out))
    (hgood : Good expirationTimeout w'.1) : Delivers expirationTimeout ds w' := by
  obtain ⟨s, hs, hr⟩ := map_eq_some_iff.1 hstep
  cases hr
  refine ⟨hgood, fun d hd => ?_⟩
  obtain ⟨r, -, hs⟩ := bind_eq_some_iff.1 hs
  have hframe := handleTimeout_frame hs d.header.key
  cases hfragments : s.fragments d.header.key with
  | none =>
    simp only [State.view, hfragments]
    exact ⟨.new, fun _ hb => absurd hb not_mem_nil⟩
  | some f =>
    rcases hframe with heq | hnone
    · simp only [State.view, hfragments]
      have hkept := h.kept d hd
      rw [State.view, ← show s.fragments d.header.key = w.1.fragments d.header.key from heq,
        hfragments] at hkept
      exact hkept
    · exact absurd (hfragments.symm.trans hnone) (some_ne_none _)

end

theorem delivers_of_outputs (hkeys : (ds.map fun d => d.header.key).Nodup) :
    ∀ {actions : List Action} {w w' : Receiver} {outs : List (Option (Option (List UInt8)))},
      Delivers expirationTimeout ds w →
        (∀ time a iif, .fragment time a iif ∈ actions → ∃ d ∈ ds, a ∈ d.fragments) →
      Lts.outputs (receive expirationTimeout) w actions = some (w', outs) →
        Delivers expirationTimeout ds w'
  | [], w, w', outs, h, _, hrun => by
    cases hrun
    exact h
  | action :: actions, w, w', outs, h, hactions, hrun => by
    obtain ⟨⟨w₁, out⟩, hreceive, hrun⟩ := bind_eq_some_iff.1 hrun
    obtain ⟨⟨w₂, outs'⟩, hrest, heq⟩ := map_eq_some_iff.1 hrun
    cases heq
    have hstep := step_of_receive hreceive
    obtain ⟨s₁, hs₁, hgood, -⟩ := h.good.step (enabled_of_step hstep)
    obtain rfl := some.inj (hs₁.symm.trans hstep)
    refine delivers_of_outputs hkeys ?_ (fun time a iif ha =>
      hactions time a iif (mem_cons_of_mem _ ha)) hrest
    cases action with
    | fragment time a iif =>
      obtain ⟨d, hd, ha⟩ := hactions time a iif mem_cons_self
      exact (h.fragment hkeys hd ha hreceive hgood).2
    | next => exact h.next hreceive hgood

/-- In every run in which the fragments are those of datagrams with keys of their own, and timeouts
expire at any time, the call with a fragment does not fail and reports its datagram exactly when
every byte of it has come since it was reported or dropped last. -/
theorem delivered_of_run (hkeys : (ds.map fun d => d.header.key).Nodup) {actions : List Action}
    {outs : List (Option (Option (List UInt8)))}
    (hrun : Lts.outputs (receive expirationTimeout) ({}, fun _ => []) actions = some (w, outs))
    (hactions : ∀ time a iif, .fragment time a iif ∈ actions → ∃ d ∈ ds, a ∈ d.fragments)
    (hd : d ∈ ds) (ha : a ∈ d.fragments) (henabled : Enabled w.1 (.fragment time a iif)) :
    ∃ w', receive expirationTimeout w (.fragment time a iif) =
      some (w', if Present d.packet (w.2 d.header.key ++ [a]) then some (some d.packet)
        else none) := by
  have h := delivers_of_outputs hkeys ⟨good_init, fun d _ =>
    ⟨.new, fun _ hb => absurd hb not_mem_nil⟩⟩ hactions hrun
  obtain ⟨s', hstep, hgood, -⟩ := h.good.step henabled
  obtain ⟨queue, hadvance, hstep⟩ := bind_eq_some_iff.1 hstep
  obtain ⟨r, hprocess, rfl⟩ := map_eq_some_iff.1 hstep
  have hreceive : receive expirationTimeout w (.fragment time a iif) =
      some ((r.1, Function.update w.2 a.2.key (if r.2.isSome then [] else w.2 a.2.key ++ [a])),
      r.2) := by
    rw [receive, hadvance, bind_some, hprocess, map_some]
  obtain ⟨hout, -⟩ := h.fragment hkeys hd ha hreceive hgood
  exact ⟨_, hout ▸ hreceive⟩

/-- A datagram of 8 bytes. -/
def sampleWhole : Ipv4Packet :=
  (List.replicate 8 0, { Ipv4.sample.2 with identification := 9, payloadSize := 8 })

/-- The datagram of 108 bytes in its two fragments, and the one that is whole. -/
def sampleSent : List Sent :=
  [{ packet := Ipv4.sample.1, header := Ipv4.sample.2, fragments := [] ++ sampleFragments ++ []
     length := by decide, headerSize := rfl, offset := rfl, more := rfl
     leaves := .fragment (.packet : Leaves Ipv4.sample ([] ++ Ipv4.sample :: [])) (by decide)
      (by decide) (show doFragmentation Ipv4.sample.1 Ipv4.sample.2 76 = some sampleFragments by
      decide +kernel) },
    { packet := sampleWhole.1, header := sampleWhole.2, fragments := [sampleWhole]
      length := by decide, headerSize := rfl, offset := rfl, more := rfl, leaves := .packet }]

/-- The first fragment is dropped with its timeout, and comes again after the second one. -/
theorem delivered_of_run_example : ∃ w w' outs, Lts.outputs (receive 30) ({}, fun _ => [])
      [.fragment 0 sampleFragments[0] 0, .fragment 10 sampleWhole 0, .next,
        .fragment 40 sampleFragments[1] 0] = some (w, outs) ∧
    receive 30 w (.fragment 50 sampleFragments[0] 0) = some (w', some (some Ipv4.sample.1)) := by
  have hruns : (Lts.outputs (receive 30) ({}, fun _ => [])
      [.fragment 0 sampleFragments[0] 0, .fragment 10 sampleWhole 0, .next,
      .fragment 40 sampleFragments[1] 0]).map
      (fun r => (decide (r.1.1.queue.now ≤ 50), r.1.1.queue.pending.all (50 ≤ ·.ts),
        r.1.2 Ipv4.sample.2.key)) = some (true, true, [sampleFragments[1]]) := by
    decide +kernel
  obtain ⟨⟨w, outs⟩, hrun, hw⟩ := Option.map_eq_some_iff.1 hruns
  simp only [Prod.mk.injEq, decide_eq_true_eq, List.all_eq_true] at hw
  obtain ⟨hnow, hpending, hcame⟩ := hw
  have henabled : Enabled w.1 (.fragment 50 sampleFragments[0] 0) := ⟨hnow, hpending⟩
  have hactions : ∀ time a iif, .fragment time a iif ∈ [Action.fragment 0 sampleFragments[0] 0,
      .fragment 10 sampleWhole 0, .next, .fragment 40 sampleFragments[1] 0] → ∃ d ∈ sampleSent,
      a ∈ d.fragments := by
    intro time a iif hmem
    simp only [List.mem_cons, Action.fragment.injEq, reduceCtorEq, List.not_mem_nil, or_false,
      false_or] at hmem
    rcases hmem with ⟨-, rfl, -⟩ | ⟨-, rfl, -⟩ | ⟨-, rfl, -⟩
    · exact ⟨sampleSent[0], List.getElem_mem _, by decide +kernel⟩
    · exact ⟨sampleSent[1], List.getElem_mem _, by decide +kernel⟩
    · exact ⟨sampleSent[0], List.getElem_mem _, by decide +kernel⟩
  have hd : sampleSent[0] ∈ sampleSent := List.getElem_mem _
  obtain ⟨w', hreceive⟩ :=
    delivered_of_run (by decide +kernel) hrun hactions hd (by decide +kernel) henabled
  rw [show w.2 sampleSent[0].header.key = _ from hcame, if_pos (by decide +kernel)] at hreceive
  exact ⟨w, w', outs, hrun, hreceive⟩

end OranNs3.Ipv4.Expiry
