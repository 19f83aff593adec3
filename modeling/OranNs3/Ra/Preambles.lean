import OranNs3.Ra.Invariant
import OranNs3.Rrc.Rntis

/-!
# Preambles and RNTIs of a cell

`NumberOfRaPreambles` says how many preambles contention-based accesses may use; the others, up to
63, are for UEs in handover. The identity that a contention-based access takes from the common
counter disregards it, so such an access can have the preamble of a UE in handover, and is then
answered with its RNTI (`Cell.rnti_shared`).

A cell is safe in every run (`Cell.raSafe_of_run`) in which a preamble that is sent or allocated is
not in use, a response is taken by the only UE that expects it, the RNTIs that are allocated next
are not in use, and RNTIs that are answered together differ modulo 256, the keys of `m_rapIdRntiMap`
(`Cell.Guard`).
-/

namespace OranNs3

open Fallible Function Keyed List Lts Option

variable {n : Nat}

/-! ## The MAC of the gNB -/

namespace GnbMac

variable {m : GnbMac} {id ρ : Nat}

theorem exists_of_reserved (h : m.reserved id = some ρ) :
    ∃ e ∈ m.allocatedNcRaPreambleMap, e.preambleId = id ∧ e.rnti = ρ := by
  obtain ⟨e, he, hρ⟩ := map_eq_some_iff.1 h
  exact ⟨e, mem_of_find? he, key_of_find? he, hρ⟩

theorem ne_of_not_reserved (h : m.reserved id = none) :
    ∀ e ∈ m.allocatedNcRaPreambleMap, e.preambleId ≠ id := by
  intro e he hid
  exact find?_eq_none.1 (map_eq_none_iff.1 h) (mem_map.2 ⟨e, he, hid⟩)

variable (m)

/-- The RNTI of an answer, where the RRC is not asked for a new one: the reserved one, or 0 where no
SRS index is left. -/
def knownRnti (maxSrsReached : Nat → Bool) (preambleId : Nat) : Option Nat :=
  (m.reserved preambleId).or (if maxSrsReached preambleId then some 0 else none)

/-- The preambles that were received once. -/
def once (ids : List Nat) : List Nat := ids.filter fun id => m.receivedCount id ≤ 1

/-- The RNTIs that are known before a slot answers. -/
def knownRntis (maxSrsReached : Nat → Bool) (ids : List Nat) : List Nat :=
  (m.once ids).filterMap (m.knownRnti maxSrsReached)

/-- The RNTIs that are free for the other preambles. -/
def newRntis (r : Rrc) (maxSrsReached : Nat → Bool) (ids : List Nat) : List Nat :=
  r.freeRntis.take ((m.once ids).countP fun id => (m.knownRnti maxSrsReached id).isNone)

/-- The answer to a preamble has the RNTI that is known, or the first one that is free. -/
theorem spec_answerRnti (r : Rrc) (cc : Nat) (maxSrs : Nat → Bool) (id : Nat) :
    Spec (fun _ => True) (fun p => m.knownRnti maxSrs id = some p.2 ∧ p.1 = r ∧
        (m.reserved id = some p.2 ∨ m.reserved id = none ∧ p.2 = 0) ∨
      m.knownRnti maxSrs id = none ∧ m.reserved id = none ∧ r.Added p.1 ∧
        p.2 = p.1.lastAllocatedRnti) (m.answerRnti r cc (maxSrs id) id) := by
  unfold answerRnti
  cases hres : m.reserved id with
  | some rnti => exact .inl ⟨by rw [knownRnti, hres]; rfl, rfl, .inl rfl⟩
  | none =>
    refine (Rrc.added_allocateTemporaryCellRnti r cc (maxSrs id)).bind fun r' hr' => ?_
    split at hr'
    · next hmax => exact .inl ⟨by rw [knownRnti, hres, if_pos hmax, if_pos hmax]; rfl, hr',
        .inr ⟨rfl, if_pos hmax⟩⟩
    · next hmax => exact .inr ⟨by rw [knownRnti, hres, if_neg hmax]; rfl, rfl, hr', if_neg hmax⟩

/-- A slot answers with the RNTIs that are known and with the first ones that are free. -/
theorem spec_answers (cc : Nat) (maxSrs : Nat → Bool) :
    ∀ (ids : List Nat) (r : Rrc), (∀ e ∈ m.allocatedNcRaPreambleMap, e.rnti ∈ r.rntis) →
      Spec (fun _ => True) (fun p => (∀ ρ ∈ r.rntis, ρ ∈ p.1.rntis) ∧
          RaInv.Answers m.allocatedNcRaPreambleMap r.rntis p.2 ∧
          ∀ x ∈ p.2, x.raPreambleId ∈ ids ∧
            x.rnti ∈ m.knownRntis maxSrs ids ++ m.newRntis r maxSrs ids)
        (m.answers cc maxSrs ids r) := by
  intro ids
  induction ids with
  | nil => exact fun r _ => ⟨fun _ h => h, ⟨nofun, nofun⟩, nofun⟩
  | cons id ids ih =>
    intro r hnc
    rw [answers]
    split
    · next hcount =>
      have honce : m.once (id :: ids) = m.once ids := filter_cons_of_neg (by simpa using hcount)
      refine (ih r hnc).imp fun p hp => ⟨hp.1, hp.2.1, fun x hx => ?_⟩
      rw [knownRntis, newRntis, honce]
      exact ⟨mem_cons_of_mem _ (hp.2.2 x hx).1, (hp.2.2 x hx).2⟩
    · next hcount =>
      have honce : m.once (id :: ids) = id :: m.once ids :=
        filter_cons_of_pos (by simpa using hcount)
      refine (spec_answerRnti m r cc maxSrs id).bind fun p hp => ?_
      obtain ⟨r₁, ρ⟩ := p
      dsimp only at hp
      rw [knownRntis, newRntis, honce, countP_cons]
      obtain ⟨hknown, rfl, hρ⟩ | ⟨hunknown, hno, hadded, rfl⟩ := hp
      · refine (ih r₁ hnc).bind fun p' hp' => ?_
        obtain ⟨hsub, hans, hmem⟩ := hp'
        rw [hknown, filterMap_cons_some hknown]
        refine ⟨hsub, hans.cons (fun _ h => h) hnc ?_, forall_mem_cons.2
          ⟨⟨mem_cons_self, mem_cons_self⟩, fun x hx => ⟨mem_cons_of_mem _ (hmem x hx).1, ?_⟩⟩⟩
        · exact hρ.imp exists_of_reserved fun h0 =>
            ⟨ne_of_not_reserved h0.1, fun hne => absurd h0.2 hne⟩
        · exact mem_cons_of_mem _ (hmem x hx).2
      · have hsub₁ : ∀ σ ∈ r.rntis, σ ∈ r₁.rntis := fun σ hσ => by
          rw [hadded.rntis]
          exact mem_cons_of_mem _ hσ
        refine (ih r₁ fun e he => hsub₁ _ (hnc e he)).bind fun p' hp' => ?_
        obtain ⟨hsub, hans, hmem⟩ := hp'
        rw [hunknown, filterMap_cons_none hunknown, isNone_none, if_pos rfl, hadded.free,
          take_succ_cons]
        refine ⟨fun σ hσ => hsub σ (hsub₁ σ hσ),
          hans.cons hsub₁ hnc (.inr ⟨ne_of_not_reserved hno, fun _ =>
          ⟨hadded.isFree.2, by rw [hadded.rntis]; exact mem_cons_self⟩⟩), forall_mem_cons.2
          ⟨⟨mem_cons_self, mem_append_right _ mem_cons_self⟩, fun x hx =>
            ⟨mem_cons_of_mem _ (hmem x hx).1, ?_⟩⟩⟩
        exact (mem_append.1 (hmem x hx).2).elim (mem_append_left _) fun h =>
          mem_append_right _ (mem_cons_of_mem _ h)

variable {m}

/-- The responses to the accesses of a slot are its answers, where their keys are not in the map and
differ. -/
theorem mem_of_rarOf {rars : List Rar} {map : List (Nat × Nat)}
    (hmap : m.rapIdRntiMap = rars.foldl insertRapId map) {ρ : Nat}
    (hnew : map.lookup (ρ % 256) = none)
    (hkeys : ∀ y ∈ rars, y.rnti % 256 = ρ % 256 → y.rnti = ρ) {x : Rar} (hx : m.rarOf ρ = some x) :
    x ∈ rars := by
  obtain ⟨id, hid, rfl⟩ := map_eq_some_iff.1 hx
  rw [hmap, lookup_foldl_insertRapId, hnew, none_or] at hid
  obtain ⟨y, hy, rfl⟩ := map_eq_some_iff.1 hid
  have hkey := hkeys y (mem_of_find?_eq_some hy) (by simpa using find?_some hy)
  rw [← hkey]
  exact mem_of_find?_eq_some hy

theorem mem_filterMap_of_mapM (m : GnbMac) :
    ∀ {l : List Nat} {rars : List Rar}, l.mapM m.rarOf = some rars → ∀ x ∈ rars,
      x ∈ l.filterMap m.rarOf
  | [], rars, h, x, hx => by
    cases h
    cases hx
  | ρ :: l, rars, h, x, hx => by
    rw [mapM_cons] at h
    obtain ⟨y, hy, h⟩ := bind_eq_some_iff.1 h
    obtain ⟨ys, hys, h⟩ := bind_eq_some_iff.1 h
    cases h
    rw [filterMap_cons_some hy]
    rcases mem_cons.1 hx with rfl | hx
    · exact mem_cons_self
    · exact mem_cons_of_mem _ (mem_filterMap_of_mapM m hys x hx)

/-- The MAC after the removal of the UEs of a list. -/
structure RemovedUes (m : GnbMac) (l : List Nat) (m' : GnbMac) : Prop where
  entries : m'.allocatedNcRaPreambleMap.Sublist m.allocatedNcRaPreambleMap
  removed : ∀ e ∈ m'.allocatedNcRaPreambleMap, e.rnti ∉ l
  received : ∀ x ∈ m'.receivedRachPreambles, x ∈ m.receivedRachPreambles
  rapIds : m'.rapIdRntiMap = m.rapIdRntiMap
  rachList : m'.rachList = m.rachList

theorem removedUes_foldl :
    ∀ (l : List Nat) (m : GnbMac), m.RemovedUes l (l.foldl removeUe m)
  | [], m => ⟨.refl _, fun _ _ => not_mem_nil, fun _ h => h, rfl, rfl⟩
  | ρ :: l, m => by
    have h := removedUes_foldl l (m.removeUe ρ)
    refine ⟨h.entries.trans filter_sublist, fun e he => ?_,
      fun x hx => mem_of_mem_filter (h.received x hx), h.rapIds, h.rachList⟩
    have hne := (mem_filter.1 (h.entries.subset he)).2
    rw [mem_cons, not_or]
    exact ⟨by simpa using hne, h.removed e he⟩

/-- A preamble that can be allocated for a handover: it is free, or its allocation expired and its
UE has completed its access. -/
def Available (m : GnbMac) (r : Rrc) (now preambleId : Nat) : Prop :=
  ∀ e ∈ Keyed.find? NcRaPreambleInfo.preambleId preambleId m.allocatedNcRaPreambleMap,
    e.expiryTime < now ∧
    ∃ u ∈ r.findUe e.rnti, u.state = .connectedNormally ∨ u.state = .connectionReconfiguration
deriving Decidable

/-- A preamble is the first of some that can be allocated. -/
def IsFirst (m : GnbMac) (r : Rrc) (now : Nat) (ids : List Nat) (preambleId : Nat) : Prop :=
  m.Available r now preambleId ∧ ∀ id ∈ ids, id < preambleId → ¬ m.Available r now id
deriving Decidable

theorem spec_findNcRaPreamble (m : GnbMac) (r : Rrc) (now : Nat) : ∀ (ids : List Nat),
    ids.Pairwise (· < ·) → Spec (fun _ => True) (fun p => ∀ id, p = some id → id ∈ ids ∧
      m.IsFirst r now ids id) (m.findNcRaPreamble r now ids)
  | [], _ => nofun
  | id :: ids, hsorted => by
    obtain ⟨hfirst, hsorted⟩ := pairwise_cons.1 hsorted
    have hfound : m.Available r now id → ∀ id', some id = some id' → id' ∈ id :: ids ∧
        m.IsFirst r now (id :: ids) id' := by
      intro hid id' h
      cases h
      refine ⟨mem_cons_self, hid, forall_mem_cons.2 ⟨fun hlt => absurd hlt (lt_irrefl _),
        fun x hx hlt => ?_⟩⟩
      exact absurd (hfirst x hx) (lt_asymm hlt)
    have hnext : ¬ m.Available r now id → Spec (fun _ => True)
        (fun p => ∀ id', p = some id' → id' ∈ id :: ids ∧ m.IsFirst r now (id :: ids) id')
        (m.findNcRaPreamble r now ids) := by
      intro hno
      refine (spec_findNcRaPreamble m r now ids hsorted).imp fun p hp id' hid => ?_
      obtain ⟨hmem, hav, hbefore⟩ := hp id' hid
      exact ⟨mem_cons_of_mem _ hmem, hav, forall_mem_cons.2 ⟨fun _ => hno, hbefore⟩⟩
    unfold findNcRaPreamble
    split
    · next hfree =>
      refine hfound fun e he => ?_
      rw [hfree] at he
      cases he
    · next e he =>
      split
      · next hexpired =>
        cases hget : r.getUeManager e.rnti with
        | error err => trivial
        | ok u =>
          have hu := ((Rrc.spec_getUeManager r e.rnti).ok hget).2
          dsimp only
          split
          · next hcompleted =>
            refine hfound fun e' he' => ?_
            cases he.symm.trans he'
            exact ⟨hexpired, u, hu, hcompleted⟩
          · next hgoing =>
            refine hnext fun hav => ?_
            obtain ⟨-, u', hu', hstate⟩ := hav e he
            cases hu.symm.trans hu'
            exact hgoing hstate
      · next hvalid => exact hnext fun hav => hvalid (hav e he).1

end GnbMac

/-! ## The cell -/

/-- The preamble that a UE expects a response to. Before its first access it expects none, though
its PHY has the preamble 0. -/
def UeMac.expected (u : UeMac) : Nat :=
  if u.noRaResponseReceivedEvent = none then 255 else u.phyRaPreambleId

namespace Cell

variable (s : Cell n)

/-- The responses under way: to accesses that the scheduler may grant, and on the air. -/
def responses : List Rar := s.mac.rachList.filterMap s.mac.rarOf ++ s.downlink.flatten

/-- The preambles on the air or received. -/
def sent : List RachPreamble := s.uplink ++ s.mac.receivedRachPreambles

/-- What random access in a cell promises. -/
structure RaSafe : Prop where
  /-- A contention-based preamble is assigned to no UE in handover. -/
  unassigned : ∀ x ∈ s.sent, x.contention = true → s.mac.reserved x.preambleId = none
  /-- An RNTI that is reserved for a UE in handover only answers the preamble of that UE. -/
  answered : ∀ x ∈ s.responses, ∀ e ∈ s.mac.allocatedNcRaPreambleMap, x.rnti = e.rnti →
    x.raPreambleId = e.preambleId
  /-- No two UEs have the same RNTI. -/
  distinct : ∀ i j, (s.ue i).rnti = (s.ue j).rnti → (s.ue i).rnti ≠ 0 → i = j

/-- What the preamble that a UE sends next must satisfy: for a contention-based access that it is
assigned to no UE in handover and no response to it is under way; else that it is assigned to the
RNTI of the UE. -/
def MaySend (i : Fin n) : Bool → Prop
  | true => s.mac.reserved (nextRaPreambleId s.raPreambleCounter).1 = none ∧
    ∀ x ∈ s.responses, x.raPreambleId ≠ (nextRaPreambleId s.raPreambleCounter).1
  | false => s.mac.reserved (s.ue i).raPreambleId = some (s.ue i).rnti

/-- The preamble that is allocated to a UE in handover is not in use. -/
def Unused (preambleId : Nat) : Prop :=
  (∀ j, (s.ue j).expected ≠ preambleId) ∧
    (∀ x ∈ s.responses, x.raPreambleId ≠ preambleId) ∧
    ∀ x ∈ s.sent, x.contention = true → x.preambleId ≠ preambleId
deriving Decidable

/-- A UE that takes a response of a message has sent a preamble, and no other UE expects the
response. -/
def Expects (i : Fin n) (m : List Rar) : Prop :=
  (s.ue i).waitingForRaResponse = true → ∀ x ∈ m, x.raPreambleId = (s.ue i).phyRaPreambleId →
    (s.ue i).noRaResponseReceivedEvent ≠ none ∧ ∀ j, j ≠ i → (s.ue j).expected ≠ x.raPreambleId
deriving Decidable

/-- An RNTI that no UE has and no response carries, though it can be that of a context that was
removed. -/
def Unheld (rnti : Nat) : Prop := (∀ i, (s.ue i).rnti ≠ rnti) ∧ ∀ x ∈ s.responses,
    x.rnti ≠ rnti
deriving Decidable

/-- Of the RNTIs that the next slot can answer with, those that are free. -/
def newRntis (maxSrsReached : Nat → Bool) : List Nat :=
  s.mac.newRntis s.rrc maxSrsReached s.mac.receivedIds

/-- The RNTIs that the next slot can answer with, and those whose response waits, differ in their
last 8 bits, the keys of `m_rapIdRntiMap`. -/
def KeysDiffer (maxSrsReached : Nat → Bool) : Prop :=
  ∀ ρ ∈ s.mac.knownRntis maxSrsReached s.mac.receivedIds ++ s.newRntis maxSrsReached,
    s.mac.rapIdRntiMap.lookup (ρ % 256) = none ∧
      ∀ σ ∈ s.mac.knownRntis maxSrsReached s.mac.receivedIds ++ s.newRntis maxSrsReached,
        σ % 256 = ρ % 256 → σ = ρ
deriving Decidable

/-- The preambles that are not for contention-based accesses. -/
def ncRaPreambles : List Nat :=
  List.range' s.cfg.numberOfRaPreambles (64 - s.cfg.numberOfRaPreambles)

/-- The preamble that is next to be allocated for a handover is not in use, and no UE, response or
command has the RNTI that is next. -/
def MayAllocate : Prop :=
  ∀ id ∈ s.ncRaPreambles, s.mac.IsFirst s.rrc s.queue.now s.ncRaPreambles id →
    s.Unused id ∧ ∀ ρ ∈ s.rrc.freeRntis.head?, s.Unheld ρ ∧ ∀ c ∈ s.commands, c.1 ≠ ρ
deriving Decidable

/-- The condition of an event: a retransmission is one that its UE may make. -/
def MayRun : RaEvent n → Prop
  | .startWaitingForRaResponse _ => True
  | .raResponseTimeout i contention =>
    ((s.ue i).preambleTransmissionCounter + 1) % 256 ≠ s.cfg.preambleTransMax + 1 →
      s.MaySend i contention

/-- The condition of a step. -/
def Guard : RaAction n → Prop
  | .connect i => s.MaySend i true
  | .handover _ k => ∀ c ∈ s.commands[k]?, s.mac.reserved c.2 = some c.1
  | .event => ∀ p ∈ s.queue.next?, s.MayRun p.1.ev
  | .receiveRar i k => ∀ m ∈ s.downlink[k]?, s.Expects i m
  | .processRaPreambles maxSrs => (∀ ρ ∈ s.newRntis maxSrs, s.Unheld ρ) ∧ s.KeysDiffer maxSrs
  | .handoverRequest _ _ _ _ _ maxSrs => s.rrc.cfg.admitHandoverRequest = true → maxSrs = false →
      s.MayAllocate
  | _ => True

instance (i : Fin n) : (c : Bool) → Decidable (s.MaySend i c)
  | true => inferInstanceAs (Decidable (_ ∧ _))
  | false => inferInstanceAs (Decidable (_ = _))

instance : (e : RaEvent n) → Decidable (s.MayRun e)
  | .startWaitingForRaResponse _ => isTrue trivial
  | .raResponseTimeout _ _ => inferInstanceAs (Decidable (_ → _))

instance : (a : RaAction n) → Decidable (s.Guard a)
  | .connect i => inferInstanceAs (Decidable (s.MaySend i true))
  | .handover _ _ => inferInstanceAs (Decidable (∀ c ∈ _, _))
  | .event => inferInstanceAs (Decidable (∀ p ∈ _, _))
  | .receiveRar _ _ => inferInstanceAs (Decidable (∀ m ∈ _, _))
  | .processRaPreambles _ => inferInstanceAs (Decidable (_ ∧ _))
  | .handoverRequest _ _ _ _ _ _ => inferInstanceAs (Decidable (_ → _))
  | .advance _ | .elsewhere | .resetMac _ | .resetPhy _ | .receiveRachPreamble _ | .losePreamble _
  | .grant _ | .endRar _ | .call _ | .timer => isTrue trivial

/-- The invariant of a cell. -/
structure Ok : Prop where
  expects : ∀ i, (s.ue i).phyRaPreambleId = 255 ∨ (s.ue i).phyRaPreambleId = (s.ue i).raPreambleId
  inv : RaInv (fun i => (s.ue i).expected) (fun i => (s.ue i).rnti)
    s.mac.allocatedNcRaPreambleMap s.sent s.responses s.commands s.rrc.rntis

theorem Ok.raSafe {s : Cell n} (h : s.Ok) : s.RaSafe where
  unassigned := by
    intro x hx hc
    refine map_eq_none_iff.2 (Keyed.find?_eq_none.2 fun hm => ?_)
    obtain ⟨e, he, hid⟩ := mem_map.1 hm
    exact h.inv.unassigned x hx hc e he hid
  answered := fun x hx e he hxe => (h.inv.rar_entry e he x hx).1 hxe
  distinct := h.inv.distinct

theorem nextRaPreambleId_ne (c : Nat) : (nextRaPreambleId c).1 ≠ 255 := by
  unfold nextRaPreambleId
  split
  · decide
  · next h => exact h

variable {s t : Cell n} {i : Fin n}

theorem ue_update (f : UeMac → Nat) (s : Cell n) (i : Fin n) (u : UeMac) :
    (fun j => f (Function.update s.ue i u j)) = Function.update (fun j => f (s.ue j)) i (f u) :=
  funext fun j => apply_update (fun _ => f) s.ue i u j

variable {u : UeMac}

theorem ue_update_eq (f : UeMac → Nat) (hu : f u = f (s.ue i)) :
    (fun j => f (Function.update s.ue i u j)) = fun j => f (s.ue j) := by
  rw [ue_update, hu, update_eq_self]

theorem expects_update (h : s.Ok)
    (hu : u.phyRaPreambleId = 255 ∨ u.phyRaPreambleId = u.raPreambleId) :
    ∀ j, (Function.update s.ue i u j).phyRaPreambleId = 255 ∨
      (Function.update s.ue i u j).phyRaPreambleId = (Function.update s.ue i u j).raPreambleId := by
  intro j
  rw [update_apply]
  split
  · exact hu
  · exact h.expects j

theorem Ok.mono (h : s.Ok) (hue : t.ue = s.ue)
    (hnc : t.mac.allocatedNcRaPreambleMap.Sublist s.mac.allocatedNcRaPreambleMap)
    (hsent : ∀ x ∈ t.sent, x ∈ s.sent) (hrars : ∀ x ∈ t.responses, x ∈ s.responses)
    (hcommands : t.commands.Sublist s.commands)
    (hcontexts : ∀ e ∈ t.mac.allocatedNcRaPreambleMap, e.rnti ∈ t.rrc.rntis) : t.Ok where
  expects := by
    rw [hue]
    exact h.expects
  inv := by
    rw [hue]
    exact h.inv.mono hnc hsent hrars hcommands hcontexts

/-! ### Steps of the UEs -/

section
variable (h : s.Ok)
include h

theorem Ok.sendRaPreamble {p : Nat} {c : Bool}
    (hinv : RaInv (Function.update (fun j => (s.ue j).expected) i p) (fun j => (s.ue j).rnti)
      s.mac.allocatedNcRaPreambleMap (s.sent ++ [⟨p, i, c⟩]) s.responses s.commands s.rrc.rntis) :
    (s.sendRaPreamble i p c).Ok where
  expects := expects_update h (.inr rfl)
  inv := by
    have hsent : ∀ x ∈ (s.sendRaPreamble i p c).sent, x ∈ s.sent ++ [⟨p, i, c⟩] := by
      intro x hx
      simp only [sent, Cell.sendRaPreamble, mem_append, mem_singleton] at hx ⊢
      tauto
    have hexpected : (fun j => ((s.sendRaPreamble i p c).ue j).expected) =
        update (fun j => (s.ue j).expected) i p := ue_update _ s i _
    have hrnti : (fun j => ((s.sendRaPreamble i p c).ue j).rnti) = fun j => (s.ue j).rnti :=
      ue_update_eq UeMac.rnti rfl
    rw [hexpected, hrnti]
    exact hinv.mono (Sublist.refl _) hsent (fun _ h => h) (Sublist.refl _) h.inv.entry_context

theorem Ok.sendContention {p : Nat} (hp : p ≠ 255) (hfree : s.mac.reserved p = none)
    (hquiet : ∀ x ∈ s.responses, x.raPreambleId ≠ p) : (s.sendRaPreamble i p true).Ok :=
  h.sendRaPreamble (h.inv.sendContention hp (GnbMac.ne_of_not_reserved hfree) hquiet i)

theorem Ok.sendAssigned {p : Nat} (hres : s.mac.reserved p = some (s.ue i).rnti) :
    (s.sendRaPreamble i p false).Ok := by
  obtain ⟨e, he, rfl, hρ⟩ := GnbMac.exists_of_reserved hres
  exact h.sendRaPreamble (h.inv.sendAssigned he hρ.symm i)

theorem Ok.setRnti (hphy : u.phyRaPreambleId = (s.ue i).phyRaPreambleId)
    (hid : u.raPreambleId = (s.ue i).raPreambleId)
    (hevent : u.noRaResponseReceivedEvent = (s.ue i).noRaResponseReceivedEvent)
    (hinv : RaInv (fun j => (s.ue j).expected)
      (Function.update (fun j => (s.ue j).rnti) i u.rnti) s.mac.allocatedNcRaPreambleMap s.sent
      s.responses s.commands s.rrc.rntis) : Ok { s with ue := Function.update s.ue i u } where
  expects := expects_update h (by rw [hphy, hid]; exact h.expects i)
  inv := by
    have hexpected : u.expected = (s.ue i).expected := by
      rw [UeMac.expected, UeMac.expected, hphy, hevent]
    change RaInv (fun j => (update s.ue i u j).expected)
      (fun j => (update s.ue i u j).rnti) _ _ _ _ _
    rw [ue_update_eq _ hexpected, ue_update UeMac.rnti]
    exact hinv

theorem Ok.setUe (hphy : u.phyRaPreambleId = (s.ue i).phyRaPreambleId)
    (hid : u.raPreambleId = (s.ue i).raPreambleId)
    (hevent : u.noRaResponseReceivedEvent = (s.ue i).noRaResponseReceivedEvent)
    (hrnti : u.rnti = (s.ue i).rnti) : Ok { s with ue := Function.update s.ue i u } :=
  h.setRnti hphy hid hevent (by
    rw [hrnti, update_eq_self]
    exact h.inv)

theorem Ok.setQueue (q : EventQueue (RaEvent n)) : Ok { s with queue := q } :=
  ⟨h.expects, h.inv⟩

theorem Ok.setCounter (c : Nat) : Ok { s with raPreambleCounter := c } :=
  ⟨h.expects, h.inv⟩

theorem Ok.randomlySelectAndSendRaPreamble (hg : s.MaySend i true) :
    (s.randomlySelectAndSendRaPreamble i).Ok :=
  (h.setCounter _).sendContention (nextRaPreambleId_ne _) hg.1 hg.2

theorem Ok.raResponseTimeout {c : Bool}
    (hg : ((s.ue i).preambleTransmissionCounter + 1) % 256 ≠ s.cfg.preambleTransMax + 1 →
      s.MaySend i c) : (s.raResponseTimeout i c).Ok := by
  unfold Cell.raResponseTimeout
  have hset : Ok { s with ue := update s.ue i { s.ue i with
      waitingForRaResponse := false
      preambleTransmissionCounter := ((s.ue i).preambleTransmissionCounter + 1) % 256 } } :=
    h.setUe rfl rfl rfl rfl
  dsimp only
  split
  · exact hset
  · next hne =>
    cases c with
    | true => exact hset.randomlySelectAndSendRaPreamble (hg hne)
    | false =>
      refine hset.sendAssigned ?_
      simp only [update_self]
      exact hg hne

theorem Ok.startNonContentionBasedRandomAccessProcedure {k : Nat} {c : Nat × Nat}
    (hc : s.commands[k]? = some c) (hg : s.mac.reserved c.2 = some c.1) :
    (startNonContentionBasedRandomAccessProcedure { s with commands := s.commands.eraseIdx k } i c.1
      c.2).Ok := by
  obtain ⟨e, he, h2, h1⟩ := GnbMac.exists_of_reserved hg
  have hinv := h.inv.takeCommand (i := i) hc he h1 h2
  rw [h1] at hinv
  have hrest : Ok { s with commands := s.commands.eraseIdx k } :=
    h.mono rfl (Sublist.refl _) (fun _ h => h) (fun _ h => h) (eraseIdx_sublist _ _)
      h.inv.entry_context
  have hset := hrest.setRnti (i := i)
    (u := { s.ue i with rnti := c.1, preambleTransmissionCounter := 0 }) rfl rfl rfl hinv
  refine hset.sendAssigned ?_
  dsimp only
  rw [update_self]
  exact hg

theorem Ok.recvRaResponse {x : Rar} (hx : x ∈ s.responses)
    (hi : ∀ j, (s.ue j).expected = x.raPreambleId ↔ j = i) : (s.recvRaResponse i x).Ok := by
  have hset := (h.setQueue (s.queue.cancel (s.ue i).noRaResponseReceivedEvent)).setRnti (i := i)
    (u := { s.ue i with waitingForRaResponse := false, rnti := x.rnti }) rfl rfl rfl
    (h.inv.takeRar hx ((hi i).2 rfl) fun j => (hi j).1)
  exact hset

end

theorem Ok.recvRaResponses :
    ∀ {s : Cell n} (l : List Rar), s.Ok → (∀ x ∈ l, x ∈ s.responses ∧
      ∀ j, (s.ue j).expected = x.raPreambleId ↔ j = i) →
      (l.foldl (fun s x => s.recvRaResponse i x) s).Ok
  | _, [], h, _ => h
  | s, x :: l, h, hl => by
    have hx := hl x mem_cons_self
    refine Ok.recvRaResponses l (h.recvRaResponse hx.1 hx.2) fun y hy => ?_
    obtain ⟨hmem, hexpected⟩ := hl y (mem_cons_of_mem x hy)
    have hsame : (fun j => ((s.recvRaResponse i x).ue j).expected) = fun j => (s.ue j).expected :=
      ue_update_eq UeMac.expected rfl
    refine ⟨hmem, fun j => ?_⟩
    rw [← hexpected j, congrFun hsame j]

theorem Ok.hush (h : s.Ok) (hphy : u.phyRaPreambleId = 255)
    (hrnti : u.rnti = (s.ue i).rnti) : Ok { s with ue := Function.update s.ue i u } where
  expects := expects_update h (.inl hphy)
  inv := by
    have hnone : u.expected = 255 := by rw [UeMac.expected, hphy, ite_self]
    change RaInv (fun j => (update s.ue i u j).expected)
      (fun j => (update s.ue i u j).rnti) _ _ _ _ _
    rw [ue_update UeMac.expected, ue_update_eq _ hrnti, hnone]
    exact h.inv.hush i

theorem Ok.processRar (h : s.Ok) {m : List Rar} (hm : m ∈ s.downlink) (hg : s.Expects i m) :
    (s.processRar i m).Ok := by
  have hmem : ∀ x ∈ m, x ∈ s.responses :=
    fun x hx => mem_append_right _ (mem_flatten.2 ⟨m, hm, hx⟩)
  unfold Cell.processRar
  split
  · next hany =>
    obtain ⟨y, hy, hphy⟩ := any_eq_true.1 hany
    have hid : (s.ue i).phyRaPreambleId = (s.ue i).raPreambleId :=
      (h.expects i).resolve_left fun h255 =>
        h.inv.rar_ne y (hmem y hy) ((beq_iff_eq.1 hphy).trans h255)
    have hrec : (s.receiveRar i m).Ok := by
      unfold Cell.receiveRar
      split
      · next hwaiting =>
        refine Ok.recvRaResponses _ h fun x hx => ?_
        obtain ⟨hx, hxid⟩ := mem_filter.1 hx
        have hxid : x.raPreambleId = (s.ue i).phyRaPreambleId := (beq_iff_eq.1 hxid).trans hid.symm
        obtain ⟨hevent, honly⟩ := hg hwaiting x hx hxid
        refine ⟨hmem x hx, fun j => ⟨fun hj => ?_, ?_⟩⟩
        · by_contra hji
          exact honly j hji hj
        · rintro rfl
          rw [UeMac.expected, if_neg hevent, hxid]
      · exact h
    exact hrec.hush rfl rfl
  · exact h

theorem Ok.resetMac (h : s.Ok) (i : Fin n) : (s.resetMac i).Ok := by
  have hset := (h.setQueue (s.queue.cancel (s.ue i).noRaResponseReceivedEvent)).setRnti (i := i)
    (u := { s.ue i with rnti := 0 }) rfl rfl rfl (h.inv.clearRnti i)
  exact hset

/-! ### Steps of the gNB -/

theorem mem_responses {l : List (List Rar)} (hids : m.rapIdRntiMap = s.mac.rapIdRntiMap)
    (hlist : m.rachList = s.mac.rachList) (hl : ∀ y ∈ l, y ∈ s.downlink) :
    ∀ x ∈ responses { s with mac := m, downlink := l }, x ∈ s.responses := by
  intro x hx
  have hrar : m.rarOf = s.mac.rarOf := by
    funext ρ
    rw [GnbMac.rarOf, hids]
    rfl
  rw [responses, hlist, hrar] at hx
  rcases mem_append.1 hx with hx | hx
  · exact mem_append_left _ hx
  · obtain ⟨y, hy, hxy⟩ := mem_flatten.1 hx
    exact mem_append_right _ (mem_flatten.2 ⟨y, hl y hy, hxy⟩)

theorem Ok.processRaPreambles (h : s.Ok) {maxSrs : Nat → Bool}
    (hunheld : ∀ ρ ∈ s.newRntis maxSrs, s.Unheld ρ) (hkeys : s.KeysDiffer maxSrs) {r : Rrc}
    (hst : s.mac.processRaPreambles s.cfg.componentCarrierId maxSrs s.rrc = .ok (r, m)) :
    Ok { s with rrc := r, mac := m } where
  expects := h.expects
  inv := by
    obtain ⟨⟨r', rars⟩, hans, hrest⟩ := ok_of_bind hst
    cases hrest
    have hspec := (GnbMac.spec_answers s.mac s.cfg.componentCarrierId maxSrs s.mac.receivedIds s.rrc
      h.inv.entry_context).ok hans
    obtain ⟨hsub, hansw, hids⟩ := hspec
    have hsent : ∀ x ∈ rars, ∃ y ∈ s.sent, y.preambleId = x.raPreambleId := by
      intro x hx
      have hx := (hids x hx).1
      rw [GnbMac.receivedIds, (perm_insertionSort _ _).mem_iff, mem_dedup] at hx
      obtain ⟨y, hy, hyx⟩ := mem_map.1 hx
      exact ⟨y, mem_append_right _ hy, hyx⟩
    -- an RNTI without a context is one of the next ones
    have hnew : ∀ x ∈ rars, x.rnti ≠ 0 → x.rnti ∉ s.rrc.rntis → s.Unheld x.rnti := by
      intro x hx h0 hxc
      refine hunheld _ ((mem_append.1 (hids x hx).2).resolve_left fun hknown => ?_)
      obtain ⟨id, -, hid⟩ := mem_filterMap.1 hknown
      rcases or_eq_some_iff.1 hid with hres | ⟨-, hzero⟩
      · obtain ⟨e, he, -, heρ⟩ := GnbMac.exists_of_reserved hres
        exact hxc (heρ ▸ h.inv.entry_context e he)
      · split at hzero
        · exact h0 (some.inj hzero).symm
        · cases hzero
    have hinv := h.inv.answer hansw hsent hnew hsub
    refine hinv.mono (Sublist.refl _) (fun x hx => ?_) (fun x hx => ?_) (Sublist.refl _)
      hinv.entry_context
    · rw [sent, append_nil] at hx
      exact mem_append_left _ hx
    · rcases mem_append.1 hx with hx | hx
      · obtain ⟨ρ, hρ, hx⟩ := mem_filterMap.1 hx
        obtain ⟨y, hy, rfl⟩ := mem_map.1 hρ
        obtain ⟨hfree, hdiffer⟩ := hkeys y.rnti (hids y hy).2
        exact mem_append_left _
          (GnbMac.mem_of_rarOf rfl hfree (fun z hz => hdiffer z.rnti (hids z hz).2) hx)
      · exact mem_append_right _ (mem_append_right _ hx)

theorem Ok.grant (h : s.Ok) {granted : Nat} {rars : List Rar}
    (hst : s.mac.buildRarList granted = some (m, rars)) :
    Ok { s with
      mac := m, downlink := if rars.isEmpty then s.downlink else s.downlink ++ [rars] } := by
  unfold GnbMac.buildRarList at hst
  split at hst
  · cases hst
    refine h.mono rfl (Sublist.refl _) (fun _ hx => hx) (fun x hx => ?_) (Sublist.refl _)
      h.inv.entry_context
    exact mem_append_right _ hx
  · next ρ ρs hgranted =>
    obtain ⟨rars', hrars, heq⟩ := map_eq_some_iff.1 hst
    cases heq
    refine h.mono rfl (Sublist.refl _) (fun _ hx => hx) (fun x hx => ?_) (Sublist.refl _)
      h.inv.entry_context
    have hnew : ∀ x ∈ rars, x ∈ s.responses := by
      intro x hx
      have hx := GnbMac.mem_filterMap_of_mapM s.mac hrars x hx
      rw [← hgranted] at hx
      obtain ⟨ρ', hρ', hx⟩ := mem_filterMap.1 hx
      exact mem_append_left _ (mem_filterMap.2 ⟨ρ', mem_of_mem_take (mem_reverse.1 hρ'), hx⟩)
    have hx : x ∈ (if rars.isEmpty then s.downlink else s.downlink ++ [rars]).flatten := hx
    split at hx
    · exact mem_append_right _ hx
    · rw [flatten_append, flatten_singleton, mem_append] at hx
      exact hx.elim (mem_append_right _) (hnew x)

theorem Ok.setRrc (h : s.Ok) (r : Rrc) : (s.setRrc r).Ok := by
  have hm := GnbMac.removedUes_foldl ((s.rrc.ueMap.map UeManager.rnti).filter fun rnti =>
    !(r.ueMap.map UeManager.rnti).contains rnti) s.mac
  refine h.mono rfl hm.entries (fun x hx => ?_) (mem_responses hm.rapIds hm.rachList fun _ h => h)
    (Sublist.refl _) (fun e he => ?_)
  · rcases mem_append.1 hx with hx | hx
    · exact mem_append_left _ hx
    · exact mem_append_right _ (hm.received x hx)
  · by_contra hno
    refine hm.removed e he (mem_filter.2 ⟨h.inv.entry_context e (hm.entries.subset he), ?_⟩)
    have hno : e.rnti ∉ r.ueMap.map UeManager.rnti := hno
    simpa using hno

theorem Ok.recvHandoverRequest (h : s.Ok) {sourceCellId old targetCellId imsi : Nat}
    {bearers : List ErabToBeSetupItem} {maxSrs : Bool}
    (hg : s.Guard (.handoverRequest sourceCellId old targetCellId imsi bearers maxSrs))
    (hst : s.recvHandoverRequest sourceCellId old targetCellId imsi bearers maxSrs = .ok t) :
    t.Ok := by
  unfold Cell.recvHandoverRequest at hst
  split at hst
  · obtain ⟨r, hr, hst⟩ := ok_of_bind hst
    cases hst
    exact h.setRrc r
  · next haccept =>
    simp only [Bool.or_eq_true, Bool.not_eq_true', not_or, Bool.not_eq_false,
      Bool.not_eq_true] at haccept
    obtain ⟨haccept, rfl⟩ := haccept
    obtain ⟨o, ho, hst⟩ := ok_of_bind hst
    obtain ⟨r, hr, hst⟩ := ok_of_bind hst
    cases o with
    | none =>
      cases hst
      exact h.setRrc r
    | some id =>
      cases hst
      obtain ⟨hmem, hfirst⟩ := (GnbMac.spec_findNcRaPreamble s.mac s.rrc s.queue.now s.ncRaPreambles
        pairwise_lt_range').ok ho id rfl
      have hadded := (Rrc.added_recvHandoverRequest _ _ _ _ _ _ _ haccept).ok hr
      have hnext : r.lastAllocatedRnti ∈ s.rrc.freeRntis.head? := by
        rw [hadded.free]
        rfl
      obtain ⟨⟨hquiet, hrars, hsent⟩, hunheld⟩ := hg haccept rfl id hmem hfirst
      obtain ⟨⟨hrnti, hrarsρ⟩, hcommands⟩ := hunheld _ hnext
      have hid : id ≠ 255 := by
        rw [ncRaPreambles, mem_range'_1] at hmem
        omega
      have hinv := h.inv.allocate hid hadded.isFree.1 hadded.isFree.2 hquiet hrnti
        (fun x hx => ⟨hrars x hx, hrarsρ x hx⟩) hsent hcommands (s.queue.now + s.expiryInterval)
      rw [← hadded.rntis] at hinv
      exact ⟨h.expects, hinv⟩

/-! ### Runs -/

theorem Ok.runEvent (h : s.Ok) {e : RaEvent n} (hg : s.MayRun e) : (s.runEvent e).Ok := by
  cases e with
  | startWaitingForRaResponse i => exact h.setUe rfl rfl rfl rfl
  | raResponseTimeout i c => exact h.raResponseTimeout hg

/-- Every step that meets its condition keeps the invariant. -/
theorem Ok.step {a : RaAction n} (h : s.Ok) (hg : s.Guard a) (hst : Step s a t) : t.Ok := by
  cases a with
  | advance t =>
    obtain ⟨q, -, hst⟩ := bind_eq_some_iff.1 hst
    obtain ⟨q', -, hst⟩ := bind_eq_some_iff.1 hst
    cases hst
    exact ⟨h.expects, h.inv⟩
  | elsewhere =>
    cases hst
    exact h.setCounter _
  | connect i =>
    cases hst
    exact h.randomlySelectAndSendRaPreamble hg
  | handover i k =>
    obtain ⟨c, hc, rfl⟩ := map_eq_some_iff.1 hst
    exact h.startNonContentionBasedRandomAccessProcedure hc (hg c hc)
  | event =>
    obtain ⟨⟨e, q⟩, he, hst⟩ := bind_eq_some_iff.1 hst
    obtain ⟨q', -, hst⟩ := bind_eq_some_iff.1 hst
    cases hst
    have hset : (s.setQueues q q').Ok := ⟨h.expects, h.inv⟩
    exact hset.runEvent (hg (e, q) he)
  | resetMac i =>
    cases hst
    exact h.resetMac i
  | resetPhy i =>
    cases hst
    exact h.hush rfl rfl
  | receiveRachPreamble k =>
    obtain ⟨x, hx, rfl⟩ := map_eq_some_iff.1 hst
    refine h.mono rfl (Sublist.refl _) (fun y hy => ?_) (fun _ hy => hy) (Sublist.refl _)
      h.inv.entry_context
    have hx := mem_of_getElem? hx
    rcases mem_append.1 hy with hy | hy
    · exact mem_append_left _ (mem_of_mem_eraseIdx hy)
    · rcases mem_append.1 hy with hy | hy
      · exact mem_append_right _ hy
      · rw [mem_singleton.1 hy]
        exact mem_append_left _ hx
  | losePreamble k =>
    cases hst
    refine h.mono rfl (Sublist.refl _) (fun y hy => ?_) (fun _ hy => hy) (Sublist.refl _)
      h.inv.entry_context
    exact (mem_append.1 hy).elim
      (fun hy => mem_append_left _ (mem_of_mem_eraseIdx hy)) (mem_append_right _)
  | processRaPreambles maxSrs =>
    obtain ⟨hunheld, hkeys⟩ := hg
    rw [Step, step?] at hst
    split at hst
    · cases hst
    · next r m hok =>
      cases hst
      exact h.processRaPreambles hunheld hkeys hok
  | grant granted =>
    obtain ⟨⟨m, rars⟩, hm, rfl⟩ := map_eq_some_iff.1 hst
    exact h.grant hm
  | receiveRar i k =>
    obtain ⟨m, hm, rfl⟩ := map_eq_some_iff.1 hst
    exact h.processRar (mem_of_getElem? hm) (hg m hm)
  | endRar k =>
    cases hst
    refine h.mono rfl (Sublist.refl _) (fun _ hy => hy) ?_ (Sublist.refl _) h.inv.entry_context
    exact mem_responses rfl rfl fun y hy => mem_of_mem_eraseIdx hy
  | handoverRequest sourceCellId old targetCellId imsi bearers maxSrs =>
    exact h.recvHandoverRequest hg (ok_of_toOption hst)
  | call c =>
    have hst : (if c.viaMac s.rrc.cfg s.cfg.componentCarrierId then none
      else ((s.rrc.call c).toOption).map s.setRrc) = some t := hst
    split at hst
    · cases hst
    · obtain ⟨r, -, rfl⟩ := map_eq_some_iff.1 hst
      exact h.setRrc r
  | timer =>
    obtain ⟨⟨e, q'⟩, -, hst⟩ := bind_eq_some_iff.1 hst
    obtain ⟨q, -, hst⟩ := bind_eq_some_iff.1 hst
    obtain ⟨r, -, rfl⟩ := map_eq_some_iff.1 hst
    have hset : (s.setQueues q q').Ok := ⟨h.expects, h.inv⟩
    exact hset.setRrc r

theorem ok_init (n : Nat) (cfg : RaConfig) (rrc : RrcConfig) : (init n cfg rrc).Ok where
  expects := fun _ => .inr rfl
  inv := {
    sent_ne := nofun
    rar_ne := nofun
    entry_ne := nofun
    entry_context := nofun
    entry_ids := .nil
    entry_rntis := .nil
    command_rntis := .nil
    rar_holder := nofun
    rar_rnti := nofun
    rar_entry := nofun
    entry_listener := nofun
    command_entry := nofun
    unassigned := nofun
    distinct := fun _ _ _ h => absurd rfl h }

/-- In every run whose steps meet their conditions, no contention-based preamble is assigned to a UE
in handover, no RNTI reserved for such a UE answers another preamble, and no two UEs have the same
RNTI. -/
theorem raSafe_of_run {n : Nat} {cfg : RaConfig} {rrc : RrcConfig} {s : Cell n}
    (h : Lts.Run Step Guard (init n cfg rrc) s) : s.RaSafe := by
  have hok : s.Ok := Run.invariant (I := Ok) (fun {s t a} hs ha hst => hs.step ha hst)
    (ok_init n cfg rrc) h
  exact hok.raSafe

/-- Two UEs connect at the same time, and another one joins by a handover. -/
theorem raSafe_of_handover : ∃ s : Cell 3, Lts.Run Step Guard (init 3 .default (.single 1 2)) s ∧
    (s.ue 0).rnti = 1 ∧ (s.ue 1).rnti = 2 ∧ (s.ue 2).rnti = 3 ∧ s.RaSafe := by
  have hrun : ((execs Guard step? (init 3 .default (.single 1 2))
      [.connect 1, .connect 2, .handoverRequest 2 7 1 42 [] false, .handover 0 0,
      .receiveRachPreamble 0,
        .receiveRachPreamble 0, .receiveRachPreamble 0, .event, .event, .event,
        .processRaPreambles fun _ => false,
        .grant 3, .receiveRar 0 0, .receiveRar 1 0, .receiveRar 2 0]).map
          fun s => ((s.ue 0).rnti, (s.ue 1).rnti, (s.ue 2).rnti)) = some (1, 2, 3) := by
    decide +kernel
  obtain ⟨s, hs, hv⟩ := map_eq_some_iff.1 hrun
  obtain ⟨h0, hv⟩ := Prod.mk.inj hv
  obtain ⟨h1, h2⟩ := Prod.mk.inj hv
  have hsafe : Run Step Guard (init 3 .default (.single 1 2)) s := run_of_execs id hs
  exact ⟨s, hsafe, h0, h1, h2, raSafe_of_run hsafe⟩

set_option maxRecDepth 4000 in
/-- After 52 contention-based accesses in other cells a UE joins by a handover, with the first
reserved preamble. The next access has the same preamble, and is answered with the RNTI of the UE.
-/
theorem rnti_shared : ∃ s : Cell 2, Lts.Run Step Lts.anyStep (init 2 .default (.single 1 2)) s ∧
    (s.ue 0).rnti = 1 ∧ (s.ue 1).rnti = 1 ∧ ¬ s.RaSafe := by
  have hrun : ((execs anyStep step? (init 2 .default (.single 1 2))
      (replicate 52 .elsewhere ++ [.handoverRequest 2 7 1 42 [] false, .handover 0 0,
        .receiveRachPreamble 0, .event, .processRaPreambles fun _ => false, .grant 1,
        .receiveRar 0 0, .endRar 0, .connect 1, .receiveRachPreamble 0, .event,
        .processRaPreambles fun _ => false, .grant 1, .receiveRar 1 0])).map
          fun s => ((s.ue 0).rnti, (s.ue 1).rnti)) = some (1, 1) := by
    decide +kernel
  obtain ⟨s, hs, hv⟩ := map_eq_some_iff.1 hrun
  obtain ⟨h0, h1⟩ := Prod.mk.inj hv
  refine ⟨s, run_of_execs id hs, h0, h1, fun hsafe => ?_⟩
  have heq := hsafe.distinct 0 1 (h0.trans h1.symm) (by rw [h0]; decide)
  exact absurd heq (by decide)

end Cell

end OranNs3
