import OranNs3.Lib.Keyed
import OranNs3.Rlc.Reassembly

/-!
# The receiving side of an UM entity

`DoReceivePdu` and `ExpireReorderingTimer` of `NrRlcUm` (`nr-rlc-um.cc`). The reception buffer is a
map in the order of the raw sequence numbers, while the reordering window is modular:
`ReassembleOutsideWindow` walks over the map from its smallest number and stops at the first one
inside of the window, so that a PDU which has fallen out of the window behind a wrap stays in the
buffer.

PDUs are numbered without wrapping, as they are sent. Where they come in order, fewer than 512
missing in a row, and no PDU that falls out of the window stands behind the new one in the map
(`UmRx.InOrder`), the PDUs that wait are those received last (`Waiting`), and they are put together
in the order in which they were sent.
-/

namespace OranNs3.Rlc

open Fallible Keyed List

variable {α : Type}

/-- `m_windowSize`. -/
def umWindowSize : Nat := 512

/-- The iterations of a loop over all sequence numbers. -/
def umLoopFuel : Nat := 1025

/-- The receiving side; the packets of `m_rxBuffer` in the order of their sequence numbers. -/
structure UmRx (α : Type) where
  rxBuffer : List (DataPdu α) := []
  vrUr : SequenceNumber10 := {}
  vrUx : SequenceNumber10 := {}
  vrUh : SequenceNumber10 := {}
  reorderingTimer : Bool := false
  reassembler : Reassembler α := {}
deriving DecidableEq

namespace UmRx

/-- The packet of a sequence number. -/
def find (rx : UmRx α) (sn : Nat) : Option (DataPdu α) :=
  Keyed.find? DataPdu.sequenceNumber sn rx.rxBuffer

/-- Whether there is one. -/
def has (rx : UmRx α) (sn : Nat) : Bool := (rx.find sn).isSome

/-- The lower end of the reordering window. -/
def windowBase (rx : UmRx α) : SequenceNumber10 := rx.vrUh.sub umWindowSize

/-- The base that `IsInsideReorderingWindow` sets. -/
def rebase (rx : UmRx α) : UmRx α := { rx with vrUh := rx.vrUh.setModulusBase rx.windowBase }

/-- `IsInsideReorderingWindow`, apart from that base. -/
def isInsideReorderingWindow (rx : UmRx α) (n : SequenceNumber10) : Except RlcError Bool :=
  rx.rebase.windowBase.le (n.setModulusBase rx.windowBase) >>= fun low =>
    if low then (n.setModulusBase rx.windowBase).lt rx.rebase.vrUh else .ok false

/-- The loop of `ReassembleOutsideWindow` over the rest of the map. -/
def reassembleOutside : List (DataPdu α) → UmRx α → Except RlcError (UmRx α)
  | [], rx => .ok { rx with rxBuffer := [] }
  | pdu :: rxBuffer, rx =>
    rx.isInsideReorderingWindow (.ofValue pdu.sequenceNumber) >>= fun inside =>
      if inside then .ok { rx.rebase with rxBuffer := pdu :: rxBuffer }
      else
        reassembleAndDeliver false rx.reassembler pdu >>= fun reassembler =>
          reassembleOutside rxBuffer { rx.rebase with reassembler }

def reassembleOutsideWindow (rx : UmRx α) : Except RlcError (UmRx α) :=
  reassembleOutside rx.rxBuffer rx

/-- The packet of a sequence number, if there is one, is put together and erased. -/
def reassembleSn (rx : UmRx α) (sn : Nat) : Except RlcError (UmRx α) :=
  match rx.find sn with
  | none => .ok rx
  | some pdu =>
    (reassembleAndDeliver false rx.reassembler pdu).map fun reassembler =>
      { rx with
        rxBuffer := Keyed.erase DataPdu.sequenceNumber sn rx.rxBuffer
        reassembler }

def reassembleSnInterval (high : SequenceNumber10) :
    Nat → SequenceNumber10 → UmRx α → Except RlcError (UmRx α)
  | 0, _, _ => .error .infiniteLoop
  | fuel + 1, sn, rx =>
    sn.lt high >>= fun below =>
      if below then rx.reassembleSn sn.value >>= reassembleSnInterval high fuel sn.incr else .ok rx

/-- The bases that `DoReceivePdu` sets first. -/
def setBases (rx : UmRx α) : UmRx α :=
  { rx with
    vrUr := rx.vrUr.setModulusBase rx.windowBase
    vrUh := rx.vrUh.setModulusBase rx.windowBase }

/-- Whether a PDU is discarded. -/
def isDiscarded (rx : UmRx α) (n : SequenceNumber10) : Except RlcError Bool :=
  rx.vrUr.lt n >>= fun above =>
    (if above then n.lt rx.vrUh else .ok false) >>= fun between =>
      if between && rx.has n.value then .ok true
      else rx.windowBase.le n >>= fun low => if low then n.lt rx.vrUr else .ok false

/-- A PDU placed in the reception buffer. -/
def placePdu (rx : UmRx α) (pdu : DataPdu α) : UmRx α :=
  { rx with rxBuffer := Keyed.insert DataPdu.sequenceNumber pdu rx.rxBuffer }

/-- The window behind a PDU that is outside of it. -/
def moveWindow (rx : UmRx α) (n : SequenceNumber10) : Except RlcError (UmRx α) :=
  reassembleOutsideWindow { rx with vrUh := n.add 1 } >>= fun rx =>
    (rx.isInsideReorderingWindow rx.vrUr).map fun inside =>
      if inside then rx.rebase else { rx.rebase with vrUr := rx.rebase.windowBase }

/-- The first raw sequence number from one on without a packet, which is not taken modulo 1024. -/
def firstAbsent (rx : UmRx α) : Nat → Nat → Except RlcError Nat
  | 0, _ => .error .infiniteLoop
  | fuel + 1, sn => if rx.has sn then rx.firstAbsent fuel (sn + 1) else .ok sn

/-- `VR(UR)` behind the PDUs received from it on. -/
def advanceVrUr (rx : UmRx α) : Except RlcError (UmRx α) :=
  if rx.has rx.vrUr.value then
    rx.firstAbsent umLoopFuel (rx.vrUr.value + 1) >>= fun sn =>
      reassembleSnInterval (rx.vrUr.assign sn) umLoopFuel rx.vrUr
        { rx with vrUr := rx.vrUr.assign sn }
  else .ok rx

/-- The bases of the comparisons for the timer. -/
def timerBases (rx : UmRx α) : UmRx α :=
  { rx with
    vrUr := rx.vrUr.setModulusBase rx.windowBase
    vrUx := rx.vrUx.setModulusBase rx.windowBase
    vrUh := rx.vrUh.setModulusBase rx.windowBase }

/-- Whether `t-Reordering` is stopped. -/
def stopReorderingTimer (rx : UmRx α) : Except RlcError (UmRx α) :=
  if rx.reorderingTimer then
    rx.vrUx.le rx.vrUr >>= fun reached =>
      if reached then .ok { rx with reorderingTimer := false }
      else
        (rx.isInsideReorderingWindow rx.vrUx).map fun inside =>
          { rx.rebase with reorderingTimer := inside || rx.vrUx.eq rx.vrUh }
  else .ok rx

/-- Whether `t-Reordering` is started. -/
def startReorderingTimer (rx : UmRx α) : Except RlcError (UmRx α) :=
  if rx.reorderingTimer then .ok rx
  else
    (rx.vrUh.gt rx.vrUr).map fun above =>
      if above then { rx with reorderingTimer := true, vrUx := rx.vrUh } else rx

/-- The actions on a PDU that was placed in the buffer. -/
def acceptPdu (outOfOrderDelivery : Bool) (rx : UmRx α) (n : SequenceNumber10) :
    Except RlcError (UmRx α) :=
  (if outOfOrderDelivery then rx.reassembleOutsideWindow else .ok rx) >>= fun rx =>
    rx.isInsideReorderingWindow n >>= fun inside =>
      (if inside then .ok rx.rebase else rx.rebase.moveWindow n) >>= fun rx =>
        rx.advanceVrUr >>= fun rx => rx.timerBases.stopReorderingTimer >>= startReorderingTimer

def doReceivePdu (outOfOrderDelivery : Bool) (rx : UmRx α) (pdu : DataPdu α) :
    Except RlcError (UmRx α) :=
  let n := (SequenceNumber10.ofValue pdu.sequenceNumber).setModulusBase rx.windowBase
  rx.setBases.isDiscarded n >>= fun discarded =>
    if discarded then .ok rx.setBases else acceptPdu outOfOrderDelivery (rx.setBases.placePdu pdu) n

/-- The first sequence number from one on without a packet. -/
def firstMissing (rx : UmRx α) : Nat → SequenceNumber10 → Except RlcError SequenceNumber10
  | 0, _ => .error .infiniteLoop
  | fuel + 1, n => if rx.has n.value then rx.firstMissing fuel n.incr else .ok n

/-- `ExpireReorderingTimer`; the timer is not pending any more. -/
def expireReorderingTimer (rx : UmRx α) : Except RlcError (UmRx α) :=
  rx.firstMissing umLoopFuel rx.vrUx >>= fun vrUr =>
    reassembleSnInterval vrUr umLoopFuel rx.vrUr { rx with vrUr, reorderingTimer := false }
      >>= startReorderingTimer

/-! ## What waits -/

section waiting
variable {P : Nat → DataPdu α} {Q : Nat → Reassembler α → Prop} {r u h i j k b : Nat} {B : List Nat}
  {l : List (DataPdu α)} {rx : UmRx α} {n : SequenceNumber10}

/-- The numbers of the PDUs that have been received since the last one put together, in order, up to
the one before `h`; fewer than 512 are missing before each. -/
def Pending : Nat → List Nat → Nat → Prop
  | r, [], h => r = h
  | r, j :: B, h => r ≤ j ∧ j < r + umWindowSize ∧ Pending (j + 1) B h

theorem Pending.le : ∀ {B : List Nat} {r : Nat}, Pending r B h → r ≤ h
  | [], _, hp => Nat.le_of_eq hp
  | _ :: _, _, ⟨h1, _, hp⟩ => h1.trans ((Nat.le_succ _).trans hp.le)

theorem Pending.mem : ∀ {B : List Nat} {r : Nat}, Pending r B h → j ∈ B → r ≤ j ∧ j < h
  | i :: B, _, ⟨h1, _, hp⟩, hj => by
    rcases mem_cons.1 hj with rfl | hj
    · exact ⟨h1, hp.le⟩
    · have := hp.mem hj
      omega

theorem Pending.sorted : ∀ {B : List Nat} {r : Nat}, Pending r B h → B.Pairwise (· < ·)
  | [], _, _ => Pairwise.nil
  | _ :: _, _, ⟨_, _, hp⟩ => Pairwise.cons (fun _ hi => (hp.mem hi).1) hp.sorted

theorem Pending.snoc (hle : h ≤ k) (hlt : k < h + umWindowSize) : ∀ {B : List Nat} {r : Nat},
    Pending r B h → Pending r (B ++ [k]) (k + 1)
  | [], r, hp => by
    obtain rfl : r = h := hp
    exact ⟨hle, hlt, rfl⟩
  | _ :: _, _, ⟨h1, h2, hp⟩ => ⟨h1, h2, hp.snoc hle hlt⟩

/-- The reception buffer holds the PDUs of some numbers. -/
structure Stored (P : Nat → DataPdu α) (B : List Nat) (l : List (DataPdu α)) : Prop where
  ordered : Keyed.Ordered DataPdu.sequenceNumber l
  perm : l.Perm (B.map P)
  number : ∀ j ∈ B, (P j).sequenceNumber = j % 1024

theorem stored_nil : Stored P [] [] := ⟨ordered_nil, List.Perm.refl _, forall_mem_nil _⟩

theorem Stored.mem (hs : Stored P B l) {pdu : DataPdu α} (hpdu : pdu ∈ l) : ∃ j ∈ B, pdu = P j := by
  obtain ⟨j, hj, rfl⟩ := mem_map.1 (hs.perm.mem_iff.1 hpdu)
  exact ⟨j, hj, rfl⟩

theorem Stored.find (hs : Stored P B l) (hB : ∀ j ∈ B, u ≤ j ∧ j < u + 1024) (hi : u ≤ i)
    (hlt : i < u + 1024) :
    Keyed.find? DataPdu.sequenceNumber (i % 1024) l = if i ∈ B then some (P i) else none := by
  split
  · next hmem =>
    rw [← hs.number i hmem]
    exact Keyed.find?_of_mem hs.ordered.nodup (hs.perm.mem_iff.2 (mem_map_of_mem hmem))
  · next hmem =>
    rw [Keyed.find?_eq_none]
    intro hkey
    obtain ⟨pdu, hpdu, hsn⟩ := mem_map.1 hkey
    obtain ⟨j, hj, rfl⟩ := hs.mem hpdu
    rw [hs.number j hj] at hsn
    have := hB j hj
    obtain rfl : j = i := by omega
    exact hmem hj

theorem Stored.insert (hs : Stored P B l) (hB : ∀ j ∈ B, j < k ∧ k < j + 1024)
    (hk : (P k).sequenceNumber = k % 1024) :
    Stored P (B ++ [k]) (Keyed.insert DataPdu.sequenceNumber (P k) l) := by
  have hnew : (P k).sequenceNumber ∉ l.map DataPdu.sequenceNumber := by
    intro hmem
    obtain ⟨pdu, hpdu, hsn⟩ := mem_map.1 hmem
    obtain ⟨j, hj, rfl⟩ := hs.mem hpdu
    rw [hs.number j hj, hk] at hsn
    have := hB j hj
    omega
  refine ⟨hs.ordered.insert, ?_, fun j hj => ?_⟩
  · rw [map_append]
    exact (insert_perm hnew).trans ((hs.perm.cons (P k)).trans (perm_append_singleton _ _).symm)
  · rcases mem_append.1 hj with hj | hj
    · exact hs.number j hj
    · obtain rfl := mem_singleton.1 hj
      exact hk

theorem Stored.pop (hs : Stored P (j :: B) l) :
    Stored P B (Keyed.erase DataPdu.sequenceNumber (j % 1024) l) := by
  rw [← hs.number j mem_cons_self]
  exact ⟨hs.ordered.erase, erase_perm hs.ordered.nodup hs.perm,
    fun i hi => hs.number i (mem_cons_of_mem j hi)⟩

theorem Stored.eq_map (hs : Stored P B l) (hB : B.Pairwise fun i j => i % 1024 < j % 1024) :
    l = B.map P := by
  refine hs.ordered.eq_of_perm (pairwise_map.2 (Pairwise.imp_of_mem ?_ hB)) hs.perm
  intro i j hi hj hlt
  rwa [hs.number i hi, hs.number j hj]

/-- Every PDU that comes next or after fewer than 512 others keeps a property of the reassembly. -/
def Reassembles (P : Nat → DataPdu α) (Q : Nat → Reassembler α → Prop) (s : Nat) : Prop :=
  ∀ {r j : Nat} {rs : Reassembler α}, r ≤ j → j < r + umWindowSize → j < s → Q r rs →
    Spec (fun _ : RlcError => False) (Q (j + 1)) (reassembleAndDeliver false rs (P j))

/-- The PDUs `B` wait from `u` on; all that were received before them have been put together. -/
structure Waiting (P : Nat → DataPdu α) (Q : Nat → Reassembler α → Prop) (r u h : Nat)
    (B : List Nat) (rx : UmRx α) : Prop where
  pending : Pending r B h
  above : ∀ j ∈ B, u ≤ j
  le : u ≤ h
  h_le : h ≤ u + umWindowSize
  stored : Stored P B rx.rxBuffer
  holds : Q r rx.reassembler

theorem Waiting.range (hw : Waiting P Q r u h B rx) : ∀ j ∈ B, u ≤ j ∧ j < u + 1024 := by
  intro j hj
  have hh := hw.h_le
  have hjh := (hw.pending.mem hj).2
  rw [umWindowSize] at hh
  exact ⟨hw.above j hj, by omega⟩

theorem Waiting.find_eq (hw : Waiting P Q r u h B rx) (hi : u ≤ i) (hlt : i < u + 1024) :
    rx.find (i % 1024) = if i ∈ B then some (P i) else none :=
  hw.stored.find hw.range hi hlt

theorem Waiting.has_eq (hw : Waiting P Q r u h B rx) (hi : u ≤ i) (hlt : i < u + 1024) :
    rx.has (i % 1024) = decide (i ∈ B) := by
  rw [has, hw.find_eq hi hlt]
  split
  · next hmem => simp [hmem]
  · next hmem => simp [hmem]

/-- Only the buffer and the reassembly change. -/
structure SameVariables (rx rx' : UmRx α) : Prop where
  vrUr : rx'.vrUr = rx.vrUr
  vrUx : rx'.vrUx = rx.vrUx
  vrUh : rx'.vrUh = rx.vrUh
  reorderingTimer : rx'.reorderingTimer = rx.reorderingTimer

theorem SameVariables.refl : SameVariables rx rx := ⟨rfl, rfl, rfl, rfl⟩

theorem SameVariables.trans {rx' rx'' : UmRx α} (h : SameVariables rx rx')
    (h' : SameVariables rx' rx'') : SameVariables rx rx'' :=
  ⟨h'.vrUr.trans h.vrUr, h'.vrUx.trans h.vrUx, h'.vrUh.trans h.vrUh,
    h'.reorderingTimer.trans h.reorderingTimer⟩

theorem Waiting.reassembleSn {s : Nat} (hw : Waiting P Q r i h B rx) (hQ : Reassembles P Q s)
    (hs : h ≤ s) (hi : i < h) :
    Spec (fun _ => False)
      (fun rx' => SameVariables rx rx' ∧ ∃ r' B', Waiting P Q r' (i + 1) h B' rx')
      (rx.reassembleSn (i % 1024)) := by
  have hh : h ≤ i + 1 + umWindowSize := hw.h_le.trans (Nat.add_le_add_right (Nat.le_succ i) _)
  rw [UmRx.reassembleSn, hw.find_eq le_rfl (by omega)]
  by_cases hmem : i ∈ B
  · rw [if_pos hmem]
    cases B with
    | nil => cases hmem
    | cons j B =>
      obtain ⟨hrj, hjr, hpending⟩ := hw.pending
      have hij : j = i := by
        rcases mem_cons.1 hmem with rfl | hmem
        · rfl
        · have h1 := (hpending.mem hmem).1
          have h2 := hw.above j mem_cons_self
          omega
      subst hij
      refine Spec.map
        ((hQ hrj hjr (hi.trans_le hs) hw.holds).imp fun rs hrs => ⟨⟨rfl, rfl, rfl, rfl⟩, ?_⟩)
      exact ⟨j + 1, B, hpending, fun k hk => (hpending.mem hk).1, hi, hh, hw.stored.pop, hrs⟩
  · rw [if_neg hmem]
    refine ⟨.refl, r, B, hw.pending, fun k hk => ?_, hi, hh, hw.stored, hw.holds⟩
    refine lt_of_le_of_ne (hw.above k hk) ?_
    rintro rfl
    exact hmem hk

theorem Waiting.interval {s : Nat} {high : SequenceNumber10} (hQ : Reassembles P Q s) (hs : h ≤ s)
    (hhigh : high.Rep b (k + 1024)) (hkh : k ≤ h) (hkb : k < b) :
    ∀ {fuel i r : Nat} {B : List Nat} {rx : UmRx α} {n : SequenceNumber10}, Waiting P Q r i h B rx →
      n.Rep b (i + 1024) → b ≤ i + 1024 → i ≤ k → k < i + fuel →
      Spec (fun _ => False) (fun rx' => SameVariables rx rx' ∧ ∃ r' B', Waiting P Q r' k h B' rx')
        (reassembleSnInterval high fuel n rx)
  | 0, _, _, _, _, _, _, _, _, hik, hfuel => by omega
  | fuel + 1, i, r, B, rx, n, hw, hn, hb, hik, hfuel => by
    have hcmp := hn.lt hhigh hb (by omega) (by omega) (by omega)
    have hvalue : n.value = i % 1024 := by
      rw [hn.value]
      omega
    have hincr : n.incr.Rep b (i + 1 + 1024) := by
      have := hn.incr
      rwa [show i + 1024 + 1 = i + 1 + 1024 by omega] at this
    rcases lt_or_ge i k with hlt | hge
    · rw [decide_eq_true (by omega)] at hcmp
      rw [reassembleSnInterval, hcmp, ok_bind, if_pos rfl, hvalue]
      refine (hw.reassembleSn hQ hs (hlt.trans_le hkh)).bind fun rx₁ h₁ => ?_
      obtain ⟨hsame, r₁, B₁, hw₁⟩ := h₁
      refine (Waiting.interval hQ hs hhigh hkh hkb hw₁ hincr (by omega) hlt (by omega)).imp
        fun rx₂ h₂ => ?_
      exact ⟨hsame.trans h₂.1, h₂.2⟩
    · obtain rfl := Nat.le_antisymm hik hge
      rw [decide_eq_false (lt_irrefl _)] at hcmp
      rw [reassembleSnInterval, hcmp, ok_bind, if_neg Bool.false_ne_true]
      exact ⟨.refl, r, B, hw⟩

end waiting

/-! ## The window -/

section window
variable {P : Nat → DataPdu α} {Q : Nat → Reassembler α → Prop} {r u h i j k s : Nat} {B : List Nat}
  {l : List (DataPdu α)} {rx : UmRx α} {n : SequenceNumber10} {pdu : DataPdu α}

theorem windowBase_value (rx : UmRx α) (hh : rx.vrUh.value = h % 1024) :
    rx.windowBase.value = (h + 512) % 1024 := by
  have hrep : SequenceNumber10.Rep { rx.vrUh with modulusBase := 0 } 0 (h + 1024) :=
    ⟨hh.trans (Nat.add_mod_right h 1024).symm, rfl⟩
  have hsub := (hrep.sub (show umWindowSize ≤ h + 1024 by rw [umWindowSize]; omega)).value
  rw [umWindowSize, Nat.add_sub_assoc (by omega)] at hsub
  exact hsub

theorem rep_windowBase (hh : rx.vrUh.value = h % 1024) (hn : n.value = k % 1024) :
    (n.setModulusBase rx.windowBase).Rep (h + 512) k := ⟨hn, windowBase_value rx hh⟩

theorem rep_rebase (hh : rx.vrUh.value = h % 1024) : rx.rebase.vrUh.Rep (h + 512) (h + 1024) :=
  rep_windowBase hh (hh.trans (Nat.add_mod_right h 1024).symm)

theorem isInside_eq (rx : UmRx α) (hh : rx.vrUh.value = h % 1024) (hn : n.value = k % 1024)
    (hk : h + 512 ≤ k) (hlt : k < h + 1536) :
    rx.isInsideReorderingWindow n = .ok (decide (k < h + 1024)) := by
  have hbase : rx.rebase.windowBase.Rep (h + 512) (h + 512) :=
    ⟨windowBase_value rx.rebase hh, (rep_rebase hh).base⟩
  have hrep := rep_windowBase hh hn
  rw [isInsideReorderingWindow, hbase.le hrep le_rfl (by omega) hk (by omega), ok_bind,
    decide_eq_true hk, if_pos rfl, hrep.lt (rep_rebase hh) hk (by omega) (by omega) (by omega)]

theorem isInside_below (rx : UmRx α) (hh : rx.vrUh.value = h % 1024) (hn : n.value = j % 1024)
    (hj : j < h) (hle : h ≤ j + 1024) :
    rx.isInsideReorderingWindow n = .ok (decide (h ≤ j + umWindowSize)) := by
  rw [umWindowSize]
  by_cases hin : h ≤ j + 512
  · rw [isInside_eq rx hh (k := j + 1024) (by omega) (by omega) (by omega)]
    exact congrArg Except.ok (by simp only [decide_eq_decide]; omega)
  · rw [isInside_eq rx hh (k := j + 2048) (by omega) (by omega) (by omega)]
    exact congrArg Except.ok (by simp only [decide_eq_decide]; omega)

/-- The loop over PDUs in the order of their numbers: those that are outside of the window are put
together. -/
theorem reassembleOutside_spec (hQ : Reassembles P Q s) (hs : h ≤ s) (hin : h ≤ k + umWindowSize) :
    ∀ {B : List Nat} {r : Nat} (rx : UmRx α), rx.vrUh.value = h % 1024 → Pending r B h → k ∈ B →
      (∀ j ∈ B, (P j).sequenceNumber = j % 1024 ∧ h ≤ j + 1024) → Q r rx.reassembler →
      Spec (fun _ => False)
        (fun rx' => ∃ r' B' rs, rx' = { rx.rebase with rxBuffer := B'.map P, reassembler := rs } ∧
          Pending r' B' h ∧ B' <:+ B ∧ (∀ j ∈ B', h ≤ j + umWindowSize) ∧ Q r' rs)
        (reassembleOutside (B.map P) rx)
  | [], _, _, _, _, hmem, _, _ => absurd hmem not_mem_nil
  | j :: B, r, rx, hh, ⟨hrj, hjr, hp⟩, hmem, hB, hr => by
    obtain ⟨hnum, hle⟩ := hB j mem_cons_self
    have hjh : j < h := hp.le
    have hof : (SequenceNumber10.ofValue (P j).sequenceNumber).value = j % 1024 := by
      rw [SequenceNumber10.ofValue, hnum, Nat.mod_mod]
    rw [map_cons, reassembleOutside, isInside_below _ hh hof hjh hle, ok_bind]
    by_cases hj : h ≤ j + umWindowSize
    · rw [decide_eq_true hj, if_pos rfl]
      refine ⟨r, j :: B, rx.reassembler, rfl, ⟨hrj, hjr, hp⟩, suffix_refl _, fun i hi => ?_, hr⟩
      rcases mem_cons.1 hi with rfl | hi
      · exact hj
      · exact hj.trans (Nat.add_le_add_right ((Nat.le_succ j).trans (hp.mem hi).1) _)
    · rw [decide_eq_false hj, if_neg Bool.false_ne_true]
      refine (hQ hrj hjr (hjh.trans_le hs) hr).bind fun rs hrs => ?_
      have hmem' : k ∈ B := by
        rcases mem_cons.1 hmem with rfl | hmem
        · exact absurd hin hj
        · exact hmem
      refine (reassembleOutside_spec hQ hs hin { rx.rebase with reassembler := rs } hh hp hmem'
        (fun i hi => hB i (mem_cons_of_mem j hi)) hrs).imp fun rx' h' => ?_
      obtain ⟨r', B', rs', heq, hp', hsuf, hin', hr'⟩ := h'
      exact ⟨r', B', rs', heq, hp', hsuf.trans (suffix_cons j B), hin', hr'⟩

/-- No packet that falls out of the window with a new sequence number stands behind it in the map.
-/
def InOrder (rx : UmRx α) (sn : Nat) : Prop :=
  ∀ pdu ∈ rx.rxBuffer, umWindowSize ≤ (sn + 1024 - pdu.sequenceNumber) % 1024 →
    pdu.sequenceNumber < sn
deriving Decidable

theorem InOrder.lt (hin : rx.InOrder (k % 1024)) (hs : Stored P B rx.rxBuffer) (hj : j ∈ B)
    (hlt : k < j + 1024) (hout : j + umWindowSize ≤ k) : j % 1024 < k % 1024 := by
  rw [umWindowSize] at hout
  have hpdu := hin (P j) (hs.perm.mem_iff.2 (mem_map_of_mem hj))
  rw [hs.number j hj, umWindowSize] at hpdu
  exact hpdu (by omega)

/-- `ReassembleOutsideWindow` behind the number `k`, that was received last: all PDUs that are
outside of the window are put together. -/
theorem spec_reassembleOutsideWindow (rx : UmRx α) (hQ : Reassembles P Q s) (hs : k < s)
    (hh : rx.vrUh.value = (k + 1) % 1024) (hp : Pending r (B ++ [k]) (k + 1))
    (hst : Stored P (B ++ [k]) rx.rxBuffer) (hB : ∀ j ∈ B, k < j + 1024)
    (hin : ∀ j ∈ B, j + umWindowSize ≤ k → j % 1024 < k % 1024) (hr : Q r rx.reassembler) :
    Spec (fun _ => False)
      (fun rx' => ∃ r' B' l rs, rx' = { rx.rebase with rxBuffer := l, reassembler := rs } ∧
        Pending r' B' (k + 1) ∧ Stored P B' l ∧ Q r' rs ∧ B' <:+ B ++ [k] ∧
        ∀ j ∈ B', k + 1 ≤ j + umWindowSize)
      rx.reassembleOutsideWindow := by
  have hmem : k ∈ B ++ [k] := by simp
  have hw : umWindowSize = 512 := rfl
  have hle : ∀ j ∈ B ++ [k], j ≤ k ∧ k < j + 1024 := by
    intro j hj
    refine ⟨Nat.le_of_lt_succ (hp.mem hj).2, ?_⟩
    rcases mem_append.1 hj with hj | hj
    · exact hB j hj
    · obtain rfl := mem_singleton.1 hj
      omega
  rw [reassembleOutsideWindow]
  by_cases hall : ∀ j ∈ B, k < j + umWindowSize
  · -- the walk stops at the first packet, whichever it is
    have hall' : ∀ j ∈ B ++ [k], k + 1 ≤ j + umWindowSize := by
      intro j hj
      rcases mem_append.1 hj with hj | hj
      · exact hall j hj
      · obtain rfl := mem_singleton.1 hj
        omega
    cases hl : rx.rxBuffer with
    | nil =>
      have hk := hst.perm.mem_iff.2 (mem_map_of_mem hmem)
      rw [hl] at hk
      cases hk
    | cons pdu l =>
      obtain ⟨j, hj, rfl⟩ := hst.mem (hl ▸ mem_cons_self)
      have hof : (SequenceNumber10.ofValue (P j).sequenceNumber).value = j % 1024 := by
        rw [SequenceNumber10.ofValue, hst.number j hj, Nat.mod_mod]
      obtain ⟨hjk, hkj⟩ := hle j hj
      rw [reassembleOutside, isInside_below _ hh hof (by omega) (by omega), ok_bind,
        decide_eq_true (hall' j hj), if_pos rfl]
      rw [hl] at hst
      exact ⟨r, B ++ [k], P j :: l, rx.reassembler, rfl, hp, hst, hr, suffix_refl _, hall'⟩
  · -- a packet falls out of the window: no raw number has wrapped since
    push Not at hall
    obtain ⟨i, hi, hik⟩ := hall
    have hblock : ∀ j ∈ B ++ [k], j / 1024 = k / 1024 := by
      intro j hj
      have h1 := hin i hi hik
      have h2 := hle i (mem_append_left _ hi)
      have h3 := hle j hj
      rcases mem_append.1 hj with hjB | hjk
      · by_cases hout : j + umWindowSize ≤ k
        · have h4 := hin j hjB hout
          omega
        · omega
      · obtain rfl := mem_singleton.1 hjk
        rfl
    have hmap : rx.rxBuffer = (B ++ [k]).map P := by
      refine hst.eq_map (hp.sorted.imp_of_mem fun ha hb hab => ?_)
      have h1 := hblock _ ha
      have h2 := hblock _ hb
      omega
    rw [hmap]
    refine (reassembleOutside_spec hQ (Nat.succ_le_of_lt hs) (by omega) rx hh hp hmem
      (fun j hj => ?_) hr).imp fun rx' h' => ?_
    · have := hle j hj
      exact ⟨hst.number j hj, by omega⟩
    · obtain ⟨r', B', rs, heq, hp', hsuf, hin', hr'⟩ := h'
      rw [hmap] at hst
      exact ⟨r', B', _, rs, heq, hp', ⟨hst.ordered.sublist (hsuf.sublist.map P), Perm.refl _,
        fun j hj => hst.number j (hsuf.subset hj)⟩, hr', hsuf, hin'⟩

/-- The window behind the number `k` that was received last, where `b` is the base of `VR(UR)`. -/
structure Moved (P : Nat → DataPdu α) (Q : Nat → Reassembler α → Prop) (rx : UmRx α) (u k b : Nat)
    (rx' : UmRx α) : Prop where
  waiting : ∃ r B, Waiting P Q r u (k + 1) B rx' ∧ (u ∈ B → k + 1 < b)
  vrUr : rx'.vrUr.Rep b (u + 1024)
  base : b ≤ u + 1024
  vrUh : rx'.vrUh.value = (k + 1) % 1024
  vrUx : rx'.vrUx = rx.vrUx
  reorderingTimer : rx'.reorderingTimer = rx.reorderingTimer

/-- The window moves behind a PDU that was placed in the buffer. -/
theorem spec_moveWindow (rx : UmRx α) (hQ : Reassembles P Q s) (hs : k < s) (hk : h ≤ k)
    (hkh : k < h + umWindowSize) (huh : u ≤ h) (hhu : h ≤ u + umWindowSize)
    (habove : ∀ j ∈ B, u ≤ j) (hp : Pending r B h) (hst : Stored P (B ++ [k]) rx.rxBuffer)
    (hin : ∀ j ∈ B, j + umWindowSize ≤ k → j % 1024 < k % 1024) (hr : Q r rx.reassembler)
    (hUr : rx.vrUr.Rep (h + 512) (u + 1024)) (hn : n.Rep (h + 512) (k + 1024)) :
    Spec (fun _ => False) (fun rx' => ∃ u' b, Moved P Q rx u' k b rx') (rx.moveWindow n) := by
  have hw : umWindowSize = 512 := rfl
  have hnext : (n.add 1).value = (k + 1) % 1024 := by
    rw [hn.add.value]
    omega
  have hB : ∀ j ∈ B, k < j + 1024 := by
    intro j hj
    have := habove j hj
    omega
  rw [moveWindow]
  refine (spec_reassembleOutsideWindow { rx with vrUh := n.add 1 } hQ hs hnext
    (hp.snoc hk hkh) hst hB hin hr).bind fun rx₁ h₁ => ?_
  obtain ⟨r₁, B₁, l, rs, rfl, hp₁, hst₁, hr₁, hsuf, hin₁⟩ := h₁
  have habove₁ : ∀ j ∈ B₁, u ≤ j := by
    intro j hj
    rcases mem_append.1 (hsuf.subset hj) with hj | hj
    · exact habove j hj
    · obtain rfl := mem_singleton.1 hj
      omega
  have hvalue : rx.vrUr.value = u % 1024 := by
    rw [hUr.value]
    omega
  have hins := isInside_below { UmRx.rebase { rx with vrUh := n.add 1 } with
    rxBuffer := l, reassembler := rs } hnext (n := rx.vrUr) hvalue (by omega) (by omega)
  refine Spec.map ?_
  show Spec _ _ (UmRx.isInsideReorderingWindow _ rx.vrUr)
  rw [hins]
  by_cases hu : k + 1 ≤ u + umWindowSize
  · rw [decide_eq_true hu]
    refine ⟨u, h + 512, ⟨r₁, B₁, ⟨hp₁, habove₁, by omega, hu, hst₁, hr₁⟩, fun hmem => ?_⟩,
      hUr, by omega, hnext, rfl, rfl⟩
    rcases mem_append.1 (hsuf.subset hmem) with hmem | hmem
    · have := (hp.mem hmem).2
      omega
    · obtain rfl := mem_singleton.1 hmem
      omega
  · rw [decide_eq_false hu]
    refine ⟨k + 1 - 512, k + 1 + 512, ⟨r₁, B₁, ⟨hp₁, fun j hj => ?_, by omega, by omega, hst₁, hr₁⟩,
      fun _ => by omega⟩, ?_, by omega, hnext, rfl, rfl⟩
    · have := hin₁ j hj
      omega
    · have hval := windowBase_value { rx with vrUh := n.add 1 } hnext
      refine ⟨?_, ?_⟩
      · refine Eq.trans hval ?_
        omega
      · exact hval

theorem firstAbsent_eq (hw : Waiting P Q r u h B rx) : ∀ (fuel : Nat) {i : Nat} (sn : Nat),
    sn + u = u % 1024 + i → sn ≤ 1024 → u ≤ i → i ≤ h → 1024 < sn + fuel →
    ∃ i' sn', rx.firstAbsent fuel sn = .ok sn' ∧ sn' % 1024 = i' % 1024 ∧ i ≤ i' ∧ i' ≤ h
  | 0, _, _, _, hsn, _, _, hfuel => by omega
  | fuel + 1, i, sn, heq, hsn, hui, hih, hfuel => by
    rw [firstAbsent]
    split
    · next hhas =>
      have hsn' : sn < 1024 := by
        refine lt_of_le_of_ne hsn ?_
        rintro rfl
        obtain ⟨pdu, hpdu⟩ := Option.isSome_iff_exists.1 hhas
        obtain ⟨j, hj, rfl⟩ := hw.stored.mem (mem_of_find? hpdu)
        have hkey := key_of_find? hpdu
        rw [hw.stored.number j hj] at hkey
        omega
      have hmod : sn = i % 1024 := by omega
      rw [hmod, hw.has_eq hui (by omega), decide_eq_true_eq] at hhas
      have hlt := (hw.pending.mem hhas).2
      obtain ⟨i', sn', h1, h2, h3, h4⟩ := firstAbsent_eq hw fuel (i := i + 1) (sn + 1)
        (by omega) hsn' (by omega) hlt (by omega)
      exact ⟨i', sn', h1, h2, by omega, h4⟩
    · exact ⟨i, sn, rfl, by omega, le_rfl, hih⟩

theorem Moved.advance {rx' : UmRx α} {b : Nat} (hm : Moved P Q rx u k b rx')
    (hQ : Reassembles P Q s) (hs : k < s) :
    Spec (fun _ => False) (fun rx₂ => ∃ u', u' ≤ k + 1 ∧ (∃ r B, Waiting P Q r u' (k + 1) B rx₂) ∧
        rx₂.vrUr.value = u' % 1024 ∧ rx₂.vrUh.value = (k + 1) % 1024 ∧ rx₂.vrUx = rx.vrUx ∧
        rx₂.reorderingTimer = rx.reorderingTimer) rx'.advanceVrUr := by
  obtain ⟨r, B, hw, hb⟩ := hm.waiting
  have hvalue : rx'.vrUr.value = u % 1024 := by
    rw [hm.vrUr.value]
    omega
  rw [advanceVrUr, hvalue, hw.has_eq le_rfl (by omega)]
  by_cases hmem : u ∈ B
  · rw [decide_eq_true hmem, if_pos rfl]
    have hlt := (hw.pending.mem hmem).2
    obtain ⟨i, sn, hok, hmod, hle, hih⟩ := firstAbsent_eq hw umLoopFuel (i := u + 1)
      (u % 1024 + 1) (by omega) (by omega) (by omega) hlt (by rw [umLoopFuel]; omega)
    rw [hok, ok_bind]
    have hnew : (rx'.vrUr.assign sn).Rep b (i + 1024) := hm.vrUr.assign (by omega)
    have hw' : Waiting P Q r u (k + 1) B { rx' with vrUr := rx'.vrUr.assign sn } :=
      ⟨hw.pending, hw.above, hw.le, hw.h_le, hw.stored, hw.holds⟩
    have hh := hw.h_le
    rw [umWindowSize] at hh
    refine (hw'.interval hQ hs hnew hih (hih.trans_lt (hb hmem)) hm.vrUr hm.base (by omega)
      (by rw [umLoopFuel]; omega)).imp fun rx₂ h₂ => ?_
    obtain ⟨hsame, r₂, B₂, hw₂⟩ := h₂
    refine ⟨i, hih, ⟨r₂, B₂, hw₂⟩, ?_, ?_, hsame.vrUx.trans hm.vrUx,
      hsame.reorderingTimer.trans hm.reorderingTimer⟩
    · rw [hsame.vrUr, hnew.value]
      omega
    · rw [hsame.vrUh]
      exact hm.vrUh
  · rw [decide_eq_false hmem, if_neg Bool.false_ne_true]
    exact ⟨u, hw.le, ⟨r, B, hw⟩, hvalue, hm.vrUh, hm.vrUx, hm.reorderingTimer⟩

end window

/-! ## The steps -/

section steps
variable {P : Nat → DataPdu α} {Q : Nat → Reassembler α → Prop} {u h k s : Nat} {rx : UmRx α}
  {pdu : DataPdu α}

/-- The receiving side at `VR(UR) = u` and `VR(UH) = h`: the PDUs between them that have been
received wait, and a reordering timer that runs waits for a number between them. -/
structure At (P : Nat → DataPdu α) (Q : Nat → Reassembler α → Prop) (rx : UmRx α) (u h : Nat) :
    Prop where
  waiting : ∃ r B, Waiting P Q r u h B rx
  vrUr : rx.vrUr.value = u % 1024
  vrUh : rx.vrUh.value = h % 1024
  timer : rx.reorderingTimer = true → ∃ x, u < x ∧ x ≤ h ∧ rx.vrUr.Rep (h + 512) (u + 1024) ∧
    rx.vrUx.Rep (h + 512) (x + 1024) ∧ rx.vrUh.Rep (h + 512) (h + 1024)

/-- The variables at `VR(UR) = u` and `VR(UH) = h`: a reordering timer that runs waits for a number
between them. -/
structure Timed (rx : UmRx α) (u h : Nat) : Prop where
  vrUr : rx.vrUr.value = u % 1024
  vrUh : rx.vrUh.value = h % 1024
  timer : rx.reorderingTimer = true → ∃ x, u < x ∧ x ≤ h ∧ rx.vrUr.Rep (h + 512) (u + 1024) ∧
    rx.vrUx.Rep (h + 512) (x + 1024) ∧ rx.vrUh.Rep (h + 512) (h + 1024)

/-- Only the variables change. -/
def SamePackets (rx rx' : UmRx α) : Prop :=
  rx'.rxBuffer = rx.rxBuffer ∧ rx'.reassembler = rx.reassembler

theorem startReorderingTimer_timed (rx : UmRx α) (hle : u ≤ h) (hhu : h ≤ u + 512)
    (hUr : rx.vrUr.Rep (h + 512) (u + 1024)) (hUh : rx.vrUh.Rep (h + 512) (h + 1024))
    (htimer : rx.reorderingTimer = true → ∃ x, u < x ∧ x ≤ h ∧ rx.vrUx.Rep (h + 512) (x + 1024)) :
    Spec (fun _ => False) (fun rx' => Timed rx' u h ∧
      SamePackets rx rx') rx.startReorderingTimer := by
  have hUrv : rx.vrUr.value = u % 1024 := by
    rw [hUr.value]
    omega
  have hUhv : rx.vrUh.value = h % 1024 := by
    rw [hUh.value]
    omega
  rw [startReorderingTimer]
  split
  · next hpending =>
    obtain ⟨x, h1, h2, h3⟩ := htimer hpending
    exact ⟨⟨hUrv, hUhv, fun _ => ⟨x, h1, h2, hUr, h3, hUh⟩⟩, rfl, rfl⟩
  · next hpending =>
    rw [hUh.gt hUr (by omega) (by omega) (by omega) (by omega)]
    refine Spec.map ?_
    rw [spec_ok]
    split
    · next habove =>
      have hlt : u < h := by
        have := of_decide_eq_true habove
        omega
      exact ⟨⟨hUrv, hUhv, fun _ => ⟨h, hlt, le_rfl, hUr, hUh, hUh⟩⟩, rfl, rfl⟩
    · exact ⟨⟨hUrv, hUhv, fun h => absurd h hpending⟩, rfl, rfl⟩

/-- The timer behind the number `h`: it goes on if it waits for a number that is missing in the
window. -/
theorem timer_timed (hle : u ≤ h) (hhu : h ≤ u + 512) (hUr : rx.vrUr.value = u % 1024)
    (hUh : rx.vrUh.value = h % 1024)
    (htimer : rx.reorderingTimer = true → ∃ x, x ≤ h ∧ h < x + 1024 ∧ rx.vrUx.value = x % 1024) :
    Spec (fun _ => False) (fun rx' => Timed rx' u h ∧ SamePackets rx rx')
      (rx.timerBases.stopReorderingTimer >>= startReorderingTimer) := by
  have hUr' : rx.timerBases.vrUr.Rep (h + 512) (u + 1024) :=
    rep_windowBase hUh (hUr.trans (Nat.add_mod_right u 1024).symm)
  have hUh' : rx.timerBases.vrUh.Rep (h + 512) (h + 1024) := rep_rebase hUh
  have hstop : Spec (fun _ => False) (fun rx' => Timed rx' u h ∧ SamePackets rx rx')
      (startReorderingTimer { rx.timerBases with reorderingTimer := false }) :=
    startReorderingTimer_timed { rx.timerBases with reorderingTimer := false } hle hhu hUr' hUh'
      fun h => Bool.noConfusion h
  rw [stopReorderingTimer]
  split
  · next hpending =>
    obtain ⟨x, hxh, hhx, hx⟩ := htimer hpending
    rcases Nat.eq_or_lt_of_le hxh with rfl | hlt
    · -- it waits for the end of the window
      have hUx : rx.timerBases.vrUx.Rep (x + 512) (x + 1024) :=
        rep_windowBase hUh (hx.trans (Nat.add_mod_right x 1024).symm)
      have hcmp := hUx.le hUr' (by omega) (by omega) (by omega) (by omega)
      rcases lt_or_ge u x with hux | hxu
      · have heq : rx.timerBases.vrUx.eq rx.timerBases.vrUh = true := by
          rw [hUx.eq hUh' (by omega) (by omega)]
          exact decide_eq_true rfl
        rw [decide_eq_false (by omega)] at hcmp
        rw [hcmp, ok_bind, if_neg Bool.false_ne_true,
          isInside_eq rx.timerBases hUh (k := x + 1024) hUx.value (by omega) (by omega), heq,
          decide_eq_false (lt_irrefl _)]
        show Spec _ _ (startReorderingTimer { rx.timerBases with reorderingTimer := true })
        exact startReorderingTimer_timed { rx.timerBases with reorderingTimer := true } hle hhu hUr'
          hUh' fun _ => ⟨x, hux, le_rfl, hUx⟩
      · rw [decide_eq_true (by omega)] at hcmp
        rw [hcmp, ok_bind, if_pos rfl]
        exact hstop
    rw [isInside_below rx.timerBases hUh (n := rx.timerBases.vrUx) hx hlt hhx.le, umWindowSize]
    by_cases hin : h ≤ x + 512
    · have hUx : rx.timerBases.vrUx.Rep (h + 512) (x + 1024) :=
        rep_windowBase hUh (hx.trans (Nat.add_mod_right x 1024).symm)
      have hcmp := hUx.le hUr' (by omega) (by omega) (by omega) (by omega)
      rcases lt_or_ge u x with hux | hxu
      · rw [decide_eq_false (by omega)] at hcmp
        rw [hcmp, ok_bind, if_neg Bool.false_ne_true, decide_eq_true hin]
        show Spec _ _ (startReorderingTimer { rx.timerBases with reorderingTimer := true })
        exact startReorderingTimer_timed { rx.timerBases with reorderingTimer := true } hle hhu hUr'
          hUh' fun _ => ⟨x, hux, hxh, hUx⟩
      · rw [decide_eq_true (by omega)] at hcmp
        rw [hcmp, ok_bind, if_pos rfl]
        exact hstop
    · have hUx : rx.timerBases.vrUx.Rep (h + 512) (x + 2048) := rep_windowBase hUh (by omega)
      have hne : rx.timerBases.vrUx.eq rx.timerBases.vrUh = false := by
        rw [SequenceNumber10.eq, hUx.value, hUh'.value, decide_eq_false_iff_not]
        omega
      rw [hUx.le hUr' (by omega) (by omega) (by omega) (by omega), ok_bind,
        decide_eq_false (by omega), if_neg Bool.false_ne_true, decide_eq_false hin, hne]
      exact hstop
  · next hpending =>
    rw [ok_bind]
    exact startReorderingTimer_timed rx.timerBases hle hhu hUr' hUh' fun h => absurd h hpending

section
variable (hw : ∃ r B, Waiting P Q r u h B rx)
include hw

theorem At.of_timed {rx' : UmRx α} (ht : Timed rx' u h)
    (hsame : SamePackets rx rx') : At P Q rx' u h := by
  obtain ⟨r, B, hwait⟩ := hw
  refine ⟨⟨r, B, hwait.pending, hwait.above, hwait.le, hwait.h_le, ?_, ?_⟩, ht.vrUr, ht.vrUh,
    ht.timer⟩
  · rw [hsame.1]
    exact hwait.stored
  · rw [hsame.2]
    exact hwait.holds

theorem spec_startReorderingTimer
    (hUr : rx.vrUr.Rep (h + 512) (u + 1024)) (hUh : rx.vrUh.Rep (h + 512) (h + 1024))
    (htimer : rx.reorderingTimer = true → ∃ x, u < x ∧ x ≤ h ∧ rx.vrUx.Rep (h + 512) (x + 1024)) :
    Spec (fun _ => False) (fun rx' => At P Q rx' u h) rx.startReorderingTimer := by
  obtain ⟨r, B, hwait⟩ := hw
  exact (startReorderingTimer_timed rx hwait.le hwait.h_le hUr hUh htimer).imp fun rx' h' =>
    At.of_timed ⟨r, B, hwait⟩ h'.1 h'.2

theorem spec_timer (hUr : rx.vrUr.value = u % 1024) (hUh : rx.vrUh.value = h % 1024)
    (htimer : rx.reorderingTimer = true → ∃ x, x < h ∧ h < x + 1024 ∧ rx.vrUx.value = x % 1024) :
    Spec (fun _ => False) (fun rx' => At P Q rx' u h)
      (rx.timerBases.stopReorderingTimer >>= startReorderingTimer) := by
  obtain ⟨r, B, hwait⟩ := hw
  refine (timer_timed hwait.le hwait.h_le hUr hUh fun hpending => ?_).imp fun rx' h' =>
    At.of_timed ⟨r, B, hwait⟩ h'.1 h'.2
  obtain ⟨x, hxh, hhx, hx⟩ := htimer hpending
  exact ⟨x, hxh.le, hhx, hx⟩

end

/-- A PDU that comes next or after fewer than 512 others is received, where no packet that falls out
of the window stands behind it in the map. -/
theorem At.receive (hat : At P Q rx u h) (hQ : Reassembles P Q s) (hs : k < s) (hk : h ≤ k)
    (hkh : k < h + umWindowSize) (hnum : (P k).sequenceNumber = k % 1024)
    (hin : rx.InOrder (k % 1024)) :
    Spec (fun _ => False) (fun rx' => ∃ u', At P Q rx' u' (k + 1))
      (rx.doReceivePdu false (P k)) := by
  have hw : umWindowSize = 512 := rfl
  obtain ⟨r, B, hwait⟩ := hat.waiting
  have huh := hwait.le
  have hhu := hwait.h_le
  have hUr : rx.setBases.vrUr.Rep (h + 512) (u + 1024) :=
    rep_windowBase hat.vrUh (hat.vrUr.trans (Nat.add_mod_right u 1024).symm)
  have hUh : rx.setBases.vrUh.Rep (h + 512) (h + 1024) := rep_rebase hat.vrUh
  have hn : ((SequenceNumber10.ofValue (P k).sequenceNumber).setModulusBase rx.windowBase).Rep
      (h + 512) (k + 1024) := by
    refine rep_windowBase hat.vrUh ?_
    rw [SequenceNumber10.ofValue, hnum]
    simp
  have hlow : rx.setBases.windowBase.Rep (h + 512) (h + 512) :=
    ⟨windowBase_value rx.setBases hat.vrUh, hUh.base⟩
  have hdiscard : rx.setBases.isDiscarded
      ((SequenceNumber10.ofValue (P k).sequenceNumber).setModulusBase rx.windowBase) =
      .ok false := by
    have hbetween := hn.lt hUh (by omega) (by omega) (by omega) (by omega)
    have hbelow := hn.lt hUr (by omega) (by omega) (by omega) (by omega)
    rw [decide_eq_false (by omega)] at hbetween hbelow
    rw [isDiscarded, hUr.lt hn (by omega) (by omega) (by omega) (by omega), ok_bind, hbetween,
      ite_self, ok_bind, hlow.le hn le_rfl (by omega) (by omega) (by omega), ok_bind, hbelow,
      ite_self]
    rfl
  have hB : ∀ j ∈ B, j < k ∧ k < j + 1024 := by
    intro j hj
    have h1 := hwait.above j hj
    have h2 := (hwait.pending.mem hj).2
    omega
  have hinside : (rx.setBases.placePdu (P k)).isInsideReorderingWindow
      ((SequenceNumber10.ofValue (P k).sequenceNumber).setModulusBase rx.windowBase) =
      .ok false := by
    rw [isInside_eq (rx.setBases.placePdu (P k)) hat.vrUh hn.value (by omega) (by omega),
      decide_eq_false (by omega)]
  have hmove := spec_moveWindow (rx.setBases.placePdu (P k)).rebase hQ hs hk hkh huh hhu
    hwait.above hwait.pending (hwait.stored.insert hB hnum)
    (fun j hj hout => hin.lt hwait.stored hj (hB j hj).2 hout) hwait.holds hUr hn
  rw [doReceivePdu, hdiscard, ok_bind, if_neg Bool.false_ne_true, acceptPdu,
    if_neg Bool.false_ne_true, ok_bind, hinside, ok_bind, if_neg Bool.false_ne_true]
  refine hmove.bind fun rx₁ h₁ => ?_
  obtain ⟨u₁, b, hmoved⟩ := h₁
  refine (hmoved.advance hQ hs).bind fun rx₂ h₂ => ?_
  obtain ⟨u₂, hle, hw₂, hUr₂, hUh₂, hUx₂, htimer₂⟩ := h₂
  refine (spec_timer hw₂ hUr₂ hUh₂ fun hpending => ?_).imp fun rx' hat' => ⟨u₂, hat'⟩
  obtain ⟨x, hux, hxh, -, hx, -⟩ := hat.timer (htimer₂.symm.trans hpending)
  refine ⟨x, by omega, by omega, ?_⟩
  rw [hUx₂]
  refine hx.value.trans ?_
  omega

theorem firstMissing_eq {r b : Nat} {B : List Nat} (hw : Waiting P Q r u h B rx) :
    ∀ (fuel : Nat) {i : Nat} {n : SequenceNumber10}, n.Rep b (i + 1024) → u ≤ i → i ≤ h →
      h < i + fuel → ∃ n' i', rx.firstMissing fuel n = .ok n' ∧ n'.Rep b (i' + 1024) ∧ i ≤ i' ∧
        i' ≤ h
  | 0, _, _, _, _, hih, hfuel => by omega
  | fuel + 1, i, n, hn, hui, hih, hfuel => by
    have hh := hw.h_le
    rw [umWindowSize] at hh
    have hvalue : n.value = i % 1024 := by
      rw [hn.value]
      omega
    have hincr : n.incr.Rep b (i + 1 + 1024) := by
      have := hn.incr
      rwa [show i + 1024 + 1 = i + 1 + 1024 by omega] at this
    rw [firstMissing, hvalue, hw.has_eq hui (by omega)]
    by_cases hmem : i ∈ B
    · rw [decide_eq_true hmem, if_pos rfl]
      obtain ⟨n', i', h1, h2, h3, h4⟩ := firstMissing_eq hw fuel hincr (by omega)
        (hw.pending.mem hmem).2 (by omega)
      exact ⟨n', i', h1, h2, by omega, h4⟩
    · rw [decide_eq_false hmem, if_neg Bool.false_ne_true]
      exact ⟨n, i, rfl, hn, le_rfl, hih⟩

theorem At.expire (hat : At P Q rx u h) (hQ : Reassembles P Q s) (hs : h ≤ s)
    (hpending : rx.reorderingTimer = true) :
    Spec (fun _ => False) (fun rx' => ∃ u', At P Q rx' u' h) rx.expireReorderingTimer := by
  obtain ⟨r, B, hw⟩ := hat.waiting
  obtain ⟨x, hux, hxh, hUr, hUx, hUh⟩ := hat.timer hpending
  have hhu := hw.h_le
  rw [umWindowSize] at hhu
  obtain ⟨n, y, hok, hn, hxy, hyh⟩ := firstMissing_eq hw umLoopFuel hUx hux.le hxh
    (by rw [umLoopFuel]; omega)
  rw [expireReorderingTimer, hok, ok_bind]
  have hw' : Waiting P Q r u h B { rx with vrUr := n, reorderingTimer := false } :=
    ⟨hw.pending, hw.above, hw.le, hw.h_le, hw.stored, hw.holds⟩
  refine (hw'.interval hQ hs hn hyh (by omega) hUr (by omega) (by omega)
    (by rw [umLoopFuel]; omega)).bind fun rx₁ h₁ => ?_
  obtain ⟨hsame, r₁, B₁, hw₁⟩ := h₁
  refine (spec_startReorderingTimer ⟨r₁, B₁, hw₁⟩ ?_ ?_ fun ht => ?_).imp fun rx' hat' => ⟨y, hat'⟩
  · rw [hsame.vrUr]
    exact hn
  · rw [hsame.vrUh]
    exact hUh
  · rw [hsame.reorderingTimer] at ht
    cases ht

theorem At.imp {P' : Nat → DataPdu α} {Q' : Nat → Reassembler α → Prop} (hat : At P Q rx u h)
    (hP : ∀ j, j < h → P' j = P j) (hQ : ∀ r rs, r ≤ h → Q r rs → Q' r rs) : At P' Q' rx u h := by
  obtain ⟨r, B, hw⟩ := hat.waiting
  have hmap : B.map P' = B.map P := map_congr_left fun j hj => hP j (hw.pending.mem hj).2
  refine ⟨⟨r, B, hw.pending, hw.above, hw.le, hw.h_le, ⟨hw.stored.ordered, ?_, fun j hj => ?_⟩,
    hQ r _ hw.pending.le hw.holds⟩, hat.vrUr, hat.vrUh, hat.timer⟩
  · rw [hmap]
    exact hw.stored.perm
  · rw [hP j (hw.pending.mem hj).2]
    exact hw.stored.number j hj

theorem at_init {rs : Reassembler α} (hQ : Q 0 rs) : At P Q { reassembler := rs } 0 0 :=
  ⟨⟨0, [], rfl, forall_mem_nil _, le_rfl, Nat.zero_le _, stored_nil, hQ⟩, rfl, rfl,
    fun h => Bool.noConfusion h⟩

end steps

end UmRx

end OranNs3.Rlc
