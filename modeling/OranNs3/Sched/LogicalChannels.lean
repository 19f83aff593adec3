import Mathlib.Algebra.Ring.Nat
import OranNs3.Lib.Keyed

/-!
# The logical channels of the scheduler

The scheduler knows of each logical channel how many bytes its RLC entity has: a STATUS PDU, a
retransmission and a transmission queue. When it assigns bytes to the channel, `AssignedData` takes
one of them as sent. From bytes for the transmission queue it subtracts the RLC header in 32 bits,
so that fewer bytes than the header count as some `2 ^ 32`: the queue is emptied. Otherwise a
channel loses no more than it was assigned (`assignSafe_iff`).
-/

namespace OranNs3

open List

/-- The difference of two 32-bit integers. -/
def subU32 (a b : Nat) : Nat := if b ≤ a then a - b else 2 ^ 32 + a - b

theorem subU32_of_le {a b : Nat} (h : b ≤ a) : subU32 a b = a - b := if_pos h

/-- `LogicalChannelConfigListElement_s::ResourceType_e`. -/
inductive ResourceType where
  | qbtNonGbr
  | qbtGbr
  | qbtDgbr
  deriving DecidableEq

/-- `NrMacSchedulerLC`. -/
structure Lc where
  id : Nat
  rlcTransmissionQueueSize : Nat
  rlcRetransmissionQueueSize : Nat
  rlcStatusPduSize : Nat
  resourceType : ResourceType
  eRabGuaranteedBitrateDl : Nat
  deriving DecidableEq

/-- `NrMacSchedulerLCG`: the channels as the hash table is visited. -/
structure Lcg where
  id : Nat
  lcMap : List Lc
  deriving DecidableEq

/-- The `type` of an assignment. -/
inductive LinkType where
  | dl
  | ul
  deriving DecidableEq

/-- An `Assignation`. -/
structure Assignation where
  lcg : Nat
  lcId : Nat
  bytes : Nat
  deriving DecidableEq

variable (lc : Lc)

/-- `GetTotalSize`, in 32 bits. -/
def Lc.totalSize : Nat :=
  (lc.rlcTransmissionQueueSize + lc.rlcRetransmissionQueueSize + lc.rlcStatusPduSize) % 2 ^ 32

/-- The bytes that the three queues have. -/
def Lc.buffered : Nat :=
  lc.rlcTransmissionQueueSize + lc.rlcRetransmissionQueueSize + lc.rlcStatusPduSize

/-- The channel of an id. -/
def Lcg.findLc (lcg : Lcg) (lcId : Nat) : Option Lc := Keyed.find? Lc.id lcId lcg.lcMap

/-- The groups of a UE as the hash table is visited. A key is there once. -/
structure UeLcg where
  groups : List Lcg
  nodup : (groups.map Lcg.id).Nodup
  channels : ∀ g ∈ groups, (g.lcMap.map Lc.id).Nodup

/-- The channels that have bytes, with the ids of their groups. -/
def UeLcg.active (ueLCG : UeLcg) : List (Nat × Lc) :=
  ueLCG.groups.flatMap fun g => (g.lcMap.filter fun lc => 0 < lc.totalSize).map fun lc => (g.id, lc)

theorem UeLcg.nodup_active (ueLCG : UeLcg) : (ueLCG.active.map fun c => (c.1, c.2.id)).Nodup := by
  rw [UeLcg.active, map_flatMap, nodup_flatMap]
  constructor
  · intro g hg
    rw [map_map]
    have hids : ((g.lcMap.filter fun lc => 0 < lc.totalSize).map Lc.id).Nodup :=
      (ueLCG.channels g hg).sublist (List.filter_sublist.map _)
    rw [show ((fun c : Nat × Lc => (c.1, c.2.id)) ∘ fun lc : Lc => (g.id, lc)) =
      (fun i => (g.id, i)) ∘ Lc.id from rfl, ← map_map]
    exact hids.map fun i j hij => (Prod.mk.inj hij).2
  · refine (pairwise_map.1 ueLCG.nodup).imp fun {g g'} hne => ?_
    intro x hx hx'
    simp only [map_map, mem_map, Function.comp_apply] at hx hx'
    obtain ⟨lc, -, rfl⟩ := hx
    obtain ⟨lc', -, heq⟩ := hx'
    exact hne (Prod.mk.inj heq).1.symm

/-! ## `AssignedData` -/

/-- The RLC header that is reckoned with: more for SRB1. -/
def rlcOverhead (lcId : Nat) (type : LinkType) : Nat := if lcId = 1 ∧ type = .dl then 4 else 2

/-- What remains in the transmission queue. -/
def Lc.transmitted (lcId size : Nat) (type : LinkType) : Nat :=
  let sent := subU32 size (rlcOverhead lcId type)
  let queue :=
    if lc.rlcTransmissionQueueSize ≤ sent then 0 else subU32 lc.rlcTransmissionQueueSize sent
  -- so that the next opportunity is not too small for the RLC
  let queue := if type = .ul ∧ 0 < queue ∧ queue < 12 then 12 else queue
  if type = .dl ∧ 0 < queue ∧ queue < 10 then 10 else queue

/-- The channel after the assignment. -/
def Lc.assigned (lcId size : Nat) (type : LinkType) : Lc :=
  if 0 < lc.rlcStatusPduSize ∧ lc.rlcStatusPduSize ≤ size then { lc with rlcStatusPduSize := 0 }
  else if 0 < lc.rlcRetransmissionQueueSize ∧ lc.rlcRetransmissionQueueSize ≤ size then
    { lc with rlcRetransmissionQueueSize := 0 }
  else if 0 < lc.rlcTransmissionQueueSize then
    { lc with rlcTransmissionQueueSize := lc.transmitted lcId size type }
  else lc

/-- The operands of the subtractions that this makes. -/
def Lc.subtractions (lcId size : Nat) (type : LinkType) : List (Nat × Nat) :=
  let sent := subU32 size (rlcOverhead lcId type)
  if 0 < lc.rlcStatusPduSize ∧ lc.rlcStatusPduSize ≤ size then []
  else if 0 < lc.rlcRetransmissionQueueSize ∧ lc.rlcRetransmissionQueueSize ≤ size then []
  else if 0 < lc.rlcTransmissionQueueSize then
    (size, rlcOverhead lcId type) ::
      if lc.rlcTransmissionQueueSize ≤ sent then []
      else [(size, rlcOverhead lcId type), (lc.rlcTransmissionQueueSize, sent)]
  else []

/-- `AssignedData`; there is an exception for an unknown channel. -/
def Lcg.assignedData (lcg : Lcg) (lcId size : Nat) (type : LinkType) : Option Lcg :=
  (lcg.findLc lcId).map fun lc =>
    { lcg with lcMap := Keyed.modify Lc.id lcId (fun _ => lc.assigned lcId size type) lcg.lcMap }

/-- The channel loses at most the bytes that it was assigned, and no subtraction wraps. -/
def AssignSafe (lcg : Lcg) (lcId size : Nat) (type : LinkType) : Prop :=
  ∀ lc lcg' lc', lcg.findLc lcId = some lc → lcg.assignedData lcId size type = some lcg' →
    lcg'.findLc lcId = some lc' → lc.buffered ≤ lc'.buffered + size ∧
    ∀ s ∈ lc.subtractions lcId size type, s.2 ≤ s.1

/-- The bytes are for the STATUS PDU or the retransmission queue. -/
def Lc.Earlier (size : Nat) : Prop :=
  (0 < lc.rlcStatusPduSize ∧ lc.rlcStatusPduSize ≤ size) ∨
    (0 < lc.rlcRetransmissionQueueSize ∧ lc.rlcRetransmissionQueueSize ≤ size)
deriving Decidable

variable {lc lc' : Lc} {lcg lcg' : Lcg} {lcId size k : Nat} {type : LinkType}

theorem Lc.id_assigned : (lc.assigned lcId size type).id = lc.id := by
  unfold Lc.assigned
  split
  · rfl
  · split
    · rfl
    · split <;> rfl

theorem findLc_assignedData (h : lcg.findLc lcId = some lc)
    (hcall : lcg.assignedData lcId size type = some lcg') :
    lcg'.findLc lcId = some (lc.assigned lcId size type) ∧ ∀ k, k ≠ lcId →
      lcg'.findLc k = lcg.findLc k := by
  have hid : (lc.assigned lcId size type).id = lcId := Lc.id_assigned.trans (Keyed.key_of_find? h)
  rw [Lcg.assignedData, h] at hcall
  cases hcall
  constructor
  · refine (Keyed.find?_modify_self fun _ _ => hid).trans ?_
    rw [show Keyed.find? Lc.id lcId lcg.lcMap = some lc from h]
    rfl
  · intro k hk
    exact Keyed.find?_modify_of_ne (fun _ _ => hid) hk

theorem le_transmitted (h : rlcOverhead lcId type ≤ size) :
    lc.rlcTransmissionQueueSize ≤ lc.transmitted lcId size type + size := by
  have hsent : subU32 size (rlcOverhead lcId type) ≤ size := by
    rw [subU32_of_le h]
    exact Nat.sub_le _ _
  unfold Lc.transmitted
  generalize subU32 size (rlcOverhead lcId type) = sent at hsent
  by_cases hqueue : lc.rlcTransmissionQueueSize ≤ sent
  · simp only [if_pos hqueue]
    simp
    omega
  · simp only [if_neg hqueue, subU32_of_le (Nat.le_of_not_le hqueue)]
    split <;> split <;> omega

theorem assignedData_iff :
    (lc.buffered ≤ (lc.assigned lcId size type).buffered + size ∧
      ∀ s ∈ lc.subtractions lcId size type, s.2 ≤ s.1) ↔
        (lc.Earlier size ∨ lc.rlcTransmissionQueueSize = 0 ∨ rlcOverhead lcId type ≤ size) := by
  unfold Lc.assigned Lc.subtractions Lc.Earlier
  by_cases hstatus : 0 < lc.rlcStatusPduSize ∧ lc.rlcStatusPduSize ≤ size
  · simp only [if_pos hstatus, Lc.buffered]
    refine iff_of_true ⟨by omega, by simp⟩ (.inl (.inl hstatus))
  · by_cases hretx : 0 < lc.rlcRetransmissionQueueSize ∧ lc.rlcRetransmissionQueueSize ≤ size
    · simp only [if_neg hstatus, if_pos hretx, Lc.buffered]
      refine iff_of_true ⟨by omega, by simp⟩ (.inl (.inr hretx))
    · by_cases htx : 0 < lc.rlcTransmissionQueueSize
      · simp only [if_neg hstatus, if_neg hretx, if_pos htx]
        constructor
        · rintro ⟨-, hsub⟩
          exact .inr (.inr (hsub _ mem_cons_self))
        · intro h
          have hover : rlcOverhead lcId type ≤ size := by
            rcases h with h | h | h
            · exact (h.elim hstatus hretx).elim
            · omega
            · exact h
          have hle : lc.rlcTransmissionQueueSize ≤ lc.transmitted lcId size type + size :=
            le_transmitted hover
          refine ⟨by simp only [Lc.buffered]; omega, ?_⟩
          split
          · simpa using hover
          · next hqueue => simpa using ⟨hover, (Nat.lt_of_not_le hqueue).le⟩
      · simp only [if_neg hstatus, if_neg hretx, if_neg htx]
        exact iff_of_true ⟨by omega, by simp⟩ (.inr (.inl (by omega)))

/-- `AssignedData` is safe if and only if the bytes are for the STATUS PDU or the retransmission
queue, the transmission queue is empty, or there are as many as the RLC header is reckoned to have.
-/
theorem assignSafe_iff (lcg : Lcg) (lcId size : Nat) (type : LinkType) :
    AssignSafe lcg lcId size type ↔
    ∀ lc, lcg.findLc lcId = some lc → lc.Earlier size ∨ lc.rlcTransmissionQueueSize = 0 ∨
      rlcOverhead lcId type ≤ size := by
  constructor
  · intro h lc hlc
    have hcall : ∃ lcg', lcg.assignedData lcId size type = some lcg' := by
      rw [Lcg.assignedData, hlc]
      exact ⟨_, rfl⟩
    obtain ⟨lcg', hcall⟩ := hcall
    exact assignedData_iff.1 (h lc lcg' _ hlc hcall (findLc_assignedData hlc hcall).1)
  · intro h lc lcg' lc' hlc hcall hlc'
    obtain rfl := Option.some.inj ((findLc_assignedData hlc hcall).1.symm.trans hlc')
    exact assignedData_iff.2 (h lc hlc)

/-- Four bytes are assigned in the DL, of which three are the header of the MAC: the last one
empties a queue of 1000 bytes. -/
theorem not_assignSafe : ¬ ∀ lcg lcId size type, AssignSafe lcg lcId size type := by
  intro h
  have hlc := (h ⟨1, [⟨3, 1000, 0, 0, .qbtNonGbr, 0⟩]⟩ 3 1 .dl) ⟨3, 1000, 0, 0, .qbtNonGbr, 0⟩
    ⟨1, [⟨3, 0, 0, 0, .qbtNonGbr, 0⟩]⟩ ⟨3, 0, 0, 0, .qbtNonGbr, 0⟩ (by decide) (by decide)
    (by decide)
  exact absurd hlc.1 (by decide)

end OranNs3
