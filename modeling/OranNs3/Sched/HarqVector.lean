import OranNs3.Lib.Keyed
import OranNs3.Lib.Run

/-!
# The HARQ processes of a UE

`NrMacHarqVector` (`nr-mac-harq-vector.cc`) and the processes it holds (`nr-mac-harq-process.h`).
The vector is an `unordered_map` that gets its keys once, in `SetMaxSize`; here it is the list of
its entries in the order of its iterators, which is any order (`Shuffle`). A process is an `Option`:
one that is active has a status other than `INACTIVE` and a DCI, one that is not has neither.

A vector is well formed (`HarqVector.Wf`) when its keys are distinct and as many as its size, and
`m_usedSize` counts the active processes. Every operation keeps this, so that the assertion of
`Erase` holds (`HarqVector.Wf.insert`).
-/

namespace OranNs3

open Bool Keyed List Option

/-- The order in which the entries of a hash table are visited: any permutation. -/
structure Shuffle where
  app : ∀ {α : Type}, List α → List α
  perm : ∀ {α : Type} (l : List α), (app l).Perm l

/-- The order of insertion. -/
def Shuffle.id : Shuffle := ⟨fun l => l, fun _ => .rfl⟩

/-- `m_ueMap` has no entry for an RNTI that is looked up, a HARQ vector none for a process id, an
element of a vector is out of range, `NS_FATAL_ERROR` is reached in `ProcessHARQFeedbacks`
(`inactiveProcess`) or where new data is scheduled (`noHarqSpace`), `Insert` would overwrite an
active process, or another assertion fails. -/
inductive SchedError
  | missingUe
  | missingProcess
  | outOfRange
  | inactiveProcess
  | noHarqSpace
  | overwritesActive
  | assertion
deriving DecidableEq

/-- `DciInfoElementTdma::DciFormat`. -/
inductive DciFormat
  | dl
  | ul
deriving DecidableEq

/-- `DciInfoElementTdma::VarTtiType`. -/
inductive VarTtiType
  | srs
  | data
  | ctrl
  | msg3
deriving DecidableEq

/-- `DciInfoElementTdma`, without the precoding matrices, the bandwidth part
and the power control, which the scheduler only copies. -/
structure Dci where
  rnti : Nat
  format : DciFormat
  symStart : Nat
  numSym : Nat
  mcs : Nat
  rank : Nat
  tbSize : Nat
  ndi : Nat
  rv : Nat
  type : VarTtiType
  harqProcess : Nat
  rbgBitmask : List Bool
deriving DecidableEq

/-- `RlcPduInfo`. -/
structure RlcPduInfo where
  lcid : Nat
  size : Nat
deriving DecidableEq

/-- `HarqProcess::Status` of an active process. -/
inductive HarqStatus
  | waitingFeedback
  | receivedFeedback
deriving DecidableEq

/-- An active `HarqProcess`. -/
structure ActiveHarq where
  status : HarqStatus
  timer : Nat
  dci : Dci
  rlcPduInfo : List RlcPduInfo
deriving DecidableEq

/-- `HarqProcess` (`nr-mac-harq-process.h`): `none` has `m_active = false`, `m_status = INACTIVE`
and no `m_dciElement`, as the default constructor and `Erase` leave it. -/
abbrev HarqProcess := Option ActiveHarq

/-- `NrMacHarqVector`. -/
structure HarqVector where
  maxSize : Nat
  usedSize : Nat
  procs : List (Nat × HarqProcess)
deriving DecidableEq

namespace HarqVector

/-- `SetMaxSize` of a new vector. -/
def setMaxSize (order : Shuffle) (size : Nat) : HarqVector :=
  ⟨size, 0, order.app ((List.range size).map fun i => (i, none))⟩

variable (v : HarqVector)

/-- `Find`; `none` is `End()`. -/
def find? (id : Nat) : Option HarqProcess :=
  (Keyed.find? Prod.fst id v.procs).map Prod.snd

/-- The reference that `Get` returns, or that is reached through the
iterator of `Find`. -/
def get (id : Nat) : Except SchedError HarqProcess :=
  match v.find? id with
  | some p => .ok p
  | none => .error .missingProcess

/-- An assignment through that reference. -/
def set (id : Nat) (p : HarqProcess) : HarqVector :=
  { v with procs := Keyed.modify Prod.fst id (fun _ => (id, p)) v.procs }

/-- The number of active processes. -/
def count : Nat := v.procs.countP fun q => q.2.isSome

/-- `Erase`. The size has eight bits. -/
def erase (id : Nat) : Except SchedError HarqVector := do
  let _ ← v.get id
  let w : HarqVector := { v.set id none with usedSize := (v.usedSize + 255) % 256 }
  if w.count = w.usedSize then .ok w else .error .assertion

def firstAvailableId : Nat :=
  ((v.procs.find? fun q => q.2.isNone).map Prod.fst).getD 255

def canInsert : Bool := decide (v.usedSize < v.maxSize)

/-- `Insert`: the id of the process and the vector, or `none` where it
returns false. -/
def insert (p : ActiveHarq) : Except SchedError (Option (Nat × HarqVector)) :=
  if v.maxSize ≤ v.usedSize then .ok none
  else if v.firstAvailableId = 255 then .ok none
  else
    match v.find? v.firstAvailableId with
    | none => .error .missingProcess
    | some (some _) => .error .overwritesActive
    | some none =>
      let w := v.set v.firstAvailableId (some p)
      if w.firstAvailableId = v.firstAvailableId then .error .overwritesActive
      else .ok (some (v.firstAvailableId, { w with usedSize := (v.usedSize + 1) % 256 }))

/-! ## Well-formed vectors -/

/-- A vector as `SetMaxSize` makes it and the operations leave it. -/
structure Wf : Prop where
  nodup : (v.procs.map Prod.fst).Nodup
  size : v.procs.length = v.maxSize
  bound : v.maxSize < 256
  ids : ∀ q ∈ v.procs, q.1 < v.maxSize
  used : v.usedSize = v.count

/-- What holds of every active process, with its id. -/
def Forall (P : Nat → ActiveHarq → Prop) (v : HarqVector) : Prop :=
  ∀ q ∈ v.procs, ∀ a, q.2 = some a → P q.1 a

variable {v w : HarqVector} {id id' : Nat} {p q : HarqProcess} {a : ActiveHarq}
  {P : Nat → ActiveHarq → Prop}

theorem wf_setMaxSize (order : Shuffle) {size : Nat} (h : size < 256) :
    Wf (setMaxSize order size) := by
  have hperm := order.perm ((List.range size).map fun i => (i, (none : HarqProcess)))
  refine ⟨?_, ?_, h, fun q hq => ?_, ?_⟩
  · refine (hperm.map Prod.fst).nodup_iff.2 ?_
    simpa [List.map_map, Function.comp_def] using List.nodup_range
  · simp [setMaxSize, hperm.length_eq]
  · obtain ⟨i, hi, rfl⟩ := List.mem_map.1 (hperm.mem_iff.1 hq)
    exact List.mem_range.1 hi
  · simp [setMaxSize, count, hperm.countP_eq, List.countP_map, Function.comp_def]

theorem forall_setMaxSize (order : Shuffle) (size : Nat) : Forall P (setMaxSize order size) := by
  intro q hq a ha
  obtain ⟨i, -, rfl⟩ := mem_map.1 ((order.perm _).mem_iff.1 hq)
  cases ha

theorem mem_of_find? (h : v.find? id = some p) : (id, p) ∈ v.procs := by
  obtain ⟨q, hq, rfl⟩ := map_eq_some_iff.1 h
  obtain rfl := key_of_find? hq
  exact Keyed.mem_of_find? hq

theorem Forall.find? (h : Forall P v) (hf : v.find? id = some (some a)) : P id a :=
  h _ (mem_of_find? hf) a rfl

theorem get_eq_ok : v.get id = .ok p ↔ v.find? id = some p := by
  unfold get
  split <;> simp_all

@[simp]
theorem keys_set : (v.set id p).procs.map Prod.fst = v.procs.map Prod.fst :=
  map_modify fun _ _ h => h.symm

theorem find?_set_self (h : v.find? id = some q) : (v.set id p).find? id = some p := by
  obtain ⟨q, hq, rfl⟩ := map_eq_some_iff.1 h
  simp [HarqVector.find?, set, find?_modify_self, hq]

theorem find?_set_of_ne (h : id' ≠ id) : (v.set id p).find? id' = v.find? id' := by
  simp [HarqVector.find?, set, find?_modify_of_ne _ h]

theorem Forall.set (h : Forall P v) (hp : ∀ a, p = some a → P id a) : Forall P (v.set id p) :=
  forall_modify (P := fun q : Nat × HarqProcess => ∀ a, q.2 = some a → P q.1 a) h fun _ _ _ => hp

theorem countP_modify {l : List (Nat × HarqProcess)} (hl : (l.map Prod.fst).Nodup)
    (h : Keyed.find? Prod.fst id l = some (id, q)) :
    (Keyed.modify Prod.fst id (fun _ => (id, p)) l).countP (fun r => r.2.isSome) +
        q.isSome.toNat = l.countP (fun r => r.2.isSome) + p.isSome.toNat := by
  induction l with
  | nil => cases h
  | cons r l ih =>
    obtain ⟨hr, hnd⟩ := List.nodup_cons.1 hl
    rw [Keyed.modify_cons, List.countP_cons, List.countP_cons]
    rw [Keyed.find?_cons] at h
    split at h
    · next hid =>
      cases h
      have hrest : Keyed.modify Prod.fst id (fun _ => (id, p)) l = l := by
        refine (List.map_congr_left fun s hs => if_neg fun hs' => hr ?_).trans (List.map_id' l)
        exact List.mem_map.2 ⟨s, hs, hs'⟩
      rw [hrest]
      cases p <;> cases q <;> simp
    · next hid =>
      have := ih hnd h
      simp only [if_neg hid]
      omega

theorem count_set (h : Wf v) (hf : v.find? id = some q) :
    (v.set id p).count + q.isSome.toNat = v.count + p.isSome.toNat := by
  obtain ⟨⟨i, r⟩, hq, rfl⟩ := map_eq_some_iff.1 hf
  obtain rfl := key_of_find? hq
  exact countP_modify h.nodup hq

theorem Wf.update (h : Wf v) {n : Nat} (hn : n = (v.set id p).count) :
    Wf { v.set id p with usedSize := n } where
  nodup := by simpa using h.nodup
  size := by simpa [HarqVector.set, Keyed.modify] using h.size
  bound := h.bound
  ids := by
    intro q hq
    obtain ⟨r, hr, rfl⟩ := mem_modify.1 hq
    split
    · next hid => exact hid ▸ h.ids r hr
    · exact h.ids r hr
  used := hn

theorem Wf.set (h : Wf v) (hf : v.find? id = some (some a)) {b : ActiveHarq} :
    Wf (v.set id (some b)) := by
  have hcount := count_set (p := some b) h hf
  simp only [isSome_some, toNat_true] at hcount
  exact h.update (h.used.trans (by omega))

/-- The vector after `Erase` of an active process. -/
def erased (v : HarqVector) (id : Nat) : HarqVector :=
  { v.set id none with usedSize := v.usedSize - 1 }

theorem find?_erased_self (h : v.find? id = some q) : (v.erased id).find? id = some none :=
  find?_set_self h

theorem find?_erased_of_ne (h : id' ≠ id) : (v.erased id).find? id' = v.find? id' :=
  find?_set_of_ne h

theorem Forall.erased (h : Forall P v) : Forall P (v.erased id) :=
  Forall.set (p := none) h nofun

theorem Wf.erase (h : Wf v) (hf : v.find? id = some (some a)) :
    v.erase id = .ok (v.erased id) ∧ Wf (v.erased id) := by
  have hcount := count_set (p := none) h hf
  simp only [isSome_some, toNat_true, isSome_none, toNat_false] at hcount
  have hle : v.count ≤ v.maxSize := h.size ▸ countP_le_length
  have hused := h.used
  have hbound := h.bound
  have hn : v.usedSize - 1 = (v.set id none).count := by omega
  have hwrap : (v.usedSize + 255) % 256 = v.usedSize - 1 := by omega
  refine ⟨?_, h.update hn⟩
  rw [HarqVector.erase, get_eq_ok.2 hf, hwrap]
  exact if_pos hn.symm

theorem Wf.exists_inactive (h : Wf v) (hc : v.canInsert = true) :
    ∃ q, v.procs.find? (fun q => q.2.isNone) = some q := by
  refine ne_none_iff_exists'.1 fun hnone => ?_
  have hall : v.count = v.procs.length := by
    refine countP_eq_length.2 fun q hq => ?_
    simpa [isSome_iff_ne_none] using find?_eq_none.1 hnone q hq
  have hlt : v.usedSize < v.maxSize := of_decide_eq_true hc
  rw [h.used, hall, h.size] at hlt
  exact Nat.lt_irrefl _ hlt

theorem Wf.find?_firstAvailableId (h : Wf v) {q : Nat × HarqProcess}
    (hq : v.procs.find? (fun q => q.2.isNone) = some q) :
    v.firstAvailableId = q.1 ∧ v.find? v.firstAvailableId = some none := by
  have hid : v.firstAvailableId = q.1 := by simp [firstAvailableId, hq]
  have hnone : q.2 = none := by simpa using find?_some hq
  have hfind := find?_of_mem h.nodup (mem_of_find?_eq_some hq)
  exact ⟨hid, by simp [HarqVector.find?, hid, hfind, hnone]⟩

theorem firstAvailableId_set_ne (h : Wf v) (hf : v.find? id = some q) (hid : id ≠ 255) :
    (v.set id (some a)).firstAvailableId ≠ id := by
  intro heq
  rw [firstAvailableId] at heq
  cases hfind : (v.set id (some a)).procs.find? fun q => q.2.isNone with
  | none => exact hid (by simpa [hfind] using heq.symm)
  | some r =>
    have hr : r.1 = id := by simpa [hfind] using heq
    have hnone : r.2 = none := by simpa using find?_some hfind
    have hnd : ((v.set id (some a)).procs.map Prod.fst).Nodup := by simpa using h.nodup
    have hself := find?_set_self (p := some a) hf
    have hmem := find?_of_mem hnd (mem_of_find?_eq_some hfind)
    rw [hr] at hmem
    simp [HarqVector.find?, hmem, hnone] at hself

theorem Wf.insert (h : Wf v) (hc : v.canInsert = true) (a : ActiveHarq) :
    ∃ id, v.find? id = some none ∧
      v.insert a = .ok (some (id, { v.set id (some a) with usedSize := v.usedSize + 1 })) ∧
      Wf { v.set id (some a) with usedSize := v.usedSize + 1 } := by
  obtain ⟨q, hq⟩ := h.exists_inactive hc
  obtain ⟨hid, hfind⟩ := h.find?_firstAvailableId hq
  have hlt : v.usedSize < v.maxSize := of_decide_eq_true hc
  have hbound := h.bound
  have hsmall : v.firstAvailableId < v.maxSize := by
    rw [hid]
    exact h.ids q (mem_of_find?_eq_some hq)
  have h255 : v.firstAvailableId ≠ 255 := by omega
  have hcount := count_set (p := some a) h hfind
  simp only [isSome_some, toNat_true, isSome_none, toNat_false] at hcount
  have hused := h.used
  have hn : v.usedSize + 1 = (v.set v.firstAvailableId (some a)).count := by omega
  have hwrap : (v.usedSize + 1) % 256 = v.usedSize + 1 := by omega
  refine ⟨v.firstAvailableId, hfind, ?_, h.update hn⟩
  rw [HarqVector.insert, if_neg (by omega), if_neg h255, hfind]
  simp only [if_neg (firstAvailableId_set_ne h hfind h255), hwrap]

end HarqVector

end OranNs3
