import OranNs3.Repository.Model

/-!
# What the calls on the repository do

One lemma for each table: a call on an inactive repository does nothing, and one on an active
repository adds a record for its subject (`call_records`), replaces rows of `nrue` and `nrgnb` when
it registers a UE or a gNB, and leaves the samples alone.
-/

namespace OranNs3

namespace Repository

variable (db : Db)

/-- The node that a call registers or deregisters. -/
def Call.subject : Call → Nat
  | .registerNode _ id | .registerNodeNrUe id _ | .registerNodeNrGnb id _ => assignedId db id
  | .deregisterNode e2NodeId => e2NodeId

/-- The flag that a call records. -/
def Call.flag : Call → Bool
  | .deregisterNode _ => false
  | _ => true

theorem insertNode_tables (type : NodeType) (id : Nat) :
    (insertNode db type id).noderegistration = db.noderegistration ∧
    (insertNode db type id).nrue = db.nrue ∧ (insertNode db type id).nrgnb = db.nrgnb := by
  unfold insertNode
  split <;> exact ⟨rfl, rfl, rfl⟩

/-- The sample tables. -/
def Db.samples : List (SampleRow NrUeBufferStatus) × List (SampleRow NrUeTxPdu) ×
    List (SampleRow NrUeTxDrop) :=
  (db.nruetxbuffer, db.nruetxpdu, db.nruetxdrop)

theorem insertNode_samples (type : NodeType) (id : Nat) :
    Db.samples (insertNode db type id) = Db.samples db := by
  unfold insertNode
  split <;> rfl

theorem call_inactive {r : Repository} (ha : r.active = false) (t : Time) (c : Call) :
    r.call t c = (r, 0) := by
  cases c <;> simp [call, registerNode, registerNodeNrUe, registerNodeNrGnb, deregisterNode, ha]

section
variable {r : Repository} (ha : r.active = true)
include ha

section
variable (t : Time)
include t

theorem registerNode_eq (type : NodeType) (id : Nat) : r.registerNode t type id =
    (⟨true, insertRegistration (insertNode r.db type id) (assignedId r.db id) true t⟩,
      assignedId r.db id) := by
  rw [registerNode, if_pos ha, ha]

theorem registerNodeNrUe_eq (id imsi : Nat) : r.registerNodeNrUe t id imsi =
    (⟨true, insertUe (insertRegistration (insertNode r.db .nrUe id) (assignedId r.db id) true t)
      id imsi⟩, assignedId r.db id) := by
  rw [registerNodeNrUe, if_pos ha, registerNode_eq ha]

theorem registerNodeNrGnb_eq (id cellId : Nat) : r.registerNodeNrGnb t id cellId =
    (⟨true, insertGnb (insertRegistration (insertNode r.db .nrGnb id) (assignedId r.db id) true t)
      id cellId⟩, assignedId r.db id) := by
  rw [registerNodeNrGnb, if_pos ha, registerNode_eq ha]

variable (c : Call)

theorem call_records : (r.call t c).1.active = true ∧
    (r.call t c).1.db.noderegistration = r.db.noderegistration ++
      [⟨r.db.noderegistration.length + 1, c.subject r.db, c.flag, t⟩] := by
  cases c with
  | registerNode type id =>
    rw [call, registerNode_eq ha]
    exact ⟨rfl, by rw [insertRegistration, (insertNode_tables ..).1]; rfl⟩
  | registerNodeNrUe id imsi =>
    rw [call, registerNodeNrUe_eq ha]
    exact ⟨rfl, by rw [insertUe, insertRegistration, (insertNode_tables ..).1]; rfl⟩
  | registerNodeNrGnb id cellId =>
    rw [call, registerNodeNrGnb_eq ha]
    exact ⟨rfl, by rw [insertGnb, insertRegistration, (insertNode_tables ..).1]; rfl⟩
  | deregisterNode x =>
    rw [call, deregisterNode, if_pos ha]
    exact ⟨ha, rfl⟩

theorem call_nrue : (r.call t c).1.db.nrue = match c with
    | .registerNodeNrUe id imsi => Sql.insertOrReplace
        (fun row => row.nodeid == id || row.imsi == imsi) ⟨id, imsi⟩ r.db.nrue
    | _ => r.db.nrue := by
  cases c with
  | registerNode type id => rw [call, registerNode_eq ha]; exact (insertNode_tables ..).2.1
  | registerNodeNrUe id imsi =>
    rw [call, registerNodeNrUe_eq ha]
    simp [insertUe, insertRegistration, (insertNode_tables r.db .nrUe id).2.1]
  | registerNodeNrGnb id cellId =>
    rw [call, registerNodeNrGnb_eq ha]
    exact (insertNode_tables ..).2.1
  | deregisterNode x => rw [call, deregisterNode, if_pos ha]; rfl

theorem call_nrgnb : (r.call t c).1.db.nrgnb = match c with
    | .registerNodeNrGnb id cellId => Sql.insertOrReplace
        (fun row => row.nodeid == id) ⟨id, cellId⟩ r.db.nrgnb
    | _ => r.db.nrgnb := by
  cases c with
  | registerNode type id => rw [call, registerNode_eq ha]; exact (insertNode_tables ..).2.2
  | registerNodeNrUe id imsi =>
    rw [call, registerNodeNrUe_eq ha]
    exact (insertNode_tables ..).2.2
  | registerNodeNrGnb id cellId =>
    rw [call, registerNodeNrGnb_eq ha]
    simp [insertGnb, insertRegistration, (insertNode_tables r.db .nrGnb id).2.2]
  | deregisterNode x => rw [call, deregisterNode, if_pos ha]; rfl

theorem call_snd : (r.call t c).2 = c.subject r.db := by
  cases c with
  | registerNode type id => rw [call, registerNode_eq ha]; rfl
  | registerNodeNrUe id imsi => rw [call, registerNodeNrUe_eq ha]; rfl
  | registerNodeNrGnb id cellId => rw [call, registerNodeNrGnb_eq ha]; rfl
  | deregisterNode x => rw [call, deregisterNode, if_pos ha]; rfl

end

end

variable {r : Repository}

theorem call_active (t : Time) (c : Call) : (r.call t c).1.active = r.active := by
  cases ha : r.active with
  | false => rw [call_inactive ha, ha]
  | true => exact (call_records ha t c).1

theorem call_samples (t : Time) (c : Call) : Db.samples (r.call t c).1.db = Db.samples r.db := by
  cases ha : r.active with
  | false => rw [call_inactive ha]
  | true =>
    cases c with
    | registerNode type id => rw [call, registerNode_eq ha]; exact insertNode_samples ..
    | registerNodeNrUe id imsi => rw [call, registerNodeNrUe_eq ha]; exact insertNode_samples ..
    | registerNodeNrGnb id cellId => rw [call, registerNodeNrGnb_eq ha]; exact insertNode_samples ..
    | deregisterNode x => rw [call, deregisterNode, if_pos ha]; rfl

end Repository

end OranNs3
