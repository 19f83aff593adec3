import Mathlib.Algebra.Order.Ring.Nat
import OranNs3.Lib.Sql
import OranNs3.Ric.Model

/-!
# The data repository

`OranNrDataRepositorySqlite` (`oran-nr-data-repository-sqlite.cc`): the tables of nodes and
registrations, and those of the samples the reinforcement learning module reads. A table is the list
of its rows; no statement deletes records, so the number of a new one (`entryid`, `AUTOINCREMENT`)
is one above the number of rows. Foreign keys are not enforced (`PRAGMA foreign_keys` is never set).

Node ids are `uint64_t` values, stored as 64-bit integers, but `RegisterNode` binds the id of a node
to be updated with `sqlite3_bind_int`, which keeps 32 bits (`bindInt`), and sizes read back are
narrowed to 32 bits. Left out are the copies of recent samples in memory, which are never read, and
the tables that no modelled function reads.
-/

namespace OranNs3

/-- `OranNrNearRtRic::NodeType`. -/
inductive NodeType
  | wired
  | nrUe
  | nrGnb
deriving DecidableEq

/-- A row of `node`. -/
structure NodeRow where
  nodeid : Nat
  nodetype : NodeType
deriving DecidableEq

/-- A row of `noderegistration`. -/
structure RegistrationRow where
  entryid : Nat
  nodeid : Nat
  registered : Bool
  simulationtime : Time
deriving DecidableEq

/-- A row of `nrue`, whose primary key is `nodeid` and whose `imsi` is unique. -/
structure UeRow where
  nodeid : Nat
  imsi : Nat
deriving DecidableEq

/-- A row of `nrgnb`, whose primary key is `nodeid`. -/
structure GnbRow where
  nodeid : Nat
  cellid : Nat
deriving DecidableEq

/-- `NrUeBufferStatus`. -/
structure NrUeBufferStatus where
  time : Time
  rnti : Nat
  lcid : Nat
  txQueueSize : Nat
  txQueueHolDelay : Nat
  retxQueueSize : Nat
  retxQueueHolDelay : Nat
  statusPduSize : Nat
deriving DecidableEq

/-- `NrUeTxPdu`. -/
structure NrUeTxPdu where
  time : Time
  rnti : Nat
  lcid : Nat
  txPdu : Nat
deriving DecidableEq

/-- `NrUeTxDrop`. -/
structure NrUeTxDrop where
  time : Time
  rnti : Nat
  lcid : Nat
  txDrop : Nat
deriving DecidableEq

/-- A row of one of the sample tables. -/
structure SampleRow (σ : Type) where
  entryid : Nat
  nodeid : Nat
  sample : σ
deriving DecidableEq

/-- The tables, with the largest node id ever inserted (`sqlite_sequence`). -/
structure Db where
  node : List NodeRow
  nodeSeq : Nat
  noderegistration : List RegistrationRow
  nrue : List UeRow
  nrgnb : List GnbRow
  nruetxbuffer : List (SampleRow NrUeBufferStatus)
  nruetxpdu : List (SampleRow NrUeTxPdu)
  nruetxdrop : List (SampleRow NrUeTxDrop)

/-- The state of `OranNrDataRepositorySqlite`. -/
structure Repository where
  active : Bool
  db : Db

/-- The database after `InitDb` on an empty file. -/
def Db.empty : Db := ⟨[], 0, [], [], [], [], [], []⟩

/-- An id bound with `sqlite3_bind_int` and read back: its low 32 bits, as a signed number. -/
def bindInt (x : Nat) : Nat :=
  if x % 2 ^ 32 < 2 ^ 31 then x % 2 ^ 32 else 2 ^ 64 - 2 ^ 32 + x % 2 ^ 32

/-- The 64-bit integer that is stored for an id, which orders the rows. -/
def sqlInt (x : Nat) : Int := if x < 2 ^ 63 then x else x - 2 ^ 64

namespace Repository

/-! ## Registrations -/

variable (db : Db)

/-- The statement `INSERT_NODE_REGISTRATION`. -/
def insertRegistration (e2NodeId : Nat) (registered : Bool) (now : Time) : Db :=
  { db with noderegistration := db.noderegistration ++
      [⟨db.noderegistration.length + 1, e2NodeId, registered, now⟩] }

variable (r : Repository) (e2NodeId : Nat)

/-- `IsNodeRegistered`, with `CHECK_NODE_REGISTERED`. -/
def isNodeRegistered : Bool :=
  if r.active then
    match Sql.newest? RegistrationRow.simulationtime RegistrationRow.entryid
      (Sql.group RegistrationRow.nodeid r.db.noderegistration e2NodeId) with
    | some row => row.registered
    | none => false
  else false

/-- The node id that `RegisterNode` assigns: the next one for the id 0, and else the given one, as
`sqlite3_bind_int` binds it. -/
def assignedId (id : Nat) : Nat := if id = 0 then db.nodeSeq + 1 else bindInt id

/-- The statements `INSERT_NODE_ADD` and `INSERT_NODE_UPDATE`, for the assigned id. -/
def insertNode (type : NodeType) (id : Nat) : Db :=
  if id = 0 then
    { db with node := db.node ++ [⟨db.nodeSeq + 1, type⟩], nodeSeq := db.nodeSeq + 1 }
  else
    { db with
      node := Sql.insertOrReplace (fun row => row.nodeid == bindInt id) ⟨bindInt id, type⟩ db.node
      nodeSeq := if bindInt id < 2 ^ 63 then max db.nodeSeq (bindInt id) else db.nodeSeq }

variable (now : Time)

def registerNode (type : NodeType) (id : Nat) : Repository × Nat :=
  if r.active then
    ({ r with db := insertRegistration (insertNode r.db type id) (assignedId r.db id) true now },
      assignedId r.db id)
  else (r, 0)

/-- The statement `INSERT_NR_UE_NODE`: a row that has the node id or the IMSI is replaced. -/
def insertUe (id imsi : Nat) : Db :=
  { db with nrue :=
      Sql.insertOrReplace (fun row => row.nodeid == id || row.imsi == imsi) ⟨id, imsi⟩ db.nrue }

/-- The statement `INSERT_NR_GNB_NODE`. -/
def insertGnb (id cellId : Nat) : Db :=
  { db with nrgnb := Sql.insertOrReplace (fun row => row.nodeid == id) ⟨id, cellId⟩ db.nrgnb }

/-- `RegisterNodeNrUe`: the row of `nrue` has the id of the
request, not the one `RegisterNode` returned. -/
def registerNodeNrUe (id imsi : Nat) : Repository × Nat :=
  if r.active then
    let (r', e2NodeId) := r.registerNode now .nrUe id
    ({ r' with db := insertUe r'.db id imsi }, e2NodeId)
  else (r, 0)

/-- `RegisterNodeNrGnb`, with the id of the request in the
row of `nrgnb`. -/
def registerNodeNrGnb (id cellId : Nat) : Repository × Nat :=
  if r.active then
    let (r', e2NodeId) := r.registerNode now .nrGnb id
    ({ r' with db := insertGnb r'.db id cellId }, e2NodeId)
  else (r, 0)

def deregisterNode (e2NodeId : Nat) : Repository × Nat :=
  if r.active then
    ({ r with db := insertRegistration r.db e2NodeId false now }, e2NodeId)
  else (r, 0)

/-- A call that changes the registrations. -/
inductive Call
  | registerNode (type : NodeType) (id : Nat)
  | registerNodeNrUe (id imsi : Nat)
  | registerNodeNrGnb (id cellId : Nat)
  | deregisterNode (e2NodeId : Nat)
deriving DecidableEq

/-- The effect and the result of a call at a time. -/
def call : Call → Repository × Nat
  | .registerNode type id => r.registerNode now type id
  | .registerNodeNrUe id imsi => r.registerNodeNrUe now id imsi
  | .registerNodeNrGnb id cellId => r.registerNodeNrGnb now id cellId
  | .deregisterNode e2NodeId => r.deregisterNode now e2NodeId

/-- The active repository after a history of calls on an empty database. -/
def afterHistory (history : List (Time × Call)) : Repository :=
  history.foldl (fun r c => (r.call c.1 c.2).1) ⟨true, .empty⟩

/-! ## Listings -/

/-- Which of the rows with the latest time of a group gives the column `registered`. -/
abbrev Pick := Sql.BareMax RegistrationRow RegistrationRow.simulationtime

/-- `GetLastRegistrationRequests`, with
`GET_ALL_LAST_REGISTRATION_TIMES`. -/
def getLastRegistrationRequests (b : Pick) (r : Repository) : List (Nat × Time) :=
  if r.active then
    (((Sql.groupMax b RegistrationRow.nodeid r.db.noderegistration).filter
      (·.registered)).insertionSort fun x y => sqlInt x.nodeid ≤ sqlInt y.nodeid).map
      fun row => (row.nodeid, row.simulationtime)
  else []

/-- The registrations joined with the rows of a table of nodes. -/
def joinOn {ρ : Type} (key : ρ → Nat) (rows : List RegistrationRow) (table : List ρ) :
    List (RegistrationRow × ρ) :=
  rows.flatMap fun row => (table.filter fun x => key x == row.nodeid).map fun x => (row, x)

/-- The node ids of `GET_NR_ALL_UE_E2NODEIDS` and `GET_NR_ALL_GNB_E2NODEIDS`, by the joined table.
-/
def joinedNodeIds {ρ : Type} (key : ρ → Nat)
    (b : Sql.BareMax (RegistrationRow × ρ) fun p => p.1.simulationtime)
    (rows : List RegistrationRow) (table : List ρ) : List Nat :=
  (((Sql.groupMax b (fun p => p.1.nodeid) (joinOn key rows table)).filter
    (·.1.registered)).map (·.1.nodeid)).insertionSort fun x y => sqlInt x ≤ sqlInt y

def getNrUeE2NodeIds (b : Sql.BareMax (RegistrationRow × UeRow) fun p => p.1.simulationtime)
    (r : Repository) : List Nat :=
  if r.active then joinedNodeIds UeRow.nodeid b r.db.noderegistration r.db.nrue else []

def getNrGnbE2NodeIds (b : Sql.BareMax (RegistrationRow × GnbRow) fun p => p.1.simulationtime)
    (r : Repository) : List Nat :=
  if r.active then joinedNodeIds GnbRow.nodeid b r.db.noderegistration r.db.nrgnb else []

/-! ## Samples -/

/-- The insertion of a sample into its table. -/
def insertSample {σ : Type} (rows : List (SampleRow σ)) (e2NodeId : Nat) (sample : σ) :
    List (SampleRow σ) :=
  rows ++ [⟨rows.length + 1, e2NodeId, sample⟩]

def saveNrUeBufferStatus (status : NrUeBufferStatus) : Repository :=
  if r.active && r.isNodeRegistered e2NodeId then
    { r with db := { r.db with nruetxbuffer := insertSample r.db.nruetxbuffer e2NodeId status } }
  else r

def saveNrUeTxPdu (pdu : NrUeTxPdu) : Repository :=
  if r.active && r.isNodeRegistered e2NodeId then
    { r with db := { r.db with nruetxpdu := insertSample r.db.nruetxpdu e2NodeId pdu } }
  else r

def saveNrUeTxDrop (drop : NrUeTxDrop) : Repository :=
  if r.active && r.isNodeRegistered e2NodeId then
    { r with db := { r.db with nruetxdrop := insertSample r.db.nruetxdrop e2NodeId drop } }
  else r

/-- The samples of a node, by time and number of the record, as they are read. -/
def selectSamples {σ : Type} (time : σ → Time) (read : σ → σ) (rows : List (SampleRow σ))
    (e2NodeId : Nat) : List σ :=
  ((rows.filter fun row => row.nodeid == e2NodeId).insertionSort
    fun x y => time x.sample < time y.sample ∨
      time x.sample = time y.sample ∧ x.entryid ≤ y.entryid).map fun row => read row.sample

/-- `GetNrUeBufferStatus`, in ascending order. -/
def getNrUeBufferStatus : List NrUeBufferStatus :=
  if r.active && r.isNodeRegistered e2NodeId then
    selectSamples NrUeBufferStatus.time (fun s => { s with
      txQueueSize := s.txQueueSize % 2 ^ 32
      retxQueueSize := s.retxQueueSize % 2 ^ 32 }) r.db.nruetxbuffer e2NodeId
  else []

/-- `GetNrUeTxPdu`, in descending order. -/
def getNrUeTxPdu : List NrUeTxPdu :=
  if r.active && r.isNodeRegistered e2NodeId then
    (selectSamples NrUeTxPdu.time (fun s => { s with txPdu := s.txPdu % 2 ^ 32 })
      r.db.nruetxpdu e2NodeId).reverse
  else []

/-- `GetNrUeTxDrop`, in descending order. -/
def getNrUeTxDrop : List NrUeTxDrop :=
  if r.active && r.isNodeRegistered e2NodeId then
    (selectSamples NrUeTxDrop.time (fun s => { s with txDrop := s.txDrop % 2 ^ 32 })
      r.db.nruetxdrop e2NodeId).reverse
  else []

end Repository

end OranNs3
