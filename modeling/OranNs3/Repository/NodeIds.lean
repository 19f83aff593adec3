import OranNs3.Repository.Registered
import OranNs3.Repository.Spec

/-!
# The listings of UE and gNB nodes

`GetNrUeE2NodeIds` and `GetNrGnbE2NodeIds` join the registrations with the tables `nrue` and
`nrgnb`. `RegisterNodeNrUe` and `RegisterNodeNrGnb` fill these tables with the id of the request,
while they return the id that `RegisterNode` assigned: for a first registration, which has the id 0,
the returned id is not in the table. The listings are exact (`nodeIds_exact`) in every history whose
registrations of UEs and gNBs name an id that `RegisterNode` keeps, take no IMSI from another node,
and in which no listed node is registered and deregistered at the same time.
-/

namespace OranNs3

open Function List

/-- The repository with its clock and, as ghost fields, the ids that the two registrations returned
and the nodes whose last call was a registration. -/
structure RepositoryWorld where
  repo : Repository
  now : Time
  ueReturned : List Nat
  gnbReturned : List Nat
  current : Nat → Bool

open Repository

namespace RepositoryWorld

variable {w w' : RepositoryWorld} {t : Time} {c : Call} {x : Nat}

/-- The ids returned by the registrations of one kind after the call `c`, if it is one of them. -/
def noteUe (w : RepositoryWorld) (t : Time) : Call → List Nat
  | .registerNodeNrUe id imsi => (w.repo.registerNodeNrUe t id imsi).2 :: w.ueReturned
  | _ => w.ueReturned

/-- The same for the registrations of gNBs. -/
def noteGnb (w : RepositoryWorld) (t : Time) : Call → List Nat
  | .registerNodeNrGnb id cellId => (w.repo.registerNodeNrGnb t id cellId).2 :: w.gnbReturned
  | _ => w.gnbReturned

/-- A call at a time that is not before the last one. -/
def step? (w : RepositoryWorld) (a : Time × Call) : Option RepositoryWorld :=
  if w.now ≤ a.1 then
    some {
      repo := (w.repo.call a.1 a.2).1
      now := a.1
      ueReturned := w.noteUe a.1 a.2
      gnbReturned := w.noteGnb a.1 a.2
      current := Function.update w.current (a.2.subject w.repo.db) a.2.flag }
  else none

/-- The step relation of the repository. -/
def Step (w : RepositoryWorld) (a : Time × Call) (w' : RepositoryWorld) : Prop :=
  w.step? a = some w'

/-- An active repository with an empty database. -/
def init : RepositoryWorld := ⟨⟨true, .empty⟩, 0, [], [], fun _ => false⟩

/-! ## Rows of a node -/

/-- The node has a row in `nrue` or `nrgnb`. -/
def Tabled (db : Db) (x : Nat) : Prop :=
  (∃ row ∈ db.nrue, row.nodeid = x) ∨ ∃ row ∈ db.nrgnb, row.nodeid = x
deriving Decidable

/-- The records of the node at the time have the flag. -/
def Untied (db : Db) (t : Time) (x : Nat) (flag : Bool) : Prop :=
  ∀ row ∈ db.noderegistration, row.nodeid = x → row.simulationtime = t → row.registered = flag
deriving Decidable

/-! ## The listings -/

variable {ρ : Type}

theorem mem_joinOn {key : ρ → Nat} {rows : List RegistrationRow} {table : List ρ}
    {p : RegistrationRow × ρ} :
    p ∈ joinOn key rows table ↔ p.1 ∈ rows ∧ p.2 ∈ table ∧ key p.2 = p.1.nodeid := by
  obtain ⟨row, y⟩ := p
  simp [joinOn, mem_flatMap, mem_filter]

/-- A node is listed when it has a row in the table and the record picked for it says that it is
registered. -/
theorem mem_joinedNodeIds {key : ρ → Nat}
    {b : Sql.BareMax (RegistrationRow × ρ) fun p => p.1.simulationtime}
    {rows : List RegistrationRow} {table : List ρ} :
    x ∈ joinedNodeIds key b rows table ↔ ∃ p,
      b.pick (Sql.group (fun p => p.1.nodeid) (joinOn key rows table) x) = some p ∧
        p.1.registered = true := by
  simp only [joinedNodeIds, mem_insertionSort, mem_map, mem_filter, Sql.mem_groupMax]
  constructor
  · rintro ⟨p, ⟨hpick, hreg⟩, rfl⟩
    exact ⟨p, hpick, hreg⟩
  · rintro ⟨p, hpick, hreg⟩
    have hx : p.1.nodeid = x := (Sql.mem_group.1 (b.pick_some hpick).1).2
    subst hx
    exact ⟨p, ⟨hpick, hreg⟩, rfl⟩

theorem mem_joinedNodeIds_iff {key : ρ → Nat}
    {b : Sql.BareMax (RegistrationRow × ρ) fun p => p.1.simulationtime} {table : List ρ}
    {r : Repository} {state : Bool}
    (hlatest : (∃ y ∈ table, key y = x) → ∀ row, r.Latest x row → row.registered = state)
    (hrecord : state = true → r.records x ≠ []) :
    x ∈ joinedNodeIds key b r.db.noderegistration table ↔
      (∃ y ∈ table, key y = x) ∧ state = true := by
  rw [mem_joinedNodeIds]
  -- the records of a node with a row all join with it, so the picked one is a latest record
  have hpicked : ∀ p, b.pick (Sql.group (fun p => p.1.nodeid)
      (joinOn key r.db.noderegistration table) x) = some p →
      (p.2 ∈ table ∧ key p.2 = x) ∧ r.Latest x p.1 := by
    intro p hp
    obtain ⟨hmem, hmax⟩ := b.pick_some hp
    obtain ⟨hjoin, hx⟩ := Sql.mem_group.1 hmem
    obtain ⟨hrow, hy, hkey⟩ := mem_joinOn.1 hjoin
    refine ⟨⟨hy, hkey.trans hx⟩, Sql.mem_group.2 ⟨hrow, hx⟩, fun row' hrow' => ?_⟩
    obtain ⟨hrow', hx'⟩ := Sql.mem_group.1 hrow'
    exact hmax (row', p.2) (Sql.mem_group.2
      ⟨mem_joinOn.2 ⟨hrow', hy, (hkey.trans hx).trans hx'.symm⟩, hx'⟩)
  constructor
  · rintro ⟨p, hp, hreg⟩
    obtain ⟨⟨hy, hkey⟩, hl⟩ := hpicked p hp
    have hx : ∃ y ∈ table, key y = x := ⟨p.2, hy, hkey⟩
    exact ⟨hx, (hlatest hx p.1 hl).symm.trans hreg⟩
  · rintro ⟨⟨y, hy, hkey⟩, hstate⟩
    obtain ⟨row, hrow⟩ := exists_mem_of_ne_nil _ (hrecord hstate)
    obtain ⟨hrow, hx⟩ := Sql.mem_group.1 hrow
    have hmem : (row, y) ∈ Sql.group (fun p => p.1.nodeid)
        (joinOn key r.db.noderegistration table) x :=
      Sql.mem_group.2 ⟨mem_joinOn.2 ⟨hrow, hy, hkey.trans hx.symm⟩, hx⟩
    obtain ⟨p, hp⟩ := b.pick_ne_nil (ne_nil_of_mem hmem)
    exact ⟨p, hp, (hlatest ⟨y, hy, hkey⟩ p.1 (hpicked p hp).2).trans hstate⟩

/-! ## Histories -/

/-- The condition of a call: a UE or gNB registers with an id that is kept, a UE takes the IMSI of
no other node, and the records of a listed node at the time of the call have the flag of the call.
-/
def CallOk (w : RepositoryWorld) (a : Time × Call) : Prop :=
  match a.2 with
  | .registerNode _ id => Tabled w.repo.db (assignedId w.repo.db id) →
      Untied w.repo.db a.1 (assignedId w.repo.db id) true
  | .registerNodeNrUe id imsi => id ≠ 0 ∧ bindInt id = id ∧
      (∀ row ∈ w.repo.db.nrue, row.imsi = imsi → row.nodeid = id) ∧ Untied w.repo.db a.1 id true
  | .registerNodeNrGnb id _ => id ≠ 0 ∧ bindInt id = id ∧ Untied w.repo.db a.1 id true
  | .deregisterNode x => Tabled w.repo.db x → Untied w.repo.db a.1 x false

instance (w : RepositoryWorld) : ∀ a, Decidable (CallOk w a)
  | (_, .registerNode _ _) => inferInstanceAs (Decidable (_ → _))
  | (_, .registerNodeNrUe _ _) | (_, .registerNodeNrGnb _ _) => inferInstanceAs (Decidable (_ ∧ _))
  | (_, .deregisterNode _) => inferInstanceAs (Decidable (_ → _))

/-- The invariant: the tables have the returned ids, and the latest records of their nodes say
whether they are registered. -/
structure NodeIdsInv (w : RepositoryWorld) : Prop where
  active : w.repo.active = true
  times : ∀ row ∈ w.repo.db.noderegistration, row.simulationtime ≤ w.now
  ue : ∀ x, x ∈ w.ueReturned ↔ ∃ row ∈ w.repo.db.nrue, row.nodeid = x
  gnb : ∀ x, x ∈ w.gnbReturned ↔ ∃ row ∈ w.repo.db.nrgnb, row.nodeid = x
  latest : ∀ x, Tabled w.repo.db x → ∀ row, w.repo.Latest x row → row.registered = w.current x
  recorded : ∀ x, w.current x = true → w.repo.records x ≠ []

theorem assignedId_eq {db : Db} {id : Nat} (h0 : id ≠ 0) (hb : bindInt id = id) :
    assignedId db id = id := by
  rw [assignedId, if_neg h0, hb]

theorem records_append {r r' : Repository} {row : RegistrationRow}
    (h : r'.db.noderegistration = r.db.noderegistration ++ [row]) (x : Nat) :
    r'.records x = r.records x ++ if row.nodeid = x then [row] else [] := by
  rw [records, h, Sql.group, filter_append]
  by_cases hx : row.nodeid = x <;> simp [hx, records, Sql.group]

section
variable (hw : w.NodeIdsInv) (hok : CallOk w (t, c))
include hw hok

theorem tabled_call (hx : Tabled (w.repo.call t c).1.db x) :
    Tabled w.repo.db x ∨ x = c.subject w.repo.db ∧ Untied w.repo.db t x c.flag := by
  rcases hx with ⟨row, hrow, hx⟩ | ⟨row, hrow, hx⟩
  · rw [call_nrue hw.active] at hrow
    cases c with
    | registerNodeNrUe id imsi =>
      obtain ⟨h0, hb, -, htie⟩ := hok
      rcases Sql.mem_insertOrReplace.1 hrow with rfl | ⟨hrow, -⟩
      · subst hx
        exact .inr ⟨(assignedId_eq h0 hb).symm, htie⟩
      · exact .inl (.inl ⟨row, hrow, hx⟩)
    | registerNode | registerNodeNrGnb | deregisterNode => exact .inl (.inl ⟨row, hrow, hx⟩)
  · rw [call_nrgnb hw.active] at hrow
    cases c with
    | registerNodeNrGnb id cellId =>
      obtain ⟨h0, hb, htie⟩ := hok
      rcases Sql.mem_insertOrReplace.1 hrow with rfl | ⟨hrow, -⟩
      · subst hx
        exact .inr ⟨(assignedId_eq h0 hb).symm, htie⟩
      · exact .inl (.inr ⟨row, hrow, hx⟩)
    | registerNode | registerNodeNrUe | deregisterNode => exact .inl (.inr ⟨row, hrow, hx⟩)

theorem untied_subject (hx : Tabled (w.repo.call t c).1.db (c.subject w.repo.db)) :
    Untied w.repo.db t (c.subject w.repo.db) c.flag := by
  rcases tabled_call hw hok hx with hx | ⟨-, h⟩
  · cases c with
    | registerNode type id => exact hok hx
    | registerNodeNrUe id imsi =>
      obtain ⟨h0, hb, -, htie⟩ := hok
      rw [Call.subject, assignedId_eq h0 hb]
      exact htie
    | registerNodeNrGnb id cellId =>
      obtain ⟨h0, hb, htie⟩ := hok
      rw [Call.subject, assignedId_eq h0 hb]
      exact htie
    | deregisterNode y => exact hok hx
  · exact h

theorem ue_call (x : Nat) :
    x ∈ w.noteUe t c ↔ ∃ row ∈ (w.repo.call t c).1.db.nrue, row.nodeid = x := by
  rw [call_nrue hw.active]
  cases c with
  | registerNodeNrUe id imsi =>
    obtain ⟨h0, hb, himsi, -⟩ := hok
    rw [noteUe, registerNodeNrUe_eq hw.active, assignedId_eq h0 hb, mem_cons, hw.ue]
    dsimp only
    symm
    refine Sql.exists_insertOrReplace fun row hrow hconflict => ?_
    rcases (Bool.or_eq_true _ _).mp hconflict with hid | himsi'
    · exact beq_iff_eq.1 hid
    · exact himsi row hrow (beq_iff_eq.1 himsi')
  | registerNode | registerNodeNrGnb | deregisterNode => exact hw.ue x

theorem gnb_call (x : Nat) :
    x ∈ w.noteGnb t c ↔ ∃ row ∈ (w.repo.call t c).1.db.nrgnb, row.nodeid = x := by
  rw [call_nrgnb hw.active]
  cases c with
  | registerNodeNrGnb id cellId =>
    obtain ⟨h0, hb, -⟩ := hok
    rw [noteGnb, registerNodeNrGnb_eq hw.active, assignedId_eq h0 hb, mem_cons, hw.gnb]
    dsimp only
    symm
    exact Sql.exists_insertOrReplace fun _ _ hid => by simpa using hid
  | registerNode | registerNodeNrUe | deregisterNode => exact hw.gnb x

theorem latest_call (ht : w.now ≤ t) (hx : Tabled (w.repo.call t c).1.db x) {row : RegistrationRow}
    (hrow : (w.repo.call t c).1.Latest x row) :
    row.registered = Function.update w.current (c.subject w.repo.db) c.flag x := by
  have hrec := records_append (call_records hw.active t c).2
  by_cases hsub : c.subject w.repo.db = x
  · subst hsub
    rw [update_self]
    have htie := untied_subject hw hok hx
    rw [Latest, hrec, if_pos rfl] at hrow
    obtain ⟨hmem, hmax⟩ := hrow
    rcases mem_append.1 hmem with hmem | hmem
    · -- an older record is among the latest only when it is of the same time
      obtain ⟨hmem, hid⟩ := Sql.mem_group.1 hmem
      have hle := hmax _ (mem_append_right _ (mem_singleton.2 rfl))
      have hge := (hw.times row hmem).trans ht
      exact htie row hmem hid (le_antisymm hge hle)
    · rw [mem_singleton.1 hmem]
  · rw [update_of_ne (Ne.symm hsub)]
    rw [Latest, hrec, if_neg hsub, append_nil] at hrow
    rcases tabled_call hw hok hx with hx | ⟨h, -⟩
    · exact hw.latest x hx row hrow
    · exact absurd h.symm hsub

theorem NodeIdsInv.step (h : Step w (t, c) w') : w'.NodeIdsInv := by
  unfold Step step? at h
  split at h
  · next ht =>
    cases h
    obtain ⟨hact, hregs⟩ := call_records hw.active t c
    exact {
      active := hact
      times := by
        intro row hrow
        rw [hregs] at hrow
        rcases mem_append.1 hrow with hrow | hrow
        · exact (hw.times row hrow).trans ht
        · rw [mem_singleton.1 hrow]
      ue := ue_call hw hok
      gnb := gnb_call hw hok
      latest := fun x hx row hrow => latest_call hw hok ht hx hrow
      recorded := by
        intro x hx
        dsimp only at hx ⊢
        rw [records_append hregs]
        by_cases hsub : c.subject w.repo.db = x
        · simp [hsub]
        · rw [update_of_ne (Ne.symm hsub)] at hx
          exact append_ne_nil_of_left_ne_nil (hw.recorded x hx) _ }
  · cases h

end

/-- The listings are exactly the returned ids of the nodes that are registered. -/
def ListsExactly (w : RepositoryWorld) : Prop :=
  (∀ b x, x ∈ getNrUeE2NodeIds b w.repo ↔ x ∈ w.ueReturned ∧ w.current x = true) ∧
  ∀ b x, x ∈ getNrGnbE2NodeIds b w.repo ↔ x ∈ w.gnbReturned ∧ w.current x = true

theorem NodeIdsInv.listsExactly (hw : w.NodeIdsInv) : w.ListsExactly := by
  constructor
  · intro b x
    rw [getNrUeE2NodeIds, if_pos hw.active, hw.ue]
    exact mem_joinedNodeIds_iff (fun hx => hw.latest x (.inl hx)) (hw.recorded x)
  · intro b x
    rw [getNrGnbE2NodeIds, if_pos hw.active, hw.gnb]
    exact mem_joinedNodeIds_iff (fun hx => hw.latest x (.inr hx)) (hw.recorded x)

/-- In every history whose calls meet the condition, the listings are exact, whichever record they
read on a tie. -/
theorem nodeIds_exact (w : RepositoryWorld) (h : Lts.Run Step CallOk init w) : w.ListsExactly := by
  have h0 : init.NodeIdsInv := {
    active := rfl
    times := nofun
    ue := by simp [init, Db.empty]
    gnb := by simp [init, Db.empty]
    latest := by simp [init, Db.empty, Tabled]
    recorded := nofun }
  exact (Lts.Run.invariant (I := NodeIdsInv) (fun hw hok hst => hw.step hok hst) h0 h).listsExactly

/-- A node is registered by another interface, then as a UE under its id, and deregistered later. -/
theorem nodeIds_exact_example : ∃ w : RepositoryWorld,
    w.ueReturned = [1] ∧ w.current 1 = false ∧ w.ListsExactly := by
  have hx : (Lts.execs CallOk step? init [(1, .registerNode .nrUe 0),
      (2, .registerNodeNrUe 1 77), (3, .deregisterNode 1)]).map
      (fun w => (w.ueReturned, w.current 1)) = some ([1], false) := by decide
  obtain ⟨w, hw, hf⟩ := Option.map_eq_some_iff.1 hx
  obtain ⟨hu, hc⟩ := Prod.mk.injEq .. ▸ hf
  exact ⟨w, hu, hc, nodeIds_exact w (Lts.run_of_execs id hw)⟩

/-- The first registration of a UE: the id that is returned is not listed. -/
theorem nodeIds_missing : ¬ ∀ w, Lts.Run Step Lts.anyStep init w → w.ListsExactly := by
  intro h
  have hx : (Lts.execs Lts.anyStep step? init [(1, .registerNodeNrUe 0 77)]).map
      (fun w => (w.ueReturned, w.current 1, getNrUeE2NodeIds (Sql.BareMax.first _) w.repo)) =
      some ([1], true, []) := by decide
  obtain ⟨w, hw, hf⟩ := Option.map_eq_some_iff.1 hx
  obtain ⟨hu, hc, hl⟩ : w.ueReturned = [1] ∧ w.current 1 = true ∧
      getNrUeE2NodeIds (Sql.BareMax.first _) w.repo = [] := by simpa using hf
  have := ((h w (Lts.run_of_execs id hw)).1 (Sql.BareMax.first _) 1).2 ⟨by simp [hu], hc⟩
  rw [hl] at this
  cases this

end RepositoryWorld

end OranNs3
