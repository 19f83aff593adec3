import Mathlib.Algebra.BigOperators.Group.Multiset.Basic
import OranNs3.E2.Net
import OranNs3.Repository.Spec

/-!
# Where the bytes of a reporter are

The bytes that a reporter records are in its samples, then in reports that its terminator keeps, in
reports in flight, and at last at the RIC. The repository saves a report only when the id it
carries, that of the terminator when the report was generated, is registered on its arrival; a
terminator that has not learned its id yet has the id 0. The bytes are conserved (`bytes_conserved`)
when those of the reports that are not saved are counted too.

The byte counters have 64 bits, so the equation is one of numbers below `2 ^ 64` and holds modulo
`2 ^ 64` otherwise.
-/

namespace OranNs3

open List Lts Multiset Option

/-- The bytes of samples. -/
def sampleBytes (samples : List Reporter.Sample) : Nat := (samples.map (·.bytes)).sum

/-- The bytes of reports. -/
def reportBytes (reports : Multiset Report) : Nat := (reports.map fun r => r.sample.bytes).sum

/-- The reports of one reporter. -/
def reportsFrom (o : TermId × Nat) (reports : Multiset Report) : Multiset Report :=
  reports.filter fun r => r.origin = o

@[simp] theorem reportBytes_add (s t : Multiset Report) :
    reportBytes (s + t) = reportBytes s + reportBytes t := by
  simp [reportBytes]

@[simp] theorem reportsFrom_add (o : TermId × Nat) (s t : Multiset Report) :
    reportsFrom o (s + t) = reportsFrom o s + reportsFrom o t :=
  filter_add ..

theorem reportsFrom_eq_self {o : TermId × Nat} {s : Multiset Report} (h : ∀ r ∈ s, r.origin = o) :
    reportsFrom o s = s :=
  filter_eq_self.2 h

theorem reportsFrom_eq_zero {o : TermId × Nat} {s : Multiset Report} (h : ∀ r ∈ s, r.origin ≠ o) :
    reportsFrom o s = 0 :=
  filter_eq_nil.2 h

namespace Reporter

variable {r r' : Reporter}

/-- What was recorded is in the samples and the generated reports, up to multiples of `2 ^ 64`. -/
def Balanced (r : Reporter) : Prop :=
  ∃ k, r.recorded = sampleBytes r.samples + reportBytes r.generated + 2 ^ 64 * k

theorem sampleBytes_addSample (key : Sample → Nat × Nat) (new : Sample) (samples : List Sample) :
    ∃ k, sampleBytes samples + new.bytes = sampleBytes (addSample key new samples) + 2 ^ 64 *
      k := by
  induction samples with
  | nil =>
    refine ⟨new.bytes / 2 ^ 64, ?_⟩
    have := Nat.mod_add_div new.bytes (2 ^ 64)
    simp only [addSample, sampleBytes, List.map_nil, List.map_cons, List.sum_nil, List.sum_cons]
    omega
  | cons s ss ih =>
    rw [addSample]
    split
    · refine ⟨(s.bytes + new.bytes) / 2 ^ 64, ?_⟩
      have := Nat.mod_add_div (s.bytes + new.bytes) (2 ^ 64)
      simp only [sampleBytes, List.map_cons, List.sum_cons]
      omega
    · split
      · refine ⟨new.bytes / 2 ^ 64, ?_⟩
        have := Nat.mod_add_div new.bytes (2 ^ 64)
        simp only [sampleBytes, List.map_cons, List.sum_cons]
        omega
      · obtain ⟨k, hk⟩ := ih
        refine ⟨k, ?_⟩
        simp only [sampleBytes, List.map_cons, List.sum_cons] at hk ⊢
        omega

theorem Balanced.addTx (h : r.Balanced) (new : Sample) : (r.addTx new).Balanced := by
  obtain ⟨k, hk⟩ := h
  have hadd : ∃ j, sampleBytes r.samples + new.bytes =
      sampleBytes (r.addTx new).samples + 2 ^ 64 * j := by
    unfold Reporter.addTx
    cases r.kind with
    | txPdu => exact sampleBytes_addSample _ new r.samples
    | txDrop => exact sampleBytes_addSample _ new r.samples
  obtain ⟨j, hj⟩ := hadd
  refine ⟨k + j, ?_⟩
  have hrec : (r.addTx new).recorded = r.recorded + new.bytes := rfl
  have hgen : (r.addTx new).generated = r.generated := rfl
  rw [hrec, hgen]
  omega

theorem reportBytes_reportsOf (o : TermId × Nat) (x : Nat) :
    reportBytes (r.reportsOf o x) = sampleBytes r.samples := by
  simp [reportBytes, reportsOf, sampleBytes, Function.comp_def]

theorem Balanced.flush (h : r.Balanced) (o : TermId × Nat) (x : Nat) : (r.flush o x).Balanced := by
  obtain ⟨k, hk⟩ := h
  refine ⟨k, ?_⟩
  have hgen : reportBytes (r.flush o x).generated =
      reportBytes r.generated + sampleBytes r.samples := by
    rw [Reporter.flush, ← coe_add, reportBytes_add, reportBytes_reportsOf]
  have hsamples : sampleBytes (r.flush o x).samples = 0 := rfl
  have hrec : (r.flush o x).recorded = r.recorded := rfl
  rw [hgen, hsamples, hrec]
  omega

/-- The record of a reporter: its samples, what it recorded and what it generated. -/
def SameRecord (r r' : Reporter) : Prop :=
  r'.samples = r.samples ∧ r'.recorded = r.recorded ∧ r'.generated = r.generated

theorem sameRecord_deactivate (h : r.deactivate = .ok r') : r.SameRecord r' := by
  unfold deactivate at h
  split at h
  · repeat' split at h
    all_goals cases h
    exact ⟨rfl, rfl, rfl⟩
  · cases h
    exact ⟨rfl, rfl, rfl⟩

theorem sameRecord_activate (h : r.activate = .ok r') : r.SameRecord r' := by
  unfold activate at h
  split at h
  · cases h
    exact ⟨rfl, rfl, rfl⟩
  · exact sameRecord_deactivate h

theorem Balanced.of_sameRecord (h : r.Balanced) (hr : r.SameRecord r') : r'.Balanced := by
  unfold Balanced
  rw [hr.1, hr.2.1, hr.2.2]
  exact h

end Reporter

/-! ## The reports of a node -/

namespace E2Node

variable {ν ν' : E2Node} {T : TermId} {out out' : Multiset Report}

/-- The reports that a node keeps are its own. -/
def Owns (T : TermId) (ν : E2Node) : Prop := ∀ r ∈ ν.reports, r.origin.1 = T

/-- Where the bytes of the reporters of a node are that was never deactivated, when the reports
`out` have left it. -/
structure Keeps (T : TermId) (ν : E2Node) (out : Multiset Report) : Prop where
  inactive : ν.active = false → ν.reports = []
  active : ∀ r ∈ ν.reporters, r.active = true → ν.active = true
  balanced : ∀ r ∈ ν.reporters, r.Balanced
  placed : ∀ i r, ν.reporters[i]? = some r → (r.generated : Multiset Report) =
    reportsFrom (T, i) ν.reports + reportsFrom (T, i) out

/-- A report of the `i`-th reporter: a node that is active keeps what it generated. -/
theorem Keeps.performReport (h : ν.Keeps T out) (i : Nat) : (ν.performReport T i).Keeps T out := by
  unfold E2Node.performReport
  split
  · next r hr =>
    split
    · next hact =>
      have hmem : r ∈ ν.reporters := mem_of_getElem? hr
      have hν : ν.active = true := h.active r hmem hact
      rw [storeReports, if_pos hν]
      refine ⟨fun hf => ?_, fun r' _ _ => hν, fun r' hr' => ?_, fun j r' hr' => ?_⟩
      · rw [hν] at hf
        cases hf
      · rcases mem_or_eq_of_mem_set hr' with hr' | rfl
        · exact h.balanced r' hr'
        · exact (h.balanced r hmem).flush _ _
      · dsimp only at hr' ⊢
        rw [← coe_add, reportsFrom_add]
        by_cases hij : i = j
        · subst hij
          have hlt : i < ν.reporters.length := (List.getElem?_eq_some_iff.1 hr).1
          rw [getElem?_set_self hlt] at hr'
          cases hr'
          have hown : reportsFrom (T, i) (r.reportsOf (T, i) ν.e2NodeId) =
              r.reportsOf (T, i) ν.e2NodeId := by
            refine reportsFrom_eq_self fun r' hr' => ?_
            obtain ⟨s, -, rfl⟩ := mem_map.1 (mem_coe.1 hr')
            rfl
          rw [hown, Reporter.flush, ← coe_add, h.placed i r hr, add_right_comm]
        · have hnone : reportsFrom (T, j) (r.reportsOf (T, i) ν.e2NodeId) = 0 := by
            refine reportsFrom_eq_zero fun r' hr' => ?_
            obtain ⟨s, -, rfl⟩ := mem_map.1 (mem_coe.1 hr')
            exact fun h => hij (congrArg Prod.snd h)
          rw [getElem?_set_ne hij] at hr'
          rw [hnone, Multiset.add_zero]
          exact h.placed j r' hr'
    · exact h
  · exact h

theorem Owns.performReport (h : ν.Owns T) (i : Nat) : (ν.performReport T i).Owns T := by
  unfold E2Node.performReport storeReports
  split
  · split
    · split
      · intro r hr
        rcases mem_append.1 hr with hr | hr
        · exact h r hr
        · obtain ⟨s, -, rfl⟩ := mem_map.1 hr
          rfl
      · exact h
    · exact h
  · exact h

theorem learnId_induction {P : E2Node → Prop} {x : Nat} (hid : P { ν with e2NodeId := x })
    (hrep : ∀ {μ : E2Node} i, P μ → P (μ.performReport T i)) (h0 : P ν)
    (h : ν.learnId T x = .ok ν') : P ν' := by
  have hnotify : ∀ {μ μ' : E2Node} {i}, P μ → μ.notifyRegistrationComplete T i = .ok μ' →
      P μ' := by
    intro μ μ' i hμ h
    unfold notifyRegistrationComplete at h
    split at h
    · split at h
      · cases h
      · cases h
        split
        · exact hrep i hμ
        · exact hμ
    · cases h
      exact hμ
  unfold learnId at h
  split at h
  · split at h
    · exact foldlM_ok_induction (P := fun _ => P) hnotify _ (l := []) hid h
    · cases h
      exact hid
  · cases h
    exact h0

theorem Keeps.learnId {x : Nat} (h : ν.Keeps T out) (hν : ν.learnId T x = .ok ν') :
    ν'.Keeps T out :=
  learnId_induction (P := fun ν => ν.Keeps T out)
    (show Keeps T { ν with e2NodeId := x } out from ⟨h.inactive, h.active, h.balanced, h.placed⟩)
    (fun i hμ => hμ.performReport i) h hν

theorem Owns.learnId {x : Nat} (h : ν.Owns T) (hν : ν.learnId T x = .ok ν') : ν'.Owns T :=
  learnId_induction (P := Owns T) (show Owns T { ν with e2NodeId := x } from h)
    (fun i hμ => hμ.performReport i) h hν

section
variable (h : ν.Keeps T out)
include h

theorem Keeps.addTx (i : Nat) (new : Reporter.Sample) : (ν.addTx i new).Keeps T out := by
  have hget : ∀ (j : Nat) (r' : Reporter), (ν.addTx i new).reporters[j]? = some r' →
      ∃ r, ν.reporters[j]? = some r ∧ (r' = r ∨ r' = r.addTx new) := by
    intro j r' hr'
    rw [E2Node.addTx, getElem?_modify] at hr'
    obtain ⟨r, hr, rfl⟩ := map_eq_some_iff.1 hr'
    refine ⟨r, hr, ?_⟩
    split
    · exact .inr rfl
    · exact .inl rfl
  refine ⟨h.inactive, fun r' hr' hact => ?_, fun r' hr' => ?_, fun j r' hr' => ?_⟩
  · obtain ⟨j, hj⟩ := mem_iff_getElem?.1 hr'
    obtain ⟨r, hr, rfl | rfl⟩ := hget j r' hj
    · exact h.active r' (mem_of_getElem? hr) hact
    · exact h.active r (mem_of_getElem? hr) hact
  · obtain ⟨j, hj⟩ := mem_iff_getElem?.1 hr'
    obtain ⟨r, hr, rfl | rfl⟩ := hget j r' hj
    · exact h.balanced r' (mem_of_getElem? hr)
    · exact (h.balanced r (mem_of_getElem? hr)).addTx new
  · obtain ⟨r, hr, rfl | rfl⟩ := hget j r' hr'
    · exact h.placed j r' hr
    · exact h.placed j r hr

theorem Keeps.powerOn (hact : ν.active = false) : ν.powerOn.Keeps T out := by
  refine ⟨fun hoff => ?_, fun _ _ _ => rfl, h.balanced, fun i r hr => ?_⟩
  · cases hoff
  · rw [h.placed i r hr, h.inactive hact]
    rfl

theorem Keeps.activateReporters (hact : ν.active = true)
    (hν : ν.activateReporters = .ok ν') : ν'.Keeps T out := by
  obtain ⟨rs, hrs, hν⟩ := ok_of_bind hν
  cases hν
  refine ⟨h.inactive, fun _ _ _ => hact, fun r' hr' => ?_, fun i r' hr' => ?_⟩
  · obtain ⟨i, hi⟩ := mem_iff_getElem?.1 hr'
    obtain ⟨r, hr, hact⟩ := getElem?_of_mapM hrs hi
    exact (h.balanced r (mem_of_getElem? hr)).of_sameRecord (Reporter.sameRecord_activate hact)
  · obtain ⟨r, hr, hact⟩ := getElem?_of_mapM hrs hr'
    rw [(Reporter.sameRecord_activate hact).2.2]
    exact h.placed i r hr

theorem Keeps.send : Keeps T { ν with reports := [] } ((ν.reports : Multiset Report) + out) := by
  refine ⟨fun _ => rfl, h.active, h.balanced, fun i r hr => ?_⟩
  rw [h.placed i r hr, reportsFrom_add]
  exact (Multiset.zero_add _).symm

theorem Keeps.of_out
    (hout : ∀ i, reportsFrom (T, i) out' = reportsFrom (T, i) out) : ν.Keeps T out' :=
  ⟨h.inactive, h.active, h.balanced, fun i r hr => by rw [hout, h.placed i r hr]⟩

end

end E2Node

/-! ## The tables of samples -/

/-- The report was saved: the RIC was active and the id of the report registered. -/
def Arrival.accepted (a : Arrival) : Bool := a.active && a.registered

/-- The rows of the reports of a kind that were saved. -/
def acceptedRows (kind : ReportKind) (arrivals : List Arrival) : List (Nat × Reporter.Sample) :=
  (arrivals.filter fun a => a.accepted && a.report.kind == kind).map fun a =>
    (a.report.reporterE2NodeId, a.report.sample)

/-- The rows of the table of a kind of reports. -/
def Db.reportRows (db : Db) : ReportKind → List (Nat × Reporter.Sample)
  | .txPdu => db.nruetxpdu.map fun row =>
      (row.nodeid, ⟨row.sample.time, row.sample.rnti, row.sample.lcid, row.sample.txPdu⟩)
  | .txDrop => db.nruetxdrop.map fun row =>
      (row.nodeid, ⟨row.sample.time, row.sample.rnti, row.sample.lcid, row.sample.txDrop⟩)

theorem reportRows_eq {db db' : Db} (h : Repository.Db.samples db' = Repository.Db.samples db)
    (kind : ReportKind) : db'.reportRows kind = db.reportRows kind := by
  have hpdu : db'.nruetxpdu = db.nruetxpdu := congrArg (·.2.1) h
  have hdrop : db'.nruetxdrop = db.nruetxdrop := congrArg (·.2.2) h
  cases kind with
  | txPdu => rw [Db.reportRows, hpdu, Db.reportRows]
  | txDrop => rw [Db.reportRows, hdrop, Db.reportRows]

theorem isNodeRegistered_and {r : Repository} (x : Nat) :
    (r.active && r.isNodeRegistered x) = r.isNodeRegistered x := by
  unfold Repository.isNodeRegistered
  cases r.active <;> rfl

theorem reportRows_saveReport {repo : Repository} (r : Report) (kind : ReportKind) :
    (E2World.saveReport repo r).db.reportRows kind = repo.db.reportRows kind ++
      if repo.isNodeRegistered r.reporterE2NodeId = true ∧ r.kind = kind then
        [(r.reporterE2NodeId, r.sample)] else [] := by
  unfold E2World.saveReport Repository.saveNrUeTxPdu Repository.saveNrUeTxDrop
  simp only [isNodeRegistered_and]
  cases hk : r.kind <;> cases hreg : repo.isNodeRegistered r.reporterE2NodeId <;> cases kind <;>
    simp [Db.reportRows, Repository.insertSample]

/-! ## The system -/

/-- The report that a message brings. -/
def E2Event.report? : E2Event → Option Report
  | .receiveReport r => some r
  | _ => none

namespace E2Net

variable {n n' : E2Net} {T : TermId} {x : Nat}

/-- The reports that have left their terminators. -/
def out (n : E2Net) : Multiset Report :=
  n.inFlight.filterMap E2Event.report? + (n.arrivals.map (·.report) : List Report)

/-- The invariant of the reports of a terminator that was never deactivated. -/
structure ReportInv (T : TermId) (n : E2Net) : Prop where
  owns : ∀ T', (n.nodes T').Owns T'
  keeps : (n.nodes T).Keeps T n.out
  rows : ∀ kind, n.repo.db.reportRows kind = acceptedRows kind n.arrivals

section
variable (hn : ReportInv T n)
include hn

theorem ReportInv.quiet (hnodes : n'.nodes = n.nodes) (harr : n'.arrivals = n.arrivals)
    (hfl : n'.inFlight.filterMap E2Event.report? = n.inFlight.filterMap E2Event.report?)
    (hdb : Repository.Db.samples n'.repo.db = Repository.Db.samples n.repo.db) :
    ReportInv T n' := by
  refine ⟨fun T' => hnodes ▸ hn.owns T', ?_, fun kind => ?_⟩
  · rw [hnodes, out, hfl, harr]
    exact hn.keeps
  · rw [reportRows_eq hdb, harr]
    exact hn.rows kind

theorem ReportInv.send {ev : E2Event} (hev : ev.report? = none) : ReportInv T (n.send ev) :=
  hn.quiet rfl rfl (filterMap_cons_none _ _ hev) rfl

variable {T' : TermId}

theorem ReportInv.update {n₁ : E2Net} {ν : E2Node}
    (hnodes : n₁.nodes = n.nodes) (hrepo : n₁.repo = n.repo) (harr : n₁.arrivals = n.arrivals)
    (hown : ν.Owns T') (hkeeps : T' = T → ν.Keeps T n₁.out)
    (hother : T' ≠ T → ∀ i, reportsFrom (T, i) n₁.out = reportsFrom (T, i) n.out) :
    ReportInv T (n₁.setNode T' ν) := by
  refine ⟨fun T'' => ?_, ?_, fun kind => ?_⟩
  · by_cases hT : T'' = T'
    · subst hT
      rw [setNode_self]
      exact hown
    · rw [setNode_of_ne hT, hnodes]
      exact hn.owns T''
  · by_cases hT : T' = T
    · subst hT
      rw [setNode_self]
      exact hkeeps rfl
    · rw [setNode_of_ne (Ne.symm hT), hnodes]
      exact hn.keeps.of_out (hother hT)
  · have hrows := hn.rows kind
    rw [← hrepo, ← harr] at hrows
    exact hrows

theorem ReportInv.setNode {ν : E2Node} (hown : ν.Owns T')
    (hkeeps : T' = T → ν.Keeps T n.out) : ReportInv T (n.setNode T' ν) :=
  hn.update rfl rfl rfl hown hkeeps fun _ _ => rfl

theorem ReportInv.register (T' : TermId) : ReportInv T (n.register T') := by
  unfold E2Net.register
  split
  · exact hn.quiet rfl rfl (filterMap_cons_none _ _ rfl) rfl
  · exact hn

theorem ReportInv.doSendReports (T' : TermId) : ReportInv T (n.doSendReports T') := by
  unfold E2Net.doSendReports
  split
  · set l := (n.nodes T').reports with hl
    have hout : E2Net.out { n with inFlight :=
        (l.map E2Event.receiveReport : List E2Event) + n.inFlight } = (l : Multiset Report) +
          n.out := by
      have hmap : (l.map E2Event.receiveReport).filterMap E2Event.report? = l := by
        rw [List.filterMap_map]
        exact List.filterMap_some
      rw [E2Net.out, Multiset.filterMap_add, Multiset.filterMap_coe, hmap, add_assoc]
      rfl
    refine hn.update rfl rfl rfl nofun (fun hT => ?_) fun hT i => ?_
    · subst hT
      have hkeeps := hn.keeps.send
      rw [← hl, ← hout] at hkeeps
      exact hkeeps
    · have hother : reportsFrom (T, i) l = 0 :=
        reportsFrom_eq_zero fun r hr h =>
          hT ((hn.owns T' r (Multiset.mem_coe.1 hr)).symm.trans (congrArg Prod.fst h))
      rw [hout, reportsFrom_add, hother, Multiset.zero_add]
  · exact hn

theorem ReportInv.arrive {r : Report} {rest : Multiset E2Event}
    (hfl : n.inFlight = .receiveReport r ::ₘ rest) :
    ReportInv T (E2Net.receiveReport { n with inFlight := rest } r) := by
  have hout : (E2Net.receiveReport { n with inFlight := rest } r).out = n.out := by
    have hcons : n.inFlight.filterMap E2Event.report? = r ::ₘ rest.filterMap E2Event.report? := by
      rw [hfl]
      exact filterMap_cons_some E2Event.report? _ _ rfl
    rw [E2Net.out, E2Net.out, hcons, E2Net.receiveReport, map_append, ← coe_add,
      cons_add, ← add_assoc, add_comm]
    rfl
  refine ⟨hn.owns, hout ▸ hn.keeps, fun kind => ?_⟩
  have happ : ∀ a : Arrival, acceptedRows kind (n.arrivals ++ [a]) =
      acceptedRows kind n.arrivals ++ if a.accepted = true ∧ a.report.kind = kind then
        [(a.report.reporterE2NodeId, a.report.sample)] else [] := by
    intro a
    rw [acceptedRows, filter_append, map_append]
    congr 1
    by_cases ha : a.accepted = true ∧ a.report.kind = kind
    · simp [ha.1, ha.2]
    · rw [if_neg ha]
      simpa using ha
  rw [E2Net.receiveReport, happ, ← hn.rows kind]
  dsimp only
  by_cases he : n.e2Active = true
  · rw [if_pos he, reportRows_saveReport]
    simp [Arrival.accepted, he]
  · simp [Arrival.accepted, he]

theorem ReportInv.deregistered (t : Time) (x : Nat) :
    ReportInv T (n.receiveDeregistrationRequest t x) := by
  unfold receiveDeregistrationRequest
  split
  · exact hn.quiet rfl rfl (filterMap_cons_none _ _ rfl)
      (Repository.call_samples t (.deregisterNode x))
  · exact hn

theorem ReportInv.commanded (c : Command) : ReportInv T (n.sendCommand c) := by
  unfold sendCommand
  split
  · exact hn.quiet rfl rfl (filterMap_cons_none _ _ rfl) rfl
  · exact hn

theorem ReportInv.activate (h : n.activate T' = .ok n') : ReportInv T n' := by
  obtain ⟨-, rfl⟩ | ⟨ν, hact, hν, rfl⟩ := activate_ok h
  · exact hn
  · set n₁ := (n.setNode T' (n.nodes T').powerOn).register T' with hn₁
    have hset : ReportInv T (n.setNode T' (n.nodes T').powerOn) := by
      refine hn.setNode nofun fun hT => ?_
      subst hT
      exact hn.keeps.powerOn hact
    have hon : ReportInv T n₁ := hset.register T'
    have hactive : (n₁.nodes T').active = true := by
      rw [hn₁, register_powerOn, E2Net.send, setNode_self]
      rfl
    refine hon.setNode ?_ fun hT => ?_
    · obtain ⟨rs, -, hν⟩ := ok_of_bind hν
      cases hν
      exact hon.owns T'
    · subst hT
      exact hon.keeps.activateReporters hactive hν

end

/-- The terminator is not deactivated. -/
def StaysActive (T : TermId) (_ : E2Net) : NetAction → Prop
  | .deactivate T' => T' ≠ T
  | _ => True

instance (T : TermId) (n : E2Net) : ∀ a, Decidable (StaysActive T n a)
  | .deactivate _ => inferInstanceAs (Decidable (_ ≠ _))
  | .register _ | .doSendReports _ | .deliver _ _ | .activate _ | .performReport _ _ | .addTx _ _ _
  | .processCommands _ | .deregisterInactive _ _ _ | .setActive _ => .isTrue trivial

/-- The steps that do not deactivate the terminator keep the places of its reports. -/
theorem ReportInv.step {a : NetAction} (hn : ReportInv T n) (hok : StaysActive T n a)
    (h : n.Step a n') : ReportInv T n' := by
  cases a with
  | register T' => cases h; exact hn.register T'
  | doSendReports T' => cases h; exact hn.doSendReports T'
  | deliver t ev =>
    obtain ⟨rest, hfl, h⟩ := h
    have htake : ev.report? = none → ReportInv T { n with inFlight := rest } := by
      intro hev
      refine hn.quiet rfl rfl ?_ rfl
      rw [hfl, filterMap_cons_none _ _ hev]
    cases ev with
    | register T' | doSendReports T' => cases h; exact htake rfl
    | receiveRegistrationRequest type id T' =>
      cases h
      unfold receiveRegistrationRequest
      split
      · exact (htake rfl).quiet rfl rfl (filterMap_cons_none _ _ rfl) (Repository.call_samples t _)
      · exact htake rfl
    | receiveDeregistrationRequest x => cases h; exact (htake rfl).deregistered t x
    | receiveReport r => cases h; exact hn.arrive hfl
    | receiveRegistrationResponse T' x =>
      obtain rfl | ⟨ν, hν, rfl⟩ := receiveRegistrationResponse_ok h
      · exact htake rfl
      · refine (htake rfl).setNode ((hn.owns T').learnId hν) fun hT => ?_
        subst hT
        exact (htake rfl).keeps.learnId hν
    | receiveDeregistrationResponse T' x =>
      cases T' with
      | none => cases h
      | some T' =>
        cases h
        refine (htake rfl).setNode (hn.owns T') fun hT => ?_
        subst hT
        have hkeeps := (htake rfl).keeps
        exact ⟨hkeeps.inactive, hkeeps.active, hkeeps.balanced, hkeeps.placed⟩
    | receiveCommand T' c =>
      cases T' with
      | none => cases h
      | some T' => cases h; exact htake rfl
  | activate T' => exact hn.activate h
  | deactivate T' =>
    obtain rfl | ⟨ν, -, hν, rfl⟩ := deactivate_ok h
    · exact hn
    · obtain ⟨rs, -, hν⟩ := ok_of_bind hν
      cases hν
      have hreps : ReportInv T (n.setNode T' { n.nodes T' with reporters := rs }) :=
        hn.setNode (hn.owns T') fun hT => absurd hT hok
      have hsent : ReportInv T ((n.setNode T' { n.nodes T' with reporters := rs }).deregister T') :=
        hreps.send rfl
      exact hsent.setNode (hn.owns T') fun hT => absurd hT hok
  | performReport T' i =>
    cases h
    refine hn.setNode ((hn.owns T').performReport i) fun hT => ?_
    subst hT
    exact hn.keeps.performReport i
  | addTx T' i new =>
    cases h
    refine hn.setNode (hn.owns T') fun hT => ?_
    subst hT
    exact hn.keeps.addTx i new
  | processCommands cs =>
    cases h
    unfold processCommands
    split
    · exact foldlRecOn (motive := ReportInv T) cs _ hn fun m hm c _ => hm.commanded c
    · exact hn
  | deregisterInactive t b ids =>
    obtain ⟨-, rfl⟩ := h
    unfold deregisterInactive
    split
    · exact foldlRecOn (motive := ReportInv T) ids _ hn fun m hm x _ => hm.deregistered t x
    · exact hn
  | setActive active =>
    cases h
    unfold setActive
    split
    · exact hn
    · exact hn.quiet rfl rfl rfl rfl

theorem reportInv_init (cfg : TermId → TerminatorConfig) : ReportInv T (.init cfg) := by
  have hfresh : ∀ (i : Nat) (r : Reporter), ((init cfg).nodes T).reporters[i]? = some r →
      ∃ kind initialReport, r = .fresh kind initialReport := by
    intro i r hr
    obtain ⟨c, -, rfl⟩ := mem_map.1 (mem_of_getElem? hr)
    exact ⟨c.1, c.2, rfl⟩
  have hmem : ∀ r ∈ ((init cfg).nodes T).reporters, ∃ kind initialReport,
      r = .fresh kind initialReport := by
    intro r hr
    obtain ⟨i, hi⟩ := mem_iff_getElem?.1 hr
    exact hfresh i r hi
  refine ⟨fun _ => nofun, ⟨fun _ => rfl, fun r hr hact => ?_, fun r hr => ?_, fun i r hr => ?_⟩,
    fun kind => by cases kind <;> rfl⟩
  · obtain ⟨kind, init, rfl⟩ := hmem r hr
    cases hact
  · obtain ⟨kind, init, rfl⟩ := hmem r hr
    exact ⟨0, rfl⟩
  · obtain ⟨kind, init, rfl⟩ := hfresh i r hr
    rfl

end E2Net

namespace E2World

variable (w : E2World) (T : TermId) (i : Nat)

/-- The reports of a reporter that its terminator keeps. -/
def queued : Multiset Report := reportsFrom (T, i) (w.node T).reports

/-- The reports of a reporter in flight. -/
def sent : Multiset Report := reportsFrom (T, i) (w.inFlight.filterMap E2Event.report?)

/-- The reports of a reporter that arrived and were saved. -/
def stored : Multiset Report :=
  reportsFrom (T, i) ((w.arrivals.filter (·.accepted)).map (·.report) : List Report)

/-- The reports of a reporter that arrived when the RIC was inactive or their id not registered. -/
def refused : Multiset Report :=
  reportsFrom (T, i) ((w.arrivals.filter (!·.accepted)).map (·.report) : List Report)

/-- The bytes of a reporter at all the places where they can be. -/
def totalBytes (r : Reporter) : Nat :=
  reportBytes (w.stored T i) + reportBytes (w.refused T i) + reportBytes (w.sent T i) +
    reportBytes (w.queued T i) + sampleBytes r.samples

/-- The bytes that were recorded are at one of the places, modulo `2 ^ 64`; every report that was
generated is at one place; and the tables have one row for each report that was saved and no other.
-/
structure Conserved (r : Reporter) : Prop where
  bytes : r.recorded < 2 ^ 64 → r.recorded = w.totalBytes T i r
  wraps : r.recorded % 2 ^ 64 = w.totalBytes T i r % 2 ^ 64
  placed : (r.generated : Multiset Report) =
    w.stored T i + w.refused T i + w.sent T i + w.queued T i
  rows : ∀ kind, w.repo.db.reportRows kind = acceptedRows kind w.arrivals

variable {w T i}

theorem stored_add_refused :
    reportsFrom (T, i) (w.arrivals.map (·.report) : List Report) = w.stored T i + w.refused T
      i := by
  have hsplit : ((w.arrivals.filter (·.accepted) ++ w.arrivals.filter (!·.accepted)).map
      (·.report)).Perm (w.arrivals.map (·.report)) :=
    (filter_append_perm _ _).map _
  rw [← coe_eq_coe.2 hsplit, map_append, ← coe_add, reportsFrom_add]
  rfl

theorem conserved_of_net {r : Reporter} (h : E2Net.ReportInv T w.net)
    (hr : (w.node T).reporters[i]? = some r) : w.Conserved T i r := by
  have hplaced : (r.generated : Multiset Report) =
      w.stored T i + w.refused T i + w.sent T i + w.queued T i := by
    have harrived : reportsFrom (T, i) (w.net.arrivals.map (·.report) : List Report) =
        w.stored T i + w.refused T i := stored_add_refused
    rw [h.keeps.placed i r hr, E2Net.out, reportsFrom_add, harrived, add_comm,
      add_comm _ (w.stored T i + w.refused T i)]
    rfl
  obtain ⟨k, hk⟩ := h.keeps.balanced r (mem_of_getElem? hr)
  rw [hplaced, reportBytes_add, reportBytes_add, reportBytes_add] at hk
  have htotal : r.recorded = w.totalBytes T i r + 2 ^ 64 * k := by
    unfold totalBytes
    omega
  refine ⟨fun hlt => ?_, ?_, hplaced, h.rows⟩
  · cases k with
    | zero => exact htotal
    | succ k => omega
  · rw [htotal, Nat.add_mul_mod_self_left]

/-- In every run in which the terminator is not deactivated, the bytes of its reporters are
conserved. -/
theorem bytes_conserved (threshold : Time) (cfg : TermId → TerminatorConfig) (T : TermId) (i : Nat)
    (w : E2World) (r : Reporter)
    (h : Lts.Run Step (fun w a => E2Net.StaysActive T w.net (w.netAction a)) (init threshold cfg) w)
    (hr : (w.node T).reporters[i]? = some r) : w.Conserved T i r :=
  conserved_of_net (Lts.Run.invariant (I := E2Net.ReportInv T)
    (fun hn hok hst => hn.step hok hst) (E2Net.reportInv_init cfg) (net_run h)) hr

/-- A report that is generated after the terminator has learned its id: it is saved, and what is
recorded later is in the samples. -/
theorem bytes_conserved_example : ∃ (w : E2World) (r : Reporter),
    r.recorded = 130 ∧ sampleBytes r.samples = 30 ∧ reportBytes (w.stored 0 0) = 100 ∧
      w.Conserved 0 0 r := by
  have hx : (execs (fun w a => E2Net.StaysActive 0 w.net (w.netAction a)) step?
      (init 100 ueConfig) [.setActive 0 true, .activate 0 (draws 2 50) 0, .fire (draws 2 0),
        .fire (draws 0 10), .addTx 5 0 0 7 3 100, .performReport 6 0 0, .addTx 8 0 0 7 3 30,
        .fire (draws 2 10), .fire (draws 0 0)]).map
      (fun w => ((w.node 0).reporters[0]?.map fun r => (r.recorded, sampleBytes r.samples),
        reportBytes (w.stored 0 0))) = some (some (130, 30), 100) := by decide
  obtain ⟨w, hw, hf⟩ := map_eq_some_iff.1 hx
  obtain ⟨hr, hstored⟩ := Prod.mk.injEq .. ▸ hf
  obtain ⟨r, hr, hrec⟩ := map_eq_some_iff.1 hr
  obtain ⟨hrec, hsamples⟩ := Prod.mk.injEq .. ▸ hrec
  exact ⟨w, r, hrec, hsamples, hstored,
    bytes_conserved 100 ueConfig 0 0 w r (run_of_execs step_of_step? hw) hr⟩

/-- A report that is generated before the terminator has learned its id is not saved: its bytes are
at none of the other places. -/
theorem bytes_refused :
    ¬ ∀ (threshold : Time) (cfg : TermId → TerminatorConfig) (T : TermId) (i : Nat)
    (w : E2World) (r : Reporter),
    Lts.Run Step (fun w a => E2Net.StaysActive T w.net (w.netAction a)) (init threshold cfg) w →
    (w.node T).reporters[i]? = some r →
    r.recorded = reportBytes (w.stored T i) + reportBytes (w.sent T i) +
      reportBytes (w.queued T i) + sampleBytes r.samples := by
  intro h
  have hx : (execs (fun w a => E2Net.StaysActive 0 w.net (w.netAction a)) step?
      (init 100 ueConfig) [.setActive 0 true, .activate 0 (draws 2 50) 0, .addTx 1 0 0 7 3 100,
        .performReport 1 0 0, .fire (draws 2 0), .fire (draws 0 10), .fire (draws 2 10),
        .fire (draws 0 0)]).map
      (fun w => ((w.node 0).reporters[0]?.map fun r => (r.recorded, sampleBytes r.samples),
        reportBytes (w.stored 0 0) + reportBytes (w.sent 0 0) + reportBytes (w.queued 0 0))) =
      some (some (100, 0), 0) := by decide
  obtain ⟨w, hw, hf⟩ := map_eq_some_iff.1 hx
  obtain ⟨hr, hplaces⟩ := Prod.mk.injEq .. ▸ hf
  obtain ⟨r, hr, hrec⟩ := map_eq_some_iff.1 hr
  obtain ⟨hrec, hsamples⟩ := Prod.mk.injEq .. ▸ hrec
  have hall := h 100 ueConfig 0 0 w r (run_of_execs step_of_step? hw) hr
  rw [hrec, hsamples, hplaces] at hall
  cases hall

end E2World

end OranNs3
