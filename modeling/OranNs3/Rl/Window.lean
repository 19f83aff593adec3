import Mathlib.Algebra.Group.Action.Defs
import Mathlib.Algebra.Order.BigOperators.Group.List
import OranNs3.Repository.Spec

/-!
# The windows of the reinforcement learning module

`GetBufferSize`, `GetTxDrop` and `GetTxPdu` of `OranLmNrRlQlearn` (`oran-lm-nr-rl-qlearn.cc`)
average the samples of a UE that are newer than the newest one they have seen. They differ in the
table they read and the maps they keep; here they are one function (`Window.average`) at three
metrics. The window is kept for a UE, and `lcid` is not used; a sample that comes late, or with the
time remembered, is never counted; sizes are narrowed to 32 bits when they are read.

Each call returns the average of the samples of its UE and channel that no call counted before
(`averages_exact`) where samples come in order and fit, and a call finds new samples of its own
channel only, of a registered UE.
-/

namespace OranNs3

open Function Lts Option

/-- The three metrics that are averaged. -/
inductive Metric
  | buffer
  | txDrop
  | txPdu
deriving DecidableEq

/-- The maps that are kept for one metric, by UE: `m_bufferCounter`, `m_lastBufferValue` and
`m_lastBufferTime`, and those of the other metrics. -/
structure Window where
  counter : Nat → Nat
  lastValue : Nat → Nat
  lastTime : Nat → Option Time

/-- `m_N`, the number of calls for one update. -/
def mN : Nat := 1

/-- The variables of the loop over the samples. -/
structure WindowSum where
  sum : Nat
  count : Nat
  newest : Time

/-- The body of the loop: a sample after `lastTime` is added. -/
def addSample (lastTime : Time) (a : WindowSum) (s : Time × Nat) : WindowSum :=
  if lastTime < s.1 then
    ⟨(a.sum + s.2) % 2 ^ 64, (a.count + 1) % 2 ^ 64, if a.newest < s.1 then s.1 else a.newest⟩
  else a

namespace Window

/-- The time of the newest sample seen. -/
def last (w : Window) (ueId : Nat) : Time := (w.lastTime ueId).getD 0

/-- The body of `GetBufferSize`, `GetTxDrop` and `GetTxPdu`, over the samples read from the
repository. -/
def average (w : Window) (samples : List (Time × Nat)) (ueId : Nat) : Nat × Window :=
  let counter := (w.counter ueId + 1) % 2 ^ 32
  if counter < mN then
    (w.lastValue ueId, { w with counter := update w.counter ueId counter })
  else
    let w := { w with counter := update w.counter ueId 0 }
    if samples = [] then (0, w)
    else
      let a := samples.foldl (addSample (w.last ueId)) ⟨0, 0, w.last ueId⟩
      let w := { w with lastTime := update w.lastTime ueId (some a.newest) }
      if a.count = 0 then (0, { w with lastValue := update w.lastValue ueId 0 })
      else (a.sum / a.count, { w with lastValue := update w.lastValue ueId (a.sum / a.count) })

/-- The samples that the loop adds. -/
def fresh (w : Window) (ueId : Nat) (samples : List (Time × Nat)) : List (Time × Nat) :=
  samples.filter fun s => w.last ueId < s.1

end Window

/-- The state of `OranLmNrRlQlearn` that the averages use. -/
abbrev RlLm := Metric → Window

/-- The samples of a UE, as the three functions read them. -/
def samplesOf (data : Repository) (ueId : Nat) : Metric → List (Time × Nat)
  | .buffer => (data.getNrUeBufferStatus ueId).map fun s => (s.time, s.txQueueSize)
  | .txDrop => (data.getNrUeTxDrop ueId).map fun s => (s.time, s.txDrop)
  | .txPdu => (data.getNrUeTxPdu ueId).map fun s => (s.time, s.txPdu)

/-- The average of a metric; the logical channel is not used. -/
def getMetric (m : Metric) (data : Repository) (lm : RlLm) (ueId : Nat) (_lcid : Nat) :
    Nat × RlLm :=
  let (value, window) := (lm m).average (samplesOf data ueId m) ueId
  (value, update lm m window)

def getBufferSize : Repository → RlLm → Nat → Nat → Nat × RlLm := getMetric .buffer

def getTxDrop : Repository → RlLm → Nat → Nat → Nat × RlLm := getMetric .txDrop

def getTxPdu : Repository → RlLm → Nat → Nat → Nat × RlLm := getMetric .txPdu

/-- The function that averages a metric. -/
def getAverage : Metric → Repository → RlLm → Nat → Nat → Nat × RlLm
  | .buffer => getBufferSize
  | .txDrop => getTxDrop
  | .txPdu => getTxPdu

/-! ## Stored samples -/

/-- A stored sample, of whichever metric. -/
structure Entry where
  entryid : Nat
  nodeid : Nat
  time : Time
  lcid : Nat
  value : Nat
deriving DecidableEq

/-- The rows of the table of a metric. -/
def entries (db : Db) : Metric → List Entry
  | .buffer => db.nruetxbuffer.map fun r =>
      ⟨r.entryid, r.nodeid, r.sample.time, r.sample.lcid, r.sample.txQueueSize⟩
  | .txDrop => db.nruetxdrop.map fun r =>
      ⟨r.entryid, r.nodeid, r.sample.time, r.sample.lcid, r.sample.txDrop⟩
  | .txPdu => db.nruetxpdu.map fun r =>
      ⟨r.entryid, r.nodeid, r.sample.time, r.sample.lcid, r.sample.txPdu⟩

/-- A sample that a report brings. -/
inductive Sample
  | buffer (status : NrUeBufferStatus)
  | txDrop (drop : NrUeTxDrop)
  | txPdu (pdu : NrUeTxPdu)

namespace Sample

def metric : Sample → Metric
  | .buffer _ => .buffer
  | .txDrop _ => .txDrop
  | .txPdu _ => .txPdu

/-- The row of a sample of the node `x`. -/
def entry (id x : Nat) : Sample → Entry
  | .buffer s => ⟨id, x, s.time, s.lcid, s.txQueueSize⟩
  | .txDrop s => ⟨id, x, s.time, s.lcid, s.txDrop⟩
  | .txPdu s => ⟨id, x, s.time, s.lcid, s.txPdu⟩

/-- The function of the repository that stores the sample. -/
def save (data : Repository) (x : Nat) : Sample → Repository
  | .buffer s => data.saveNrUeBufferStatus x s
  | .txDrop s => data.saveNrUeTxDrop x s
  | .txPdu s => data.saveNrUeTxPdu x s

end Sample

/-- A call, with its result and the samples it is to average: the ghost record of the call. -/
structure RlCall where
  metric : Metric
  ueId : Nat
  lcid : Nat
  result : Nat
  samples : List Entry

/-- The integer average of samples; that of no sample is 0. -/
def averageOf (l : List Entry) : Nat := (l.map (·.value)).sum / l.length

/-- The repository, the logic module and the calls so far. -/
structure RlWorld where
  repo : Repository
  lm : RlLm
  calls : List RlCall

/-- What can happen: a node is registered or deregistered, a sample arrives for a node, or an
average is asked for. -/
inductive RlAction
  | registration (t : Time) (c : Repository.Call)
  | save (x : Nat) (s : Sample)
  | get (m : Metric) (ueId lcid : Nat)

namespace RlWorld

variable (w : RlWorld)

/-- Some earlier call for the same metric, UE and channel counted the sample. -/
def Counted (m : Metric) (e : Entry) : Prop :=
  ∃ c ∈ w.calls, c.metric = m ∧ c.ueId = e.nodeid ∧ c.lcid = e.lcid ∧ e ∈ c.samples
deriving Decidable

/-- The stored samples of a UE and a channel that no earlier call for them has counted. -/
def uncounted (m : Metric) (ueId lcid : Nat) : List Entry :=
  (entries w.repo.db m).filter fun e => e.nodeid = ueId ∧ e.lcid = lcid ∧ ¬ w.Counted m e

/-- One step. -/
def step : RlAction → RlWorld
  | .registration t c => { w with repo := (w.repo.call t c).1 }
  | .save x s => { w with repo := s.save w.repo x }
  | .get m ueId lcid =>
      let (result, lm) := getAverage m w.repo w.lm ueId lcid
      { w with lm, calls := w.calls ++ [⟨m, ueId, lcid, result, w.uncounted m ueId lcid⟩] }

/-- The step relation. -/
def Step (a : RlAction) (w' : RlWorld) : Prop := w.step a = w'

/-- An empty repository and windows of no samples. -/
def init : RlWorld :=
  ⟨⟨true, .empty⟩, fun _ => ⟨fun _ => 0, fun _ => 0, fun _ => none⟩, []⟩

end RlWorld

/-! ## What an average computes -/

/-- The loop, while nothing overflows: it sums and counts the samples after `lastTime`, and ends at
a time that is not before any of them. -/
theorem foldl_addSample (lastTime : Time) (l : List (Time × Nat)) (a : WindowSum)
    (hsum : a.sum + ((l.filter fun s => lastTime < s.1).map (·.2)).sum < 2 ^ 64)
    (hcount : a.count + (l.filter fun s => lastTime < s.1).length < 2 ^ 64) :
    (l.foldl (addSample lastTime) a).sum =
      a.sum + ((l.filter fun s => lastTime < s.1).map (·.2)).sum ∧
    (l.foldl (addSample lastTime) a).count =
      a.count + (l.filter fun s => lastTime < s.1).length ∧
    a.newest ≤ (l.foldl (addSample lastTime) a).newest ∧
    ∀ s ∈ l, lastTime < s.1 → s.1 ≤ (l.foldl (addSample lastTime) a).newest := by
  induction l generalizing a with
  | nil => exact ⟨rfl, rfl, le_rfl, nofun⟩
  | cons s l ih =>
    by_cases hs : lastTime < s.1
    · rw [List.filter_cons_of_pos (by simpa using hs)] at hsum hcount ⊢
      rw [List.map_cons, List.sum_cons] at hsum ⊢
      rw [List.length_cons] at hcount ⊢
      have hadd : addSample lastTime a s =
          ⟨a.sum + s.2, a.count + 1, if a.newest < s.1 then s.1 else a.newest⟩ := by
        rw [addSample, if_pos hs, Nat.mod_eq_of_lt (by omega), Nat.mod_eq_of_lt (by omega)]
      have hnew : a.newest ≤ (addSample lastTime a s).newest ∧
          s.1 ≤ (addSample lastTime a s).newest := by
        rw [hadd]
        by_cases hlt : a.newest < s.1
        · simp only [if_pos hlt]
          exact ⟨hlt.le, le_rfl⟩
        · simp only [if_neg hlt]
          exact ⟨le_rfl, not_lt.1 hlt⟩
      obtain ⟨h1, h2, h3, h4⟩ := ih (addSample lastTime a s)
        (by rw [hadd]; dsimp only; omega) (by rw [hadd]; dsimp only; omega)
      rw [List.foldl_cons]
      refine ⟨?_, ?_, hnew.1.trans h3, fun s' hs' hlt => ?_⟩
      · rw [h1, hadd, add_assoc]
      · rw [h2, hadd]
        dsimp only
        omega
      · rcases List.mem_cons.1 hs' with rfl | hs'
        · exact hnew.2.trans h3
        · exact h4 s' hs' hlt
    · rw [List.filter_cons_of_neg (by simpa using hs)] at hsum hcount ⊢
      have hadd : addSample lastTime a s = a := if_neg hs
      rw [List.foldl_cons, hadd]
      obtain ⟨h1, h2, h3, h4⟩ := ih a hsum hcount
      refine ⟨h1, h2, h3, fun s' hs' hlt => ?_⟩
      rcases List.mem_cons.1 hs' with rfl | hs'
      · exact absurd hlt hs
      · exact h4 s' hs' hlt

namespace Window

variable {w : Window} {samples : List (Time × Nat)} {ueId : Nat}

/-- What a call leaves: other UEs are untouched, the counter is reset, and the remembered time is
not before a sample that was read. -/
structure Averaged (w : Window) (samples : List (Time × Nat)) (ueId : Nat) (w' : Window) :
    Prop where
  counter : w'.counter = w.counter
  other : ∀ x, x ≠ ueId → w'.last x = w.last x
  mono : w.last ueId ≤ w'.last ueId
  seen : ∀ s ∈ samples, s.1 ≤ w'.last ueId

/-- With a counter of 0, a call returns the average of the samples after the remembered time, while
nothing overflows. -/
theorem average_spec (hc : w.counter ueId = 0)
    (hsum : ((w.fresh ueId samples).map (·.2)).sum < 2 ^ 64)
    (hlen : (w.fresh ueId samples).length < 2 ^ 64) :
    (w.average samples ueId).1 =
      ((w.fresh ueId samples).map (·.2)).sum / (w.fresh ueId samples).length ∧
    Averaged w samples ueId (w.average samples ueId).2 := by
  have hreset : update w.counter ueId 0 = w.counter := by
    rw [← hc, update_eq_self]
  by_cases hnil : samples = []
  · have h : w.average samples ueId = (0, w) := by
      simp [average, hc, mN, hnil, hreset]
    rw [h]
    subst hnil
    exact ⟨by simp [fresh], rfl, fun _ _ => rfl, le_rfl, nofun⟩
  · obtain ⟨h1, h2, h3, h4⟩ := foldl_addSample (w.last ueId) samples ⟨0, 0, w.last ueId⟩
      (by simpa [fresh] using hsum) (by simpa [fresh] using hlen)
    generalize ha : samples.foldl (addSample (w.last ueId)) ⟨0, 0, w.last ueId⟩ = a at h1 h2 h3 h4
    rw [zero_add] at h1 h2
    have hlast : ∀ v : Nat → Nat, Averaged w samples ueId
        ⟨w.counter, v, update w.lastTime ueId (some a.newest)⟩ := by
      intro v
      refine ⟨rfl, fun x hx => ?_, ?_, fun s hs => ?_⟩
      · simp [last, update_of_ne hx]
      · simpa [last] using h3
      · by_cases hlt : w.last ueId < s.1
        · simpa [last] using h4 s hs hlt
        · simpa [last] using (not_lt.1 hlt).trans h3
    have havg : w.average samples ueId = if a.count = 0 then (0, ⟨w.counter,
        update w.lastValue ueId 0, update w.lastTime ueId (some a.newest)⟩)
        else (a.sum / a.count, ⟨w.counter, update w.lastValue ueId (a.sum / a.count),
          update w.lastTime ueId (some a.newest)⟩) := by
      simp [average, hc, mN, hnil, hreset, ha]
    rw [havg]
    split
    · next h0 =>
      refine ⟨?_, hlast _⟩
      change 0 = _
      rw [fresh, ← h2, h0, Nat.div_zero]
    · refine ⟨?_, hlast _⟩
      change a.sum / a.count = _
      rw [fresh, ← h1, ← h2]

end Window

/-! ## Reading and storing samples -/

section
variable {r : Repository} {x : Nat}

theorem selectSamples_perm {σ : Type} (time : σ → Time) (read : σ → σ) (rows : List (SampleRow σ)) :
    (Repository.selectSamples time read rows x).Perm
      ((rows.filter fun row => row.nodeid == x).map fun row => read row.sample) :=
  (List.perm_insertionSort _ _).map _

theorem samplesOf_perm (h : (r.active && r.isNodeRegistered x) = true) (m : Metric) :
    (samplesOf r x m).Perm (((entries r.db m).filter fun e => e.nodeid = x).map
      fun e => (e.time, e.value % 2 ^ 32)) := by
  cases m with
  | buffer =>
    rw [samplesOf, Repository.getNrUeBufferStatus, if_pos h]
    refine ((selectSamples_perm _ _ _).map _).trans (List.Perm.of_eq ?_)
    simp [entries, List.filter_map, comp_def, beq_eq_decide]
  | txDrop =>
    rw [samplesOf, Repository.getNrUeTxDrop, if_pos h]
    refine (((List.reverse_perm _).trans (selectSamples_perm _ _ _)).map _).trans
      (List.Perm.of_eq ?_)
    simp [entries, List.filter_map, comp_def, beq_eq_decide]
  | txPdu =>
    rw [samplesOf, Repository.getNrUeTxPdu, if_pos h]
    refine (((List.reverse_perm _).trans (selectSamples_perm _ _ _)).map _).trans
      (List.Perm.of_eq ?_)
    simp [entries, List.filter_map, comp_def, beq_eq_decide]

theorem samplesOf_unregistered (h : ¬ (r.active && r.isNodeRegistered x) = true) (m : Metric) :
    samplesOf r x m = [] := by
  cases m with
  | buffer => rw [samplesOf, Repository.getNrUeBufferStatus, if_neg h, List.map_nil]
  | txDrop => rw [samplesOf, Repository.getNrUeTxDrop, if_neg h, List.map_nil]
  | txPdu => rw [samplesOf, Repository.getNrUeTxPdu, if_neg h, List.map_nil]

theorem entries_save (s : Sample) (m : Metric) : entries (s.save r x).db m =
    if m = s.metric ∧ (r.active && r.isNodeRegistered x) = true then
      entries r.db m ++ [s.entry ((entries r.db m).length + 1) x]
    else entries r.db m := by
  by_cases h : (r.active && r.isNodeRegistered x) = true
  · cases s with
    | buffer s =>
      rw [Sample.save, Repository.saveNrUeBufferStatus, if_pos h]
      cases m <;> simp [entries, Sample.metric, Sample.entry, Repository.insertSample, h]
    | txDrop s =>
      rw [Sample.save, Repository.saveNrUeTxDrop, if_pos h]
      cases m <;> simp [entries, Sample.metric, Sample.entry, Repository.insertSample, h]
    | txPdu s =>
      rw [Sample.save, Repository.saveNrUeTxPdu, if_pos h]
      cases m <;> simp [entries, Sample.metric, Sample.entry, Repository.insertSample, h]
  · rw [if_neg fun h' => h h'.2]
    cases s with
    | buffer s => rw [Sample.save, Repository.saveNrUeBufferStatus, if_neg h]
    | txDrop s => rw [Sample.save, Repository.saveNrUeTxDrop, if_neg h]
    | txPdu s => rw [Sample.save, Repository.saveNrUeTxPdu, if_neg h]

theorem entries_call (t : Time) (c : Repository.Call) (m : Metric) :
    entries (r.call t c).1.db m = entries r.db m := by
  obtain ⟨hbuffer, hpdu, hdrop⟩ : _ ∧ _ ∧ _ := by
    have h := Repository.call_samples (r := r) t c
    exact ⟨congrArg (·.1) h, congrArg (·.2.1) h, congrArg (·.2.2) h⟩
  cases m with
  | buffer => exact congrArg (List.map _) hbuffer
  | txPdu => exact congrArg (List.map _) hpdu
  | txDrop => exact congrArg (List.map _) hdrop

end

/-! ## Runs -/

namespace RlWorld

variable {w w' : RlWorld} {a : RlAction} {m : Metric} {ueId lcid x : Nat}

/-- The stored samples of a UE after the remembered time, of every channel. -/
def newEntries (w : RlWorld) (m : Metric) (ueId : Nat) : List Entry :=
  (entries w.repo.db m).filter fun e => e.nodeid = ueId ∧ (w.lm m).last ueId < e.time

/-- The condition of a step: a sample that is stored is after the remembered time and fits in 32
bits; a call that finds new samples finds a registered UE, fewer than 2^32 of them, and only samples
of its channel. -/
def InOrder (w : RlWorld) : RlAction → Prop
  | .registration _ _ => True
  | .save x s => (w.repo.active && w.repo.isNodeRegistered x) = true →
      (w.lm s.metric).last x < (s.entry 0 x).time ∧ (s.entry 0 x).value < 2 ^ 32
  | .get m ueId lcid =>
      (w.newEntries m ueId ≠ [] → (w.repo.active && w.repo.isNodeRegistered ueId) = true) ∧
      (∀ e ∈ w.newEntries m ueId, e.lcid = lcid) ∧ (w.newEntries m ueId).length < 2 ^ 32

instance (w : RlWorld) : ∀ a, Decidable (InOrder w a)
  | .registration _ _ => .isTrue trivial
  | .save _ _ => inferInstanceAs (Decidable (_ → _))
  | .get _ _ _ => inferInstanceAs (Decidable (_ ∧ _))

/-- The invariant: a stored sample was counted for its UE and channel exactly when it is not after
the remembered time of its UE. -/
structure RlInv (w : RlWorld) : Prop where
  counter : ∀ m x, (w.lm m).counter x = 0
  ids : ∀ m, ∀ e ∈ entries w.repo.db m, e.entryid ≤ (entries w.repo.db m).length
  values : ∀ m, ∀ e ∈ entries w.repo.db m, e.value < 2 ^ 32
  samples : ∀ c ∈ w.calls, ∀ e ∈ c.samples, e ∈ entries w.repo.db c.metric
  counted : ∀ m, ∀ e ∈ entries w.repo.db m,
    w.Counted m e ↔ e.time ≤ (w.lm m).last e.nodeid
  exact : ∀ c ∈ w.calls, c.result = averageOf c.samples

theorem mem_newEntries {e : Entry} : e ∈ w.newEntries m ueId ↔
    e ∈ entries w.repo.db m ∧ e.nodeid = ueId ∧ (w.lm m).last ueId < e.time := by
  rw [newEntries, List.mem_filter, decide_eq_true_iff]

theorem RlInv.newEntries_eq (hw : w.RlInv) (hlcid : ∀ e ∈ w.newEntries m ueId, e.lcid = lcid) :
    w.newEntries m ueId = w.uncounted m ueId lcid := by
  refine List.filter_congr fun e he => ?_
  rw [decide_eq_decide]
  have hc := hw.counted m e he
  constructor
  · rintro ⟨rfl, hlt⟩
    refine ⟨rfl, hlcid e (mem_newEntries.2 ⟨he, rfl, hlt⟩), fun h => ?_⟩
    exact absurd (hc.1 h) (not_le.2 hlt)
  · rintro ⟨rfl, -, hn⟩
    exact ⟨rfl, not_le.1 fun h => hn (hc.2 h)⟩

theorem RlInv.fresh_perm (hw : w.RlInv)
    (hreg : w.newEntries m ueId ≠ [] → (w.repo.active && w.repo.isNodeRegistered ueId) = true) :
    ((w.lm m).fresh ueId (samplesOf w.repo ueId m)).Perm
      ((w.newEntries m ueId).map fun e => (e.time, e.value)) := by
  by_cases h : (w.repo.active && w.repo.isNodeRegistered ueId) = true
  · refine ((samplesOf_perm h m).filter _).trans (List.Perm.of_eq ?_)
    rw [List.filter_map, List.filter_filter]
    have hf : ((entries w.repo.db m).filter fun e => ((fun s : Time × Nat =>
        decide ((w.lm m).last ueId < s.1)) ∘ fun e : Entry => (e.time, e.value % 2 ^ 32)) e &&
        decide (e.nodeid = ueId)) = w.newEntries m ueId := by
      refine List.filter_congr fun e _ => ?_
      simp [Bool.and_comm]
    rw [hf]
    refine List.map_congr_left fun e he => ?_
    rw [Nat.mod_eq_of_lt (hw.values m e (mem_newEntries.1 he).1)]
  · have hnil : w.newEntries m ueId = [] := by
      by_contra hne
      exact h (hreg hne)
    rw [samplesOf_unregistered h, hnil]
    exact List.Perm.refl _

theorem RlInv.sum_lt (hw : w.RlInv) (hlen : (w.newEntries m ueId).length < 2 ^ 32) :
    ((w.newEntries m ueId).map (·.value)).sum < 2 ^ 64 := by
  have hle : ((w.newEntries m ueId).map (·.value)).sum ≤
      ((w.newEntries m ueId).map (·.value)).length • (2 ^ 32) := by
    refine List.sum_le_card_nsmul _ _ fun v hv => ?_
    obtain ⟨e, he, rfl⟩ := List.mem_map.1 hv
    exact (hw.values m e (mem_newEntries.1 he).1).le
  rw [List.length_map, smul_eq_mul] at hle
  have : (w.newEntries m ueId).length * 2 ^ 32 ≤ (2 ^ 32 - 1) * 2 ^ 32 :=
    Nat.mul_le_mul_right _ (by omega)
  omega

theorem RlInv.average_eq (hw : w.RlInv) (hok : InOrder w (.get m ueId lcid)) :
    ((w.lm m).average (samplesOf w.repo ueId m) ueId).1 = averageOf (w.uncounted m ueId lcid) ∧
    ((w.lm m).Averaged (samplesOf w.repo ueId m) ueId
      ((w.lm m).average (samplesOf w.repo ueId m) ueId).2) := by
  obtain ⟨hreg, hlcid, hlen⟩ := hok
  have hperm := hw.fresh_perm hreg
  have hsum : (((w.lm m).fresh ueId (samplesOf w.repo ueId m)).map (·.2)).sum =
      ((w.newEntries m ueId).map (·.value)).sum := by
    have := (hperm.map (·.2)).sum_eq
    rwa [List.map_map] at this
  have hlen' : ((w.lm m).fresh ueId (samplesOf w.repo ueId m)).length =
      (w.newEntries m ueId).length := by
    have := hperm.length_eq
    rwa [List.length_map] at this
  obtain ⟨h1, h2⟩ := Window.average_spec (w := w.lm m) (hw.counter m ueId)
    (by rw [hsum]; exact hw.sum_lt hlen) (by omega)
  refine ⟨?_, h2⟩
  rw [h1, hsum, hlen', averageOf, hw.newEntries_eq hlcid]

theorem counted_get {c : RlCall} {m' : Metric} {e : Entry} (hcalls : w'.calls = w.calls ++ [c]) :
    w'.Counted m' e ↔ w.Counted m' e ∨
      c.metric = m' ∧ c.ueId = e.nodeid ∧ c.lcid = e.lcid ∧ e ∈ c.samples := by
  unfold Counted
  rw [hcalls]
  simp only [List.mem_append, List.mem_singleton, or_and_right, exists_or, exists_eq_left]

/-- A call keeps the invariant. -/
theorem RlInv.get (hw : w.RlInv) (hok : InOrder w (.get m ueId lcid)) :
    (w.step (.get m ueId lcid)).RlInv := by
  obtain ⟨havg, hspec⟩ := hw.average_eq hok
  obtain ⟨hreg, hlcid, -⟩ := hok
  have hstep : w.step (.get m ueId lcid) = ⟨w.repo,
      update w.lm m ((w.lm m).average (samplesOf w.repo ueId m) ueId).2,
      w.calls ++ [⟨m, ueId, lcid, ((w.lm m).average (samplesOf w.repo ueId m) ueId).1,
        w.uncounted m ueId lcid⟩]⟩ := by cases m <;> rfl
  -- every sample of the UE is at most the remembered time after the call
  have hseen : ∀ e ∈ entries w.repo.db m, e.nodeid = ueId →
      e.time ≤ ((w.lm m).average (samplesOf w.repo ueId m) ueId).2.last ueId := by
    intro e he hx
    by_cases hlt : (w.lm m).last ueId < e.time
    · have hmem := mem_newEntries.2 ⟨he, hx, hlt⟩
      have hsample : (e.time, e.value % 2 ^ 32) ∈ samplesOf w.repo ueId m :=
        (samplesOf_perm (hreg (List.ne_nil_of_mem hmem)) m).mem_iff.2
          (List.mem_map.2 ⟨e, List.mem_filter.2 ⟨he, by simpa using hx⟩, rfl⟩)
      exact hspec.seen _ hsample
    · exact (not_lt.1 hlt).trans hspec.mono
  rw [hstep]
  constructor
  case counter =>
    intro m' x
    by_cases hm : m' = m
    · subst hm
      dsimp only
      rw [update_self, hspec.counter]
      exact hw.counter m' x
    · dsimp only
      rw [update_of_ne hm]
      exact hw.counter m' x
  case ids => exact hw.ids
  case values => exact hw.values
  case samples =>
    intro c hc e he
    rcases List.mem_append.1 hc with hc | hc
    · exact hw.samples c hc e he
    · rw [List.mem_singleton.1 hc] at he ⊢
      exact (List.mem_filter.1 he).1
  case counted =>
    intro m' e he
    rw [counted_get rfl]
    dsimp only at he ⊢
    by_cases hm : m' = m
    · subst hm
      rw [update_self]
      by_cases hx : e.nodeid = ueId
      · refine iff_of_true ?_ (hx ▸ hseen e he hx)
        by_cases hcnt : w.Counted m' e
        · exact .inl hcnt
        · have hnew : e ∈ w.newEntries m' ueId := mem_newEntries.2
            ⟨he, hx, not_le.1 fun h => hcnt ((hw.counted m' e he).2 (hx ▸ h))⟩
          refine .inr ⟨rfl, hx.symm, (hlcid e hnew).symm, ?_⟩
          rw [← hw.newEntries_eq hlcid]
          exact hnew
      · rw [hspec.other _ hx, ← hw.counted m' e he]
        constructor
        · rintro (h | ⟨-, h, -⟩)
          · exact h
          · exact absurd h.symm hx
        · exact .inl
    · rw [update_of_ne hm, ← hw.counted m' e he]
      constructor
      · rintro (h | ⟨h, -⟩)
        · exact h
        · exact absurd h.symm hm
      · exact .inl
  case exact =>
    intro c hc
    rcases List.mem_append.1 hc with hc | hc
    · exact hw.exact c hc
    · rw [List.mem_singleton.1 hc]
      exact havg

theorem RlInv.of_entries (hw : w.RlInv) {r : Repository}
    (hsame : ∀ m, entries r.db m = entries w.repo.db m) : RlInv { w with repo := r } where
  counter := hw.counter
  ids := fun m => (hsame m).symm ▸ hw.ids m
  values := fun m => (hsame m).symm ▸ hw.values m
  samples := fun c hc e he => (hsame c.metric).symm ▸ hw.samples c hc e he
  counted := fun m => (hsame m).symm ▸ hw.counted m
  exact := hw.exact

/-- A sample that is stored in order keeps the invariant. -/
theorem RlInv.save {s : Sample} (hw : w.RlInv) (hok : InOrder w (.save x s)) :
    (w.step (.save x s)).RlInv := by
  have hentries := entries_save (r := w.repo) (x := x) s
  by_cases hreg : (w.repo.active && w.repo.isNodeRegistered x) = true
  · obtain ⟨htime, hval⟩ := hok hreg
    have hnew : ∀ id, (s.entry id x).nodeid = x ∧ (s.entry id x).entryid = id ∧
        (s.entry id x).time = (s.entry 0 x).time ∧ (s.entry id x).value = (s.entry 0 x).value := by
      intro id
      cases s <;> exact ⟨rfl, rfl, rfl, rfl⟩
    -- a row is an old one, or the new one of the sample's metric
    have hmem : ∀ m e, e ∈ entries (s.save w.repo x).db m → e ∈ entries w.repo.db m ∨
        m = s.metric ∧ e = s.entry ((entries w.repo.db m).length + 1) x := by
      intro m e he
      rw [hentries m] at he
      split at he
      · next hm =>
        rcases List.mem_append.1 he with he | he
        · exact .inl he
        · exact .inr ⟨hm.1, List.mem_singleton.1 he⟩
      · exact .inl he
    have hold : ∀ m, ∀ e ∈ entries w.repo.db m, e ∈ entries (s.save w.repo x).db m := by
      intro m e he
      rw [hentries m]
      split
      · exact List.mem_append_left _ he
      · exact he
    have hlen : ∀ m, (entries w.repo.db m).length ≤ (entries (s.save w.repo x).db m).length ∧
        (m = s.metric → (entries w.repo.db m).length + 1 ≤
          (entries (s.save w.repo x).db m).length) := by
      intro m
      rw [hentries m]
      split
      · simp
      · next hm => exact ⟨le_rfl, fun h => absurd ⟨h, hreg⟩ hm⟩
    refine ⟨hw.counter, ?_, ?_, fun c hc e he => hold _ e (hw.samples c hc e he), ?_, hw.exact⟩
    · intro m e he
      rcases hmem m e he with he | ⟨hm, rfl⟩
      · exact (hw.ids m e he).trans (hlen m).1
      · rw [(hnew _).2.1]
        exact (hlen m).2 hm
    · intro m e he
      rcases hmem m e he with he | ⟨-, rfl⟩
      · exact hw.values m e he
      · rw [(hnew _).2.2.2]
        exact hval
    · intro m e he
      rcases hmem m e he with he | ⟨hm, rfl⟩
      · exact hw.counted m e he
      · refine iff_of_false ?_ ?_
        · rintro ⟨c, hc, hcm, -, -, hs⟩
          have := hw.ids _ _ (hw.samples c hc _ hs)
          rw [(hnew _).2.1, hcm] at this
          omega
        · rw [(hnew _).1, (hnew _).2.2.1, hm]
          exact not_le.2 htime
  · exact hw.of_entries fun m => by rw [hentries m, if_neg fun h => hreg h.2]

theorem RlInv.step (hw : w.RlInv) (hok : InOrder w a) (h : Step w a w') : w'.RlInv := by
  subst h
  cases a with
  | registration t c => exact hw.of_entries (entries_call t c)
  | save x s => exact hw.save hok
  | get m ueId lcid => exact hw.get hok

/-- In every run in which samples come in order and fit, and in which calls find only new samples of
their channel and of a registered UE, every call returns the average of the samples that no earlier
call counted. -/
theorem averages_exact (w : RlWorld) (h : Run Step InOrder init w) :
    ∀ c ∈ w.calls, c.result = averageOf c.samples := by
  have h0 : init.RlInv := by
    have he : ∀ m, entries init.repo.db m = [] := fun m => by cases m <;> rfl
    constructor
    case counter => exact fun _ _ => rfl
    case ids | values | counted => intro m e hm; rw [he m] at hm; cases hm
    case samples | exact => exact nofun
  exact (Run.invariant (I := RlInv) (fun hw hok hst => hw.step hok hst) h0 h).exact

/-- Two averages of samples of one channel, which come in order. -/
theorem averages_exact_example : ∃ w : RlWorld, w.calls.map (·.result) = [10, 20] ∧
    ∀ c ∈ w.calls, c.result = averageOf c.samples := by
  have hx : (execs InOrder (fun w a => some (w.step a)) init
      [.registration 0 (.registerNode .nrUe 0), .save 1 (.txDrop ⟨5, 1, 1, 10⟩),
        .get .txDrop 1 1, .save 1 (.txDrop ⟨6, 1, 1, 21⟩), .save 1 (.txDrop ⟨7, 1, 1, 20⟩),
        .get .txDrop 1 1]).map (fun w => w.calls.map (·.result)) = some [10, 20] := by decide
  obtain ⟨w, hw, hf⟩ := map_eq_some_iff.1 hx
  exact ⟨w, hf, averages_exact w (run_of_execs some_inj.1 hw)⟩

/-- The average for one channel counts a sample of another. -/
theorem averages_mixed : ¬ ∀ w, Run Step anyStep init w →
    ∀ c ∈ w.calls, c.result = averageOf c.samples := by
  intro h
  have hx : (execs anyStep (fun w a => some (w.step a)) init
      [.registration 0 (.registerNode .nrUe 0), .save 1 (.txDrop ⟨5, 1, 1, 10⟩),
        .save 1 (.txDrop ⟨6, 1, 3, 30⟩), .get .txDrop 1 1]).map
      (fun w => w.calls.map fun c => (c.result, averageOf c.samples)) = some [(20, 10)] := by decide
  obtain ⟨w, hw, hf⟩ := map_eq_some_iff.1 hx
  have hmem : (20, 10) ∈ w.calls.map fun c => (c.result, averageOf c.samples) := by
    rw [hf]
    exact List.mem_cons_self
  obtain ⟨c, hc, hpair⟩ := List.mem_map.1 hmem
  obtain ⟨h1, h2⟩ := Prod.mk.injEq .. ▸ hpair
  have := h w (run_of_execs some_inj.1 hw) c hc
  omega

end RlWorld

end OranNs3
