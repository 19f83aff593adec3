import OranNs3.Sched.Known

/-!
# Repeated feedback in the UL

`DoSchedUlTriggerReq` drops feedback for inactive processes and passes the rest to
`ProcessHARQFeedbacks`. It does not drop a second element for the same process, as the DL does, so
an element that erases its process (an ACK, or any feedback after the last retransmission) leaves
the next one of that process with an inactive process, which is fatal. This is the only way to reach
the fatal error (`ul_feedback_ok_iff`). The processing depends only on the redundancy versions of
the active processes, so the argument is about these (`Fatal`, `fatal_iff`).
-/

namespace OranNs3

open Fallible Function Keyed List Option

variable {cfg : SchedConfig} {s : Sched} {d : DciFormat} {ues ues' : List UeInfo}
  {fs : List HarqInfo} {v : HarqVector}

/-- The process that an element is about. -/
def HarqInfo.key (f : HarqInfo) : Nat × Nat := (f.rnti, f.harqProcessId)

/-- The process of a UE, or `none` where there is no UE or no such process. -/
def procAt (d : DciFormat) (ues : List UeInfo) (k : Nat × Nat) : Option HarqProcess :=
  (Keyed.find? UeInfo.rnti k.1 ues).bind fun u => (u.harq d).find? k.2

variable {k : Nat × Nat} {u : UeInfo}

theorem procAt_of_find?
    (hu : Keyed.find? UeInfo.rnti k.1 ues = some u) : procAt d ues k = (u.harq d).find? k.2 := by
  simp [procAt, hu]

theorem findProcess_of_procAt {p : HarqProcess} (h : procAt d ues k = some p) :
    findProcess d ues k.1 k.2 = .ok p := by
  obtain ⟨u, hu, hp⟩ := bind_eq_some_iff.1 h
  simp [findProcess, findUe, hu, HarqVector.get_eq_ok.2 hp, bind, Except.bind]

theorem procAt_of_findProcess {p : HarqProcess}
    (h : findProcess d ues k.1 k.2 = .ok p) : procAt d ues k = some p := by
  obtain ⟨u, hu, hp⟩ := Lts.ok_of_bind h
  unfold findUe at hu
  split at hu
  · next u' hu' =>
    cases hu
    rw [procAt_of_find? hu', HarqVector.get_eq_ok.1 hp]
  · cases hu

/-! ## Expiry -/

/-- A process after `ResetExpiredHARQ`. -/
def expire (num : Nat) : HarqProcess → HarqProcess
  | none => none
  | some p => if p.timer < num then some { p with timer := p.timer + 1 } else none

variable {q : HarqProcess}

theorem spec_resetExpiredProcess {num id : Nat} (hv : v.Wf) (hq : v.find? id = some q) :
    Spec (fun _ => False) (fun w => w.Wf ∧ w.find? id = some (expire num q) ∧ ∀ id', id' ≠ id →
        w.find? id' = v.find? id') (resetExpiredProcess num v id) := by
  rw [resetExpiredProcess, HarqVector.get_eq_ok.2 hq]
  cases q with
  | none => exact ⟨hv, hq, fun _ _ => rfl⟩
  | some p =>
    change Spec _ _ (if p.timer < num then _ else _)
    split
    · next hlt =>
      rw [expire, if_pos hlt]
      exact ⟨hv.set hq, HarqVector.find?_set_self hq, fun id' => HarqVector.find?_set_of_ne⟩
    · next hge =>
      obtain ⟨heq, hwf⟩ := hv.erase hq
      rw [heq, expire, if_neg hge]
      exact ⟨hwf, HarqVector.find?_erased_self hq, fun id' => HarqVector.find?_erased_of_ne⟩

theorem spec_expire {num : Nat} (hv : v.Wf) :
    Spec (fun _ => False) (fun w => ∀ id, w.find? id = (v.find? id).map (expire num))
      (resetExpiredHARQ num v) := by
  have hloop : Spec (fun _ => False)
      (fun w : HarqVector => ([] : List Nat).Nodup ∧ w.Wf ∧ ∀ id,
        w.find? id = if id ∈ ([] : List Nat) then v.find? id else (v.find? id).map (expire num))
      (resetExpiredHARQ num v) := by
    refine Spec.foldlM_mem_rest (P := fun (ids : List Nat) (w : HarqVector) => ids.Nodup ∧ w.Wf ∧
      ∀ id, w.find? id = if id ∈ ids then v.find? id else (v.find? id).map (expire num))
      (fun {id ids w} hmem hw => ?_) ⟨hv.nodup, hv, fun id => ?_⟩
    · obtain ⟨hnd, hwf, hfind⟩ := hw
      obtain ⟨hid, hnd⟩ := nodup_cons.1 hnd
      obtain ⟨⟨id', q⟩, hq⟩ := exists_find? hmem
      have hold : v.find? id = some q := by simp [HarqVector.find?, hq]
      have hcur : w.find? id = some q := by rw [hfind id, if_pos mem_cons_self, hold]
      refine (spec_resetExpiredProcess hwf hcur).imp fun w' hw' => ⟨hnd, hw'.1, fun i => ?_⟩
      by_cases hi : i = id
      · subst hi
        rw [if_neg hid, hold, hw'.2.1]
        rfl
      · rw [hw'.2.2 i hi, hfind i]
        simp [hi]
    · split
      · rfl
      · next hid =>
        have hnone : v.find? id = none := by simp [HarqVector.find?, find?_eq_none.2 hid]
        simp [hnone]
  exact hloop.imp fun w hw id => by simpa using hw.2.2 id

theorem spec_resetExpired_procAt (h : UesOk cfg ues) :
    Spec (fun _ => False) (fun ues' => UesOk cfg ues' ∧
        ∀ k, procAt d ues' k = (procAt d ues k).map (expire cfg.numHarqProcess))
      (resetExpired cfg d ues) := by
  have hall : Spec (fun _ => False)
      (List.Forall₂ (fun u u' : UeInfo => u'.rnti = u.rnti ∧ ∀ id, (u'.harq d).find? id =
        ((u.harq d).find? id).map (expire cfg.numHarqProcess)) ues) (resetExpired cfg d ues) := by
    refine Spec.mapM fun u hu => (spec_expire ((h.ue u hu).wf d)).bind fun w hw => ?_
    exact ⟨UeInfo.rnti_setHarq, by simpa using hw⟩
  refine ((spec_resetExpired h).and hall).imp fun ues' hues => ⟨hues.1.1, fun k => ?_⟩
  have hrel := hues.2
  clear h hues hall
  induction hrel with
  | nil => rfl
  | @cons u u' us us' hu _ ih =>
    simp only [procAt, Keyed.find?_cons, hu.1] at ih ⊢
    split
    · simpa using hu.2 k.2
    · exact ih

/-! ## Feedback for active processes -/

/-- A process is active. -/
def isActiveAt (ues : List UeInfo) (f : HarqInfo) : Bool := (procAt .ul ues f.key).join.isSome

/-- The filter succeeds when all processes exist, and keeps the feedback for active ones. -/
theorem filterUlFeedback_eq_ok {kept : List HarqInfo} : filterUlFeedback ues fs = .ok kept ↔
    (∀ f ∈ fs, (procAt .ul ues f.key).isSome) ∧ kept = fs.filter (isActiveAt ues) := by
  induction fs generalizing kept with
  | nil =>
    constructor
    · rintro ⟨⟩
      exact ⟨forall_mem_nil _, rfl⟩
    · rintro ⟨-, rfl⟩
      rfl
  | cons f fs ih =>
    rw [filterUlFeedback, forall_mem_cons]
    cases hp : procAt .ul ues f.key with
    | none =>
      refine ⟨fun h => ?_, fun h => absurd h.1.1 (by simp)⟩
      obtain ⟨q, hq, -⟩ := Lts.ok_of_bind h
      rw [procAt_of_findProcess (k := f.key) hq] at hp
      cases hp
    | some q =>
      have hfind : findProcess .ul ues f.rnti f.harqProcessId = .ok q := findProcess_of_procAt hp
      rw [hfind]
      cases q with
      | none =>
        change filterUlFeedback ues fs = .ok kept ↔ _
        simp [ih, isActiveAt, hp]
      | some p =>
        rw [filter_cons_of_pos (by simp [isActiveAt, hp])]
        change (filterUlFeedback ues fs >>= fun rest => .ok (f :: rest)) = .ok kept ↔ _
        constructor
        · intro h
          obtain ⟨rest, hrest, h⟩ := Lts.ok_of_bind h
          cases h
          obtain ⟨hall, rfl⟩ := ih.1 hrest
          exact ⟨⟨rfl, hall⟩, rfl⟩
        · rintro ⟨⟨-, hall⟩, rfl⟩
          rw [ih.2 ⟨hall, rfl⟩]
          rfl

/-- The redundancy version of an active process. -/
def rvAt (d : DciFormat) (ues : List UeInfo) (k : Nat × Nat) : Option Nat :=
  (procAt d ues k).join.map fun p => p.dci.rv

/-! ## The fatal error -/

/-- The elements reach the fatal error: one of them finds its process inactive, in the processes
that the elements before it leave. -/
def Fatal (max : Nat) : (Nat × Nat → Option Nat) → List HarqInfo → Prop
  | _, [] => False
  | rv, f :: fs =>
    match rv f.key with
    | none => True
    | some r =>
      if f.isReceivedOk || r == max then Fatal max (Function.update rv f.key none) fs
      else Fatal max rv fs

/-- An element erases its process. -/
def ErasesRv (max : Nat) (rv : Nat × Nat → Option Nat) (f : HarqInfo) : Prop :=
  ∃ r, rv f.key = some r ∧ (f.isReceivedOk = true ∨ r = max)

/-- The fatal error is reached when a process is inactive from the start, or an element that erases
its process has another one after it. -/
theorem fatal_iff {max : Nat} {rv : Nat × Nat → Option Nat} : Fatal max rv fs ↔
    (∃ f ∈ fs, rv f.key = none) ∨ ¬ fs.Pairwise fun f g => ErasesRv max rv f → g.key ≠ f.key := by
  induction fs generalizing rv with
  | nil => simp [Fatal]
  | cons f fs ih =>
    rw [Fatal, pairwise_cons, exists_mem_cons_iff]
    cases hr : rv f.key with
    | none => simp
    | some r =>
      dsimp only
      split
      · next her =>
        have her : ErasesRv max rv f := ⟨r, hr, by simpa using her⟩
        by_cases hrep : ∃ g ∈ fs, g.key = f.key
        · obtain ⟨g, hg, hkey⟩ := hrep
          refine iff_of_true (ih.2 (.inl ⟨g, hg, by simp [hkey]⟩)) (.inr fun h => ?_)
          exact h.1 g hg her hkey
        · -- no later element is about the process, so its erasure makes no difference
          have hother : ∀ g ∈ fs, Function.update rv f.key none g.key = rv g.key := fun g hg =>
            update_of_ne (fun hkey => hrep ⟨g, hg, hkey⟩) _ _
          have hpw : (fs.Pairwise fun g g' => ErasesRv max (Function.update rv f.key none) g →
              g'.key ≠ g.key) ↔ fs.Pairwise fun g g' => ErasesRv max rv g → g'.key ≠ g.key :=
            Pairwise.iff_of_mem fun {g g'} hg _ => by rw [ErasesRv, ErasesRv, hother g hg]
          rw [ih, hpw]
          refine or_congr ⟨?_, ?_⟩ (not_congr ?_)
          · rintro ⟨g, hg, hnone⟩
            exact .inr ⟨g, hg, hother g hg ▸ hnone⟩
          · rintro (hnone | ⟨g, hg, hnone⟩)
            · cases hnone
            · exact ⟨g, hg, (hother g hg).trans hnone⟩
          · exact ⟨fun h => ⟨fun g hg _ hkey => hrep ⟨g, hg, hkey⟩, h⟩, fun h => h.2⟩
      · next hkeep =>
        have hkeep : ¬ ErasesRv max rv f := by
          rintro ⟨r', hr', her⟩
          rw [hr] at hr'
          cases hr'
          exact hkeep (by simpa using her)
        rw [ih]
        simp [hkeep]

variable {rnti id : Nat}

theorem procAt_modify {g : UeInfo → UeInfo}
    (hg : ∀ u, (g u).rnti = u.rnti) (hu : Keyed.find? UeInfo.rnti rnti ues = some u)
    (hself : ((g u).harq d).find? id = some q)
    (hother : ∀ id', id' ≠ id → ((g u).harq d).find? id' = (u.harq d).find? id') (k : Nat × Nat) :
    procAt d (Keyed.modify UeInfo.rnti rnti g ues) k =
      if k = (rnti, id) then some q else procAt d ues k := by
  have hkey : ∀ a : UeInfo, a.rnti = rnti → (g a).rnti = rnti := fun a ha => (hg a).trans ha
  obtain ⟨r, i⟩ := k
  by_cases hr : r = rnti
  · subst hr
    rw [procAt, find?_modify_self hkey, procAt_of_find? (k := (r, i)) hu, hu]
    change ((g u).harq d).find? i = _
    by_cases hi : i = id
    · rw [hi, hself, if_pos rfl]
    · rw [hother i hi, if_neg fun heq => hi (Prod.ext_iff.1 heq).2]
  · rw [procAt, find?_modify_of_ne hkey hr, if_neg fun heq => hr (Prod.ext_iff.1 heq).1]
    rfl

theorem procAt_erased
    (hu : Keyed.find? UeInfo.rnti rnti ues = some u) (hq : (u.harq d).find? id = some q)
    (k : Nat × Nat) : procAt d (setVector d ues rnti ((u.harq d).erased id)) k =
      if k = (rnti, id) then some none else procAt d ues k := by
  refine procAt_modify (fun _ => UeInfo.rnti_setHarq) hu ?_ (fun id' hne => ?_) k
  · simpa using HarqVector.find?_erased_self hq
  · simpa using HarqVector.find?_erased_of_ne hne

theorem procAt_setProcess {p : ActiveHarq}
    (hu : Keyed.find? UeInfo.rnti rnti ues = some u) (hq : (u.harq d).find? id = some q)
    (k : Nat × Nat) : procAt d (setProcess d ues rnti id p) k =
      if k = (rnti, id) then some (some p) else procAt d ues k := by
  refine procAt_modify (fun _ => UeInfo.rnti_setHarq) hu ?_ (fun id' hne => ?_) k
  · simpa using HarqVector.find?_set_self hq
  · simpa using HarqVector.find?_set_of_ne hne

theorem error_of_bind_ok {ε α β : Type} {x : Except ε α} {f : α → β} {e : ε} :
    (x >>= fun a => .ok (f a)) = .error e ↔ x = .error e := by
  cases x with
  | error e' => exact ⟨fun h => by cases h; rfl, fun h => by cases h; rfl⟩
  | ok a => exact ⟨nofun, nofun⟩

theorem maxHarqReTx_lt (cfg : SchedConfig) : maxHarqReTx cfg < 4 := by
  unfold maxHarqReTx
  split <;> omega

/-- `ProcessHARQFeedbacks` is fatal exactly when the redundancy versions say so. -/
theorem processHARQFeedbacks_fatal_iff (h : UesOk cfg ues)
    (hl : ∀ f ∈ fs, (procAt d ues f.key).isSome) :
    processHARQFeedbacks cfg d ues fs = .error .inactiveProcess ↔
      Fatal (maxHarqReTx cfg) (rvAt d ues) fs := by
  induction fs generalizing ues with
  | nil => exact ⟨nofun, nofun⟩
  | cons f fs ih =>
    obtain ⟨hf, hl⟩ := forall_mem_cons.1 hl
    obtain ⟨q, hq⟩ := isSome_iff_exists.1 hf
    have hbind := bind_eq_some_iff.1 hq
    obtain ⟨u, hu, hfind⟩ : ∃ u, Keyed.find? UeInfo.rnti f.rnti ues = some u ∧
      (u.harq d).find? f.harqProcessId = some q := hbind
    have hue : findUe ues f.rnti = .ok u := by simp [findUe, hu]
    have hget : (u.harq d).get f.harqProcessId = .ok q := HarqVector.get_eq_ok.2 hfind
    rw [processHARQFeedbacks, hue, Fatal]
    change ((u.harq d).get f.harqProcessId >>= _) = _ ↔ _
    rw [hget]
    cases q with
    | none =>
      refine iff_of_true rfl ?_
      rw [show rvAt d ues f.key = none by simp [rvAt, hq]]
      trivial
    | some p =>
      have hrv : rvAt d ues f.key = some p.dci.rv := by simp [rvAt, hq]
      have hlt := maxHarqReTx_lt cfg
      have hle := (h.proc hu hfind).rv
      have hnot : ¬ 4 ≤ p.dci.rv := by omega
      change (if 4 ≤ p.dci.rv then _ else if _ then _ else _) = _ ↔ _
      rw [if_neg hnot, hrv]
      dsimp only
      split
      · -- the process is erased
        obtain ⟨herase, hwf⟩ := ((h.find? hu).wf d).erase hfind
        have hat : ∀ k, procAt d (setVector d ues f.rnti ((u.harq d).erased f.harqProcessId)) k =
            if k = f.key then some none else procAt d ues k := procAt_erased hu hfind
        have hrvs : rvAt d (setVector d ues f.rnti ((u.harq d).erased f.harqProcessId)) =
            Function.update (rvAt d ues) f.key none := by
          funext k
          by_cases hk : k = f.key
          · rw [hk, update_self, rvAt, hat, if_pos rfl]
            rfl
          · rw [update_of_ne hk, rvAt, hat, if_neg hk, rvAt]
        have hold : (u.harq d).Forall (ProcOk cfg f.rnti) :=
          key_of_find? hu ▸ (h.find? hu).procs d
        rw [herase, ← hrvs]
        refine ih (h.setVector hu hwf hold.erased) fun g hg => ?_
        rw [hat]
        split
        · rfl
        · exact hl g hg
      · next hnack =>
        have hproc := h.proc hu hfind
        have hne : p.dci.rv ≠ maxHarqReTx cfg := by simp_all
        have hok : ProcOk cfg f.rnti f.harqProcessId { p with status := .receivedFeedback } :=
          ⟨hproc.rnti, hproc.harqProcess, hproc.rv, fun _ => Nat.lt_of_le_of_ne hproc.rv hne⟩
        have hat : ∀ k, procAt d (setProcess d ues f.rnti f.harqProcessId
            { p with status := .receivedFeedback }) k =
            if k = f.key then some (some { p with status := .receivedFeedback })
            else procAt d ues k := procAt_setProcess hu hfind
        have hrvs : rvAt d (setProcess d ues f.rnti f.harqProcessId
            { p with status := .receivedFeedback }) = rvAt d ues := by
          funext k
          by_cases hk : k = f.key
          · rw [hk, hrv, rvAt, hat, if_pos rfl]
            rfl
          · rw [rvAt, hat, if_neg hk, rvAt]
        rw [← hrvs]
        refine error_of_bind_ok.trans (ih (h.setProcess hu hfind hok) fun g hg => ?_)
        rw [hat]
        split
        · rfl
        · exact hl g hg

/-! ## The UL trigger -/

/-- The feedback of a UL trigger: what could not be retransmitted, then what is received. -/
def mergedUl (s : Sched) (inp : UlTrigger) : List HarqInfo :=
  s.ulHarqToRetransmit ++ inp.harqInfoList

/-- An element erases its process: the process is active and does not expire in this slot, and the
element is an ACK or follows the last retransmission. -/
def ErasesProcess (cfg : SchedConfig) (s : Sched) (f : HarqInfo) : Prop :=
  ∃ p, procAt .ul s.ueMap f.key = some (some p) ∧ p.timer < cfg.numHarqProcess ∧
    (f.isReceivedOk = true ∨ p.dci.rv = maxHarqReTx cfg)

/-- The condition on a UL trigger: where all processes exist, no element that erases its process has
another one for the same process after it. -/
def UlFeedbackOk (cfg : SchedConfig) (s : Sched) (inp : UlTrigger) : Prop :=
  (∀ f ∈ mergedUl s inp, (procAt .ul s.ueMap f.key).isSome) →
    (mergedUl s inp).Pairwise fun f g => ErasesProcess cfg s f → g.key ≠ f.key

theorem rvAt_expired {num : Nat} {r : Nat}
    (h : procAt d ues' k = (procAt d ues k).map (expire num)) :
    rvAt d ues' k = some r ↔
      ∃ p, procAt d ues k = some (some p) ∧ p.timer < num ∧ p.dci.rv = r := by
  rw [rvAt, h]
  cases procAt d ues k with
  | none => simp
  | some q =>
    cases q with
    | none => simp [expire]
    | some p =>
      by_cases hlt : p.timer < num <;> simp [expire, hlt]

theorem not_err_inactiveProcess {known : Prop} : ¬ Err known .inactiveProcess := by
  simp [Err]

theorem pairwise_kept_iff (hat : ∀ k, procAt .ul ues k =
    (procAt .ul s.ueMap k).map (expire cfg.numHarqProcess)) :
    ((fs.filter (isActiveAt ues)).Pairwise fun f g =>
      ErasesRv (maxHarqReTx cfg) (rvAt .ul ues) f → g.key ≠ f.key) ↔
      fs.Pairwise fun f g => ErasesProcess cfg s f → g.key ≠ f.key := by
  have herases : ∀ f : HarqInfo,
      ErasesRv (maxHarqReTx cfg) (rvAt .ul ues) f ↔ ErasesProcess cfg s f := by
    intro f
    constructor
    · rintro ⟨r, hr, hcond⟩
      obtain ⟨p, hp, hlt, rfl⟩ := (rvAt_expired (hat f.key)).1 hr
      exact ⟨p, hp, hlt, hcond⟩
    · rintro ⟨p, hp, hlt, hcond⟩
      exact ⟨p.dci.rv, (rvAt_expired (hat f.key)).2 ⟨p, hp, hlt, rfl⟩, hcond⟩
  rw [pairwise_filter]
  refine Pairwise.iff fun f g => ?_
  rw [herases]
  refine ⟨fun h her hkey => ?_, fun h _ _ => h⟩
  -- the process of an element that erases it is active, and so is that of the other one
  have hactive : isActiveAt ues f = true := by
    obtain ⟨r, hr, -⟩ := (herases f).2 her
    obtain ⟨p, hp, -⟩ := map_eq_some_iff.1 hr
    simp [isActiveAt, hp]
  have hactive' : isActiveAt ues g = true := by rwa [isActiveAt, hkey]
  exact h hactive hactive' her hkey

theorem rvAt_of_kept {f : HarqInfo} (h : f ∈ fs.filter (isActiveAt ues)) :
    rvAt .ul ues f.key ≠ none := by
  obtain ⟨p, hp⟩ := isSome_iff_exists.1 (mem_filter.1 h).2
  simp [rvAt, hp]

theorem scheduleUl_ne_inactiveProcess {inp : UlTrigger} (h : SchedOk cfg s)
    (hul : s.ulHarqToRetransmit = []) : scheduleUl cfg s inp fs ≠ .error .inactiveProcess := by
  intro herr
  have hspec : Spec (Err False) _ (scheduleUl cfg s inp fs) := spec_scheduleUl h hul nofun nofun
  exact not_err_inactiveProcess (hspec.error herr)

/-- In every state that is reached, a UL trigger avoids the fatal error exactly when it meets the
condition. -/
theorem ul_feedback_ok_iff (h : Sched.Reachable cfg s) (inp : UlTrigger) :
    s.call cfg (.ulTrigger inp) ≠ .error .inactiveProcess ↔ UlFeedbackOk cfg s inp := by
  change doSchedUlTriggerReq cfg s inp ≠ _ ↔ _
  have hexp := spec_resetExpired_procAt (d := .ul) h.ok.ues
  rw [doSchedUlTriggerReq]
  cases hues : resetExpired cfg .ul s.ueMap with
  | error e => exact (hexp.error hues).elim
  | ok ues =>
    obtain ⟨hok, hat⟩ := hexp.ok hues
    have hsome : ∀ k, (procAt .ul ues k).isSome = (procAt .ul s.ueMap k).isSome := fun k => by
      rw [hat k, isSome_map]
    change (filterUlFeedback ues (mergedUl s inp) >>= _) ≠ _ ↔ _
    cases hkept : filterUlFeedback ues (mergedUl s inp) with
    | error e =>
      -- some process does not exist, and the trigger stops there
      refine iff_of_true (fun heq => ?_) fun hall => ?_
      · have hspec : Spec (Err False) _ (filterUlFeedback ues (mergedUl s inp)) :=
          spec_filterUlFeedback False.elim
        cases heq
        exact not_err_inactiveProcess (hspec.error hkept)
      · simp only [← hsome] at hall
        rw [filterUlFeedback_eq_ok.2 ⟨hall, rfl⟩] at hkept
        cases hkept
    | ok kept =>
      obtain ⟨hall, rfl⟩ := filterUlFeedback_eq_ok.1 hkept
      have hexist : ∀ f ∈ (mergedUl s inp).filter (isActiveAt ues),
          (procAt .ul ues f.key).isSome := fun f hf => hall f (mem_filter.1 hf).1
      have hfatal := processHARQFeedbacks_fatal_iff hok hexist
      rw [fatal_iff, pairwise_kept_iff hat] at hfatal
      simp only [hsome] at hall
      have hcond : UlFeedbackOk cfg s inp ↔ ¬ processHARQFeedbacks cfg .ul ues
          ((mergedUl s inp).filter (isActiveAt ues)) = .error .inactiveProcess := by
        rw [hfatal, not_or, not_not]
        refine ⟨fun hpw => ⟨?_, hpw hall⟩, fun hpw _ => hpw.2⟩
        rintro ⟨f, hf, hnone⟩
        exact rvAt_of_kept hf hnone
      rw [hcond]
      change (processHARQFeedbacks cfg .ul ues _ >>= _) ≠ _ ↔ _
      cases hproc : processHARQFeedbacks cfg .ul ues ((mergedUl s inp).filter (isActiveAt ues)) with
      | error e =>
        refine not_congr ⟨fun heq => ?_, fun heq => ?_⟩
        · cases heq
          rfl
        · cases heq
          rfl
      | ok r =>
        have hspec : Spec (FeedbackErr False) _ (processHARQFeedbacks cfg .ul ues
          ((mergedUl s inp).filter (isActiveAt ues))) := spec_processHARQFeedbacks hok False.elim
        refine iff_of_true ?_ fun h => ?_
        · exact scheduleUl_ne_inactiveProcess ⟨(hspec.ok hproc).1, h.ok.beams⟩ rfl
        · cases h

/-- A UL slot with the given feedback, in which every UE has bytes to send. -/
def UlTrigger.busy (fs : List HarqInfo) : UlTrigger where
  harqInfoList := fs
  slotType := .ul
  srsRnti := 0
  buffered := fun _ => 100
  symPerBeam := fun _ => 2
  newDci := fun _ => some ⟨11, 2, 5, 1, 50, [true], [⟨1, 50⟩]⟩
  order := .id

theorem exists_waiting : ∃ s, Sched.Reachable .small s ∧
    s.call .small (.ulTrigger (.busy [⟨1, 0, true⟩, ⟨1, 0, true⟩])) = .error .inactiveProcess ∧
    s.call .small (.ulTrigger (.busy [⟨1, 0, false⟩])) ≠ .error .inactiveProcess := by
  have hrun : ((Lts.execs Lts.anyStep (Sched.step? .small) Sched.init
      [.ueConfig 1 ⟨0, 0⟩ .id, .ulTrigger (.busy [])]).map fun s =>
        (decide (s.call .small (.ulTrigger (.busy [⟨1, 0, true⟩, ⟨1, 0, true⟩])) =
          .error .inactiveProcess),
        decide (s.call .small (.ulTrigger (.busy [⟨1, 0, false⟩])) ≠ .error .inactiveProcess))) =
      some (true, true) := by decide
  obtain ⟨s, hs, hv⟩ := map_eq_some_iff.1 hrun
  simp only [Prod.mk.injEq, decide_eq_true_eq] at hv
  exact ⟨s, Lts.run_of_execs Sched.step_of_step? hs, hv⟩

/-- A NACK for the process meets the condition, two ACKs do not. -/
theorem ul_feedback_ok_example : ∃ s, Sched.Reachable .small s ∧
    UlFeedbackOk .small s (.busy [⟨1, 0, false⟩]) ∧
    ¬ UlFeedbackOk .small s (.busy [⟨1, 0, true⟩, ⟨1, 0, true⟩]) := by
  obtain ⟨s, hs, hfatal, hok⟩ := exists_waiting
  refine ⟨s, hs, (ul_feedback_ok_iff hs _).1 hok, fun hcond => ?_⟩
  exact (ul_feedback_ok_iff hs _).2 hcond hfatal

/-- Two ACKs for one process reach the fatal error. -/
theorem ul_feedback_fatal : ∃ s inp, Sched.Reachable .small s ∧
    s.call .small (.ulTrigger inp) = .error .inactiveProcess := by
  obtain ⟨s, hs, hfatal, -⟩ := exists_waiting
  exact ⟨s, _, hs, hfatal⟩

end OranNs3
