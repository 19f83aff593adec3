import OranNs3.Sched.Beams
import OranNs3.Sched.SymPerBeam

/-!
# The rotation of the beams

In rounds, each symbol goes to the first active beam of the queue, which is then rotated behind that
beam. So the queue of the active beams alone is rotated by one for each symbol
(`getSymPerBeam_rotated`). Of two beams that are active in all calls of a sequence, whatever other
beams appear and disappear, the one has its turn after the other: their symbols in all these calls
differ by one at most (`sum_symOf_le`).
-/

namespace OranNs3.Ofdma

open List

namespace Rr

variable {active rrBeams : List BeamId} {ret : BeamSymbolMap} {a b : BeamId}

theorem nextBeam_spec (active l r : List BeamId) :
    (nextBeam active l.length (l ++ r) = (r ++ l, none) ∧ ∀ x ∈ l, x ∉ active) ∨
      ∃ pre b post, l = pre ++ b :: post ∧ (∀ x ∈ pre, x ∉ active) ∧ b ∈ active ∧
        nextBeam active l.length (l ++ r) = (post ++ r ++ pre ++ [b], some b) := by
  induction l generalizing r with
  | nil => exact .inl ⟨by simp [nextBeam], by simp⟩
  | cons x l ih =>
    rw [length_cons, cons_append, nextBeam]
    by_cases hx : x ∈ active
    · refine .inr ⟨[], x, l, rfl, by simp, hx, ?_⟩
      rw [if_pos hx, append_nil]
    · rw [if_neg hx, append_assoc]
      rcases ih (r ++ [x]) with ⟨heq, hl⟩ | ⟨pre, b, post, rfl, hpre, hb, heq⟩
      · exact .inl ⟨by rw [heq, append_assoc, singleton_append], forall_mem_cons.2 ⟨hx, hl⟩⟩
      · refine .inr ⟨x :: pre, b, post, rfl, forall_mem_cons.2 ⟨hx, hpre⟩, hb, ?_⟩
        rw [heq]
        simp

theorem symbol_spec (h : ∃ x ∈ rrBeams, x ∈ active) (ret : BeamSymbolMap) :
    ∃ pre b post, rrBeams = pre ++ b :: post ∧ (∀ x ∈ pre, x ∉ active) ∧ b ∈ active ∧
      symbol active (rrBeams, ret) = (post ++ pre ++ [b], addSymbol b ret) := by
  have hspec := nextBeam_spec active rrBeams []
  rw [append_nil] at hspec
  rcases hspec with ⟨-, hnone⟩ | ⟨pre, b, post, heq, hpre, hb, hnext⟩
  · obtain ⟨x, hx, hact⟩ := h
    exact absurd hact (hnone x hx)
  · refine ⟨pre, b, post, heq, hpre, hb, ?_⟩
    rw [append_nil] at hnext
    rw [symbol, hnext]

/-! ## One call -/

/-- The queue, and the queue of the active beams alone, after so many symbols. -/
structure Rotated (active rrBeams : List BeamId) (n : Nat) (rrBeams' : List BeamId) : Prop where
  queue : rrBeams'.IsRotated rrBeams
  turns : rrBeams'.filter (· ∈ active) = (rrBeams.filter (· ∈ active)).rotate n

theorem Rotated.zero (active rrBeams : List BeamId) : Rotated active rrBeams 0 rrBeams :=
  ⟨.refl _, (rotate_zero _).symm⟩

theorem symbol_rotated (h : ∃ x ∈ rrBeams, x ∈ active) (ret : BeamSymbolMap) :
    Rotated active rrBeams 1 (symbol active (rrBeams, ret)).1 := by
  obtain ⟨pre, b, post, rfl, hpre, hb, heq⟩ := symbol_spec h ret
  rw [heq]
  refine ⟨?_, ?_⟩
  · have hrot : (post ++ (pre ++ [b])).IsRotated ((pre ++ [b]) ++ post) := isRotated_append
    rwa [← append_assoc, append_assoc pre, singleton_append] at hrot
  · have hnone : pre.filter (· ∈ active) = [] := filter_eq_nil_iff.2 fun x hx => by
      simpa using hpre x hx
    simp [hnone, hb]

theorem symbols_rotated (n : Nat) (h : ∃ x ∈ rrBeams, x ∈ active) (ret : BeamSymbolMap) :
    Rotated active rrBeams n (symbols active n (rrBeams, ret)).1 := by
  induction n generalizing rrBeams ret with
  | zero => exact .zero _ _
  | succ n ih =>
    have hone := symbol_rotated h ret
    obtain ⟨x, hx, hact⟩ := h
    have hrest := ih ⟨x, hone.queue.mem_iff.2 hx, hact⟩ (symbol active (rrBeams, ret)).2
    rw [symbols]
    refine ⟨hrest.queue.trans hone.queue, hrest.turns.trans ?_⟩
    rw [hone.turns, rotate_rotate, Nat.add_comm]

theorem symbols_spec (active : ActiveUeMap) (n : Nat)
    (h : ∃ x ∈ rrBeams, x ∈ active.beams.map Prod.fst) (hret : OfActive ret active) :
    OfActive (symbols (active.beams.map Prod.fst) n (rrBeams, ret)).2 active ∧
      totalSymbols (symbols (active.beams.map Prod.fst) n (rrBeams, ret)).2 =
        totalSymbols ret + n := by
  induction n generalizing rrBeams ret with
  | zero => exact ⟨hret, rfl⟩
  | succ n ih =>
    have hqueue := (symbol_rotated h ret).queue
    obtain ⟨pre, b, post, -, -, hb, heq⟩ := symbol_spec h ret
    obtain ⟨x, hx, hact⟩ := h
    have hof : OfActive (symbol (active.beams.map Prod.fst) (rrBeams, ret)).2 active := by
      rw [heq]
      exact hret.addSymbol hb
    obtain ⟨hall, htotal⟩ := ih ⟨x, hqueue.mem_iff.2 hx, hact⟩ hof
    rw [symbols]
    refine ⟨hall, htotal.trans ?_⟩
    rw [heq, totalSymbols_addSymbol]
    omega

theorem exists_active (rrBeams : List BeamId) {active : ActiveUeMap} (hne : active.beams ≠ []) :
    ∃ x ∈ enqueueBeams rrBeams (active.beams.map Prod.fst), x ∈ active.beams.map Prod.fst := by
  obtain ⟨e, he⟩ := exists_mem_of_ne_nil _ hne
  have hmem : e.1 ∈ active.beams.map Prod.fst := mem_map_of_mem he
  exact ⟨e.1, subset_enqueueBeams e.1 (.inl hmem), hmem⟩

theorem getSymPerBeam_rotated (rrBeams : List BeamId) (symAvail : Nat) {active : ActiveUeMap}
    (hne : active.beams ≠ []) :
    Rotated (active.beams.map Prod.fst) (enqueueBeams rrBeams (active.beams.map Prod.fst)) symAvail
      (getSymPerBeam rrBeams symAvail active).1 :=
  symbols_rotated symAvail (exists_active rrBeams hne) []

theorem getSymPerBeam_distributes (rrBeams : List BeamId) (symAvail : Nat) {active : ActiveUeMap}
    (hne : active.beams ≠ []) :
    Distributes (Ofdma.getSymPerBeam (getSymPerBeam rrBeams symAvail active).2 active) active
      symAvail := by
  obtain ⟨hof, htotal⟩ := symbols_spec active symAvail (exists_active rrBeams hne) (.nil active)
  have hdist := hof.distributes
  rw [htotal] at hdist
  exact ⟨hdist.beams, hdist.total.trans (Nat.zero_add _)⟩

/-! ## Two beams -/

/-- Those of two beams, in the order of the queue. -/
def pair (a b : BeamId) (rrBeams : List BeamId) : List BeamId :=
  rrBeams.filter fun x => x = a ∨ x = b

/-- `a` comes before `b`, and both have as many symbols; or it had its turn. -/
def Turn (a b : BeamId) (rrBeams : List BeamId) (m n : Nat) : Prop :=
  pair a b rrBeams = [a, b] ∧ m = n ∨ pair a b rrBeams = [b, a] ∧ m = n + 1

variable {m n : Nat}

theorem pair_append (a b : BeamId) (l l' : List BeamId) :
    pair a b (l ++ l') = pair a b l ++ pair a b l' := filter_append ..

theorem pair_eq_nil {l : List BeamId} (ha : a ∉ l) (hb : b ∉ l) : pair a b l = [] := by
  refine filter_eq_nil_iff.2 fun x hx => ?_
  simp only [decide_eq_true_eq]
  rintro (rfl | rfl)
  · exact ha hx
  · exact hb hx

/-- One symbol. -/
theorem Turn.symbol (h : Turn a b rrBeams m n) (hne : a ≠ b) (ha : a ∈ active) (hb : b ∈ active)
    (ret : BeamSymbolMap) :
    ∃ x, (symbol active (rrBeams, ret)).2 = addSymbol x ret ∧
      Turn a b (symbol active (rrBeams, ret)).1 (m + if a = x then 1 else 0)
        (n + if b = x then 1 else 0) := by
  have hmem : a ∈ rrBeams := by
    have hpair : a ∈ pair a b rrBeams := by
      rcases h with ⟨heq, -⟩ | ⟨heq, -⟩ <;> simp [heq]
    exact (mem_filter.1 hpair).1
  obtain ⟨pre, x, post, rfl, hpre, hx, heq⟩ := symbol_spec ⟨a, hmem, ha⟩ ret
  have hnone : pair a b pre = [] := pair_eq_nil (fun hmem => hpre a hmem ha) fun hmem =>
    hpre b hmem hb
  refine ⟨x, by rw [heq], ?_⟩
  rw [heq]
  unfold Turn at h ⊢
  rw [← singleton_append, pair_append, pair_append, hnone, nil_append] at h
  rw [pair_append, pair_append, hnone, append_nil]
  rcases eq_or_ne x a with rfl | hxa
  · -- the turn of `a`
    have hself : pair x b [x] = [x] := by simp [pair]
    rw [hself, singleton_append] at h
    rcases h with ⟨hpair, rfl⟩ | ⟨hpair, -⟩
    · refine .inr ⟨?_, by simp [Ne.symm hne]⟩
      rw [(cons.inj hpair).2, hself]
      rfl
    · exact absurd (cons.inj hpair).1 hne
  rcases eq_or_ne x b with rfl | hxb
  · -- the turn of `b`
    have hself : pair a x [x] = [x] := by simp [pair]
    rw [hself, singleton_append] at h
    rcases h with ⟨hpair, -⟩ | ⟨hpair, rfl⟩
    · exact absurd (cons.inj hpair).1 (Ne.symm hne)
    · refine .inl ⟨?_, by simp [hne]⟩
      rw [(cons.inj hpair).2, hself]
      rfl
  · have hother : pair a b [x] = [] := pair_eq_nil (by simpa using hxa.symm)
      (by simpa using hxb.symm)
    rw [hother, nil_append] at h
    rw [hother, append_nil, if_neg hxa.symm, if_neg hxb.symm]
    exact h

theorem Turn.symbols (k : Nat) (h : Turn a b rrBeams (m + symOf ret a) (n + symOf ret b))
    (hne : a ≠ b) (ha : a ∈ active) (hb : b ∈ active) :
    Turn a b (symbols active k (rrBeams, ret)).1 (m + symOf (symbols active k (rrBeams, ret)).2 a)
      (n + symOf (symbols active k (rrBeams, ret)).2 b) := by
  induction k generalizing rrBeams ret with
  | zero => exact h
  | succ k ih =>
    obtain ⟨x, heq, hturn⟩ := h.symbol hne ha hb ret
    rw [Rr.symbols]
    generalize Rr.symbol active (rrBeams, ret) = st at heq hturn
    obtain ⟨rrBeams', ret'⟩ := st
    obtain rfl : ret' = addSymbol x ret := heq
    refine ih ?_
    rw [symOf_addSymbol, symOf_addSymbol, ← Nat.add_assoc, ← Nat.add_assoc]
    exact hturn

theorem pair_enqueueBeams (ha : a ∈ rrBeams) (hb : b ∈ rrBeams) (l : List BeamId) :
    pair a b (enqueueBeams rrBeams l) = pair a b rrBeams := by
  unfold enqueueBeams
  induction l generalizing rrBeams with
  | nil => rfl
  | cons x l ih =>
    rw [foldl_cons]
    split
    · exact ih ha hb
    next hx =>
      rw [ih (mem_append_left _ ha) (mem_append_left _ hb), pair_append]
      have hnone : pair a b [x] = [] := by
        refine pair_eq_nil (fun hmem => ?_) fun hmem => ?_
        · exact hx (mem_singleton.1 hmem ▸ ha)
        · exact hx (mem_singleton.1 hmem ▸ hb)
      rw [hnone, append_nil]

theorem Turn.mem (h : Turn a b rrBeams m n) : a ∈ rrBeams ∧ b ∈ rrBeams := by
  have hpair : a ∈ pair a b rrBeams ∧ b ∈ pair a b rrBeams := by
    rcases h with ⟨heq, -⟩ | ⟨heq, -⟩ <;> simp [heq]
  exact ⟨(mem_filter.1 hpair.1).1, (mem_filter.1 hpair.2).1⟩

theorem turn_or_turn (hnd : rrBeams.Nodup) (hne : a ≠ b) (ha : a ∈ rrBeams) (hb : b ∈ rrBeams) :
    Turn a b rrBeams 0 0 ∨ Turn b a rrBeams 0 0 := by
  have hperm : (pair a b rrBeams).Perm [a, b] := by
    refine (perm_ext_iff_of_nodup (hnd.filter _) (by simpa using hne)).2 fun x => ?_
    simp only [mem_filter, decide_eq_true_eq, mem_cons, not_mem_nil, or_false]
    refine and_iff_right_of_imp ?_
    rintro (rfl | rfl)
    · exact ha
    · exact hb
  have hcomm : pair b a rrBeams = pair a b rrBeams := by
    simp only [pair, or_comm]
  unfold Turn
  rw [hcomm]
  generalize pair a b rrBeams = l at hperm
  obtain ⟨x, y, rfl⟩ := length_eq_two.1 hperm.length_eq
  rcases mem_pair.1 (hperm.subset mem_cons_self) with rfl | rfl
  · have hy := perm_singleton.1 (hperm.cons_inv)
    exact .inl (.inl ⟨by rw [hy], rfl⟩)
  · have hy := perm_singleton.1 ((hperm.trans (Perm.swap _ _ _)).cons_inv)
    exact .inr (.inl ⟨by rw [hy], rfl⟩)

/-! ## Sequences of calls -/

/-- The calls one after the other, and what the scheduler makes of their results. -/
def run (rrBeams : List BeamId) : List (Nat × ActiveUeMap) → List BeamId × List BeamSymbolMap
  | [] => (rrBeams, [])
  | c :: calls =>
    let r := getSymPerBeam rrBeams c.1 c.2
    let rest := run r.1 calls
    (rest.1, Ofdma.getSymPerBeam r.2 c.2 :: rest.2)

/-- Both beams are active. -/
def BothActive (a b : BeamId) (c : Nat × ActiveUeMap) : Prop :=
  a ∈ c.2.beams.map Prod.fst ∧ b ∈ c.2.beams.map Prod.fst

theorem symOf_getSymPerBeam (ret : BeamSymbolMap) (active : ActiveUeMap) (b : BeamId) :
    symOf (Ofdma.getSymPerBeam ret active) b = symOf ret b := by
  unfold Ofdma.getSymPerBeam
  generalize active.beams = l
  induction l generalizing ret with
  | nil => rfl
  | cons e l ih =>
    rw [foldl_cons, ih]
    split
    · rfl
    · unfold symOf Keyed.find?
      rw [find?_append]
      cases ret.find? fun r => r.1 == b with
      | some r => rfl
      | none =>
        rw [Option.none_or, find?_singleton]
        split <;> rfl

theorem Turn.getSymPerBeam (c : Nat × ActiveUeMap) (hc : BothActive a b c) (hne : a ≠ b)
    (h : Turn a b (enqueueBeams rrBeams (c.2.beams.map Prod.fst)) m n) :
    Turn a b (getSymPerBeam rrBeams c.1 c.2).1 (m + symOf (getSymPerBeam rrBeams c.1 c.2).2 a)
      (n + symOf (getSymPerBeam rrBeams c.1 c.2).2 b) := by
  refine Turn.symbols c.1 ?_ hne hc.1 hc.2
  exact h

theorem Turn.run (calls : List (Nat × ActiveUeMap)) (hcalls : ∀ c ∈ calls, BothActive a b c)
    (hne : a ≠ b) (h : Turn a b rrBeams m n) :
    Turn a b (run rrBeams calls).1 (m + ((run rrBeams calls).2.map fun ret => symOf ret a).sum)
      (n + ((run rrBeams calls).2.map fun ret => symOf ret b).sum) := by
  induction calls generalizing rrBeams m n with
  | nil => exact h
  | cons c calls ih =>
    obtain ⟨hc, hcalls⟩ := forall_mem_cons.1 hcalls
    obtain ⟨ha, hb⟩ := h.mem
    have hcall : Turn a b (enqueueBeams rrBeams (c.2.beams.map Prod.fst)) m n := by
      unfold Turn
      rw [pair_enqueueBeams ha hb]
      exact h
    have hrest := ih hcalls (hcall.getSymPerBeam c hc hne)
    rw [Rr.run]
    dsimp only
    rw [map_cons, map_cons, sum_cons, sum_cons, symOf_getSymPerBeam, symOf_getSymPerBeam,
      ← Nat.add_assoc, ← Nat.add_assoc]
    exact hrest

theorem Turn.le (h : Turn a b rrBeams m n) : m ≤ n + 1 ∧ n ≤ m := by
  rcases h with ⟨-, rfl⟩ | ⟨-, rfl⟩ <;> omega

theorem symbols_perm (n : Nat) (st : List BeamId × BeamSymbolMap) :
    (symbols active n st).1.Perm st.1 := by
  induction n generalizing st with
  | zero => exact .refl _
  | succ n ih =>
    refine (ih (symbol active st)).trans ?_
    have hspec := nextBeam_spec active st.1 []
    rw [append_nil] at hspec
    rcases hspec with ⟨heq, -⟩ | ⟨pre, b, post, hqueue, -, -, heq⟩
    · rw [symbol, heq]
      exact .refl _
    · rw [symbol, heq]
      dsimp only
      rw [hqueue, append_nil]
      exact perm_append_singleton b _ |>.trans (List.perm_append_comm.cons b) |>.trans
        List.perm_middle.symm

theorem nodup_getSymPerBeam (h : rrBeams.Nodup) (c : Nat × ActiveUeMap) :
    (getSymPerBeam rrBeams c.1 c.2).1.Nodup :=
  (symbols_perm c.1 _).nodup_iff.2 (nodup_enqueueBeams (c.2.beams.map Prod.fst) h)

theorem nodup_run (h : rrBeams.Nodup) (calls : List (Nat × ActiveUeMap)) :
    (run rrBeams calls).1.Nodup := by
  induction calls generalizing rrBeams with
  | nil => exact h
  | cons c calls ih => exact ih (nodup_getSymPerBeam h c)

theorem sum_symOf_le (hnd : rrBeams.Nodup) (calls : List (Nat × ActiveUeMap))
    (hcalls : ∀ c ∈ calls, BothActive a b c) :
    ((run rrBeams calls).2.map fun ret => symOf ret a).sum ≤
      ((run rrBeams calls).2.map fun ret => symOf ret b).sum + 1 := by
  rcases eq_or_ne a b with rfl | hne
  · exact Nat.le_succ _
  cases calls with
  | nil => exact Nat.zero_le _
  | cons c calls =>
    obtain ⟨hc, hrest⟩ := forall_mem_cons.1 hcalls
    have ha : a ∈ enqueueBeams rrBeams (c.2.beams.map Prod.fst) := subset_enqueueBeams a (.inl hc.1)
    have hb : b ∈ enqueueBeams rrBeams (c.2.beams.map Prod.fst) := subset_enqueueBeams b (.inl hc.2)
    rw [run]
    dsimp only
    rw [map_cons, map_cons, sum_cons, sum_cons, symOf_getSymPerBeam, symOf_getSymPerBeam]
    rcases turn_or_turn (nodup_enqueueBeams (c.2.beams.map Prod.fst) hnd) hne ha hb with
      hturn | hturn
    · have hall := ((hturn.getSymPerBeam c hc hne).run calls hrest hne).le
      rw [Nat.zero_add, Nat.zero_add] at hall
      exact hall.1
    · have hall := ((hturn.getSymPerBeam c hc.symm (Ne.symm hne)).run calls
        (fun c hc => (hrest c hc).symm) (Ne.symm hne)).le
      rw [Nat.zero_add, Nat.zero_add] at hall
      exact Nat.le_succ_of_le hall.2

theorem run_distributes (rrBeams : List BeamId) (calls : List (Nat × ActiveUeMap)) :
    Forall₂ (fun c ret => c.2.beams ≠ [] → Distributes ret c.2 c.1) calls
      (run rrBeams calls).2 := by
  induction calls generalizing rrBeams with
  | nil => exact .nil
  | cons c calls ih => exact .cons (getSymPerBeam_distributes rrBeams c.1) (ih _)

end Rr

/-- All three policies, with the entries that the scheduler adds. By load, all symbols of a slot, of
which there are at most 255, are distributed over the active beams. In rounds, after any calls: all
symbols are distributed; the symbols of two beams that are active in all calls of a sequence, such
as one call, differ by at most one; and each call rotates the queue, by one active beam for each
symbol. Proportionally fair, no more symbols are distributed than there are. -/
theorem getSymPerBeam_conserves :
    (∀ (symAvail : Nat) (active : ActiveLoads), symAvail < 256 → active.beams ≠ [] →
      ∃ ret, Lb.getSymPerBeam symAvail active.toActiveUeMap = .ok ret ∧
        Distributes (getSymPerBeam ret active.toActiveUeMap) active.toActiveUeMap symAvail) ∧
    (∀ earlier calls : List (Nat × ActiveUeMap),
      List.Forall₂ (fun c ret => c.2.beams ≠ [] → Distributes ret c.2 c.1) calls
        (Rr.run (Rr.run [] earlier).1 calls).2 ∧ (∀ a b, (∀ c ∈ calls, Rr.BothActive a b c) →
        ((Rr.run (Rr.run [] earlier).1 calls).2.map fun ret => symOf ret a).sum ≤
          ((Rr.run (Rr.run [] earlier).1 calls).2.map fun ret => symOf ret b).sum + 1) ∧
      ∀ (symAvail : Nat) (active : ActiveUeMap), active.beams ≠ [] →
        Rr.Rotated (active.beams.map Prod.fst)
          (enqueueBeams (Rr.run [] earlier).1 (active.beams.map Prod.fst)) symAvail
            (Rr.getSymPerBeam (Rr.run [] earlier).1 symAvail active).1) ∧
    ∀ (payloadSize : Nat → Nat) (beams : BeamId → Option Pf.BeamTbs) (symAvail : Nat)
      (active : ActiveUeMap), ∃ n ≤ symAvail,
        Distributes (getSymPerBeam (Pf.getSymPerBeam payloadSize beams symAvail active).2 active)
          active n := by
  refine ⟨fun symAvail active hsym hne => ?_, fun earlier calls =>
    ⟨Rr.run_distributes _ calls, fun a b hcalls => ?_, ?_⟩, ?_⟩
  · obtain ⟨ret, hret, hof, htotal⟩ := Lb.getSymPerBeam_spec active hne hsym
    refine ⟨ret, hret, ?_⟩
    rw [← htotal]
    exact hof.distributes
  · exact Rr.sum_symOf_le (Rr.nodup_run nodup_nil earlier) calls hcalls
  · exact fun symAvail active hne => Rr.getSymPerBeam_rotated _ symAvail hne
  · intro payloadSize beams symAvail active
    obtain ⟨hof, hle⟩ := Pf.getSymPerBeam_spec payloadSize beams symAvail active
    exact ⟨_, hle, hof.distributes⟩

/-- Two beams with 100 and 300 bytes. -/
def twoBeams : ActiveLoads where
  beams := [(⟨0, 0⟩, [(1, 100)]), (⟨1, 0⟩, [(2, 300)])]
  keys := by decide
  nodup := by decide
  nonempty := by decide
  rnti := by decide
  bytes := by decide

/-- By load and proportionally fair in 12 symbols, and in rounds in 5. -/
theorem getSymPerBeam_conserves_two :
    (∃ ret, Lb.getSymPerBeam 12 twoBeams.toActiveUeMap = .ok ret ∧
      Distributes (getSymPerBeam ret twoBeams.toActiveUeMap) twoBeams.toActiveUeMap 12) ∧
    Distributes (getSymPerBeam (Rr.getSymPerBeam [] 5 twoBeams.toActiveUeMap).2
      twoBeams.toActiveUeMap) twoBeams.toActiveUeMap 5 ∧
    ∃ n ≤ 12, Distributes
      (getSymPerBeam (Pf.getSymPerBeam (fun _ => 50) (fun _ => none) 12 twoBeams.toActiveUeMap).2
        twoBeams.toActiveUeMap) twoBeams.toActiveUeMap n := by
  refine ⟨getSymPerBeam_conserves.1 12 twoBeams (by decide) (by decide), ?_,
    getSymPerBeam_conserves.2.2 _ _ 12 _⟩
  have hcalls := (getSymPerBeam_conserves.2.1 [] [(5, twoBeams.toActiveUeMap)]).1
  cases hcalls with
  | cons hcall _ => exact hcall (by decide)

end OranNs3.Ofdma
